import Msgin.BreakerProbes
import Msgin.ProducerCalls

/-!
# The park at an open breaker

The ingress goroutine of a consumer over the shipped breaker. Between two of its calls the workers
record outcomes, callers ask the breaker and its cooldown timer fires, in any order. The goroutine
subscribes to the wake channel, checks the breaker again and only then parks, so that the channel it
parks on is closed already or is the one that the next entry into half-open closes.
-/

namespace Msgin

open Interaction Prog TransitionRuns Resilience

variable {P T : Type}

structure Ingress (P T : Type) where
  breaker : Breaker
  goroutine : Routine P T (Control P)
  -- The local variable of `admitBreaker`, from the first subscription on.
  wake : Option ℕ
  ctxDone : Bool

inductive IngressLabel (P T : Type)
  | breaker (op : BreakerOp)
  | call (answer : (q : Call P T) → q.Answer)
  | nextPass
  | cancel

namespace Ingress

def start (c : Consumer P T) (ctl : Control P) (now : ℤ) : Ingress P T :=
  ⟨.new now, producer c ctl, none, false⟩

/-- Whether a call can return this answer now. The shipped breaker does not panic. -/
def answers (s : Ingress P T) (q : Call P T) (r : q.Answer) : Bool :=
  match q, r with
  | .allow, allowed => allowed = .returned s.breaker.allow
  | .halfOpen, ch => ch = .returned ()
  | .park, woken => if woken then s.wake.any (· ∈ s.breaker.closedChans) else s.ctxDone
  | _, _ => true

def subscribe (s : Ingress P T) : Call P T → Option ℕ
  | .halfOpen => some s.breaker.halfOpen
  | _ => s.wake

def step (cfg : BreakerConfig) (c : Consumer P T) (s : Ingress P T) :
    IngressLabel P T → Option (Ingress P T)
  | .breaker op => (s.breaker.step cfg op).map fun b => { s with breaker := b }
  | .call answer =>
      match s.goroutine with
      | .ask q k =>
          if s.answers q (answer q) then
            some { s with goroutine := k (answer q), wake := s.subscribe q }
          else none
      | .ret _ => none
  | .nextPass =>
      match s.goroutine with
      | .ret ctl => some { s with goroutine := producer c ctl }
      | .ask _ _ => none
  | .cancel => some { s with ctxDone := true }

/-- The goroutine is in the select of the wake channel against `ctx.Done`. -/
def parked (s : Ingress P T) : Bool :=
  match s.goroutine with
  | .ask .park _ => true
  | _ => false

end Ingress

/-- What the goroutine has done towards the next park. -/
inductive ParkWatch
  | idle
  | subscribed
  | rechecked

namespace ParkWatch

/-- A park is only in order after a subscription that was followed by a check that reported open. -/
def next (m : ParkWatch) (q : Call P T) (r : q.Answer) : Option ParkWatch :=
  match q, r with
  | .halfOpen, .returned _ => some .subscribed
  | .allow, .returned false =>
      match m with
      | .idle => some .idle
      | .subscribed | .rechecked => some .rechecked
  | .park, _ =>
      match m with
      | .rechecked => some .idle
      | _ => none
  | _, _ => some m

variable (c : Consumer P T) (N : ℕ) (d : Delivery P) (m : ParkWatch)

theorem next_of_ne_park (q : Call P T) (r : q.Answer) (hq : q ≠ .park) :
    ∃ m', m.next q r = some m' := by
  cases q with
  | park => exact absurd rfl hq
  | allow =>
      rcases r with (_ | _) | _
      · cases m <;> exact ⟨_, rfl⟩
      · exact ⟨_, rfl⟩
      · exact ⟨_, rfl⟩
  | halfOpen => cases r <;> exact ⟨_, rfl⟩
  | _ => exact ⟨_, rfl⟩

theorem meets_of_only {α : Type} {p : Routine P T α} (hp : Only (fun q => q ≠ .park) p)
    (m : ParkWatch) : Meets next (fun _ _ => True) p m :=
  hp.meets (I := fun _ => True)
    (fun m q r hq _ => (next_of_ne_park m q r hq).imp fun _ h => ⟨h, trivial⟩) trivial

theorem ne_park_of_isIngress {q : Call P T} (h : q.isIngress = false) : q ≠ .park := by
  rintro rfl
  cases h

theorem ne_park_of_isGovernor {q : Call P T} (h : q.isGovernor = true) : q ≠ .park := by
  rintro rfl
  cases h

theorem next_of_isGovernor (q : Call P T) (r : q.Answer) (hq : q.isGovernor = true) :
    next .idle q r = some .idle := by
  cases q with
  | allow => rcases r with (_ | _) | _ <;> rfl
  | _ => first | rfl | cases hq

theorem ne_park_nack_bind {α : Type} {p : Routine P T α} (hp : Only (fun q => q ≠ .park) p) :
    Only (fun q => q ≠ .park) (do
      finish (← safeNack d true 0)
      p) :=
  only_nack_bind (fun _ hq _ => ne_park_of_isIngress hq) d true hp

theorem meets_admitCredit : Meets next (fun _ _ => True) (admitCredit c N d) m :=
  meets_of_only (only_admitCredit (fun _ hq => ne_park_of_isIngress hq) c N d) m

theorem meets_safeHalfOpen (id : String) :
    Meets next (fun ok m => ok = true → m = .subscribed) (safeHalfOpen id : Routine P T Bool)
      .idle := by
  intro ch
  cases ch with
  | returned u => exact ⟨.subscribed, rfl, fun _ => rfl⟩
  | panicked r =>
      refine ⟨.idle, rfl, ?_⟩
      exact (only_governorPanic (fun _ hq => hq) _ id r).meets_bind (next_of_isGovernor)
        fun _ h => (by cases h)

theorem meets_recheck (id : String) :
    Meets next (fun ok m => ok = false → m = .rechecked) (safeAllow id : Routine P T Bool)
      .subscribed := by
  intro allowed
  rcases allowed with (_ | _) | r
  · exact ⟨.rechecked, rfl, fun _ => rfl⟩
  · exact ⟨.subscribed, rfl, fun h => (by cases h)⟩
  · refine ⟨.subscribed, rfl, ?_⟩
    change Meets next _ (governorPanic _ id r >>= fun _ => pure true) .subscribed
    rw [meets_bind]
    have hpanic : Only (fun q => q ≠ .park) (governorPanic "CircuitBreaker.Allow" id r :
        Routine P T Unit) := only_governorPanic (fun _ hq => ne_park_of_isGovernor hq) _ id r
    exact (meets_of_only hpanic .subscribed).mono fun _ _ _ h => (by cases h)

theorem meets_admitBreaker : Meets next (fun _ _ => True) (admitBreaker c N d) .idle := by
  have hcredit := meets_admitCredit c N d
  unfold admitBreaker
  split
  · exact hcredit .idle
  refine (only_safeAllow (fun _ hq => hq) d.msg.id).meets_bind next_of_isGovernor fun allowed => ?_
  split
  · exact hcredit .idle
  rw [meets_bind]
  refine (meets_safeHalfOpen d.msg.id).mono fun usable m hm => ?_
  cases usable with
  | false => exact hcredit m
  | true =>
      obtain rfl := hm rfl
      rw [if_neg (by decide), meets_bind]
      refine (meets_recheck d.msg.id).mono fun allowed' m hm => ?_
      cases allowed' with
      | true => exact hcredit m
      | false =>
          obtain rfl := hm rfl
          intro woken
          refine ⟨.idle, rfl, ?_⟩
          cases woken with
          | true => trivial
          | false => exact meets_of_only (ne_park_nack_bind d (only_pure _)) .idle

theorem meets_ingest : Meets next (fun _ _ => True) (ingest c N) .idle := by
  refine meets_of_only (Only.bind (only_perform (by intro h; cases h)) fun received => ?_) .idle
  cases received with
  | ctxDone => exact only_pure _
  | closed => exact only_pure _
  | delivery msg =>
      show Only _ (admitDelivery c (N + 1) ⟨N, msg, false⟩)
      unfold admitDelivery
      split
      · refine Only.bind (only_safeLimiterWait (fun _ hq => ne_park_of_isGovernor hq)
          (by intro h; cases h) _) fun err => ?_
        cases err with
        | none => exact only_pure _
        | some err => exact ne_park_nack_bind _ (only_pure _)
      · exact only_pure _

theorem meets_producer (ctl : Control P) : Meets next (fun _ _ => True) (producer c ctl) .idle := by
  cases ctl with
  | pollLoop N errN =>
      exact meets_of_only (only_pollLoop (fun _ hq => ne_park_of_isIngress hq) c N errN) .idle
  | ingest N => exact meets_ingest c N
  | admitBreaker N d => exact meets_admitBreaker c N d
  | stopped => trivial

end ParkWatch

end Msgin
