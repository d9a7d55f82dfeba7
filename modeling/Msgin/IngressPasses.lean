import Mathlib.Data.List.DropRight
import Msgin.ProducerCalls
import Msgin.ProducerRuns

/-!
# What the ingress governors let pass

A consumer with a rate limiter and a circuit breaker asks both before it forwards a delivery of a
stream. The monitor `Passes` keeps what they have said about the delivery in the producer's hands and
rejects a placement that has not passed them.
-/

namespace Msgin

open Interaction Prog TransitionRuns

variable {P T : Type} {c : Consumer P T}

namespace Event

def placed : Event P T → Bool
  | ⟨.handOff _, sent⟩ => sent
  | _ => false

def received : Event P T → Bool
  | ⟨.receive, _⟩ => true
  | _ => false

/-- The limiter lets a delivery pass, or its panic is recovered. -/
def waited : Event P T → Bool
  | ⟨.limiterWait, .returned err⟩ => err.isNone
  | ⟨.limiterWait, .panicked _⟩ => true
  | _ => false

/-- The breaker reports that it is not open, or its panic is recovered. -/
def notOpen : Event P T → Bool
  | ⟨.allow, .returned allowed⟩ => allowed
  | ⟨.allow, .panicked _⟩ => true
  | ⟨.halfOpen, .panicked _⟩ => true
  | _ => false

/-- The calls since the previous placement, and since the delivery was received where it came from a
stream. -/
def turn (es : List (Event P T)) : List (Event P T) :=
  es.rtakeWhile fun e => !e.placed && !e.received

end Event

/-- Every placement comes after the limiter and the breaker were asked for it. -/
def GovernedPlacements (es : List (Event P T)) : Prop :=
  ∀ pre e post, es = pre ++ e :: post → e.placed = true →
    (∃ w ∈ Event.turn pre, w.waited = true) ∧ ∃ a ∈ Event.turn pre, a.notOpen = true

def RunLabel.BreakerOpen : RunLabel P T → Prop
  | .produce answer | .work _ answer =>
      answer .allow = .returned false ∧ answer .tryProbe = .returned false ∧
        answer .halfOpen = .returned ()
  | _ => True

/-- In every run each placement is governed, and while the breaker stays open at most one more
delivery is placed. -/
def IngressGovernance (c : Consumer P T) (kind : SourceKind) : Prop :=
  ∀ ls s, run (RunState.step c) (.initial c kind) ls = some s →
    GovernedPlacements (producerEvents c (.initial c kind) ls) ∧
      ∀ ls' t, run (RunState.step c) s ls' = some t → (∀ l ∈ ls', l.BreakerOpen) →
        (producerEvents c s ls').countP Event.placed ≤ 1

structure Passes where
  waited : Bool
  notOpen : Bool

namespace Passes

def next (m : Passes) (q : Call P T) (r : q.Answer) : Option Passes :=
  match q, r with
  | .receive, _ => some ⟨false, false⟩
  | .limiterWait, .returned err => some { m with waited := m.waited || err.isNone }
  | .limiterWait, .panicked _ => some { m with waited := true }
  | .allow, .returned allowed => some { m with notOpen := m.notOpen || allowed }
  | .allow, .panicked _ => some { m with notOpen := true }
  | .halfOpen, .panicked _ => some { m with notOpen := true }
  | .handOff _, true => if m.waited && m.notOpen then some ⟨false, false⟩ else none
  | _, _ => some m

def Ready : Control P → Passes → Prop
  | .admitBreaker _ _, m => m.waited = true
  | .pollLoop _ _, _ => False
  | _, _ => True

def Keeps (q : Call P T) : Prop := ∀ (m : Passes) (r : q.Answer), m.next q r = some m

theorem keeps_of_isIngress {q : Call P T} (hq : q.isIngress = false) (hh : ∀ md, q ≠ .handOff md) :
    Keeps q := by
  intro m r
  cases q with
  | handOff md => exact absurd rfl (hh md)
  | _ => first | rfl | cases hq

theorem keeps_of_isDispatch {q : Call P T} (hq : q.isDispatch = true) : Keeps q := by
  refine keeps_of_isIngress (isIngress_of_isDispatch hq) ?_
  rintro md rfl
  cases hq

theorem keeps_of_settles {q : Call P T} {d : ℕ} (hq : q.settles = some d) : Keeps q := by
  refine keeps_of_isIngress (isIngress_of_settles hq) ?_
  rintro md rfl
  cases hq

theorem keeps_governorPanic (method id r : String) :
    Only Keeps (governorPanic method id r : Routine P T Unit) := by
  unfold governorPanic
  refine (only_perform (fun _ _ => rfl)).bind fun logged => ?_
  split
  · exact only_pure ()
  · exact only_perform fun _ _ => rfl

variable {m : Passes} {N : ℕ} {d : Delivery P} {α β : Type}

theorem meets_keeps_bind {post : β → Passes → Prop} {p : Routine P T α} {f : α → Routine P T β}
    (hp : Only Keeps p) (hf : ∀ a, Meets next post (f a) m) : Meets next post (p >>= f) m :=
  hp.meets_bind (fun _ r hq => hq m r) hf

theorem meets_nack (d : Delivery P) (requeue : Bool) {ctl : Control P} (h : Ready ctl m) :
    Meets next Ready (do
      finish (← safeNack d requeue 0)
      return ctl : Routine P T (Control P)) m :=
  meets_nack_of (fun _ r hq => keeps_of_isDispatch hq m r) (fun _ r hq => keeps_of_settles hq m r)
    (fun _ _ => rfl) requeue h

theorem meets_forward (h : m.waited = true ∧ m.notOpen = true) :
    Meets next Ready (forward N d : Routine P T (Control P)) m := by
  intro _
  refine ⟨m, rfl, ?_⟩
  intro sent
  cases sent with
  | true => exact ⟨⟨false, false⟩, by simp [next, h.1, h.2], trivial⟩
  | false => exact ⟨m, rfl, meets_nack _ true trivial⟩

theorem meets_admitCredit (c : Consumer P T) (h : m.waited = true ∧ m.notOpen = true) :
    Meets next Ready (admitCredit c N d) m :=
  meets_admitCredit_of c (fun m _ r hq => keeps_of_isDispatch hq m r)
    ⟨m, rfl, meets_forward h⟩ ⟨m, rfl, meets_nack d false trivial⟩
    ⟨m, rfl, meets_forward h⟩ fun _ => ⟨m, rfl, meets_nack d true trivial⟩

theorem meets_safeLimiterWait (id : String) :
    Meets next (fun err m' => err = none → m'.waited = true)
      (safeLimiterWait id : Routine P T (Option Err)) m := by
  intro waited
  cases waited with
  | returned err =>
      refine ⟨_, rfl, ?_⟩
      rintro rfl
      simp
  | panicked r =>
      refine ⟨_, rfl, ?_⟩
      exact meets_keeps_bind (f := fun _ => pure none) (keeps_governorPanic _ id r) fun _ _ => rfl

theorem meets_safeAllow (h : m.waited = true) (id : String) :
    Meets next (fun ok m' => m'.waited = true ∧ (ok = true → m'.notOpen = true))
      (safeAllow id : Routine P T Bool) m := by
  intro allowed
  cases allowed with
  | returned ok =>
      refine ⟨_, rfl, h, ?_⟩
      rintro rfl
      simp
  | panicked r =>
      refine ⟨_, rfl, ?_⟩
      exact meets_keeps_bind (f := fun _ => pure true) (keeps_governorPanic _ id r)
        fun _ => ⟨h, fun _ => rfl⟩

theorem meets_safeHalfOpen (h : m.waited = true) (id : String) :
    Meets next (fun ok m' => m'.waited = true ∧ (ok = false → m'.notOpen = true))
      (safeHalfOpen id : Routine P T Bool) m := by
  intro ch
  cases ch with
  | returned u => exact ⟨_, rfl, h, fun hok => (by cases hok)⟩
  | panicked r =>
      refine ⟨_, rfl, ?_⟩
      exact meets_keeps_bind (f := fun _ => pure false) (keeps_governorPanic _ id r)
        fun _ => ⟨h, fun _ => rfl⟩

theorem meets_admitBreaker (hb : c.breaker = true) (h : m.waited = true) :
    Meets next Ready (admitBreaker c N d) m := by
  unfold admitBreaker
  rw [if_neg (by simp [hb]), meets_bind]
  refine (meets_safeAllow h d.msg.id).mono fun ok m hm => ?_
  cases ok with
  | true => exact meets_admitCredit c ⟨hm.1, hm.2 rfl⟩
  | false =>
      rw [if_neg (by decide), meets_bind]
      refine (meets_safeHalfOpen hm.1 d.msg.id).mono fun ok m hm => ?_
      cases ok with
      | false => exact meets_admitCredit c ⟨hm.1, hm.2 rfl⟩
      | true =>
          rw [if_neg (by decide), meets_bind]
          refine (meets_safeAllow hm.1 d.msg.id).mono fun ok m hm => ?_
          cases ok with
          | true => exact meets_admitCredit c ⟨hm.1, hm.2 rfl⟩
          | false =>
              intro woken
              refine ⟨m, rfl, ?_⟩
              cases woken with
              | true => exact hm.1
              | false => exact meets_nack d true trivial

theorem meets_ingest (hl : c.rateLimiter = true) : Meets next Ready (ingest c N) m := by
  intro received
  refine ⟨⟨false, false⟩, rfl, ?_⟩
  cases received with
  | ctxDone => trivial
  | closed => trivial
  | delivery msg =>
      change Meets next Ready (admitDelivery c (N + 1) ⟨N, msg, false⟩) ⟨false, false⟩
      unfold admitDelivery
      rw [if_pos hl, meets_bind]
      refine (meets_safeLimiterWait _).mono fun err m hm => ?_
      cases err with
      | none => exact hm rfl
      | some err => exact meets_nack _ true trivial

theorem meets_producer (hl : c.rateLimiter = true) (hb : c.breaker = true) (ctl : Control P)
    (m : Passes) (h : Ready ctl m) : Meets next Ready (producer c ctl) m := by
  cases ctl with
  | pollLoop N errN => cases h
  | ingest N => exact meets_ingest hl
  | admitBreaker N d => exact meets_admitBreaker hb h
  | stopped => trivial

section Accepted

variable {m' : Passes} {e : Event P T} {es : List (Event P T)}

theorem next_of_placed (h : m.next e.1 e.2 = some m') (he : e.placed = true) :
    m.waited = true ∧ m.notOpen = true ∧ m' = ⟨false, false⟩ := by
  obtain ⟨q, r⟩ := e
  cases q with
  | handOff md =>
      obtain rfl : r = true := he
      simp only [next, Option.ite_none_right_eq_some, Bool.and_eq_true, Option.some.injEq] at h
      exact ⟨h.1.1, h.1.2, h.2.symm⟩
  | _ => cases he

theorem next_of_received (h : m.next e.1 e.2 = some m') (he : e.received = true) :
    m' = ⟨false, false⟩ := by
  obtain ⟨q, r⟩ := e
  cases q with
  | receive => exact (Option.some.inj h).symm
  | _ => cases he

theorem next_of_turn (h : m.next e.1 e.2 = some m') (hp : e.placed = false)
    (hr : e.received = false) :
    m'.waited = (m.waited || e.waited) ∧ m'.notOpen = (m.notOpen || e.notOpen) := by
  obtain ⟨q, r⟩ := e
  cases q with
  | receive => cases hr
  | handOff md =>
      obtain rfl : r = false := hp
      obtain rfl := Option.some.inj h
      simp [Event.waited, Event.notOpen]
  | limiterWait =>
      cases r <;> obtain rfl := Option.some.inj h <;> simp [Event.waited, Event.notOpen]
  | allow =>
      cases r <;> obtain rfl := Option.some.inj h <;> simp [Event.waited, Event.notOpen]
  | halfOpen =>
      cases r <;> obtain rfl := Option.some.inj h <;> simp [Event.waited, Event.notOpen]
  | _ =>
      obtain rfl := Option.some.inj h
      simp [Event.waited, Event.notOpen]

theorem said_in_turn
    (h : es.foldlM (fun m e => next m e.1 e.2) (⟨false, false⟩ : Passes) = some m) :
    (m.waited = true → ∃ w ∈ Event.turn es, w.waited = true) ∧
      (m.notOpen = true → ∃ a ∈ Event.turn es, a.notOpen = true) := by
  induction es using List.reverseRecOn generalizing m with
  | nil =>
      obtain rfl := Option.some.inj h
      exact ⟨fun hw => (by cases hw), fun ha => (by cases ha)⟩
  | append_singleton es e ih =>
      rw [List.foldlM_append] at h
      obtain ⟨m₁, hm₁, hnext⟩ := Option.bind_eq_some_iff.mp h
      have hnext : next m₁ e.1 e.2 = some m := by simpa using hnext
      obtain ⟨hwaited, hnotOpen⟩ := ih hm₁
      cases hp : e.placed with
      | true =>
          obtain ⟨-, -, rfl⟩ := next_of_placed hnext hp
          exact ⟨fun hw => (by cases hw), fun ha => (by cases ha)⟩
      | false =>
          cases hr : e.received with
          | true =>
              obtain rfl := next_of_received hnext hr
              exact ⟨fun hw => (by cases hw), fun ha => (by cases ha)⟩
          | false =>
              obtain ⟨hw, ha⟩ := next_of_turn hnext hp hr
              have hturn : Event.turn (es ++ [e]) = Event.turn es ++ [e] :=
                List.rtakeWhile_concat_pos _ _ _ (by simp [hp, hr])
              rw [hturn, hw, ha]
              simp only [List.mem_append, List.mem_singleton, Bool.or_eq_true, or_and_right,
                exists_or, exists_eq_left]
              exact ⟨Or.imp_left hwaited, Or.imp_left hnotOpen⟩

theorem governedPlacements
    (h : es.foldlM (fun m e => next m e.1 e.2) (⟨false, false⟩ : Passes) = some m) :
    GovernedPlacements es := by
  rintro pre e post rfl he
  rw [List.foldlM_append] at h
  obtain ⟨m₁, hm₁, hrest⟩ := Option.bind_eq_some_iff.mp h
  rw [List.foldlM_cons] at hrest
  obtain ⟨m₂, hm₂, -⟩ := Option.bind_eq_some_iff.mp hrest
  obtain ⟨hwaited, hnotOpen, -⟩ := next_of_placed hm₂ he
  obtain ⟨hw, ha⟩ := said_in_turn hm₁
  exact ⟨hw hwaited, ha hnotOpen⟩

theorem countP_placed_le (h : es.foldlM (fun m e => next m e.1 e.2) m = some m')
    (hopen : ∀ e ∈ es, e.notOpen = false) : es.countP Event.placed ≤ m.notOpen.toNat := by
  induction es generalizing m with
  | nil => exact Nat.zero_le _
  | cons e es ih =>
      rw [List.foldlM_cons] at h
      obtain ⟨m₁, hm₁, hrest⟩ := Option.bind_eq_some_iff.mp h
      have hle := ih hrest fun e' he' => hopen e' (List.mem_cons_of_mem e he')
      cases hp : e.placed with
      | true =>
          obtain ⟨-, hnotOpen, rfl⟩ := next_of_placed hm₁ hp
          rw [List.countP_cons_of_pos hp, hnotOpen]
          exact Nat.succ_le_succ hle
      | false =>
          rw [List.countP_cons_of_neg (by simp [hp])]
          cases hr : e.received with
          | true =>
              obtain rfl := next_of_received hm₁ hr
              exact hle.trans (Nat.zero_le _)
          | false =>
              rw [(next_of_turn hm₁ hp hr).2, hopen e List.mem_cons_self, Bool.or_false] at hle
              exact hle

end Accepted

end Passes

end Msgin
