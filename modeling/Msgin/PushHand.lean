import Msgin.ConsumerRun
import Msgin.ProcessEffects
import Msgin.ProducerCalls

/-!
# Who has to settle a delivery

On the push path a delivery is in the hands of the producer from the moment it is received until
it is Nacked or handed to a worker, and a worker settles the delivery that it processes once.
-/

namespace Msgin

open Interaction Prog

variable {P T : Type}

instance (q : Call P T) : Nonempty q.Answer := by
  cases q <;> first
    | exact ⟨.panicked ""⟩
    | exact ⟨.ctxDone⟩
    | exact ⟨none⟩
    | exact ⟨()⟩
    | exact ⟨true⟩
    | exact ⟨(0 : ℤ)⟩

/-- The calls of a worker that processes delivery `d`. -/
def ProcessCall (d : ℕ) (q : Call P T) : Prop :=
  q.isPlain = true ∨ q.settles = some d ∨ q = .releaseOnce d

theorem only_process (c : Consumer P T) (md : Delivery P) :
    Only (ProcessCall md.tag) (process c md) := by
  unfold process
  refine Only.bind (only_processUnreleased ?_ ?_ ?_ ?_ c) fun _ => only_perform (Or.inr (Or.inr rfl))
  · exact fun q hq => Or.inl (isPlain_of_isDispatch hq)
  · exact fun q hq => Or.inr (Or.inl hq)
  · exact fun _ => Or.inr (Or.inr rfl)
  · exact fun q hq => Or.inl (isPlain_of_isGovernor hq)

theorem settles_of_processCall {d x : ℕ} {q : Call P T} (h : ProcessCall d q)
    (hx : q.settles = some x) : x = d := by
  rcases h with hplain | hsettles | rfl
  · rw [settles_of_isPlain hplain] at hx
    cases hx
  · exact Option.some.inj (hx.symm.trans hsettles)
  · cases hx

variable {es : List (Event P T)}

theorem countP_settles {d : ℕ} (h : ∀ e ∈ es, ∀ x, e.1.settles = some x → x = d) :
    es.countP (fun e => e.1.settles.isSome) = acks d es + nacks d es := by
  induction es with
  | nil => rfl
  | cons e es ih =>
      have hes := ih fun e' he' => h e' (List.mem_cons_of_mem e he')
      have he := h e List.mem_cons_self
      obtain ⟨q, r⟩ := e
      simp only [acks, nacks, List.countP_cons] at hes ⊢
      rw [hes]
      cases q with
      | ack x =>
          obtain rfl := he x rfl
          simp [Call.settles, isAck, isNack]
          omega
      | nack x requeue delay =>
          obtain rfl := he x rfl
          simp [Call.settles, isAck, isNack]
          omega
      | _ => simp [Call.settles, isAck, isNack]

theorem Governed.counts (h : Governed es) (d : ℕ) : acks d es = 0 ∧ nacks d es = 0 := by
  constructor
  · rw [acks, List.countP_eq_zero]
    rintro ⟨q, r⟩ he
    have hq := h _ he
    cases q <;> simp_all [Call.isGovernor, isAck]
  · rw [nacks, List.countP_eq_zero]
    rintro ⟨q, r⟩ he
    have hq := h _ he
    cases q <;> simp_all [Call.isGovernor, isNack]

theorem Processed.once {c : Consumer P T} {d : Delivery P} (h : Processed c d es) :
    acks d.tag es + nacks d.tag es = 1 := by
  cases h with
  | declined gs o governed =>
      obtain ⟨hacks, hnacks, -⟩ := nackEvents_counts (T := T) d true 0 o
      obtain ⟨hgacks, hgnacks⟩ := governed.counts d.tag
      rw [acks_append, nacks_append, hacks, hnacks, hgacks, hgnacks]
  | dispatched gs es rs err governed dispatched recorded =>
      obtain ⟨hgacks, hgnacks⟩ := governed.counts d.tag
      obtain ⟨hracks, hrnacks⟩ := recorded.counts d.tag
      rw [acks_append, nacks_append, acks_append, nacks_append, hgacks, hgnacks, hracks, hrnacks]
      simpa using dispatched.settlementLaw.once

/-- The monitor of a worker: it settles once. -/
abbrev settleNext : Bool → (q : Call P T) → q.Answer → Option Bool :=
  onceNext fun q => q.settles.isSome

/-- Whatever happens, a worker settles its delivery once before it goes on to the next one. -/
theorem meets_process_settles (c : Consumer P T) (md : Delivery P) :
    Meets settleNext (fun _ b => b = true) (process c md) false := by
  have hcalls : Effects (fun _ es => ∀ e ∈ es, ProcessCall md.tag e.1) (process c md) :=
    (only_process c md).emits
  refine Emits.meets_once (fun q hq => ?_) (((effects_process c md).and hcalls).mono ?_)
  · cases q <;> first | rfl | cases hq
  · rintro _ es ⟨⟨ps, hps, rfl⟩, htags⟩
    rw [countP_settles fun e he x hx => settles_of_processCall (htags e he) hx, acks_append,
      nacks_append]
    simpa [acks, nacks, isAck, isNack] using hps.once

structure Hand where
  hand : Option ℕ
  fresh : ℕ

namespace Hand

def next (m : Hand) (q : Call P T) (r : q.Answer) : Option Hand :=
  match q, r with
  | .receive, .delivery _ => if m.hand = none then some ⟨some m.fresh, m.fresh + 1⟩ else none
  | .handOff md, true => if m.hand = some md.tag then some { m with hand := none } else none
  | .ack d, _ => if m.hand = some d then some { m with hand := none } else none
  | .nack d _ _, _ => if m.hand = some d then some { m with hand := none } else none
  | _, _ => some m

def Ready : Control P → Hand → Prop
  | .ingest N, m => m = ⟨none, N⟩
  | .admitBreaker N d, m => m = ⟨some d.tag, N⟩
  | .stopped, m => m.hand = none
  | .pollLoop _ _, _ => False

variable {m : Hand} {N : ℕ} {d : Delivery P} {β : Type}

theorem next_of_isPlain (m : Hand) (q : Call P T) (r : q.Answer) (hq : q.isPlain = true) :
    m.next q r = some m := by
  cases q <;> first | rfl | cases hq

theorem meets_plain_bind {α : Type} {post : β → Hand → Prop} {p : Routine P T α}
    {f : α → Routine P T β} (hp : Only (fun q => q.isPlain = true) p)
    (hf : ∀ a, Meets next post (f a) m) : Meets next post (p >>= f) m :=
  hp.meets_bind (fun q r hq => next_of_isPlain m q r hq) hf

theorem meets_safeNack (requeue : Bool) (delay : ℤ) :
    Meets next (fun _ m' => m' = ⟨none, N⟩)
      (safeNack d requeue delay : Routine P T (Option Err)) ⟨some d.tag, N⟩ := by
  have htail : ∀ o : Outcome (Option Err), ∃ m', next ⟨some d.tag, N⟩
      (.nack d.tag requeue delay : Call P T) o = some m' ∧ m' = ⟨none, N⟩ :=
    fun o => ⟨_, if_pos rfl, rfl⟩
  have hnack : Meets next (fun _ m' => m' = ⟨none, N⟩)
      (d.nack requeue delay : Routine P T _) ⟨some d.tag, N⟩ := by
    unfold Delivery.nack
    cases d.managed with
    | true => exact fun _ => ⟨_, rfl, htail⟩
    | false => exact htail
  unfold safeNack
  rw [meets_bind]
  refine hnack.mono ?_
  rintro o m' rfl
  cases o with
  | returned err => exact rfl
  | panicked r => exact fun _ => ⟨_, rfl, rfl⟩

theorem meets_nack (requeue : Bool) {ctl : Control P} (h : Ready ctl ⟨none, N⟩) :
    Meets next Ready (do
      finish (← safeNack d requeue 0)
      return ctl : Routine P T (Control P)) ⟨some d.tag, N⟩ := by
  rw [meets_bind]
  refine (meets_safeNack requeue 0).mono ?_
  rintro err m' rfl
  exact meets_plain_bind (only_finish (fun _ hq => isPlain_of_isDispatch hq) err) fun _ => h

theorem meets_forward :
    Meets next Ready (forward N d : Routine P T (Control P)) ⟨some d.tag, N⟩ := by
  intro _
  refine ⟨_, rfl, ?_⟩
  intro sent
  cases sent with
  | true => exact ⟨_, if_pos rfl, rfl⟩
  | false =>
      refine ⟨_, rfl, ?_⟩
      exact meets_nack (d := { d with managed := true }) true rfl

variable (c : Consumer P T)

theorem meets_admitCredit : Meets next Ready (admitCredit c N d) ⟨some d.tag, N⟩ :=
  meets_admitCredit_of c (fun m q r hq => next_of_isPlain m q r (isPlain_of_isDispatch hq))
    ⟨_, rfl, meets_forward⟩ ⟨_, rfl, meets_nack false rfl⟩
    ⟨_, rfl, meets_forward⟩ fun _ => ⟨_, rfl, meets_nack true rfl⟩

theorem next_of_isGovernor (m : Hand) (q : Call P T) (r : q.Answer) (hq : q.isGovernor = true) :
    m.next q r = some m :=
  next_of_isPlain m q r (isPlain_of_isGovernor hq)

theorem meets_admitBreaker : Meets next Ready (admitBreaker c N d) ⟨some d.tag, N⟩ :=
  meets_admitBreaker_of c (next_of_isGovernor _) (fun _ => rfl) (meets_admitCredit c)
    ⟨_, rfl, rfl⟩ ⟨_, rfl, meets_nack true rfl⟩

theorem meets_ingest (N : ℕ) : Meets next Ready (ingest c N) (⟨none, N⟩ : Hand) := by
  intro received
  cases received with
  | ctxDone => exact ⟨_, rfl, rfl⟩
  | closed => exact ⟨_, rfl, rfl⟩
  | delivery msg =>
      refine ⟨⟨some N, N + 1⟩, rfl, ?_⟩
      change Meets next Ready (admitDelivery c (N + 1) ⟨N, msg, false⟩) ⟨some N, N + 1⟩
      exact meets_admitDelivery_of c (next_of_isGovernor _) (fun _ => rfl) rfl
        (meets_nack true rfl)

/-- Every pass of the push path ends with no delivery that is neither settled, nor handed over,
nor held at the next control point. -/
theorem meets_producer {ctl : Control P} (h : Ready ctl m) :
    Meets next Ready (producer c ctl) m := by
  cases ctl with
  | pollLoop n errN => cases h
  | ingest n =>
      obtain rfl := h
      exact meets_ingest c n
  | admitBreaker n d =>
      obtain rfl := h
      exact meets_admitBreaker c
  | stopped => exact h

end Hand

end Msgin
