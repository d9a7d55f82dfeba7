import Msgin.Producers
import Msgin.SettlementCalls

/-!
# The calls of the producer stage

Between two deliveries the producer of the push path receives, waits for the limiter and checks the
breaker. No other part of the producer stage makes one of these calls, and the poll loop makes none
of them. The cases of the push path under a monitor are gone through once for all monitors.
-/

namespace Msgin

open Interaction Prog

variable {P T : Type}

def Call.isIngress : Call P T → Bool
  | .receive => true
  | .limiterWait => true
  | .allow => true
  | .halfOpen => true
  | .park => true
  | _ => false

def Call.isPace : Call P T → Bool
  | .poll _ => true
  | .sleep _ => true
  | _ => false

variable {q : Call P T}

theorem isPace_of_isDispatch (h : q.isDispatch = true) : q.isPace = false := by
  cases q <;> first | rfl | cases h

theorem isPace_of_settles {d : ℕ} (h : q.settles = some d) : q.isPace = false := by
  cases q <;> first | rfl | cases h

theorem isIngress_of_isDispatch (h : q.isDispatch = true) : q.isIngress = false := by
  cases q <;> first | rfl | cases h

theorem isIngress_of_settles {d : ℕ} (h : q.settles = some d) : q.isIngress = false := by
  cases q <;> first | rfl | cases h

section Governors

variable {φ : Call P T → Prop} (hg : ∀ q, q.isGovernor = true → φ q)

include hg

theorem only_safeLimiterWait (hwait : φ .limiterWait) (id : String) :
    Only φ (safeLimiterWait id : Routine P T (Option Err)) := by
  unfold safeLimiterWait
  refine Only.bind (only_perform hwait) fun o => ?_
  cases o with
  | returned err => exact only_pure err
  | panicked r => exact (only_governorPanic hg _ id r).bind fun _ => only_pure _

theorem only_safeHalfOpen (hopen : φ .halfOpen) (id : String) :
    Only φ (safeHalfOpen id : Routine P T Bool) := by
  unfold safeHalfOpen
  refine Only.bind (only_perform hopen) fun o => ?_
  cases o with
  | returned u => exact only_pure true
  | panicked r => exact (only_governorPanic hg _ id r).bind fun _ => only_pure _

end Governors

section Unpaced

variable {φ : Call P T → Prop} (hφ : ∀ q, q.isIngress = false → q.isPace = false → φ q)

include hφ

theorem only_nack (d : Delivery P) (requeue : Bool) :
    Only φ (do finish (← safeNack d requeue 0) : Routine P T Unit) :=
  only_finish_safeNack (fun q hq => hφ q (isIngress_of_isDispatch hq) (isPace_of_isDispatch hq))
    (fun q hq => hφ q (isIngress_of_settles hq) (isPace_of_settles hq)) (fun _ => hφ _ rfl rfl)
    requeue 0

theorem only_nack_bind (d : Delivery P) (requeue : Bool) {α : Type} {p : Routine P T α}
    (hp : Only φ p) :
    Only φ (do
      finish (← safeNack d requeue 0)
      p) := by
  rw [← Prog.bind_assoc]
  exact (only_nack hφ d requeue).bind fun _ => hp

theorem only_releaseN (n : ℕ) : Only φ (releaseN n : Routine P T Unit) := by
  induction n with
  | zero => exact only_pure ()
  | succ n ih => exact (only_perform (hφ _ rfl rfl)).bind fun _ => ih

theorem only_manage (d : Delivery P) : Only φ (manage d : Routine P T (Delivery P)) :=
  (only_perform (hφ _ rfl rfl)).bind fun _ => only_pure _

theorem only_topUp (room held : ℕ) : Only φ (topUp room held : Routine P T ℕ) := by
  induction room generalizing held with
  | zero => exact only_pure held
  | succ room ih =>
      refine (only_perform (hφ _ rfl rfl)).bind fun taken => ?_
      split
      · exact ih (held + 1)
      · exact only_pure held

theorem only_nackAll (ds : List (Delivery P)) : Only φ (nackAll ds : Routine P T Unit) := by
  induction ds with
  | nil => exact only_pure ()
  | cons d ds ih => exact only_nack_bind hφ d true ih

theorem only_creditedRows (rows : List (Delivery P)) (held : ℕ) :
    Only φ (creditedRows rows held : Routine P T (List (Delivery P))) := by
  unfold creditedRows
  split
  · exact (only_perform (hφ _ rfl rfl)).bind fun _ =>
      (only_nackAll hφ (rows.drop held)).bind fun _ => only_pure _
  · exact only_pure rows

theorem only_handRows (rows : List (Delivery P)) : Only φ (handRows rows : Routine P T Bool) := by
  induction rows with
  | nil => exact only_pure true
  | cons d ds ih =>
      refine (only_manage hφ d).bind fun md => ?_
      refine (only_perform (hφ _ rfl rfl)).bind fun sent => ?_
      split
      · exact ih
      · exact only_nack_bind hφ md true ((only_releaseN hφ ds.length).bind fun _ => only_pure _)

end Unpaced

section Ungoverned

variable {φ : Call P T → Prop} (hφ : ∀ q, q.isIngress = false → φ q)

include hφ

theorem unpaced (q : Call P T) (h : q.isIngress = false) (_ : q.isPace = false) : φ q := hφ q h

theorem only_safePoll (max : ℕ) :
    Only φ (safePoll max : Routine P T (List (Message P) × Option Err)) := by
  refine (only_perform (hφ _ rfl)).bind fun o => ?_
  cases o with
  | returned res => exact only_pure res
  | panicked r => exact only_pure _

theorem only_sleepCtx (d : ℤ) : Only φ (sleepCtx d : Routine P T Bool) := by
  unfold sleepCtx
  split
  · exact only_pure true
  · exact only_perform (hφ _ rfl)

variable (c : Consumer P T) (next : ℕ)

theorem only_deliverRows (held : ℕ) (rows : List (Delivery P)) :
    Only φ (deliverRows c next held rows) := by
  refine (only_releaseN (unpaced hφ) _).bind fun _ => ?_
  refine (only_handRows (unpaced hφ) rows).bind fun handed => ?_
  split
  · split
    · refine (only_sleepCtx hφ _).bind fun elapsed => ?_
      split <;> exact only_pure _
    · exact only_pure _
  · exact only_pure _

theorem only_pollFailed (errN held : ℕ) (err : Err) : Only φ (pollFailed c next errN held err) := by
  refine (only_perform (hφ _ rfl)).bind fun _ => ?_
  refine (only_releaseN (unpaced hφ) held).bind fun _ => ?_
  refine (only_sleepCtx hφ _).bind fun elapsed => ?_
  split <;> exact only_pure _

theorem only_pollLoop (errN : ℕ) : Only φ (pollLoop c next errN) := by
  refine (only_perform (hφ _ rfl)).bind fun acquired => ?_
  cases acquired with
  | some err => exact only_pure _
  | none =>
      refine (only_topUp (unpaced hφ) _ _).bind fun held => ?_
      refine (only_safePoll hφ held).bind fun res => ?_
      rcases res with ⟨ms, _ | err⟩
      · exact (only_creditedRows (unpaced hφ) _ held).bind fun rows =>
          only_deliverRows hφ c _ held rows
      · exact only_pollFailed hφ c next errN held err

theorem only_forward (d : Delivery P) : Only φ (forward next d : Routine P T (Control P)) := by
  refine (only_manage (unpaced hφ) d).bind fun md => ?_
  refine (only_perform (hφ _ rfl)).bind fun sent => ?_
  split
  · exact only_pure _
  · exact only_nack_bind (unpaced hφ) md true (only_pure _)

theorem only_admitCredit (d : Delivery P) : Only φ (admitCredit c next d) := by
  have hfire : ∀ cause, Only φ (safeFire c .onRetry d.msg cause) :=
    only_safeFire (fun q hq => hφ q (isIngress_of_isDispatch hq)) c .onRetry d.msg
  have hshed : Only φ (do
      if ← perform .tryAcquire then forward next d
      else
        safeFire c .onRetry d.msg (some (.sentinel .errOverflowDropped))
        finish (← safeNack d false 0)
        return .ingest next : Routine P T (Control P)) := by
    refine (only_perform (hφ _ rfl)).bind fun taken => ?_
    split
    · exact only_forward hφ next d
    · exact (hfire _).bind fun _ => only_nack_bind (unpaced hφ) d false (only_pure _)
  unfold admitCredit
  split
  · exact hshed
  · exact hshed
  · exact hshed
  all_goals
    refine (only_perform (hφ _ rfl)).bind fun acquired => ?_
    cases acquired with
    | none => exact only_forward hφ next d
    | some err => exact only_nack_bind (unpaced hφ) d true (only_pure _)

end Ungoverned

section Monitor

variable {M : Type} {δ : M → (q : Call P T) → q.Answer → Option M} {post : Control P → M → Prop}
  {m : M} {N : ℕ} {d : Delivery P}

theorem meets_nack_of (hdispatch : ∀ q r, q.isDispatch = true → δ m q r = some m)
    (hsettles : ∀ q r, q.settles = some d.tag → δ m q r = some m)
    (hrelease : d.managed = true → ∀ r, δ m (.releaseOnce d.tag) r = some m) (requeue : Bool)
    {ctl : Control P} (h : post ctl m) :
    Meets δ post (do
      finish (← safeNack d requeue 0)
      return ctl : Routine P T (Control P)) m := by
  rw [← Prog.bind_assoc]
  refine Only.meets_bind (φ := fun q => ∀ r, δ m q r = some m) ?_ (fun _ r hq => hq r) fun _ => h
  exact only_finish_safeNack (fun q hq r => hdispatch q r hq) (fun q hq r => hsettles q r hq)
    hrelease requeue 0

theorem meets_admitCredit_of (c : Consumer P T)
    (hdispatch : ∀ m q r, q.isDispatch = true → δ m q r = some m)
    (htaken : ∃ m', δ m .tryAcquire true = some m' ∧ Meets δ post (forward N d) m')
    (hshed : ∃ m', δ m .tryAcquire false = some m' ∧ Meets δ post (do
      finish (← safeNack d false 0)
      return .ingest N) m')
    (hacquired : ∃ m', δ m .acquire none = some m' ∧ Meets δ post (forward N d) m')
    (hended : ∀ err, ∃ m', δ m .acquire (some err) = some m' ∧ Meets δ post (do
      finish (← safeNack d true 0)
      return .stopped) m') : Meets δ post (admitCredit c N d) m := by
  have hdrop : Meets δ post (do
      if ← perform .tryAcquire then forward N d
      else
        safeFire c .onRetry d.msg (some (.sentinel .errOverflowDropped))
        finish (← safeNack d false 0)
        return .ingest N : Routine P T (Control P)) m := by
    intro taken
    cases taken with
    | true => exact htaken
    | false =>
        obtain ⟨m', hm', hrest⟩ := hshed
        refine ⟨m', hm', ?_⟩
        exact (only_safeFire (fun _ hq => hq) c _ _ _).meets_bind (hdispatch m') fun _ => hrest
  unfold admitCredit
  split
  · exact hdrop
  · exact hdrop
  · exact hdrop
  all_goals
    intro acquired
    cases acquired with
    | none => exact hacquired
    | some err => exact hended err

theorem meets_admitBreaker_of (c : Consumer P T)
    (hgovernor : ∀ q r, q.isGovernor = true → δ m q r = some m)
    (hhalf : ∀ r, δ m .halfOpen r = some m) (hcredit : Meets δ post (admitCredit c N d) m)
    (hwoken : ∃ m', δ m .park true = some m' ∧ post (.admitBreaker N d) m')
    (hended : ∃ m', δ m .park false = some m' ∧ Meets δ post (do
      finish (← safeNack d true 0)
      return .stopped) m') : Meets δ post (admitBreaker c N d) m := by
  have hallow {β : Type} {f : Bool → Routine P T β} {post : β → M → Prop}
      (hf : ∀ ok, Meets δ post (f ok) m) : Meets δ post (safeAllow d.msg.id >>= f) m :=
    (only_safeAllow (fun _ hq => hq) d.msg.id).meets_bind hgovernor hf
  unfold admitBreaker
  split
  · exact hcredit
  refine hallow fun allowed => ?_
  split
  · exact hcredit
  refine Only.meets_bind (φ := fun q => ∀ r, δ m q r = some m)
    (only_safeHalfOpen (fun q hq r => hgovernor q r hq) hhalf d.msg.id) (fun _ r hq => hq r)
    fun usable => ?_
  split
  · exact hcredit
  refine hallow fun allowed' => ?_
  split
  · exact hcredit
  intro woken
  cases woken with
  | true => exact hwoken
  | false => exact hended

theorem meets_admitDelivery_of (c : Consumer P T)
    (hgovernor : ∀ q r, q.isGovernor = true → δ m q r = some m)
    (hwait : ∀ r, δ m .limiterWait r = some m) (hready : post (.admitBreaker N d) m)
    (hended : Meets δ post (do
      finish (← safeNack d true 0)
      return .stopped) m) : Meets δ post (admitDelivery c N d) m := by
  unfold admitDelivery
  split
  · refine Only.meets_bind (φ := fun q => ∀ r, δ m q r = some m)
      (only_safeLimiterWait (fun q hq r => hgovernor q r hq) hwait d.msg.id) (fun _ r hq => hq r)
      fun err => ?_
    cases err with
    | none => exact hready
    | some err => exact hended
  · exact hready

end Monitor

end Msgin
