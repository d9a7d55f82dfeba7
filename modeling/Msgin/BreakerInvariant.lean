import Msgin.CircuitBreaker

/-!
# The invariant of the circuit breaker

The parts of the breaker's state that different calls change, tied together over every order of
calls: the probe flag and the state, the count of failures and the calls recorded since it was last
reset, the cooldown timer and the open state, and the wake channels.
-/

namespace Msgin.Resilience

open TransitionRuns

variable {cfg : BreakerConfig} {b b' : Breaker} {op : BreakerOp}

structure BreakerInv (cfg : BreakerConfig) (b : Breaker) : Prop where
  probe : b.probeInFlight = true → b.state = .breakerHalfOpen
  below : b.state = .breakerClosed → b.fails < cfg.threshold
  cooling : b.state = .breakerOpen → b.armed.length + b.waiting.length = 1
  rest : b.state ≠ .breakerOpen → b.armed = [] ∧ b.waiting = []
  chans : b.chansMade = b.wake + 1
  closed : ∀ c, c ∈ b.closedChans ↔ c < b.wake

theorem breakerInv_new (cfg : BreakerConfig) (now : ℤ) : BreakerInv cfg (.new now) where
  probe h := by cases h
  below _ := cfg.threshold_pos
  cooling h := by cases h
  rest _ := ⟨rfl, rfl⟩
  chans := rfl
  closed c := by simp [Breaker.new]

theorem BreakerInv.step (hinv : BreakerInv cfg b) (h : BreakerStep cfg b op b') :
    BreakerInv cfg b' := by
  cases h with
  | idle now _ _ => exact ⟨hinv.probe, hinv.below, hinv.cooling, hinv.rest, hinv.chans, hinv.closed⟩
  | probes state _ =>
      exact ⟨fun _ => state, hinv.below, hinv.cooling, hinv.rest, hinv.chans, hinv.closed⟩
  | resets _ =>
      exact ⟨hinv.probe, fun _ => cfg.threshold_pos, hinv.cooling, hinv.rest, hinv.chans,
        hinv.closed⟩
  | closes state =>
      refine ⟨fun h => (by cases h), fun _ => cfg.threshold_pos, fun h => (by cases h), fun _ => ?_,
        hinv.chans, hinv.closed⟩
      exact hinv.rest (by rw [state]; decide)
  | counts _ below => exact ⟨hinv.probe, below, hinv.cooling, hinv.rest, hinv.chans, hinv.closed⟩
  | opens state probe free =>
      obtain ⟨harmed, hwaiting⟩ := hinv.rest state
      refine ⟨fun h => ?_, fun h => (by cases h), fun _ => ?_, fun h => absurd rfl h, hinv.chans,
        hinv.closed⟩
      · obtain ⟨hclosed, hprobe⟩ := free h
        exact absurd (hclosed.symm.trans (hinv.probe hprobe)) (by decide)
      · simp [Breaker.openLocked, harmed, hwaiting]
  | @expires t armed due =>
      have hopen : b.state = .breakerOpen := by
        by_contra hs
        rw [(hinv.rest hs).1] at armed
        cases armed
      refine ⟨hinv.probe, hinv.below, fun _ => ?_, fun h => absurd hopen h, hinv.chans, hinv.closed⟩
      have hone := hinv.cooling hopen
      have herase := List.length_erase_of_mem armed
      have hpos := List.length_pos_of_mem armed
      show (b.armed.erase t).length + (b.waiting ++ [t.id]).length = 1
      rw [List.length_append, List.length_singleton]
      omega
  | @late id waiting state =>
      rw [(hinv.rest state).2] at waiting
      cases waiting
  | @wakes id waiting state unclosed =>
      have hone := hinv.cooling state
      have herase := List.length_erase_of_mem waiting
      have hpos := List.length_pos_of_mem waiting
      refine ⟨fun h => (by cases h), fun h => (by cases h), fun h => (by cases h), fun _ => ?_, rfl,
        fun c => ?_⟩
      · have harmed : b.armed.length = 0 := by omega
        have hwaiting : (b.waiting.erase id).length = 0 := by omega
        exact ⟨List.eq_nil_of_length_eq_zero harmed, List.eq_nil_of_length_eq_zero hwaiting⟩
      · show c ∈ b.wake :: b.closedChans ↔ c < b.chansMade
        rw [List.mem_cons, hinv.closed, hinv.chans]
        omega

variable {ops : List BreakerOp}

theorem breakerInv_run {now : ℤ} (hr : run (Breaker.step cfg) (.new now) ops = some b) :
    BreakerInv cfg b :=
  run_invariant (Breaker.step cfg) (fun _ _ _ h hstep => h.step (breakerStep_of_step hstep))
    (breakerInv_new cfg now) hr

def HalfOpens (b b' : Breaker) : Prop :=
  b.state ≠ .breakerHalfOpen ∧ b'.state = .breakerHalfOpen

instance (b b' : Breaker) : Decidable (HalfOpens b b') :=
  inferInstanceAs (Decidable (_ ∧ _))

theorem BreakerInv.wake_step (hinv : BreakerInv cfg b) (h : BreakerStep cfg b op b') :
    HalfOpens b b' ∧ b'.wake = b.wake + 1 ∨ ¬HalfOpens b b' ∧ b'.wake = b.wake := by
  have hkept : ∀ {c : Breaker}, c.state = b.state → ¬HalfOpens b c := fun hs hh =>
    hh.1 (hs ▸ hh.2)
  cases h with
  | idle now _ _ => exact .inr ⟨hkept rfl, rfl⟩
  | probes _ _ => exact .inr ⟨hkept rfl, rfl⟩
  | resets _ => exact .inr ⟨hkept rfl, rfl⟩
  | closes _ => exact .inr ⟨fun hh => (by cases hh.2), rfl⟩
  | counts _ _ => exact .inr ⟨hkept rfl, rfl⟩
  | opens _ _ _ => exact .inr ⟨fun hh => (by cases hh.2), rfl⟩
  | expires _ _ => exact .inr ⟨hkept rfl, rfl⟩
  | late _ _ => exact .inr ⟨hkept rfl, rfl⟩
  | wakes _ state _ => exact .inl ⟨⟨by rw [state]; decide, rfl⟩, hinv.chans⟩

theorem BreakerInv.closed_iff (hinv : BreakerInv cfg b)
    (hr : run (Breaker.step cfg) b ops = some b') :
    b.wake ∈ b'.closedChans ↔ ¬Along (Breaker.step cfg) (fun s _ t => ¬HalfOpens s t) b ops := by
  have hstep : ∀ s op t, (BreakerInv cfg s ∧ b.wake ≤ s.wake) → s.step cfg op = some t →
      BreakerInv cfg t ∧ b.wake ≤ t.wake := by
    rintro s op t ⟨hs, hle⟩ hst
    have hst' := breakerStep_of_step hst
    refine ⟨hs.step hst', ?_⟩
    rcases hs.wake_step hst' with ⟨-, hw⟩ | ⟨-, hw⟩ <;> omega
  have hsame : b'.wake = b.wake ↔ b.wake = b.wake ∧
      Along (Breaker.step cfg) (fun s _ t => ¬HalfOpens s t) b ops := by
    refine run_iff_along (Breaker.step cfg) (I := fun s => BreakerInv cfg s ∧ b.wake ≤ s.wake)
      (J := fun s => s.wake = b.wake) hstep ?_ ⟨hinv, le_rfl⟩ hr
    rintro s op t ⟨hs, hle⟩ hst
    rcases hs.wake_step (breakerStep_of_step hst) with ⟨hh, hw⟩ | ⟨hh, hw⟩
    · refine ⟨fun ht => ?_, fun ht => absurd hh ht.2⟩
      omega
    · rw [hw]
      exact (and_iff_left hh).symm
  obtain ⟨hinv', hle⟩ := run_invariant (Breaker.step cfg) hstep ⟨hinv, le_rfl⟩ hr
  rw [and_iff_right rfl] at hsame
  rw [hinv'.closed, ← hsame]
  omega

/-- A `TryProbe` that returns true while the state is half-open. -/
def probeGranted (b : Breaker) (op : BreakerOp) : Option Unit :=
  if op = .tryProbe ∧ b.state = .breakerHalfOpen ∧ b.tryProbe.1 = true then some () else none

/-- At most one probe has been granted, and its flag lasts while the state is half-open. -/
structure OneProbe (cfg : BreakerConfig) (b : Breaker) (granted : List Unit) : Prop where
  inv : BreakerInv cfg b
  one : granted.length ≤ 1
  flag : granted.length = 1 → b.state = .breakerHalfOpen → b.probeInFlight = true

theorem probeGranted_eq (b : Breaker) (op : BreakerOp) :
    probeGranted b op = some () ∧ op = .tryProbe ∧ b.state = .breakerHalfOpen ∧
        b.probeInFlight = false ∨
      probeGranted b op = none := by
  by_cases h : op = .tryProbe ∧ b.state = .breakerHalfOpen ∧ b.tryProbe.1 = true
  · refine .inl ⟨if_pos h, h.1, h.2.1, ?_⟩
    cases hp : b.probeInFlight with
    | false => rfl
    | true =>
        have hprobe := h.2.2
        simp [Breaker.tryProbe, h.2.1, hp] at hprobe
  · exact .inr (if_neg h)

theorem OneProbe.step {granted : List Unit} (h : OneProbe cfg b granted)
    (hstep : BreakerStep cfg b op b') (hentry : ¬HalfOpens b b') :
    OneProbe cfg b' (granted ++ (probeGranted b op).toList) := by
  have hinv := h.inv.step hstep
  have hstays : b'.state = .breakerHalfOpen → b.state = .breakerHalfOpen := fun hs =>
    Classical.byContradiction fun hne => hentry ⟨hne, hs⟩
  rcases probeGranted_eq b op with ⟨hgrant, rfl, hstate, hfree⟩ | hgrant
  · have hnone : granted.length = 0 := by
      have hone := h.one
      have hflag : granted.length ≠ 1 := fun h1 =>
        absurd (hfree.symm.trans (h.flag h1 hstate)) (by decide)
      omega
    rw [hgrant, List.eq_nil_of_length_eq_zero hnone]
    refine ⟨hinv, le_rfl, fun _ _ => ?_⟩
    cases hstep with
    | idle now _ noProbe => exact noProbe rfl hstate
    | probes _ _ => rfl
  · rw [hgrant, Option.toList_none, List.append_nil]
    refine ⟨hinv, h.one, fun h1 hs => ?_⟩
    have hflag := h.flag h1 (hstays hs)
    cases hstep with
    | idle now _ _ => exact hflag
    | probes _ _ => rfl
    | resets _ => exact hflag
    | closes _ => cases hs
    | counts _ _ => exact hflag
    | opens _ _ _ => cases hs
    | expires _ _ => exact hflag
    | late _ _ => exact hflag
    | wakes _ state _ => exact absurd (state.symm.trans (hstays hs)) (by decide)

theorem BreakerInv.oneProbe (hinv : BreakerInv cfg b) (hr : run (Breaker.step cfg) b ops = some b')
    (hentry : Along (Breaker.step cfg) (fun s _ t => ¬HalfOpens s t) b ops) :
    (observe (Breaker.step cfg) probeGranted b ops).length ≤ 1 := by
  have hstart : OneProbe cfg b [] := ⟨hinv, Nat.zero_le 1, fun h => (by cases h)⟩
  have hend := run_observe_of_along (Breaker.step cfg) probeGranted (I := OneProbe cfg)
    (fun _ _ _ _ h hstep hp => h.step (breakerStep_of_step hstep) hp) hstart hentry hr
  exact hend.one

inductive Counted
  | failure
  | reset
  deriving DecidableEq

/-- A success and an entry into closed reset the count. -/
def counted (cfg : BreakerConfig) (b : Breaker) (op : BreakerOp) : Option Counted :=
  if op = .record true ∨ b.state ≠ .breakerClosed ∧
      (b.step cfg op).any (fun t => t.state = .breakerClosed) = true then some .reset
  else if op = .record false then some .failure
  else none

def failuresSince (cs : List Counted) : ℕ := (cs.rtakeWhile fun c => c ≠ .reset).length

theorem failuresSince_reset (cs : List Counted) : failuresSince (cs ++ [.reset]) = 0 := by
  rw [failuresSince, List.rtakeWhile_concat_neg]
  · rfl
  · decide

theorem failuresSince_failure (cs : List Counted) :
    failuresSince (cs ++ [.failure]) = failuresSince cs + 1 := by
  rw [failuresSince, List.rtakeWhile_concat_pos]
  · rw [List.length_append, List.length_singleton]
    rfl
  · decide

structure CountInv (cfg : BreakerConfig) (b : Breaker) (cs : List Counted) : Prop where
  inv : BreakerInv cfg b
  fails : b.state = .breakerClosed → b.fails = failuresSince cs

theorem CountInv.step {cs : List Counted} (h : CountInv cfg b cs)
    (hst : b.step cfg op = some b') : CountInv cfg b' (cs ++ (counted cfg b op).toList) := by
  have hstep := breakerStep_of_step hst
  refine ⟨h.inv.step hstep, fun hs => ?_⟩
  by_cases hreset : op = .record true ∨ b.state ≠ .breakerClosed
  · have hcounted : counted cfg b op = some .reset := by
      refine if_pos (hreset.imp id fun hne => ⟨hne, ?_⟩)
      rw [hst, Option.any_some, decide_eq_true hs]
    rw [hcounted, Option.toList_some, failuresSince_reset]
    cases hstep with
    | idle now noRecord _ => exact absurd hs (hreset.resolve_left (noRecord true))
    | probes state _ => exact absurd (state.symm.trans hs) (by decide)
    | resets _ => rfl
    | closes _ => rfl
    | counts _ _ => exact absurd hs (hreset.resolve_left (by decide))
    | opens _ _ _ => cases hs
    | expires _ _ => exact absurd hs (hreset.resolve_left (by simp))
    | late _ _ => exact absurd hs (hreset.resolve_left (by simp))
    | wakes _ _ _ => cases hs
  · obtain ⟨hop, hclosed⟩ := not_or.mp hreset
    have hclosed := not_not.mp hclosed
    have hfails := h.fails hclosed
    have hnot : ¬(op = .record true ∨ b.state ≠ .breakerClosed ∧
        (b.step cfg op).any (fun t => t.state = .breakerClosed) = true) := fun hor =>
      hor.elim hop fun hand => hand.1 hclosed
    by_cases hfail : op = .record false
    · have hcounted : counted cfg b op = some .failure := (if_neg hnot).trans (if_pos hfail)
      rw [hcounted, Option.toList_some, failuresSince_failure]
      subst hfail
      cases hstep with
      | idle now noRecord _ => exact absurd rfl (noRecord false)
      | counts _ _ => exact congrArg (· + 1) hfails
      | opens _ _ _ => cases hs
    · have hcounted : counted cfg b op = none := (if_neg hnot).trans (if_neg hfail)
      rw [hcounted, Option.toList_none, List.append_nil]
      cases hstep with
      | idle now _ _ => exact hfails
      | probes _ _ => exact hfails
      | resets _ => exact absurd rfl hop
      | closes _ => exact absurd rfl hop
      | counts _ _ => exact absurd rfl hfail
      | opens _ _ _ => exact absurd rfl hfail
      | expires _ _ => exact hfails
      | late _ _ => exact hfails
      | wakes _ _ _ => cases hs

theorem countInv_run {now : ℤ} (hr : run (Breaker.step cfg) (.new now) ops = some b) :
    CountInv cfg b (observe (Breaker.step cfg) (counted cfg) (.new now) ops) := by
  have hnew : CountInv cfg (.new now) [] := ⟨breakerInv_new cfg now, fun _ => rfl⟩
  exact run_observe (Breaker.step cfg) (counted cfg) (I := CountInv cfg)
    (fun _ _ _ _ h hst => h.step hst) hnew hr

theorem BreakerInv.open_iff (hinv : BreakerInv cfg b) :
    b.state = .breakerOpen ↔ b.armed.length + b.waiting.length = 1 := by
  refine ⟨hinv.cooling, fun hone => ?_⟩
  by_contra hs
  obtain ⟨harmed, hwaiting⟩ := hinv.rest hs
  rw [harmed, hwaiting] at hone
  cases hone

theorem record_open (cfg : BreakerConfig) (success : Bool) (hs : b.state = .breakerOpen) :
    (b.record cfg success).state = .breakerOpen := by
  cases success <;> simp [Breaker.record, hs]

theorem run_breaker_consistent {now : ℤ} {ops : List BreakerOp}
    (hr : run (Breaker.step cfg) (.new now) ops = some b) :
    (b.probeInFlight = true → b.state = .breakerHalfOpen) ∧
    (b.state = .breakerClosed →
      b.fails = failuresSince (observe (Breaker.step cfg) (counted cfg) (.new now) ops) ∧
      b.fails < cfg.threshold) ∧
    (b.state = .breakerOpen ↔ b.armed.length + b.waiting.length = 1) ∧
    (∀ success, b.state = .breakerOpen → (b.record cfg success).state = .breakerOpen) ∧
    (∀ ops' b', run (Breaker.step cfg) b ops' = some b' →
      Along (Breaker.step cfg) (fun s _ t => ¬HalfOpens s t) b ops' →
      (observe (Breaker.step cfg) probeGranted b ops').length ≤ 1) ∧
    (∀ ops' b', run (Breaker.step cfg) b ops' = some b' → b.state = .breakerOpen →
      (b.halfOpen ∈ b'.closedChans ↔
        ¬Along (Breaker.step cfg) (fun s _ t => ¬HalfOpens s t) b ops')) := by
  have hinv := breakerInv_run hr
  refine ⟨hinv.probe, fun hs => ⟨(countInv_run hr).fails hs, hinv.below hs⟩, hinv.open_iff,
    fun success hs => record_open cfg success hs, fun ops' b' hr' hentry => ?_,
    fun ops' b' hr' _ => hinv.closed_iff hr'⟩
  exact hinv.oneProbe hr' hentry

def probedOps : List BreakerOp :=
  [.tryProbe, .tryProbe, .record false, .record false, .halfOpen, .tick 30, .expire 0, .callback 0,
    .tryProbe]

def twoFailures : BreakerConfig := ⟨2, by decide, 30, by decide⟩

theorem run_breaker_consistent_probed :
    ∃ b, run (Breaker.step twoFailures) (.new 0) probedOps = some b ∧
      b.state = .breakerHalfOpen ∧ b.probeInFlight = true ∧
      (b.state = .breakerOpen ↔ b.armed.length + b.waiting.length = 1) := by
  refine ⟨_, rfl, rfl, rfl, ?_⟩
  exact (@run_breaker_consistent twoFailures _ 0 probedOps rfl).2.2.1

end Msgin.Resilience
