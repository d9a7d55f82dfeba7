import Msgin.BreakerInvariant
import Msgin.KeyedMaps

/-!
# The probe of a half-open episode

Workers that ask the breaker before a dispatch and record its outcome after it. `Record` carries no
identity, so a call that was admitted earlier and records while the breaker is half-open ends the
episode in place of its probe.
-/

namespace Msgin.Resilience

open TransitionRuns KeyedMaps

/-- The state in which `TryProbe` returned true, with the number of half-open episodes begun. -/
structure Grant where
  inHalfOpen : Bool
  episode : ℕ
  deriving DecidableEq

structure Dispatches where
  breaker : Breaker
  -- The grants of the workers that have not recorded yet.
  granted : ℕ → Option Grant

inductive DispatchLabel
  | tryProbe (w : ℕ)
  | record (w : ℕ) (success : Bool)
  | other (op : BreakerOp)

/-- The operations that belong to no dispatch. -/
def BreakerOp.apart : BreakerOp → Bool
  | tryProbe => false
  | record _ => false
  | _ => true

namespace Dispatches

def new (now : ℤ) : Dispatches := ⟨.new now, fun _ => none⟩

def episode (s : Dispatches) : ℕ := s.breaker.wake

def grant (s : Dispatches) : Grant := ⟨s.breaker.state = .breakerHalfOpen, s.episode⟩

def step (cfg : BreakerConfig) (s : Dispatches) : DispatchLabel → Option Dispatches
  | .tryProbe w =>
    match s.granted w with
    | some _ => none
    | none =>
      some ⟨s.breaker.tryProbe.2,
        if s.breaker.tryProbe.1 then Function.update s.granted w (some s.grant) else s.granted⟩
  | .record w success =>
    match s.granted w with
    | some _ => some ⟨s.breaker.record cfg success, Function.update s.granted w none⟩
    | none => none
  | .other op =>
    if op.apart then (s.breaker.step cfg op).map fun b => { s with breaker := b } else none

end Dispatches

variable {cfg : BreakerConfig} {s t : Dispatches} {l : DispatchLabel}

inductive DispatchStep (cfg : BreakerConfig) (s : Dispatches) : DispatchLabel → Dispatches → Prop
  | granted {w : ℕ} (free : s.granted w = none) (probe : s.breaker.tryProbe.1 = true) :
      DispatchStep cfg s (.tryProbe w)
        ⟨s.breaker.tryProbe.2, Function.update s.granted w (some s.grant)⟩
  | denied {w : ℕ} : DispatchStep cfg s (.tryProbe w) s
  | records {w : ℕ} {g : Grant} (success : Bool) (grant : s.granted w = some g) :
      DispatchStep cfg s (.record w success)
        ⟨s.breaker.record cfg success, Function.update s.granted w none⟩
  | other {op : BreakerOp} {b : Breaker} (apart : op.apart = true)
      (step : BreakerStep cfg s.breaker op b) :
      DispatchStep cfg s (.other op) ⟨b, s.granted⟩

theorem tryProbe_denied {b : Breaker} (h : b.tryProbe.1 = false) : b.tryProbe.2 = b := by
  unfold Breaker.tryProbe at h ⊢
  rcases hs : b.state with _ | _ | _
  · rfl
  · rfl
  · rw [hs] at h
    cases hp : b.probeInFlight with
    | true => rfl
    | false =>
        rw [hp] at h
        cases h

theorem tryProbe_granted {b : Breaker} (h : b.tryProbe.1 = true) :
    b.state = .breakerClosed ∧ b.tryProbe.2 = b ∨
      b.state = .breakerHalfOpen ∧ b.probeInFlight = false ∧
        b.tryProbe.2 = { b with probeInFlight := true } := by
  unfold Breaker.tryProbe at h ⊢
  rcases hs : b.state with _ | _ | _
  · exact .inl ⟨rfl, rfl⟩
  · rw [hs] at h
    cases h
  · rw [hs] at h
    cases hp : b.probeInFlight with
    | true =>
        rw [hp] at h
        cases h
    | false => exact .inr ⟨rfl, rfl, rfl⟩

theorem dispatchStep_of_step (h : s.step cfg l = some t) : DispatchStep cfg s l t := by
  cases l with
  | tryProbe w =>
      cases hw : s.granted w with
      | some g => simp [Dispatches.step, hw] at h
      | none =>
          simp only [Dispatches.step, hw, Option.some.injEq] at h
          cases hp : s.breaker.tryProbe.1 with
          | true =>
              rw [hp, if_pos rfl] at h
              exact h ▸ .granted hw hp
          | false =>
              rw [hp, if_neg Bool.false_ne_true, tryProbe_denied hp] at h
              exact h ▸ .denied
  | record w success =>
      cases hw : s.granted w with
      | none => simp [Dispatches.step, hw] at h
      | some g =>
          simp only [Dispatches.step, hw, Option.some.injEq] at h
          exact h ▸ .records success hw
  | other op =>
      obtain ⟨hapart, h⟩ := Option.ite_none_right_eq_some.mp h
      obtain ⟨b, hb, rfl⟩ := Option.map_eq_some_iff.mp h
      exact .other hapart (breakerStep_of_step hb)

theorem record_state_ne (cfg : BreakerConfig) (success : Bool) (b : Breaker) :
    (b.record cfg success).state ≠ .breakerHalfOpen := by
  intro h
  have hstep := breakerStep_record cfg b success
  generalize b.record cfg success = b' at h hstep
  cases hstep with
  | idle now noRecord _ => exact noRecord success rfl
  | resets state => exact state h
  | closes _ => cases h
  | counts state _ => exact state h
  | opens _ _ _ => cases h

theorem record_wake (cfg : BreakerConfig) (success : Bool) (b : Breaker) :
    (b.record cfg success).wake = b.wake := by
  have hstep := breakerStep_record cfg b success
  generalize b.record cfg success = b' at hstep
  cases hstep with
  | idle now _ _ => rfl
  | resets _ => rfl
  | closes _ => rfl
  | counts _ _ => rfl
  | opens _ _ _ => rfl

theorem BreakerInv.apart_step {b b' : Breaker} {op : BreakerOp} (hinv : BreakerInv cfg b)
    (hstep : BreakerStep cfg b op b') (hapart : op.apart = true) :
    b'.state = b.state ∧ b'.wake = b.wake ∧ b'.probeInFlight = b.probeInFlight ∨
      b.state = .breakerOpen ∧ b'.wake = b.wake + 1 := by
  cases hstep with
  | idle now _ _ => exact .inl ⟨rfl, rfl, rfl⟩
  | probes _ _ => cases hapart
  | resets _ => cases hapart
  | closes _ => cases hapart
  | counts _ _ => cases hapart
  | opens _ _ _ => cases hapart
  | expires _ _ => exact .inl ⟨rfl, rfl, rfl⟩
  | late _ _ => exact .inl ⟨rfl, rfl, rfl⟩
  | wakes _ state _ => exact .inr ⟨state, hinv.chans⟩

structure ProbeInv (cfg : BreakerConfig) (s : Dispatches) : Prop where
  breaker : BreakerInv cfg s.breaker
  past : ∀ w g, s.granted w = some g → g.episode ≤ s.episode
  current : s.breaker.state = .breakerHalfOpen → ∀ w g, s.granted w = some g →
    g.episode = s.episode → g.inHalfOpen = true ∧ s.breaker.probeInFlight = true
  one : ∀ w w' g g', s.granted w = some g → s.granted w' = some g' → g.inHalfOpen = true →
    g'.inHalfOpen = true → g.episode = g'.episode → w = w'

theorem probeInv_new (cfg : BreakerConfig) (now : ℤ) : ProbeInv cfg (.new now) where
  breaker := breakerInv_new cfg now
  past w g h := by cases h
  current _ w g h := by cases h
  one w w' g g' h := by cases h

theorem ProbeInv.granted (h : ProbeInv cfg s) (hp : s.breaker.tryProbe.1 = true) (w : ℕ) :
    ProbeInv cfg ⟨s.breaker.tryProbe.2, Function.update s.granted w (some s.grant)⟩ := by
  have hinv := h.breaker.step (breakerStep_tryProbe cfg s.breaker)
  have hwake : s.breaker.tryProbe.2.wake = s.breaker.wake := by
    rcases tryProbe_granted hp with ⟨-, heq⟩ | ⟨-, -, heq⟩ <;> rw [heq]
  have hstate : s.breaker.tryProbe.2.state = s.breaker.state := by
    rcases tryProbe_granted hp with ⟨-, heq⟩ | ⟨-, -, heq⟩ <;> rw [heq]
  refine ⟨hinv, fun v g hg => ?_, fun hs v g hg he => ?_, fun v v' g g' hg hg' hin hin' he => ?_⟩
  · show g.episode ≤ s.breaker.tryProbe.2.wake
    rw [hwake]
    rcases update_eq_some.mp hg with ⟨-, rfl⟩ | ⟨-, hg⟩
    · exact le_rfl
    · exact h.past v g hg
  · have hhalf : s.breaker.state = .breakerHalfOpen := hstate ▸ hs
    rcases tryProbe_granted hp with ⟨hclosed, -⟩ | ⟨-, hfree, heq⟩
    · exact absurd (hclosed.symm.trans hhalf) (by decide)
    · refine ⟨?_, by rw [heq]⟩
      rcases update_eq_some.mp hg with ⟨-, rfl⟩ | ⟨-, hg⟩
      · exact decide_eq_true hhalf
      · exact (h.current hhalf v g hg (he.trans hwake)).1
  · have hfresh : ∀ u k, s.granted u = some k → s.grant.inHalfOpen = true →
        k.episode ≠ s.grant.episode := by
      intro u k hk hin he
      have hhalf : s.breaker.state = .breakerHalfOpen := of_decide_eq_true hin
      have hflag := (h.current hhalf u k hk he).2
      rcases tryProbe_granted hp with ⟨hclosed, -⟩ | ⟨-, hfree, -⟩
      · exact absurd (hclosed.symm.trans hhalf) (by decide)
      · exact absurd (hfree.symm.trans hflag) (by decide)
    rcases update_eq_some.mp hg with ⟨hv, hnew⟩ | ⟨-, hold⟩
    · rcases update_eq_some.mp hg' with ⟨hv', -⟩ | ⟨-, hold'⟩
      · exact hv.trans hv'.symm
      · rw [hnew] at hin he
        exact absurd he.symm (hfresh v' g' hold' hin)
    · rcases update_eq_some.mp hg' with ⟨-, hnew'⟩ | ⟨-, hold'⟩
      · rw [hnew'] at hin' he
        exact absurd he (hfresh v g hold hin')
      · exact h.one v v' g g' hold hold' hin hin' he

theorem ProbeInv.step (h : ProbeInv cfg s) (hstep : DispatchStep cfg s l t) : ProbeInv cfg t := by
  cases hstep with
  | granted free probe => exact h.granted probe _
  | denied => exact h
  | @records w g success grant =>
      refine ⟨h.breaker.step (breakerStep_record cfg s.breaker success), fun v k hk => ?_,
        fun hs => absurd hs (record_state_ne cfg success s.breaker), fun v v' k k' hk hk' => ?_⟩
      · show k.episode ≤ (s.breaker.record cfg success).wake
        rw [record_wake]
        exact h.past v k (KeyedMaps.of_update_ne (Option.some_ne_none _).symm hk).2
      · have hold := (KeyedMaps.of_update_ne (Option.some_ne_none _).symm hk).2
        have hold' := (KeyedMaps.of_update_ne (Option.some_ne_none _).symm hk').2
        exact h.one v v' k k' hold hold'
  | @other op b apart step =>
      rcases h.breaker.apart_step step apart with ⟨hstate, hwake, hprobe⟩ | ⟨-, hwake⟩
      · refine ⟨h.breaker.step step, fun v k hk => ?_, fun hs v k hk he => ?_, h.one⟩
        · show k.episode ≤ b.wake
          rw [hwake]
          exact h.past v k hk
        · have hk := h.current (hstate ▸ hs) v k hk (he.trans hwake)
          exact ⟨hk.1, hprobe.trans hk.2⟩
      · have hpast : ∀ v k, s.granted v = some k → k.episode < b.wake := by
          intro v k hk
          rw [hwake]
          exact Nat.lt_succ_of_le (h.past v k hk)
        exact ⟨h.breaker.step step, fun v k hk => (hpast v k hk).le,
          fun _ v k hk he => absurd he (hpast v k hk).ne, h.one⟩

/-- A step out of half-open is a record of the episode's probe, or of a call admitted before the
episode. -/
def EndsEpisode (s : Dispatches) (l : DispatchLabel) (t : Dispatches) : Prop :=
  s.breaker.state = .breakerHalfOpen → t.breaker.state ≠ .breakerHalfOpen →
    ∃ w success g, l = .record w success ∧ s.granted w = some g ∧
      (g.inHalfOpen = true ∧ g.episode = s.episode ∨ g.episode < s.episode)

def ProbeDecides (s : Dispatches) (l : DispatchLabel) (t : Dispatches) : Prop :=
  s.breaker.state = .breakerHalfOpen → t.breaker.state ≠ .breakerHalfOpen →
    ∃ w success g, l = .record w success ∧ s.granted w = some g ∧
      g.inHalfOpen = true ∧ g.episode = s.episode

/-- No call that was admitted before the episode records in half-open. -/
def NoStraggler (s : Dispatches) (l : DispatchLabel) (_ : Dispatches) : Prop :=
  ∀ w success g, l = .record w success → s.granted w = some g →
    s.breaker.state = .breakerHalfOpen → g.episode = s.episode

theorem ProbeInv.endsEpisode (h : ProbeInv cfg s) (hstep : DispatchStep cfg s l t) :
    EndsEpisode s l t := by
  intro hs ht
  cases hstep with
  | granted free probe =>
      rcases tryProbe_granted probe with ⟨hclosed, -⟩ | ⟨-, -, heq⟩
      · exact absurd (hclosed.symm.trans hs) (by decide)
      · exact absurd ((congrArg Breaker.state heq).trans hs) ht
  | denied => exact absurd hs ht
  | @records w g success grant =>
      refine ⟨w, success, g, rfl, grant, ?_⟩
      rcases (h.past w g grant).eq_or_lt with heq | hlt
      · exact .inl ⟨(h.current hs w g grant heq).1, heq⟩
      · exact .inr hlt
  | other apart step =>
      rcases h.breaker.apart_step step apart with ⟨hstate, -, -⟩ | ⟨hopen, -⟩
      · exact absurd (hstate.trans hs) ht
      · exact absurd (hopen.symm.trans hs) (by decide)

/-- A call granted in half-open waits only in its own episode. -/
structure StrictInv (cfg : BreakerConfig) (s : Dispatches) : Prop where
  probe : ProbeInv cfg s
  own : ∀ w g, s.granted w = some g → g.inHalfOpen = true →
    s.breaker.state = .breakerHalfOpen ∧ g.episode = s.episode

theorem strictInv_new (cfg : BreakerConfig) (now : ℤ) : StrictInv cfg (.new now) :=
  ⟨probeInv_new cfg now, fun w g h => by cases h⟩

theorem StrictInv.step (h : StrictInv cfg s) (hstep : DispatchStep cfg s l t)
    (hno : NoStraggler s l t) : StrictInv cfg t := by
  refine ⟨h.probe.step hstep, fun v k hk hin => ?_⟩
  cases hstep with
  | granted free probe =>
      have hkept : s.breaker.tryProbe.2.state = s.breaker.state ∧
          s.breaker.tryProbe.2.wake = s.breaker.wake := by
        rcases tryProbe_granted probe with ⟨-, heq⟩ | ⟨-, -, heq⟩ <;> rw [heq] <;> exact ⟨rfl, rfl⟩
      show s.breaker.tryProbe.2.state = .breakerHalfOpen ∧ k.episode = s.breaker.tryProbe.2.wake
      rw [hkept.1, hkept.2]
      rcases update_eq_some.mp hk with ⟨-, rfl⟩ | ⟨-, hk⟩
      · exact ⟨of_decide_eq_true hin, rfl⟩
      · exact h.own v k hk hin
  | denied => exact h.own v k hk hin
  | @records w g success grant =>
      obtain ⟨hne, hk⟩ := KeyedMaps.of_update_ne (Option.some_ne_none _).symm hk
      obtain ⟨hs, hek⟩ := h.own v k hk hin
      have heg := hno w success g rfl grant hs
      have hing := (h.probe.current hs w g grant heg).1
      exact absurd (h.probe.one v w k g hk grant hin hing (hek.trans heg.symm)) hne
  | @other op b apart step =>
      obtain ⟨hs, hek⟩ := h.own v k hk hin
      rcases h.probe.breaker.apart_step step apart with ⟨hstate, hwake, -⟩ | ⟨hopen, -⟩
      · exact ⟨hstate.trans hs, hek.trans hwake.symm⟩
      · exact absurd (hopen.symm.trans hs) (by decide)

theorem StrictInv.probeDecides (h : StrictInv cfg s) (hstep : DispatchStep cfg s l t)
    (hno : NoStraggler s l t) : ProbeDecides s l t := by
  intro hs ht
  obtain ⟨w, success, g, hl, hg, -⟩ := h.probe.endsEpisode hstep hs ht
  have heg := hno w success g hl hg hs
  exact ⟨w, success, g, hl, hg, (h.probe.current hs w g hg heg).1, heg⟩

theorem run_probeEpisodes {now : ℤ} {ls : List DispatchLabel}
    (hr : run (Dispatches.step cfg) (.new now) ls = some s) :
    Along (Dispatches.step cfg) EndsEpisode (.new now) ls ∧
    (∀ w w' g g', s.granted w = some g → s.granted w' = some g' → g.inHalfOpen = true →
      g'.inHalfOpen = true → g.episode = g'.episode → w = w') ∧
    (Along (Dispatches.step cfg) NoStraggler (.new now) ls →
      Along (Dispatches.step cfg) ProbeDecides (.new now) ls ∧
      ∀ w w' g g', s.granted w = some g → s.granted w' = some g' → g.inHalfOpen = true →
        g'.inHalfOpen = true → w = w') := by
  have hstep : ∀ s l t, ProbeInv cfg s → s.step cfg l = some t → ProbeInv cfg t :=
    fun _ _ _ h hst => h.step (dispatchStep_of_step hst)
  have hends := along_of_invariant (Dispatches.step cfg) hstep
    (fun _ _ _ h hst => h.endsEpisode (dispatchStep_of_step hst)) (probeInv_new cfg now) ls
  have hinv := run_invariant (Dispatches.step cfg) hstep (probeInv_new cfg now) hr
  refine ⟨hends, hinv.one, fun hno => ⟨?_, fun w w' g g' hg hg' hin hin' => ?_⟩⟩
  · refine along_of_along_invariant (Dispatches.step cfg) (I := StrictInv cfg)
      (fun _ _ _ h hst hn => h.step (dispatchStep_of_step hst) hn)
      (fun _ _ _ h hst hn => h.probeDecides (dispatchStep_of_step hst) hn) (strictInv_new cfg now) hno
  · have hstrict := run_invariant_of_along (Dispatches.step cfg) (I := StrictInv cfg)
      (fun _ _ _ h hst hn => h.step (dispatchStep_of_step hst) hn) (strictInv_new cfg now) hno hr
    have he := (hstrict.own w g hg hin).2.trans (hstrict.own w' g' hg' hin').2.symm
    exact hinv.one w w' g g' hg hg' hin hin' he

/-- Two dispatches are admitted; the first one fails and opens the breaker, and the second one
records while the probe of the half-open episode is under way. -/
def straggling : List DispatchLabel :=
  [.tryProbe 0, .tryProbe 1, .record 0 false, .other (.tick 30), .other (.expire 0),
    .other (.callback 0), .tryProbe 2, .record 1 false, .other (.tick 30), .other (.expire 1),
    .other (.callback 1), .tryProbe 3]

def oneFailure : BreakerConfig := ⟨1, Nat.one_pos, 30, twoFailures.cooldown_pos⟩

theorem run_probeEpisodes_straggling :
    ∃ s, run (Dispatches.step oneFailure) (.new 0) straggling = some s ∧
      Along (Dispatches.step oneFailure) EndsEpisode (.new 0) straggling :=
  ⟨_, rfl, (@run_probeEpisodes oneFailure _ 0 straggling rfl).1⟩

theorem straggling_decides :
    ¬Along (Dispatches.step oneFailure) ProbeDecides (.new 0) straggling ∧
    ∃ s, run (Dispatches.step oneFailure) (.new 0) straggling = some s ∧
      s.granted 2 = some ⟨true, 1⟩ ∧ s.granted 3 = some ⟨true, 2⟩ := by
  refine ⟨fun h => ?_, _, rfl, rfl, rfl⟩
  have hsplit : Along (Dispatches.step oneFailure) ProbeDecides (.new 0)
      (straggling.take 7 ++ straggling.drop 7) := h
  have hrest := hsplit.of_append (Dispatches.step oneFailure) rfl
  obtain ⟨w, success, g, hl, hg, hin, -⟩ := (hrest _ rfl).1 rfl (by decide)
  cases hl
  obtain rfl := Option.some.inj hg
  cases hin

end Msgin.Resilience
