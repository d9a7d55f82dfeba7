import Mathlib.Data.Nat.Find
import Msgin.CronStream

/-!
# The skip phases of a stream

The inner loop reads the clock at every turn. It ends if the schedule gets ahead of the clock at
some turn, which a clock that keeps up with the schedule prevents.
-/

namespace Msgin.Cron

open TransitionRuns

variable {c : Source} {s : LoopState}

/-- `k` turns of the inner loop, where the clock moves on by `d i` before it is read for turn
`i`. -/
def turns (d : ℕ → ℕ) : ℕ → List LoopLabel
  | 0 => []
  | k + 1 => turns d k ++ [.tick (d k), .look]

/-- What the clock reads after `k` turns. -/
def clockAfter (now : ℤ) (d : ℕ → ℕ) : ℕ → ℤ
  | 0 => now
  | k + 1 => clockAfter now d k + d k

def SkipEnds (c : Source) (s : LoopState) (d : ℕ → ℕ) : Prop :=
  ∃ k s', run c.step s (turns d k) = some s' ∧ ∀ next, s'.phase ≠ .seeking (some next)

/-- The instants from `first` on grow without bound, or come to an end. -/
def Unbounded (c : Schedule) (first : Option ℤ) : Prop :=
  ∀ b, ∃ n, ∀ t, c.iterate first n = some t → b < t

section Skip

variable {next : Option ℤ} (hs : s.phase = .seeking next) (d : ℕ → ℕ)

include hs

theorem run_turns {k : ℕ}
    (hdue : ∀ i < k, ∃ t, c.schedule.iterate next i = some t ∧ t ≤ clockAfter s.now d (i + 1)) :
    run c.step s (turns d k) =
      some ⟨clockAfter s.now d k, s.ctxErr, .seeking (c.schedule.iterate next k)⟩ := by
  induction k with
  | zero =>
      obtain ⟨now, ctxErr, phase⟩ := s
      cases hs
      rfl
  | succ k ih =>
      obtain ⟨t, ht, hle⟩ := hdue k (Nat.lt_succ_self k)
      have hprev := ih fun i hi => hdue i (Nat.lt_succ_of_lt hi)
      rw [clockAfter] at hle
      rw [turns, run_append, hprev, Option.bind_some, ht, c.schedule.iterate_next ht, clockAfter]
      simp [run, Source.step, Source.act, hle]

theorem run_turns_ahead {k : ℕ} {t : ℤ}
    (hdue : ∀ i < k, ∃ t, c.schedule.iterate next i = some t ∧ t ≤ clockAfter s.now d (i + 1))
    (ht : c.schedule.iterate next k = some t) (hahead : clockAfter s.now d (k + 1) < t) :
    run c.step s (turns d (k + 1)) =
      some ⟨clockAfter s.now d (k + 1), s.ctxErr, .arming t⟩ := by
  have hlate : ¬ t ≤ clockAfter s.now d k + d k := by
    rw [clockAfter] at hahead
    omega
  rw [turns, run_append, run_turns hs d hdue, Option.bind_some, ht, clockAfter]
  simp [run, Source.step, Source.act, hlate]

theorem skipEnds_iff :
    SkipEnds c s d ↔
      ∃ n, ∀ t, c.schedule.iterate next n = some t → clockAfter s.now d (n + 1) < t := by
  have hnot (n : ℕ)
      (h : ¬ ∀ t, c.schedule.iterate next n = some t → clockAfter s.now d (n + 1) < t) :
      ∃ t, c.schedule.iterate next n = some t ∧ t ≤ clockAfter s.now d (n + 1) := by
    push Not at h
    exact h
  constructor
  · rintro ⟨k, s', hrun, hend⟩
    by_contra hnever
    have hdue (n : ℕ) := hnot n fun h => hnever ⟨n, h⟩
    rw [run_turns hs d fun i _ => hdue i] at hrun
    obtain ⟨t, ht, -⟩ := hdue k
    cases hrun
    exact hend t (congrArg LoopPhase.seeking ht)
  · intro hahead
    classical
    have hdue : ∀ i < Nat.find hahead, _ := fun i hi => hnot i (Nat.find_min hahead hi)
    have hfirst := Nat.find_spec hahead
    cases ht : c.schedule.iterate next (Nat.find hahead) with
    | none =>
        refine ⟨_, _, run_turns hs d hdue, ?_⟩
        intro t h
        rw [ht] at h
        cases h
    | some t =>
        refine ⟨_, _, run_turns_ahead hs d hdue ht (hfirst t ht), ?_⟩
        intro t h
        cases h

theorem skipEnds_of_bounded (hunbounded : Unbounded c.schedule next) {b : ℤ}
    (hb : ∀ k, clockAfter s.now d k ≤ b) : SkipEnds c s d := by
  rw [skipEnds_iff hs]
  obtain ⟨n, hn⟩ := hunbounded b
  refine ⟨n, ?_⟩
  intro t ht
  exact (hb (n + 1)).trans_lt (hn t ht)

end Skip

/-- A source that fires every `delay` nanoseconds. -/
def constantDelay (delay : ℕ) (hdelay : 0 < delay) (gate : Bool) : Source where
  schedule := {
    next := fun t => some (t + delay)
    later := by
      intro t n h
      have := Option.some.inj h
      omega }
  gate := gate

theorem iterate_constantDelay (delay : ℕ) (hdelay : 0 < delay) (gate : Bool) (t : ℤ) (n : ℕ) :
    (constantDelay delay hdelay gate).schedule.iterate (some t) n = some (t + n * delay) := by
  induction n with
  | zero => simp [Schedule.iterate]
  | succ n ih =>
      rw [Schedule.iterate_next _ ih, Nat.cast_succ, add_mul, one_mul, ← add_assoc]
      rfl

theorem clockAfter_const (now : ℤ) (d k : ℕ) : clockAfter now (fun _ => d) k = now + k * d := by
  induction k with
  | zero => simp [clockAfter]
  | succ k ih =>
      rw [clockAfter, ih, Nat.cast_succ, add_mul, one_mul, ← add_assoc]

end Msgin.Cron
