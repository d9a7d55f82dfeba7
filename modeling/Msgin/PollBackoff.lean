import Msgin.Producers
import Mathlib.Algebra.Order.Ring.Int

/-!
# The backoff after failed polls

`pollErrorBackoff` doubles a `time.Duration`, an `int64` that wraps around. Below the cap the
product is far from the largest `int64`, so the loop over machine integers computes what
`doubleBelowCap` computes over the integers, and both have one closed form.
-/

namespace Msgin

variable {P T : Type}

structure BackoffLoop where
  i : Int64
  d : Int64

namespace BackoffLoop

def maxBackoff : Int64 := .ofInt maxPollErrorBackoff

/-- `i < n && d < maxPollErrorBackoff`. -/
def goesOn (n : Int64) (s : BackoffLoop) : Bool := s.i < n && s.d < maxBackoff

/-- `d *= 2` and `i++`. -/
def turn (s : BackoffLoop) : BackoffLoop := ⟨s.i + 1, s.d * 2⟩

variable {n p : Int64} {s : BackoffLoop}

theorem toInt_maxBackoff : maxBackoff.toInt = maxPollErrorBackoff := by decide

theorem goesOn_iff : s.goesOn n = true ↔ s.i.toInt < n.toInt ∧ s.d.toInt < maxPollErrorBackoff := by
  rw [goesOn, Bool.and_eq_true, decide_eq_true_iff, decide_eq_true_iff, Int64.lt_iff_toInt_lt,
    Int64.lt_iff_toInt_lt, toInt_maxBackoff]

theorem toInt_turn_i (h : s.goesOn n = true) : s.turn.i.toInt = s.i.toInt + 1 := by
  have hone : (1 : Int64).toInt = 1 := by decide
  have hlt := (goesOn_iff.mp h).1
  have hn := n.toInt_lt
  have hi := s.i.le_toInt
  rw [turn, Int64.toInt_add, hone]
  exact Int.bmod_eq_of_le (by omega) (by omega)

def loop (n : Int64) (s : BackoffLoop) : BackoffLoop :=
  if s.goesOn n = true then loop n s.turn else s
termination_by (n.toInt - s.i.toInt).toNat
decreasing_by
  have hgoes : s.goesOn n = true := by assumption
  have hlt := (goesOn_iff.mp hgoes).1
  rw [toInt_turn_i hgoes]
  omega

inductive Reaches (n p : Int64) : BackoffLoop → Prop
  | start : Reaches n p ⟨1, p⟩
  | turn {s : BackoffLoop} (reached : Reaches n p s) (guard : s.goesOn n = true) :
      Reaches n p s.turn

theorem doubled_lt (h : s.goesOn n = true) : s.d.toInt * 2 < 2 ^ 63 := by
  have hlt := (goesOn_iff.mp h).2
  rw [maxPollErrorBackoff] at hlt
  omega

theorem toInt_turn_d (h : s.goesOn n = true) (hpos : 0 < s.d.toInt) :
    s.turn.d.toInt = s.d.toInt * 2 := by
  have htwo : (2 : Int64).toInt = 2 := by decide
  have hlt := doubled_lt h
  rw [turn, Int64.toInt_mul, htwo]
  exact Int.bmod_eq_of_le (by omega) (by omega)

theorem Reaches.pos (hp : 0 < p.toInt) (h : Reaches n p s) : 0 < s.d.toInt := by
  induction h with
  | start => exact hp
  | turn reached guard ih =>
      rw [toInt_turn_d guard ih]
      omega

theorem toInt_loop (hpos : 0 < s.d.toInt) :
    (loop n s).d.toInt = doubleBelowCap (n.toInt - s.i.toInt).toNat s.d.toInt := by
  induction s using loop.induct n with
  | case1 s h ih =>
      obtain ⟨hi, hd⟩ := goesOn_iff.mp h
      have hdouble := toInt_turn_d h hpos
      have hturns : (n.toInt - s.i.toInt).toNat = (n.toInt - s.turn.i.toInt).toNat + 1 := by
        rw [toInt_turn_i h]
        omega
      rw [loop, if_pos h, ih (by omega), hdouble, hturns, doubleBelowCap, if_pos hd]
  | case2 s h =>
      rw [loop, if_neg h]
      by_cases hi : s.i.toInt < n.toInt
      · have hd : ¬s.d.toInt < maxPollErrorBackoff := fun hd => h (goesOn_iff.mpr ⟨hi, hd⟩)
        cases (n.toInt - s.i.toInt).toNat with
        | zero => rfl
        | succ k => rw [doubleBelowCap, if_neg hd]
      · have hzero : (n.toInt - s.i.toInt).toNat = 0 := by omega
        rw [hzero, doubleBelowCap]

end BackoffLoop

/-- `pollErrorBackoff` with the widths of its types. -/
def pollErrorBackoffInt64 (pollInterval n : Int64) : Int64 :=
  min (BackoffLoop.loop n ⟨1, pollInterval⟩).d BackoffLoop.maxBackoff

theorem toInt_min (a b : Int64) : (min a b).toInt = min a.toInt b.toInt := by
  change (if a ≤ b then a else b).toInt = _
  by_cases h : a ≤ b
  · rw [if_pos h, min_eq_left (Int64.le_iff_toInt_le.mp h)]
  · have hle : b.toInt ≤ a.toInt := (lt_of_not_ge (mt Int64.le_iff_toInt_le.mpr h)).le
    rw [if_neg h, min_eq_right hle]

theorem toInt_pollErrorBackoffInt64_loop {p : Int64} (hpos : 0 < p.toInt) (n : Int64) :
    (pollErrorBackoffInt64 p n).toInt =
      min (doubleBelowCap (n.toInt - 1).toNat p.toInt) maxPollErrorBackoff := by
  have hone : (1 : Int64).toInt = 1 := by decide
  have hturns : (n.toInt - (1 : Int64).toInt).toNat = (n.toInt - 1).toNat := by rw [hone]
  have hloop : (BackoffLoop.loop n ⟨1, p⟩).d.toInt =
      doubleBelowCap (n.toInt - (1 : Int64).toInt).toNat p.toInt := BackoffLoop.toInt_loop hpos
  calc (pollErrorBackoffInt64 p n).toInt
      = min (BackoffLoop.loop n ⟨1, p⟩).d.toInt BackoffLoop.maxBackoff.toInt := toInt_min _ _
    _ = min (doubleBelowCap (n.toInt - (1 : Int64).toInt).toNat p.toInt) maxPollErrorBackoff :=
        congrArg₂ min hloop BackoffLoop.toInt_maxBackoff
    _ = min (doubleBelowCap (n.toInt - 1).toNat p.toInt) maxPollErrorBackoff := by rw [hturns]

/-- The integer model of `pollErrorBackoff` computes the same backoff. -/
theorem toInt_pollErrorBackoffInt64 (c : Consumer P T) {p n : Int64}
    (hp : c.pollInterval = p.toInt) (hpos : 0 < p.toInt) (hn : 0 < n.toInt) :
    (pollErrorBackoffInt64 p n).toInt = pollErrorBackoff c n.toInt.toNat := by
  have hturns : (n.toInt - 1).toNat = n.toInt.toNat - 1 := by omega
  rw [toInt_pollErrorBackoffInt64_loop hpos, pollErrorBackoff, hp, hturns]

theorem min_doubleBelowCap (n : ℕ) {d : ℤ} (hd : 0 < d) :
    min (doubleBelowCap n d) maxPollErrorBackoff = min maxPollErrorBackoff (d * 2 ^ n) := by
  induction n generalizing d with
  | zero => rw [doubleBelowCap, pow_zero, mul_one, min_comm]
  | succ n ih =>
      rw [doubleBelowCap]
      by_cases hlt : d < maxPollErrorBackoff
      · rw [if_pos hlt, ih (by omega), pow_succ', mul_assoc]
      · have hle : maxPollErrorBackoff ≤ d := not_lt.mp hlt
        have hpow : (1 : ℤ) ≤ 2 ^ (n + 1) := one_le_pow₀ (by decide)
        have hmul : d ≤ d * 2 ^ (n + 1) := le_mul_of_one_le_right hd.le hpow
        rw [if_neg hlt, min_eq_right hle, min_eq_left (hle.trans hmul)]

theorem pollErrorBackoff_eq (c : Consumer P T) (hp : 0 < c.pollInterval) (n : ℕ) :
    pollErrorBackoff c n = min maxPollErrorBackoff (c.pollInterval * 2 ^ (n - 1)) :=
  min_doubleBelowCap (n - 1) hp

/-- The backoff after the `n`th failed poll in a row, which is that of the consumer, and no product
on the way to it wraps around. -/
theorem pollErrorBackoffInt64_eq_min {p : Int64} (hp : 1 ≤ p) (n : Int64) :
    (pollErrorBackoffInt64 p n).toInt =
        min (30 * 1000000000) (p.toInt * 2 ^ (n.toInt - 1).toNat) ∧
      (∀ {P T : Type} (c : Consumer P T), c.pollInterval = p.toInt → 0 < n.toInt →
        (pollErrorBackoffInt64 p n).toInt = pollErrorBackoff c n.toInt.toNat) ∧
      ∀ s, BackoffLoop.Reaches n p s → s.goesOn n = true →
        -2 ^ 63 ≤ s.d.toInt * 2 ∧ s.d.toInt * 2 < 2 ^ 63 := by
  have hone : (1 : Int64).toInt = 1 := by decide
  rw [Int64.le_iff_toInt_le, hone] at hp
  have hpos : 0 < p.toInt := by omega
  refine ⟨?_, fun c hc hn => toInt_pollErrorBackoffInt64 c hc hpos hn, ?_⟩
  · rw [toInt_pollErrorBackoffInt64_loop hpos, min_doubleBelowCap _ hpos, maxPollErrorBackoff]
  · intro s hs hgoes
    have hd := hs.pos hpos
    exact ⟨by omega, BackoffLoop.doubled_lt hgoes⟩

/-- A poll interval of one nanosecond reaches the cap with its thirty-sixth failed poll. -/
theorem pollErrorBackoffInt64_nanosecond :
    (pollErrorBackoffInt64 1 35).toInt = 17179869184 ∧
      (pollErrorBackoffInt64 1 36).toInt = 30000000000 :=
  ⟨(pollErrorBackoffInt64_eq_min (by decide) _).1.trans (by decide),
    (pollErrorBackoffInt64_eq_min (by decide) _).1.trans (by decide)⟩

end Msgin
