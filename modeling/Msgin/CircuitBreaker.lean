import Mathlib.Data.List.DropRight
import Msgin.TransitionRuns

/-!
# The circuit breaker

`breaker` of package `resilience`. Every method holds the lock, so that each call is one step. A
cooldown timer is armed by `AfterFunc`; once its time has come it expires, and its callback waits for
the lock until it runs. Channels and timers are numbered in the order in which they are made.
-/

namespace Msgin.Resilience

open TransitionRuns

inductive BreakerState
  | breakerClosed
  | breakerOpen
  | breakerHalfOpen
  deriving DecidableEq

/-- The options as `NewCircuitBreaker` takes them over; a value out of range is ignored there. -/
structure BreakerConfig where
  threshold : ℕ
  threshold_pos : 1 ≤ threshold
  cooldown : ℤ
  cooldown_pos : 0 < cooldown

structure Timer where
  id : ℕ
  due : ℤ
  deriving DecidableEq

structure Breaker where
  state : BreakerState
  fails : ℕ
  probeInFlight : Bool
  wake : ℕ
  timer : Option ℕ
  now : ℤ
  armed : List Timer
  -- The timers whose callbacks wait for the lock.
  waiting : List ℕ
  closedChans : List ℕ
  timersMade : ℕ
  chansMade : ℕ
  deriving DecidableEq

inductive BreakerOp
  | allow
  | tryProbe
  | record (success : Bool)
  | halfOpen
  | tick (d : ℕ)
  | expire (id : ℕ)
  | callback (id : ℕ)
  deriving DecidableEq

namespace Breaker

def new (now : ℤ) : Breaker := ⟨.breakerClosed, 0, false, 0, none, now, [], [], [], 0, 1⟩

def allow (b : Breaker) : Bool := b.state ≠ .breakerOpen

def tryProbe (b : Breaker) : Bool × Breaker :=
  match b.state with
  | .breakerOpen => (false, b)
  | .breakerHalfOpen =>
    if b.probeInFlight then (false, b) else (true, { b with probeInFlight := true })
  | .breakerClosed => (true, b)

/-- `Stop` takes the timer out if it has not expired. -/
def openLocked (cfg : BreakerConfig) (b : Breaker) : Breaker :=
  { b with
    state := .breakerOpen
    timer := some b.timersMade
    armed := (b.armed.filter fun t => b.timer ≠ some t.id) ++ [⟨b.timersMade, b.now + cfg.cooldown⟩]
    timersMade := b.timersMade + 1 }

def record (cfg : BreakerConfig) (success : Bool) (b : Breaker) : Breaker :=
  if success then
    match b.state with
    | .breakerHalfOpen => { b with fails := 0, state := .breakerClosed, probeInFlight := false }
    | _ => { b with fails := 0 }
  else
    match b.state with
    | .breakerClosed =>
      if cfg.threshold ≤ b.fails + 1 then openLocked cfg { b with fails := b.fails + 1 }
      else { b with fails := b.fails + 1 }
    | .breakerHalfOpen => openLocked cfg { b with fails := b.fails + 1, probeInFlight := false }
    | .breakerOpen => { b with fails := b.fails + 1 }

def halfOpen (b : Breaker) : ℕ := b.wake

/-- `none` where the close of a closed channel panics. -/
def toHalfOpen (b : Breaker) : Option Breaker :=
  if b.state ≠ .breakerOpen then some b
  else if b.wake ∈ b.closedChans then none
  else
    some
      { b with
        state := .breakerHalfOpen
        probeInFlight := false
        closedChans := b.wake :: b.closedChans
        wake := b.chansMade
        chansMade := b.chansMade + 1 }

def step (cfg : BreakerConfig) (b : Breaker) : BreakerOp → Option Breaker
  | .allow => some b
  | .tryProbe => some b.tryProbe.2
  | .record success => some (b.record cfg success)
  | .halfOpen => some b
  | .tick d => some { b with now := b.now + d }
  | .expire id =>
    match b.armed.find? fun t => t.id = id with
    | some t =>
      if t.due ≤ b.now then some { b with armed := b.armed.erase t, waiting := b.waiting ++ [id] }
      else none
    | none => none
  | .callback id =>
    if id ∈ b.waiting then { b with waiting := b.waiting.erase id }.toHalfOpen else none

end Breaker

variable {cfg : BreakerConfig} {b b' : Breaker} {op : BreakerOp}

inductive BreakerStep (cfg : BreakerConfig) (b : Breaker) : BreakerOp → Breaker → Prop
  | idle {op : BreakerOp} (now : ℤ) (noRecord : ∀ success, op ≠ .record success)
      (noProbe : op = .tryProbe → b.state = .breakerHalfOpen → b.probeInFlight = true) :
      BreakerStep cfg b op { b with now }
  | probes (state : b.state = .breakerHalfOpen) (free : b.probeInFlight = false) :
      BreakerStep cfg b .tryProbe { b with probeInFlight := true }
  | resets (state : b.state ≠ .breakerHalfOpen) :
      BreakerStep cfg b (.record true) { b with fails := 0 }
  | closes (state : b.state = .breakerHalfOpen) :
      BreakerStep cfg b (.record true)
        { b with fails := 0, state := .breakerClosed, probeInFlight := false }
  | counts (state : b.state ≠ .breakerHalfOpen)
      (below : b.state = .breakerClosed → b.fails + 1 < cfg.threshold) :
      BreakerStep cfg b (.record false) { b with fails := b.fails + 1 }
  | opens (state : b.state ≠ .breakerOpen) (probe : Bool)
      (free : probe = true → b.state = .breakerClosed ∧ b.probeInFlight = true) :
      BreakerStep cfg b (.record false)
        (.openLocked cfg { b with fails := b.fails + 1, probeInFlight := probe })
  | expires {t : Timer} (armed : t ∈ b.armed) (due : t.due ≤ b.now) :
      BreakerStep cfg b (.expire t.id)
        { b with armed := b.armed.erase t, waiting := b.waiting ++ [t.id] }
  | late {id : ℕ} (waiting : id ∈ b.waiting) (state : b.state ≠ .breakerOpen) :
      BreakerStep cfg b (.callback id) { b with waiting := b.waiting.erase id }
  | wakes {id : ℕ} (waiting : id ∈ b.waiting) (state : b.state = .breakerOpen)
      (unclosed : b.wake ∉ b.closedChans) :
      BreakerStep cfg b (.callback id)
        { b with
          state := .breakerHalfOpen
          probeInFlight := false
          waiting := b.waiting.erase id
          closedChans := b.wake :: b.closedChans
          wake := b.chansMade
          chansMade := b.chansMade + 1 }

theorem breakerStep_tryProbe (cfg : BreakerConfig) (b : Breaker) :
    BreakerStep cfg b .tryProbe b.tryProbe.2 := by
  have hrecord : ∀ success, BreakerOp.tryProbe ≠ .record success := by
    intro success h
    cases h
  rcases hs : b.state with _ | _ | _
  · rw [show b.tryProbe = (true, b) by simp only [Breaker.tryProbe, hs]]
    exact .idle b.now hrecord fun _ h => absurd (hs.symm.trans h) (by decide)
  · rw [show b.tryProbe = (false, b) by simp only [Breaker.tryProbe, hs]]
    exact .idle b.now hrecord fun _ h => absurd (hs.symm.trans h) (by decide)
  · cases hp : b.probeInFlight with
    | true =>
        rw [show b.tryProbe = (false, b) by simp [Breaker.tryProbe, hs, hp]]
        exact .idle b.now hrecord fun _ _ => hp
    | false =>
        rw [show b.tryProbe = (true, { b with probeInFlight := true }) by
          simp [Breaker.tryProbe, hs, hp]]
        exact .probes hs hp

theorem breakerStep_record (cfg : BreakerConfig) (b : Breaker) (success : Bool) :
    BreakerStep cfg b (.record success) (b.record cfg success) := by
  cases success with
  | true =>
      rcases hs : b.state with _ | _ | _
      · rw [show b.record cfg true = { b with fails := 0 } by simp [Breaker.record, hs]]
        exact .resets (by rw [hs]; decide)
      · rw [show b.record cfg true = { b with fails := 0 } by simp [Breaker.record, hs]]
        exact .resets (by rw [hs]; decide)
      · rw [show b.record cfg true =
          { b with fails := 0, state := .breakerClosed, probeInFlight := false } by
            simp [Breaker.record, hs]]
        exact .closes hs
  | false =>
      rcases hs : b.state with _ | _ | _
      · by_cases hfull : cfg.threshold ≤ b.fails + 1
        · rw [show b.record cfg false = .openLocked cfg
            { b with fails := b.fails + 1, probeInFlight := b.probeInFlight } by
              simp [Breaker.record, hs, hfull]]
          exact .opens (by rw [hs]; decide) _ fun hp => ⟨hs, hp⟩
        · rw [show b.record cfg false = { b with fails := b.fails + 1 } by
            simp [Breaker.record, hs, hfull]]
          exact .counts (by rw [hs]; decide) fun _ => Nat.lt_of_not_le hfull
      · rw [show b.record cfg false = { b with fails := b.fails + 1 } by simp [Breaker.record, hs]]
        exact .counts (by rw [hs]; decide) fun h => absurd (hs.symm.trans h) (by decide)
      · rw [show b.record cfg false = .openLocked cfg
          { b with fails := b.fails + 1, probeInFlight := false } by simp [Breaker.record, hs]]
        exact .opens (by rw [hs]; decide) false (by intro h; cases h)

theorem breakerStep_callback {id : ℕ} (hid : id ∈ b.waiting)
    (h : { b with waiting := b.waiting.erase id }.toHalfOpen = some b') :
    BreakerStep cfg b (.callback id) b' := by
  by_cases hs : b.state = .breakerOpen
  · by_cases hw : b.wake ∈ b.closedChans
    · simp [Breaker.toHalfOpen, hs, hw] at h
    · simp only [Breaker.toHalfOpen, hs, hw, ne_eq, not_true_eq_false, if_false,
        Option.some.injEq] at h
      exact h ▸ .wakes hid hs hw
  · simp only [Breaker.toHalfOpen, ne_eq, hs, not_false_eq_true, if_true, Option.some.injEq] at h
    exact h ▸ .late hid hs

theorem breakerStep_of_step (h : b.step cfg op = some b') : BreakerStep cfg b op b' := by
  cases op with
  | allow =>
      obtain rfl := Option.some.inj h
      exact .idle b.now (fun _ h => by cases h) (fun h => by cases h)
  | tryProbe =>
      obtain rfl := Option.some.inj h
      exact breakerStep_tryProbe cfg b
  | record success =>
      obtain rfl := Option.some.inj h
      exact breakerStep_record cfg b success
  | halfOpen =>
      obtain rfl := Option.some.inj h
      exact .idle b.now (fun _ h => by cases h) (fun h => by cases h)
  | tick d =>
      obtain rfl := Option.some.inj h
      exact .idle (b.now + d) (fun _ h => by cases h) (fun h => by cases h)
  | expire id =>
      rcases hfind : b.armed.find? (fun t => t.id = id) with _ | t
      · simp [Breaker.step, hfind] at h
      · by_cases hdue : t.due ≤ b.now
        · simp only [Breaker.step, hfind, hdue, if_true, Option.some.injEq] at h
          obtain rfl : t.id = id := by simpa using List.find?_some hfind
          exact h ▸ .expires (List.mem_of_find?_eq_some hfind) hdue
        · simp [Breaker.step, hfind, hdue] at h
  | callback id =>
      obtain ⟨hid, h⟩ := Option.ite_none_right_eq_some.mp h
      exact breakerStep_callback hid h

end Msgin.Resilience
