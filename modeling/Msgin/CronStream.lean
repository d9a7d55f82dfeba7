import Mathlib.Algebra.Order.Ring.Int
import Mathlib.Logic.Function.Iterate
import Msgin.CronFleet

/-!
# The loop of a cron source

`Source.Stream` over a schedule of which nothing is known but that `Next` moves on. The loop seeds
`next` from the clock, steps over the instants that are due when it looks at them, waits for the
first one that is not, asks the gate and hands the fire over. Times are nanoseconds of one clock
that never goes back; it moves on between any two steps, so the gate and the hand-off take as long
as they like. The context may end at any time.
-/

namespace Msgin.Cron

open TransitionRuns

/-- `next` is none where `Next` returns the zero time. -/
structure Schedule where
  next : ℤ → Option ℤ
  later : ∀ t n, next t = some n → t < n

def maxDuration : ℤ := 2 ^ 63 - 1

def minDuration : ℤ := -2 ^ 63

/-- `time.Time.Sub`. -/
def timeSub (t u : ℤ) : ℤ := max minDuration (min maxDuration (t - u))

structure Source where
  schedule : Schedule
  -- Whether a coordinator is wired.
  gate : Bool

/-- Where `Stream` is. `armed` is what the clock read for the wait. -/
inductive LoopPhase
  | seeking (next : Option ℤ)
  | arming (next : ℤ)
  | waiting (next armed : ℤ)
  | asking (fire armed : ℤ) (next : Option ℤ)
  | handing (fire armed : ℤ) (next : Option ℤ)
  | returned (err : Err)

/-- The places where `Stream` receives from `ctx.Done()`. -/
def LoopPhase.listens : LoopPhase → Bool
  | .seeking none | .waiting _ _ | .handing _ _ _ => true
  | _ => false

structure LoopState where
  now : ℤ
  ctxErr : Option Err
  phase : LoopPhase

inductive LoopLabel
  | tick (d : ℕ)
  | cancel (cause : Err)
  | look
  | arm
  | timer
  -- What the gate returns.
  | answer (r : Except Err Bool)
  | hand
  | ctxDone

/-- A delivery that was taken from `out`, with the time at which it was. -/
structure StreamFire where
  fire : ℤ
  armed : ℤ
  handed : ℤ
  deriving DecidableEq

inductive LoopEvent
  -- An instant that was due when the loop looked at it.
  | missed (t : ℤ)
  | asked (fire : ℤ) (won : Bool)
  | handed (x : StreamFire)
  deriving DecidableEq

namespace Source

variable (c : Source)

def win (r : Except Err Bool) : Bool := if c.gate then Cron.win r else true

def act (s : LoopState) : LoopLabel → Option (LoopState × Option LoopEvent)
  | .tick d => some ({ s with now := s.now + d }, none)
  | .cancel cause => some ({ s with ctxErr := s.ctxErr.or (some cause) }, none)
  | .look =>
    match s.phase with
    | .seeking (some next) =>
      if next ≤ s.now then
        some ({ s with phase := .seeking (c.schedule.next next) }, some (.missed next))
      else some ({ s with phase := .arming next }, none)
    | _ => none
  | .arm =>
    match s.phase with
    | .arming next => some ({ s with phase := .waiting next s.now }, none)
    | _ => none
  | .timer =>
    match s.phase with
    | .waiting next armed =>
      -- The channel of `After` is ready once the duration has passed, and the loop may come to it
      -- later.
      if armed + timeSub next armed ≤ s.now then
        some ({ s with phase := .asking next armed (c.schedule.next next) }, none)
      else none
    | _ => none
  | .answer r =>
    match s.phase with
    | .asking fire armed next =>
      some ({ s with phase := if c.win r then .handing fire armed next else .seeking next },
        some (.asked fire (c.win r)))
    | _ => none
  | .hand =>
    match s.phase with
    | .handing fire armed next =>
      some ({ s with phase := .seeking next }, some (.handed ⟨fire, armed, s.now⟩))
    | _ => none
  | .ctxDone =>
    if s.phase.listens then s.ctxErr.map fun err => ({ s with phase := .returned err }, none)
    else none

def step (s : LoopState) (l : LoopLabel) : Option LoopState := (c.act s l).map Prod.fst

/-- `Stream`, called when the clock reads `now`. -/
def stream (now : ℤ) : LoopState := ⟨now, none, .seeking (c.schedule.next now)⟩

def trace (s : LoopState) (ls : List LoopLabel) : List LoopEvent :=
  observe c.step (fun s l => (c.act s l).bind Prod.snd) s ls

end Source

namespace Schedule

variable (c : Schedule) {first : Option ℤ}

/-- The instants that follow from `first`, one step of the schedule at a time. -/
def iterate (first : Option ℤ) (n : ℕ) : Option ℤ := (fun o => o.bind c.next)^[n] first

def iterates (first : Option ℤ) (n : ℕ) : List ℤ := (List.range n).filterMap (c.iterate first)

theorem iterate_succ (first : Option ℤ) (n : ℕ) :
    c.iterate first (n + 1) = (c.iterate first n).bind c.next :=
  Function.iterate_succ_apply' ..

theorem iterate_next {n : ℕ} {t : ℤ} (h : c.iterate first n = some t) :
    c.iterate first (n + 1) = c.next t := by
  rw [iterate_succ, h, Option.bind_some]

theorem iterate_lt {m n : ℕ} (hmn : m < n) {t u : ℤ} (ht : c.iterate first m = some t)
    (hu : c.iterate first n = some u) : t < u := by
  induction n, hmn using Nat.le_induction generalizing u with
  | base =>
      rw [c.iterate_next ht] at hu
      exact c.later t u hu
  | succ n hmn ih =>
      rw [iterate_succ, Option.bind_eq_some_iff] at hu
      obtain ⟨v, hv, hnext⟩ := hu
      exact (ih hv).trans (c.later v u hnext)

theorem iterates_succ (first : Option ℤ) (n : ℕ) :
    c.iterates first (n + 1) = c.iterates first n ++ (c.iterate first n).toList := by
  rw [iterates, List.range_succ, List.filterMap_append]
  cases h : c.iterate first n <;> simp [iterates, h]

theorem mem_iterates {n : ℕ} {t : ℤ} (h : t ∈ c.iterates first n) :
    ∃ m, c.iterate first m = some t := by
  obtain ⟨m, -, hm⟩ := List.mem_filterMap.mp h
  exact ⟨m, hm⟩

theorem pairwise_iterates (first : Option ℤ) (n : ℕ) : (c.iterates first n).Pairwise (· < ·) := by
  rw [iterates, List.pairwise_filterMap]
  refine List.pairwise_lt_range.imp ?_
  intro m k hmk t ht u hu
  exact c.iterate_lt hmk ht hu

end Schedule

theorem add_timeSub_of_le {t u : ℤ} (h : t - u ≤ maxDuration) : t ≤ u + timeSub t u := by
  have hmax : t - u ≤ timeSub t u := by
    rw [timeSub, min_eq_right h]
    exact le_max_right ..
  omega

variable {c : Source} {s s' : LoopState} {e : Option LoopEvent}

inductive LoopStep (c : Source) (s : LoopState) : LoopState → Option LoopEvent → Prop
  | passes (d : ℕ) : LoopStep c s { s with now := s.now + d } none
  | cancels (err : Option Err) : LoopStep c s { s with ctxErr := err } none
  | misses (next : ℤ) (here : s.phase = .seeking (some next)) (due : next ≤ s.now) :
      LoopStep c s { s with phase := .seeking (c.schedule.next next) } (some (.missed next))
  | stays (next : ℤ) (here : s.phase = .seeking (some next)) (ahead : s.now < next) :
      LoopStep c s { s with phase := .arming next } none
  | arms (next : ℤ) (here : s.phase = .arming next) :
      LoopStep c s { s with phase := .waiting next s.now } none
  | wakes (next armed : ℤ) (here : s.phase = .waiting next armed)
      (elapsed : armed + timeSub next armed ≤ s.now) :
      LoopStep c s { s with phase := .asking next armed (c.schedule.next next) } none
  | wins (fire armed : ℤ) (next : Option ℤ) (here : s.phase = .asking fire armed next) :
      LoopStep c s { s with phase := .handing fire armed next } (some (.asked fire true))
  | loses (fire armed : ℤ) (next : Option ℤ) (here : s.phase = .asking fire armed next) :
      LoopStep c s { s with phase := .seeking next } (some (.asked fire false))
  | hands (fire armed : ℤ) (next : Option ℤ) (here : s.phase = .handing fire armed next) :
      LoopStep c s { s with phase := .seeking next } (some (.handed ⟨fire, armed, s.now⟩))
  | returns (err : Err) (here : s.phase.listens = true) (ended : s.ctxErr = some err) :
      LoopStep c s { s with phase := .returned err } none

theorem loopStep_of_act {l : LoopLabel} (h : c.act s l = some (s', e)) : LoopStep c s s' e := by
  cases l with
  | tick d =>
      cases h
      exact .passes d
  | cancel cause =>
      cases h
      exact .cancels _
  | look =>
      simp only [Source.act] at h
      split at h
      · next next here =>
          split at h
          · next due =>
              cases h
              exact .misses next here due
          · next ahead =>
              cases h
              exact .stays next here (by omega)
      · cases h
  | arm =>
      simp only [Source.act] at h
      split at h
      · next next here =>
          cases h
          exact .arms next here
      · cases h
  | timer =>
      simp only [Source.act] at h
      split at h
      · next next armed here =>
          split at h
          · next elapsed =>
              cases h
              exact .wakes next armed here elapsed
          · cases h
      · cases h
  | answer r =>
      simp only [Source.act] at h
      split at h
      · next fire armed next here =>
          cases h
          cases c.win r
          · exact .loses fire armed next here
          · exact .wins fire armed next here
      · cases h
  | hand =>
      simp only [Source.act] at h
      split at h
      · next fire armed next here =>
          cases h
          exact .hands fire armed next here
      · cases h
  | ctxDone =>
      simp only [Source.act] at h
      split at h
      · next here =>
          rw [Option.map_eq_some_iff] at h
          obtain ⟨err, ended, h⟩ := h
          cases h
          exact .returns err here ended
      · cases h

theorem run_loop {I : LoopState → List LoopEvent → Prop}
    (hstep : ∀ s s' e os, I s os → LoopStep c s s' e → I s' (os ++ e.toList)) {s t : LoopState}
    {ls : List LoopLabel} (hs : I s []) (hr : run c.step s ls = some t) : I t (c.trace s ls) := by
  refine run_observe c.step _ ?_ hs hr
  intro s l t os hI ht
  obtain ⟨⟨t, e⟩, hact, rfl⟩ := Option.map_eq_some_iff.mp ht
  rw [hact, Option.bind_some]
  exact hstep s t e os hI (loopStep_of_act hact)

end Msgin.Cron
