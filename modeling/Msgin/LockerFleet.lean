import Msgin.LockerDialect

/-!
# A fleet on one grid schedule

Any number of `Stream` loops that run the same grid schedule in the same location and claim every
fire from one `SQLLocker` table. A loop keeps the instant `next`, advances it by one step of the
schedule each time, and passes over instants that have elapsed before it came back to them. The
loops' clocks, timers and statements are delayed at will, and a loop may end at any point.
-/

namespace Msgin.Cron

open Interaction Prog TransitionRuns
open Msgin.Sql (Engine Execution)

def errConflictingCoordinator : Err :=
  .foreign "msgin/cron: at most one of WithElector/WithLocker may be set" []

def errLockerRequiresGridSchedule : Err :=
  .foreign ("msgin/cron: a Locker requires a grid-aligned schedule (cron or descriptor); " ++
    "@every is unsupported — use an Elector instead") []

inductive Coordinator
  | elector
  | locker
  deriving DecidableEq

/-- The coordinator behind the gate of a `Source`, from those its options set and whether its
schedule is a `ConstantDelaySchedule`. -/
def wireGate (elector locker isEvery : Bool) : Except Err (Option Coordinator) :=
  if elector && locker then .error errConflictingCoordinator
  else if locker && isEvery then .error errLockerRequiresGridSchedule
  else if elector then .ok (some .elector)
  else if locker then .ok (some .locker)
  else .ok none

/-- A schedule in a location. `next` is none where `Next` returns the zero time. -/
structure GridSchedule where
  next : ℤ → Option ℤ
  isEvery : Bool
  grid : ℤ → Prop
  least : ∀ t n, next t = some n → grid n ∧ t < n ∧ ∀ m, grid m → t < m → n ≤ m
  last : ∀ t, next t = none → ∀ m, grid m → m ≤ t

structure LockerFleet where
  engine : Engine
  scope : String
  schedule : GridSchedule
  utc : ℤ → String

/-- Where a `Stream` loop is. -/
inductive StreamPhase
  | idle
  | seeking (next : Option ℤ)
  | waiting (next : ℤ)
  | claiming (fire : ℤ) (next : Option ℤ) (prog : LockerProg)
  | handing (fire : ℤ) (next : Option ℤ)
  | ended

structure Fire where
  stream : ℕ
  fire : ℤ
  deriving DecidableEq

structure LockerState where
  fired : List FiredKey
  streams : ℕ → StreamPhase
  emitted : List Fire

/-- A step of the loop `i`; `now` is what its clock reads. -/
inductive LockerLabel
  | start (i : ℕ) (now : ℤ)
  | look (i : ℕ) (now : ℤ)
  | timer (i : ℕ)
  | statement (i : ℕ) (o : Execution)
  | result (i : ℕ)
  | hand (i : ℕ)
  | stop (i : ℕ)
  -- A source of another fleet claims a key.
  | other (key : FiredKey)

namespace LockerFleet

variable (f : LockerFleet)

def new : LockerState := ⟨[], fun _ => .idle, []⟩

def put (s : LockerState) (i : ℕ) (p : StreamPhase) : LockerState :=
  { s with streams := Function.update s.streams i p }

def gate : Except Err (Option Coordinator) := wireGate false true f.schedule.isEvery

def step (s : LockerState) : LockerLabel → Option LockerState
  | .start i now =>
    match s.streams i, f.gate with
    | .idle, .ok (some .locker) => some (put s i (.seeking (f.schedule.next now)))
    | _, _ => none
  | .look i now =>
    match s.streams i with
    | .seeking (some next) =>
      if next ≤ now then some (put s i (.seeking (f.schedule.next next)))
      else some (put s i (.waiting next))
    | _ => none
  | .timer i =>
    match s.streams i with
    | .waiting fire =>
      some (put s i (.claiming fire (f.schedule.next fire)
        (claimFire f.engine f.utc (f.scope, fire))))
    | _ => none
  | .statement i o =>
    match s.streams i with
    | .claiming fire next (.ask q k) =>
      (q.answer (f.scope, fire) s.fired o).map fun a =>
        put { s with fired := a.2 } i (.claiming fire next (k a.1))
    | _ => none
  | .result i =>
    match s.streams i with
    | .claiming fire next (.ret r) =>
      if win r then some (put s i (.handing fire next)) else some (put s i (.seeking next))
    | _ => none
  | .hand i =>
    match s.streams i with
    | .handing fire next =>
      some (put { s with emitted := s.emitted ++ [⟨i, fire⟩] } i (.seeking next))
    | _ => none
  | .stop i => some (put s i .ended)
  | .other key => some { s with fired := key :: s.fired }

end LockerFleet

variable {f : LockerFleet} {s s' : LockerState}

open LockerFleet

inductive LockerStep (f : LockerFleet) (s : LockerState) : LockerState → Prop
  | starts (i : ℕ) (now : ℤ) (here : s.streams i = .idle) :
      LockerStep f s (put s i (.seeking (f.schedule.next now)))
  | skips (i : ℕ) (next : ℤ) (here : s.streams i = .seeking (some next)) :
      LockerStep f s (put s i (.seeking (f.schedule.next next)))
  | waits (i : ℕ) (next : ℤ) (here : s.streams i = .seeking (some next)) :
      LockerStep f s (put s i (.waiting next))
  | claims (i : ℕ) (fire : ℤ) (here : s.streams i = .waiting fire) :
      LockerStep f s (put s i (.claiming fire (f.schedule.next fire)
        (claimFire f.engine f.utc (f.scope, fire))))
  | asks (i : ℕ) (fire : ℤ) (next : Option ℤ) (q : LockerStatement) (k : q.Answer → LockerProg)
      (o : Execution) (r : q.Answer) (fired : List FiredKey)
      (here : s.streams i = .claiming fire next (.ask q k))
      (answered : q.answer (f.scope, fire) s.fired o = some (r, fired)) :
      LockerStep f s (put { s with fired := fired } i (.claiming fire next (k r)))
  | wins (i : ℕ) (fire : ℤ) (next : Option ℤ)
      (here : s.streams i = .claiming fire next (.ret (.ok true))) :
      LockerStep f s (put s i (.handing fire next))
  | loses (i : ℕ) (fire : ℤ) (next : Option ℤ) (r : Except Err Bool)
      (here : s.streams i = .claiming fire next (.ret r)) :
      LockerStep f s (put s i (.seeking next))
  | hands (i : ℕ) (fire : ℤ) (next : Option ℤ) (here : s.streams i = .handing fire next) :
      LockerStep f s (put { s with emitted := s.emitted ++ [⟨i, fire⟩] } i (.seeking next))
  | stops (i : ℕ) : LockerStep f s (put s i .ended)
  | grows (key : FiredKey) : LockerStep f s { s with fired := key :: s.fired }

theorem lockerStep_of_step {l : LockerLabel} (h : f.step s l = some s') : LockerStep f s s' := by
  cases l with
  | start i now =>
      simp only [step] at h
      split at h
      · next here _ =>
          cases h
          exact .starts i now here
      · cases h
  | look i now =>
      simp only [step] at h
      split at h
      · next next here =>
          split at h
          · cases h
            exact .skips i next here
          · cases h
            exact .waits i next here
      · cases h
  | timer i =>
      simp only [step] at h
      split at h
      · next fire here =>
          cases h
          exact .claims i fire here
      · cases h
  | statement i o =>
      simp only [step] at h
      split at h
      · next fire next q k here =>
          rw [Option.map_eq_some_iff] at h
          obtain ⟨⟨r, fired⟩, hanswer, rfl⟩ := h
          exact .asks i fire next q k o r fired here hanswer
      · cases h
  | result i =>
      simp only [step] at h
      split at h
      · next fire next r here =>
          split at h
          · next hwin =>
              cases h
              rcases r with err | won
              · cases hwin
              · obtain rfl : won = true := hwin
                exact .wins i fire next here
          · cases h
            exact .loses i fire next r here
      · cases h
  | hand i =>
      simp only [step] at h
      split at h
      · next fire next here =>
          cases h
          exact .hands i fire next here
      · cases h
  | stop i =>
      cases h
      exact .stops i
  | other key =>
      cases h
      exact .grows key

/-- The fire that a stream has not claimed yet or is busy with: the earliest it may emit. -/
def StreamPhase.due : StreamPhase → Option ℤ
  | seeking next => next
  | waiting next => some next
  | claiming fire _ _ | handing fire _ => some fire
  | idle | ended => none

/-- The instant that follows the fire a stream is busy with. -/
def StreamPhase.following : StreamPhase → Option (ℤ × Option ℤ)
  | claiming fire next _ | handing fire next => some (fire, next)
  | idle | seeking _ | waiting _ | ended => none

end Msgin.Cron
