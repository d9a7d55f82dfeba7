import Mathlib.Algebra.Order.Group.Int
import Mathlib.Order.MinMax
import Msgin.Settlement

/-!
# Sending with retries

The outbound side of a producer. `send` boxes a message and hands it to the adapter, once
or under the retry policy. The loop of `sendRetrying` has no bound of its own, so it is given
fuel and returns `none` where the fuel runs out. The adapter and the codec are called with no
wrapper around them, and their panics unwind to the caller.

A wait is at least the delay of the first marker of the error in pre-order, up to the cap. A
later marker is a floor only where something else already reaches it.
-/

namespace Msgin

open Interaction Prog

/-- `ctx.Err()` of a context that is done. -/
inductive CtxErr
  | canceled
  | deadlineExceeded
  deriving DecidableEq

def CtxErr.err : CtxErr → Err
  | canceled => .new "context canceled"
  | deadlineExceeded => .new "context deadline exceeded"

inductive SendCall (P T : Type)
  -- `codec.Encode`.
  | encode (v : T)
  -- `clock.Now`.
  | now
  -- `out.Send`.
  | send (m : Message P)
  -- The select of a timer against `ctx.Done`.
  | wait (d : ℤ)
  -- `DeadLetter.Send`, on a context that only the timeout ends.
  | deadLetter (sink : OutboundAdapter) (timeout : ℤ) (m : Message P)
  | fire (hook : Hook) (m : Message P) (cause : Err)
  | log (level : LogLevel) (text : String) (attrs : List (String × LogValue))

variable {P T : Type}

@[reducible] def SendCall.Answer : SendCall P T → Type
  | encode _ => Outcome (List UInt8 ⊕ Err)
  | now => ℤ
  | send _ => Outcome (Option Err)
  | wait _ => Option CtxErr
  | deadLetter _ _ _ => Outcome (Option Err)
  | fire _ _ _ => Outcome Unit
  | log _ _ _ => Unit

abbrev SendEvent (P T : Type) := Σ q : SendCall P T, q.Answer

abbrev SendRoutine (P T : Type) (α : Type) := Prog (SendCall P T) SendCall.Answer α

abbrev SendEnvironment (P T : Type) := List (SendEvent P T) → (q : SendCall P T) → q.Answer

def performSend (q : SendCall P T) : SendRoutine P T q.Answer := call q

/-- The configuration of a producer. `anyValue` and `anyBytes` are the conversions of a value of
`T` and of a byte slice to the payload type. -/
structure Producer (P T : Type) where
  liveValue : Bool
  anyValue : T → P
  anyBytes : List UInt8 → P
  retry : RetryPolicy
  retrySet : Bool
  retryAfterCap : ℤ
  retryBudget : ℤ
  deadLetterTimeout : ℤ
  -- Whether the hook is set.
  hooks : Hook → Bool

/-- 100 milliseconds. -/
def minRetryDelay : ℤ := 100000000

namespace Producer

def nextDelay (p : Producer P T) (attempt : ℤ) (err : Err) : ℤ :=
  let d := retryDelay p.retry attempt
  let d := match retryAfterOf (some err) with
    | some server => max d (min server p.retryAfterCap)
    | none => d
  max d minRetryDelay

def box (p : Producer P T) (msg : Message T) : SendRoutine P T (Outcome (Message P ⊕ Err)) :=
  if p.liveValue then
    return .returned (.inl ⟨p.anyValue msg.payload, msg.headers⟩)
  else do
    match ← performSend (.encode msg.payload) with
    | .returned (.inl b) => return .returned (.inl ⟨p.anyBytes b, msg.headers⟩)
    | .returned (.inr err) =>
        return .returned (.inr (.wrapped "msgin: producer encode failed: " "" err))
    | .panicked r => return .panicked r

def fireHook (p : Producer P T) (hook : Hook) (m : Message P) (err : Err) :
    SendRoutine P T Unit := do
  if p.hooks hook then
    match ← performSend (.fire hook m err) with
    | .returned _ => return
    | .panicked r =>
        performSend (.log .warn "msgin: hook panicked" [("id", .string m.id), ("panic", .string r)])

def safeDeadLetter (p : Producer P T) (sink : OutboundAdapter) (m : Message P) :
    SendRoutine P T (Option Err) := do
  match ← performSend (.deadLetter sink p.deadLetterTimeout m) with
  | .returned err => return err
  | .panicked r => return some (.new ("msgin: producer DeadLetter.Send panicked: " ++ r))

def deadLetter (p : Producer P T) (boxed : Message P) (cause : Err) : SendRoutine P T Err :=
  match p.retry.deadLetter with
  | none => return cause
  | some sink => do
      let out := match ← p.safeDeadLetter sink boxed with
        | some dlErr => Err.join cause dlErr
        | none => Err.wrappedPair "" ": " "" (.sentinel .errDeadLettered) cause
      p.fireHook .onDeadLetter boxed out
      return out

/-- The loop of `sendRetrying` from the given attempt on. -/
def sendAttempts (p : Producer P T) (boxed : Message P) (deadline : ℤ) :
    ℕ → ℤ → SendRoutine P T (Option (Outcome (Option Err)))
  | 0, _ => return none
  | fuel + 1, attempt => do
      match ← performSend (.send boxed) with
      | .panicked r => return some (.panicked r)
      | .returned none => return some (.returned none)
      | .returned (some err) =>
          if isPermanent (some err) then
            return some (.returned (some err))
          else if 0 < p.retry.maxAttempts ∧ p.retry.maxAttempts ≤ attempt then
            return some (.returned (some (← p.deadLetter boxed err)))
          else
            let now ← performSend .now
            if deadline < now + p.nextDelay attempt err then
              let cause := Err.wrappedPair "" ": " "" (.sentinel .errRetryBudgetExhausted) err
              return some (.returned (some (← p.deadLetter boxed cause)))
            else
              p.fireHook .onRetry boxed err
              match ← performSend (.wait (p.nextDelay attempt err)) with
              | some waitErr =>
                  let out ← p.deadLetter boxed err
                  return some (.returned (some (.join out waitErr.err)))
              | none => p.sendAttempts boxed deadline fuel (attempt + 1)

def sendRetrying (p : Producer P T) (fuel : ℕ) (boxed : Message P) :
    SendRoutine P T (Option (Outcome (Option Err))) := do
  let now ← performSend .now
  p.sendAttempts boxed (now + p.retryBudget) fuel 1

def send (p : Producer P T) (fuel : ℕ) (msg : Message T) :
    SendRoutine P T (Option (Outcome (Option Err))) := do
  match ← p.box msg with
  | .panicked r => return some (.panicked r)
  | .returned (.inr err) => return some (.returned (some err))
  | .returned (.inl boxed) =>
      if p.retrySet then p.sendRetrying fuel boxed
      else return some (← performSend (.send boxed))

variable (p : Producer P T) (attempt : ℤ) (e : Err)

theorem le_nextDelay_iff (x : ℤ) :
    x ≤ p.nextDelay attempt e ↔ x ≤ minRetryDelay ∨ x ≤ retryDelay p.retry attempt ∨
      ∃ first, e.markers.head? = some first ∧ x ≤ min first p.retryAfterCap := by
  unfold nextDelay
  rw [retryAfterOf, Option.bind_some, Err.asRetryAfter_eq_head?]
  cases e.markers.head? with
  | none =>
      simp only [le_max_iff, reduceCtorEq, false_and, exists_false, or_false]
      exact or_comm
  | some first =>
      simp only [le_max_iff, Option.some.injEq, exists_eq_left']
      exact or_comm

theorem retryDelay_le_nextDelay : retryDelay p.retry attempt ≤ p.nextDelay attempt e :=
  (p.le_nextDelay_iff attempt e _).mpr (.inr (.inl le_rfl))

theorem minRetryDelay_le_nextDelay : minRetryDelay ≤ p.nextDelay attempt e :=
  (p.le_nextDelay_iff attempt e _).mpr (.inl le_rfl)

/-- The wait is a floor for every marker, the backoff and 100 ms exactly when no later marker,
up to the cap, exceeds the first one, the backoff and 100 ms together. -/
theorem nextDelay_floor_iff (p : Producer P T) (attempt : ℤ) (e : Err) :
    ((∀ d ∈ e.markers, min d p.retryAfterCap ≤ p.nextDelay attempt e) ∧
      retryDelay p.retry attempt ≤ p.nextDelay attempt e ∧
      minRetryDelay ≤ p.nextDelay attempt e) ↔
    ∀ d ∈ e.markers.tail, min d p.retryAfterCap ≤ minRetryDelay ∨
      min d p.retryAfterCap ≤ retryDelay p.retry attempt ∨
      ∃ first, e.markers.head? = some first ∧ min d p.retryAfterCap ≤ first := by
  have hfloor : ∀ d, min d p.retryAfterCap ≤ p.nextDelay attempt e ↔
      min d p.retryAfterCap ≤ minRetryDelay ∨
      min d p.retryAfterCap ≤ retryDelay p.retry attempt ∨
      ∃ first, e.markers.head? = some first ∧ min d p.retryAfterCap ≤ first := by
    intro d
    rw [le_nextDelay_iff]
    simp only [le_min_iff, min_le_right, and_true]
  constructor
  · rintro ⟨hmarkers, -, -⟩ d hd
    exact (hfloor d).mp (hmarkers d (List.mem_of_mem_tail hd))
  · intro htail
    refine ⟨?_, p.retryDelay_le_nextDelay attempt e, p.minRetryDelay_le_nextDelay attempt e⟩
    intro d hd
    rw [hfloor]
    cases hm : e.markers with
    | nil =>
        rw [hm] at hd
        cases hd
    | cons first rest =>
        rw [hm] at hd htail
        rcases List.mem_cons.mp hd with rfl | hd
        · exact .inr (.inr ⟨d, rfl, min_le_left d _⟩)
        · exact htail d hd

def plainProducer : Producer Unit Unit where
  liveValue := true
  anyValue := id
  anyBytes := fun _ => ()
  retry := ⟨0, none, none⟩
  retrySet := true
  retryAfterCap := 60000000000
  retryBudget := 120000000000
  deadLetterTimeout := 30000000000
  hooks := fun _ => false

def joinedMarkers : Err :=
  .join (.retryAfter (.new "429") 1000000000) (.retryAfter (.new "503") 10000000000)

theorem nextDelay_joinedMarkers :
    isPermanent (some joinedMarkers) = false ∧ 10000000000 ∈ joinedMarkers.markers ∧
      plainProducer.nextDelay 1 joinedMarkers <
        min 10000000000 plainProducer.retryAfterCap := by
  decide

end Producer

end Msgin
