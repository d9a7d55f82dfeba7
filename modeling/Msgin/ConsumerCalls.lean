import Msgin.Errors
import Msgin.Message
import Msgin.Interaction

/-!
# What a consumer calls

The goroutines of a consumer are programs over one set of calls. Each call is a point at
which the goroutine reaches caller-supplied code, state shared with another goroutine, a
context, the clock or the logger; everything between two calls is pure. The answer to a
call of caller-supplied code is an `Outcome`: such code returns or panics.
-/

namespace Msgin

open Interaction

/-- How a call of caller-supplied code ends. A panic value is kept as its `%v` rendering. -/
inductive Outcome (α : Type)
  | returned (a : α)
  | panicked (r : String)
  deriving DecidableEq

inductive Hook
  | onRetry
  | onDeadLetter
  | onInvalidMessage
  | onAck
  deriving DecidableEq

/-- Outbound adapters by identity; one adapter may serve in several roles. -/
abbrev OutboundAdapter := ℕ

inductive OverflowPolicy
  | overflowBlock
  | overflowDropNewest
  | overflowDropOldest
  | overflowReject
  | outOfRange (n : ℤ)
  deriving DecidableEq

/-- `Backoff` is a strategy that does not panic. -/
structure RetryPolicy where
  maxAttempts : ℤ
  backoff : Option (ℤ → ℤ)
  deadLetter : Option OutboundAdapter

/-- A received message with the means to settle it. Deliveries are numbered in the order
the source hands them out; the closures of delivery `n` are the calls `ack n` and
`nack n`, preceded by its `releaseOnce` when the delivery is managed. -/
structure Delivery (P : Type) where
  tag : ℕ
  msg : Message P
  managed : Bool

inductive LogLevel
  | warn
  | error
  deriving DecidableEq

inductive LogValue
  | string (s : String)
  | int (n : ℤ)
  | err (e : Err)
  deriving DecidableEq

/-- One arm of the ingest select. -/
inductive Received (P : Type)
  | ctxDone
  | closed
  | delivery (m : Message P)

inductive Call (P T : Type)
  -- `codec.Decode`.
  | decode (b : List UInt8)
  | handle (m : Message T)
  | send (sink : OutboundAdapter) (m : Message P)
  | fire (hook : Hook) (m : Message P) (cause : Option Err)
  | ack (d : ℕ)
  | nack (d : ℕ) (requeue : Bool) (delay : ℤ)
  | poll (max : ℕ)
  | limiterWait
  | allow
  | tryProbe
  | halfOpen
  | recordOutcome (success : Bool)
  -- `attemptTracker.observe` and `attemptTracker.evict`.
  | observe (id : String)
  | evict (id : String)
  -- `creditGate.acquire`, `tryAcquire` and `release`.
  | acquire
  | tryAcquire
  | release
  -- `sync.OnceFunc(gate.release)` is made for a delivery, and called.
  | manage (d : ℕ)
  | releaseOnce (d : ℕ)
  -- The select of a send on the worker channel against `ctx.Done`.
  | handOff (d : Delivery P)
  -- The select of a read from the stream against `ctx.Done`.
  | receive
  -- The select of a breaker's wake channel against `ctx.Done`.
  | park
  | sleep (d : ℤ)
  -- `settleCtx.Err() != nil` and `drainCtx.Err() != nil`.
  | settleDone
  | drainDone
  -- `panicLogged.LoadOrStore` and `invalidFallbackLogged.Do`.
  | panicLogged (method : String)
  | invalidFallbackLogged
  | log (level : LogLevel) (text : String) (attrs : List (String × LogValue))

namespace Call

variable {P T : Type}

@[reducible] def Answer : Call P T → Type
  | decode _ => Outcome (T ⊕ Err)
  | handle _ => Outcome (Option Err)
  | send _ _ => Outcome (Option Err)
  | fire _ _ _ => Outcome Unit
  | ack _ => Outcome (Option Err)
  | nack _ _ _ => Outcome (Option Err)
  | poll _ => Outcome (List (Message P) × Option Err)
  | limiterWait => Outcome (Option Err)
  | allow => Outcome Bool
  | tryProbe => Outcome Bool
  | halfOpen => Outcome Unit
  | recordOutcome _ => Outcome Unit
  | observe _ => ℤ
  | evict _ => Unit
  | acquire => Option Err
  | tryAcquire => Bool
  | release => Unit
  | manage _ => Unit
  | releaseOnce _ => Unit
  | handOff _ => Bool
  | receive => Received P
  | park => Bool
  | sleep _ => Bool
  | settleDone => Bool
  | drainDone => Bool
  | panicLogged _ => Bool
  | invalidFallbackLogged => Bool
  | log _ _ _ => Unit

def isLog : Call P T → Bool
  | log _ _ _ => true
  | _ => false

/-- The answers of collaborators that all succeed, with no shutdown under way. -/
def calm [Inhabited T] : (q : Call P T) → q.Answer
  | decode _ => .returned (.inl default)
  | handle _ => .returned none
  | send _ _ => .returned none
  | fire _ _ _ => .returned ()
  | ack _ => .returned none
  | nack _ _ _ => .returned none
  | poll _ => .returned ([], none)
  | limiterWait => .returned none
  | allow => .returned true
  | tryProbe => .returned true
  | halfOpen => .returned ()
  | recordOutcome _ => .returned ()
  | observe _ => 1
  | evict _ => ()
  | acquire => none
  | tryAcquire => true
  | release => ()
  | manage _ => ()
  | releaseOnce _ => ()
  | handOff _ => true
  | receive => .closed
  | park => true
  | sleep _ => true
  | settleDone => false
  | drainDone => false
  | panicLogged _ => false
  | invalidFallbackLogged => true
  | log _ _ _ => ()

end Call

abbrev Event (P T : Type) := Σ q : Call P T, q.Answer

abbrev Routine (P T : Type) (α : Type) := Prog (Call P T) Call.Answer α

def perform {P T : Type} (q : Call P T) : Routine P T q.Answer := Prog.call q

/-- The environment of a routine: it answers each call, knowing all earlier ones. -/
abbrev Environment (P T : Type) := List (Event P T) → (q : Call P T) → q.Answer

/-- The configuration of a consumer. `assertValue` and `assertBytes` are the type
assertions of a payload to `T` and to `[]byte`. -/
structure Consumer (P T : Type) where
  liveValue : Bool
  assertValue : P → Option T
  assertBytes : P → Option (List UInt8)
  maxPayloadBytes : ℤ
  policy : RetryPolicy
  invalidSink : Option OutboundAdapter
  -- Whether the hook is set.
  hooks : Hook → Bool
  nativeDeadLetter : Bool
  breaker : Bool
  -- Whether the breaker also implements `ProbeGate`.
  probeGate : Bool
  rateLimiter : Bool
  overflow : OverflowPolicy
  maxInFlight : ℕ
  workers : ℕ
  pollMaxBatch : ℕ
  pollInterval : ℤ

def blankMessage : Message Unit := ⟨(), ⟨fun _ => none⟩⟩

def messageWithID (id : String) : Message Unit :=
  blankMessage.withHeader headerMessageID (.string id)

def pairConsumer : Consumer Unit Unit where
  liveValue := true
  assertValue := some
  assertBytes := fun _ => none
  maxPayloadBytes := 0
  policy := ⟨0, none, none⟩
  invalidSink := none
  hooks := fun _ => false
  nativeDeadLetter := false
  breaker := false
  probeGate := false
  rateLimiter := false
  overflow := .overflowBlock
  maxInFlight := 2
  workers := 1
  pollMaxBatch := 2
  pollInterval := 1000000000

def failingHandler : (q : Call Unit Unit) → q.Answer
  | .handle _ => .returned (some (.new "unavailable"))
  | q => q.calm

end Msgin
