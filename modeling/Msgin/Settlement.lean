import Msgin.ConsumerCalls

/-!
# Settling one delivery

The settlement path of a worker: `process` runs the drain and breaker short-circuits and
then `dispatch`, which decodes, invokes the handler and settles the delivery exactly once
through an Ack, a Nack or one of the two diverts. Every call of caller-supplied code goes
through a wrapper that recovers a panic.

A handler timeout only changes the context the handler sees, so it has no counterpart
here: the handler answers as it likes.
-/

namespace Msgin

open Interaction Prog

variable {P T : Type}

def logWarn (text : String) (attrs : List (String × LogValue)) : Routine P T Unit :=
  perform (.log .warn text attrs)

def logError (text : String) (attrs : List (String × LogValue)) : Routine P T Unit :=
  perform (.log .error text attrs)

def safeHandle (m : Message T) : Routine P T (Option Err) := do
  match ← perform (.handle m) with
  | .returned err => return err
  | .panicked r => return some (.wrapped "" (": " ++ r) (.sentinel .errHandlerPanic))

def safeDecode (id : String) (b : List UInt8) : Routine P T (T ⊕ Err) := do
  match ← perform (.decode b) with
  | .returned (.inl v) => return .inl v
  | .returned (.inr err) =>
      return .inr (.wrapped "" (": " ++ err.text) (.sentinel .errPayloadDecode))
  | .panicked r =>
      logError "msgin: PayloadCodec.Decode panicked" [("id", .string id), ("panic", .string r)]
      return .inr (.wrapped "" (": " ++ r) (.sentinel .errPayloadDecode))

def nilDereference : String := "runtime error: invalid memory address or nil pointer dereference"

/-- A nil sink panics like a sink that panics. -/
def safeSend (sink : Option OutboundAdapter) (m : Message P) : Routine P T (Option Err) := do
  let outcome ← match sink with
    | some s => perform (.send s m)
    | none => pure (.panicked nilDereference)
  match outcome with
  | .returned err => return err
  | .panicked r =>
      logError "msgin: OutboundAdapter.Send panicked" [("id", .string m.id), ("panic", .string r)]
      return some (.new ("msgin: OutboundAdapter.Send panicked: " ++ r))

/-- The Ack closure of a delivery. A managed one releases its credit first. -/
def Delivery.ack (d : Delivery P) : Routine P T (Outcome (Option Err)) := do
  if d.managed then perform (.releaseOnce d.tag)
  perform (.ack d.tag)

def Delivery.nack (d : Delivery P) (requeue : Bool) (delay : ℤ) :
    Routine P T (Outcome (Option Err)) := do
  if d.managed then perform (.releaseOnce d.tag)
  perform (.nack d.tag requeue delay)

def safeAck (d : Delivery P) : Routine P T (Option Err) := do
  match ← d.ack with
  | .returned err => return err
  | .panicked r =>
      logError "msgin: Delivery.Ack panicked" [("id", .string d.msg.id), ("panic", .string r)]
      return some (.new ("msgin: Delivery.Ack panicked: " ++ r))

def safeNack (d : Delivery P) (requeue : Bool) (delay : ℤ) : Routine P T (Option Err) := do
  match ← d.nack requeue delay with
  | .returned err => return err
  | .panicked r =>
      logError "msgin: Delivery.Nack panicked" [("id", .string d.msg.id), ("panic", .string r)]
      return some (.new ("msgin: Delivery.Nack panicked: " ++ r))

def finish : Option Err → Routine P T Unit
  | none => return
  | some err => logError "msgin: settle failed" [("err", .err err)]

def safeFire (c : Consumer P T) (hook : Hook) (m : Message P) (cause : Option Err) :
    Routine P T Unit := do
  if c.hooks hook then
    match ← perform (.fire hook m cause) with
    | .returned _ => return
    | .panicked r => logWarn "msgin: hook panicked" [("id", .string m.id), ("panic", .string r)]

def decode (c : Consumer P T) (m : Message P) : Routine P T (T ⊕ Err) :=
  if c.liveValue then
    match c.assertValue m.payload with
    | some v => return .inl v
    | none => return .inr (.sentinel .errPayloadType)
  else
    match c.assertBytes m.payload with
    | none => return .inr (.sentinel .errPayloadType)
    | some b =>
        if 0 < c.maxPayloadBytes ∧ c.maxPayloadBytes < b.length then
          return .inr (.sentinel .errPayloadTooLarge)
        else safeDecode m.id b

def attempts (d : Delivery P) : Routine P T ℤ :=
  match d.msg.headers.int headerDeliveryCount with
  | some dc => return dc
  | none => perform (.observe d.msg.id)

def retryDelay (p : RetryPolicy) (attempt : ℤ) : ℤ :=
  match p.backoff with
  | none => 0
  | some delay => delay (attempt - 1)

/-- The sink of an invalid message, and whether it is the dead-letter fallback. -/
def Consumer.invalidTarget (c : Consumer P T) (cause : Err) : Option OutboundAdapter × Bool :=
  if c.invalidSink.isSome then (c.invalidSink, false)
  else if cause.is .errPayloadTooLarge then (none, false)
  else (c.policy.deadLetter, c.policy.deadLetter.isSome)

def warnInvalidFallback (id : String) : Routine P T Unit := do
  if ← perform .invalidFallbackLogged then
    logWarn ("msgin: no invalid-message sink configured; sending the invalid message to the " ++
      "dead-letter sink instead (further occurrences suppressed)") [("id", .string id)]

def causeForLog (cause : Err) : String :=
  if cause.is .errPayloadDecode then Sentinel.errPayloadDecode.text else cause.text

def warnDiscard (d : Delivery P) (cause : Err) : Routine P T Unit :=
  if cause.is .errPayloadTooLarge then
    logWarn ("msgin: discarding over-size message; the byte cap's rejects are never written to " ++
      "the dead-letter sink (set WithInvalidMessageSink to capture them)")
      [("id", .string d.msg.id), ("cause", .string (causeForLog cause))]
  else
    logWarn ("msgin: discarding message; neither an invalid-message sink " ++
      "(WithInvalidMessageSink) nor a dead-letter sink (RetryPolicy.DeadLetter) is configured")
      [("id", .string d.msg.id), ("cause", .string (causeForLog cause))]

/-- Fire the terminal hook and Ack; whether the Ack succeeded. -/
def settleTerminal (c : Consumer P T) (d : Delivery P) (terminalHook : Hook) (hookErr : Err) :
    Routine P T Bool := do
  safeFire c terminalHook d.msg (some hookErr)
  let ackErr ← safeAck d
  finish ackErr
  return ackErr.isNone

/-- After a failed send: a Nack while the settle context is done, else the terminal Ack. -/
def settleRefused (c : Consumer P T) (d : Delivery P) (terminalHook : Hook) (cause err : Err)
    (done : Bool) : Routine P T Bool := do
  let attrs := [("id", .string d.msg.id), ("cause", .string (causeForLog cause)), ("err", .err err)]
  if done then
    logWarn "msgin: invalid-message divert aborted by shutdown; Nacking for redelivery" attrs
    finish (← safeNack d true 0)
    return false
  else
    logWarn ("msgin: discarding invalid message; the sink rejected it and the divert is " ++
      "single-shot") attrs
    settleTerminal c d terminalHook (.join cause err)

/-- The invalid path: one attempt at the sink. -/
def divertTerminal (c : Consumer P T) (sink : Option OutboundAdapter) (d : Delivery P)
    (terminalHook : Hook) (cause : Err) : Routine P T Bool :=
  match sink with
  | none => do
      warnDiscard d cause
      settleTerminal c d terminalHook cause
  | some s => do
      match ← safeSend (some s) d.msg with
      | none => settleTerminal c d terminalHook cause
      | some err => settleRefused c d terminalHook cause err (← perform .settleDone)

/-- Fire `OnRetry` and Nack for redelivery after the policy's delay. -/
def redeliver (c : Consumer P T) (d : Delivery P) (cause : Err) (attempt : ℤ) :
    Routine P T Unit := do
  safeFire c .onRetry d.msg (some cause)
  finish (← safeNack d true (retryDelay c.policy attempt))

/-- The dead-letter path: a failed send is retried, an accepted one is Acked. -/
def divert (c : Consumer P T) (sink : Option OutboundAdapter) (d : Delivery P)
    (terminalHook : Hook) (cause : Err) (attempt : ℤ) : Routine P T Bool := do
  match ← safeSend sink d.msg with
  | some _ =>
      redeliver c d cause attempt
      return false
  | none => settleTerminal c d terminalHook cause

def settleInvalid (c : Consumer P T) (d : Delivery P) (cause : Err) : Routine P T Unit := do
  let (sink, fellBack) := c.invalidTarget cause
  if fellBack then warnInvalidFallback d.msg.id
  if ← divertTerminal c sink d .onInvalidMessage cause then perform (.evict d.msg.id)

def exhausted (c : Consumer P T) (n : ℤ) : Bool :=
  0 < c.policy.maxAttempts && c.policy.maxAttempts ≤ n && !c.nativeDeadLetter

def settleTransient (c : Consumer P T) (d : Delivery P) (cause : Err) : Routine P T Unit := do
  let n ← attempts d
  if exhausted c n then
    if ← divert c c.policy.deadLetter d .onDeadLetter cause n then perform (.evict d.msg.id)
  else redeliver c d cause n

def dispatch (c : Consumer P T) (d : Delivery P) : Routine P T (Option Err) := do
  match ← decode c d.msg with
  | .inr derr =>
      settleInvalid c d derr
      return some derr
  | .inl payload =>
      match ← safeHandle ⟨payload, d.msg.headers⟩ with
      | none =>
          let ackErr ← safeAck d
          finish ackErr
          if ackErr.isNone then
            safeFire c .onAck d.msg none
            perform (.evict d.msg.id)
          return none
      | some err =>
          if isPermanent (some err) then settleInvalid c d err else settleTransient c d err
          return some err

def governorPanic (method id r : String) : Routine P T Unit := do
  unless ← perform (.panicLogged method) do
    logError ("msgin: resilience governor panicked; failing open (further occurrences for this " ++
      "method suppressed)") [("method", .string method), ("id", .string id), ("panic", .string r)]

/-- The recovery that the boolean governors share: a panic fails open. -/
def failOpen (method id : String) : Outcome Bool → Routine P T Bool
  | .returned ok => return ok
  | .panicked r => do
      governorPanic method id r
      return true

def safeAllow (id : String) : Routine P T Bool := do
  failOpen "CircuitBreaker.Allow" id (← perform .allow)

def safeTryProbe (id : String) : Routine P T Bool := do
  failOpen "ProbeGate.TryProbe" id (← perform .tryProbe)

def safeRecord (id : String) (success : Bool) : Routine P T Unit := do
  match ← perform (.recordOutcome success) with
  | .returned _ => return
  | .panicked r => governorPanic "CircuitBreaker.Record" id r

def dispatchAllowed (c : Consumer P T) (id : String) : Routine P T Bool :=
  if c.probeGate then safeTryProbe id else safeAllow id

def processUnreleased (c : Consumer P T) (d : Delivery P) : Routine P T Unit := do
  if ← perform .drainDone then
    finish (← safeNack d true 0)
  else if ← (if c.breaker then return !(← dispatchAllowed c d.msg.id) else return false) then
    finish (← safeNack d true 0)
  else
    let err ← dispatch c d
    if c.breaker then safeRecord d.msg.id (err.isNone || isPermanent err)

/-- One delivery on a worker; the deferred release runs last on every path. -/
def process (c : Consumer P T) (md : Delivery P) : Routine P T Unit := do
  processUnreleased c md
  perform (.releaseOnce md.tag)

end Msgin
