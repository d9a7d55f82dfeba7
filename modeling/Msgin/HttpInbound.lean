import Msgin.HttpCodec

/-!
# The inbound handler cores

`ServeAsync` and `ServeGateway` with the tracker they write through and the recovery around them.
Of `net/http` the model has what the cores rely on: `WriteHeader` panics for a code outside
100..999, a code below 200 is not a final status, a status after a final one is ignored, and a
handler that returns without a final status is answered with 200. The headers and the bytes of a
response are left out: of its body only the outcome of the write matters here.
-/

namespace Msgin.Http

structure Wire where
  sent : List ℤ

def Wire.finals (w : Wire) : List ℤ := w.sent.filter (200 ≤ ·)

def Wire.writeHeader (w : Wire) (code : ℤ) : Except Panic Wire :=
  if w.finals ≠ [] then .ok w
  else if code < 100 ∨ 999 < code then
    .error (.other ("invalid WriteHeader code " ++ toString code))
  else .ok ⟨w.sent ++ [code]⟩

/-- A body without a final status before it implies 200. -/
def Wire.write (w : Wire) : Wire :=
  if w.finals ≠ [] then w else ⟨w.sent ++ [200]⟩

structure ResponseTracker where
  wire : Wire
  committed : Bool

/-- Code that writes through the tracker and may panic. What was written stays written. -/
abbrev Handler := ExceptT Panic (StateM ResponseTracker)

/-- The status is marked as committed before it is passed on. -/
def writeHeader (code : ℤ) : Handler Unit := do
  let t ← get
  if !t.committed then
    set { t with committed := true }
    let w ← t.wire.writeHeader code
    set (⟨w, true⟩ : ResponseTracker)

/-- `responseTracker.Write`, for a body whose write has this outcome. -/
def write (outcome : Except Panic (Option Err)) : Handler (Option Err) := do
  modify fun t => ⟨t.wire.write, true⟩
  outcome

/-- Runs a handler under the deferred `recoverHandler`. -/
def recoverHandler (h : Handler Unit) : Handler Unit :=
  tryCatch h fun r =>
    match r with
    | .abortHandler => throw .abortHandler
    | .other _ => writeHeader 500

def defaultErrorStatus (err : Err) : ℤ :=
  if err.is .errReplyTimeout then 504
  else if err.is .errGatewayClosed then 503
  else if err.is .errDuplicateCorrelation then 409
  else if err.is .errNoCorrelation || err.is .errUnsupportedPayload || err.is .errWriteResponse then
    500
  else if err.is .maxBytesError then 413
  else if err.is .errDecodeRequest then 400
  else 500

def errStatus (cfg : Option Config) : Err → Except Panic ℤ :=
  (cfg.bind Config.errorStatus).getD fun err => .ok (defaultErrorStatus err)

def successStatusOrDefault : Option Config → ℤ
  | none => 202
  | some c => if c.successStatus < 100 ∨ 599 < c.successStatus then 202 else c.successStatus

/-- What every failure path does: the mapper is asked, then its status is written. -/
def reportError (cfg : Option Config) (err : Err) : Handler Unit := do
  let status ← errStatus cfg err
  writeHeader status

def encodeResponse (msg : Message Payload) (bodyWrite : Bytes → Except Panic (Option Err)) :
    Handler (Option Err) :=
  match payloadBytes msg.payload with
  | .error err => return some err
  | .ok body => do
    writeHeader 200
    match ← write (bodyWrite body) with
    | some err => return some (.wrappedPair "" ": " "" (.sentinel .errWriteResponse) err)
    | none => return none

def serveAsync (r : Request) (send : Message Payload → Except Panic (Option Err))
    (cfg : Option Config) (id : String) (now : ℤ) : Handler Unit :=
  recoverHandler do
    match ← decodeRequest r cfg id now with
    | .error err => reportError cfg err
    | .ok msg =>
      match ← send msg with
      | some err => reportError cfg err
      | none => writeHeader (successStatusOrDefault cfg)

def serveGateway (r : Request)
    (exchange : Message Payload → Except Panic (Except Err (Message Payload)))
    (bodyWrite : Bytes → Except Panic (Option Err)) (cfg : Option Config) (id : String)
    (now : ℤ) : Handler Unit :=
  recoverHandler do
    match ← decodeRequest r cfg id now with
    | .error err => reportError cfg err
    | .ok msg =>
      match ← exchange msg with
      | .error err => reportError cfg err
      | .ok reply =>
        match ← encodeResponse reply bodyWrite with
        | none => return ()
        | some err => if err.is .errWriteResponse then return () else reportError cfg err

/-- The final statuses that the client receives. The connection of a handler that panics is closed
as it stands. -/
def received (h : Handler Unit) : List ℤ :=
  match h.run.run ⟨⟨[]⟩, false⟩ with
  | (.ok (), t) => t.wire.write.finals
  | (.error _, t) => t.wire.finals

/-- Exactly one final status, which does not tell the client of a success. -/
def ToldOfFailure (h : Handler Unit) : Prop :=
  ∃ code, received h = [code] ∧ ¬ (200 ≤ code ∧ code ≤ 299)

end Msgin.Http
