import Mathlib.Data.List.Basic
import Msgin.HttpCodec

/-!
# Server-Sent Event frames

`EncodeSSEEvent` and `SSEEventFromMessage`. Go strings are byte sequences here: the codec looks at
single bytes only.
-/

namespace Msgin.Http

def lf : UInt8 := 10

def cr : UInt8 := 13

def nul : UInt8 := 0

structure SSEEvent where
  id : Bytes
  name : Bytes
  data : Bytes
  deriving DecidableEq

def errInvalidEventField : Err := .new "msghttp: SSE id or event name contains CR, LF, or NUL"

def validSSEField (s : Bytes) : Bool := s.all fun b => b != cr && b != lf && b != nul

/-- "id: " -/
def idLabel : Bytes := [105, 100, 58, 32]

/-- "event: " -/
def eventLabel : Bytes := [101, 118, 101, 110, 116, 58, 32]

/-- "data: " -/
def dataLabel : Bytes := [100, 97, 116, 97, 58, 32]

/-- `strings.ReplaceAll(data, "\r\n", "\n")`. -/
def replaceCRLF : Bytes → Bytes
  | [] => []
  | b :: rest => if b = cr ∧ rest.head? = some lf then replaceCRLF rest else b :: replaceCRLF rest

/-- `strings.ReplaceAll(data, "\r", "\n")`. -/
def replaceCR (data : Bytes) : Bytes := data.map fun b => if b = cr then lf else b

/-- The lines that are framed as `data:` lines. -/
def dataLines (data : Bytes) : List Bytes := (replaceCR (replaceCRLF data)).splitOn lf

/-- What `EncodeSSEEvent` writes for an event with valid fields. -/
def frameBytes (ev : SSEEvent) : Bytes :=
  (if ev.id ≠ [] then idLabel ++ ev.id ++ [lf] else []) ++
    (if ev.name ≠ [] then eventLabel ++ ev.name ++ [lf] else []) ++
    (dataLines ev.data).flatMap (fun line => dataLabel ++ line ++ [lf]) ++ [lf]

def encodeSSEEvent (ev : SSEEvent) : Except Err Bytes :=
  if !validSSEField ev.id || !validSSEField ev.name then .error errInvalidEventField
  else .ok (frameBytes ev)

/-- What `SSEEventFromMessage` reads of a message: its payload, its id and the header
`http.sse-event`, where it is set to a string. -/
structure SSEMessage where
  payload : Payload
  id : Bytes
  eventName : Option Bytes

/-- The header wins over the default of the configuration. -/
def SSEMessage.nameOr (eventName : Bytes) (msg : SSEMessage) : Bytes :=
  match msg.eventName with
  | some v => if v ≠ [] then v else eventName
  | none => eventName

def sseEventFromMessage (msg : SSEMessage) (eventName : Bytes) : Except Err SSEEvent :=
  match payloadBytes msg.payload with
  | .error err => .error err
  | .ok data =>
    let ev : SSEEvent := ⟨msg.id, msg.nameOr eventName, data⟩
    if !validSSEField ev.id || !validSSEField ev.name then .error errInvalidEventField
    else .ok ev

theorem encode_sseEventFromMessage {msg : SSEMessage} {eventName : Bytes} {ev : SSEEvent}
    (h : sseEventFromMessage msg eventName = .ok ev) : encodeSSEEvent ev = .ok (frameBytes ev) := by
  unfold sseEventFromMessage at h
  cases hp : payloadBytes msg.payload with
  | error err => simp [hp] at h
  | ok data =>
      simp only [hp] at h
      split at h
      · cases h
      · next hvalid =>
          obtain rfl := Except.ok.inj h
          exact if_neg hvalid

end Msgin.Http
