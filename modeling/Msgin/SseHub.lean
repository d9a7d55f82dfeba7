import Mathlib.Data.Finset.Card
import Mathlib.Logic.Function.Basic
import Msgin.ReplayWindow
import Msgin.SseFrame
import Msgin.TransitionRuns

/-!
# The Server-Sent Events hub

`SSEServer`: connections register with a part of the replay ring, `Send` offers one frame to every
registered connection without waiting, and the handler of each connection writes its replay and
then, in a select, live frames and heartbeats. What the hub does under its mutex is one step; a
writer receives a frame, writes it and gives up its registration in steps of its own, and so does
`Close` cancel one connection after the other.
-/

namespace Msgin.Http

/-- A frame that was sent, with its event. Frames are numbered in the order of their `Send`. -/
structure SentFrame where
  number : ℕ
  event : SSEEvent
  valid : encodeSSEEvent event = .ok (frameBytes event)

def SentFrame.id (f : SentFrame) : Bytes := f.event.id

def SentFrame.frame (f : SentFrame) : Bytes := frameBytes f.event

inductive SlowClientPolicy
  | drop
  | disconnect
  deriving DecidableEq

/-- The settings of the hub, as `NewConfig` resolves them. -/
structure ServerConfig where
  maxConnections : ℕ
  connectionBuffer : ℕ
  replayBuffer : ℕ
  -- Whether `WithHeartbeat` is set.
  heartbeat : Bool
  slowClientPolicy : SlowClientPolicy
  eventName : Bytes
  -- `NewConfig` refuses an unbuffered channel.
  connectionBuffer_pos : 0 < connectionBuffer

inductive Written
  | event (f : SentFrame)
  | heartbeat

/-- ": ping", followed by a blank line. -/
def sseHeartbeat : Bytes := [58, 32, 112, 105, 110, 103, 10, 10]

def Written.bytes : Written → Bytes
  | .event f => f.frame
  | .heartbeat => sseHeartbeat

def Written.sent : Written → Option SentFrame
  | .event f => some f
  | .heartbeat => none

inductive Stage
  -- Before the next replay frame, or in the select once there is none.
  | ready
  -- In `writeFrame`.
  | writing (w : Written)
  -- `runWriter` has returned, where a write failed after some of its bytes.
  | returned (failed : Option (Written × ℕ))

structure SSEConn where
  frames : List SentFrame
  -- `ctx.Done()` is closed.
  cancelled : Bool
  -- The replay frames that are not yet written.
  replay : List SentFrame
  stage : Stage
  -- What has been written.
  wire : List Written
  warned : Bool
  dropped : ℕ
  -- The number of frames sent before the registration, the `Last-Event-ID` of the request, and
  -- the numbers of the frames that found the buffer full.
  joined : ℕ
  lastEventID : Bytes
  missed : List ℕ

structure SSEServer where
  conns : ℕ → Option SSEConn
  registered : Finset ℕ
  closed : Bool
  ring : List SentFrame
  -- The connections that `Close` has collected and not yet cancelled.
  closing : Finset ℕ
  -- The frames sent so far.
  sent : List SentFrame

def newSSEServer : SSEServer := ⟨fun _ => none, ∅, false, [], ∅, []⟩

/-- What `ServeHTTP` reads of a request and of the writer that comes with it. -/
structure StreamRequest where
  isGet : Bool
  flusher : Bool
  -- Empty where the header is absent.
  lastEventID : Bytes

/-- An answer of `http.Error`. -/
structure Refusal where
  status : ℕ
  text : String

def appendRing (max : ℕ) (ring : List SentFrame) (e : SentFrame) : List SentFrame :=
  ReplayWindow.push max ring e

def replayAfter (lastID : Bytes) (ring : List SentFrame) : List SentFrame :=
  (ReplayWindow.lastIndex (fun e => e.id == lastID) ring).elim [] fun idx => ring.drop (idx + 1)

namespace SSEServer

/-- The guards of `ServeHTTP`. -/
def refusal (cfg : ServerConfig) (s : SSEServer) (r : StreamRequest) : Option Refusal :=
  if !r.isGet then some ⟨405, "SSE endpoint accepts GET only"⟩
  else if s.closed then some ⟨503, "SSE server is closed"⟩
  else if cfg.maxConnections ≤ s.registered.card then some ⟨503, "SSE connection limit reached"⟩
  else if !r.flusher then some ⟨500, "SSE streaming is unsupported by this server"⟩
  else none

def newConn (cfg : ServerConfig) (s : SSEServer) (r : StreamRequest) : SSEConn where
  frames := []
  cancelled := false
  replay := if 0 < cfg.replayBuffer ∧ r.lastEventID ≠ [] then replayAfter r.lastEventID s.ring else []
  stage := .ready
  wire := []
  warned := false
  dropped := 0
  joined := s.sent.length
  lastEventID := r.lastEventID
  missed := []

/-- The connection `c` is registered, unless the request is refused. -/
def serveHTTP (cfg : ServerConfig) (s : SSEServer) (c : ℕ) (r : StreamRequest) : SSEServer :=
  match s.refusal cfg r with
  | some _ => s
  | none =>
    { s with
      conns := Function.update s.conns c (some (s.newConn cfg r))
      registered := insert c s.registered }

end SSEServer

/-- The select of `Send` for one connection, and what the policy does where the buffer is full. -/
def SSEConn.offer (cfg : ServerConfig) (f : SentFrame) (conn : SSEConn) : SSEConn :=
  if conn.frames.length < cfg.connectionBuffer then { conn with frames := conn.frames ++ [f] }
  else
    match cfg.slowClientPolicy with
    | .disconnect => { conn with cancelled := true, missed := conn.missed ++ [f.number] }
    | .drop =>
      { conn with
        warned := true, dropped := conn.dropped + 1, missed := conn.missed ++ [f.number] }

def errSSEServerClosed : Err := .new "msghttp: SSE server is closed"

namespace SSEServer

def broadcast (cfg : ServerConfig) (s : SSEServer) (f : SentFrame) : SSEServer :=
  { s with
    ring := if 0 < cfg.replayBuffer ∧ f.id ≠ [] then appendRing cfg.replayBuffer s.ring f else s.ring
    conns := fun c => if c ∈ s.registered then (s.conns c).map (SSEConn.offer cfg f) else s.conns c
    sent := s.sent ++ [f] }

def send (cfg : ServerConfig) (s : SSEServer) (msg : SSEMessage) : Option Err × SSEServer :=
  match h : sseEventFromMessage msg cfg.eventName with
  | .error err => (some (.permanent err), s)
  | .ok ev =>
    if s.closed then (some (.permanent errSSEServerClosed), s)
    else (none, s.broadcast cfg ⟨s.sent.length, ev, encode_sseEventFromMessage h⟩)

/-- `Close` up to its loops. -/
def close (s : SSEServer) : SSEServer :=
  { s with closed := true, closing := s.closing ∪ s.registered }

end SSEServer

inductive HubLabel
  | serve (c : ℕ) (r : StreamRequest)
  | send (msg : SSEMessage)
  | close
  -- `Close` cancels a connection.
  | cancel (c : ℕ)
  -- The context of the request is cancelled.
  | disconnect (c : ℕ)
  -- The writer takes its next replay frame.
  | replay (c : ℕ)
  -- The three arms of the select.
  | done (c : ℕ)
  | take (c : ℕ)
  | tick (c : ℕ)
  -- A write returns; a write that fails has written some bytes.
  | write (c : ℕ) (failed : Option ℕ)
  -- The deferred function of `ServeHTTP` up to the unlock.
  | leave (c : ℕ)

def SSEConn.step (cfg : ServerConfig) (conn : SSEConn) : HubLabel → Option SSEConn
  | .replay _ =>
    match conn.stage, conn.replay with
    | .ready, f :: rest => some { conn with stage := .writing (.event f), replay := rest }
    | _, _ => none
  | .done _ =>
    match conn.stage, conn.replay with
    | .ready, [] => if conn.cancelled then some { conn with stage := .returned none } else none
    | _, _ => none
  | .take _ =>
    match conn.stage, conn.replay, conn.frames with
    | .ready, [], f :: rest => some { conn with stage := .writing (.event f), frames := rest }
    | _, _, _ => none
  | .tick _ =>
    match conn.stage, conn.replay with
    | .ready, [] => if cfg.heartbeat then some { conn with stage := .writing .heartbeat } else none
    | _, _ => none
  | .write _ failed =>
    match conn.stage, failed with
    | .writing w, none => some { conn with stage := .ready, wire := conn.wire ++ [w] }
    | .writing w, some n => some { conn with stage := .returned (some (w, n)) }
    | _, _ => none
  | _ => none

namespace SSEServer

def stepConn (cfg : ServerConfig) (s : SSEServer) (c : ℕ) (l : HubLabel) : Option SSEServer :=
  ((s.conns c).bind fun conn => conn.step cfg l).map fun conn =>
    { s with conns := Function.update s.conns c (some conn) }

def cancelConn (s : SSEServer) (c : ℕ) : SSEServer :=
  { s with
    conns := Function.update s.conns c
      ((s.conns c).map fun conn => { conn with cancelled := true }) }

def step (cfg : ServerConfig) (s : SSEServer) : HubLabel → Option SSEServer
  | .serve c r => if (s.conns c).isNone then some (s.serveHTTP cfg c r) else none
  | .send msg => some (s.send cfg msg).2
  | .close => some s.close
  | .cancel c =>
    if c ∈ s.closing then some { s.cancelConn c with closing := s.closing.erase c } else none
  | .disconnect c => if (s.conns c).isSome then some (s.cancelConn c) else none
  | .leave c =>
    match s.conns c with
    | some conn =>
      match conn.stage with
      | .returned _ =>
        if c ∈ s.registered then
          some { s.cancelConn c with registered := s.registered.erase c }
        else none
      | _ => none
    | none => none
  | .replay c => s.stepConn cfg c (.replay c)
  | .done c => s.stepConn cfg c (.done c)
  | .take c => s.stepConn cfg c (.take c)
  | .tick c => s.stepConn cfg c (.tick c)
  | .write c failed => s.stepConn cfg c (.write c failed)

end SSEServer

end Msgin.Http
