import Msgin.SseDelivery
import Msgin.SseReading

/-!
# A client on the hub

One `SSEClient` connects to an `SSEServer` that other clients use as well. A connection of the client
may be cut at any moment and after any number of the bytes that the server has handed to the network.
The client reads what it has received and connects again at any later moment. The events of a
connection are counted when it is cut; as every cut is possible, this is no loss of generality.
-/

namespace Msgin.Http

open TransitionRuns

/-- The writes of a connection, with the one that has not returned or has failed. -/
def SSEConn.writes (conn : SSEConn) : List Written :=
  conn.wire ++
    match conn.stage with
    | .writing w => [w]
    | .returned (some (w, _)) => [w]
    | _ => []

/-- The bytes that may have reached the client. -/
def SSEConn.bytes (conn : SSEConn) : Bytes :=
  conn.wire.flatMap Written.bytes ++
    match conn.stage with
    | .writing w => w.bytes
    | .returned (some (w, n)) => w.bytes.take n
    | _ => []

structure Session where
  hub : SSEServer
  st : StreamState
  -- The open connection of the client.
  conn : Option ℕ
  emitted : List SSEEvent
  -- The frames of the events emitted.
  frames : List SentFrame

def Session.new (ccfg : ClientConfig) : Session := ⟨newSSEServer, .initial ccfg, none, [], []⟩

inductive SessionLabel
  -- The server, its handlers and the other clients.
  | hub (l : HubLabel)
  | connect (c : ℕ)
  -- An attempt of the client that does not reach the server.
  | fail
  | cut (n : ℕ) (readErr : ReadErr)

/-- A blank at either end of a header value, which `net/http` trims when it writes the value. -/
def isBlank (b : UInt8) : Bool := b = 32 || b = 9

def trimBlanks (v : Bytes) : Bytes :=
  ((v.dropWhile isBlank).reverse.dropWhile isBlank).reverse

/-- Whether `net/http` sends a request with this header value. -/
def validHeaderValue (v : Bytes) : Bool := v.all fun b => isBlank b || 32 < b && b ≠ 127

namespace Session

variable (cfg : ServerConfig) (ccfg : ClientConfig) (s : Session)

/-- The request as the server receives it. -/
def request : StreamRequest := ⟨true, true, trimBlanks ((lastEventIDHeader s.st.lastEventID).getD [])⟩

/-- The turn of the client after an attempt, and the state with the events it emits. -/
def attempt (a : Attempt) (frames : List SentFrame) : Option Session :=
  match s.st.turn ccfg a with
  | .returned _ => none
  | .goOn st =>
    let events := (Http.connect ccfg s.st.lastEventID a).1
    some
      { s with
        st := st
        conn := none
        emitted := s.emitted ++ events
        frames := s.frames ++ frames.take events.length }

def step : SessionLabel → Option Session
  | .hub l => (s.hub.step cfg l).map fun hub => { s with hub := hub }
  | .connect c =>
    if s.conn.isNone ∧ (s.hub.conns c).isNone then
      if !validHeaderValue s.st.lastEventID then s.attempt ccfg (replied .failed) []
      else
        match s.hub.refusal cfg s.request with
        | some resp => s.attempt ccfg (replied (.response resp.status none [] .eof)) []
        | none => some { s with hub := s.hub.serveHTTP cfg c s.request, conn := some c }
    else none
  | .fail => if s.conn.isNone then s.attempt ccfg (replied .failed) [] else none
  | .cut n readErr =>
    (s.conn.bind s.hub.conns).bind fun conn =>
      s.attempt ccfg
        (replied (.response 200 (some "text/event-stream") (conn.bytes.take n) readErr))
        (conn.writes.filterMap Written.sent)

end Session

/-- The ids of the events are distinct and not empty. -/
structure DistinctIds (sent : List SentFrame) : Prop where
  nodup : (sent.map SentFrame.id).Nodup
  nonempty : ∀ f ∈ sent, f.id ≠ []

/-- The event emitted last and all later ones are in the ring. -/
def RingHolds (s : Session) : Prop :=
  ∀ ev ∈ s.emitted.getLast?, ∀ g ∈ s.hub.sent, g.id = ev.id →
    ∀ f ∈ s.hub.sent, g.number ≤ f.number → f ∈ s.hub.ring

def SessionLabel.isConnect : SessionLabel → Bool
  | .connect _ => true
  | _ => false

/-- A step in a session of events with distinct ids that fit the client, where no event is dropped
on the open connection of the client and where the client connects while its last event and all
later ones are in the ring. -/
structure Healthy (ccfg : ClientConfig) (s : Session) (l : SessionLabel) (t : Session) : Prop where
  ids : DistinctIds t.hub.sent
  fits : ∀ f ∈ t.hub.sent, f.fits ccfg.maxEventBytes = true
  kept : ∀ conn ∈ t.conn.bind t.hub.conns, conn.missed = []
  ring : l.isConnect = true → RingHolds s

instance : DecidableEq SentFrame := fun f g =>
  decidable_of_iff (f.number = g.number ∧ f.event = g.event) (by cases f; cases g; simp)

instance (sent : List SentFrame) : Decidable (DistinctIds sent) :=
  decidable_of_iff ((sent.map SentFrame.id).Nodup ∧ ∀ f ∈ sent, f.id ≠ [])
    ⟨fun h => ⟨h.1, h.2⟩, fun h => ⟨h.nodup, h.nonempty⟩⟩

instance (s : Session) : Decidable (RingHolds s) :=
  inferInstanceAs (Decidable (∀ ev ∈ s.emitted.getLast?, ∀ g ∈ s.hub.sent, g.id = ev.id →
    ∀ f ∈ s.hub.sent, g.number ≤ f.number → f ∈ s.hub.ring))

instance (ccfg : ClientConfig) (s : Session) (l : SessionLabel) (t : Session) :
    Decidable (Healthy ccfg s l t) :=
  decidable_of_iff
    (DistinctIds t.hub.sent ∧ (∀ f ∈ t.hub.sent, f.fits ccfg.maxEventBytes = true) ∧
      (∀ conn ∈ t.conn.bind t.hub.conns, conn.missed = []) ∧ (l.isConnect = true → RingHolds s))
    ⟨fun h => ⟨h.1, h.2.1, h.2.2.1, h.2.2.2⟩, fun h => ⟨h.ids, h.fits, h.kept, h.ring⟩⟩

/-- The events emitted are those sent from some event on, in order. -/
def Session.Contiguous (s : Session) : Prop :=
  ∃ i, s.emitted <+: (s.hub.sent.drop i).map fun f => f.event.received

/-- The client is cut off inside no event whose id line it has received, and after a whole event,
unless it has not emitted any yet. -/
def Session.CleanCut (s : Session) : SessionLabel → Prop
  | .cut n _ => ∀ conn ∈ s.conn.bind s.hub.conns,
    let received := wholeWrites conn.writes (conn.bytes.take n).length
    (∀ f ∈ conn.writes[received.1.length]?.bind Written.sent,
        received.2 ≤ (idLabel ++ f.id).length) ∧
      (received.1.filterMap Written.sent ≠ [] ∨ s.emitted = [])
  | _ => True

/-- A step of a session whose events have ids without outer blanks and whose cuts are clean. -/
structure Resumable (s : Session) (l : SessionLabel) (t : Session) : Prop where
  ids : ∀ f ∈ t.hub.sent, trimBlanks f.id = f.id
  cut : s.CleanCut l

instance (s : Session) (l : SessionLabel) : Decidable (s.CleanCut l) := by
  cases l <;> unfold Session.CleanCut <;> infer_instance

instance (s : Session) (l : SessionLabel) (t : Session) : Decidable (Resumable s l t) :=
  decidable_of_iff ((∀ f ∈ t.hub.sent, trimBlanks f.id = f.id) ∧ s.CleanCut l)
    ⟨fun h => ⟨h.1, h.2⟩, fun h => ⟨h.ids, h.cut⟩⟩

/-- The id of the last of the frames, empty where there is none. -/
def lastId (frames : List SentFrame) : Bytes := (frames.map SentFrame.id).getLast?.getD []

/-- The open connection of the client was made with the id of the event emitted last. -/
structure ClientConn (cfg : ServerConfig) (sent frames : List SentFrame) (conn : SSEConn) : Prop where
  missed : conn.missed = []
  position : conn.lastEventID = lastId frames
  ring : ∀ g ∈ frames.getLast?, g ∈ ringOf cfg (sent.take conn.joined)

structure SessionInv (cfg : ServerConfig) (s : Session) : Prop where
  hub : HubInv cfg s.hub
  ids : DistinctIds s.hub.sent
  emitted : s.emitted = s.frames.map fun f => f.event.received
  frames : ∃ i, s.frames <+: s.hub.sent.drop i
  position : s.st.lastEventID = lastId s.frames
  conn : ∀ c, s.conn = some c →
    ∃ conn, s.hub.conns c = some conn ∧ ClientConn cfg s.hub.sent s.frames conn

end Msgin.Http
