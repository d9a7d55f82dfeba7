import Msgin.SseLines

/-!
# The Server-Sent Events client

One turn of `SSEClient.Stream` makes a connection attempt, reads the events of a stream and waits
before the next attempt. The environment of a turn is the reply to the request and when the context
is done. The header `Last-Event-ID` is the resume position of the loop, which a stream that is read
replaces by the id buffer of its own parser.
-/

namespace Msgin.Http

/-- The settings of a client, as `NewConfig` resolves them. -/
structure ClientConfig where
  maxEventBytes : ℕ
  reconnectMin : ℤ
  reconnectMax : ℤ

/-- What `client.Do` returns. The media type is the one that `mime.ParseMediaType` finds. -/
inductive Reply
  | failed
  | response (status : ℕ) (mediaType : Option String) (body : Bytes) (readErr : ReadErr)

structure Attempt where
  reply : Reply
  -- The events received from `out` before the context is done, `none` where it is not done.
  room : Option ℕ
  -- The context is done while `backoffWait` waits.
  waitCancelled : Bool
  ctxErr : Err

def replied (reply : Reply) : Attempt := ⟨reply, none, false, .new "context canceled"⟩

inductive SSETriage
  | stream
  | done
  | wrongType
  | reconnect
  deriving DecidableEq

def classifySSEResponse (status : ℕ) (mediaType : Option String) : SSETriage :=
  if status = 200 then
    if mediaType = some "text/event-stream" then .stream else .wrongType
  else if status = 204 then .done
  else .reconnect

def errNotEventStream : Err := .new "msghttp: response is not a text/event-stream"

structure ConnResult where
  -- What `Stream` returns, where the result is terminal.
  terminal : Option (Option Err)
  gotEvent : Bool
  retry : Option ℤ
  lastEventID : Bytes

def keepPosition (lastEventID : Bytes) : ConnResult := ⟨none, false, none, lastEventID⟩

/-- The events emitted on `out`, and the result. -/
def readEvents (cfg : ClientConfig) (a : Attempt) (body : Bytes) (readErr : ReadErr) :
    List SSEEvent × ConnResult :=
  let r := readAll cfg.maxEventBytes a.room (newSSEParserWithCap body readErr)
  (r.1.1,
    if r.1.2 then ⟨some (some a.ctxErr), !r.1.1.isEmpty, none, r.2.bufs.idBuf⟩
    else ⟨none, !r.1.1.isEmpty, r.2.bufs.retry, r.2.bufs.idBuf⟩)

/-- The `Last-Event-ID` header that `connect` sets on its request. -/
def lastEventIDHeader (lastEventID : Bytes) : Option Bytes :=
  if lastEventID ≠ [] then some lastEventID else none

def connect (cfg : ClientConfig) (lastEventID : Bytes) (a : Attempt) : List SSEEvent × ConnResult :=
  match a.reply with
  | .failed => ([], keepPosition lastEventID)
  | .response status mediaType body readErr =>
    match classifySSEResponse status mediaType with
    | .stream => readEvents cfg a body readErr
    | .done => ([], { keepPosition lastEventID with terminal := some none })
    | .wrongType => ([], { keepPosition lastEventID with terminal := some (some errNotEventStream) })
    | .reconnect => ([], keepPosition lastEventID)

def clampDelay (d minD maxD : ℤ) : ℤ := if d < minD then minD else if maxD < d then maxD else d

def doubleDelay (d maxD : ℤ) : ℤ :=
  let doubled := Int.bmod (d * 2) 18446744073709551616
  if doubled ≤ 0 ∨ maxD < doubled then maxD else doubled

structure StreamState where
  delay : ℤ
  lastEventID : Bytes

inductive TurnEnd
  | returned (err : Option Err)
  | goOn (st : StreamState)

namespace StreamState

def initial (cfg : ClientConfig) : StreamState := ⟨cfg.reconnectMin, []⟩

def wait (cfg : ClientConfig) (st : StreamState) (res : ConnResult) : ℤ :=
  match res.retry with
  | some retry => clampDelay retry cfg.reconnectMin cfg.reconnectMax
  | none => if res.gotEvent then cfg.reconnectMin else st.delay

def nextDelay (cfg : ClientConfig) (st : StreamState) (res : ConnResult) : ℤ :=
  match res.retry with
  | some _ => st.wait cfg res
  | none =>
    if res.gotEvent then cfg.reconnectMin else doubleDelay (st.wait cfg res) cfg.reconnectMax

/-- One turn of the loop of `Stream`. -/
def turn (cfg : ClientConfig) (st : StreamState) (a : Attempt) : TurnEnd :=
  let res := (connect cfg st.lastEventID a).2
  match res.terminal with
  | some err => .returned err
  | none =>
    if a.waitCancelled then .returned (some a.ctxErr)
    else .goOn ⟨st.nextDelay cfg res, res.lastEventID⟩

/-- The `Last-Event-ID` headers set on the requests, attempt by attempt. The transport trims the
outer blanks of a value when it writes it. -/
def requests (cfg : ClientConfig) : StreamState → List Attempt → List (Option Bytes)
  | _, [] => []
  | st, a :: rest =>
    lastEventIDHeader st.lastEventID ::
      match st.turn cfg a with
      | .returned _ => []
      | .goOn st' => requests cfg st' rest

end StreamState

/-- The value of an `id` field without NUL. -/
def idOf (line : Bytes) : Option Bytes :=
  let field := splitField line
  if field.1 = idField ∧ nul ∉ field.2 then some field.2 else none

/-- The lines of a stream, a leading byte order mark aside. -/
def streamLines (body : Bytes) : List Bytes :=
  bodyLines (if body.take 3 = sseBOM then body.drop 3 else body)

namespace Attempt

def stream (a : Attempt) : Option Bytes :=
  match a.reply with
  | .failed => none
  | .response status mediaType body _ =>
    if classifySSEResponse status mediaType = .stream then some body else none

def ids (a : Attempt) : List Bytes :=
  (a.stream.elim [] streamLines).filterMap idOf

/-- No line and no event of the stream exceeds the cap. -/
def withinCap (cfg : ClientConfig) (a : Attempt) : Bool :=
  a.stream.all fun body => Buffers.empty.withinCap cfg.maxEventBytes (streamLines body)

end Attempt

/-- The header that the id fields received so far call for: the last of them, unless it is empty. -/
def resumeHeader (ids : List Bytes) : Option Bytes := ids.getLast?.filter fun id => id ≠ []

theorem splitField_comment {line : Bytes} (h : line.head? = some colon) : (splitField line).1 = [] := by
  cases line with
  | nil => cases h
  | cons b line =>
      obtain rfl : b = colon := Option.some.inj h
      rfl

theorem Buffers.applyField_id (b : Buffers) (line : Bytes) :
    (b.applyField line).idBuf = (idOf line).getD b.idBuf := by
  by_cases hid : (splitField line).1 = idField
  · simp only [Buffers.applyField, idOf, hid, if_neg (by decide : idField ≠ dataField),
      if_neg (by decide : idField ≠ eventField), if_true, true_and]
    by_cases hnul : nul ∈ (splitField line).2
    · rw [if_pos hnul, if_neg (not_not_intro hnul)]
      rfl
    · rw [if_neg hnul, if_pos hnul]
      rfl
  · have hnone : idOf line = none := if_neg fun h => hid h.1
    simp only [Buffers.applyField, hnone, if_neg hid, Option.getD_none]
    split
    · rfl
    · split
      · rfl
      · split
        · cases parseRetryMillis (splitField line).2 <;> rfl
        · rfl

theorem Buffers.feed_id (b : Buffers) (line : Bytes) :
    (b.feed line).2.idBuf = (idOf line).getD b.idBuf := by
  by_cases hline : line = []
  · subst hline
    simp only [Buffers.feed, if_true]
    split
    · rfl
    · rfl
  · by_cases hcomment : line.head? = some colon
    · have hnone : idOf line = none := by
        rw [idOf, splitField_comment hcomment]
        exact if_neg fun h => absurd h.1 (by decide)
      simp only [Buffers.feed, if_neg hline, if_pos hcomment, hnone, Option.getD_none]
    · simp only [Buffers.feed, if_neg hline, if_neg hcomment]
      exact b.applyField_id line

theorem Buffers.feedAll_id (b : Buffers) (lines : List Bytes) :
    (b.feedAll lines).2.idBuf = (lines.filterMap idOf).getLast?.getD b.idBuf := by
  induction lines generalizing b with
  | nil => rfl
  | cons line lines ih =>
      rw [Buffers.feedAll, ih, b.feed_id]
      cases hid : idOf line with
      | none => rw [List.filterMap_cons_none hid, Option.getD_none]
      | some id =>
          rw [List.filterMap_cons_some hid, Option.getD_some, List.getLast?_cons]
          cases (lines.filterMap idOf).getLast? <;> rfl

end Msgin.Http
