import Msgin.SseFrame

/-!
# The Server-Sent Events parser

`SSEParser` reads a body line by line, where LF, CR and CRLF end a line, and dispatches an event at
a blank line. Within the cap its events, its last event id and its retry delay depend on the
terminated lines of the body alone.
-/

namespace Msgin.Http

def colon : UInt8 := 58

def space : UInt8 := 32

def sseBOM : Bytes := [0xEF, 0xBB, 0xBF]

/-- What ends a read loop: the errors of `Next`. -/
inductive ReadErr
  | eof
  | unexpectedEOF
  | eventTooLarge
  | other (err : Err)

def drainLine : Bytes → Bytes
  | [] => []
  | b :: rest =>
    if b = lf then rest
    else if b = cr then if rest.head? = some lf then rest.tail else rest
    else drainLine rest

/-- `readLine` with the bytes it has read; `readErr` is what the reader returns at the end. -/
def readLine (maxEventBytes : ℕ) (readErr : ReadErr) (buf : Bytes) :
    Bytes → Except ReadErr Bytes × Bytes
  | [] =>
    match readErr with
    | .eof => (.error (if buf = [] then .eof else .unexpectedEOF), [])
    | err => (.error err, [])
  | b :: rest =>
    if b = lf then (.ok buf, rest)
    else if b = cr then (.ok buf, if rest.head? = some lf then rest.tail else rest)
    else if maxEventBytes < (buf ++ [b]).length then (.error .eventTooLarge, drainLine rest)
    else readLine maxEventBytes readErr (buf ++ [b]) rest

structure Buffers where
  dataBuf : Bytes
  typeBuf : Bytes
  idBuf : Bytes
  -- In nanoseconds, where `hasRetry` is set.
  retry : Option ℤ
  deriving DecidableEq

def Buffers.empty : Buffers := ⟨[], [], [], none⟩

def Buffers.resetEventBuffers (b : Buffers) : Buffers := { b with dataBuf := [], typeBuf := [] }

/-- "data" -/
def dataField : Bytes := [100, 97, 116, 97]

/-- "event" -/
def eventField : Bytes := [101, 118, 101, 110, 116]

/-- "id" -/
def idField : Bytes := [105, 100]

/-- "retry" -/
def retryField : Bytes := [114, 101, 116, 114, 121]

/-- The name and the value of a field; a line without a colon is a name. -/
def splitField (line : Bytes) : Bytes × Bytes :=
  let value := (line.dropWhile (· ≠ colon)).tail
  (line.takeWhile (· ≠ colon), if value.head? = some space then value.tail else value)

def isDigit (b : UInt8) : Bool := 48 ≤ b && b ≤ 57

def parseRetryMillis (value : Bytes) : Option ℕ :=
  if value = [] then none
  else if !value.all isDigit then none
  else
    let ms := value.foldl (fun n b => 10 * n + (b.toNat - 48)) 0
    -- `strconv.ParseInt` fails above the largest int64.
    if ms ≤ 9223372036854775807 then some ms else none

/-- `time.Duration(ms) * time.Millisecond`, which may wrap around. -/
def millis (ms : ℕ) : ℤ := Int.bmod (ms * 1000000) 18446744073709551616

def processField (maxEventBytes : ℕ) (b : Buffers) (line : Bytes) : Except ReadErr Buffers :=
  let field := splitField line
  if field.1 = dataField then
    let dataBuf := b.dataBuf ++ field.2 ++ [lf]
    if maxEventBytes < dataBuf.length then .error .eventTooLarge else .ok { b with dataBuf := dataBuf }
  else if field.1 = eventField then .ok { b with typeBuf := field.2 }
  else if field.1 = idField then .ok (if nul ∈ field.2 then b else { b with idBuf := field.2 })
  else if field.1 = retryField then
    .ok ((parseRetryMillis field.2).elim b fun ms => { b with retry := some (millis ms) })
  else .ok b

structure SSEParser where
  input : Bytes
  readErr : ReadErr
  bufs : Buffers

def newSSEParserWithCap (body : Bytes) (readErr : ReadErr) : SSEParser :=
  ⟨if body.take 3 = sseBOM then body.drop 3 else body, readErr, .empty⟩

/-- What `Next` does with the error of `readLine`. -/
def Buffers.readFailed (b : Buffers) : ReadErr → ReadErr × Buffers
  | .eof =>
    if b.dataBuf ≠ [] ∨ b.typeBuf ≠ [] then (.unexpectedEOF, b.resetEventBuffers) else (.eof, b)
  | err => (err, b.resetEventBuffers)

/-- What `Next` does with a line: it goes on, or returns an event or an error. -/
inductive LineOutcome
  | goOn
  | event (ev : SSEEvent)
  | failed (err : ReadErr)

def Buffers.line (maxEventBytes : ℕ) (b : Buffers) (line : Bytes) : LineOutcome × Buffers :=
  if line = [] then
    if b.dataBuf = [] then (.goOn, { b with typeBuf := [] })
    else (.event ⟨b.idBuf, b.typeBuf, b.dataBuf.dropLast⟩, b.resetEventBuffers)
  else if line.head? = some colon then (.goOn, b)
  else
    match processField maxEventBytes b line with
    | .error err => (.failed err, b.resetEventBuffers)
    | .ok b' => (.goOn, b')

/-- The loop of `Next`. A turn that goes on has read a line, so `next` never runs out of turns. -/
def nextLoop (maxEventBytes : ℕ) : ℕ → SSEParser → Except ReadErr SSEEvent × SSEParser
  | 0, p => (.error p.readErr, p)
  | turns + 1, p =>
    match readLine maxEventBytes p.readErr [] p.input with
    | (.error err, rest) =>
      (.error (p.bufs.readFailed err).1, { p with input := rest, bufs := (p.bufs.readFailed err).2 })
    | (.ok line, rest) =>
      let p' := { p with input := rest, bufs := (p.bufs.line maxEventBytes line).2 }
      match (p.bufs.line maxEventBytes line).1 with
      | .goOn => nextLoop maxEventBytes turns p'
      | .event ev => (.ok ev, p')
      | .failed err => (.error err, p')

def next (maxEventBytes : ℕ) (p : SSEParser) : Except ReadErr SSEEvent × SSEParser :=
  nextLoop maxEventBytes (p.input.length + 1) p

/-- The loop of `readEvents`: the events emitted on `out`, and whether the context was done while
the next one was. `room` is how many events are received from `out` before, `none` where the
context is never done. -/
def readLoop (maxEventBytes : ℕ) : ℕ → Option ℕ → SSEParser → (List SSEEvent × Bool) × SSEParser
  | 0, _, p => (([], false), p)
  | turns + 1, room, p =>
    match next maxEventBytes p with
    | (.error _, p') => (([], false), p')
    | (.ok ev, p') =>
      if room = some 0 then (([], true), p')
      else
        let rest := readLoop maxEventBytes turns (room.map (· - 1)) p'
        ((ev :: rest.1.1, rest.1.2), rest.2)

def readAll (maxEventBytes : ℕ) (room : Option ℕ) (p : SSEParser) :
    (List SSEEvent × Bool) × SSEParser :=
  readLoop maxEventBytes (p.input.length + 1) room p

end Msgin.Http
