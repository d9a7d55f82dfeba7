import Mathlib.Data.Stream.Init
import Msgin.SseParser

/-!
# The parser step by step

`next` runs to the end of a call and needs the whole body. Here the parser takes a step for each
byte that it reads and for each write to a buffer, so that its buffers can be looked at in between
and the stream may be endless.
-/

namespace Msgin.Http

/-- What the `bufio.Reader` yields, read by read: a byte, or an error of the reader under it. -/
abbrev ByteReader : Type := Stream' (Except ReadErr UInt8)

/-- The `Peek` after a CR and the `ReadByte` of the paired LF. An error that `Peek` returns is not
returned again. -/
def skipLF (r : ByteReader) : ByteReader :=
  match r.head with
  | .ok b => if b = lf then r.tail else r
  | .error _ => r.tail

/-- The `Peek` and the `Discard` of `newSSEParserWithCap`. -/
def skipBOM (r : ByteReader) : ByteReader :=
  match r.get 0, r.get 1, r.get 2 with
  | .ok a, .ok b, .ok c => if [a, b, c] = sseBOM then r.drop 3 else r
  | .ok a, .ok b, .error _ => .cons (.ok a) (.cons (.ok b) (r.drop 3))
  | .ok a, .error _, _ => .cons (.ok a) (r.drop 2)
  | .error _, _, _ => r.tail

inductive ParserPhase
  -- In `readLine`, before a byte is read.
  | reading
  | readCR
  -- Before the line buffer is compared with the cap.
  | appended
  -- In `drainLine`.
  | draining
  | drainedCR
  -- In `Next`, where `readLine` has returned an error, or the line buffer.
  | failed (err : ReadErr)
  | line
  -- In `processField`, before the newline is written, and before the data buffer is compared.
  | wroteValue
  | wroteNewline
  -- In `Next`, where a line has been processed without an error.
  | processed
  | returned (r : Except ReadErr SSEEvent)

structure ParserState where
  reader : ByteReader
  lineBuf : Bytes
  bufs : Buffers
  phase : ParserPhase

namespace ParserState

/-- The parser before its first call of `Next`. -/
def start (r : ByteReader) : ParserState := ⟨skipBOM r, [], .empty, .reading⟩

def readByte (s : ParserState) : ParserState :=
  match s.reader.head with
  | .error .eof =>
    { s with reader := s.reader.tail
             phase := .failed (if s.lineBuf = [] then .eof else .unexpectedEOF) }
  | .error err => { s with reader := s.reader.tail, phase := .failed err }
  | .ok b =>
    if b = lf then { s with reader := s.reader.tail, phase := .line }
    else if b = cr then { s with reader := s.reader.tail, phase := .readCR }
    else { s with reader := s.reader.tail, lineBuf := s.lineBuf ++ [b], phase := .appended }

def drainByte (s : ParserState) : ParserState :=
  match s.reader.head with
  | .error _ => { s with reader := s.reader.tail, phase := .failed .eventTooLarge }
  | .ok b =>
    if b = lf then { s with reader := s.reader.tail, phase := .failed .eventTooLarge }
    else if b = cr then { s with reader := s.reader.tail, phase := .drainedCR }
    else { s with reader := s.reader.tail }

def processField (s : ParserState) : ParserState :=
  let field := splitField s.lineBuf
  if field.1 = dataField then
    { s with bufs := { s.bufs with dataBuf := s.bufs.dataBuf ++ field.2 }, phase := .wroteValue }
  else if field.1 = eventField then
    { s with bufs := { s.bufs with typeBuf := field.2 }, phase := .processed }
  else if field.1 = idField then
    { s with bufs := if nul ∈ field.2 then s.bufs else { s.bufs with idBuf := field.2 }
             phase := .processed }
  else if field.1 = retryField then
    { s with bufs := (parseRetryMillis field.2).elim s.bufs fun ms =>
               { s.bufs with retry := some (millis ms) }
             phase := .processed }
  else { s with phase := .processed }

def processLine (s : ParserState) : ParserState :=
  if s.lineBuf = [] then
    if s.bufs.dataBuf = [] then
      { s with bufs := { s.bufs with typeBuf := [] }, phase := .processed }
    else
      { s with bufs := s.bufs.resetEventBuffers
               phase := .returned (.ok ⟨s.bufs.idBuf, s.bufs.typeBuf, s.bufs.dataBuf.dropLast⟩) }
  else if s.lineBuf.head? = some colon then { s with phase := .processed }
  else s.processField

/-- After a return the next step is in the next call of `Next`. -/
def step (maxEventBytes : ℕ) (s : ParserState) : ParserState :=
  match s.phase with
  | .reading => s.readByte
  | .readCR => { s with reader := skipLF s.reader, phase := .line }
  | .appended =>
    if maxEventBytes < s.lineBuf.length then { s with phase := .draining }
    else { s with phase := .reading }
  | .draining => s.drainByte
  | .drainedCR => { s with reader := skipLF s.reader, phase := .failed .eventTooLarge }
  | .failed err =>
    { s with bufs := (s.bufs.readFailed err).2
             phase := .returned (.error (s.bufs.readFailed err).1) }
  | .line => s.processLine
  | .wroteValue =>
    { s with bufs := { s.bufs with dataBuf := s.bufs.dataBuf ++ [lf] }, phase := .wroteNewline }
  | .wroteNewline =>
    if maxEventBytes < s.bufs.dataBuf.length then
      { s with bufs := s.bufs.resetEventBuffers, phase := .returned (.error .eventTooLarge) }
    else { s with phase := .processed }
  | .processed => { s with lineBuf := [], phase := .reading }
  | .returned _ => { s with lineBuf := [], phase := .reading }

/-- The state after `n` steps. -/
def after (maxEventBytes : ℕ) (r : ByteReader) : ℕ → ParserState
  | 0 => start r
  | n + 1 => (after maxEventBytes r n).step maxEventBytes

end ParserState

end Msgin.Http
