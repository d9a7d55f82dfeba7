import Mathlib.Logic.Function.Iterate
import Msgin.SseLines
import Msgin.SseMachine

/-!
# Calls of `Next`, step by step

On a finite body the steps of a call lead to its return: to the lines that `readLine` reads, to the
buffers that a line leaves and, over all lines, to the result and the parser of `next`.
-/

namespace Msgin.Http

/-- A body whose reader returns `readErr` at the end. -/
def bodyReader (body : Bytes) (readErr : ReadErr) : ByteReader :=
  body.map .ok ++ₛ Stream'.const (.error readErr)

theorem tail_bodyReader_nil (readErr : ReadErr) :
    (bodyReader [] readErr).tail = bodyReader [] readErr :=
  Stream'.tail_const _

theorem skipLF_bodyReader (body : Bytes) (readErr : ReadErr) :
    skipLF (bodyReader body readErr) =
      bodyReader (if body.head? = some lf then body.tail else body) readErr := by
  cases body with
  | nil => exact tail_bodyReader_nil readErr
  | cons b body =>
      by_cases hlf : b = lf
      · simp [skipLF, bodyReader, Stream'.cons_append_stream, hlf]
      · simp [skipLF, bodyReader, Stream'.cons_append_stream, hlf]

theorem skipBOM_bodyReader (body : Bytes) (readErr : ReadErr) :
    skipBOM (bodyReader body readErr) =
      bodyReader (newSSEParserWithCap body readErr).input readErr := by
  match body with
  | [] => exact tail_bodyReader_nil readErr
  | [a] =>
      have hinput : (newSSEParserWithCap [a] readErr).input = [a] := if_neg (by simp [sseBOM])
      rw [hinput]
      rfl
  | [a, b] =>
      have hinput : (newSSEParserWithCap [a, b] readErr).input = [a, b] :=
        if_neg (by simp [sseBOM])
      rw [hinput]
      rfl
  | a :: b :: c :: body =>
      have hskip : skipBOM (bodyReader (a :: b :: c :: body) readErr) =
          if [a, b, c] = sseBOM then bodyReader body readErr
          else bodyReader (a :: b :: c :: body) readErr := rfl
      have hinput : (newSSEParserWithCap (a :: b :: c :: body) readErr).input =
          if [a, b, c] = sseBOM then body else a :: b :: c :: body := rfl
      rw [hskip, hinput]
      split
      · rfl
      · rfl

namespace ParserState

variable {maxEventBytes : ℕ}

def Reaches (maxEventBytes : ℕ) (s t : ParserState) : Prop :=
  ∃ n, (step maxEventBytes)^[n] s = t

variable {s t u : ParserState} {buf : Bytes} {bufs : Buffers} {readErr : ReadErr}

theorem Reaches.refl (s : ParserState) : Reaches maxEventBytes s s := ⟨0, rfl⟩

theorem Reaches.head (h : Reaches maxEventBytes (s.step maxEventBytes) t) :
    Reaches maxEventBytes s t := by
  obtain ⟨n, hn⟩ := h
  exact ⟨n + 1, hn⟩

theorem Reaches.trans (h : Reaches maxEventBytes s t) (h' : Reaches maxEventBytes t u) :
    Reaches maxEventBytes s u := by
  obtain ⟨n, hn⟩ := h
  obtain ⟨n', hn'⟩ := h'
  refine ⟨n' + n, ?_⟩
  rw [Function.iterate_add_apply, hn, hn']

theorem step_draining_cons (b : UInt8) (body buf : Bytes) :
    step maxEventBytes ⟨bodyReader (b :: body) readErr, buf, bufs, .draining⟩ =
      if b = lf then ⟨bodyReader body readErr, buf, bufs, .failed .eventTooLarge⟩
      else if b = cr then ⟨bodyReader body readErr, buf, bufs, .drainedCR⟩
      else ⟨bodyReader body readErr, buf, bufs, .draining⟩ := rfl

variable (body : Bytes) (r : ByteReader)

theorem reaches_drainLine (buf : Bytes) :
    Reaches maxEventBytes ⟨bodyReader body readErr, buf, bufs, .draining⟩
      ⟨bodyReader (drainLine body) readErr, buf, bufs, .failed .eventTooLarge⟩ := by
  induction body with
  | nil => exact .head (.refl _)
  | cons b body ih =>
      apply Reaches.head
      rw [step_draining_cons, drainLine]
      by_cases hlf : b = lf
      · rw [if_pos hlf, if_pos hlf]
        exact .refl _
      · rw [if_neg hlf, if_neg hlf]
        by_cases hcr : b = cr
        · rw [if_pos hcr, if_pos hcr, ← skipLF_bodyReader]
          exact .head (.refl _)
        · rw [if_neg hcr, if_neg hcr]
          exact ih

/-- Where `Next` goes on when `readLine` has returned. -/
def readPhase : Except ReadErr Bytes → ParserPhase
  | .ok _ => .line
  | .error err => .failed err

theorem step_reading_cons (b : UInt8) (body buf : Bytes) :
    step maxEventBytes ⟨bodyReader (b :: body) readErr, buf, bufs, .reading⟩ =
      if b = lf then ⟨bodyReader body readErr, buf, bufs, .line⟩
      else if b = cr then ⟨bodyReader body readErr, buf, bufs, .readCR⟩
      else ⟨bodyReader body readErr, buf ++ [b], bufs, .appended⟩ := rfl

theorem step_reading_nil (readErr : ReadErr) (buf : Bytes) :
    ∃ err, readLine maxEventBytes readErr buf [] = (.error err, []) ∧
      step maxEventBytes ⟨bodyReader [] readErr, buf, bufs, .reading⟩ =
        ⟨bodyReader [] readErr, buf, bufs, .failed err⟩ := by
  cases readErr with
  | eof => exact ⟨_, rfl, rfl⟩
  | unexpectedEOF => exact ⟨_, rfl, rfl⟩
  | eventTooLarge => exact ⟨_, rfl, rfl⟩
  | other err => exact ⟨_, rfl, rfl⟩

theorem step_appended (buf : Bytes) :
    step maxEventBytes ⟨r, buf, bufs, .appended⟩ =
      if maxEventBytes < buf.length then ⟨r, buf, bufs, .draining⟩
      else ⟨r, buf, bufs, .reading⟩ := rfl

theorem reaches_readLine (maxEventBytes : ℕ) (readErr : ReadErr) (bufs : Buffers)
    (body buf : Bytes) :
    ∃ buf', (∀ line, (readLine maxEventBytes readErr buf body).1 = .ok line → buf' = line) ∧
      Reaches maxEventBytes ⟨bodyReader body readErr, buf, bufs, .reading⟩
        ⟨bodyReader (readLine maxEventBytes readErr buf body).2 readErr, buf', bufs,
          readPhase (readLine maxEventBytes readErr buf body).1⟩ := by
  induction body generalizing buf with
  | nil =>
      obtain ⟨err, hread, hstep⟩ := step_reading_nil readErr buf
      rw [hread]
      refine ⟨buf, ?_, .head ?_⟩
      · intro line h
        cases h
      · rw [hstep]
        exact .refl _
  | cons b body ih =>
      rw [readLine]
      by_cases hlf : b = lf
      · rw [if_pos hlf]
        refine ⟨buf, fun line h => Except.ok.inj h, .head ?_⟩
        rw [step_reading_cons, if_pos hlf]
        exact .refl _
      · rw [if_neg hlf]
        by_cases hcr : b = cr
        · rw [if_pos hcr, ← skipLF_bodyReader]
          refine ⟨buf, fun line h => Except.ok.inj h, .head ?_⟩
          rw [step_reading_cons, if_neg hlf, if_pos hcr]
          exact .head (.refl _)
        · rw [if_neg hcr]
          by_cases hover : maxEventBytes < (buf ++ [b]).length
          · rw [if_pos hover]
            refine ⟨buf ++ [b], ?_, .head (.head ?_)⟩
            · intro line h
              cases h
            · rw [step_reading_cons, if_neg hlf, if_neg hcr, step_appended, if_pos hover]
              exact reaches_drainLine body _
          · rw [if_neg hover]
            obtain ⟨buf', hbuf, hreach⟩ := ih (buf ++ [b])
            refine ⟨buf', hbuf, .head (.head ?_)⟩
            rw [step_reading_cons, if_neg hlf, if_neg hcr, step_appended, if_neg hover]
            exact hreach

/-- Where `Next` goes on when it has looked at a line. -/
def linePhase : LineOutcome → ParserPhase
  | .goOn => .processed
  | .event ev => .returned (.ok ev)
  | .failed err => .returned (.error err)

theorem step_wroteValue (buf : Bytes) :
    step maxEventBytes ⟨r, buf, bufs, .wroteValue⟩ =
      ⟨r, buf, { bufs with dataBuf := bufs.dataBuf ++ [lf] }, .wroteNewline⟩ := rfl

theorem step_wroteNewline (buf : Bytes) :
    step maxEventBytes ⟨r, buf, bufs, .wroteNewline⟩ =
      if maxEventBytes < bufs.dataBuf.length then
        ⟨r, buf, bufs.resetEventBuffers, .returned (.error .eventTooLarge)⟩
      else ⟨r, buf, bufs, .processed⟩ := rfl

theorem reaches_processField {line : Bytes} (hline : line ≠ [])
    (hcomment : line.head? ≠ some colon) :
    Reaches maxEventBytes (processField ⟨r, line, bufs, .line⟩)
      ⟨r, line, (bufs.line maxEventBytes line).2, linePhase (bufs.line maxEventBytes line).1⟩ := by
  rw [Buffers.line, if_neg hline, if_neg hcomment]
  unfold processField Http.processField
  by_cases hdata : (splitField line).1 = dataField
  · rw [if_pos hdata, if_pos hdata]
    refine .head (.head ?_)
    rw [step_wroteValue, step_wroteNewline]
    by_cases hover : maxEventBytes < (bufs.dataBuf ++ (splitField line).2 ++ [lf]).length
    · rw [if_pos hover, if_pos hover]
      exact .refl _
    · rw [if_neg hover, if_neg hover]
      exact .refl _
  · rw [if_neg hdata, if_neg hdata]
    by_cases hevent : (splitField line).1 = eventField
    · rw [if_pos hevent, if_pos hevent]
      exact .refl _
    · rw [if_neg hevent, if_neg hevent]
      by_cases hid : (splitField line).1 = idField
      · rw [if_pos hid, if_pos hid]
        exact .refl _
      · rw [if_neg hid, if_neg hid]
        by_cases hretry : (splitField line).1 = retryField
        · rw [if_pos hretry, if_pos hretry]
          exact .refl _
        · rw [if_neg hretry, if_neg hretry]
          exact .refl _

theorem reaches_line (line : Bytes) :
    Reaches maxEventBytes ⟨r, line, bufs, .line⟩
      ⟨r, line, (bufs.line maxEventBytes line).2, linePhase (bufs.line maxEventBytes line).1⟩ := by
  apply Reaches.head
  change Reaches maxEventBytes (processLine ⟨r, line, bufs, .line⟩) _
  unfold processLine
  by_cases hline : line = []
  · rw [if_pos hline, Buffers.line, if_pos hline]
    by_cases hdata : bufs.dataBuf = []
    · rw [if_pos hdata, if_pos hdata]
      exact .refl _
    · rw [if_neg hdata, if_neg hdata]
      exact .refl _
  · rw [if_neg hline]
    by_cases hcomment : line.head? = some colon
    · rw [if_pos hcomment, Buffers.line, if_neg hline, if_pos hcomment]
      exact .refl _
    · rw [if_neg hcomment]
      exact reaches_processField r hline hcomment

/-- The state in which a call of `Next` starts. -/
def calling (p : SSEParser) : ParserState := ⟨bodyReader p.input p.readErr, [], p.bufs, .reading⟩

theorem start_bodyReader (readErr : ReadErr) :
    start (bodyReader body readErr) = calling (newSSEParserWithCap body readErr) := by
  rw [start, skipBOM_bodyReader]
  rfl

theorem length_lt_of_readLine {body buf line rest : Bytes}
    (h : readLine maxEventBytes readErr buf body = (.ok line, rest)) :
    rest.length < body.length := by
  cases hcut : cutLine body with
  | none =>
      obtain ⟨err, left, hread⟩ := readLine_of_cutLine_none maxEventBytes readErr buf hcut
      cases h.symm.trans hread
  | some cut =>
      obtain hread | ⟨-, err, left, hread⟩ :=
        @readLine_cases maxEventBytes _ _ _ readErr buf hcut
      · cases h.symm.trans hread
        exact length_lt_of_cutLine hcut
      · cases h.symm.trans hread

theorem reaches_nextLoop {turns : ℕ} {p : SSEParser} (hturns : p.input.length < turns) :
    ∃ buf, Reaches maxEventBytes (calling p)
      { calling (nextLoop maxEventBytes turns p).2 with
        lineBuf := buf, phase := .returned (nextLoop maxEventBytes turns p).1 } := by
  induction turns generalizing p with
  | zero => omega
  | succ turns ih =>
      obtain ⟨buf, hbuf, hread⟩ := reaches_readLine maxEventBytes p.readErr p.bufs p.input []
      rw [nextLoop]
      rcases hline : readLine maxEventBytes p.readErr [] p.input with ⟨err | line, rest⟩
      · rw [hline] at hread
        exact ⟨buf, hread.trans (.head (.refl _))⟩
      · rw [hline] at hread hbuf
        obtain rfl : line = buf := (hbuf line rfl).symm
        have hread := hread.trans (reaches_line _ line)
        dsimp only
        cases houtcome : (p.bufs.line maxEventBytes line).1 with
        | goOn =>
            rw [houtcome] at hread
            have hshort := length_lt_of_readLine hline
            obtain ⟨buf, hrest⟩ := ih (p := ⟨rest, p.readErr, (p.bufs.line maxEventBytes line).2⟩)
              (by show rest.length < turns; omega)
            exact ⟨buf, hread.trans (.head hrest)⟩
        | event ev =>
            rw [houtcome] at hread
            exact ⟨line, hread⟩
        | failed err =>
            rw [houtcome] at hread
            exact ⟨line, hread⟩

/-- A new parser is in the state in which a call starts, and a call of `Next` on a finite body
returns: what it returns and leaves is what `next` says. -/
theorem reaches_next (p : SSEParser) :
    (∀ body readErr,
      start (bodyReader body readErr) = calling (newSSEParserWithCap body readErr)) ∧
    ∃ buf, Reaches maxEventBytes (calling p)
      { calling (next maxEventBytes p).2 with
        lineBuf := buf, phase := .returned (next maxEventBytes p).1 } :=
  ⟨start_bodyReader, reaches_nextLoop (Nat.lt_succ_self _)⟩

end ParserState

end Msgin.Http
