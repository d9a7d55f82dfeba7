import Mathlib.Data.List.Basic
import Msgin.SseParser

/-!
# What the parser makes of a body

The terminated lines of a body are what is left of it when every CRLF and CR is read as LF, up to
the last LF. While no line and no event exceeds the cap, the parser feeds its buffers with these
lines one after the other.
-/

namespace Msgin.Http

def bodyLines (body : Bytes) : List Bytes := (dataLines body).dropLast

def cutLine : Bytes → Option (Bytes × Bytes)
  | [] => none
  | b :: rest =>
    if b = lf then some ([], rest)
    else if b = cr then some ([], if rest.head? = some lf then rest.tail else rest)
    else (cutLine rest).map fun cut => (b :: cut.1, cut.2)

theorem dataLines_ne_nil (body : Bytes) : dataLines body ≠ [] := List.splitOn_ne_nil _ _

theorem splitOn_lf_cons (rest : Bytes) : (lf :: rest).splitOn lf = [] :: rest.splitOn lf := by
  rw [List.splitOn, List.splitOnP_cons_eq_if_modifyHead, if_pos (beq_self_eq_true lf)]
  rfl

theorem dataLines_lf (rest : Bytes) : dataLines (lf :: rest) = [] :: dataLines rest := by
  have hcrlf : replaceCRLF (lf :: rest) = lf :: replaceCRLF rest := if_neg (by simp [lf, cr])
  rw [dataLines, hcrlf]
  exact splitOn_lf_cons _

theorem dataLines_cr (rest : Bytes) :
    dataLines (cr :: rest) =
      [] :: dataLines (if rest.head? = some lf then rest.tail else rest) := by
  by_cases hlf : rest.head? = some lf
  · have hrest : lf :: rest.tail = rest := List.cons_head?_tail hlf
    have hcrlf : replaceCRLF (cr :: rest) = replaceCRLF rest := if_pos ⟨rfl, hlf⟩
    rw [if_pos hlf, ← dataLines_lf, hrest, dataLines, hcrlf]
    rfl
  · have hcrlf : replaceCRLF (cr :: rest) = cr :: replaceCRLF rest := if_neg fun h => hlf h.2
    rw [if_neg hlf, dataLines, hcrlf]
    exact splitOn_lf_cons _

theorem dataLines_cons {b : UInt8} (hlf : b ≠ lf) (hcr : b ≠ cr) (rest : Bytes) :
    dataLines (b :: rest) = (dataLines rest).modifyHead (List.cons b) := by
  have hcrlf : replaceCRLF (b :: rest) = b :: replaceCRLF rest := if_neg fun h => hcr h.1
  rw [dataLines, hcrlf, replaceCR, List.map_cons, if_neg hcr, List.splitOn,
    List.splitOnP_cons_eq_if_modifyHead, if_neg (by simpa using hlf)]
  rfl

theorem dataLines_eq (body : Bytes) :
    dataLines body = (cutLine body).elim [body] fun cut => cut.1 :: dataLines cut.2 := by
  induction body with
  | nil => rfl
  | cons b rest ih =>
      unfold cutLine
      by_cases hlf : b = lf
      · rw [if_pos hlf, hlf, dataLines_lf]
        rfl
      · by_cases hcr : b = cr
        · rw [if_neg hlf, if_pos hcr, hcr, dataLines_cr]
          rfl
        · rw [if_neg hlf, if_neg hcr, dataLines_cons hlf hcr, ih]
          cases cutLine rest <;> rfl

theorem bodyLines_eq (body : Bytes) :
    bodyLines body = (cutLine body).elim [] fun cut => cut.1 :: bodyLines cut.2 := by
  rw [bodyLines, dataLines_eq]
  cases cutLine body with
  | none => rfl
  | some cut => exact List.dropLast_cons_of_ne_nil (dataLines_ne_nil cut.2)

variable {maxEventBytes : ℕ} {line body rest : Bytes} {p : SSEParser}

theorem length_lt_of_cutLine (h : cutLine body = some (line, rest)) :
    rest.length < body.length := by
  induction body generalizing line rest with
  | nil => cases h
  | cons b body ih =>
      unfold cutLine at h
      rw [List.length_cons]
      split at h
      · cases h
        exact Nat.lt_succ_self _
      · split at h
        · cases h
          split
          · rw [List.length_tail]
            omega
          · exact Nat.lt_succ_self _
        · obtain ⟨cut, hcut, heq⟩ := Option.map_eq_some_iff.mp h
          cases heq
          exact Nat.lt_succ_of_lt (ih hcut)

theorem readLine_cases (readErr : ReadErr) {buf : Bytes} (h : cutLine body = some (line, rest)) :
    readLine maxEventBytes readErr buf body = (.ok (buf ++ line), rest) ∨
      maxEventBytes < (buf ++ line).length ∧
        ∃ err left, readLine maxEventBytes readErr buf body = (.error err, left) := by
  induction body generalizing buf line rest with
  | nil => cases h
  | cons b body ih =>
      unfold cutLine at h
      unfold readLine
      split at h
      · next hlf =>
          cases h
          rw [if_pos hlf, List.append_nil]
          exact .inl rfl
      · next hlf =>
          rw [if_neg hlf]
          split at h
          · next hcr =>
              cases h
              rw [if_pos hcr, List.append_nil]
              exact .inl rfl
          · next hcr =>
              obtain ⟨cut, hcut, heq⟩ := Option.map_eq_some_iff.mp h
              cases heq
              have happend : buf ++ b :: cut.1 = buf ++ [b] ++ cut.1 :=
                (List.append_assoc buf [b] cut.1).symm
              rw [happend, if_neg hcr]
              split
              · next hover =>
                  refine .inr ⟨?_, _, _, rfl⟩
                  rw [List.length_append]
                  omega
              · exact ih hcut

theorem readLine_of_cutLine (readErr : ReadErr) {buf : Bytes} (h : cutLine body = some (line, rest))
    (hcap : (buf ++ line).length ≤ maxEventBytes) :
    readLine maxEventBytes readErr buf body = (.ok (buf ++ line), rest) :=
  (readLine_cases readErr h).resolve_right fun hover => Nat.not_lt.mpr hcap hover.1

theorem readLine_of_cutLine_none (maxEventBytes : ℕ) (readErr : ReadErr) (buf : Bytes)
    (h : cutLine body = none) :
    ∃ err rest, readLine maxEventBytes readErr buf body = (.error err, rest) := by
  induction body generalizing buf with
  | nil =>
      unfold readLine
      split
      · exact ⟨_, _, rfl⟩
      · exact ⟨_, _, rfl⟩
  | cons b body ih =>
      unfold cutLine at h
      unfold readLine
      split at h
      · cases h
      · next hlf =>
          split at h
          · cases h
          · next hcr =>
              rw [if_neg hlf, if_neg hcr]
              split
              · exact ⟨_, _, rfl⟩
              · exact ih _ (Option.map_eq_none_iff.mp h)

/-- What a field does to the buffers, the cap aside. -/
def Buffers.applyField (b : Buffers) (line : Bytes) : Buffers :=
  let field := splitField line
  if field.1 = dataField then { b with dataBuf := b.dataBuf ++ field.2 ++ [lf] }
  else if field.1 = eventField then { b with typeBuf := field.2 }
  else if field.1 = idField then if nul ∈ field.2 then b else { b with idBuf := field.2 }
  else if field.1 = retryField then
    (parseRetryMillis field.2).elim b fun ms => { b with retry := some (millis ms) }
  else b

def Buffers.feed (b : Buffers) (line : Bytes) : Option SSEEvent × Buffers :=
  if line = [] then
    if b.dataBuf = [] then (none, { b with typeBuf := [] })
    else (some ⟨b.idBuf, b.typeBuf, b.dataBuf.dropLast⟩, b.resetEventBuffers)
  else if line.head? = some colon then (none, b)
  else (none, b.applyField line)

def Buffers.feedAll (b : Buffers) : List Bytes → List SSEEvent × Buffers
  | [] => ([], b)
  | line :: lines =>
    ((b.feed line).1.toList ++ ((b.feed line).2.feedAll lines).1, ((b.feed line).2.feedAll lines).2)

/-- No line and no event among the lines exceeds the cap. -/
def Buffers.withinCap (maxEventBytes : ℕ) (b : Buffers) : List Bytes → Bool
  | [] => true
  | line :: lines =>
    line.length ≤ maxEventBytes && (b.feed line).2.dataBuf.length ≤ maxEventBytes &&
      (b.feed line).2.withinCap maxEventBytes lines

theorem Buffers.applyField_dataBuf (b : Buffers) (line : Bytes) :
    (b.applyField line).dataBuf =
      if (splitField line).1 = dataField then b.dataBuf ++ (splitField line).2 ++ [lf]
      else b.dataBuf := by
  simp only [Buffers.applyField]
  split
  · rfl
  · split
    · rfl
    · split
      · split
        · rfl
        · rfl
      · split
        · cases parseRetryMillis (splitField line).2 <;> rfl
        · rfl

theorem processField_eq {b : Buffers} (h : (b.applyField line).dataBuf.length ≤ maxEventBytes) :
    processField maxEventBytes b line = .ok (b.applyField line) := by
  by_cases hdata : (splitField line).1 = dataField
  · simp only [Buffers.applyField, if_pos hdata] at h
    simp only [processField, Buffers.applyField, if_pos hdata, if_neg (Nat.not_lt.mpr h)]
  · simp only [processField, Buffers.applyField, if_neg hdata]
    split
    · rfl
    · split
      · rfl
      · split
        · rfl
        · rfl

theorem Buffers.line_eq {b : Buffers} (h : (b.feed line).2.dataBuf.length ≤ maxEventBytes) :
    b.line maxEventBytes line = ((b.feed line).1.elim .goOn .event, (b.feed line).2) := by
  by_cases hline : line = []
  · simp only [Buffers.line, Buffers.feed, if_pos hline]
    split
    · rfl
    · rfl
  · by_cases hcomment : line.head? = some colon
    · simp only [Buffers.line, Buffers.feed, if_neg hline, if_pos hcomment]
      rfl
    · simp only [Buffers.feed, if_neg hline, if_neg hcomment] at h
      simp only [Buffers.line, Buffers.feed, if_neg hline, if_neg hcomment, processField_eq h]
      rfl

theorem Buffers.readFailed_id (b : Buffers) (err : ReadErr) :
    (b.readFailed err).2.idBuf = b.idBuf ∧ (b.readFailed err).2.retry = b.retry := by
  unfold Buffers.readFailed
  split
  · split
    · exact ⟨rfl, rfl⟩
    · exact ⟨rfl, rfl⟩
  · exact ⟨rfl, rfl⟩

/-- What is left to a parser: the events to come and the buffers after them. -/
def SSEParser.remaining (p : SSEParser) : List SSEEvent × Buffers :=
  p.bufs.feedAll (bodyLines p.input)

def SSEParser.capped (maxEventBytes : ℕ) (p : SSEParser) : Bool :=
  p.bufs.withinCap maxEventBytes (bodyLines p.input)

/-- `Next` returns the next event, or an error once there is none left. -/
inductive NextSpec (maxEventBytes : ℕ) (p : SSEParser) : Except ReadErr SSEEvent × SSEParser → Prop
  | event {ev : SSEEvent} {p' : SSEParser} (hshort : p'.input.length < p.input.length)
      (hcap : p'.capped maxEventBytes = true)
      (hrest : p.remaining = (ev :: p'.remaining.1, p'.remaining.2)) :
      NextSpec maxEventBytes p (.ok ev, p')
  | done {err : ReadErr} {p' : SSEParser} (hnone : p.remaining.1 = [])
      (hid : p'.bufs.idBuf = p.remaining.2.idBuf) (hretry : p'.bufs.retry = p.remaining.2.retry) :
      NextSpec maxEventBytes p (.error err, p')

theorem NextSpec.of_goOn {q : SSEParser} {r : Except ReadErr SSEEvent × SSEParser}
    (hshort : q.input.length < p.input.length) (hrest : p.remaining = q.remaining)
    (h : NextSpec maxEventBytes q r) : NextSpec maxEventBytes p r := by
  cases h with
  | event hlt hcap hev => exact .event (Nat.lt_trans hlt hshort) hcap (hrest.trans hev)
  | done hnone hid hretry =>
      rw [← hrest] at hnone hid hretry
      exact .done hnone hid hretry

theorem nextLoop_spec {turns : ℕ} (hturns : p.input.length < turns)
    (hcap : p.capped maxEventBytes = true) :
    NextSpec maxEventBytes p (nextLoop maxEventBytes turns p) := by
  induction turns generalizing p with
  | zero => exact absurd hturns (Nat.not_lt_zero _)
  | succ turns ih =>
      unfold nextLoop
      cases hcut : cutLine p.input with
      | none =>
          have hlines : bodyLines p.input = [] := by rw [bodyLines_eq, hcut]; rfl
          have hrem : p.remaining = ([], p.bufs) := by rw [SSEParser.remaining, hlines]; rfl
          obtain ⟨err, rest, hread⟩ := readLine_of_cutLine_none maxEventBytes p.readErr [] hcut
          have hbufs := p.bufs.readFailed_id err
          rw [hread]
          exact .done (by rw [hrem]) (by rw [hrem]; exact hbufs.1) (by rw [hrem]; exact hbufs.2)
      | some cut =>
          obtain ⟨line, rest⟩ := cut
          have hlines : bodyLines p.input = line :: bodyLines rest := by rw [bodyLines_eq, hcut]; rfl
          rw [SSEParser.capped, hlines, Buffers.withinCap, Bool.and_eq_true, Bool.and_eq_true,
            decide_eq_true_eq, decide_eq_true_eq] at hcap
          obtain ⟨⟨hline, hdata⟩, hrest⟩ := hcap
          have hshort := length_lt_of_cutLine hcut
          rw [readLine_of_cutLine p.readErr hcut hline]
          simp only [List.nil_append, Buffers.line_eq hdata]
          have hrem : p.remaining = ((p.bufs.feed line).1.toList ++
              ((p.bufs.feed line).2.feedAll (bodyLines rest)).1,
              ((p.bufs.feed line).2.feedAll (bodyLines rest)).2) := by
            rw [SSEParser.remaining, hlines]
            rfl
          cases hev : (p.bufs.feed line).1 with
          | none =>
              rw [hev] at hrem
              have hturn : rest.length < turns := by omega
              have hq : p.remaining =
                SSEParser.remaining ⟨rest, p.readErr, (p.bufs.feed line).2⟩ := hrem
              exact .of_goOn hshort hq (ih hturn hrest)
          | some ev =>
              rw [hev] at hrem
              exact .event hshort hrest hrem

theorem readLoop_spec {turns : ℕ} (hturns : p.input.length < turns)
    (hcap : p.capped maxEventBytes = true) :
    ∃ p', readLoop maxEventBytes turns none p = ((p.remaining.1, false), p') ∧
      p'.bufs.idBuf = p.remaining.2.idBuf ∧ p'.bufs.retry = p.remaining.2.retry := by
  induction turns generalizing p with
  | zero => exact absurd hturns (Nat.not_lt_zero _)
  | succ turns ih =>
      have hnext : NextSpec maxEventBytes p (next maxEventBytes p) :=
        nextLoop_spec (Nat.lt_succ_self _) hcap
      unfold readLoop
      cases hr : next maxEventBytes p with
      | mk res p' =>
          rw [hr] at hnext
          cases hnext with
          | event hshort hcap' hrest =>
              obtain ⟨q, hq, hid, hretry⟩ := ih (p := p') (by omega) hcap'
              rw [hrest]
              refine ⟨q, ?_, hid, hretry⟩
              simp only [reduceCtorEq, if_false, Option.map_none, hq]
          | done hnone hid hretry => exact ⟨p', by rw [hnone], hid, hretry⟩

end Msgin.Http
