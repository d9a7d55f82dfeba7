import Msgin.SseLines

/-!
# Calling `Next` again and again

What the calls of `Next` on one parser return, read off the lines of the body. A line over the cap
is drained, so that an event which is too large never moves the line ends: a call gives up the
buffers at the line that exceeds the cap, and the next call goes on at the line after it.
-/

namespace Msgin.Http

/-- `Next` is not called again: the error is not that of an event which is too large. -/
def isFinal : Except ReadErr SSEEvent → Bool
  | .ok _ => false
  | .error .eventTooLarge => false
  | .error _ => true

/-- The calls of `Next`, each with the parser after it, up to the first whose error is final. -/
def nextCalls (maxEventBytes : ℕ) : ℕ → SSEParser → List (Except ReadErr SSEEvent × SSEParser)
  | 0, _ => []
  | turns + 1, p =>
    next maxEventBytes p ::
      if isFinal (next maxEventBytes p).1 then [] else nextCalls maxEventBytes turns (next maxEventBytes p).2

def callsToEnd (maxEventBytes : ℕ) (p : SSEParser) : List (Except ReadErr SSEEvent × SSEParser) :=
  nextCalls maxEventBytes (p.input.length + 1) p

abbrev Returned := Except ReadErr SSEEvent × Buffers

def returned (r : Except ReadErr SSEEvent × SSEParser) : Returned := (r.1, r.2.bufs)

def bodyTail (body : Bytes) : Bytes := (dataLines body).getLast (dataLines_ne_nil body)

namespace Buffers

/-- What `Next` does with a terminated line, which `readLine` refuses over the cap. -/
def read (maxEventBytes : ℕ) (b : Buffers) (line : Bytes) : LineOutcome × Buffers :=
  if maxEventBytes < line.length then (.failed .eventTooLarge, b.resetEventBuffers)
  else b.line maxEventBytes line

/-- What a line makes `Next` return. -/
def lineCall (maxEventBytes : ℕ) (b : Buffers) (line : Bytes) : Option Returned :=
  match b.read maxEventBytes line with
  | (.goOn, _) => none
  | (.event ev, b') => some (.ok ev, b')
  | (.failed err, b') => some (.error err, b')

def lineCalls (maxEventBytes : ℕ) (b : Buffers) : List Bytes → List Returned × Buffers
  | [] => ([], b)
  | line :: lines =>
    let rest := (b.read maxEventBytes line).2.lineCalls maxEventBytes lines
    ((b.lineCall maxEventBytes line).toList ++ rest.1, rest.2)

/-- What the unterminated end of a body makes `Next` return. -/
def endCalls (maxEventBytes : ℕ) (b : Buffers) (tail : Bytes) : List Returned :=
  if maxEventBytes < tail.length then
    [(.error .eventTooLarge, b.resetEventBuffers), (.error .eof, b.resetEventBuffers)]
  else
    let failed := b.readFailed (if tail = [] then .eof else .unexpectedEOF)
    [(.error failed.1, failed.2)]

end Buffers

section ReadLine

variable {maxEventBytes : ℕ} {buf body line rest : Bytes}

theorem drainLine_eq (body : Bytes) : drainLine body = (cutLine body).elim [] Prod.snd := by
  induction body with
  | nil => rfl
  | cons b body ih =>
      unfold drainLine cutLine
      split
      · rfl
      · split
        · rfl
        · rw [ih]
          cases cutLine body <;> rfl

theorem readLine_exceeds (readErr : ReadErr) (hbuf : buf.length ≤ maxEventBytes)
    (hcap : maxEventBytes < (buf ++ ((cutLine body).elim body Prod.fst)).length) :
    readLine maxEventBytes readErr buf body =
      (.error .eventTooLarge, (cutLine body).elim [] Prod.snd) := by
  induction body generalizing buf with
  | nil => exact absurd hcap (by simpa [cutLine] using hbuf)
  | cons b body ih =>
      unfold cutLine at hcap ⊢
      unfold readLine
      by_cases hlf : b = lf
      · rw [if_pos hlf, Option.elim_some, List.append_nil] at hcap
        omega
      · by_cases hcr : b = cr
        · rw [if_neg hlf, if_pos hcr, Option.elim_some, List.append_nil] at hcap
          omega
        · rw [if_neg hlf, if_neg hcr] at hcap ⊢
          rw [if_neg hlf, if_neg hcr]
          have hcut : (((cutLine body).map fun cut => (b :: cut.1, cut.2)).elim (b :: body) Prod.fst) =
              b :: (cutLine body).elim body Prod.fst := by
            cases cutLine body <;> rfl
          have hrest : (((cutLine body).map fun cut => (b :: cut.1, cut.2)).elim [] Prod.snd) =
              (cutLine body).elim [] Prod.snd := by
            cases cutLine body <;> rfl
          rw [hcut] at hcap
          rw [hrest]
          split
          · rw [drainLine_eq]
          · next hfits =>
              apply ih
              · omega
              · rwa [List.append_assoc]

theorem readLine_tail (readErr : ReadErr) (h : cutLine body = none)
    (hcap : (buf ++ body).length ≤ maxEventBytes) :
    readLine maxEventBytes readErr buf body = readLine maxEventBytes readErr (buf ++ body) [] := by
  induction body generalizing buf with
  | nil => rw [List.append_nil]
  | cons b body ih =>
      unfold cutLine at h
      split at h
      · cases h
      · next hlf =>
          split at h
          · cases h
          · next hcr =>
              have happend : buf ++ b :: body = buf ++ [b] ++ body :=
                (List.append_assoc buf [b] body).symm
              rw [happend] at hcap ⊢
              have hbuf : ¬maxEventBytes < (buf ++ [b]).length := by
                rw [List.length_append] at hcap
                omega
              have hread : readLine maxEventBytes readErr buf (b :: body) =
                  readLine maxEventBytes readErr (buf ++ [b]) body := by
                rw [readLine, if_neg hlf, if_neg hcr, if_neg hbuf]
              rw [hread]
              exact ih (Option.map_eq_none_iff.mp h) hcap

end ReadLine

variable {b : Buffers} {turns : ℕ}

section Next

variable {maxEventBytes : ℕ} {p : SSEParser} {line rest : Bytes}

theorem nextLoop_line (turns : ℕ) (h : cutLine p.input = some (line, rest)) :
    nextLoop maxEventBytes (turns + 1) p =
      match p.bufs.read maxEventBytes line with
      | (.goOn, b) => nextLoop maxEventBytes turns ⟨rest, p.readErr, b⟩
      | (.event ev, b) => (.ok ev, ⟨rest, p.readErr, b⟩)
      | (.failed err, b) => (.error err, ⟨rest, p.readErr, b⟩) := by
  rw [nextLoop, Buffers.read]
  by_cases hcap : maxEventBytes < line.length
  · have hread : readLine maxEventBytes p.readErr [] p.input = (.error .eventTooLarge, rest) := by
      have hexceeds := @readLine_exceeds maxEventBytes [] p.input p.readErr (Nat.zero_le _) (by rwa [h])
      rwa [h] at hexceeds
    rw [hread, if_pos hcap]
    rfl
  · have hread : readLine maxEventBytes p.readErr [] p.input = (.ok line, rest) :=
      readLine_of_cutLine p.readErr h (Nat.not_lt.mp hcap)
    rw [hread, if_neg hcap]
    dsimp only
    rcases hline : p.bufs.line maxEventBytes line with ⟨outcome, b⟩
    cases outcome <;> rfl

theorem nextLoop_turns {turns' : ℕ} (hturns : p.input.length < turns)
    (hturns' : p.input.length < turns') :
    nextLoop maxEventBytes turns p = nextLoop maxEventBytes turns' p := by
  induction turns generalizing p turns' with
  | zero => exact absurd hturns (Nat.not_lt_zero _)
  | succ turns ih =>
      cases turns' with
      | zero => exact absurd hturns' (Nat.not_lt_zero _)
      | succ turns' =>
          cases hcut : cutLine p.input with
          | none =>
              obtain ⟨err, left, hread⟩ := readLine_of_cutLine_none maxEventBytes p.readErr [] hcut
              rw [nextLoop, nextLoop, hread]
          | some cut =>
              obtain ⟨line, rest⟩ := cut
              have hshort := length_lt_of_cutLine hcut
              rw [nextLoop_line turns hcut, nextLoop_line turns' hcut]
              split
              · exact ih (by show rest.length < turns; omega) (by show rest.length < turns'; omega)
              · rfl
              · rfl

theorem next_line (h : cutLine p.input = some (line, rest)) :
    next maxEventBytes p =
      match p.bufs.read maxEventBytes line with
      | (.goOn, b) => next maxEventBytes ⟨rest, p.readErr, b⟩
      | (.event ev, b) => (.ok ev, ⟨rest, p.readErr, b⟩)
      | (.failed err, b) => (.error err, ⟨rest, p.readErr, b⟩) := by
  have hshort := length_lt_of_cutLine h
  rw [next, nextLoop_line _ h]
  split
  · exact nextLoop_turns hshort (Nat.lt_succ_self _)
  · rfl
  · rfl

theorem next_end (h : cutLine p.input = none) (heof : p.readErr = .eof) :
    next maxEventBytes p =
      if maxEventBytes < p.input.length then
        (.error .eventTooLarge, ⟨[], p.readErr, p.bufs.resetEventBuffers⟩)
      else
        (.error (p.bufs.readFailed (if p.input = [] then .eof else .unexpectedEOF)).1,
          ⟨[], p.readErr, (p.bufs.readFailed (if p.input = [] then .eof else .unexpectedEOF)).2⟩) := by
  rw [next, nextLoop]
  by_cases hcap : maxEventBytes < p.input.length
  · have hread : readLine maxEventBytes p.readErr [] p.input = (.error .eventTooLarge, []) := by
      have hexceeds := @readLine_exceeds maxEventBytes [] p.input p.readErr (Nat.zero_le _) (by rwa [h])
      rwa [h] at hexceeds
    rw [hread, if_pos hcap]
    rfl
  · have hread : readLine maxEventBytes p.readErr [] p.input =
        (.error (if p.input = [] then .eof else .unexpectedEOF), []) := by
      rw [readLine_tail p.readErr h (Nat.not_lt.mp hcap), heof]
      rfl
    rw [hread, if_neg hcap]

theorem processField_error {err : ReadErr} (h : processField maxEventBytes b line = .error err) :
    err = .eventTooLarge := by
  unfold processField at h
  dsimp only at h
  split at h
  · split at h
    · exact (Except.error.inj h).symm
    · cases h
  · split at h
    · cases h
    · split at h
      · cases h
      · split at h
        · cases h
        · cases h

theorem read_failed {b' : Buffers} {err : ReadErr}
    (h : b.read maxEventBytes line = (.failed err, b')) : err = .eventTooLarge := by
  unfold Buffers.read at h
  split at h
  · exact (LineOutcome.failed.inj (Prod.mk.inj h).1).symm
  · unfold Buffers.line at h
    split at h
    · split at h
      · cases h
      · cases h
    · split at h
      · cases h
      · split at h
        · next hfield =>
            obtain rfl := LineOutcome.failed.inj (Prod.mk.inj h).1
            exact processField_error hfield
        · cases h

end Next

variable {maxEventBytes : ℕ}

theorem bodyTail_of_cutLine {body line rest : Bytes} (h : cutLine body = some (line, rest)) :
    bodyTail body = bodyTail rest := by
  have hlines : dataLines body = line :: dataLines rest := by rw [dataLines_eq, h]; rfl
  simp only [bodyTail, hlines]
  exact List.getLast_cons (dataLines_ne_nil rest)

theorem bodyTail_of_cutLine_none {body : Bytes} (h : cutLine body = none) : bodyTail body = body := by
  have hlines : dataLines body = [body] := by rw [dataLines_eq, h]; rfl
  simp only [bodyTail, hlines]
  exact List.getLast_singleton _

theorem nextCalls_congr {p q : SSEParser} (h : next maxEventBytes p = next maxEventBytes q) (turns : ℕ) :
    nextCalls maxEventBytes turns p = nextCalls maxEventBytes turns q := by
  cases turns with
  | zero => rfl
  | succ turns => rw [nextCalls, nextCalls, h]

theorem nextCalls_goesOn {p q : SSEParser} {r : Except ReadErr SSEEvent}
    (h : next maxEventBytes p = (r, q)) (hr : isFinal r = false) (turns : ℕ) :
    (nextCalls maxEventBytes (turns + 1) p).map returned =
      (r, q.bufs) :: (nextCalls maxEventBytes turns q).map returned := by
  rw [nextCalls, h, if_neg (by simp [hr]), List.map_cons]
  rfl

theorem nextCalls_end {p : SSEParser} (hturns : p.input.length < turns) (h : cutLine p.input = none)
    (heof : p.readErr = .eof) :
    (nextCalls maxEventBytes turns p).map returned = p.bufs.endCalls maxEventBytes p.input := by
  cases turns with
  | zero => exact absurd hturns (Nat.not_lt_zero _)
  | succ turns =>
      rw [nextCalls, next_end h heof, Buffers.endCalls]
      by_cases hcap : maxEventBytes < p.input.length
      · obtain ⟨turns, rfl⟩ : ∃ t, turns = t + 1 := ⟨turns - 1, by omega⟩
        rw [if_pos hcap, if_pos hcap, heof]
        rfl
      · rw [if_neg hcap, if_neg hcap]
        have hfinal : isFinal (.error
            (p.bufs.readFailed (if p.input = [] then .eof else .unexpectedEOF)).1) = true := by
          split
          · unfold Buffers.readFailed
            dsimp only
            split
            · rfl
            · rfl
          · rfl
        rw [if_pos hfinal]
        rfl

/-- The calls of `Next` are those that the lines of the body make, and then those of its end. -/
theorem nextCalls_eq {p : SSEParser} (hturns : p.input.length < turns) (heof : p.readErr = .eof) :
    (nextCalls maxEventBytes turns p).map returned =
      (p.bufs.lineCalls maxEventBytes (bodyLines p.input)).1 ++
        (p.bufs.lineCalls maxEventBytes (bodyLines p.input)).2.endCalls maxEventBytes
          (bodyTail p.input) := by
  induction hn : p.input.length using Nat.strongRecOn generalizing p turns with
  | _ n ih =>
      cases hcut : cutLine p.input with
      | none =>
          rw [bodyLines_eq, hcut, bodyTail_of_cutLine_none hcut]
          exact nextCalls_end hturns hcut heof
      | some cut =>
          obtain ⟨line, rest⟩ := cut
          have hshort := length_lt_of_cutLine hcut
          have hlines : bodyLines p.input = line :: bodyLines rest := by
            rw [bodyLines_eq, hcut]
            rfl
          have hnext : next maxEventBytes p = _ := next_line hcut
          obtain ⟨turns, rfl⟩ : ∃ t, turns = t + 1 := ⟨turns - 1, by omega⟩
          rw [hlines, bodyTail_of_cutLine hcut, Buffers.lineCalls, Buffers.lineCall]
          rcases hread : p.bufs.read maxEventBytes line with ⟨outcome, b⟩
          have hrest := fun t (ht : rest.length < t) =>
            ih rest.length (by omega) (p := ⟨rest, p.readErr, b⟩) ht heof rfl
          rw [hread] at hnext
          cases outcome with
          | goOn =>
              rw [nextCalls_congr hnext]
              exact hrest (turns + 1) (by omega)
          | event ev =>
              rw [nextCalls_goesOn hnext rfl, hrest turns (by omega)]
              rfl
          | failed err =>
              obtain rfl := read_failed hread
              rw [nextCalls_goesOn hnext rfl, hrest turns (by omega)]
              rfl

theorem callsToEnd_eq (stream : Bytes) (b : Buffers) :
    (callsToEnd maxEventBytes ⟨stream, .eof, b⟩).map returned =
      (b.lineCalls maxEventBytes (bodyLines stream)).1 ++
        (b.lineCalls maxEventBytes (bodyLines stream)).2.endCalls maxEventBytes (bodyTail stream) :=
  nextCalls_eq (Nat.lt_succ_self _) rfl

theorem Buffers.feed_event {line : Bytes} {ev : SSEEvent} (h : (b.feed line).1 = some ev) :
    (b.feed line).2.idBuf = ev.id := by
  unfold Buffers.feed at h ⊢
  split at h
  · next hline =>
      split at h
      · cases h
      · next hdata =>
          obtain rfl := Option.some.inj h
          rw [if_pos hline, if_neg hdata]
          rfl
  · split at h
    · cases h
    · cases h

/-- Within the cap the calls return the events that the lines dispatch, each with its id as the last
event id. -/
theorem Buffers.lineCalls_of_withinCap {lines : List Bytes}
    (h : b.withinCap maxEventBytes lines = true) :
    (b.lineCalls maxEventBytes lines).1.map (fun r => (r.1, r.2.idBuf)) =
        (b.feedAll lines).1.map (fun ev => (.ok ev, ev.id)) ∧
      (b.lineCalls maxEventBytes lines).2 = (b.feedAll lines).2 := by
  induction lines generalizing b with
  | nil => exact ⟨rfl, rfl⟩
  | cons line lines ih =>
      rw [withinCap, Bool.and_eq_true, Bool.and_eq_true, decide_eq_true_eq, decide_eq_true_eq] at h
      obtain ⟨⟨hline, hdata⟩, hrest⟩ := h
      have hread : b.read maxEventBytes line = ((b.feed line).1.elim .goOn .event, (b.feed line).2) := by
        rw [read, if_neg (Nat.not_lt.mpr hline), line_eq hdata]
      obtain ⟨hevents, hbufs⟩ := ih hrest
      simp only [lineCalls, lineCall, feedAll, hread, List.map_append, hevents, hbufs]
      cases hev : (b.feed line).1 with
      | none => exact ⟨rfl, trivial⟩
      | some ev =>
          refine ⟨?_, trivial⟩
          simp [feed_event hev]

end Msgin.Http
