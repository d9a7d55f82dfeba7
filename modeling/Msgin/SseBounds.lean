import Msgin.SseMachine

/-!
# What the parser holds in memory

Both caps are compared after the bytes were stored, so the line buffer may hold one byte more than
the cap and the data buffer the cap and one more value. The bounds hold between any two steps,
whatever the reader yields and however long it yields it.
-/

namespace Msgin.Http

theorem length_splitField (line : Bytes) :
    (splitField line).1.length + (splitField line).2.length ≤ line.length := by
  have hline : (line.takeWhile (· ≠ colon)).length + (line.dropWhile (· ≠ colon)).length =
      line.length := by
    rw [← List.length_append, List.takeWhile_append_dropWhile]
  have hvalue : (splitField line).2.length ≤ (line.dropWhile (· ≠ colon)).length := by
    unfold splitField
    dsimp only
    split
    · rw [List.length_tail, List.length_tail]
      omega
    · rw [List.length_tail]
      omega
  have hname : (splitField line).1 = line.takeWhile (· ≠ colon) := rfl
  rw [hname]
  omega

theorem length_data_value {line : Bytes} (h : (splitField line).1 = dataField) :
    (splitField line).2.length + 4 ≤ line.length := by
  have hsplit := length_splitField line
  have hname : (splitField line).1.length = 4 := by rw [h]; rfl
  omega

namespace ParserPhase

def lineCap (maxEventBytes : ℕ) : ParserPhase → ℕ
  | .appended | .draining | .drainedCR | .failed _ | .returned _ => maxEventBytes + 1
  | _ => maxEventBytes

def dataCap (maxEventBytes : ℕ) : ParserPhase → ℕ
  | .wroteValue | .wroteNewline => 2 * maxEventBytes
  | .returned _ => 0
  | _ => maxEventBytes

/-- The bytes to be written to the data buffer before it is compared with the cap. -/
def pending : ParserPhase → ℕ
  | .wroteValue => 1
  | _ => 0

def typeCap (maxEventBytes : ℕ) : ParserPhase → ℕ
  | .returned _ => 0
  | _ => maxEventBytes

end ParserPhase

namespace ParserState

variable {maxEventBytes : ℕ} {s : ParserState}

structure Within (maxEventBytes : ℕ) (s : ParserState) : Prop where
  lineBuf : s.lineBuf.length ≤ s.phase.lineCap maxEventBytes
  dataBuf : s.bufs.dataBuf.length + s.phase.pending ≤ s.phase.dataCap maxEventBytes
  typeBuf : s.bufs.typeBuf.length ≤ s.phase.typeCap maxEventBytes
  idBuf : s.bufs.idBuf.length ≤ maxEventBytes

theorem within_start (r : ByteReader) : Within maxEventBytes (start r) :=
  ⟨Nat.zero_le _, Nat.zero_le _, Nat.zero_le _, Nat.zero_le _⟩

theorem within_readByte (h : Within maxEventBytes s) (hphase : s.phase = .reading) :
    Within maxEventBytes s.readByte := by
  obtain ⟨r, buf, bufs, phase⟩ := s
  subst hphase
  obtain ⟨hline, hdata, htype, hid⟩ := h
  have hline : buf.length ≤ maxEventBytes := hline
  unfold readByte
  split
  · exact ⟨Nat.le_succ_of_le hline, hdata, htype, hid⟩
  · exact ⟨Nat.le_succ_of_le hline, hdata, htype, hid⟩
  · split
    · exact ⟨hline, hdata, htype, hid⟩
    · split
      · exact ⟨hline, hdata, htype, hid⟩
      · refine ⟨?_, hdata, htype, hid⟩
        show (buf ++ [_]).length ≤ maxEventBytes + 1
        rw [List.length_append, List.length_singleton]
        omega

theorem within_drainByte (h : Within maxEventBytes s) (hphase : s.phase = .draining) :
    Within maxEventBytes s.drainByte := by
  obtain ⟨r, buf, bufs, phase⟩ := s
  subst hphase
  obtain ⟨hline, hdata, htype, hid⟩ := h
  unfold drainByte
  split
  · exact ⟨hline, hdata, htype, hid⟩
  · split
    · exact ⟨hline, hdata, htype, hid⟩
    · split
      · exact ⟨hline, hdata, htype, hid⟩
      · exact ⟨hline, hdata, htype, hid⟩

theorem within_processField (h : Within maxEventBytes s) (hphase : s.phase = .line) :
    Within maxEventBytes s.processField := by
  obtain ⟨r, buf, bufs, phase⟩ := s
  subst hphase
  obtain ⟨hline, hdata, htype, hid⟩ := h
  have hline : buf.length ≤ maxEventBytes := hline
  have hdata : bufs.dataBuf.length ≤ maxEventBytes := hdata
  have hvalue : (splitField buf).2.length ≤ maxEventBytes := by
    have hsplit := length_splitField buf
    omega
  unfold processField
  dsimp only
  split
  · next hfield =>
      have hshort := length_data_value hfield
      refine ⟨hline, ?_, htype, hid⟩
      show (bufs.dataBuf ++ (splitField buf).2).length + 1 ≤ 2 * maxEventBytes
      rw [List.length_append]
      omega
  · split
    · exact ⟨hline, hdata, hvalue, hid⟩
    · split
      · split
        · exact ⟨hline, hdata, htype, hid⟩
        · exact ⟨hline, hdata, htype, hvalue⟩
      · split
        · cases parseRetryMillis (splitField buf).2 with
          | none => exact ⟨hline, hdata, htype, hid⟩
          | some ms => exact ⟨hline, hdata, htype, hid⟩
        · exact ⟨hline, hdata, htype, hid⟩

theorem within_processLine (h : Within maxEventBytes s) (hphase : s.phase = .line) :
    Within maxEventBytes s.processLine := by
  have hfield := within_processField h hphase
  obtain ⟨r, buf, bufs, phase⟩ := s
  subst hphase
  obtain ⟨hline, hdata, htype, hid⟩ := h
  unfold processLine
  split
  · split
    · exact ⟨hline, hdata, Nat.zero_le _, hid⟩
    · exact ⟨Nat.le_succ_of_le hline, Nat.le_refl 0, Nat.le_refl 0, hid⟩
  · split
    · exact ⟨hline, hdata, htype, hid⟩
    · exact hfield

/-- Whatever `readLine` returned, `Next` leaves the event buffers empty when it returns an error. -/
theorem readFailed_reset (b : Buffers) (err : ReadErr) :
    (b.readFailed err).2 = b.resetEventBuffers := by
  cases err with
  | eof =>
      obtain ⟨dataBuf, typeBuf, idBuf, retry⟩ := b
      by_cases hempty : dataBuf ≠ [] ∨ typeBuf ≠ []
      · rw [Buffers.readFailed, if_pos hempty]
      · obtain ⟨hdata, htype⟩ := not_or.mp hempty
        rw [Buffers.readFailed, if_neg hempty, not_not.mp hdata, not_not.mp htype]
        rfl
  | unexpectedEOF => rfl
  | eventTooLarge => rfl
  | other err => rfl

theorem within_step (h : Within maxEventBytes s) : Within maxEventBytes (s.step maxEventBytes) := by
  obtain ⟨r, buf, bufs, phase⟩ := s
  cases phase with
  | reading => exact within_readByte h rfl
  | readCR => exact ⟨h.lineBuf, h.dataBuf, h.typeBuf, h.idBuf⟩
  | appended =>
      unfold step
      dsimp only
      split
      · exact ⟨h.lineBuf, h.dataBuf, h.typeBuf, h.idBuf⟩
      · next hfits => exact ⟨Nat.not_lt.mp hfits, h.dataBuf, h.typeBuf, h.idBuf⟩
  | draining => exact within_drainByte h rfl
  | drainedCR => exact ⟨h.lineBuf, h.dataBuf, h.typeBuf, h.idBuf⟩
  | failed err =>
      unfold step
      dsimp only
      rw [readFailed_reset]
      exact ⟨h.lineBuf, Nat.le_refl 0, Nat.le_refl 0, h.idBuf⟩
  | line => exact within_processLine h rfl
  | wroteValue =>
      refine ⟨h.lineBuf, ?_, h.typeBuf, h.idBuf⟩
      show (bufs.dataBuf ++ [lf]).length ≤ 2 * maxEventBytes
      rw [List.length_append]
      exact h.dataBuf
  | wroteNewline =>
      unfold step
      dsimp only
      split
      · exact ⟨Nat.le_succ_of_le h.lineBuf, Nat.le_refl 0, Nat.le_refl 0, h.idBuf⟩
      · next hfits => exact ⟨h.lineBuf, Nat.not_lt.mp hfits, h.typeBuf, h.idBuf⟩
  | processed => exact ⟨Nat.zero_le _, h.dataBuf, h.typeBuf, h.idBuf⟩
  | returned result =>
      exact ⟨Nat.zero_le _, Nat.le_trans h.dataBuf (Nat.zero_le _),
        Nat.le_trans h.typeBuf (Nat.zero_le _), h.idBuf⟩

theorem within_after (maxEventBytes : ℕ) (r : ByteReader) (n : ℕ) :
    Within maxEventBytes (after maxEventBytes r n) := by
  induction n with
  | zero => exact within_start r
  | succ n ih => exact within_step ih

structure Bounded (maxEventBytes : ℕ) (s : ParserState) : Prop where
  lineBuf : s.lineBuf.length ≤ maxEventBytes + 1
  dataBuf : s.bufs.dataBuf.length ≤ 2 * maxEventBytes
  processed : s.phase = .processed → s.bufs.dataBuf.length ≤ maxEventBytes
  returned : ∀ result, s.phase = .returned result → s.bufs.dataBuf = [] ∧ s.bufs.typeBuf = []
  typeBuf : s.bufs.typeBuf.length ≤ maxEventBytes
  idBuf : s.bufs.idBuf.length ≤ maxEventBytes

theorem lineCap_le (phase : ParserPhase) : phase.lineCap maxEventBytes ≤ maxEventBytes + 1 := by
  cases phase <;> simp [ParserPhase.lineCap]

theorem dataCap_le (phase : ParserPhase) : phase.dataCap maxEventBytes ≤ 2 * maxEventBytes := by
  cases phase <;> simp [ParserPhase.dataCap] <;> omega

theorem typeCap_le (phase : ParserPhase) : phase.typeCap maxEventBytes ≤ maxEventBytes := by
  cases phase <;> simp [ParserPhase.typeCap]

theorem Within.bounded (h : Within maxEventBytes s) : Bounded maxEventBytes s where
  lineBuf := Nat.le_trans h.lineBuf (lineCap_le s.phase)
  dataBuf := Nat.le_trans (Nat.le_of_add_right_le h.dataBuf) (dataCap_le s.phase)
  processed hphase := by
    have hdata := h.dataBuf
    rw [hphase] at hdata
    exact hdata
  returned result hphase := by
    have hdata := h.dataBuf
    have htype := h.typeBuf
    rw [hphase] at hdata htype
    exact ⟨List.eq_nil_of_length_eq_zero (Nat.le_zero.mp hdata),
      List.eq_nil_of_length_eq_zero (Nat.le_zero.mp htype)⟩
  typeBuf := Nat.le_trans h.typeBuf (typeCap_le s.phase)
  idBuf := h.idBuf

/-- In every state of the parser, on every stream, the line buffer holds at most one byte more than
the cap and the data buffer at most twice the cap; the data buffer is within the cap when a line has
been processed, and it and the event name are empty when `Next` has returned. -/
theorem buffers_bounded (maxEventBytes : ℕ) (r : ByteReader) (n : ℕ) :
    Bounded maxEventBytes (after maxEventBytes r n) :=
  (within_after maxEventBytes r n).bounded

end ParserState

end Msgin.Http
