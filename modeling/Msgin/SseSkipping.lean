import Msgin.SseRoundTrip

/-!
# Events over the cap

A caller that goes on after `ErrEventTooLarge`. The call gives up the buffers at the line which
exceeds the cap, and the lines of the same event that are left are read as if an event began there.
What they put into the data buffer is dispatched at the blank line.
-/

namespace Msgin.Http

def okEvents {α : Type} (calls : List (Except ReadErr SSEEvent × α)) : List SSEEvent :=
  calls.filterMap fun r => r.1.toOption

theorem okEvents_append {α : Type} (l₁ l₂ : List (Except ReadErr SSEEvent × α)) :
    okEvents (l₁ ++ l₂) = okEvents l₁ ++ okEvents l₂ := List.filterMap_append

def SSEEvent.fits (maxEventBytes : ℕ) (ev : SSEEvent) : Bool :=
  (frameLines ev).all (fun line => line.length ≤ maxEventBytes) &&
    (printLines (dataLines ev.data)).length ≤ maxEventBytes

/-- The line of this data is refused, with what is in the data buffer. -/
def refusesData (maxEventBytes : ℕ) (dataBuf line : Bytes) : Bool :=
  maxEventBytes < (dataLabel ++ line).length || maxEventBytes < (dataBuf ++ line ++ [lf]).length

/-- The data buffer after the data lines of an event: a refused line empties it. -/
def afterData (maxEventBytes : ℕ) (dataBuf : Bytes) : List Bytes → Bytes
  | [] => dataBuf
  | line :: lines =>
    afterData maxEventBytes (if refusesData maxEventBytes dataBuf line then [] else dataBuf ++ line ++ [lf])
      lines

/-- What is in the data buffer when the blank line of the event is read. -/
def SSEEvent.leftover (maxEventBytes : ℕ) (ev : SSEEvent) : Bytes :=
  afterData maxEventBytes [] (dataLines ev.data)

/-- The last data line of the event is refused. -/
def SSEEvent.refusesLast (maxEventBytes : ℕ) (ev : SSEEvent) : Bool :=
  (dataLines ev.data).getLast?.all
    (refusesData maxEventBytes (afterData maxEventBytes [] (dataLines ev.data).dropLast))

variable (maxEventBytes : ℕ) (ev : SSEEvent)

/-- Nothing is left over exactly if the last data line is refused. -/
theorem afterData_eq_nil (dataBuf : Bytes) (lines : List Bytes) (last : Bytes) :
    afterData maxEventBytes dataBuf (lines ++ [last]) = [] ↔
      refusesData maxEventBytes (afterData maxEventBytes dataBuf lines) last = true := by
  induction lines generalizing dataBuf with
  | nil =>
      rw [List.nil_append, afterData, afterData, afterData]
      split
      · simp [*]
      · simp [*]
  | cons line lines ih => exact ih _

theorem SSEEvent.leftover_eq_nil :
    ev.leftover maxEventBytes = [] ↔ ev.refusesLast maxEventBytes = true := by
  rw [leftover, refusesLast]
  rcases List.eq_nil_or_concat' (dataLines ev.data) with hnil | ⟨lines, last, hlines⟩
  · rw [hnil]
    exact iff_of_true rfl rfl
  · rw [hlines, afterData_eq_nil, List.getLast?_concat, List.dropLast_concat, Option.all_some]

def SSEEvent.headLines (ev : SSEEvent) : List Bytes :=
  (if ev.id ≠ [] then [idLabel ++ ev.id] else []) ++ if ev.name ≠ [] then [eventLabel ++ ev.name] else []

theorem frameLines_eq : frameLines ev = ev.headLines ++ (dataLines ev.data).map (dataLabel ++ ·) :=
  (List.append_assoc _ _ _).symm

theorem SSEEvent.headLines_fields :
    ∀ line ∈ ev.headLines, line ≠ [] ∧ (splitField line).1 ≠ dataField := by
  intro line hline
  rcases List.mem_append.mp hline with hline | hline
  · split at hline
    · obtain rfl := List.mem_singleton.mp hline
      exact ⟨List.cons_ne_nil _ _, by show idField ≠ dataField; decide⟩
    · cases hline
  · split at hline
    · obtain rfl := List.mem_singleton.mp hline
      exact ⟨List.cons_ne_nil _ _, by show eventField ≠ dataField; decide⟩
    · cases hline

namespace Buffers

variable {maxEventBytes : ℕ} {b : Buffers}

theorem lineCalls_append (l₁ l₂ : List Bytes) :
    b.lineCalls maxEventBytes (l₁ ++ l₂) =
      ((b.lineCalls maxEventBytes l₁).1 ++
          ((b.lineCalls maxEventBytes l₁).2.lineCalls maxEventBytes l₂).1,
        ((b.lineCalls maxEventBytes l₁).2.lineCalls maxEventBytes l₂).2) := by
  induction l₁ generalizing b with
  | nil => rfl
  | cons line l₁ ih => rw [List.cons_append, lineCalls, lineCalls, ih, List.append_assoc]

variable {line : Bytes} {lines : List Bytes}

theorem line_of_error {err : ReadErr} (hline : line ≠ []) (hcomment : line.head? ≠ some colon)
    (h : processField maxEventBytes b line = .error err) :
    b.line maxEventBytes line = (.failed err, b.resetEventBuffers) := by
  simp only [Buffers.line, if_neg hline, if_neg hcomment, h]

theorem line_of_ok {b' : Buffers} (hline : line ≠ []) (hcomment : line.head? ≠ some colon)
    (h : processField maxEventBytes b line = .ok b') : b.line maxEventBytes line = (.goOn, b') := by
  simp only [Buffers.line, if_neg hline, if_neg hcomment, h]

theorem read_cases (hline : line ≠ []) :
    b.read maxEventBytes line = (.failed .eventTooLarge, b.resetEventBuffers) ∨
      b.read maxEventBytes line = (.goOn, b) ∨
      ∃ b', processField maxEventBytes b line = .ok b' ∧ b.read maxEventBytes line = (.goOn, b') := by
  by_cases hcap : maxEventBytes < line.length
  · exact .inl (if_pos hcap)
  · by_cases hcomment : line.head? = some colon
    · have hgo : b.read maxEventBytes line = (.goOn, b) := by
        rw [read, if_neg hcap, Buffers.line, if_neg hline, if_pos hcomment]
      exact .inr (.inl hgo)
    · have hread : b.read maxEventBytes line = b.line maxEventBytes line := if_neg hcap
      cases hok : processField maxEventBytes b line with
      | error err =>
          obtain rfl := processField_error hok
          exact .inl (hread.trans (line_of_error hline hcomment hok))
      | ok b' => exact .inr (.inr ⟨b', rfl, hread.trans (line_of_ok hline hcomment hok)⟩)

theorem okEvents_lineCall (hline : line ≠ []) :
    okEvents (b.lineCall maxEventBytes line).toList = [] := by
  unfold lineCall
  rcases read_cases hline with hread | hread | ⟨b', -, hread⟩
  · rw [hread]
    rfl
  · rw [hread]
    rfl
  · rw [hread]
    rfl

theorem okEvents_lineCalls (h : ∀ line ∈ lines, line ≠ []) :
    okEvents (b.lineCalls maxEventBytes lines).1 = [] := by
  induction lines generalizing b with
  | nil => rfl
  | cons line lines ih =>
      have hfirst : okEvents (b.lineCall maxEventBytes line).toList = [] :=
        okEvents_lineCall (h line List.mem_cons_self)
      have hrest := ih (b := (b.read maxEventBytes line).2) fun l hl => h l (List.mem_cons_of_mem line hl)
      rw [lineCalls, okEvents_append, hfirst, hrest, List.append_nil]

theorem applyField_dataBuf_of_ne (hfield : (splitField line).1 ≠ dataField) :
    (b.applyField line).dataBuf = b.dataBuf :=
  (b.applyField_dataBuf line).trans (if_neg hfield)

theorem read_dataBuf_of_ne (hline : line ≠ []) (hfield : (splitField line).1 ≠ dataField)
    (hb : b.dataBuf = []) : (b.read maxEventBytes line).2.dataBuf = [] := by
  rcases read_cases hline with hread | hread | ⟨b', hok, hread⟩
  · rw [hread]
    rfl
  · rw [hread]
    exact hb
  · have hbuf : (b.applyField line).dataBuf = [] := (applyField_dataBuf_of_ne hfield).trans hb
    have hlength : (b.applyField line).dataBuf.length ≤ maxEventBytes := by
      rw [hbuf]
      exact Nat.zero_le _
    rw [processField_eq hlength] at hok
    cases hok
    rw [hread]
    exact hbuf

theorem read_dataBuf (line : Bytes) :
    (b.read maxEventBytes (dataLabel ++ line)).2.dataBuf =
      if refusesData maxEventBytes b.dataBuf line then [] else b.dataBuf ++ line ++ [lf] := by
  have hfield : processField maxEventBytes b (dataLabel ++ line) =
      if maxEventBytes < (b.dataBuf ++ line ++ [lf]).length then .error .eventTooLarge
      else .ok { b with dataBuf := b.dataBuf ++ line ++ [lf] } := rfl
  have hline : dataLabel ++ line ≠ [] := by simp [dataLabel]
  have hcomment : (dataLabel ++ line).head? ≠ some colon := by simp [dataLabel, colon]
  rw [read, refusesData]
  by_cases hcap : maxEventBytes < (dataLabel ++ line).length
  · simp only [hcap, if_true, decide_true, Bool.true_or]
    rfl
  · by_cases hbuf : maxEventBytes < (b.dataBuf ++ line ++ [lf]).length
    · rw [if_pos hbuf] at hfield
      rw [line_of_error hline hcomment hfield]
      simp only [hcap, hbuf, if_true, if_false, decide_true, Bool.or_true]
      rfl
    · rw [if_neg hbuf] at hfield
      rw [line_of_ok hline hcomment hfield]
      simp only [hcap, hbuf, if_false, decide_false, Bool.or_self, Bool.false_eq_true]

theorem lineCalls_dataBuf (lines : List Bytes) :
    (b.lineCalls maxEventBytes (lines.map (dataLabel ++ ·))).2.dataBuf =
      afterData maxEventBytes b.dataBuf lines := by
  induction lines generalizing b with
  | nil => rfl
  | cons line lines ih =>
      rw [List.map_cons, lineCalls, afterData, ← read_dataBuf]
      exact ih

theorem lineCalls_dataBuf_of_ne (h : ∀ line ∈ lines, line ≠ [] ∧ (splitField line).1 ≠ dataField)
    (hb : b.dataBuf = []) : (b.lineCalls maxEventBytes lines).2.dataBuf = [] := by
  induction lines generalizing b with
  | nil => exact hb
  | cons line lines ih =>
      obtain ⟨hline, hfield⟩ := h line List.mem_cons_self
      exact ih (fun l hl => h l (List.mem_cons_of_mem line hl)) (read_dataBuf_of_ne hline hfield hb)

theorem lineCalls_blank :
    b.lineCalls maxEventBytes [[]] =
      if b.dataBuf = [] then ([], { b with typeBuf := [] })
      else ([(.ok ⟨b.idBuf, b.typeBuf, b.dataBuf.dropLast⟩, b.resetEventBuffers)],
        b.resetEventBuffers) := by
  have hread : b.read maxEventBytes [] = b.line maxEventBytes [] := if_neg (Nat.not_lt_zero _)
  by_cases hdata : b.dataBuf = []
  · simp only [lineCalls, lineCall, hread, Buffers.line, hdata, if_true]
    rfl
  · simp only [lineCalls, lineCall, hread, Buffers.line, hdata, if_true, if_false]
    rfl

theorem lineCalls_frameLines (hb : b.dataBuf = []) (ev : SSEEvent) :
    (b.lineCalls maxEventBytes (frameLines ev)).2.dataBuf = ev.leftover maxEventBytes := by
  rw [frameLines_eq, lineCalls_append, lineCalls_dataBuf, lineCalls_dataBuf_of_ne ev.headLines_fields hb]
  rfl

theorem lineCalls_frame (maxEventBytes : ℕ) (hb : b.dataBuf = []) (f : SentFrame) :
    (b.lineCalls maxEventBytes (Written.event f).lines).2.Idle ∧
      (okEvents (b.lineCalls maxEventBytes (Written.event f).lines).1).length =
        if f.event.leftover maxEventBytes = [] then 0 else 1 := by
  have hnone : okEvents (b.lineCalls maxEventBytes (frameLines f.event)).1 = [] :=
    okEvents_lineCalls fun line hl => ne_nil_of_mem_fields (w := .event f) hl
  rw [Written.lines, lineCalls_append, okEvents_append, hnone, List.nil_append, lineCalls_blank,
    lineCalls_frameLines hb]
  split
  · next hnil => exact ⟨⟨hnil, rfl⟩, rfl⟩
  · exact ⟨⟨rfl, rfl⟩, rfl⟩

theorem feed_dataBuf_of_ne (hline : line ≠ []) (hfield : (splitField line).1 ≠ dataField) :
    (b.feed line).2.dataBuf = b.dataBuf := by
  unfold feed
  rw [if_neg hline]
  split
  · rfl
  · exact applyField_dataBuf_of_ne hfield

theorem withinCap_fields (hfields : ∀ line ∈ lines, line ≠ [] ∧ (splitField line).1 ≠ dataField)
    (hlines : ∀ line ∈ lines, line.length ≤ maxEventBytes) (hb : b.dataBuf = []) :
    b.withinCap maxEventBytes lines = true ∧ (b.feedAll lines).2.dataBuf = [] := by
  induction lines generalizing b with
  | nil => exact ⟨rfl, hb⟩
  | cons line lines ih =>
      obtain ⟨hline, hfield⟩ := hfields line List.mem_cons_self
      have hbuf : (b.feed line).2.dataBuf = [] := (feed_dataBuf_of_ne hline hfield).trans hb
      obtain ⟨hrest, hlast⟩ := ih (fun l hl => hfields l (List.mem_cons_of_mem line hl))
        (fun l hl => hlines l (List.mem_cons_of_mem line hl)) hbuf
      refine ⟨?_, hlast⟩
      rw [withinCap, hbuf, hrest, Bool.and_true, Bool.and_eq_true, decide_eq_true_eq,
        decide_eq_true_eq]
      exact ⟨hlines line List.mem_cons_self, Nat.zero_le _⟩

theorem withinCap_data (hlines : ∀ line ∈ lines, (dataLabel ++ line).length ≤ maxEventBytes)
    (hdata : (b.dataBuf ++ printLines lines).length ≤ maxEventBytes) :
    b.withinCap maxEventBytes (lines.map (dataLabel ++ ·)) = true := by
  induction lines generalizing b with
  | nil => rfl
  | cons line lines ih =>
      rw [printLines_cons, ← List.append_assoc, ← List.append_assoc] at hdata
      have hrest := ih (b := { b with dataBuf := b.dataBuf ++ line ++ [lf] })
        (fun l hl => hlines l (List.mem_cons_of_mem line hl)) hdata
      have hbuf : (b.dataBuf ++ line ++ [lf]).length ≤ maxEventBytes := by
        rw [List.length_append] at hdata
        omega
      rw [List.map_cons, withinCap, feed_dataLine, hrest, Bool.and_true, Bool.and_eq_true,
        decide_eq_true_eq, decide_eq_true_eq]
      exact ⟨hlines line List.mem_cons_self, hbuf⟩

theorem withinCap_of_fits (hb : b.dataBuf = []) {ev : SSEEvent}
    (hfits : ev.fits maxEventBytes = true) :
    b.withinCap maxEventBytes (frameLines ev ++ [[]]) = true := by
  rw [SSEEvent.fits, Bool.and_eq_true, List.all_eq_true, decide_eq_true_eq, frameLines_eq] at hfits
  obtain ⟨hall, hdata⟩ := hfits
  have hlines : ∀ line ∈ ev.headLines ++ (dataLines ev.data).map (dataLabel ++ ·),
      line.length ≤ maxEventBytes := fun line hl => of_decide_eq_true (hall line hl)
  obtain ⟨hhead, hbuf⟩ := withinCap_fields ev.headLines_fields
    (fun l hl => hlines l (List.mem_append_left _ hl)) hb
  have hrest : ∀ b' : Buffers, b'.withinCap maxEventBytes [[]] = true := by
    intro b'
    have hbuf' : (b'.feed []).2.dataBuf = [] := by
      unfold feed
      rw [if_pos rfl]
      split
      · next hnil => exact hnil
      · rfl
    rw [withinCap, hbuf']
    rfl
  rw [frameLines_eq, withinCap_append, withinCap_append, hhead, hrest, Bool.true_and, Bool.and_true]
  apply withinCap_data
  · intro line hl
    exact hlines _ (List.mem_append_right _ (List.mem_map_of_mem hl))
  · rw [hbuf]
    exact hdata

end Buffers

namespace Buffers

variable {maxEventBytes : ℕ} {b : Buffers}

theorem okEvents_of_withinCap {lines : List Bytes} (h : b.withinCap maxEventBytes lines = true) :
    okEvents (b.lineCalls maxEventBytes lines).1 = (b.feedAll lines).1 := by
  have hcalls := congrArg okEvents (lineCalls_of_withinCap h).1
  simpa [okEvents, List.filterMap_map, Function.comp_def, Except.toOption] using hcalls

theorem okEvents_of_fits (hb : b.Idle) {f : SentFrame} (hid : f.id ≠ [])
    (hfits : f.event.fits maxEventBytes = true) :
    okEvents (b.lineCalls maxEventBytes (Written.event f).lines).1 = [f.event.received] := by
  have hcap : b.withinCap maxEventBytes (Written.event f).lines = true :=
    withinCap_of_fits hb.dataBuf hfits
  have hsent : ∀ g ∈ (Written.event f).sent, g.id ≠ [] := by
    intro g hg
    obtain rfl := Option.some.inj hg
    exact hid
  rw [okEvents_of_withinCap hcap, feedAll_lines_id hb _ hsent]
  rfl

theorem leftover_of_fits {f : SentFrame} (hid : f.id ≠ [])
    (hfits : f.event.fits maxEventBytes = true) : f.event.leftover maxEventBytes ≠ [] := by
  intro hnil
  have hlength := (lineCalls_frame maxEventBytes (b := .empty) rfl f).2
  rw [okEvents_of_fits ⟨rfl, rfl⟩ hid hfits, if_pos hnil] at hlength
  cases hlength

theorem length_okEvents (hb : b.dataBuf = []) (frames : List SentFrame) :
    (okEvents (b.lineCalls maxEventBytes (frames.flatMap fun f => (Written.event f).lines)).1).length =
      frames.countP fun f => f.event.leftover maxEventBytes ≠ [] := by
  induction frames generalizing b with
  | nil => rfl
  | cons f frames ih =>
      obtain ⟨hidle, hlength⟩ := lineCalls_frame maxEventBytes hb f
      rw [List.flatMap_cons, lineCalls_append, okEvents_append, List.length_append, hlength,
        ih hidle.dataBuf, List.countP_cons, Nat.add_comm]
      congr 1
      by_cases hnil : f.event.leftover maxEventBytes = []
      · simp [hnil]
      · simp [hnil]

theorem okEvents_frames (hb : b.Idle) {frames : List SentFrame} (hid : ∀ f ∈ frames, f.id ≠ [])
    (h : ∀ f ∈ frames, f.event.fits maxEventBytes = false → f.event.leftover maxEventBytes = []) :
    okEvents (b.lineCalls maxEventBytes (frames.flatMap fun f => (Written.event f).lines)).1 =
      (frames.filter fun f => f.event.fits maxEventBytes).map fun f => f.event.received := by
  induction frames generalizing b with
  | nil => rfl
  | cons f frames ih =>
      obtain ⟨hidle, hlength⟩ := lineCalls_frame maxEventBytes hb.dataBuf f
      rw [List.flatMap_cons, lineCalls_append, okEvents_append,
        ih hidle (fun g hg => hid g (List.mem_cons_of_mem f hg))
          fun g hg => h g (List.mem_cons_of_mem f hg)]
      cases hfits : f.event.fits maxEventBytes with
      | true =>
          rw [okEvents_of_fits hb (hid f List.mem_cons_self) hfits, List.filter_cons, if_pos hfits]
          rfl
      | false =>
          rw [if_pos (h f List.mem_cons_self hfits)] at hlength
          rw [List.eq_nil_of_length_eq_zero hlength, List.filter_cons, if_neg (by simp [hfits])]
          rfl

end Buffers

theorem okEvents_callsToEnd (frames : List SentFrame) :
    okEvents (callsToEnd maxEventBytes (newSSEParserWithCap (frames.flatMap SentFrame.frame) .eof)) =
      okEvents
        (Buffers.empty.lineCalls maxEventBytes (frames.flatMap fun f => (Written.event f).lines)).1 := by
  have hbytes : frames.flatMap SentFrame.frame = (frames.map Written.event).flatMap Written.bytes :=
    (List.flatMap_map Written.event Written.bytes frames).symm
  have hlines : (frames.map Written.event).flatMap Written.lines =
      frames.flatMap fun f => (Written.event f).lines :=
    List.flatMap_map Written.event Written.lines frames
  have hend : ∀ b : Buffers, okEvents (b.endCalls maxEventBytes []) = [] := by
    intro b
    simp [Buffers.endCalls, okEvents, Except.toOption]
  have hreturned : ∀ calls : List (Except ReadErr SSEEvent × SSEParser),
      okEvents (calls.map returned) = okEvents calls := fun calls => List.filterMap_map
  rw [hbytes, newSSEParser_cut List.prefix_rfl, ← hreturned, callsToEnd_eq, bodyLines_written,
    bodyTail_written, okEvents_append, hend, List.append_nil, hlines]

/-- A caller that ignores `ErrEventTooLarge` is returned exactly the events that fit, unless one
that does not fit has a last data line that is not refused. -/
theorem skipping_iff (maxEventBytes : ℕ) {frames : List SentFrame} (hid : ∀ f ∈ frames, f.id ≠ []) :
    okEvents (callsToEnd maxEventBytes
        (newSSEParserWithCap (frames.flatMap SentFrame.frame) .eof)) =
        ((frames.filter fun f => f.event.fits maxEventBytes).map fun f => f.event.received) ↔
      ∀ f ∈ frames, f.event.fits maxEventBytes = false →
        f.event.refusesLast maxEventBytes = true := by
  simp only [← SSEEvent.leftover_eq_nil]
  rw [okEvents_callsToEnd]
  constructor
  · intro heq f hf hfits
    have hlength := congrArg List.length heq
    rw [Buffers.length_okEvents rfl, List.length_map, ← List.countP_eq_length_filter] at hlength
    by_contra hne
    have hboth : frames.countP (fun g => g.event.fits maxEventBytes &&
        decide (g.event.leftover maxEventBytes ≠ [])) =
          frames.countP fun g => g.event.fits maxEventBytes := by
      refine List.countP_congr fun g hg => ?_
      rw [Bool.and_eq_true, decide_eq_true_eq, and_iff_left_iff_imp]
      exact Buffers.leftover_of_fits (hid g hg)
    have hall : ∀ g ∈ frames.filter fun g => g.event.leftover maxEventBytes ≠ [],
        g.event.fits maxEventBytes = true := by
      rw [← List.countP_eq_length, List.countP_filter, hboth, ← hlength,
        List.countP_eq_length_filter]
    rw [hall f (List.mem_filter.mpr ⟨hf, decide_eq_true hne⟩)] at hfits
    cases hfits
  · exact Buffers.okEvents_frames ⟨rfl, rfl⟩ hid

/-- An event with the data "aaaaaaaaaa" and, on a line of its own, "b". -/
def longFirstLine : SentFrame := ⟨0, ⟨[49], [], List.replicate 10 97 ++ [10, 98]⟩, rfl⟩

theorem skipping_iff_longFirstLine :
    (∀ f ∈ [longFirstLine], f.id ≠ []) ∧
      (okEvents (callsToEnd 12 (newSSEParserWithCap ([longFirstLine].flatMap SentFrame.frame) .eof)) =
          (([longFirstLine].filter fun f => f.event.fits 12).map fun f => f.event.received) ↔
        ∀ f ∈ [longFirstLine], f.event.fits 12 = false → f.event.refusesLast 12 = true) :=
  have hid : ∀ f ∈ [longFirstLine], f.id ≠ [] := by simp [longFirstLine, SentFrame.id]
  ⟨hid, skipping_iff 12 hid⟩

/-- With a cap of 12 the first line is refused, and the second one comes as an event. -/
theorem longFirstLine_returned :
    longFirstLine.event.fits 12 = false ∧
      okEvents (callsToEnd 12 (newSSEParserWithCap longFirstLine.frame .eof)) =
        [⟨[49], [], [98]⟩] := by
  decide

end Msgin.Http
