import Msgin.SseClient
import Msgin.SseWire

/-!
# What the client makes of a cut stream

From the first bytes of a stream the parser makes the events whose blank line it has read. The id of
an event precedes its data, so the id buffer may already be that of an event which is not dispatched.
-/

namespace Msgin.Http

/-- The event as the client makes it: every line break of the data is a LF. -/
def SSEEvent.received (ev : SSEEvent) : SSEEvent := ⟨ev.id, ev.name, replaceCR (replaceCRLF ev.data)⟩

/-- The id buffer after an event: an event without an id keeps the one before it. -/
def SSEEvent.idAfter (last : Bytes) (ev : SSEEvent) : Bytes := if ev.id ≠ [] then ev.id else last

namespace Buffers

variable {b : Buffers}

structure Idle (b : Buffers) : Prop where
  dataBuf : b.dataBuf = []
  typeBuf : b.typeBuf = []

theorem feed_idLine {id : Bytes} (h : nul ∉ id) :
    b.feed (idLabel ++ id) = (none, { b with idBuf := id }) := by
  have hfield : splitField (idLabel ++ id) = (idField, id) := rfl
  have happly : b.applyField (idLabel ++ id) = { b with idBuf := id } := by
    simp only [applyField, hfield]
    rw [if_neg (by decide), if_neg (by decide), if_pos trivial, if_neg h]
  rw [← happly]
  rfl

theorem feed_eventLine (name : Bytes) :
    b.feed (eventLabel ++ name) = (none, { b with typeBuf := name }) := rfl

theorem feed_dataLine (line : Bytes) :
    b.feed (dataLabel ++ line) = (none, { b with dataBuf := b.dataBuf ++ line ++ [lf] }) := rfl

theorem feedAll_append (l₁ l₂ : List Bytes) :
    b.feedAll (l₁ ++ l₂) =
      ((b.feedAll l₁).1 ++ ((b.feedAll l₁).2.feedAll l₂).1, ((b.feedAll l₁).2.feedAll l₂).2) := by
  induction l₁ generalizing b with
  | nil => rfl
  | cons line l₁ ih => rw [List.cons_append, feedAll, feedAll, ih, List.append_assoc]

theorem feedAll_dataLines (lines : List Bytes) :
    b.feedAll (lines.map (dataLabel ++ ·)) =
      ([], { b with dataBuf := b.dataBuf ++ printLines lines }) := by
  induction lines generalizing b with
  | nil => rw [printLines, List.flatMap_nil, List.append_nil]; rfl
  | cons line lines ih =>
      rw [List.map_cons, feedAll, feed_dataLine, ih, printLines_cons]
      simp only [List.append_assoc]
      rfl

theorem feedAll_frameLines (hb : b.Idle) (f : SentFrame) :
    b.feedAll (frameLines f.event) =
      ([], { b with
        dataBuf := printLines (dataLines f.event.data), typeBuf := f.event.name,
        idBuf := f.event.idAfter b.idBuf }) := by
  have hnul : nul ∉ f.event.id := (noBreak_of_validSSEField f.valid_fields.1).2
  have hid : b.feedAll (if f.event.id ≠ [] then [idLabel ++ f.event.id] else []) =
      ([], { b with idBuf := f.event.idAfter b.idBuf }) := by
    unfold SSEEvent.idAfter
    split
    · rw [feedAll, feed_idLine hnul]
      rfl
    · rfl
  rw [frameLines, feedAll_append, hid, feedAll_append]
  by_cases hname : f.event.name = []
  · rw [if_neg (not_not_intro hname), feedAll, feedAll_dataLines, hb.dataBuf, hname, hb.typeBuf]
    rfl
  · rw [if_pos hname, feedAll, feed_eventLine, feedAll, feedAll_dataLines, hb.dataBuf]
    rfl

end Buffers

theorem dropLast_printLines (line : Bytes) (lines : List Bytes) :
    (printLines (line :: lines)).dropLast = [lf].intercalate (line :: lines) := by
  induction lines generalizing line with
  | nil =>
      rw [printLines_cons, printLines, List.flatMap_nil, List.append_nil, List.dropLast_concat]
      simp
  | cons next lines ih =>
      have hne : printLines (next :: lines) ≠ [] := by simp [printLines_cons]
      rw [printLines_cons, List.dropLast_append_of_ne_nil hne, ih next,
        List.intercalate_cons_cons, List.append_assoc]

theorem dropLast_printLines_dataLines (data : Bytes) :
    (printLines (dataLines data)).dropLast = replaceCR (replaceCRLF data) := by
  cases hlines : dataLines data with
  | nil => exact absurd hlines (dataLines_ne_nil data)
  | cons line lines =>
      rw [dropLast_printLines, ← hlines]
      exact List.intercalate_splitOn lf

namespace Buffers

variable {b : Buffers}

theorem feedAll_lines (hb : b.Idle) (w : Written) :
    b.feedAll w.lines =
      (w.sent.toList.map fun f => { f.event.received with id := f.event.idAfter b.idBuf },
        { b with idBuf := (w.sent.map fun f => f.event.idAfter b.idBuf).getD b.idBuf }) := by
  obtain ⟨data, type, id, retry⟩ := b
  obtain ⟨rfl, rfl⟩ : data = [] ∧ type = [] := ⟨hb.dataBuf, hb.typeBuf⟩
  cases w with
  | event f =>
      have hdata : printLines (dataLines f.event.data) ≠ [] := by
        cases hlines : dataLines f.event.data with
        | nil => exact absurd hlines (dataLines_ne_nil _)
        | cons line lines => simp [printLines_cons]
      have hblank : ∀ b' : Buffers, b'.dataBuf ≠ [] →
          b'.feedAll [[]] = ([⟨b'.idBuf, b'.typeBuf, b'.dataBuf.dropLast⟩], b'.resetEventBuffers) := by
        intro b' hb'
        simp only [feedAll, feed, if_true, if_neg hb']
        rfl
      rw [Written.lines, feedAll_append, feedAll_frameLines hb, hblank _ hdata,
        dropLast_printLines_dataLines]
      rfl
  | heartbeat => rfl

theorem feedAll_lines_id (hb : b.Idle) (w : Written) (hid : ∀ f ∈ w.sent, f.id ≠ []) :
    b.feedAll w.lines =
      (w.sent.toList.map fun f => f.event.received,
        { b with idBuf := (w.sent.map SentFrame.id).getD b.idBuf }) := by
  rw [feedAll_lines hb]
  cases w with
  | event f =>
      have hown : f.event.idAfter b.idBuf = f.event.id := if_pos (hid f rfl)
      show ([{ f.event.received with id := f.event.idAfter b.idBuf }],
        { b with idBuf := f.event.idAfter b.idBuf }) = _
      rw [hown]
      rfl
  | heartbeat => rfl

theorem Idle.of_idBuf (hb : b.Idle) (id : Bytes) : Idle { b with idBuf := id } :=
  ⟨hb.dataBuf, hb.typeBuf⟩

theorem feedAll_written (hb : b.Idle) {written : List Written}
    (hid : ∀ f ∈ written.filterMap Written.sent, f.id ≠ []) :
    b.feedAll (written.flatMap Written.lines) =
      ((written.filterMap Written.sent).map fun f => f.event.received,
        { b with idBuf :=
            ((written.filterMap Written.sent).map SentFrame.id).getLast?.getD b.idBuf }) := by
  induction written generalizing b with
  | nil => rfl
  | cons w written ih =>
      have hw : ∀ f ∈ w.sent, f.id ≠ [] := fun f hf =>
        hid f (List.mem_filterMap.mpr ⟨w, List.mem_cons_self, hf⟩)
      have hrest : ∀ f ∈ written.filterMap Written.sent, f.id ≠ [] := fun f hf => by
        obtain ⟨v, hv, hsent⟩ := List.mem_filterMap.mp hf
        exact hid f (List.mem_filterMap.mpr ⟨v, List.mem_cons_of_mem w hv, hsent⟩)
      rw [List.flatMap_cons, feedAll_append, feedAll_lines_id hb w hw, ih (hb.of_idBuf _) hrest]
      cases w with
      | event f =>
          have hsent : (Written.event f :: written).filterMap Written.sent =
              f :: written.filterMap Written.sent := rfl
          rw [hsent, List.map_cons, List.map_cons, List.getLast?_cons]
          rfl
      | heartbeat => rfl

end Buffers

def Written.fields : Written → List Bytes
  | .event f => frameLines f.event
  | .heartbeat => [[58, 32, 112, 105, 110, 103]]

theorem Written.lines_eq (w : Written) : w.lines = w.fields ++ [[]] := by
  cases w <;> rfl

theorem ne_nil_of_mem_fields {w : Written} {line : Bytes} (h : line ∈ w.fields) : line ≠ [] := by
  cases w with
  | event f =>
      rcases List.mem_append.mp h with h | h
      · split at h
        · rw [List.mem_singleton.mp h]
          exact List.cons_ne_nil _ _
        · cases h
      · rcases List.mem_append.mp h with h | h
        · split at h
          · rw [List.mem_singleton.mp h]
            exact List.cons_ne_nil _ _
          · cases h
        · obtain ⟨data, -, rfl⟩ := List.mem_map.mp h
          exact List.cons_ne_nil _ _
  | heartbeat =>
      rw [List.mem_singleton.mp h]
      exact List.cons_ne_nil _ _

theorem filterMap_idOf_fields (w : Written) (hid : ∀ f ∈ w.sent, f.id ≠ []) :
    w.fields.filterMap idOf = w.sent.toList.map SentFrame.id := by
  cases w with
  | event f =>
      have hid' : f.event.id ≠ [] := hid f rfl
      have hnul : nul ∉ f.event.id := (noBreak_of_validSSEField f.valid_fields.1).2
      have hfirst : idOf (idLabel ++ f.event.id) = some f.event.id := if_pos ⟨rfl, hnul⟩
      have hname : (if f.event.name ≠ [] then [eventLabel ++ f.event.name] else []).filterMap idOf =
          [] := by
        split
        · rfl
        · rfl
      have hdata : ((dataLines f.event.data).map (dataLabel ++ ·)).filterMap idOf = [] := by
        rw [List.filterMap_map]
        exact List.filterMap_eq_nil_iff.mpr fun _ _ => rfl
      rw [Written.fields, frameLines, if_pos hid', List.singleton_append,
        List.filterMap_cons_some hfirst, List.filterMap_append, hname, hdata]
      rfl
  | heartbeat => rfl

namespace Buffers

variable {b : Buffers}

theorem feedAll_eq_nil {lines : List Bytes} (h : ∀ line ∈ lines, line ≠ []) :
    (b.feedAll lines).1 = [] := by
  induction lines generalizing b with
  | nil => rfl
  | cons line lines ih =>
      have hline : (b.feed line).1 = none := by
        simp only [feed, if_neg (h line List.mem_cons_self)]
        split
        · rfl
        · rfl
      rw [feedAll, hline, ih fun l hl => h l (List.mem_cons_of_mem line hl)]
      rfl

theorem feedAll_part {w : Written} (hid : ∀ f ∈ w.sent, f.id ≠ []) {part : List Bytes}
    (hpre : part <+: w.lines) (hne : part ≠ w.lines) :
    (b.feedAll part).1 = [] ∧
      ((b.feedAll part).2.idBuf = b.idBuf ∨
        ∃ f, w = .event f ∧ part ≠ [] ∧ (b.feedAll part).2.idBuf = f.id) := by
  have hfields : part <+: w.fields := by
    rw [w.lines_eq] at hpre hne
    exact (List.prefix_concat_iff.mp hpre).resolve_left hne
  have hids := hfields.filterMap idOf
  rw [filterMap_idOf_fields w hid] at hids
  refine ⟨feedAll_eq_nil fun line hl => ne_nil_of_mem_fields (hfields.subset hl), ?_⟩
  rw [feedAll_id]
  cases w with
  | event f =>
      cases hpart : part.filterMap idOf with
      | nil => exact .inl rfl
      | cons id ids =>
          rw [hpart] at hids
          obtain ⟨rfl, hnil⟩ := List.cons_prefix_cons.mp hids
          obtain rfl := List.prefix_nil.mp hnil
          refine .inr ⟨f, rfl, ?_, rfl⟩
          rintro rfl
          cases hpart
  | heartbeat =>
      rw [List.prefix_nil.mp hids]
      exact .inl rfl

end Buffers

theorem idLine_starts {f : SentFrame} (hid : f.id ≠ []) : idLabel ++ f.id <+: f.frame := by
  have hset : f.event.id ≠ [] := hid
  rw [SentFrame.frame, frameBytes_eq, frameLines, if_pos hset, List.singleton_append,
    List.cons_append, printLines_cons, List.append_assoc]
  exact List.prefix_append _ _

/-- A part of a frame that has a line is longer than the id line without its end. -/
theorem idLine_lt {f : SentFrame} (hid : f.id ≠ []) {part : Bytes} (hpart : part <+: f.frame)
    (hne : bodyLines part ≠ []) : (idLabel ++ f.id).length < part.length := by
  by_contra hle
  have hpre := List.prefix_of_prefix_length_le hpart (idLine_starts hid) (Nat.le_of_not_lt hle)
  have hline : NoBreak (idLabel ++ f.id) :=
    .label (by decide) (noBreak_of_validSSEField f.valid_fields.1).1
  apply hne
  rw [bodyLines_eq, cutLine_eq_none (hline.of_prefix hpre)]
  rfl

/-- The position is the id of the last event that is whole in the first `n` bytes, or that of the
next one, where its id line is. -/
def CutPosition (written : List Written) (n : ℕ) (position : Bytes) : Prop :=
  position = (((wholeWrites written n).1.filterMap Written.sent).map SentFrame.id).getLast?.getD [] ∨
    ∃ f, (wholeWrites written n).1 ++ [.event f] <+: written ∧
      (idLabel ++ f.id).length < (wholeWrites written n).2 ∧ position = f.id

/-- What the client makes of the first bytes of a stream. -/
theorem feedAll_cut {written : List Written} {body : Bytes}
    (hid : ∀ f ∈ written.filterMap Written.sent, f.id ≠ [])
    (h : body <+: written.flatMap Written.bytes) :
    (Buffers.empty.feedAll (bodyLines body)).1 =
        (((wholeWrites written body.length).1.filterMap Written.sent).map
          fun f => f.event.received) ∧
      CutPosition written body.length (Buffers.empty.feedAll (bodyLines body)).2.idBuf := by
  obtain ⟨part, hlines, hlength, hwhole, hpart⟩ := bodyLines_cut h
  have hidle : Buffers.empty.Idle := ⟨rfl, rfl⟩
  have hids : ∀ f ∈ (wholeWrites written body.length).1.filterMap Written.sent, f.id ≠ [] :=
    fun f hf => hid f ((hwhole.filterMap Written.sent).subset hf)
  rw [hlines, Buffers.feedAll_append, Buffers.feedAll_written hidle hids]
  rcases hpart with rfl | ⟨w, hw, hbytes, hpre, hne⟩
  · exact ⟨List.append_nil _, .inl rfl⟩
  · have hwid : ∀ f ∈ w.sent, f.id ≠ [] := fun f hf =>
      hid f (List.mem_filterMap.mpr ⟨w, hw.subset (by simp), hf⟩)
    obtain ⟨hnone, hbuf | ⟨f, rfl, hsome, hbuf⟩⟩ := Buffers.feedAll_part hwid hpre hne
    · exact ⟨by rw [hnone, List.append_nil], .inl hbuf⟩
    · refine ⟨by rw [hnone, List.append_nil], .inr ⟨f, hw, ?_, hbuf⟩⟩
      rw [← hlength]
      exact idLine_lt (hwid f rfl) hbytes hsome

end Msgin.Http
