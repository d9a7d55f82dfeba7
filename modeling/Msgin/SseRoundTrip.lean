import Msgin.SseCalls
import Msgin.SseReading

/-!
# Encoding and parsing events

What `EncodeSSEEvent` writes, with heartbeats in between, is parsed into the events it was made of.
The names and ids of the events that are returned are those of the events written, whatever bytes
their data holds.
-/

namespace Msgin.Http

/-- The ids that events are returned with: an event without an id has the last id before it. -/
def carriedIDs (last : Bytes) : List SSEEvent → List Bytes
  | [] => []
  | ev :: evs => ev.idAfter last :: carriedIDs (ev.idAfter last) evs

def writtenEvents (written : List Written) : List SSEEvent :=
  (written.filterMap Written.sent).map SentFrame.event

variable (written : List Written)

theorem flatMap_bytes :
    written.flatMap Written.bytes = printLines (written.flatMap Written.lines) := by
  rw [printLines, List.flatMap_assoc]
  exact congrArg (written.flatMap ·) (funext Written.bytes_eq)

theorem bodyTail_printLines {lines : List Bytes} (h : ∀ line ∈ lines, NoBreak line) (rest : Bytes) :
    bodyTail (printLines lines ++ rest) = bodyTail rest := by
  induction lines with
  | nil => rfl
  | cons line lines ih =>
      have hcut : printLines (line :: lines) ++ rest = line ++ lf :: (printLines lines ++ rest) := by
        simp [printLines]
      rw [hcut, bodyTail_of_cutLine (cutLine_append (h line List.mem_cons_self) _)]
      exact ih fun l hl => h l (List.mem_cons_of_mem line hl)

theorem noBreak_written : ∀ line ∈ written.flatMap Written.lines, NoBreak line := by
  intro line hline
  obtain ⟨w, -, hw⟩ := List.mem_flatMap.mp hline
  exact w.noBreak line hw

theorem bodyLines_written :
    bodyLines (written.flatMap Written.bytes) = written.flatMap Written.lines := by
  have hlines := bodyLines_printLines (noBreak_written written) []
  rw [List.append_nil, ← flatMap_bytes] at hlines
  exact hlines.trans (List.append_nil _)

theorem bodyTail_written : bodyTail (written.flatMap Written.bytes) = [] := by
  have htail := bodyTail_printLines (noBreak_written written) []
  rwa [List.append_nil, ← flatMap_bytes] at htail

namespace Buffers

theorem exists_withinCap (b : Buffers) (lines : List Bytes) :
    ∃ least, ∀ maxEventBytes, least ≤ maxEventBytes → b.withinCap maxEventBytes lines = true := by
  induction lines generalizing b with
  | nil => exact ⟨0, fun _ _ => rfl⟩
  | cons line lines ih =>
      obtain ⟨least, hleast⟩ := ih (b.feed line).2
      refine ⟨line.length + (b.feed line).2.dataBuf.length + least, fun cap hcap => ?_⟩
      rw [withinCap, hleast cap (by omega), Bool.and_true, Bool.and_eq_true, decide_eq_true_eq,
        decide_eq_true_eq]
      omega

theorem endCalls_of_idle {b : Buffers} (hb : b.Idle) {maxEventBytes : ℕ} :
    b.endCalls maxEventBytes [] = [(.error .eof, b)] := by
  have hfailed : b.readFailed .eof = (.eof, b) :=
    if_neg (not_or.mpr ⟨not_not_intro hb.dataBuf, not_not_intro hb.typeBuf⟩)
  simp [endCalls, hfailed]

structure Dispatches (b : Buffers) (written : List Written) (evs : List SSEEvent) : Prop where
  names : evs.map SSEEvent.name = (writtenEvents written).map SSEEvent.name
  data : evs.map SSEEvent.data = (writtenEvents written).map fun ev => replaceCR (replaceCRLF ev.data)
  ids : evs.map SSEEvent.id = carriedIDs b.idBuf (writtenEvents written)

theorem dispatches_written {b : Buffers} (hb : b.Idle) (written : List Written) :
    b.Dispatches written (b.feedAll (written.flatMap Written.lines)).1 ∧
      (b.feedAll (written.flatMap Written.lines)).2.Idle := by
  induction written generalizing b with
  | nil => exact ⟨⟨rfl, rfl, rfl⟩, hb⟩
  | cons w written ih =>
      rw [List.flatMap_cons, feedAll_append, feedAll_lines hb w]
      cases w with
      | event f =>
          obtain ⟨⟨hnames, hdata, hids⟩, hidle⟩ := ih (hb.of_idBuf (f.event.idAfter b.idBuf))
          exact ⟨⟨congrArg (f.event.name :: ·) hnames,
            congrArg (replaceCR (replaceCRLF f.event.data) :: ·) hdata,
            congrArg (f.event.idAfter b.idBuf :: ·) hids⟩, hidle⟩
      | heartbeat =>
          obtain ⟨⟨hnames, hdata, hids⟩, hidle⟩ := ih (hb.of_idBuf b.idBuf)
          exact ⟨⟨hnames, hdata, hids⟩, hidle⟩

end Buffers

/-- The parser returns one event for each that was written, in order, with its name, its data after
every CRLF and CR is replaced by LF, and its id or the last id before it; then it returns EOF. -/
theorem parse_written (written : List Written) :
    ∃ least, ∀ maxEventBytes, least ≤ maxEventBytes → ∃ evs,
      (callsToEnd maxEventBytes
          (newSSEParserWithCap (written.flatMap Written.bytes) .eof)).map Prod.fst =
        evs.map .ok ++ [.error .eof] ∧
      Buffers.empty.Dispatches written evs := by
  obtain ⟨least, hleast⟩ := Buffers.empty.exists_withinCap (written.flatMap Written.lines)
  refine ⟨least, fun cap hcap => ?_⟩
  obtain ⟨hdispatches, hidle⟩ := Buffers.dispatches_written (b := .empty) ⟨rfl, rfl⟩ written
  obtain ⟨hcalls, hbufs⟩ := Buffers.lineCalls_of_withinCap (hleast cap hcap)
  have hevents : ((Buffers.empty.lineCalls cap (written.flatMap Written.lines)).1.map Prod.fst) =
      (Buffers.empty.feedAll (written.flatMap Written.lines)).1.map .ok := by
    have hfirst := congrArg (List.map Prod.fst) hcalls
    rwa [List.map_map, List.map_map] at hfirst
  refine ⟨_, ?_, hdispatches⟩
  calc (callsToEnd cap (newSSEParserWithCap (written.flatMap Written.bytes) .eof)).map Prod.fst
      = ((callsToEnd cap ⟨written.flatMap Written.bytes, .eof, .empty⟩).map returned).map Prod.fst := by
        rw [newSSEParser_cut List.prefix_rfl, List.map_map]
        rfl
    _ = (Buffers.empty.feedAll (written.flatMap Written.lines)).1.map .ok ++ [.error .eof] := by
        rw [callsToEnd_eq, bodyLines_written, bodyTail_written, List.map_append, hevents, hbufs,
          Buffers.endCalls_of_idle hidle]
        rfl

end Msgin.Http
