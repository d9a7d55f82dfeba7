import Msgin.EventStream
import Msgin.SseCalls
import Msgin.SseCut

/-!
# The parser conforms to the event stream format

The buffers of the parser hold what the lines of the block in progress amount to, and those before
it: the data buffer its data fields, the type buffer its last event field, the id buffer the last id
of all lines so far. Within the cap the calls of `Next` therefore return the events of the stream.
-/

namespace Msgin.Http.EventStream

theorem field_eq {line : Bytes} (hline : line ≠ []) :
    field line = if line.head? = some colon then none else some (splitField line) := by
  have htake : line.takeWhile (· ≠ colon) = line.take (line.findIdx (· = colon)) := by
    rw [List.takeWhile_eq_take_findIdx_not]
    simp
  have hdrop : line.dropWhile (· ≠ colon) = line.drop (line.findIdx (· = colon)) := by
    rw [List.dropWhile_eq_drop_findIdx_not]
    simp
  rw [splitField, htake, hdrop, List.tail_drop]
  unfold field
  cases hidx : line.findIdx? (· = colon) with
  | none =>
      have hlength := List.findIdx?_eq_none_iff_findIdx_eq.mp hidx
      have hhead : line.head? ≠ some colon := by
        intro hhead
        have hno := List.findIdx?_eq_none_iff.mp hidx colon (List.mem_of_mem_head? hhead)
        simp at hno
      rw [if_neg hhead, hlength, List.take_length, List.drop_eq_nil_of_le (Nat.le_succ _)]
      rfl
  | some n =>
      obtain ⟨hlt, hfind⟩ := List.findIdx?_eq_some_iff_findIdx_eq.mp hidx
      rw [hfind]
      obtain ⟨b, rest, rfl⟩ := List.exists_cons_of_ne_nil hline
      cases n with
      | zero =>
          have hb : b = colon := by
            by_contra hb
            simp [List.findIdx_cons, hb] at hfind
          rw [List.head?_cons, hb, if_pos rfl]
      | succ n =>
          have hb : (b :: rest).head? ≠ some colon := by
            intro hhead
            obtain rfl := Option.some.inj hhead
            simp [List.findIdx_cons] at hfind
          rw [if_neg hb]
          rfl

theorem ofDigits_eq (value : Bytes) :
    Nat.ofDigits 10 (value.reverse.map fun b => b.toNat - 48) =
      value.foldl (fun n b => 10 * n + (b.toNat - 48)) 0 := by
  rw [Nat.ofDigits_eq_foldr, List.foldr_map, List.foldr_reverse]
  congr 1
  funext n b
  exact Nat.add_comm _ _

/-- Every retry value fits an int64 of nanoseconds. -/
def RetriesFit (lines : List Bytes) : Prop :=
  ∀ line ∈ lines, ∀ ms ∈ retryValue line, ms * 1000000 ≤ 9223372036854775807

instance (lines : List Bytes) : Decidable (RetriesFit lines) :=
  inferInstanceAs (Decidable (∀ line ∈ lines, ∀ ms ∈ retryValue line, _))

theorem millis_eq {ms : ℕ} (h : ms * 1000000 ≤ 9223372036854775807) : millis ms = ms * 1000000 := by
  have hle : (ms : ℤ) * 1000000 ≤ 9223372036854775807 := by omega
  unfold millis
  apply Int.bmod_eq_of_le
  · omega
  · omega

theorem parseRetryMillis_of_digits {value : Bytes} (hvalid : value ≠ [] ∧ value.all isDigit = true)
    (hle : value.foldl (fun n b => 10 * n + (b.toNat - 48)) 0 ≤ 9223372036854775807) :
    parseRetryMillis value = some (value.foldl (fun n b => 10 * n + (b.toNat - 48)) 0) := by
  have hdigits : ¬(!value.all isDigit) = true := by simp [hvalid.2]
  simp only [parseRetryMillis, if_neg hvalid.1, if_neg hdigits, if_pos hle]

theorem parseRetryMillis_of_not {value : Bytes} (hvalid : ¬(value ≠ [] ∧ value.all isDigit = true)) :
    parseRetryMillis value = none := by
  by_cases hnil : value = []
  · exact if_pos hnil
  · have hdigits : (!value.all isDigit) = true := by
      have hall : ¬value.all isDigit = true := fun h => hvalid ⟨hnil, h⟩
      simpa using hall
    rw [parseRetryMillis, if_neg hnil, if_pos hdigits]

structure Fed (b : Buffers) (line : Bytes) (b' : Buffers) : Prop where
  dataBuf : b'.dataBuf = b.dataBuf ++ printLines (valueOf dataField line).toList
  typeBuf : b'.typeBuf = (valueOf eventField line).getD b.typeBuf
  idBuf : b'.idBuf = (idValue line).getD b.idBuf
  retry : b'.retry = ((retryValue line).map fun ms => (ms : ℤ) * 1000000).or b.retry

theorem valueOf_eq {line : Bytes} (hline : line ≠ []) (hcomment : line.head? ≠ some colon)
    (name : Bytes) :
    valueOf name line = if (splitField line).1 = name then some (splitField line).2 else none := by
  rw [valueOf, field_eq hline, if_neg hcomment]
  rfl

section Fields

variable {b : Buffers} {line value : Bytes}

theorem fed_data
    (hvalue : ∀ name, valueOf name line = if dataField = name then some value else none) :
    Fed b line { b with dataBuf := b.dataBuf ++ value ++ [lf] } := by
  constructor
  · simp [hvalue, printLines]
  · simp [hvalue, dataField, eventField]
  · simp [idValue, hvalue, dataField, idField]
  · simp [retryValue, hvalue, dataField, retryField]

theorem fed_event
    (hvalue : ∀ name, valueOf name line = if eventField = name then some value else none) :
    Fed b line { b with typeBuf := value } := by
  constructor
  · simp [hvalue, printLines, dataField, eventField]
  · simp [hvalue]
  · simp [idValue, hvalue, eventField, idField]
  · simp [retryValue, hvalue, eventField, retryField]

theorem fed_id (hvalue : ∀ name, valueOf name line = if idField = name then some value else none) :
    Fed b line (if nul ∈ value then b else { b with idBuf := value }) := by
  constructor
  · split <;> simp [hvalue, printLines, dataField, idField]
  · split <;> simp [hvalue, eventField, idField]
  · split
    · next hnul => simp [idValue, hvalue, Option.filter, hnul]
    · next hnul => simp [idValue, hvalue, Option.filter, hnul]
  · split <;> simp [retryValue, hvalue, retryField, idField]

theorem fed_retry
    (hvalue : ∀ name, valueOf name line = if retryField = name then some value else none)
    (hfit : ∀ ms, retryValue line = some ms → ms * 1000000 ≤ 9223372036854775807) :
    Fed b line ((parseRetryMillis value).elim b fun ms => { b with retry := some (millis ms) }) := by
  have hretry : retryValue line =
      if value ≠ [] ∧ value.all isDigit = true then
        some (value.foldl (fun n b => 10 * n + (b.toNat - 48)) 0)
      else none := by
    rw [retryValue, hvalue, if_pos rfl, Option.bind_some, ofDigits_eq]
  have hdelay : (parseRetryMillis value).map millis = (retryValue line).map fun ms => (ms : ℤ) * 1000000 := by
    by_cases hvalid : value ≠ [] ∧ value.all isDigit = true
    · rw [if_pos hvalid] at hretry
      have hms := hfit _ hretry
      rw [hretry, parseRetryMillis_of_digits hvalid (by omega), Option.map_some, millis_eq hms]
      rfl
    · rw [hretry, if_neg hvalid, parseRetryMillis_of_not hvalid]
      rfl
  have hother : ∀ ms : Option ℕ, ((ms.elim b fun ms => { b with retry := some (millis ms) } : Buffers)) =
      { b with retry := (ms.map millis).or b.retry } := by
    intro ms
    cases ms <;> rfl
  rw [hother, hdelay]
  constructor
  · simp [hvalue, printLines, dataField, retryField]
  · simp [hvalue, eventField, retryField]
  · simp [idValue, hvalue, idField, retryField]
  · rfl

theorem fed_other (hdata : valueOf dataField line = none) (hevent : valueOf eventField line = none)
    (hid : valueOf idField line = none) (hretry : valueOf retryField line = none) : Fed b line b := by
  constructor
  · simp [hdata, printLines]
  · simp [hevent]
  · simp [idValue, hid]
  · simp [retryValue, hretry]

theorem fed_feed (hline : line ≠ [])
    (hfit : ∀ ms, retryValue line = some ms → ms * 1000000 ≤ 9223372036854775807) :
    (b.feed line).1 = none ∧ Fed b line (b.feed line).2 := by
  by_cases hcomment : line.head? = some colon
  · have hnone : ∀ name, valueOf name line = none := fun name => by
      rw [valueOf, field_eq hline, if_pos hcomment]
      rfl
    rw [Buffers.feed, if_neg hline, if_pos hcomment]
    exact ⟨rfl, fed_other (hnone _) (hnone _) (hnone _) (hnone _)⟩
  · have hvalue := valueOf_eq hline hcomment
    rw [Buffers.feed, if_neg hline, if_neg hcomment]
    refine ⟨rfl, ?_⟩
    unfold Buffers.applyField
    dsimp only
    split
    · next hdata => exact fed_data fun name => hdata ▸ hvalue name
    · next hdata =>
        split
        · next hevent => exact fed_event fun name => hevent ▸ hvalue name
        · next hevent =>
            split
            · next hid => exact fed_id fun name => hid ▸ hvalue name
            · next hid =>
                split
                · next hretry => exact fed_retry (fun name => hretry ▸ hvalue name) hfit
                · next hretry =>
                    exact fed_other ((hvalue _).trans (if_neg hdata)) ((hvalue _).trans (if_neg hevent))
                      ((hvalue _).trans (if_neg hid)) ((hvalue _).trans (if_neg hretry))

end Fields

/-- The blocks of the lines that are left, where these lines of the first block are read. -/
def blocksFrom (block lines : List Bytes) : List (List Bytes) :=
  (lines.splitOn []).modifyHead (block ++ ·)

theorem blocksFrom_nil (block : List Bytes) : blocksFrom block [] = [block] := by
  simp [blocksFrom, List.splitOn, List.splitOnP_nil]

theorem blocksFrom_blank (block lines : List Bytes) :
    blocksFrom block ([] :: lines) = block :: blocksFrom [] lines := by
  have hnil : ([] ++ · : List Bytes → List Bytes) = id := funext List.nil_append
  rw [blocksFrom, blocksFrom, List.splitOn, List.splitOnP_cons_eq_if_modifyHead,
    if_pos (beq_self_eq_true _), hnil]
  simp [List.splitOn]

theorem blocksFrom_cons {line : Bytes} (hline : line ≠ []) (block lines : List Bytes) :
    blocksFrom block (line :: lines) = blocksFrom (block ++ [line]) lines := by
  rw [blocksFrom, blocksFrom, List.splitOn, List.splitOnP_cons_eq_if_modifyHead,
    if_neg (by simpa using hline), List.modifyHead_modifyHead]
  congr 1
  funext l
  simp

theorem exists_blocksFrom (block lines : List Bytes) :
    ∃ more blocks, blocksFrom block lines = (block ++ more) :: blocks := by
  rw [blocksFrom, List.splitOn]
  cases hsplit : lines.splitOnP (· == []) with
  | nil => exact absurd hsplit (List.splitOnP_ne_nil _ _)
  | cons first rest => exact ⟨first, rest, rfl⟩

theorem blocksFrom_ne_nil (block lines : List Bytes) : blocksFrom block lines ≠ [] := by
  obtain ⟨more, blocks, heq⟩ := exists_blocksFrom block lines
  rw [heq]
  exact List.cons_ne_nil _ _

/-- The buffers hold what these lines of the block in progress amount to, and those before it. -/
structure Holds (earlier block : List Bytes) (b : Buffers) : Prop where
  dataBuf : b.dataBuf = printLines (dataValues block)
  typeBuf : b.typeBuf = eventType block
  idBuf : b.idBuf = lastEventID (earlier ++ block)
  retry : b.retry = (reconnectionTime (earlier ++ block)).map fun ms => (ms : ℤ) * 1000000

theorem holds_empty : Holds [] [] .empty := ⟨rfl, rfl, rfl, rfl⟩

theorem getLast?_filterMap_concat {α β : Type} (f : α → Option β) (l : List α) (a : α) :
    ((l ++ [a]).filterMap f).getLast? = (f a).or (l.filterMap f).getLast? := by
  rw [List.filterMap_append, List.getLast?_append]
  cases h : f a with
  | none => rw [List.filterMap_cons_none h]; rfl
  | some x => rw [List.filterMap_cons_some h]; rfl

theorem printLines_append (l₁ l₂ : List Bytes) :
    printLines (l₁ ++ l₂) = printLines l₁ ++ printLines l₂ := List.flatMap_append

variable {earlier block : List Bytes} {b : Buffers} {line : Bytes}

theorem Holds.feed (h : Holds earlier block b) (hline : line ≠ [])
    (hfit : ∀ ms, retryValue line = some ms → ms * 1000000 ≤ 9223372036854775807) :
    (b.feed line).1 = none ∧ Holds earlier (block ++ [line]) (b.feed line).2 := by
  obtain ⟨hnone, hfed⟩ := fed_feed (b := b) hline hfit
  refine ⟨hnone, ?_, ?_, ?_, ?_⟩
  · rw [hfed.dataBuf, h.dataBuf, dataValues, dataValues, List.filterMap_append, printLines_append]
    cases hv : valueOf dataField line <;> simp [hv]
  · rw [hfed.typeBuf, h.typeBuf, eventType, eventType, getLast?_filterMap_concat]
    cases valueOf eventField line <;> rfl
  · rw [hfed.idBuf, h.idBuf, lastEventID, lastEventID, ← List.append_assoc, getLast?_filterMap_concat]
    cases idValue line <;> rfl
  · rw [hfed.retry, h.retry, reconnectionTime, reconnectionTime, ← List.append_assoc,
      getLast?_filterMap_concat]
    cases retryValue line <;> rfl

theorem Holds.blank (h : Holds earlier block b) :
    (b.feed []).1 = dispatch earlier block ∧ Holds (earlier ++ block) [] (b.feed []).2 := by
  have hid : b.idBuf = lastEventID (earlier ++ block ++ []) := by rw [List.append_nil, h.idBuf]
  have hretry : b.retry = (reconnectionTime (earlier ++ block ++ [])).map
      fun ms => (ms : ℤ) * 1000000 := by
    rw [List.append_nil, h.retry]
  cases hvalues : dataValues block with
  | nil =>
      have hdata : b.dataBuf = [] := by
        rw [h.dataBuf, hvalues]
        rfl
      have hfeed : b.feed [] = (none, { b with typeBuf := [] }) := by
        rw [Buffers.feed, if_pos rfl, if_pos hdata]
      rw [hfeed, dispatch, if_pos hvalues]
      exact ⟨rfl, hdata, rfl, hid, hretry⟩
  | cons value values =>
      have hdata : b.dataBuf ≠ [] := by
        rw [h.dataBuf, hvalues, printLines_cons]
        simp
      have hfeed : b.feed [] =
          (some ⟨b.idBuf, b.typeBuf, b.dataBuf.dropLast⟩, b.resetEventBuffers) := by
        rw [Buffers.feed, if_pos rfl, if_neg hdata]
      rw [hfeed, dispatch, if_neg (by simp [hvalues]), h.idBuf, h.typeBuf, h.dataBuf, hvalues,
        dropLast_printLines]
      exact ⟨rfl, rfl, rfl, hid, hretry⟩

variable {lines : List Bytes} {maxEventBytes : ℕ}

theorem Holds.feedAll (h : Holds earlier block b) (hfit : RetriesFit lines) :
    (b.feedAll lines).1 = interpret earlier (blocksFrom block lines).dropLast ∧
      ∃ before last, (blocksFrom block lines).getLast? = some last ∧
        before ++ last = earlier ++ block ++ lines.filter (· ≠ []) ∧
        Holds before last (b.feedAll lines).2 := by
  induction lines generalizing earlier block b with
  | nil =>
      rw [blocksFrom_nil]
      exact ⟨rfl, earlier, block, rfl, (List.append_nil _).symm, h⟩
  | cons line lines ih =>
      have hrest : RetriesFit lines := fun l hl => hfit l (List.mem_cons_of_mem line hl)
      by_cases hline : line = []
      · subst hline
        obtain ⟨hevent, hholds⟩ := h.blank
        obtain ⟨hevents, before, last, hlast, hsame, hfinal⟩ := ih hholds hrest
        rw [blocksFrom_blank, List.dropLast_cons_of_ne_nil (blocksFrom_ne_nil [] lines), interpret,
          Buffers.feedAll, hevent, hevents]
        refine ⟨rfl, before, last, ?_, ?_, hfinal⟩
        · rw [List.getLast?_cons, hlast]
          rfl
        · rw [hsame, List.append_nil, List.filter_cons_of_neg (by simp)]
      · obtain ⟨hnone, hholds⟩ := h.feed hline (hfit line List.mem_cons_self)
        obtain ⟨hevents, before, last, hlast, hsame, hfinal⟩ := ih hholds hrest
        rw [blocksFrom_cons hline, Buffers.feedAll, hnone, hevents]
        refine ⟨rfl, before, last, hlast, ?_, hfinal⟩
        rw [hsame, List.filter_cons_of_pos (by simpa using hline)]
        simp

theorem Holds.withinCap (h : Holds earlier block b) (hfit : RetriesFit lines)
    (hlines : ∀ line ∈ lines, line.length ≤ maxEventBytes)
    (hblocks : ∀ bl ∈ blocksFrom block lines, (printLines (dataValues bl)).length ≤ maxEventBytes) :
    b.withinCap maxEventBytes lines = true := by
  induction lines generalizing earlier block b with
  | nil => rfl
  | cons line lines ih =>
      have hrest : RetriesFit lines := fun l hl => hfit l (List.mem_cons_of_mem line hl)
      have hshort : ∀ l ∈ lines, l.length ≤ maxEventBytes := fun l hl =>
        hlines l (List.mem_cons_of_mem line hl)
      rw [Buffers.withinCap, Bool.and_eq_true, Bool.and_eq_true, decide_eq_true_eq,
        decide_eq_true_eq]
      by_cases hline : line = []
      · subst hline
        rw [blocksFrom_blank] at hblocks
        have hholds := h.blank.2
        refine ⟨⟨Nat.zero_le _, ?_⟩, ih hholds hrest hshort fun bl hbl =>
          hblocks bl (List.mem_cons_of_mem block hbl)⟩
        rw [hholds.dataBuf]
        exact Nat.zero_le _
      · rw [blocksFrom_cons hline] at hblocks
        have hholds := (h.feed hline (hfit line List.mem_cons_self)).2
        refine ⟨⟨hlines line List.mem_cons_self, ?_⟩, ih hholds hrest hshort hblocks⟩
        -- The data so far is a first part of that of the whole block.
        obtain ⟨more, blocks, heq⟩ := exists_blocksFrom (block ++ [line]) lines
        have hfirst := hblocks (block ++ [line] ++ more) (by rw [heq]; exact List.mem_cons_self)
        rw [dataValues, List.filterMap_append, printLines_append, List.length_append] at hfirst
        rw [hholds.dataBuf, dataValues]
        omega

/-- No line exceeds the cap, nor does the data of a block with a line end after each value. -/
structure Capped (maxEventBytes : ℕ) (lines : List Bytes) (tail : Bytes) : Prop where
  shortLines : ∀ line ∈ lines, line.length ≤ maxEventBytes
  shortTail : tail.length ≤ maxEventBytes
  shortData : ∀ block ∈ lines.splitOn [], (printLines (dataValues block)).length ≤ maxEventBytes

theorem blocksFrom_nil_left (lines : List Bytes) : blocksFrom [] lines = lines.splitOn [] := by
  have hnil : ([] ++ · : List Bytes → List Bytes) = id := funext List.nil_append
  rw [blocksFrom, hnil, List.modifyHead_id]
  rfl

theorem newSSEParser_stream (body : Bytes) :
    newSSEParserWithCap body .eof = ⟨stream body, .eof, .empty⟩ := by
  have hbom : body.take 3 = sseBOM ↔ sseBOM <+: body := by
    rw [List.prefix_iff_eq_take]
    exact eq_comm
  simp only [newSSEParserWithCap, stream, hbom]
  rfl

theorem filterMap_filter_blank {β : Type} {f : Bytes → Option β} (h : f [] = none)
    (lines : List Bytes) : (lines.filter (· ≠ [])).filterMap f = lines.filterMap f := by
  rw [List.filterMap_filter]
  apply List.filterMap_congr
  intro line _
  by_cases hline : line = []
  · rw [if_neg (by simp [hline]), hline, h]
  · rw [if_pos (by simpa using hline)]

theorem endCalls_of_le {tail : Bytes} (h : tail.length ≤ maxEventBytes) :
    b.endCalls maxEventBytes tail =
      [(.error (b.readFailed (if tail = [] then .eof else .unexpectedEOF)).1,
        (b.readFailed (if tail = [] then .eof else .unexpectedEOF)).2)] :=
  if_neg (Nat.not_lt.mpr h)

theorem readFailed_eq (h : Holds earlier (unfinished lines) b) (tail : Bytes) :
    (b.readFailed (if tail = [] then .eof else .unexpectedEOF)).1 =
      if endsInside lines tail then .unexpectedEOF else .eof := by
  have hdata : b.dataBuf ≠ [] ↔ dataValues (unfinished lines) ≠ [] := by
    rw [h.dataBuf]
    cases dataValues (unfinished lines) with
    | nil => simp [printLines]
    | cons value values => simp [printLines_cons]
  by_cases htail : tail = []
  · rw [if_pos htail, Buffers.readFailed]
    by_cases hinside : dataValues (unfinished lines) ≠ [] ∨ eventType (unfinished lines) ≠ []
    · have hbufs : b.dataBuf ≠ [] ∨ b.typeBuf ≠ [] := by rwa [hdata, h.typeBuf]
      rw [if_pos hbufs, if_pos (by simpa [endsInside, htail] using hinside)]
    · have hbufs : ¬(b.dataBuf ≠ [] ∨ b.typeBuf ≠ []) := by rwa [hdata, h.typeBuf]
      rw [if_neg hbufs, if_neg (by simpa [endsInside, htail] using hinside)]
  · rw [if_neg htail, if_pos (by simp [endsInside, htail])]
    rfl

/-- Within the cap the calls of `Next` return the events of the stream, each with its id as the last
event id, and then an error that tells whether the stream ended in an event; the delay of the parser
is the reconnection time. -/
theorem next_conforms {maxEventBytes : ℕ} {body tail : Bytes} {lines : List Bytes}
    (hlines : Lines (stream body) lines tail) (hcap : Capped maxEventBytes lines tail)
    (hfit : RetriesFit lines) :
    (callsToEnd maxEventBytes (newSSEParserWithCap body .eof)).map
        (fun r => (r.1, r.2.bufs.idBuf)) =
      (events lines).map (fun ev => (.ok ev, ev.id)) ++
        [(.error (if endsInside lines tail then .unexpectedEOF else .eof), lastEventID lines)] ∧
    ∀ r ∈ (callsToEnd maxEventBytes (newSSEParserWithCap body .eof)).getLast?,
      r.2.bufs.retry = (reconnectionTime lines).map fun ms => (ms : ℤ) * 1000000 := by
  have hbody : bodyLines (stream body) = lines := by
    rw [bodyLines, hlines.dataLines, List.dropLast_concat]
  have htail : bodyTail (stream body) = tail := by
    simp only [bodyTail, hlines.dataLines, List.getLast_append_singleton]
  have hwithin := holds_empty.withinCap hfit hcap.shortLines
    (by rw [blocksFrom_nil_left]; exact hcap.shortData)
  obtain ⟨hevents, before, last, hlast, hsame, hholds⟩ := holds_empty.feedAll hfit
  obtain ⟨hcalls, hbufs⟩ := Buffers.lineCalls_of_withinCap hwithin
  rw [blocksFrom_nil_left] at hevents hlast
  have hunfinished : unfinished lines = last := by rw [unfinished, hlast]; rfl
  have hend := readFailed_eq (hunfinished ▸ hholds) tail
  obtain ⟨hid, hretry⟩ := (Buffers.empty.feedAll lines).2.readFailed_id
    (if tail = [] then .eof else .unexpectedEOF)
  have hreturned : (callsToEnd maxEventBytes ⟨stream body, .eof, .empty⟩).map returned = _ :=
    callsToEnd_eq (stream body) .empty
  rw [hbody, htail, hbufs, endCalls_of_le hcap.shortTail, hend, ← newSSEParser_stream] at hreturned
  have hread : before ++ last = lines.filter (· ≠ []) := hsame
  constructor
  · have hids := congrArg (List.map fun r => (r.1, r.2.idBuf)) hreturned
    rw [List.map_map, List.map_append, hcalls, hevents, List.map_singleton, hid, hholds.idBuf, hread,
      lastEventID, filterMap_filter_blank rfl] at hids
    exact hids
  · intro r hr
    have hlastCall := congrArg List.getLast? hreturned
    rw [List.getLast?_map, List.getLast?_concat, Option.mem_def.mp hr, Option.map_some] at hlastCall
    have hr : r.2.bufs = _ := congrArg Prod.snd (Option.some.inj hlastCall)
    rw [hr, hretry, hholds.retry, hread, reconnectionTime, filterMap_filter_blank rfl]
    rfl

/-- A byte order mark, "id:1" ended by CRLF, "data: a" by CR, "retry:5" and a blank line by LF, and
the unfinished line "data". -/
def mixedEnds : Bytes :=
  sseBOM ++ ([105, 100, 58, 49] ++ cr :: lf :: ([100, 97, 116, 97, 58, 32, 97] ++ cr ::
    ([114, 101, 116, 114, 121, 58, 53] ++ lf :: ([] ++ lf :: dataField))))

theorem next_conforms_mixedEnds :
    (callsToEnd 16 (newSSEParserWithCap mixedEnds .eof)).map (fun r => (r.1, r.2.bufs.idBuf)) =
      [(.ok ⟨[49], [], [97]⟩, [49]), (.error .unexpectedEOF, [49])] := by
  have hlines : Lines (stream mixedEnds) [[105, 100, 58, 49], [100, 97, 116, 97, 58, 32, 97],
      [114, 101, 116, 114, 121, 58, 53], []] dataField :=
    .endCRLF (by decide) (.endCR (by decide) (by decide) (.endLF (by decide) (.endLF (by decide)
      (.tail (by decide)))))
  have hcap : Capped 16 [[105, 100, 58, 49], [100, 97, 116, 97, 58, 32, 97],
      [114, 101, 116, 114, 121, 58, 53], []] dataField := ⟨by decide, by decide, by decide⟩
  have hfit : RetriesFit [[105, 100, 58, 49], [100, 97, 116, 97, 58, 32, 97],
      [114, 101, 116, 114, 121, 58, 53], []] := by
    decide
  exact (next_conforms hlines hcap hfit).1

/-- Five lines "data" and a blank line. -/
def fiveEmpty : Bytes := (List.replicate 5 (dataField ++ [lf])).flatten ++ [lf]

/-- The data of the event is four bytes, but the parser counts the line end after it as well. -/
theorem fiveEmpty_too_large :
    Lines (stream fiveEmpty) (List.replicate 5 dataField ++ [[]]) [] ∧
      (∀ line ∈ List.replicate 5 dataField ++ [[]], line.length ≤ 4) ∧
      RetriesFit (List.replicate 5 dataField ++ [[]]) ∧
      events (List.replicate 5 dataField ++ [[]]) = [⟨[], [], List.replicate 4 lf⟩] ∧
      (next 4 (newSSEParserWithCap fiveEmpty .eof)).1 = .error .eventTooLarge := by
  have hdata : NoBreak dataField := by decide
  have hnil : NoBreak [] := by decide
  refine ⟨?_, by decide, by decide, by decide, rfl⟩
  exact .endLF hdata (.endLF hdata (.endLF hdata (.endLF hdata (.endLF hdata (.endLF hnil
    (.tail hnil))))))

end Msgin.Http.EventStream
