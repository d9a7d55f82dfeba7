import Msgin.SseHub
import Msgin.SseLines

/-!
# The lines on a connection

The bytes written on a connection are whole lines, an event or a heartbeat at a time. The lines of
any first part of them are those of some whole writes and some lines of the next one.
-/

namespace Msgin.Http

def NoBreak (line : Bytes) : Prop := lf ∉ line ∧ cr ∉ line

instance (line : Bytes) : Decidable (NoBreak line) := inferInstanceAs (Decidable (_ ∧ _))

def printLines (lines : List Bytes) : Bytes := lines.flatMap (· ++ [lf])

theorem printLines_cons (line : Bytes) (lines : List Bytes) :
    printLines (line :: lines) = line ++ [lf] ++ printLines lines := List.flatMap_cons

theorem noBreak_cons {b : UInt8} {line : Bytes} :
    NoBreak (b :: line) ↔ b ≠ lf ∧ b ≠ cr ∧ NoBreak line := by
  simp only [NoBreak, List.mem_cons, not_or, ne_eq, eq_comm]
  tauto

theorem cutLine_append {line : Bytes} (h : NoBreak line) (rest : Bytes) :
    cutLine (line ++ lf :: rest) = some (line, rest) := by
  induction line with
  | nil => exact if_pos rfl
  | cons b line ih =>
      obtain ⟨hlf, hcr, hline⟩ := noBreak_cons.mp h
      rw [List.cons_append, cutLine, if_neg hlf, if_neg hcr, ih hline]
      rfl

theorem cutLine_eq_none {line : Bytes} (h : NoBreak line) : cutLine line = none := by
  induction line with
  | nil => rfl
  | cons b line ih =>
      obtain ⟨hlf, hcr, hline⟩ := noBreak_cons.mp h
      rw [cutLine, if_neg hlf, if_neg hcr, ih hline]
      rfl

theorem NoBreak.of_prefix {line part : Bytes} (h : NoBreak line) (hp : part <+: line) :
    NoBreak part := ⟨fun hm => h.1 (hp.subset hm), fun hm => h.2 (hp.subset hm)⟩

theorem bodyLines_printLines {lines : List Bytes} (h : ∀ line ∈ lines, NoBreak line)
    (rest : Bytes) : bodyLines (printLines lines ++ rest) = lines ++ bodyLines rest := by
  induction lines with
  | nil => rfl
  | cons line lines ih =>
      have hcut : printLines (line :: lines) ++ rest = line ++ lf :: (printLines lines ++ rest) := by
        simp [printLines]
      rw [hcut, bodyLines_eq, cutLine_append (h line List.mem_cons_self), Option.elim_some,
        ih fun l hl => h l (List.mem_cons_of_mem line hl), List.cons_append]

theorem exists_append_of_prefix {α : Type*} {r a b : List α} (h : r <+: a ++ b) (hr : ¬r <+: a) :
    ∃ r', r = a ++ r' ∧ r' <+: b := by
  have ha : a <+: a ++ b := List.prefix_append a b
  obtain ⟨r', rfl⟩ : a <+: r := (List.prefix_or_prefix_of_prefix h ha).resolve_left hr
  exact ⟨r', rfl, (List.prefix_append_right_inj a).mp h⟩

theorem bodyLines_of_prefix {lines : List Bytes} (h : ∀ line ∈ lines, NoBreak line) {part : Bytes}
    (hp : part <+: printLines lines) :
    bodyLines part <+: lines ∧ (part = printLines lines ∨ bodyLines part ≠ lines) := by
  induction lines generalizing part with
  | nil =>
      obtain rfl : part = [] := List.prefix_nil.mp hp
      exact ⟨List.prefix_rfl, .inl rfl⟩
  | cons line lines ih =>
      have hline := h line List.mem_cons_self
      have hlines : ∀ l ∈ lines, NoBreak l := fun l hl => h l (List.mem_cons_of_mem line hl)
      have hprint : printLines (line :: lines) = line ++ lf :: printLines lines := by
        simp [printLines]
      rw [hprint] at hp ⊢
      have hshort : part <+: line → bodyLines part = [] := fun hpl => by
        rw [bodyLines_eq, cutLine_eq_none (hline.of_prefix hpl)]
        rfl
      by_cases hpl : part <+: line
      · rw [hshort hpl]
        exact ⟨List.nil_prefix, .inr (List.cons_ne_nil line lines).symm⟩
      · obtain ⟨r, rfl, hr⟩ := exists_append_of_prefix hp hpl
        cases r with
        | nil => exact absurd (by rw [List.append_nil]) hpl
        | cons b r =>
            obtain ⟨rfl, hrest⟩ := List.cons_prefix_cons.mp hr
            obtain ⟨hpre, hcase⟩ := ih hlines hrest
            rw [bodyLines_eq, cutLine_append hline, Option.elim_some]
            refine ⟨List.cons_prefix_cons.mpr ⟨rfl, hpre⟩, ?_⟩
            rcases hcase with rfl | hne
            · exact .inl rfl
            · exact .inr fun heq => hne (List.cons.inj heq).2

def frameLines (ev : SSEEvent) : List Bytes :=
  (if ev.id ≠ [] then [idLabel ++ ev.id] else []) ++
    ((if ev.name ≠ [] then [eventLabel ++ ev.name] else []) ++
      (dataLines ev.data).map (dataLabel ++ ·))

theorem frameBytes_eq (ev : SSEEvent) : frameBytes ev = printLines (frameLines ev ++ [[]]) := by
  unfold frameBytes printLines frameLines
  rw [List.flatMap_append, List.flatMap_append, List.flatMap_append]
  congr 1
  rw [← List.append_assoc]
  congr 1
  · congr 1
    · split
      · simp
      · rfl
    · split
      · simp
      · rfl
  · rw [List.flatMap_map]

def Written.lines : Written → List Bytes
  | .event f => frameLines f.event ++ [[]]
  | .heartbeat => [[58, 32, 112, 105, 110, 103], []]

theorem Written.bytes_eq (w : Written) : w.bytes = printLines w.lines := by
  cases w with
  | event f => exact frameBytes_eq f.event
  | heartbeat => rfl

theorem noBreak_of_validSSEField {s : Bytes} (h : validSSEField s = true) : NoBreak s ∧ nul ∉ s := by
  have hall := List.all_eq_true.mp h
  refine ⟨⟨fun hm => ?_, fun hm => ?_⟩, fun hm => ?_⟩
  · exact absurd (hall lf hm) (by decide)
  · exact absurd (hall cr hm) (by decide)
  · exact absurd (hall nul hm) (by decide)

theorem SentFrame.valid_fields (f : SentFrame) :
    validSSEField f.event.id = true ∧ validSSEField f.event.name = true := by
  have h := f.valid
  unfold encodeSSEEvent at h
  split at h
  · cases h
  · next hvalid => simpa using hvalid

theorem mem_splitOn {a : UInt8} {l x : Bytes} (h : x ∈ l.splitOn a) : a ∉ x ∧ x ⊆ l := by
  induction l generalizing x with
  | nil =>
      obtain rfl : x = [] := List.mem_singleton.mp h
      exact ⟨List.not_mem_nil, List.nil_subset _⟩
  | cons b l ih =>
      rw [List.splitOn, List.splitOnP_cons_eq_if_modifyHead] at h
      split at h
      · rcases List.mem_cons.mp h with rfl | hx
        · exact ⟨List.not_mem_nil, List.nil_subset _⟩
        · exact ⟨(ih hx).1, List.subset_cons_of_subset b (ih hx).2⟩
      · next hb =>
          have hb : b ≠ a := by simpa using hb
          cases hl : l.splitOnP (· == a) with
          | nil => exact absurd hl (List.splitOnP_ne_nil _ l)
          | cons y ys =>
              have hmem : ∀ z ∈ y :: ys, z ∈ l.splitOn a := fun z hz => by
                rw [List.splitOn, hl]
                exact hz
              rw [hl] at h
              rcases List.mem_cons.mp h with rfl | hx
              · obtain ⟨hy, hsub⟩ := ih (hmem y List.mem_cons_self)
                refine ⟨fun ha => ?_, List.cons_subset_cons b hsub⟩
                rcases List.mem_cons.mp ha with ha | ha
                · exact hb ha.symm
                · exact hy ha
              · obtain ⟨hx', hsub⟩ := ih (hmem x (List.mem_cons_of_mem y hx))
                exact ⟨hx', List.subset_cons_of_subset b hsub⟩

theorem noBreak_of_mem_dataLines {data line : Bytes} (h : line ∈ dataLines data) :
    NoBreak line := by
  obtain ⟨hlf, hsub⟩ := mem_splitOn h
  refine ⟨hlf, fun hcr => ?_⟩
  obtain ⟨b, -, hb⟩ := List.mem_map.mp (hsub hcr)
  by_cases hbcr : b = cr
  · rw [if_pos hbcr] at hb
    exact absurd hb (by decide)
  · rw [if_neg hbcr] at hb
    exact hbcr hb

theorem NoBreak.label {label s : Bytes} (hl : NoBreak label) (hs : NoBreak s) :
    NoBreak (label ++ s) :=
  ⟨fun h => (List.mem_append.mp h).elim hl.1 hs.1, fun h => (List.mem_append.mp h).elim hl.2 hs.2⟩

theorem noBreak_frameLines (f : SentFrame) {line : Bytes} (h : line ∈ frameLines f.event) :
    NoBreak line := by
  obtain ⟨hid, hname⟩ := f.valid_fields
  rcases List.mem_append.mp h with h | h
  · split at h
    · rw [List.mem_singleton.mp h]
      exact .label (by decide) (noBreak_of_validSSEField hid).1
    · cases h
  · rcases List.mem_append.mp h with h | h
    · split at h
      · rw [List.mem_singleton.mp h]
        exact .label (by decide) (noBreak_of_validSSEField hname).1
      · cases h
    · obtain ⟨data, hdata, rfl⟩ := List.mem_map.mp h
      exact .label (by decide) (noBreak_of_mem_dataLines hdata)

theorem Written.noBreak (w : Written) : ∀ line ∈ w.lines, NoBreak line := by
  cases w with
  | event f =>
      intro line h
      rcases List.mem_append.mp h with h | h
      · exact noBreak_frameLines f h
      · rw [List.mem_singleton.mp h]
        decide
  | heartbeat => decide

/-- The writes that are whole in the first `n` bytes, and how many bytes of the next one there are. -/
def wholeWrites : List Written → ℕ → List Written × ℕ
  | [], n => ([], n)
  | w :: written, n =>
    if w.bytes.length ≤ n then
      let rest := wholeWrites written (n - w.bytes.length)
      (w :: rest.1, rest.2)
    else ([], n)

theorem wholeWrites_append (w : Written) (written : List Written) (n : ℕ) :
    wholeWrites (w :: written) (w.bytes.length + n) =
      (w :: (wholeWrites written n).1, (wholeWrites written n).2) := by
  rw [wholeWrites, if_pos (Nat.le_add_right _ _), Nat.add_sub_cancel_left]

/-- The lines of a part of what was written: those of the whole writes, and some of the next. -/
theorem bodyLines_cut {written : List Written} {body : Bytes}
    (h : body <+: written.flatMap Written.bytes) :
    ∃ part, bodyLines body =
        (wholeWrites written body.length).1.flatMap Written.lines ++ bodyLines part ∧
      part.length = (wholeWrites written body.length).2 ∧
      (wholeWrites written body.length).1 <+: written ∧
      (part = [] ∨ ∃ w, (wholeWrites written body.length).1 ++ [w] <+: written ∧
        part <+: w.bytes ∧ bodyLines part <+: w.lines ∧ bodyLines part ≠ w.lines) := by
  induction written generalizing body with
  | nil =>
      obtain rfl : body = [] := List.prefix_nil.mp h
      exact ⟨[], rfl, rfl, List.prefix_rfl, .inl rfl⟩
  | cons w written ih =>
      rw [List.flatMap_cons] at h
      by_cases hw : w.bytes.length ≤ body.length
      · obtain ⟨rest, rfl⟩ : w.bytes <+: body :=
          List.prefix_of_prefix_length_le (List.prefix_append _ _) h hw
        obtain ⟨part, hlines, hlength, hpre, hpart⟩ :=
          ih ((List.prefix_append_right_inj _).mp h)
        rw [List.length_append, wholeWrites_append]
        refine ⟨part, ?_, hlength, List.cons_prefix_cons.mpr ⟨rfl, hpre⟩, ?_⟩
        · rw [w.bytes_eq, bodyLines_printLines w.noBreak, hlines, List.flatMap_cons,
            List.append_assoc]
        · exact hpart.imp id fun ⟨v, hv, hpart⟩ => ⟨v, List.cons_prefix_cons.mpr ⟨rfl, hv⟩, hpart⟩
      · have hbody : body <+: w.bytes :=
          List.prefix_of_prefix_length_le h (List.prefix_append _ _) (Nat.le_of_not_le hw)
        rw [wholeWrites, if_neg hw]
        refine ⟨body, rfl, rfl, List.nil_prefix, .inr ⟨w, ?_, hbody, ?_⟩⟩
        · exact List.cons_prefix_cons.mpr ⟨rfl, List.nil_prefix⟩
        · have hlines := hbody
          rw [w.bytes_eq] at hlines
          obtain ⟨hpre, hfull | hne⟩ := bodyLines_of_prefix w.noBreak hlines
          · rw [hfull, ← w.bytes_eq] at hw
            exact absurd le_rfl hw
          · exact ⟨hpre, hne⟩

end Msgin.Http
