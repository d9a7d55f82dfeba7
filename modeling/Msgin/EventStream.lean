import Mathlib.Data.Nat.Digits.Defs
import Msgin.SseWire

/-!
# The event stream format

What the WHATWG HTML standard makes of a stream of bytes, said of its lines as a whole. The lines
between two blank lines are a block, which is an event if it has a data field. The data of the event
is that of all data fields of the block, its type that of the last event field of the block, and its
id that of the last id field up to the end of the block.
-/

namespace Msgin.Http.EventStream

/-- The stream after a leading byte order mark. -/
def stream (body : Bytes) : Bytes := if sseBOM <+: body then body.drop sseBOM.length else body

/-- A stream is lines, each ended by CRLF, LF or CR, and a tail without a line end. -/
inductive Lines : Bytes → List Bytes → Bytes → Prop
  | tail {rest : Bytes} (plain : NoBreak rest) : Lines rest [] rest
  | endLF {line rest tail : Bytes} {lines : List Bytes} (plain : NoBreak line)
      (more : Lines rest lines tail) : Lines (line ++ lf :: rest) (line :: lines) tail
  | endCRLF {line rest tail : Bytes} {lines : List Bytes} (plain : NoBreak line)
      (more : Lines rest lines tail) : Lines (line ++ cr :: lf :: rest) (line :: lines) tail
  | endCR {line rest tail : Bytes} {lines : List Bytes} (plain : NoBreak line)
      (alone : rest.head? ≠ some lf) (more : Lines rest lines tail) :
      Lines (line ++ cr :: rest) (line :: lines) tail

def dropSpace (value : Bytes) : Bytes := if value.head? = some space then value.tail else value

/-- The name and the value of a field. A line that starts with a colon is a comment, and a line
without a colon is a name. -/
def field (line : Bytes) : Option (Bytes × Bytes) :=
  match line.findIdx? (· = colon) with
  | none => some (line, [])
  | some 0 => none
  | some (n + 1) => some (line.take (n + 1), dropSpace (line.drop (n + 2)))

def valueOf (name line : Bytes) : Option Bytes :=
  (field line).bind fun f => if f.1 = name then some f.2 else none

/-- An id with a NUL is ignored. -/
def idValue (line : Bytes) : Option Bytes := (valueOf idField line).filter fun id => nul ∉ id

/-- A retry value is a decimal number. -/
def retryValue (line : Bytes) : Option ℕ :=
  (valueOf retryField line).bind fun value =>
    if value ≠ [] ∧ value.all isDigit then
      some (Nat.ofDigits 10 (value.reverse.map fun b => b.toNat - 48))
    else none

def dataValues (block : List Bytes) : List Bytes := block.filterMap (valueOf dataField)

def eventType (block : List Bytes) : Bytes :=
  (block.filterMap (valueOf eventField)).getLast?.getD []

def lastEventID (lines : List Bytes) : Bytes := (lines.filterMap idValue).getLast?.getD []

/-- In milliseconds. -/
def reconnectionTime (lines : List Bytes) : Option ℕ := (lines.filterMap retryValue).getLast?

def dispatch (earlier block : List Bytes) : Option SSEEvent :=
  if dataValues block = [] then none
  else
    some ⟨lastEventID (earlier ++ block), eventType block, [lf].intercalate (dataValues block)⟩

def interpret (earlier : List Bytes) : List (List Bytes) → List SSEEvent
  | [] => []
  | block :: blocks => (dispatch earlier block).toList ++ interpret (earlier ++ block) blocks

def events (lines : List Bytes) : List SSEEvent := interpret [] (lines.splitOn []).dropLast

def unfinished (lines : List Bytes) : List Bytes := (lines.splitOn []).getLast?.getD []

/-- The stream ends in a line, or in an event with data or a type. -/
def endsInside (lines : List Bytes) (tail : Bytes) : Bool :=
  tail ≠ [] || dataValues (unfinished lines) ≠ [] || eventType (unfinished lines) ≠ []

theorem cutLine_cr {line : Bytes} (h : NoBreak line) (rest : Bytes) :
    cutLine (line ++ cr :: rest) =
      some (line, if rest.head? = some lf then rest.tail else rest) := by
  induction line with
  | nil => rw [List.nil_append, cutLine, if_neg (by decide), if_pos rfl]
  | cons b line ih =>
      obtain ⟨hlf, hcr, hline⟩ := noBreak_cons.mp h
      rw [List.cons_append, cutLine, if_neg hlf, if_neg hcr, ih hline]
      rfl

theorem Lines.dataLines {s tail : Bytes} {lines : List Bytes} (h : Lines s lines tail) :
    dataLines s = lines ++ [tail] := by
  induction h with
  | tail plain =>
      rw [dataLines_eq, cutLine_eq_none plain]
      rfl
  | endLF plain more ih =>
      rw [dataLines_eq, cutLine_append plain, Option.elim_some, ih]
      rfl
  | endCRLF plain more ih =>
      rw [dataLines_eq, cutLine_cr plain, Option.elim_some, List.head?_cons, if_pos rfl,
        List.tail_cons, ih]
      rfl
  | endCR plain alone more ih =>
      rw [dataLines_eq, cutLine_cr plain, Option.elim_some, if_neg alone, ih]
      rfl

theorem noBreak_of_cutLine_none {s : Bytes} (h : cutLine s = none) : NoBreak s := by
  induction s with
  | nil => exact ⟨List.not_mem_nil, List.not_mem_nil⟩
  | cons b s ih =>
      unfold cutLine at h
      split at h
      · cases h
      · next hlf =>
          split at h
          · cases h
          · next hcr => exact noBreak_cons.mpr ⟨hlf, hcr, ih (Option.map_eq_none_iff.mp h)⟩

theorem eq_of_cutLine {s line rest : Bytes} (h : cutLine s = some (line, rest)) :
    NoBreak line ∧ (s = line ++ lf :: rest ∨ s = line ++ cr :: lf :: rest ∨
      s = line ++ cr :: rest ∧ rest.head? ≠ some lf) := by
  induction s generalizing line rest with
  | nil => cases h
  | cons b s ih =>
      unfold cutLine at h
      split at h
      · next hlf =>
          cases h
          exact ⟨⟨List.not_mem_nil, List.not_mem_nil⟩, .inl (by rw [hlf]; rfl)⟩
      · next hlf =>
          split at h
          · next hcr =>
              cases h
              refine ⟨⟨List.not_mem_nil, List.not_mem_nil⟩, .inr ?_⟩
              rw [hcr]
              split
              · next hhead => exact .inl (by rw [List.nil_append, List.cons_head?_tail hhead])
              · next hhead => exact .inr ⟨rfl, hhead⟩
          · next hcr =>
              obtain ⟨cut, hcut, heq⟩ := Option.map_eq_some_iff.mp h
              cases heq
              obtain ⟨hplain, hcases⟩ := ih hcut
              refine ⟨noBreak_cons.mpr ⟨hlf, hcr, hplain⟩, ?_⟩
              rcases hcases with rfl | rfl | ⟨rfl, halone⟩
              · exact .inl rfl
              · exact .inr (.inl rfl)
              · exact .inr (.inr ⟨rfl, halone⟩)

/-- Every sequence of bytes is a stream of lines. -/
theorem exists_lines (s : Bytes) : ∃ lines tail, Lines s lines tail := by
  induction hn : s.length using Nat.strongRecOn generalizing s with
  | _ n ih =>
      cases hcut : cutLine s with
      | none => exact ⟨[], s, .tail (noBreak_of_cutLine_none hcut)⟩
      | some cut =>
          obtain ⟨line, rest⟩ := cut
          have hshort := length_lt_of_cutLine hcut
          obtain ⟨lines, tail, hlines⟩ := ih rest.length (by omega) rest rfl
          obtain ⟨hplain, rfl | rfl | ⟨rfl, halone⟩⟩ := eq_of_cutLine hcut
          · exact ⟨line :: lines, tail, .endLF hplain hlines⟩
          · exact ⟨line :: lines, tail, .endCRLF hplain hlines⟩
          · exact ⟨line :: lines, tail, .endCR hplain halone hlines⟩

end Msgin.Http.EventStream
