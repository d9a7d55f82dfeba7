import Mathlib.Data.List.Basic
import Mathlib.Data.Nat.Digits.Defs

/-!
# Texts with a decimal suffix

A text followed by a separator and a decimal number determines both, whatever the text,
because no digit is the separator.
-/

namespace DecimalSuffix

/-- Two lists that are cut at the last occurrence of a separator have the same parts. -/
theorem cons_append_inj {α : Type*} {c : α} {x y d e : List α} (hd : c ∉ d) (he : c ∉ e)
    (h : d ++ c :: x = e ++ c :: y) : d = e ∧ x = y := by
  induction d generalizing e with
  | nil =>
      cases e with
      | nil => exact ⟨rfl, (List.cons.inj h).2⟩
      | cons b e =>
          obtain rfl : c = b := (List.cons.inj h).1
          exact absurd List.mem_cons_self he
  | cons a d ih =>
      cases e with
      | nil =>
          obtain rfl : a = c := (List.cons.inj h).1
          exact absurd List.mem_cons_self hd
      | cons b e =>
          obtain ⟨rfl, htail⟩ := List.cons.inj h
          obtain ⟨rfl, hxy⟩ := ih (fun hc => hd (List.mem_cons_of_mem _ hc))
            (fun hc => he (List.mem_cons_of_mem _ hc)) htail
          exact ⟨rfl, hxy⟩

theorem notMem_toString {c : Char} (hc : c.isDigit = false) (n : ℕ) : c ∉ (toString n).toList := by
  intro hmem
  rw [Nat.toString_eq_ofList_toDigits, String.toList_ofList] at hmem
  have hdigit := Nat.isDigit_of_mem_toDigits (by decide) (by decide) hmem
  simp [hc] at hdigit

theorem append_toString_inj {c : Char} (hc : c.isDigit = false) {a b : String} {m n : ℕ}
    (h : a ++ String.singleton c ++ toString m = b ++ String.singleton c ++ toString n) :
    a = b ∧ m = n := by
  have hlist := congrArg (fun s => s.toList.reverse) h
  simp only [String.toList_append, String.toList_singleton, List.reverse_append,
    List.reverse_singleton, List.singleton_append] at hlist
  have hnotMem (k : ℕ) : c ∉ (toString k).toList.reverse := by
    rw [List.mem_reverse]
    exact notMem_toString hc k
  obtain ⟨hdigits, htext⟩ := cons_append_inj (hnotMem m) (hnotMem n) hlist
  constructor
  · exact String.toList_inj.mp (List.reverse_inj.mp htext)
  · have hvalue := congrArg (fun ds => Nat.ofDigitChars 10 ds 0) (List.reverse_inj.mp hdigits)
    simpa [Nat.toString_eq_ofList_toDigits] using hvalue

end DecimalSuffix
