import Mathlib.Data.List.Basic
import Mathlib.Data.List.TakeDrop

/-!
# Filtering a list in place

A loop over a list whose kept elements are written back to the front of the list that is being
read. `take? s a` is the new state of the loop when it takes the element out, and `none` when it
keeps it. The write position never passes the read position, so the loop computes the same as one
that writes to a fresh list.
-/

namespace InPlaceFilter

variable {α σ : Type*} (take? : σ → α → Option σ)

structure Loop (α σ : Type*) where
  array : List α
  kept : ℕ
  state : σ

def Loop.next (l : Loop α σ) (i : ℕ) : Loop α σ :=
  match l.array[i]? with
  | none => l
  | some a =>
    match take? l.state a with
    | some s => { l with state := s }
    | none => { l with array := l.array.set l.kept a, kept := l.kept + 1 }

/-- The loop over the positions of the list. -/
def compact (s : σ) (xs : List α) : Loop α σ :=
  (List.range xs.length).foldl (Loop.next take?) ⟨xs, 0, s⟩

/-- The elements kept and the last state, in one pass over a list that does not change. -/
def sift : σ → List α → List α × σ
  | s, [] => ([], s)
  | s, a :: as =>
    match take? s a with
    | some s' => sift s' as
    | none => (a :: (sift s as).1, (sift s as).2)

variable (s : σ) (xs : List α)

theorem sift_concat (a : α) :
    sift take? s (xs ++ [a]) =
      match take? (sift take? s xs).2 a with
      | some s' => ((sift take? s xs).1, s')
      | none => ((sift take? s xs).1 ++ [a], (sift take? s xs).2) := by
  induction xs generalizing s with
  | nil =>
      simp only [List.nil_append, sift]
  | cons x xs ih =>
      rw [List.cons_append, sift, sift]
      cases take? s x with
      | some s' => exact ih s'
      | none =>
          rw [ih]
          dsimp only
          cases take? (sift take? s xs).2 a <;> rfl

theorem sift_sublist : (sift take? s xs).1.Sublist xs := by
  induction xs generalizing s with
  | nil => exact List.Sublist.slnil
  | cons x xs ih =>
      rw [sift]
      cases take? s x with
      | some s' => exact (ih s').cons x
      | none => exact (ih s).cons_cons x

/-- The loop after `i` positions. -/
structure Sifted (s : σ) (xs : List α) (i : ℕ) (l : Loop α σ) : Prop where
  front : l.array.take l.kept = (sift take? s (xs.take i)).1
  rest : l.array.drop i = xs.drop i
  length : l.array.length = xs.length
  behind : l.kept ≤ i
  state : l.state = (sift take? s (xs.take i)).2

theorem Sifted.next {s : σ} {xs : List α} {i : ℕ} {l : Loop α σ} (h : Sifted take? s xs i l)
    (hi : i < xs.length) : Sifted take? s xs (i + 1) (l.next take? i) := by
  have hlength := h.length
  have hbehind := h.behind
  have hread : l.array[i]? = some xs[i] := by
    have hhead := congrArg List.head? h.rest
    rwa [List.head?_drop, List.head?_drop, List.getElem?_eq_getElem hi] at hhead
  have hsift := sift_concat take? s (xs.take i) xs[i]
  rw [List.take_append_getElem hi, ← h.state] at hsift
  have hrest : l.array.drop (i + 1) = xs.drop (i + 1) := by
    rw [← List.drop_drop, ← List.drop_drop, h.rest]
  unfold Loop.next
  rw [hread]
  dsimp only
  cases htake : take? l.state xs[i] with
  | some s' =>
      rw [htake] at hsift
      exact ⟨by rw [hsift]; exact h.front, hrest, hlength, by simp only; omega, by rw [hsift]⟩
  | none =>
      rw [htake] at hsift
      refine ⟨?_, ?_, ?_, Nat.succ_le_succ hbehind, ?_⟩
      · rw [hsift, ← h.front, List.take_add_one, List.take_set_of_le (Nat.le_refl _)]
        simp [List.getElem?_set_self (by omega : l.kept < l.array.length)]
      · rw [List.drop_set_of_lt (by omega)]
        exact hrest
      · simpa using hlength
      · rw [hsift]

theorem compact_sifted : Sifted take? s xs xs.length (compact take? s xs) := by
  have hloop : ∀ i ≤ xs.length,
      Sifted take? s xs i ((List.range i).foldl (Loop.next take?) ⟨xs, 0, s⟩) := by
    intro i hi
    induction i with
    | zero => exact ⟨rfl, rfl, rfl, Nat.le_refl 0, rfl⟩
    | succ i ih =>
        rw [List.range_succ, List.foldl_append]
        exact (ih (Nat.le_of_succ_le hi)).next take? hi
  exact hloop xs.length (Nat.le_refl _)

theorem take_compact :
    (compact take? s xs).array.take (compact take? s xs).kept = (sift take? s xs).1 := by
  have h := (compact_sifted take? s xs).front
  rwa [List.take_length] at h

theorem state_compact : (compact take? s xs).state = (sift take? s xs).2 := by
  have h := (compact_sifted take? s xs).state
  rwa [List.take_length] at h

end InPlaceFilter
