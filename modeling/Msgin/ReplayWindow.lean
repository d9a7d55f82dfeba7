import Mathlib.Data.List.DropRight

/-!
# Windows over a growing log

A window holds the last entries of a log, up to a capacity. A reader that has seen the log up to
some entry resumes after the last entry that matches it.
-/

namespace ReplayWindow

variable {α : Type*}

/-- Append an entry, giving up the oldest ones past the capacity. -/
def push (n : ℕ) (w : List α) (a : α) : List α :=
  (if n ≤ w.length then w.drop (w.length - n + 1) else w) ++ [a]

/-- A window that holds the last `n` entries still does after a `push`. -/
theorem push_rtake {n : ℕ} (hn : 0 < n) (l : List α) (a : α) :
    push n (l.rtake n) a = (l ++ [a]).rtake n := by
  simp only [push, List.rtake, List.length_drop, List.length_append, List.length_singleton]
  by_cases hl : n ≤ l.length
  · have hfull : l.length - (l.length - n) = n := by omega
    have hstart : l.length + 1 - n = l.length - n + 1 := by omega
    have hle : l.length - n + 1 ≤ l.length := by omega
    rw [hfull, if_pos le_rfl, Nat.sub_self, Nat.zero_add, List.drop_drop, hstart,
      List.drop_append_of_le_length hle]
  · have hnone : l.length - n = 0 := by omega
    have hfits : l.length + 1 - n = 0 := by omega
    rw [hnone, hfits, if_neg (by omega), List.drop_zero, List.drop_zero]

/-- The index of the last entry that matches, found by a pass over the window. -/
def lastIndex (p : α → Bool) (l : List α) : Option ℕ :=
  l.zipIdx.foldl (fun idx e => if p e.1 then some e.2 else idx) none

theorem lastIndex_concat (p : α → Bool) (l : List α) (a : α) :
    lastIndex p (l ++ [a]) = if p a then some l.length else lastIndex p l := by
  simp [lastIndex, List.zipIdx_append]

theorem lt_length_of_lastIndex {p : α → Bool} {l : List α} {i : ℕ} (h : lastIndex p l = some i) :
    i < l.length := by
  induction l using List.reverseRecOn with
  | nil => cases h
  | append_singleton l a ih =>
      rw [lastIndex_concat] at h
      rw [List.length_append, List.length_singleton]
      split at h
      · exact (Option.some.inj h).symm ▸ Nat.lt_succ_self _
      · exact Nat.lt_succ_of_lt (ih h)

/-- The entries after the last one that matches; none if there is no match. -/
def afterLast (p : α → Bool) (l : List α) : List α :=
  if l.any p then l.rtakeWhile (fun a => !p a) else []

theorem afterLast_concat (p : α → Bool) (l : List α) (a : α) :
    afterLast p (l ++ [a]) =
      if p a then [] else if l.any p then afterLast p l ++ [a] else [] := by
  unfold afterLast
  cases ha : p a with
  | true =>
      simp only [List.any_append, List.any_cons, ha, Bool.true_or, Bool.or_true, if_true]
      exact List.rtakeWhile_concat_neg _ _ _ (by simp [ha])
  | false =>
      cases hl : l.any p with
      | false => simp [List.any_append, hl, ha]
      | true =>
          rw [List.any_append, hl, Bool.true_or, if_pos rfl,
            List.rtakeWhile_concat_pos _ _ _ (by simp [ha])]
          rfl

theorem lastIndex_eq_none {p : α → Bool} {l : List α} : lastIndex p l = none ↔ l.any p = false := by
  induction l using List.reverseRecOn with
  | nil => exact ⟨fun _ => rfl, fun _ => rfl⟩
  | append_singleton l a ih =>
      rw [lastIndex_concat, List.any_append]
      cases ha : p a with
      | true => simp [ha]
      | false => simpa [ha] using ih

/-- What the pass finds is what comes after the last match. -/
theorem drop_lastIndex (p : α → Bool) (l : List α) :
    ((lastIndex p l).elim [] fun i => l.drop (i + 1)) = afterLast p l := by
  induction l using List.reverseRecOn with
  | nil => rfl
  | append_singleton l a ih =>
      rw [lastIndex_concat, afterLast_concat]
      cases ha : p a with
      | true => simp
      | false =>
          rw [if_neg (by simp), if_neg (by simp), ← ih]
          cases hi : lastIndex p l with
          | none => rw [lastIndex_eq_none.mp hi]; rfl
          | some i =>
              have hany : l.any p = true := by
                rw [← Bool.not_eq_false]
                intro hnone
                rw [lastIndex_eq_none.mpr hnone] at hi
                cases hi
              have hlt := lt_length_of_lastIndex hi
              rw [hany, if_pos rfl, Option.elim_some, Option.elim_some,
                List.drop_append_of_le_length hlt]

theorem afterLast_suffix (p : α → Bool) (l : List α) : afterLast p l <:+ l := by
  unfold afterLast
  split
  · exact List.rtakeWhile_suffix _ l
  · exact List.nil_suffix

theorem afterLast_of_forall_not {p : α → Bool} {l : List α} (h : ∀ a ∈ l, p a = false) :
    afterLast p l = [] :=
  if_neg (by simpa using h)

theorem afterLast_append_cons {p : α → Bool} {a : α} (before : List α) {after : List α}
    (ha : p a = true) (h : ∀ b ∈ after, p b = false) :
    afterLast p (before ++ a :: after) = after := by
  induction after using List.reverseRecOn with
  | nil => rw [afterLast_concat, if_pos ha]
  | append_singleton after b ih =>
      have hb : p b = false := h b (by simp)
      have hany : (before ++ a :: after).any p = true := by simp [ha]
      have happend : before ++ a :: (after ++ [b]) = (before ++ a :: after) ++ [b] := by simp
      rw [happend, afterLast_concat, hb, hany, ih fun c hc => h c (List.mem_append_left _ hc)]
      rfl

variable {r : α → α → Prop} {p : α → Bool} {l w : List α}

/-- The start of an ordered log with some entries left out is a start of the log exactly if it does
not reach past an entry that is left out. -/
theorem prefix_iff_of_prefix_filter (hr : ∀ x y, r x y → ¬r y x) (hl : l.Pairwise r)
    (hw : w <+: l.filter p) : w <+: l ↔ ∀ y ∈ w, ∀ x ∈ l, p x = false → ¬r x y := by
  constructor
  · rintro ⟨rest, rfl⟩ y hy x hx hpx hxy
    have hyx : x ∈ rest → r y x := (List.pairwise_append.mp hl).2.2 y hy x
    rcases List.mem_append.mp hx with hx | hx
    · have hmem := (List.mem_filter.mp (hw.subset hx)).2
      rw [hpx] at hmem
      cases hmem
    · exact hr x y hxy (hyx hx)
  · intro h
    induction l generalizing w with
    | nil => exact hw
    | cons a l ih =>
        rw [List.pairwise_cons] at hl
        cases ha : p a with
        | true =>
            rw [List.filter_cons_of_pos ha] at hw
            cases w with
            | nil => exact List.nil_prefix
            | cons b w =>
                obtain ⟨rfl, hrest⟩ := List.cons_prefix_cons.mp hw
                refine List.cons_prefix_cons.mpr ⟨rfl, ih hl.2 hrest fun y hy x hx => ?_⟩
                exact h y (List.mem_cons_of_mem b hy) x (List.mem_cons_of_mem b hx)
        | false =>
            rw [List.filter_cons_of_neg (by simp [ha])] at hw
            cases w with
            | nil => exact List.nil_prefix
            | cons b w =>
                have hb : b ∈ l := (List.mem_filter.mp (hw.subset List.mem_cons_self)).1
                exact absurd (hl.1 b hb) (h b List.mem_cons_self a List.mem_cons_self ha)

end ReplayWindow
