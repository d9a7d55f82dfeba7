import Mathlib.Data.List.AList
import Mathlib.Logic.Function.Basic

/-!
# Keyed maps as lookup functions

What a write to an association list does to its lookups, for values of one type.
-/

namespace KeyedMaps

variable {K V : Type*} [DecidableEq K] (m : AList fun _ : K => V) (k : K)

theorem lookup_erase_eq :
    (fun j => (m.erase k).lookup j) = Function.update (fun j => m.lookup j) k none := by
  funext j
  by_cases hj : j = k
  · subst hj
    simp
  · rw [AList.lookup_erase_ne hj, Function.update_of_ne hj]

theorem lookup_insert_eq (v : V) :
    (fun j => (m.insert k v).lookup j) = Function.update (fun j => m.lookup j) k (some v) := by
  funext j
  by_cases hj : j = k
  · subst hj
    simp
  · rw [AList.lookup_insert_ne hj, Function.update_of_ne hj]

variable {α ι γ κ : Type*} {l : List α} {key : α → κ} {i : ι}

theorem update_eq_some [DecidableEq ι] {f : ι → Option γ} {j : ι} {c d : γ} :
    Function.update f i (some c) j = some d ↔ j = i ∧ d = c ∨ j ≠ i ∧ f j = some d := by
  by_cases hj : j = i
  · subst hj
    simp [eq_comm]
  · simp [hj]

/-- A value other than the one written was there before. -/
theorem of_update_ne [DecidableEq ι] {f : ι → γ} {j : ι} {b c : γ} (hne : b ≠ c)
    (h : Function.update f i b j = c) : j ≠ i ∧ f j = c := by
  by_cases hj : j = i
  · subst hj
    rw [Function.update_self] at h
    exact absurd h hne
  · rw [Function.update_of_ne hj] at h
    exact ⟨hj, h⟩

/-- Writing what is there. -/
theorem update_eq_self_of [DecidableEq ι] {f : ι → γ} {b : γ} (h : f i = b) :
    Function.update f i b = f :=
  h ▸ Function.update_eq_self i f

theorem perm_erase {v : V} (h : m.lookup k = some v) :
    m.entries.Perm (⟨k, v⟩ :: (m.erase k).entries) := by
  have hmem : k ∈ m.entries.keys := AList.mem_keys.mp (AList.lookup_isSome.mp (by rw [h]; rfl))
  obtain ⟨w, front, back, -, hsplit, herase⟩ := List.exists_of_kerase hmem
  have hw : (⟨k, w⟩ : Sigma fun _ : K => V) ∈ m.entries := by
    rw [hsplit]
    exact List.mem_append_right _ List.mem_cons_self
  obtain rfl : w = v := Option.some.inj ((AList.mem_lookup_iff.mpr hw).symm.trans h)
  change m.entries.Perm (⟨k, w⟩ :: List.kerase k m.entries)
  rw [herase, hsplit]
  exact List.perm_middle

/-- Where one key of a list is given more values, they are all the concatenation gets. -/
theorem flatMap_perm_append {β : Type*} {f g : κ → List β} (hdistinct : (l.map key).Nodup) {a : α}
    (ha : a ∈ l) {ys : List β} (hself : g (key a) = f (key a) ++ ys)
    (hother : ∀ j, j ≠ key a → g j = f j) :
    (l.flatMap fun b => g (key b)).Perm ((l.flatMap fun b => f (key b)) ++ ys) := by
  induction l with
  | nil => cases ha
  | cons b l ih =>
      rw [List.map_cons, List.nodup_cons] at hdistinct
      rw [List.flatMap_cons, List.flatMap_cons]
      rcases List.mem_cons.mp ha with rfl | ha
      · have hrest : (l.flatMap fun b => g (key b)) = l.flatMap fun b => f (key b) := by
          apply List.flatMap_congr
          intro c hc
          apply hother
          intro heq
          exact hdistinct.1 (heq ▸ List.mem_map_of_mem hc)
        rw [hself, hrest, List.append_assoc, List.append_assoc]
        exact List.perm_append_comm.append_left _
      · have hne : key b ≠ key a := by
          intro heq
          exact hdistinct.1 (heq ▸ List.mem_map_of_mem ha)
        rw [hother _ hne, List.append_assoc]
        exact (ih hdistinct.2 ha).append_left _

/-- With distinct keys, erasing the first element with a key erases all of them. -/
theorem eraseP_key_eq_filter [DecidableEq κ] (hdistinct : (l.map key).Nodup) (k : κ) :
    (l.eraseP fun a => key a == k) = l.filter fun a => !(key a == k) := by
  induction l with
  | nil => rfl
  | cons a l ih =>
      rw [List.map_cons, List.nodup_cons] at hdistinct
      by_cases ha : key a = k
      · rw [List.eraseP_cons_of_pos (by simpa using ha), List.filter_cons_of_neg (by simpa using ha)]
        refine (List.filter_eq_self.mpr ?_).symm
        intro b hb
        have hne : key b ≠ k := by
          intro hbk
          exact hdistinct.1 (ha.trans hbk.symm ▸ List.mem_map_of_mem hb)
        simpa using hne
      · rw [List.eraseP_cons_of_neg (by simpa using ha),
          List.filter_cons_of_pos (by simpa using ha), ih hdistinct.2]

theorem filter_key_eq_singleton [DecidableEq κ] (hdistinct : (l.map key).Nodup) {a : α}
    (ha : a ∈ l) : (l.filter fun b => key b = key a) = [a] := by
  induction l with
  | nil => cases ha
  | cons b l ih =>
      rw [List.map_cons, List.nodup_cons] at hdistinct
      rcases List.mem_cons.mp ha with rfl | ha
      · rw [List.filter_cons_of_pos (by simp), List.filter_eq_nil_iff.mpr]
        intro c hc hkey
        exact hdistinct.1 (of_decide_eq_true hkey ▸ List.mem_map_of_mem hc)
      · have hne : key b ≠ key a := by
          intro hkey
          exact hdistinct.1 (hkey ▸ List.mem_map_of_mem ha)
        rw [List.filter_cons_of_neg (by simpa using hne), ih hdistinct.2 ha]

/-- What a position of a list with one more element holds. -/
theorem getElem?_concat {xs : List α} {x y : α} {i : ℕ} (h : (xs ++ [x])[i]? = some y) :
    xs[i]? = some y ∨ i = xs.length ∧ y = x := by
  by_cases hi : i < xs.length
  · rw [List.getElem?_append_left hi] at h
    exact .inl h
  · have hlen := (List.getElem?_eq_some_iff.mp h).1
    rw [List.length_append, List.length_singleton] at hlen
    obtain rfl : i = xs.length := by omega
    rw [List.getElem?_concat_length, Option.some.injEq] at h
    exact .inr ⟨rfl, h.symm⟩

end KeyedMaps
