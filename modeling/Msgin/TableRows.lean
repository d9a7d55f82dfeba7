import Mathlib.Data.List.Basic
import Mathlib.Data.List.Nodup

/-!
# Statements on the rows of a table

A table is the list of its rows. `updateWhere` and `deleteWhere` are the two statements
that take a condition on a row; each of them reports the rows it affected through
`affected`. A statement whose condition no row meets leaves the table as it was.
-/

namespace TableRows

variable {α κ : Type*}

def updateWhere (cond : α → Bool) (set : α → α) (rows : List α) : List α :=
  rows.map fun r => if cond r then set r else r

def deleteWhere (cond : α → Bool) (rows : List α) : List α :=
  rows.filter fun r => !cond r

/-- The number of rows a statement with this condition changes. -/
def affected (cond : α → Bool) (rows : List α) : ℕ :=
  rows.countP cond

variable {cond : α → Bool} {set : α → α} {rows : List α} {r : α}

theorem mem_updateWhere :
    r ∈ updateWhere cond set rows ↔ ∃ q ∈ rows, (if cond q then set q else q) = r :=
  List.mem_map

theorem mem_updateWhere_of_false (hr : r ∈ rows) (hc : cond r = false) :
    r ∈ updateWhere cond set rows :=
  mem_updateWhere.mpr ⟨r, hr, by rw [hc]; rfl⟩

theorem mem_deleteWhere : r ∈ deleteWhere cond rows ↔ r ∈ rows ∧ cond r = false := by
  simp [deleteWhere]

theorem affected_pos : 0 < affected cond rows ↔ ∃ r ∈ rows, cond r = true :=
  List.countP_pos_iff

theorem affected_eq_zero : affected cond rows = 0 ↔ ∀ r ∈ rows, cond r = false := by
  simp [affected, List.countP_eq_zero]

theorem updateWhere_eq_self (h : ∀ r ∈ rows, cond r = false) :
    updateWhere cond set rows = rows := by
  have hr : ∀ r ∈ rows, (if cond r then set r else r) = id r := by
    intro r hmem
    simp [h r hmem]
  rw [updateWhere, List.map_congr_left hr, List.map_id]

theorem deleteWhere_eq_self (h : ∀ r ∈ rows, cond r = false) : deleteWhere cond rows = rows := by
  rw [deleteWhere, List.filter_eq_self]
  intro r hmem
  simp [h r hmem]

theorem deleteWhere_ne_self (hmem : r ∈ rows) (hr : cond r = true) :
    deleteWhere cond rows ≠ rows := by
  intro h
  have hkept : r ∈ deleteWhere cond rows := by rw [h]; exact hmem
  rw [mem_deleteWhere, hr] at hkept
  exact Bool.noConfusion hkept.2

/-- An update that leaves no row meeting its own condition changes any table that has one. -/
theorem updateWhere_ne_self (hmem : r ∈ rows) (hr : cond r = true)
    (hset : ∀ q, cond (set q) = false) : updateWhere cond set rows ≠ rows := by
  intro h
  rw [← h] at hmem
  obtain ⟨q, -, rfl⟩ := mem_updateWhere.mp hmem
  by_cases hq : cond q = true
  · rw [if_pos hq, hset] at hr
    exact Bool.noConfusion hr
  · rw [if_neg hq] at hr
    exact hq hr

theorem updateWhere_eq_nil : updateWhere cond set rows = [] ↔ rows = [] :=
  List.map_eq_nil_iff

end TableRows
