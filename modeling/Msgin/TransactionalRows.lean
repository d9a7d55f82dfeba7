import Mathlib.Data.List.Nodup
import Mathlib.Data.List.Perm.Basic

/-!
# Rows that transactions insert

A table as its committed rows together with the rows that open transactions have inserted. A
transaction reads the committed rows and its own; `commit` hands its rows over and `rollback` drops
them. A key is unique in the sense of a unique index if no two rows of the table bear it, whether
they are committed or not.
-/

namespace TransactionalRows

structure TxTable (τ ρ : Type*) where
  rows : List ρ
  -- inserted by transactions that are still open
  pending : List (τ × ρ)
  deriving DecidableEq

namespace TxTable

variable {τ ρ κ : Type*} {t : TxTable τ ρ} {i j : τ} {r : ρ} {key : ρ → κ}

/-- No two rows bear the same key, as the unique index on it has them. -/
def Unique (key : ρ → κ) (t : TxTable τ ρ) : Prop :=
  ((t.rows ++ t.pending.map Prod.snd).map key).Nodup

theorem Unique.filter (h : Unique key t) (p : ρ → Bool) :
    Unique key (⟨t.rows.filter p, t.pending⟩ : TxTable τ ρ) :=
  h.sublist ((List.filter_sublist.append_right _).map key)

variable [DecidableEq τ]

/-- The rows a transaction has inserted. -/
def own (t : TxTable τ ρ) (i : τ) : List ρ :=
  (t.pending.filter fun p => decide (p.1 = i)).map Prod.snd

/-- The rows that the other open transactions have inserted. -/
def others (t : TxTable τ ρ) (i : τ) : List ρ :=
  (t.pending.filter fun p => !decide (p.1 = i)).map Prod.snd

/-- What a transaction reads. -/
def visible (t : TxTable τ ρ) (i : τ) : List ρ := t.rows ++ t.own i

def insert (t : TxTable τ ρ) (i : τ) (r : ρ) : TxTable τ ρ := ⟨t.rows, t.pending ++ [(i, r)]⟩

def rollback (t : TxTable τ ρ) (i : τ) : TxTable τ ρ :=
  ⟨t.rows, t.pending.filter fun p => !decide (p.1 = i)⟩

def commit (t : TxTable τ ρ) (i : τ) : TxTable τ ρ := ⟨t.visible i, (t.rollback i).pending⟩

theorem own_insert_self : (t.insert i r).own i = t.own i ++ [r] := by
  simp [own, insert]

theorem own_insert_of_ne (h : i ≠ j) : (t.insert i r).own j = t.own j := by
  simp [own, insert, h]

theorem own_rollback_self : (t.rollback i).own i = [] := by
  simp [own, rollback]

theorem own_rollback_of_ne (h : j ≠ i) : (t.rollback i).own j = t.own j := by
  simp only [own, rollback, List.filter_filter]
  congr 1
  apply List.filter_congr
  intro p _
  by_cases hp : p.1 = j
  · simp [hp, h]
  · simp [hp]

/-- A transaction divides the table into what it reads and what the others hold back. -/
theorem unique_iff (i : τ) : Unique key t ↔ ((t.visible i ++ t.others i).map key).Nodup := by
  have hsplit : (t.rows ++ t.pending.map Prod.snd).Perm (t.visible i ++ t.others i) := by
    rw [visible, List.append_assoc, own, others, ← List.map_append]
    exact ((List.filter_append_perm _ _).symm.map Prod.snd).append_left _
  exact (hsplit.map key).nodup_iff

/-- A row is inserted where neither the rows a transaction reads nor those it would have to wait
for bear its key. -/
theorem Unique.insert (h : Unique key t) (hread : ∀ q ∈ t.visible i, key q ≠ key r)
    (hheld : ∀ q ∈ t.others i, key q ≠ key r) : Unique key (t.insert i r) := by
  have hothers : (t.insert i r).others i = t.others i := by simp [others, TxTable.insert]
  have hperm : (t.rows ++ (t.own i ++ [r]) ++ t.others i).Perm
      (r :: (t.visible i ++ t.others i)) := by
    rw [visible, ← List.append_assoc, List.append_assoc]
    exact List.perm_middle
  rw [unique_iff i, visible, own_insert_self, hothers]
  rw [TxTable.insert, (hperm.map key).nodup_iff, List.map_cons, List.nodup_cons]
  refine ⟨?_, (unique_iff i).mp h⟩
  rw [List.mem_map]
  rintro ⟨q, hq, hkey⟩
  rcases List.mem_append.mp hq with hq | hq
  · exact hread q hq hkey
  · exact hheld q hq hkey

/-- The rows of two open transactions bear different keys. -/
theorem Unique.own_ne (h : Unique key t) (hij : j ≠ i) {q : ρ} (hq : q ∈ t.own i)
    (hr : r ∈ t.own j) : key q ≠ key r := by
  have hothers : r ∈ t.others i := by
    obtain ⟨p, hp, rfl⟩ := List.mem_map.mp hr
    obtain ⟨hmem, hpj⟩ := List.mem_filter.mp hp
    have hpi : p.1 ≠ i := fun hpi => hij ((of_decide_eq_true hpj).symm.trans hpi)
    exact List.mem_map.mpr ⟨p, List.mem_filter.mpr ⟨hmem, by simp [hpi]⟩, rfl⟩
  have hnodup := (unique_iff i).mp h
  rw [List.map_append] at hnodup
  exact (List.nodup_append.mp hnodup).2.2 _ (List.mem_map_of_mem (List.mem_append_right _ hq)) _
    (List.mem_map_of_mem hothers)

theorem Unique.commit (h : Unique key t) (i : τ) : Unique key (t.commit i) :=
  (unique_iff i).mp h

theorem Unique.rollback (h : Unique key t) (i : τ) : Unique key (t.rollback i) :=
  h.sublist (((List.filter_sublist.map Prod.snd).append_left t.rows).map key)

end TxTable

end TransactionalRows
