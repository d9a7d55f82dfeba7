import Mathlib.Data.List.Sort
import Msgin.SqlEngines
import Msgin.TableRows

/-!
# The lease dialects

`Claim`, `Ack`, `Nack` and `Insert` of `postgresDialect`, `mysqlDialect` and
`sqliteDialect` on one queue table. The columns of the message itself (`msg_id`, `headers`
and `payload`) are written by `Insert`, handed out by `Claim` and read by no condition, so
the table is stated over any type of messages. `ORDER BY visible_after` leaves the order of
equal times open; a claim takes the choice as `tie`, and the ids that other transactions
have locked as `locked`.
-/

namespace Msgin.Sql

open TableRows

variable {μ : Type*}

structure LeaseRow (μ : Type*) where
  id : ℕ
  msg : μ
  lockedBy : Option String
  lockedAt : Option ℤ
  visibleAfter : ℤ
  deliveryCount : ℕ
  leaseEpoch : ℕ
  deriving DecidableEq

structure ClaimedRow (μ : Type*) where
  id : ℕ
  msg : μ
  deliveryCount : ℕ
  leaseEpoch : ℕ
  deriving DecidableEq

structure LeaseTable (μ : Type*) where
  rows : List (LeaseRow μ)
  -- The highest id given out so far.
  lastID : ℕ
  deriving DecidableEq

namespace LeaseRow

/-- `visible_after <= now AND (locked_at IS NULL OR locked_at <= now - leaseTTL)`. -/
def claimable (leaseTTL now : ℤ) (r : LeaseRow μ) : Bool :=
  r.visibleAfter ≤ now && r.lockedAt.all fun t => t ≤ now - microseconds leaseTTL

/-- `id = id AND locked_by = lockedBy AND lease_epoch = epoch`. -/
def fenced (e : Engine) (id : ℕ) (lockedBy : String) (epoch : ℕ) (r : LeaseRow μ) : Bool :=
  r.id == id && r.lockedBy.any (fun w => e.collation.eq w lockedBy) && r.leaseEpoch == epoch

def lease (lockedBy : String) (now : ℤ) (r : LeaseRow μ) : LeaseRow μ :=
  { r with
    lockedBy := some lockedBy
    lockedAt := some now
    leaseEpoch := r.leaseEpoch + 1
    deliveryCount := r.deliveryCount + 1 }

def claimed (r : LeaseRow μ) : ClaimedRow μ :=
  ⟨r.id, r.msg, r.deliveryCount, r.leaseEpoch⟩

/-- `ORDER BY visible_after`. -/
def inOrder (tie : ℕ → ℕ) (r q : LeaseRow μ) : Prop :=
  r.visibleAfter < q.visibleAfter ∨ r.visibleAfter = q.visibleAfter ∧ tie r.id ≤ tie q.id

instance (tie : ℕ → ℕ) : DecidableRel (inOrder (μ := μ) tie) := fun r q =>
  inferInstanceAs (Decidable (r.visibleAfter < q.visibleAfter ∨
    r.visibleAfter = q.visibleAfter ∧ tie r.id ≤ tie q.id))

end LeaseRow

def LeaseTable.nextID (e : Engine) (gap : ℕ) (t : LeaseTable μ) : ℕ :=
  if e.reusesIDs then (t.rows.map LeaseRow.id).foldr max 0 + 1 else t.lastID + gap + 1

/-- `gap` counts the ids that inserts which did not commit have used up. -/
def insert (e : Engine) (gap : ℕ) (msg : μ) (delay now : ℤ) (t : LeaseTable μ) : LeaseTable μ :=
  let id := t.nextID e gap
  ⟨t.rows ++ [⟨id, msg, none, none, now + microseconds delay, 0, 0⟩], max t.lastID id⟩

def selectClaimable (e : Engine) (limit : ℕ) (leaseTTL now : ℤ) (locked : List ℕ)
    (tie : ℕ → ℕ) (rows : List (LeaseRow μ)) : List (LeaseRow μ) :=
  ((rows.filter fun r => r.claimable leaseTTL now && !(e.skipsLocked && locked.contains r.id))
    |>.insertionSort (LeaseRow.inOrder tie)).take limit

def claim (e : Engine) (limit : ℕ) (lockedBy : String) (leaseTTL now : ℤ) (locked : List ℕ)
    (tie : ℕ → ℕ) (t : LeaseTable μ) : List (ClaimedRow μ) × LeaseTable μ :=
  let selected := selectClaimable e limit leaseTTL now locked tie t.rows
  let ids := selected.map LeaseRow.id
  let rows := updateWhere (fun r => ids.contains r.id) (LeaseRow.lease lockedBy now) t.rows
  (selected.map fun r => (r.lease lockedBy now).claimed, ⟨rows, t.lastID⟩)

def ack (e : Engine) (id : ℕ) (lockedBy : String) (epoch : ℕ) (t : LeaseTable μ) :
    Bool × LeaseTable μ :=
  (decide (0 < affected (LeaseRow.fenced e id lockedBy epoch) t.rows),
    ⟨deleteWhere (LeaseRow.fenced e id lockedBy epoch) t.rows, t.lastID⟩)

/-- The columns a `Nack` sets. -/
def LeaseRow.requeue (delay now : ℤ) (r : LeaseRow μ) : LeaseRow μ :=
  { r with lockedBy := none, lockedAt := none, visibleAfter := now + microseconds delay }

def nack (e : Engine) (id : ℕ) (lockedBy : String) (epoch : ℕ) (delay now : ℤ)
    (t : LeaseTable μ) : Bool × LeaseTable μ :=
  (decide (0 < affected (LeaseRow.fenced e id lockedBy epoch) t.rows),
    ⟨updateWhere (LeaseRow.fenced e id lockedBy epoch) (LeaseRow.requeue delay now) t.rows,
      t.lastID⟩)

/-- The delay that the closures of a delivery pass on: `requeue = false` is a requeue without one. -/
def nackDelay (requeue : Bool) (delay : ℤ) : ℤ := if requeue then delay else 0

theorem mem_selectClaimable {e : Engine} {limit : ℕ} {leaseTTL now : ℤ} {locked : List ℕ}
    {tie : ℕ → ℕ} {rows : List (LeaseRow μ)} {r : LeaseRow μ}
    (hr : r ∈ selectClaimable e limit leaseTTL now locked tie rows) :
    r ∈ rows ∧ r.claimable leaseTTL now = true := by
  have hsorted := List.mem_of_mem_take hr
  rw [List.mem_insertionSort, List.mem_filter, Bool.and_eq_true] at hsorted
  exact ⟨hsorted.1, hsorted.2.1⟩

theorem le_foldr_max {n : ℕ} {l : List ℕ} (h : n ∈ l) : n ≤ l.foldr max 0 := by
  induction l with
  | nil => simp at h
  | cons m l ih =>
      simp only [List.foldr_cons]
      rcases List.mem_cons.mp h with rfl | h
      · omega
      · have hle := ih h
        omega

theorem nextID_notMem {e : Engine} {gap : ℕ} {t : LeaseTable μ}
    (hlast : ∀ r ∈ t.rows, r.id ≤ t.lastID) : t.nextID e gap ∉ t.rows.map LeaseRow.id := by
  intro hmem
  simp only [LeaseTable.nextID] at hmem
  split at hmem
  · have hle := le_foldr_max hmem
    omega
  · obtain ⟨r, hr, hid⟩ := List.mem_map.mp hmem
    have hle := hlast r hr
    omega

end Msgin.Sql
