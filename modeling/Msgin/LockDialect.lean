import Msgin.LeaseDialect
import Msgin.TransitionRuns

/-!
# The lock dialects

`ClaimLock`, `AckLock` and `NackLock` of `postgresDialect` and `mysqlDialect`, beside the calls of
the lease strategy on the same table. A claimed row stays locked by the transaction of its claim
until it is settled, and the count that the claim has bumped is seen with the commit. The server
clock of a state does not go back.
-/

namespace Msgin.Sql

open TableRows

variable {μ : Type*}

/-- What a statement reads as the current time in a transaction that began at `start`. -/
def Engine.currentTime : Engine → ℤ → ℤ → ℤ
  -- `now()`
  | postgres, start, _ => start
  -- `UTC_TIMESTAMP(6)`
  | _, _, now => now

structure LockedRow (μ : Type*) where
  id : ℕ
  msg : μ
  deliveryCount : ℕ
  -- when `Tx` began
  start : ℤ

/-- `visible_after <= now AND locked_at IS NULL`. -/
def LeaseRow.lockable (now : ℤ) (r : LeaseRow μ) : Bool :=
  r.visibleAfter ≤ now && r.lockedAt.isNone

/-- The select of a claim, `FOR UPDATE SKIP LOCKED LIMIT 1`. -/
def selectLockable (now : ℤ) (locked : List ℕ) (tie : ℕ → ℕ) (rows : List (LeaseRow μ)) :
    Option (LeaseRow μ) :=
  ((rows.filter fun r => r.lockable now && !locked.contains r.id)
    |>.insertionSort (LeaseRow.inOrder tie)).head?

def claimLock (e : Engine) (start now : ℤ) (locked : List ℕ) (tie : ℕ → ℕ) (t : LeaseTable μ) :
    Option (LockedRow μ) :=
  (selectLockable (e.currentTime start now) locked tie t.rows).map fun r =>
    ⟨r.id, r.msg, r.deliveryCount + 1, start⟩

def ackLock (lr : LockedRow μ) (t : LeaseTable μ) : LeaseTable μ :=
  ⟨deleteWhere (fun r => r.id == lr.id) t.rows, t.lastID⟩

/-- The columns a `NackLock` commits. -/
def LeaseRow.requeueLocked (delay now : ℤ) (r : LeaseRow μ) : LeaseRow μ :=
  { r.requeue delay now with deliveryCount := r.deliveryCount + 1 }

def nackLock (e : Engine) (lr : LockedRow μ) (delay now : ℤ) (t : LeaseTable μ) : LeaseTable μ :=
  ⟨updateWhere (fun r => r.id == lr.id)
    (LeaseRow.requeueLocked delay (e.currentTime lr.start now)) t.rows, t.lastID⟩

structure QueueState (μ : Type*) where
  now : ℤ
  table : LeaseTable μ
  -- when the transactions began that have not claimed a row yet
  begun : List ℤ
  -- the rows of the open transactions
  held : List (LockedRow μ)

inductive QueueCall (μ : Type*)
  | tick (d : ℕ)
  | insert (gap : ℕ) (msg : μ) (delay : ℤ)
  | claim (limit : ℕ) (lockedBy : String) (leaseTTL : ℤ) (tie : ℕ → ℕ)
  | ack (id : ℕ) (lockedBy : String) (epoch : ℕ)
  | nack (id : ℕ) (lockedBy : String) (epoch : ℕ) (requeue : Bool) (delay : ℤ)
  | beginLockTx
  | claimLock (start : ℤ) (tie : ℕ → ℕ)
  | ackLock (id : ℕ)
  | nackLock (id : ℕ) (requeue : Bool) (delay : ℤ)
  -- an error, a crash or a cancelled context before the commit
  | rollback (id : ℕ)

namespace QueueState

def new (now : ℤ) : QueueState μ := ⟨now, ⟨[], 0⟩, [], []⟩

def locked (s : QueueState μ) : List ℕ := s.held.map LockedRow.id

def lockedRow (s : QueueState μ) (id : ℕ) : Option (LockedRow μ) :=
  s.held.find? fun lr => lr.id == id

def release (s : QueueState μ) (id : ℕ) (t : LeaseTable μ) : QueueState μ :=
  { s with table := t, held := s.held.filter fun lr => lr.id != id }

def step (e : Engine) (s : QueueState μ) : QueueCall μ → Option (QueueState μ)
  | .tick d => some { s with now := s.now + d }
  | .insert gap msg delay => some { s with table := insert e gap msg delay s.now s.table }
  | .claim limit lockedBy leaseTTL tie =>
      some { s with table := (claim e limit lockedBy leaseTTL s.now s.locked tie s.table).2 }
  | .ack id lockedBy epoch => some { s with table := (ack e id lockedBy epoch s.table).2 }
  | .nack id lockedBy epoch requeue delay =>
      some { s with
        table := (nack e id lockedBy epoch (nackDelay requeue delay) s.now s.table).2 }
  | .beginLockTx => some { s with begun := s.now :: s.begun }
  | .claimLock start tie =>
      if start ∈ s.begun then
        match claimLock e start s.now s.locked tie s.table with
        -- nothing is claimable, and the transaction is rolled back
        | none => some { s with begun := s.begun.erase start }
        | some lr => some { s with begun := s.begun.erase start, held := lr :: s.held }
      else none
  | .ackLock id => (s.lockedRow id).map fun lr => s.release id (ackLock lr s.table)
  | .nackLock id requeue delay =>
      (s.lockedRow id).map fun lr =>
        s.release id (nackLock e lr (nackDelay requeue delay) s.now s.table)
  | .rollback id => (s.lockedRow id).map fun _ => s.release id s.table

def returned (e : Engine) (s : QueueState μ) : QueueCall μ → List ℕ
  | .claim limit lockedBy leaseTTL tie =>
      (claim e limit lockedBy leaseTTL s.now s.locked tie s.table).1.map ClaimedRow.id
  | .claimLock start tie =>
      ((claimLock e start s.now s.locked tie s.table).map LockedRow.id).toList
  | _ => []

end QueueState

/-- A `Nack` that takes effect. -/
structure NackEvent where
  id : ℕ
  requeue : Bool
  delay : ℤ
  -- what its statement reads as the current time
  stamp : ℤ
  deriving DecidableEq

def QueueState.nacked (e : Engine) (s : QueueState μ) : QueueCall μ → Option NackEvent
  | .nack id lockedBy epoch requeue delay =>
      if (nack e id lockedBy epoch (nackDelay requeue delay) s.now s.table).1 then
        some ⟨id, requeue, delay, s.now⟩
      else none
  | .nackLock id requeue delay =>
      (s.lockedRow id).map fun lr => ⟨id, requeue, delay, e.currentTime lr.start s.now⟩
  | _ => none

end Msgin.Sql
