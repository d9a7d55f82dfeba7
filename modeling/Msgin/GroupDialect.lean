import Mathlib.Data.List.Sort
import Msgin.Errors
import Msgin.SqlEngines
import Msgin.TableRows

/-!
# The group dialects

The transactions of `postgresGroupDialect`, `mysqlGroupDialect` and `sqliteGroupDialect`
on the rows of one group key that fits its column: at most one row of the group table and any
number of rows of the member table. The three dialects send the same statements in the same order.
They differ in how text columns compare and are stored, and in the name of the error site.
-/

namespace Msgin.Sql

open TableRows

def Engine.groupOverflowSite (e : Engine) : String :=
  "msgin/sql/" ++ e.name ++ ": AddMember"

structure MemberRow where
  msgID : String
  seq : ℤ
  headers : List UInt8
  payload : List UInt8
  deriving DecidableEq

structure StoredMember where
  row : MemberRow
  claimedEpoch : Option ℕ
  deriving DecidableEq

structure GroupRow where
  createdAt : ℤ
  epoch : ℕ
  lockedBy : Option String
  lockedAt : Option ℤ
  deriving DecidableEq

/-- The row that is stored of a member. -/
def MemberRow.stored (e : Engine) (m : MemberRow) : MemberRow :=
  { m with msgID := e.storedID m.msgID }

/-- The rows of one `group_key`, the primary key of the group table. -/
structure GroupTables where
  group : Option GroupRow
  members : List StoredMember
  deriving DecidableEq

structure GroupRows where
  groupKey : String
  createdAt : ℤ
  members : List MemberRow
  deriving DecidableEq

structure ClaimedGroup where
  rows : GroupRows
  epoch : ℕ
  deriving DecidableEq

def GroupRows.zero : GroupRows := ⟨"", zeroTime, []⟩

/-- `locked_by IS NULL OR locked_at <= now - leaseTTL`. -/
def GroupRow.claimable (g : GroupRow) (leaseTTL now : ℤ) : Bool :=
  g.lockedBy.isNone || g.lockedAt.any fun at_ => at_ ≤ now - microseconds leaseTTL

/-- `locked_by IS NOT NULL AND locked_at > now - leaseTTL`. -/
def GroupRow.leaseLive (g : GroupRow) (leaseTTL now : ℤ) : Bool :=
  g.lockedBy.isSome && g.lockedAt.any fun at_ => now - microseconds leaseTTL < at_

/-- `locked_by = lockedBy AND epoch = epoch`. -/
def GroupRow.fenced (g : GroupRow) (e : Engine) (lockedBy : String) (epoch : ℕ) : Bool :=
  (g.lockedBy.any fun w => e.collation.eq w lockedBy) && g.epoch == epoch

def unboundedGroupMembers : ℤ := -1

/-- `1 << 20`. -/
def maxGroupMembersCeiling : ℤ := 1048576

def validateMaxMembers (site : String) (maxMembers : ℤ) : Option Err :=
  if maxMembers = unboundedGroupMembers then none
  else if 1 ≤ maxMembers ∧ maxMembers ≤ maxGroupMembersCeiling then none
  else some <| .permanent <| .wrapped "" (": " ++ site ++ ": " ++ toString maxMembers ++
    " not in [1, " ++ toString maxGroupMembersCeiling ++ "] and not UnboundedGroupMembers (" ++
    toString unboundedGroupMembers ++ ")") (.sentinel .errInvalidCapacity)

def groupOverflow (e : Engine) (groupKey : String) (n : ℕ) (maxMembers : ℤ)
    (leaseLive : Bool) : Err :=
  let err := Err.wrapped "" (": " ++ e.groupOverflowSite ++ ": group " ++ groupKey.quote ++
    " holds " ++ toString n ++ " members, limit " ++ toString maxMembers)
    (.sentinel .errOverflowDropped)
  if leaseLive then err else .permanent err

def withoutMember (members : List MemberRow) (msgID : String) : List MemberRow :=
  members.filter fun m => m.msgID ≠ msgID

/-- `ORDER BY seq, msg_id`. -/
def MemberRow.inOrder (a b : MemberRow) : Prop :=
  a.seq < b.seq ∨ a.seq = b.seq ∧ a.msgID ≤ b.msgID

instance : DecidableRel MemberRow.inOrder := fun a b =>
  inferInstanceAs (Decidable (a.seq < b.seq ∨ a.seq = b.seq ∧ a.msgID ≤ b.msgID))

def selectMembers (claimedWhere : Option ℕ → Bool) (members : List StoredMember) : List MemberRow :=
  ((members.filter fun m => claimedWhere m.claimedEpoch).map StoredMember.row).insertionSort
    MemberRow.inOrder

/-- The insert that does nothing on a conflict, and whether this statement stored the row. -/
def insertMember (e : Engine) (m : MemberRow) (members : List StoredMember) :
    Except Err (Bool × List StoredMember) :=
  match e.insertText m.msgID with
  | none => .error errTextRefused
  | some msgID =>
    if members.any fun s => e.collation.eq s.row.msgID msgID then .ok (false, members)
    else .ok (true, members ++ [⟨{ m with msgID := msgID }, none⟩])

def addMember (e : Engine) (groupKey : String) (m : MemberRow) (maxMembers leaseTTL now : ℤ)
    (t : GroupTables) : (GroupRows × Option Err) × GroupTables :=
  if m.msgID = "" then ((.zero, some (.sentinel .errMissingMsgID)), t)
  else match validateMaxMembers e.groupOverflowSite maxMembers with
  | some err => ((.zero, some err), t)
  | none =>
    match insertMember e m t.members with
    | .error err => ((.zero, some err), t)
    | .ok (inserted, members) =>
      let g := t.group.getD ⟨now, 0, none, none⟩
      let live := selectMembers Option.isNone members
      if inserted ∧ maxMembers ≠ unboundedGroupMembers ∧ maxMembers < members.length then
        -- The transaction rolls back, the snapshot goes out with the rejection.
        ((⟨groupKey, g.createdAt, withoutMember live m.msgID⟩, some
          (groupOverflow e groupKey members.length maxMembers (g.leaseLive leaseTTL now))), t)
      else ((⟨groupKey, g.createdAt, live⟩, none), ⟨some g, members⟩)

/-- `claimed_epoch IS NULL OR claimed_epoch < epoch`. -/
def StoredMember.claimedBefore (epoch : ℕ) (m : StoredMember) : Bool :=
  m.claimedEpoch.all fun c => c < epoch

/-- `claimed_epoch = epoch`. -/
def StoredMember.claimedIn (epoch : ℕ) (m : StoredMember) : Bool :=
  m.claimedEpoch == some epoch

def claimGroup (groupKey lockedBy : String) (leaseTTL now : ℤ) (t : GroupTables) :
    Option ClaimedGroup × GroupTables :=
  match t.group with
  | none => (none, t)
  | some g =>
    if g.claimable leaseTTL now then
      let epoch := g.epoch + 1
      let members := updateWhere (StoredMember.claimedBefore epoch)
        (fun m => { m with claimedEpoch := some epoch }) t.members
      (some ⟨⟨groupKey, g.createdAt, selectMembers (· == some epoch) members⟩, epoch⟩,
        ⟨some { g with epoch := epoch, lockedBy := some lockedBy, lockedAt := some now }, members⟩)
    else (none, t)

def settleGroup (e : Engine) (lockedBy : String) (epoch : ℕ) (now : ℤ) (t : GroupTables) :
    Bool × GroupTables :=
  match t.group with
  | none => (false, t)
  | some g =>
    let members := deleteWhere (StoredMember.claimedIn epoch) t.members
    let applied := g.fenced e lockedBy epoch
    if 0 < members.length then
      (applied, ⟨some (if applied then
        { g with lockedBy := none, lockedAt := none, createdAt := now } else g), members⟩)
    else (applied, ⟨if applied then none else some g, members⟩)

def abandonGroup (e : Engine) (lockedBy : String) (epoch : ℕ) (t : GroupTables) :
    Bool × GroupTables :=
  match t.group with
  | none => (false, t)
  | some g =>
    let members := updateWhere (StoredMember.claimedIn epoch)
      (fun m => { m with claimedEpoch := none }) t.members
    let applied := g.fenced e lockedBy epoch
    (applied, ⟨some (if applied then { g with lockedBy := none, lockedAt := none } else g),
      members⟩)

end Msgin.Sql
