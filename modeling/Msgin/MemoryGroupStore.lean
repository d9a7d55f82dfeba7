import Mathlib.Data.Finset.Basic
import Mathlib.Data.List.AList
import Msgin.Errors
import Msgin.KeyedMaps
import Msgin.Message

/-!
# The in-memory group store

`memory.GroupStore`: the groups of an aggregator, each a list of members of which a claim
freezes a leading part. Every operation is one critical section. Stored messages are told
apart by the order in which they were appended.
-/

namespace Msgin.Memory

variable {P : Type}

structure Member (P : Type) where
  number : ℕ
  msg : Message P

structure GroupState (P : Type) where
  msgs : List (Member P)
  ids : Finset String
  createdAt : ℤ
  epoch : ℕ
  leased : Bool
  -- How many members the active claim has frozen.
  claimedLen : ℕ

structure Snapshot (P : Type) where
  key : String
  msgs : List (Member P)
  createdAt : ℤ

structure ClaimGroup (P : Type) extends Snapshot P where
  epoch : ℕ

structure GroupStore (P : Type) where
  groups : AList fun _ : String => GroupState P
  maxGroups : ℤ
  maxGroupMembers : ℤ
  -- The number of messages appended so far.
  appended : ℕ

/-- `1 << 20`. -/
def maxGroupsCeiling : ℤ := 1048576

/-- `1 << 20`. -/
def maxGroupMembersCeiling : ℤ := 1048576

def checkRange (sentinel : Sentinel) (site : String) (n lo hi : ℤ) : Option Err :=
  if lo ≤ n ∧ n ≤ hi then none
  else some (.wrapped "" (": " ++ site ++ ": " ++ toString n ++ " not in [" ++ toString lo ++ ", " ++
    toString hi ++ "]") (.sentinel sentinel))

def newGroupStore (maxGroups maxGroupMembers : ℤ) : Except Err (GroupStore P) :=
  match checkRange .errInvalidCapacity "memory.WithMaxGroups" maxGroups 1 maxGroupsCeiling with
  | some err => .error err
  | none =>
    match checkRange .errInvalidCapacity "memory.WithMaxGroupMembers" maxGroupMembers 1
        maxGroupMembersCeiling with
    | some err => .error err
    | none => .ok ⟨∅, maxGroups, maxGroupMembers, 0⟩

namespace GroupState

def live (key : String) (g : GroupState P) : Snapshot P :=
  ⟨key, g.msgs.drop g.claimedLen, g.createdAt⟩

def new (now : ℤ) : GroupState P := ⟨[], ∅, now, 0, false, 0⟩

def append (m : Member P) (g : GroupState P) : GroupState P :=
  { g with
    msgs := g.msgs ++ [m]
    ids := if m.msg.id ≠ "" then insert m.msg.id g.ids else g.ids }

/-- What `ClaimGroup` writes. -/
def lease (g : GroupState P) : GroupState P :=
  { g with epoch := g.epoch + 1, leased := true, claimedLen := g.msgs.length }

/-- `delete(g.ids, id)` for the claimed members. -/
def forget (ids : Finset String) (claimed : List (Member P)) : Finset String :=
  claimed.foldl (fun ids m => if m.msg.id ≠ "" then ids.erase m.msg.id else ids) ids

/-- What `SettleGroup` leaves of the group. -/
def settled (now : ℤ) (g : GroupState P) : Option (GroupState P) :=
  match g.msgs.drop g.claimedLen with
  | [] => none
  | residual =>
    some ⟨residual, forget g.ids (g.msgs.take g.claimedLen), now, g.epoch, false, 0⟩

def abandoned (g : GroupState P) : GroupState P := { g with leased := false, claimedLen := 0 }

end GroupState

namespace GroupStore

def groupRejected (key : String) (st : GroupStore P) : Err :=
  .wrapped "" (": memory.GroupStore.Add: new group " ++ key.quote ++ " rejected: store holds " ++
    toString st.groups.entries.length ++ " groups, limit " ++ toString st.maxGroups)
    (.sentinel .errOverflowDropped)

def memberRejected (key : String) (g : GroupState P) (st : GroupStore P) : Err :=
  let err := Err.wrapped "" (": memory.GroupStore.Add: group " ++ key.quote ++ " holds " ++
    toString g.msgs.length ++ " members, limit " ++ toString st.maxGroupMembers)
    (.sentinel .errOverflowDropped)
  if g.leased then err else .permanent err

/-- `Add` once the group is in the map. -/
def addTo (key : String) (g : GroupState P) (msg : Message P) (st : GroupStore P) :
    (Option (Snapshot P) × Option Err) × GroupStore P :=
  if msg.id ≠ "" ∧ msg.id ∈ g.ids then ((some (g.live key), none), st)
  else if st.maxGroupMembers ≤ g.msgs.length then
    ((some (g.live key), some (st.memberRejected key g)), st)
  else
    let g' := g.append ⟨st.appended, msg⟩
    ((some (g'.live key), none),
      { st with groups := st.groups.insert key g', appended := st.appended + 1 })

def add (key : String) (msg : Message P) (now : ℤ) (st : GroupStore P) :
    (Option (Snapshot P) × Option Err) × GroupStore P :=
  match st.groups.lookup key with
  | some g => st.addTo key g msg
  | none =>
    if st.maxGroups ≤ st.groups.entries.length then ((none, some (st.groupRejected key)), st)
    else { st with groups := st.groups.insert key (.new now) }.addTo key (.new now) msg

def claimGroup (key : String) (st : GroupStore P) : Option (ClaimGroup P) × GroupStore P :=
  match st.groups.lookup key with
  | none => (none, st)
  | some g =>
    if g.leased then (none, st)
    else
      (some ⟨⟨key, g.msgs, g.createdAt⟩, g.epoch + 1⟩,
        { st with groups := st.groups.insert key g.lease })

/-- The group whose lease carries the epoch of this claim. -/
def fenced (claim : ClaimGroup P) (st : GroupStore P) : Option (GroupState P) :=
  (st.groups.lookup claim.key).filter fun g => g.leased && g.epoch == claim.epoch

def settleGroup (claim : ClaimGroup P) (now : ℤ) (st : GroupStore P) : GroupStore P :=
  match st.fenced claim with
  | none => st
  | some g =>
    match g.settled now with
    | none => { st with groups := st.groups.erase claim.key }
    | some g' => { st with groups := st.groups.insert claim.key g' }

def abandonGroup (claim : ClaimGroup P) (st : GroupStore P) : GroupStore P :=
  match st.fenced claim with
  | none => st
  | some g => { st with groups := st.groups.insert claim.key g.abandoned }

def expired (before : ℤ) (st : GroupStore P) : List (Snapshot P) :=
  st.groups.entries.filterMap fun ⟨key, g⟩ =>
    if g.createdAt < before && !g.leased then some ⟨key, g.msgs, g.createdAt⟩ else none

end GroupStore

end Msgin.Memory
