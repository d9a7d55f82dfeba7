import Msgin.GroupDialect
import Msgin.Splitter

/-!
# The SQL group store

`sql.GroupStore` over one of the dialects that compare group keys exactly: the rows of each key are
the tables of that key. `EncodeHeaders` and `DecodeHeaders` are parameters. The tables exist, so
that `classifyQueryErr` returns the error it is given.
-/

namespace Msgin.Sql

/-- A payload of type `any`: a `[]byte`, or a value whose type prints as `typeName`. -/
inductive AnyPayload
  | bytes (b : List UInt8)
  | other (typeName : String)
  deriving DecidableEq

/-- The JSON framing of a header set. -/
structure Framing where
  encodeHeaders : Headers → Except Err (List UInt8)
  decodeHeaders : List UInt8 → Except Err Headers

structure GroupSnapshot where
  key : String
  msgs : List (Message AnyPayload)
  createdAt : ℤ

structure GroupClaim extends GroupSnapshot where
  epoch : ℕ

structure GroupStore where
  dialect : Engine
  framing : Framing
  leaseTTL : ℤ
  lockedBy : String
  maxGroupMembers : ℤ

abbrev GroupDatabase := String → GroupTables

namespace GroupStore

def decodeMembers (f : Framing) : List MemberRow → Except Err (List (Message AnyPayload))
  | [] => .ok []
  | m :: members =>
    match f.decodeHeaders m.headers with
    | .error err =>
      .error (.wrapped ("msgin/sql: decode group member " ++ m.msgID.quote ++ ": ") "" err)
    | .ok headers => (decodeMembers f members).map (⟨.bytes m.payload, headers⟩ :: ·)

def decodeGroupRows (st : GroupStore) (rows : GroupRows) : GroupSnapshot × Option Err :=
  match decodeMembers st.framing rows.members with
  | .error err => (⟨"", [], zeroTime⟩, some err)
  | .ok msgs => (⟨rows.groupKey, msgs, rows.createdAt⟩, none)

/-- What `Add` returns for the answer of `AddMember`. -/
def addAnswer (st : GroupStore) (answer : GroupRows × Option Err) :
    Option GroupSnapshot × Option Err :=
  let (snap, decodeErr) := st.decodeGroupRows answer.1
  match answer.2 with
  | none => (some snap, decodeErr)
  | some err =>
    if err.is .errOverflowDropped ∧ decodeErr = none then (some snap, some err)
    else (none, some err)

def add (st : GroupStore) (key : String) (msg : Message AnyPayload) (now : ℤ)
    (db : GroupDatabase) : (Option GroupSnapshot × Option Err) × GroupDatabase :=
  if msg.id = "" then ((none, some (.sentinel .errMissingMsgID)), db)
  else match st.framing.encodeHeaders msg.headers with
  | .error err => ((none, some err), db)
  | .ok headers =>
    match msg.payload with
    | .other typeName =>
      ((none, some (.wrapped "" (": got " ++ typeName) (.sentinel .errInvalidPayload))), db)
    | .bytes payload =>
      -- The upsert of the group row refuses a key that does not fit its column.
      if st.dialect.fits key then
        let seq := (msg.headers.int headerSequenceNumber).getD 0
        let (answer, t) := addMember st.dialect key ⟨msg.id, seq, headers, payload⟩
          st.maxGroupMembers st.leaseTTL now (db key)
        (st.addAnswer answer, Function.update db key t)
      else ((none, some errTextRefused), db)

def claimGroup (st : GroupStore) (key : String) (now : ℤ) (db : GroupDatabase) :
    (Option GroupClaim × Option Err) × GroupDatabase :=
  match Sql.claimGroup key st.lockedBy st.leaseTTL now (db key) with
  | (none, t) => ((none, none), Function.update db key t)
  | (some cg, t) =>
    -- The update of the group row refuses an owner that does not fit `locked_by`.
    if st.dialect.fits st.lockedBy then
      match st.decodeGroupRows cg.rows with
      | (_, some err) => ((none, some err), Function.update db key t)
      | (snap, none) => ((some ⟨snap, cg.epoch⟩, none), Function.update db key t)
    else ((none, some errTextRefused), db)

/-- A miss of the fence is not an error. -/
def settleGroup (st : GroupStore) (claim : GroupClaim) (now : ℤ) (db : GroupDatabase) :
    GroupDatabase :=
  Function.update db claim.key
    (Sql.settleGroup st.dialect st.lockedBy claim.epoch now (db claim.key)).2

def abandonGroup (st : GroupStore) (claim : GroupClaim) (db : GroupDatabase) : GroupDatabase :=
  Function.update db claim.key
    (Sql.abandonGroup st.dialect st.lockedBy claim.epoch (db claim.key)).2

end GroupStore

end Msgin.Sql
