import Msgin.GroupFence
import Msgin.SqlGroupStore

/-!
# A claim of a group that fails

The dialects run `ClaimGroup` in a transaction of its own, and `GroupStore.ClaimGroup` decodes the
members after the transaction has been committed. A call can so return an error with the lease in the
table: when a member does not decode, and when the answer to the commit is lost.
-/

namespace Msgin.Sql

inductive TxEnd
  | committed
  -- a statement or the commit fails, and nothing is stored
  | rolledBack (err : Err)
  -- the commit is applied, and the caller is told that it failed
  | commitLost (err : Err)

/-- The answer of a transaction on `before` whose body gives `r`. -/
def TxEnd.close {α : Type} (before : GroupTables) (r : α × GroupTables) :
    TxEnd → Except Err α × GroupTables
  | committed => (.ok r.1, r.2)
  | rolledBack err => (.error err, before)
  | commitLost err => (.error err, r.2)

namespace GroupStore

def schemaNotReady (table : String) : Err :=
  .wrapped "" (": table " ++ table.quote ++ " not initialized; run EnsureSchema or apply the DDL")
    (.sentinel .errSchemaNotReady)

/-- The error of a query, after the probe of `SchemaExists` has answered. -/
def classifyQueryErr (table : String) (probe : Except Err Bool) (err : Err) : Err :=
  match probe with
  | .ok false => schemaNotReady table
  | _ => err

/-- `ClaimGroup` with a transaction that may fail. -/
def claimGroupUnder (st : GroupStore) (table key : String) (now : ℤ) (txEnd : TxEnd)
    (probe : Except Err Bool) (db : GroupDatabase) :
    (Option GroupClaim × Option Err) × GroupDatabase :=
  let (cg, t) := txEnd.close (db key) (Sql.claimGroup key st.lockedBy st.leaseTTL now (db key))
  let answer := match cg with
    | .error err => (none, some (classifyQueryErr table probe err))
    | .ok none => (none, none)
    | .ok (some cg) =>
      match st.decodeGroupRows cg.rows with
      | (_, some err) => (none, some err)
      | (snap, none) => (some ⟨snap, cg.epoch⟩, none)
  (answer, Function.update db key t)

variable {st : GroupStore} {key : String} {now : ℤ} {db : GroupDatabase} {cg : ClaimedGroup}

theorem claimGroupUnder_committed (howner : st.dialect.fits st.lockedBy = true)
    (table key : String) (now : ℤ) (probe : Except Err Bool) (db : GroupDatabase) :
    st.claimGroupUnder table key now .committed probe db = st.claimGroup key now db := by
  unfold claimGroupUnder claimGroup
  rcases Sql.claimGroup key st.lockedBy st.leaseTTL now (db key) with ⟨_ | cg, t⟩
  · rfl
  · simp only [TxEnd.close, if_pos howner]
    rcases st.decodeGroupRows cg.rows with ⟨snap, _ | err⟩ <;> rfl

def Refused (st : GroupStore) (key : String) (now : ℤ) (db : GroupDatabase) : Prop :=
  (st.claimGroup key now db).1 = (none, none)

/-- A call that takes `db` to `db'` leaves no lease of its own: a row leased by the store was leased
so before, and no store is refused the group at the same time that would have had it before. -/
structure LeavesNoLease (st : GroupStore) (key : String) (now : ℤ) (db db' : GroupDatabase) :
    Prop where
  notLeft : ∀ g, (db' key).group = some g → g.lockedBy = some st.lockedBy →
    (db key).group = some g
  notRefused : ∀ next : GroupStore, next.Refused key now db' → next.Refused key now db

theorem leavesNoLease_refl (st : GroupStore) (key : String) (now : ℤ) (db : GroupDatabase) :
    st.LeavesNoLease key now db db :=
  ⟨fun _ hg _ => hg, fun _ h => h⟩

theorem group_of_claimGroup {lockedBy : String} {leaseTTL : ℤ} {t t' : GroupTables}
    (h : Sql.claimGroup key lockedBy leaseTTL now t = (some cg, t')) :
    ∃ g, t.group = some g ∧
      t'.group = some ⟨g.createdAt, g.epoch + 1, some lockedBy, some now⟩ := by
  unfold Sql.claimGroup at h
  split at h
  · cases h
  · next g hg =>
      split at h
      · cases h
        exact ⟨g, hg, rfl⟩
      · cases h

theorem not_leavesNoLease {t' : GroupTables}
    (h : Sql.claimGroup key st.lockedBy st.leaseTTL now (db key) = (some cg, t')) :
    ¬st.LeavesNoLease key now db (Function.update db key t') := by
  intro hlaw
  obtain ⟨g, hg, hg'⟩ := group_of_claimGroup h
  have hsame := hlaw.notLeft _ (by rw [Function.update_self]; exact hg') rfl
  rw [hg, Option.some.injEq] at hsame
  have hepoch : g.epoch = g.epoch + 1 := congrArg GroupRow.epoch hsame
  omega

/-- The call returns an error and leaves a lease exactly when the claim was granted and then its
answer was lost or a member does not decode. With a transaction that commits it is the call of the
store. -/
theorem claimGroup_failed_iff (st : GroupStore) (table key : String) (now : ℤ) (txEnd : TxEnd)
    (probe : Except Err Bool) (db : GroupDatabase) :
    (((st.claimGroupUnder table key now txEnd probe db).1.2 ≠ none →
        st.LeavesNoLease key now db (st.claimGroupUnder table key now txEnd probe db).2) ↔
      ∀ cg, (Sql.claimGroup key st.lockedBy st.leaseTTL now (db key)).1 = some cg →
        (∃ err, txEnd = .rolledBack err) ∨
        txEnd = .committed ∧ ∃ msgs, decodeMembers st.framing cg.rows.members = .ok msgs) ∧
    (txEnd = .committed → st.dialect.fits st.lockedBy = true →
      st.claimGroupUnder table key now txEnd probe db = st.claimGroup key now db) := by
  refine ⟨?_, fun hcommitted howner => ?_⟩
  case refine_2 =>
    rw [hcommitted]
    exact claimGroupUnder_committed howner table key now probe db
  rcases hc : Sql.claimGroup key st.lockedBy st.leaseTTL now (db key) with ⟨_ | cg, t'⟩
  · obtain rfl := claimGroup_none hc
    have hdb : (st.claimGroupUnder table key now txEnd probe db).2 = db := by
      cases txEnd <;> simp only [claimGroupUnder, hc, TxEnd.close, Function.update_eq_self]
    rw [hdb]
    exact ⟨fun _ cg h => (by cases h), fun _ _ => leavesNoLease_refl st key now db⟩
  · simp only [Option.some.injEq, forall_eq']
    cases txEnd with
    | rolledBack err =>
        simp only [claimGroupUnder, TxEnd.close, Function.update_eq_self]
        exact ⟨fun _ => .inl ⟨err, rfl⟩, fun _ _ => leavesNoLease_refl st key now db⟩
    | commitLost err =>
        simp only [claimGroupUnder, hc, TxEnd.close]
        refine ⟨fun hlaw => absurd (hlaw (by simp)) (not_leavesNoLease hc), ?_⟩
        rintro (⟨err, h⟩ | ⟨h, -⟩) <;> cases h
    | committed =>
        simp only [claimGroupUnder, hc, TxEnd.close, decodeGroupRows]
        rcases hd : decodeMembers st.framing cg.rows.members with err | msgs
        · refine ⟨fun hlaw => absurd (hlaw (by simp)) (not_leavesNoLease hc), ?_⟩
          rintro (⟨err, h⟩ | ⟨-, msgs, h⟩) <;> cases h
        · exact ⟨fun _ => .inr ⟨trivial, msgs, rfl⟩, fun _ h => absurd rfl h⟩

def emptyObject : Framing where
  encodeHeaders _ := .ok [0x7b, 0x7d]
  decodeHeaders b :=
    if b = [0x7b, 0x7d] then .ok ⟨fun _ => none⟩
    else .error (.new "unexpected end of JSON input")

def postgresStore (lockedBy : String) : GroupStore :=
  ⟨.postgres, emptyObject, 300000000000, lockedBy, 100⟩

def cutHeaders : GroupDatabase :=
  Function.update (fun _ => ⟨none, []⟩) "orders"
    ⟨some ⟨0, 0, none, none⟩, [⟨⟨"1", 0, [0x7b], []⟩, none⟩]⟩

theorem cutHeaders_left_leased :
    ((postgresStore "a").claimGroupUnder "groups" "orders" 10 .committed (.ok true) cutHeaders).1 =
      (none, some (.wrapped ("msgin/sql: decode group member " ++ "1".quote ++ ": ") ""
        (.new "unexpected end of JSON input"))) ∧
    ¬(postgresStore "b").Refused "orders" 10 cutHeaders ∧
    (postgresStore "b").Refused "orders" 10
      ((postgresStore "a").claimGroupUnder "groups" "orders" 10 .committed (.ok true)
        cutHeaders).2 := by
  refine ⟨rfl, fun h => ?_, rfl⟩
  cases h

end GroupStore

end Msgin.Sql
