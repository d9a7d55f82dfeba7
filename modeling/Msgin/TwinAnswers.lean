import Mathlib.Data.Finset.Dedup
import Msgin.GroupTwins

/-!
# The answers of the two group stores

What it means that two answers are the same, and `ClaimGroup` on a group in memory and on its twin
in the tables.
-/

namespace Msgin.Sql

open TableRows

def messageIDs {α : Type*} (msgs : List (Message α)) : Finset String :=
  (msgs.map Message.id).toFinset

theorem messageIDs_perm {α : Type*} {msgs msgs' : List (Message α)} (h : msgs.Perm msgs') :
    messageIDs msgs = messageIDs msgs' :=
  List.toFinset_eq_of_perm _ _ (h.map _)

/-- Whether a call failed, whether it failed with an overflow, and its class. -/
def verdict (err : Option Err) : Option Bool × Bool :=
  (err.map (Err.is .errOverflowDropped), isPermanent err)

/-- The same members, or none, and the same verdict. -/
def SameAdd (r : Option (Memory.Snapshot AnyPayload) × Option Err)
    (r' : Option GroupSnapshot × Option Err) : Prop :=
  (r.1.map fun snap => messageIDs (snap.msgs.map Memory.Member.msg)) =
      (r'.1.map fun snap => messageIDs snap.msgs) ∧
    verdict r.2 = verdict r'.2

/-- No claim, or claims on the same group with the same members and epoch. -/
def SameClaim (cl : Option (Memory.ClaimGroup AnyPayload))
    (r' : Option GroupClaim × Option Err) : Prop :=
  r'.2 = none ∧
    (cl.map fun c => (c.key, messageIDs (c.msgs.map Memory.Member.msg), c.epoch)) =
      r'.1.map fun c => (c.key, messageIDs c.msgs, c.epoch)

variable {st : GroupStore} {t : GroupTables} {g : Memory.GroupState AnyPayload} {key : String}

theorem decodeGroupRows_perm (rows : GroupRows) {msgs : List (Message AnyPayload)}
    (hwire : ∀ msg ∈ msgs, OnWire st.framing msg)
    (hrows : rows.members.Perm (msgs.map (rowOf st.framing))) :
    ∃ msgs', st.decodeGroupRows rows = (⟨rows.groupKey, msgs', rows.createdAt⟩, none) ∧
      msgs'.Perm msgs := by
  obtain ⟨msgs', hdecode, hperm⟩ := decodeMembers_perm hwire hrows
  refine ⟨msgs', ?_, hperm⟩
  rw [GroupStore.decodeGroupRows, hdecode]

/-- The lease of the group row, if there is one, is live. -/
def LeaseKept (st : GroupStore) (now : ℤ) (t : GroupTables) : Prop :=
  ∀ row, t.group = some row → row.lockedBy.isSome → row.leaseLive st.leaseTTL now = true

variable {row : GroupRow} {now : ℤ}

theorem TwinRow.leaseLive (h : TwinRow st g row)
    (hkept : row.lockedBy.isSome → row.leaseLive st.leaseTTL now = true) :
    row.leaseLive st.leaseTTL now = g.leased := by
  rcases hleased : g.leased with _ | _
  · have hlease := h.lease
    rw [hleased] at hlease
    simp only [GroupRow.leaseLive, hlease, Bool.false_eq_true, if_false, Option.isSome_none,
      Bool.false_and]
  · refine hkept ?_
    rw [h.lease, hleased]
    rfl

theorem TwinRow.claimable (h : TwinRow st g row)
    (hkept : row.lockedBy.isSome → row.leaseLive st.leaseTTL now = true) :
    row.claimable st.leaseTTL now = !g.leased := by
  rcases hleased : g.leased with _ | _
  · have hlease := h.lease
    rw [hleased] at hlease
    simp only [GroupRow.claimable, hlease, Bool.false_eq_true, if_false, Option.isNone_none,
      Bool.true_or, Bool.not_false]
  · have hlive := h.leaseLive hkept
    rw [hleased, GroupRow.leaseLive, Bool.and_eq_true] at hlive
    obtain ⟨hsome, hlive⟩ := hlive
    rcases hat : row.lockedAt with _ | at_
    · rw [hat] at hlive
      cases hlive
    · rw [hat, Option.any_some, decide_eq_true_eq] at hlive
      rw [GroupRow.claimable, hat, Option.any_some, ← Option.not_isSome, hsome,
        decide_eq_false (Int.not_le.mpr hlive)]
      rfl

theorem claimed_memberRows (f : Framing) (g : Memory.GroupState AnyPayload) :
    (selectMembers (· == some (g.epoch + 1)) (memberRows f g.lease)).Perm
      ((g.msgs.map Memory.Member.msg).map (rowOf f)) := by
  rw [memberRows_lease]
  have hperm := selectMembers_perm (· == some (g.epoch + 1))
    (g.msgs.map (tagged f (some (g.epoch + 1)))) fun q hq => by
      obtain ⟨m, -, rfl⟩ := List.mem_map.mp hq
      exact beq_self_eq_true _
  rwa [map_row_tagged] at hperm

theorem TwinRow.claim (h : TwinRow st g row) (hclaimable : row.claimable st.leaseTTL now = true) :
    Sql.claimGroup key st.lockedBy st.leaseTTL now ⟨some row, memberRows st.framing g⟩ =
      (some ⟨⟨key, row.createdAt,
          selectMembers (· == some (g.epoch + 1)) (memberRows st.framing g.lease)⟩, g.epoch + 1⟩,
        ⟨some ⟨row.createdAt, g.epoch + 1, some st.lockedBy, some now⟩,
          memberRows st.framing g.lease⟩) := by
  simp only [Sql.claimGroup, hclaimable, if_true, h.epoch, updateWhere_memberRows]

theorem Twin.claimGroup {mst : Memory.GroupStore AnyPayload} {db : GroupDatabase}
    (h : Twin st (mst.groups.lookup key) (db key)) (howner : st.dialect.fits st.lockedBy = true)
    (hkept : LeaseKept st now (db key)) :
    SameClaim (mst.claimGroup key).1 (st.claimGroup key now db).1 ∧
      Twin st ((mst.claimGroup key).2.groups.lookup key) ((st.claimGroup key now db).2 key) := by
  generalize hog : mst.groups.lookup key = og at h
  generalize ht : db key = t at h hkept
  cases h with
  | absent =>
      have hmem : mst.claimGroup key = (none, mst) := by
        simp only [Memory.GroupStore.claimGroup, hog]
      have hsql : st.claimGroup key now db = ((none, none), Function.update db key ⟨none, []⟩) := by
        simp only [GroupStore.claimGroup, Sql.claimGroup, ht]
      rw [hmem, hsql, hog]
      refine ⟨⟨rfl, rfl⟩, ?_⟩
      show Twin st none (Function.update db key ⟨none, []⟩ key)
      rw [Function.update_self]
      exact .absent
  | present g row related =>
      have hclaimable := related.claimable (hkept row rfl)
      rcases hleased : g.leased with _ | _
      · have hmem : mst.claimGroup key = (some ⟨⟨key, g.msgs, g.createdAt⟩, g.epoch + 1⟩,
            { mst with groups := mst.groups.insert key g.lease }) := by
          simp only [Memory.GroupStore.claimGroup, hog, hleased, Bool.false_eq_true, if_false]
        rw [hleased] at hclaimable
        have hwire : ∀ msg ∈ g.msgs.map Memory.Member.msg, OnWire st.framing msg := by
          intro msg hmsg
          obtain ⟨m, hm, rfl⟩ := List.mem_map.mp hmsg
          exact related.wire m hm
        obtain ⟨msgs, hdecode, hperm⟩ := decodeGroupRows_perm ⟨key, row.createdAt,
          selectMembers (· == some (g.epoch + 1)) (memberRows st.framing g.lease)⟩ hwire
          (claimed_memberRows st.framing g)
        have hsql : st.claimGroup key now db =
            ((some ⟨⟨key, msgs, row.createdAt⟩, g.epoch + 1⟩, none), Function.update db key
              ⟨some ⟨row.createdAt, g.epoch + 1, some st.lockedBy, some now⟩,
                memberRows st.framing g.lease⟩) := by
          simp only [GroupStore.claimGroup, ht, related.claim hclaimable, if_pos howner, hdecode]
        rw [hmem, hsql]
        refine ⟨⟨rfl, ?_⟩, ?_⟩
        · simp only [Option.map_some, messageIDs_perm hperm]
        · show Twin st ((mst.groups.insert key g.lease).lookup key) (Function.update db key _ key)
          rw [AList.lookup_insert, Function.update_self]
          exact .present g.lease _ ⟨rfl, rfl, related.wire⟩
      · have hmem : mst.claimGroup key = (none, mst) := by
          simp only [Memory.GroupStore.claimGroup, hog, hleased, if_true]
        rw [hleased] at hclaimable
        have hsql : st.claimGroup key now db =
            ((none, none), Function.update db key ⟨some row, memberRows st.framing g⟩) := by
          simp only [GroupStore.claimGroup, Sql.claimGroup, ht, hclaimable, Bool.not_true,
            Bool.false_eq_true, if_false]
        rw [hmem, hsql, hog]
        refine ⟨⟨rfl, rfl⟩, ?_⟩
        show Twin st (some g) (Function.update db key _ key)
        rw [Function.update_self]
        exact .present g row related

section Database

variable {mst : Memory.GroupStore AnyPayload} {db : GroupDatabase}

theorem Twin.update (look : String → Option (Memory.GroupState AnyPayload)) {t : GroupTables}
    (h : ∀ k, k ≠ key → Twin st (look k) (db k)) (ht : Twin st (look key) t) (k : String) :
    Twin st (look k) (Function.update db key t k) := by
  by_cases hk : k = key
  · subst hk
    rw [Function.update_self]
    exact ht
  · rw [Function.update_of_ne hk]
    exact h k hk

theorem Twin.claim (h : ∀ k, Twin st (mst.groups.lookup k) (db k))
    (howner : st.dialect.fits st.lockedBy = true) {dbNow : ℤ} (hkept : LeaseKept st dbNow (db key)) (k : String) :
    Twin st ((mst.claimGroup key).2.groups.lookup k) ((st.claimGroup key dbNow db).2 k) := by
  have htwin := ((h key).claimGroup howner hkept).2
  have hdb : (st.claimGroup key dbNow db).2 =
      Function.update db key ((st.claimGroup key dbNow db).2 key) := by
    unfold GroupStore.claimGroup
    split
    · simp only [Function.update_self]
    · rw [if_pos howner]
      split <;> simp only [Function.update_self]
  rw [hdb]
  refine Twin.update (fun k => (mst.claimGroup key).2.groups.lookup k) (fun k hk => ?_) htwin k
  rcases hc : mst.claimGroup key with ⟨_ | cl, mst'⟩
  · rw [Memory.claimGroup_eq_none hc]
    exact h k
  · obtain ⟨g, -, -, -, hw, -⟩ := Memory.claimGroup_eq_some hc
    rw [hw.other hk]
    exact h k

end Database

end Msgin.Sql
