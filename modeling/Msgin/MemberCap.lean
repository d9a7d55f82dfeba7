import Msgin.GroupLives

/-!
# The cap on the members of a group

`AddMember` inserts first and counts afterwards, claimed rows included, and a transaction over the
cap rolls back. Its rejection is transient exactly while `ClaimGroup` would find a live lease: the
two predicates on the group row negate each other because the two columns of a lease are written
together.
-/

namespace Msgin.Sql

open TableRows TransitionRuns

/-- There is a group row for the members, and its lease has both columns or none. -/
structure Stamped (t : GroupTables) : Prop where
  row : t.group = none → t.members = []
  lease : ∀ g, t.group = some g → g.lockedAt.isSome = g.lockedBy.isSome

section Stamped

variable {e : Engine} {groupKey w : String} {t : GroupTables}

theorem Stamped.addMember (h : Stamped t) (m : MemberRow) (maxMembers leaseTTL now : ℤ) :
    Stamped (addMember e groupKey m maxMembers leaseTTL now t).2 := by
  have hadds := addsMember (e := e) (t := t) groupKey m maxMembers leaseTTL now
  generalize (Sql.addMember e groupKey m maxMembers leaseTTL now t).1.2 = err at hadds
  generalize (Sql.addMember e groupKey m maxMembers leaseTTL now t).2 = t' at hadds
  cases hadds with
  | refused err => exact h
  | commits named inserts =>
      refine ⟨fun hnone => (by cases hnone), fun g hg => ?_⟩
      obtain rfl := Option.some.inj hg
      rcases hold : t.group with _ | g₀
      · rfl
      · exact h.lease g₀ hold

theorem Stamped.claimGroup (h : Stamped t) (groupKey w : String) (leaseTTL now : ℤ) :
    Stamped (claimGroup groupKey w leaseTTL now t).2 := by
  unfold Sql.claimGroup
  split
  · exact h
  · split
    · refine ⟨fun hnone => (by cases hnone), fun g hg => ?_⟩
      obtain rfl := Option.some.inj hg
      rfl
    · exact h

theorem Stamped.settleGroup (h : Stamped t) (n : ℕ) (now : ℤ) :
    Stamped (settleGroup e w n now t).2 := by
  unfold Sql.settleGroup
  split
  · exact h
  · next g hg =>
      have hlease := h.lease g hg
      dsimp only
      split
      · refine ⟨fun hnone => (by cases hnone), fun g' hg' => ?_⟩
        obtain rfl := Option.some.inj hg'
        split
        · rfl
        · exact hlease
      · next hempty =>
          refine ⟨fun _ => List.eq_nil_of_length_eq_zero (Nat.eq_zero_of_not_pos hempty),
            fun g' hg' => ?_⟩
          split at hg'
          · cases hg'
          · obtain rfl := Option.some.inj hg'
            exact hlease

theorem Stamped.abandonGroup (h : Stamped t) (n : ℕ) : Stamped (abandonGroup e w n t).2 := by
  unfold Sql.abandonGroup
  split
  · exact h
  · next g hg =>
      refine ⟨fun hnone => (by cases hnone), fun g' hg' => ?_⟩
      obtain rfl := Option.some.inj hg'
      split
      · rfl
      · exact h.lease g hg

theorem stamped_run {calls : List GroupCall} {h : ClaimHistory}
    (hr : run (callStep e groupKey) .empty calls = some h) : Stamped h.tables := by
  refine run_invariant (callStep e groupKey) (I := fun h => Stamped h.tables) ?_ ?_ hr
  · intro h call h' hstamped hstep
    cases call with
    | addMember m maxMembers leaseTTL now =>
        obtain rfl := Option.some.inj hstep
        exact hstamped.addMember m maxMembers leaseTTL now
    | claimGroup w leaseTTL now =>
        have hclaim := hstamped.claimGroup groupKey w leaseTTL now
        simp only [callStep] at hstep
        split at hstep
        · next t hc =>
            obtain rfl := Option.some.inj hstep
            rw [hc] at hclaim
            exact hclaim
        · next r t hc =>
            obtain rfl := Option.some.inj hstep
            rw [hc] at hclaim
            exact hclaim
    | settleGroup i now =>
        obtain ⟨c, -, rfl⟩ := Option.map_eq_some_iff.mp hstep
        exact hstamped.settleGroup c.epoch now
    | abandonGroup i =>
        obtain ⟨c, -, rfl⟩ := Option.map_eq_some_iff.mp hstep
        exact hstamped.abandonGroup c.epoch
  · exact ⟨fun _ => rfl, fun g hg => (by cases hg)⟩

theorem claimable_eq_not_leaseLive {g : GroupRow} (h : g.lockedAt.isSome = g.lockedBy.isSome)
    (leaseTTL now : ℤ) : g.claimable leaseTTL now = !g.leaseLive leaseTTL now := by
  rw [GroupRow.claimable, GroupRow.leaseLive]
  rcases hat : g.lockedAt with _ | at_
  · rw [hat, Option.isSome_none] at h
    rw [← Option.not_isSome, ← h]
    rfl
  · rw [hat, Option.isSome_some] at h
    rw [← Option.not_isSome, ← h, Option.any_some, Option.any_some, Bool.not_true, Bool.false_or,
      Bool.true_and, ← decide_not]
    exact decide_eq_decide.mpr Int.not_lt.symm

end Stamped

/-- The rows of the key that no claim has tagged. -/
def GroupTables.live (t : GroupTables) : List MemberRow := selectMembers Option.isNone t.members

def GroupTables.Stores (t : GroupTables) (msgID : String) : Prop :=
  ∃ q ∈ t.members, q.row.msgID = msgID

/-- A member whose id the engine stores and compares as it is. -/
structure Addable (e : Engine) (m : MemberRow) : Prop where
  exact : e.collation = .binary
  fits : e.fits m.msgID = true

section Cap

variable {e : Engine} {groupKey : String} {m : MemberRow} {maxMembers leaseTTL now : ℤ}
  {t : GroupTables}

theorem Addable.insert_stored (h : Addable e m) (hs : t.Stores m.msgID) :
    insertMember e m t.members = .ok (false, t.members) := by
  obtain ⟨q, hq, hid⟩ := hs
  have hany : (t.members.any fun s => Collation.binary.eq s.row.msgID m.msgID) = true :=
    List.any_eq_true.mpr ⟨q, hq, beq_iff_eq.mpr hid⟩
  simp only [insertMember, Engine.insertText_of_fits h.fits, h.exact, hany, if_true]

theorem Addable.insert_fresh (h : Addable e m) (hs : ¬ t.Stores m.msgID) :
    insertMember e m t.members = .ok (true, t.members ++ [⟨m, none⟩]) := by
  have hany : ¬ (t.members.any fun s => Collation.binary.eq s.row.msgID m.msgID) = true := by
    intro htrue
    obtain ⟨q, hq, hid⟩ := List.any_eq_true.mp htrue
    exact hs ⟨q, hq, beq_iff_eq.mp hid⟩
  simp only [insertMember, Engine.insertText_of_fits h.fits, h.exact, if_neg hany]

theorem withoutMember_live (hs : ¬ t.Stores m.msgID) :
    (withoutMember (selectMembers Option.isNone (t.members ++ [⟨m, none⟩])) m.msgID).Perm t.live := by
  have hsort : (selectMembers Option.isNone (t.members ++ [⟨m, none⟩])).Perm
      (((t.members.filter fun q => q.claimedEpoch.isNone).map StoredMember.row) ++ [m]) := by
    rw [selectMembers, List.filter_append, List.map_append]
    exact List.perm_insertionSort _ _
  have hkept : (((t.members.filter fun q => q.claimedEpoch.isNone).map StoredMember.row) ++
      [m]).filter (fun r => r.msgID ≠ m.msgID) =
        (t.members.filter fun q => q.claimedEpoch.isNone).map StoredMember.row := by
    rw [List.filter_append, List.filter_eq_self.mpr, List.filter_singleton]
    · simp
    · intro row hrow
      obtain ⟨q, hq, rfl⟩ := List.mem_map.mp hrow
      exact decide_eq_true fun heq => hs ⟨q, List.mem_of_mem_filter hq, heq⟩
  have hfilter := hsort.filter fun r => r.msgID ≠ m.msgID
  rw [hkept] at hfilter
  exact hfilter.trans (List.perm_insertionSort _ _).symm

/-- The three things that `AddMember` does with a valid cap. -/
inductive CapOutcome (e : Engine) (groupKey : String) (m : MemberRow) (maxMembers leaseTTL now : ℤ)
    (t : GroupTables) : (GroupRows × Option Err) × GroupTables → Prop
  | known (stored : t.Stores m.msgID) (rows : GroupRows) (group : Option GroupRow) :
      CapOutcome e groupKey m maxMembers leaseTTL now t ((rows, none), ⟨group, t.members⟩)
  | full (fresh : ¬ t.Stores m.msgID) (full : maxMembers ≤ t.members.length) (rows : GroupRows)
      (live : rows.members.Perm t.live) :
      CapOutcome e groupKey m maxMembers leaseTTL now t
        ((rows, some (groupOverflow e groupKey (t.members.length + 1) maxMembers
          ((t.group.getD ⟨now, 0, none, none⟩).leaseLive leaseTTL now))), t)
  | added (fresh : ¬ t.Stores m.msgID) (room : t.members.length < maxMembers) (rows : GroupRows)
      (group : Option GroupRow) :
      CapOutcome e groupKey m maxMembers leaseTTL now t
        ((rows, none), ⟨group, t.members ++ [⟨m, none⟩]⟩)

theorem Addable.outcome (h : Addable e m) (hid : m.msgID ≠ "")
    (hcap : 1 ≤ maxMembers ∧ maxMembers ≤ maxGroupMembersCeiling) (groupKey : String)
    (leaseTTL now : ℤ) (t : GroupTables) :
    CapOutcome e groupKey m maxMembers leaseTTL now t
      (addMember e groupKey m maxMembers leaseTTL now t) := by
  have hbounded : maxMembers ≠ unboundedGroupMembers := by
    have hone := hcap.1
    unfold unboundedGroupMembers
    omega
  have hvalid : validateMaxMembers e.groupOverflowSite maxMembers = none := by
    rw [validateMaxMembers, if_neg hbounded, if_pos hcap]
  by_cases hs : t.Stores m.msgID
  · simp only [addMember, if_neg hid, hvalid, h.insert_stored hs, Bool.false_eq_true, false_and,
      if_false]
    exact .known hs _ _
  · have hlength : (t.members ++ [(⟨m, none⟩ : StoredMember)]).length = t.members.length + 1 := by
      rw [List.length_append, List.length_singleton]
    simp only [addMember, if_neg hid, hvalid, h.insert_fresh hs, ne_eq, hbounded,
      not_false_eq_true, true_and, hlength]
    split
    · next hfull => exact .full hs (by push_cast at hfull; omega) _ (withoutMember_live hs)
    · next hroom => exact .added hs (by push_cast at hroom; omega) _ _

theorem isPermanent_groupOverflow (e : Engine) (groupKey : String) (n : ℕ) (maxMembers : ℤ)
    (live : Bool) :
    (groupOverflow e groupKey n maxMembers live).is .errOverflowDropped = true ∧
      isPermanent (some (groupOverflow e groupKey n maxMembers live)) = !live := by
  cases live with
  | false => exact ⟨rfl, rfl⟩
  | true => exact ⟨rfl, rfl⟩

theorem claimGroup_eq_none_iff {g : GroupRow} (hg : t.group = some g) (w : String) :
    (claimGroup groupKey w leaseTTL now t).1 = none ↔ g.claimable leaseTTL now = false := by
  simp only [claimGroup, hg]
  split
  · next hc => simp [hc]
  · next hc => simp [hc]

/-- In every state that calls can leave, `AddMember` of a non-empty id fails with the overflow error
exactly if the id is new and the key holds as many members as the cap allows. -/
theorem addMember_cap (e : Engine) (groupKey : String) {calls : List GroupCall} {h : ClaimHistory}
    (hr : run (callStep e groupKey) .empty calls = some h) {m : MemberRow} (hm : Addable e m)
    (hid : m.msgID ≠ "") {maxMembers : ℤ}
    (hcap : 1 ≤ maxMembers ∧ maxMembers ≤ maxGroupMembersCeiling) (leaseTTL now : ℤ) :
    ((∃ err, (addMember e groupKey m maxMembers leaseTTL now h.tables).1.2 = some err ∧
        err.is .errOverflowDropped = true) ↔
      ¬ h.tables.Stores m.msgID ∧ maxMembers ≤ h.tables.members.length) ∧
    (∀ err, (addMember e groupKey m maxMembers leaseTTL now h.tables).1.2 = some err →
      err.is .errOverflowDropped = true ∧
        (addMember e groupKey m maxMembers leaseTTL now h.tables).2 = h.tables ∧
        (addMember e groupKey m maxMembers leaseTTL now h.tables).1.1.members.Perm h.tables.live ∧
        (isPermanent (some err) = false ↔
          ∀ w, (claimGroup groupKey w leaseTTL now h.tables).1 = none)) ∧
    (h.tables.Stores m.msgID →
      (addMember e groupKey m maxMembers leaseTTL now h.tables).1.2 = none ∧
        (addMember e groupKey m maxMembers leaseTTL now h.tables).2.members = h.tables.members) ∧
    (h.tables.members.length <
        (addMember e groupKey m maxMembers leaseTTL now h.tables).2.members.length →
      ((addMember e groupKey m maxMembers leaseTTL now h.tables).2.members.length : ℤ) ≤
        maxMembers) := by
  have hstamped := stamped_run hr
  have houtcome := hm.outcome hid hcap groupKey leaseTTL now h.tables
  generalize addMember e groupKey m maxMembers leaseTTL now h.tables = r at houtcome
  cases houtcome with
  | known stored rows group =>
      refine ⟨?_, ?_, fun _ => ⟨rfl, rfl⟩, fun hlt => absurd hlt (Nat.lt_irrefl _)⟩
      · exact iff_of_false (fun ⟨err, herr, _⟩ => (by cases herr)) fun hfull => hfull.1 stored
      · intro err herr
        cases herr
  | full fresh full rows live =>
      obtain ⟨hover, hperm⟩ := isPermanent_groupOverflow e groupKey (h.tables.members.length + 1)
        maxMembers ((h.tables.group.getD ⟨now, 0, none, none⟩).leaseLive leaseTTL now)
      refine ⟨iff_of_true ⟨_, rfl, hover⟩ ⟨fresh, full⟩, ?_, fun hs => absurd hs fresh,
        fun hlt => absurd hlt (Nat.lt_irrefl _)⟩
      intro err herr
      obtain rfl := Option.some.inj herr
      refine ⟨hover, rfl, live, ?_⟩
      rcases hg : h.tables.group with _ | g
      · have hnil := hstamped.row hg
        rw [hnil, List.length_nil] at full
        have hone := hcap.1
        push_cast at full
        omega
      · rw [hg, Option.getD_some] at hperm
        rw [Option.getD_some, hperm]
        simp only [claimGroup_eq_none_iff hg, forall_const,
          claimable_eq_not_leaseLive (hstamped.lease g hg)]
  | added fresh room rows group =>
      refine ⟨?_, ?_, fun hs => absurd hs fresh, fun _ => ?_⟩
      · refine iff_of_false (fun ⟨err, herr, _⟩ => (by cases herr)) fun hfull => ?_
        have hle := hfull.2
        omega
      · intro err herr
        cases herr
      · rw [List.length_append, List.length_singleton]
        push_cast
        omega

theorem addMember_cap_full :
    ∃ h, run (callStep (.mysql .binary) "k") .empty
        [.addMember (soleMember "a") 2 1000 0, .claimGroup "w" 1000 1] = some h ∧
      ∃ err, (addMember (.mysql .binary) "k" (soleMember "b") 1 1000 1 h.tables).1.2 = some err ∧
        isPermanent (some err) = false ∧
        ∀ w, (claimGroup "k" w 1000 1 h.tables).1 = none := by
  obtain ⟨h, hr, herr⟩ : ∃ h, run (callStep (.mysql .binary) "k") .empty
      [.addMember (soleMember "a") 2 1000 0, .claimGroup "w" 1000 1] = some h ∧
      ∃ err, (addMember (.mysql .binary) "k" (soleMember "b") 1 1000 1 h.tables).1.2 = some err ∧
        isPermanent (some err) = false := ⟨_, rfl, _, rfl, rfl⟩
  obtain ⟨err, herr, htransient⟩ := herr
  have hcap : (1 : ℤ) ≤ 1 ∧ (1 : ℤ) ≤ maxGroupMembersCeiling := by decide
  have hlaw := addMember_cap (.mysql .binary) "k" hr (m := soleMember "b") ⟨rfl, by decide⟩
    (by decide) hcap 1000 1
  exact ⟨h, hr, err, herr, htransient, (hlaw.2.1 err herr).2.2.2.mp htransient⟩

/-- A member without an id is refused for that, also where the group is full. -/
theorem addMember_unnamed :
    ∃ h, run (callStep .postgres "k") .empty [.addMember (soleMember "a") 1 1000 0] = some h ∧
      (∀ q ∈ h.tables.members, q.row.msgID ≠ "") ∧ 1 ≤ h.tables.members.length ∧
      (addMember .postgres "k" (soleMember "") 1 1000 1 h.tables).1.2 =
        some (.sentinel .errMissingMsgID) ∧
      (Err.sentinel .errMissingMsgID).is .errOverflowDropped = false :=
  ⟨_, rfl, by decide, by decide, rfl, rfl⟩

end Cap

end Msgin.Sql
