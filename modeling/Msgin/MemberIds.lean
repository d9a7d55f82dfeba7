import Msgin.CommittedMembers

/-!
# The ids of the members of a group on MySQL

The member table has the primary key `(group_key, msg_id)` with `msg_id VARCHAR(255)`. The insert of
`AddMember` ignores an error: it cuts a longer id and skips a row whose id has the weights of one
that is stored. A call that skips its row returns without an error.
-/

namespace Msgin.Sql

open TableRows TransitionRuns

def GroupTables.rows (t : GroupTables) : List MemberRow := t.members.map StoredMember.row

/-- Two rows of the group, the one of `a` and the one of `b`. -/
def GroupTables.HoldsBoth (e : Engine) (t : GroupTables) (a b : String) : Prop :=
  ∃ p ∈ t.rows, ∃ q ∈ t.rows, p.msgID = e.storedID a ∧ q.msgID = e.storedID b ∧ p.msgID ≠ q.msgID

def GroupCall.settles : GroupCall → Bool
  | .settleGroup _ _ => true
  | _ => false

/-- After two calls of `AddMember` for different ids that returned no error, with no settle in
between, both members have a row. -/
def KeepsBoth (e : Engine) (groupKey : String) (ids : Set String) : Prop :=
  ∀ calls h, AddsFrom ids calls → run (callStep e groupKey) .empty calls = some h →
    ∀ a maxMembers leaseTTL now between h', a.msgID ∈ ids → AddsFrom ids between →
      (addMember e groupKey a maxMembers leaseTTL now h.tables).1.2 = none →
      (∀ call ∈ between, call.settles = false) →
      run (callStep e groupKey) h (.addMember a maxMembers leaseTTL now :: between) = some h' →
      ∀ b maxMembers' leaseTTL' now', b.msgID ∈ ids → a.msgID ≠ b.msgID →
        (addMember e groupKey b maxMembers' leaseTTL' now' h'.tables).1.2 = none →
        (addMember e groupKey b maxMembers' leaseTTL' now' h'.tables).2.HoldsBoth e a.msgID b.msgID

/-- Every row of the group is that of an id that was added. -/
def GroupTables.RowsFrom (e : Engine) (ids : Set String) (t : GroupTables) : Prop :=
  ∀ p ∈ t.rows, ∃ id ∈ ids, id ≠ "" ∧ p.msgID = e.storedID id

variable {e : Engine} {groupKey : String} {ids : Set String} {t t' : GroupTables} {m : MemberRow}
  {now : ℤ} {err : Option Err}

theorem AddsMember.rowsFrom (h : AddsMember e m now t err t') (hm : m.msgID ∈ ids)
    (ht : t.RowsFrom e ids) : t'.RowsFrom e ids := by
  intro p hp
  obtain ⟨q, hq, rfl⟩ := List.mem_map.mp hp
  rcases h.of_mem hq with hold | ⟨named, rfl⟩
  · exact ht q.row (List.mem_map_of_mem hold)
  · exact ⟨m.msgID, hm, named, rfl⟩

theorem AddsMember.rows_subset (h : AddsMember e m now t err t') : t.rows ⊆ t'.rows := by
  intro p hp
  obtain ⟨q, hq, rfl⟩ := List.mem_map.mp hp
  exact List.mem_map_of_mem (h.mem hq)

/-- The row of a member that was added is there, if the engine tells its id from those of the other
rows. -/
theorem AddsMember.exists_row (h : AddsMember e m now t none t') (hids : TellsApart e ids)
    (hm : m.msgID ∈ ids) (ht : t.RowsFrom e ids) : ∃ p ∈ t'.rows, p.msgID = e.storedID m.msgID := by
  cases h with
  | commits named inserts =>
      cases inserts with
      | known q mem same =>
          obtain ⟨id, hid, hne, hrow⟩ := ht q.row (List.mem_map_of_mem mem)
          rw [hrow] at same
          refine ⟨q.row, List.mem_map_of_mem mem, ?_⟩
          rw [hrow, hids id hid m.msgID hm hne named same]
      | stores fresh =>
          exact ⟨m.stored e, List.mem_map_of_mem
            (List.mem_append_right _ (List.mem_singleton_self _)), rfl⟩

theorem rows_claimGroup (groupKey lockedBy : String) (leaseTTL now : ℤ) (t : GroupTables) :
    (claimGroup groupKey lockedBy leaseTTL now t).2.rows = t.rows := by
  unfold claimGroup
  split
  · rfl
  · split
    · exact map_row_updateWhere _ _ t.members
    · rfl

theorem rows_abandonGroup (e : Engine) (lockedBy : String) (epoch : ℕ) (t : GroupTables) :
    (abandonGroup e lockedBy epoch t).2.rows = t.rows := by
  unfold abandonGroup
  split
  · rfl
  · exact map_row_updateWhere _ _ t.members

theorem rows_settleGroup (e : Engine) (lockedBy : String) (epoch : ℕ) (now : ℤ) (t : GroupTables) :
    (settleGroup e lockedBy epoch now t).2.rows.Sublist t.rows := by
  have hsub : (deleteWhere (StoredMember.claimedIn epoch) t.members).Sublist t.members :=
    List.filter_sublist
  unfold settleGroup
  split
  · exact List.Sublist.refl _
  · dsimp only
    split <;> exact hsub.map StoredMember.row

variable {h h' : ClaimHistory} {call : GroupCall} {calls : List GroupCall}

inductive RowsStep (e : Engine) (call : GroupCall) (t t' : GroupTables) : Prop
  | adds (m : MemberRow) (now : ℤ) (err : Option Err) (member : call.member = some m)
      (adds : AddsMember e m now t err t')
  | keeps (same : t'.rows = t.rows)
  | deletes (settles : call.settles = true) (fewer : t'.rows.Sublist t.rows)

theorem rowsStep_of_callStep (hstep : callStep e groupKey h call = some h') :
    RowsStep e call h.tables h'.tables := by
  cases call with
  | addMember m maxMembers leaseTTL now =>
      obtain rfl := Option.some.inj hstep
      exact .adds m now _ rfl (addsMember groupKey m maxMembers leaseTTL now)
  | claimGroup lockedBy leaseTTL now =>
      have hrows := rows_claimGroup groupKey lockedBy leaseTTL now h.tables
      simp only [callStep] at hstep
      split at hstep
      all_goals
        next heq =>
          obtain rfl := Option.some.inj hstep
          rw [heq] at hrows
          exact .keeps hrows
  | settleGroup i now =>
      obtain ⟨c, hc, rfl⟩ := Option.map_eq_some_iff.mp hstep
      exact .deletes rfl (rows_settleGroup e c.lockedBy c.epoch now h.tables)
  | abandonGroup i =>
      obtain ⟨c, hc, rfl⟩ := Option.map_eq_some_iff.mp hstep
      exact .keeps (rows_abandonGroup e c.lockedBy c.epoch h.tables)

theorem rowsFrom_of_run (hfrom : AddsFrom ids calls) (hrows : h.tables.RowsFrom e ids)
    (hr : run (callStep e groupKey) h calls = some h') : h'.tables.RowsFrom e ids := by
  refine run_invariant_of_along (callStep e groupKey)
    (I := fun h : ClaimHistory => h.tables.RowsFrom e ids) ?_ hrows
    (along_of_forall (callStep e groupKey) hfrom) hr
  intro h call h' hrows hstep hcall
  cases rowsStep_of_callStep hstep with
  | adds m now err member adds => exact adds.rowsFrom (hcall m member) hrows
  | keeps same => exact fun p hp => hrows p (same ▸ hp)
  | deletes settles fewer => exact fun p hp => hrows p (fewer.subset hp)

theorem rows_subset_of_run (hcalls : ∀ call ∈ calls, call.settles = false)
    (hr : run (callStep e groupKey) h calls = some h') : h.tables.rows ⊆ h'.tables.rows := by
  induction calls generalizing h with
  | nil =>
      obtain rfl := Option.some.inj hr
      exact List.Subset.refl _
  | cons call calls ih =>
      obtain ⟨u, hstep, hu⟩ := (run_cons_eq_some _).mp hr
      have hrest := ih (fun c hc => hcalls c (List.mem_cons_of_mem call hc)) hu
      cases rowsStep_of_callStep hstep with
      | adds m now err member adds => exact List.Subset.trans adds.rows_subset hrest
      | keeps same => exact same ▸ hrest
      | deletes settles fewer => cases settles.symm.trans (hcalls call List.mem_cons_self)

theorem keepsBoth_of_tellsApart (hids : TellsApart e ids) : KeepsBoth e groupKey ids := by
  intro calls h hfrom hr a maxMembers leaseTTL now between h' ha hbetween hok hcalls hr' b
    maxMembers' leaseTTL' now' hb hne hok'
  have hempty : ClaimHistory.empty.tables.RowsFrom e ids := by
    intro p hp
    cases hp
  have hrows := rowsFrom_of_run hfrom hempty hr
  have hfirst := addsMember (e := e) (t := h.tables) groupKey a maxMembers leaseTTL now
  have hrowsA := hfirst.rowsFrom ha hrows
  rw [hok] at hfirst
  obtain ⟨p, hp, hpa⟩ := hfirst.exists_row hids ha hrows
  obtain ⟨u, hstep, hu⟩ := (run_cons_eq_some _).mp hr'
  obtain rfl := Option.some.inj hstep
  have hrows' := rowsFrom_of_run hbetween hrowsA hu
  have hsecond := addsMember (e := e) (t := h'.tables) groupKey b maxMembers' leaseTTL' now'
  have hstays := hsecond.rows_subset (rows_subset_of_run hcalls hu hp)
  rw [hok'] at hsecond
  obtain ⟨q, hq, hqb⟩ := hsecond.exists_row hids hb hrows'
  refine ⟨p, hstays, q, hq, hpa, hqb, fun hpq => hne ?_⟩
  have hnamed : ∀ {m t t' now}, AddsMember e m now t none t' → m.msgID ≠ "" := by
    intro m t t' now hadds
    cases hadds with
    | commits named inserts => exact named
  refine hids _ ha _ hb (hnamed hfirst) (hnamed hsecond) ?_
  rw [← hpa, ← hqb, hpq]
  exact e.collation.refl _

theorem storedID_append (c : Collation) {l : List Char} (hl : l.length = 255) (s : String) :
    (Engine.mysql c).storedID (String.ofList l ++ s) = String.ofList l := by
  rw [Engine.storedID_mysql, String.toList_append, String.toList_ofList, List.take_left' hl]

def longParent : String := String.ofList (List.replicate 255 'x')

/-- The id of the `n`-th message that is split off the parent. -/
def childID (n : ℕ) : String := longParent ++ "#" ++ toString n

theorem storedID_childID (c : Collation) (n : ℕ) :
    (Engine.mysql c).storedID (childID n) = longParent := by
  rw [childID, String.append_assoc]
  exact storedID_append c (List.length_replicate ..) _

theorem toList_childID (n : ℕ) :
    (childID n).toList = longParent.toList ++ ("#" ++ toString n).toList := by
  rw [childID, String.append_assoc, String.toList_append]

theorem childID_ne : childID 1 ≠ childID 2 := by
  intro h
  have hlist := congrArg String.toList h
  rw [toList_childID, toList_childID] at hlist
  have htail : ("#" ++ toString 1).toList = ("#" ++ toString 2).toList :=
    List.append_cancel_left hlist
  exact absurd htail (by decide)

theorem childID_ne_empty (n : ℕ) : childID n ≠ "" := by
  intro h
  have hlist := congrArg String.toList h
  rw [toList_childID, String.toList_append] at hlist
  exact List.cons_ne_nil _ _ (List.append_eq_nil_iff.mp hlist).2

theorem addMember_twice (c : Collation) (groupKey : String) {a b : MemberRow} (ha : a.msgID ≠ "")
    (hb : b.msgID ≠ "")
    (hab : c.eq ((Engine.mysql c).storedID a.msgID) ((Engine.mysql c).storedID b.msgID) = true) :
    (addMember (.mysql c) groupKey a 10 0 0 ⟨none, []⟩).1.2 = none ∧
    (addMember (.mysql c) groupKey b 10 0 0
      (addMember (.mysql c) groupKey a 10 0 0 ⟨none, []⟩).2).1.2 = none ∧
    (addMember (.mysql c) groupKey b 10 0 0
      (addMember (.mysql c) groupKey a 10 0 0 ⟨none, []⟩).2).2.rows = [a.stored (.mysql c)] := by
  have hinsert : insertMember (.mysql c) a [] = .ok (true, [⟨a.stored (.mysql c), none⟩]) := rfl
  have hinsert' : insertMember (.mysql c) b [⟨a.stored (.mysql c), none⟩] =
      .ok (false, [⟨a.stored (.mysql c), none⟩]) :=
    if_pos (List.any_eq_true.mpr ⟨_, List.mem_singleton_self _, hab⟩)
  have hfirst : addMember (.mysql c) groupKey a 10 0 0 ⟨none, []⟩ =
      ((⟨groupKey, 0, selectMembers Option.isNone [⟨a.stored (.mysql c), none⟩]⟩, none),
        ⟨some ⟨0, 0, none, none⟩, [⟨a.stored (.mysql c), none⟩]⟩) := by
    simp [addMember, ha, hinsert, validateMaxMembers, unboundedGroupMembers, maxGroupMembersCeiling]
  rw [hfirst]
  simp [addMember, hb, hinsert', validateMaxMembers, unboundedGroupMembers, maxGroupMembersCeiling,
    GroupTables.rows]

theorem tellsApart_of_keepsBoth {c : Collation} (h : KeepsBoth (.mysql c) groupKey ids) :
    TellsApart (.mysql c) ids := by
  intro a ha b hb hna hnb heq
  by_contra hne
  obtain ⟨hok, hok', hrows⟩ := addMember_twice c groupKey (a := soleMember a) (b := soleMember b)
    hna hnb heq
  have hnone : AddsFrom ids [] := fun call hcall => by cases hcall
  obtain ⟨p, hp, q, hq, -, -, hpq⟩ := h [] .empty hnone rfl (soleMember a) 10 0 0 [] _ ha hnone hok
    (fun call hcall => by cases hcall) rfl (soleMember b) 10 0 0 hb hne hok'
  have hp' : p ∈ [(soleMember a).stored (.mysql c)] := hrows ▸ hp
  have hq' : q ∈ [(soleMember a).stored (.mysql c)] := hrows ▸ hq
  rw [List.mem_singleton.mp hp', List.mem_singleton.mp hq'] at hpq
  exact hpq rfl

/-- Different ids stay different members exactly if the column tells them apart. -/
theorem keepsBoth_iff_tellsApart (c : Collation) (groupKey : String) (ids : Set String) :
    KeepsBoth (.mysql c) groupKey ids ↔ TellsApart (.mysql c) ids :=
  ⟨tellsApart_of_keepsBoth, keepsBoth_of_tellsApart⟩

/-- Texts are equal if they have the same weights. -/
def Collation.ofWeights (weights : String → List ℕ) : Collation where
  eq a b := weights a == weights b
  refl _ := beq_self_eq_true _

abbrev mysqlBy (weights : String → List ℕ) : Engine := .mysql (.ofWeights weights)

def foldCase (s : String) : List ℕ := s.toList.map fun c => c.toLower.toNat

/-- Two messages split off a parent with a long id, and two ids that differ in case: both calls
return no error and one row is stored. -/
theorem twoIDs_one_row :
    (childID 1 ≠ childID 2 ∧ ∀ weights : String → List ℕ,
      let t := addMember (mysqlBy weights) "k" ⟨childID 1, 1, [], []⟩ 10 0 0 ⟨none, []⟩
      let t' := addMember (mysqlBy weights) "k" ⟨childID 2, 2, [], []⟩ 10 0 0 t.2
      t.1.2 = none ∧ t'.1.2 = none ∧ t'.2.rows = [⟨longParent, 1, [], []⟩]) ∧
    let t := addMember (mysqlBy foldCase) "k" ⟨"a", 1, [], []⟩ 10 0 0 ⟨none, []⟩
    let t' := addMember (mysqlBy foldCase) "k" ⟨"A", 2, [], []⟩ 10 0 0 t.2
    t.1.2 = none ∧ t'.1.2 = none ∧ t'.2.rows = [⟨"a", 1, [], []⟩] := by
  refine ⟨⟨childID_ne, fun weights => ?_⟩, by decide⟩
  have hab : (Collation.ofWeights weights).eq ((mysqlBy weights).storedID (childID 1))
      ((mysqlBy weights).storedID (childID 2)) = true := by
    rw [storedID_childID, storedID_childID]
    exact Collation.refl _ _
  have hrow : MemberRow.stored (mysqlBy weights) ⟨childID 1, 1, [], []⟩ =
      ⟨longParent, 1, [], []⟩ := by
    rw [MemberRow.stored, storedID_childID]
  have htwice := addMember_twice (.ofWeights weights) "k" (a := ⟨childID 1, 1, [], []⟩)
    (b := ⟨childID 2, 2, [], []⟩) (childID_ne_empty 1) (childID_ne_empty 2) hab
  rw [hrow] at htwice
  unfold mysqlBy
  exact htwice

end Msgin.Sql
