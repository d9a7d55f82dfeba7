import Msgin.GroupDialect
import Msgin.TransitionRuns

/-!
# Which claim holds a group

Any number of holders add members to one key, claim it, and settle or abandon the claims
they were given, each call one transaction. The tables do not record which claim is the
current one, so a run carries the list of claims taken so far and the position of the
current claim. `Held` says what the tables look like for that claim. It lasts as long as no
superseded claim meets a lease that bears its own epoch again, which happens after the
group row has been deleted and created anew.
-/

namespace Msgin.Sql

open TableRows TransitionRuns

structure Claim where
  lockedBy : String
  epoch : ℕ
  deriving DecidableEq

structure ClaimHistory where
  tables : GroupTables
  claims : List Claim
  -- The position in `claims` of the last claim, until it is settled or abandoned.
  current : Option ℕ
  deriving DecidableEq

inductive GroupCall
  | addMember (m : MemberRow) (maxMembers leaseTTL now : ℤ)
  | claimGroup (lockedBy : String) (leaseTTL now : ℤ)
  -- Made with the values of the claim at this position of the history.
  | settleGroup (claim : ℕ) (now : ℤ)
  | abandonGroup (claim : ℕ)

def ClaimHistory.empty : ClaimHistory := ⟨⟨none, []⟩, [], none⟩

def ClaimHistory.release (h : ClaimHistory) (i : ℕ) (t : GroupTables) : ClaimHistory :=
  { h with tables := t, current := if h.current = some i then none else h.current }

def callStep (e : Engine) (groupKey : String) (h : ClaimHistory) :
    GroupCall → Option ClaimHistory
  | .addMember m maxMembers leaseTTL now =>
    some { h with tables := (addMember e groupKey m maxMembers leaseTTL now h.tables).2 }
  | .claimGroup lockedBy leaseTTL now =>
    match claimGroup groupKey lockedBy leaseTTL now h.tables with
    | (none, t) => some { h with tables := t }
    | (some c, t) => some ⟨t, h.claims ++ [⟨lockedBy, c.epoch⟩], some h.claims.length⟩
  | .settleGroup i now =>
    h.claims[i]?.map fun c => h.release i (settleGroup e c.lockedBy c.epoch now h.tables).2
  | .abandonGroup i =>
    h.claims[i]?.map fun c => h.release i (abandonGroup e c.lockedBy c.epoch h.tables).2

/-- The tables while `claim` is the current claim of the group. -/
inductive Held (t : GroupTables) : (claim : Option Claim) → Prop
  | absent (hg : t.group = none) (hm : t.members = []) : Held t none
  | idle (g : GroupRow) (hg : t.group = some g) (hl : g.lockedBy = none) (hm : t.members ≠ [])
      (htag : ∀ m ∈ t.members, m.claimedEpoch = none) : Held t none
  | leased (g : GroupRow) (w : String) (hg : t.group = some g) (hl : g.lockedBy = some w)
      (hm : ∃ m ∈ t.members, m.claimedEpoch = some g.epoch)
      (htag : ∀ m ∈ t.members, m.claimedEpoch = none ∨ m.claimedEpoch = some g.epoch) :
      Held t (some ⟨w, g.epoch⟩)

variable {e : Engine} {t : GroupTables} {c : Claim} {cur : Option Claim}

/-- An id whose row is there already, or a new row. -/
inductive InsertsMember (e : Engine) (m : MemberRow) (members : List StoredMember) :
    Bool → List StoredMember → Prop
  | known (q : StoredMember) (mem : q ∈ members)
      (same : e.collation.eq q.row.msgID (e.storedID m.msgID) = true) :
      InsertsMember e m members false members
  | stores
      (fresh : ∀ q ∈ members, e.collation.eq q.row.msgID (e.storedID m.msgID) = false) :
      InsertsMember e m members true (members ++ [⟨m.stored e, none⟩])

variable {w groupKey : String} {g : GroupRow} {t' : GroupTables} {n : ℕ} {h : ClaimHistory}
  {now : ℤ} {members' members : List StoredMember} {m : MemberRow}

theorem insertsMember {inserted : Bool} (h : insertMember e m members = .ok (inserted, members')) :
    InsertsMember e m members inserted members' := by
  unfold insertMember at h
  split at h
  · cases h
  · next msgID htext =>
      obtain rfl : e.storedID m.msgID = msgID := by rw [Engine.storedID, htext, Option.getD_some]
      split at h
      · next hdup =>
          cases h
          obtain ⟨q, hq, heq⟩ := List.any_eq_true.mp hdup
          exact .known q hq heq
      · next hnew =>
          cases h
          exact .stores (by simpa using hnew)

theorem InsertsMember.append {inserted : Bool} (h : InsertsMember e m members inserted members') :
    ∃ ms : List StoredMember, members' = members ++ ms ∧
      (∀ s ∈ ms, s.claimedEpoch = none) ∧ (members = [] → ms ≠ []) := by
  cases h with
  | known q mem same => exact ⟨[], by simp, by simp, fun hnil => by rw [hnil] at mem; cases mem⟩
  | stores fresh => exact ⟨_, rfl, by simp, by simp⟩

/-- What `AddMember` does: it fails and rolls back, or it commits. -/
inductive AddsMember (e : Engine) (m : MemberRow) (now : ℤ) (t : GroupTables) :
    Option Err → GroupTables → Prop
  | refused (err : Err) : AddsMember e m now t (some err) t
  | commits (named : m.msgID ≠ "") {inserted : Bool} {members : List StoredMember}
      (inserts : InsertsMember e m t.members inserted members) :
      AddsMember e m now t none ⟨some (t.group.getD ⟨now, 0, none, none⟩), members⟩

theorem addsMember (groupKey : String) (m : MemberRow) (maxMembers leaseTTL now : ℤ) :
    AddsMember e m now t (addMember e groupKey m maxMembers leaseTTL now t).1.2
      (addMember e groupKey m maxMembers leaseTTL now t).2 := by
  simp only [addMember]
  split
  · exact .refused _
  · next hid =>
      split
      · exact .refused _
      · split
        · exact .refused _
        · next hinsert =>
            split
            · exact .refused _
            · exact .commits hid (insertsMember hinsert)

theorem AddsMember.held {err : Option Err} (hadds : AddsMember e m now t err t') (h : Held t cur) :
    Held t' cur := by
  cases hadds with
  | refused err => exact h
  | commits named inserts =>
      obtain ⟨ms, rfl, htags, hfirst⟩ := inserts.append
      cases h with
      | absent hg hm =>
          have hne : t.members ++ ms ≠ [] := by simpa [hm] using hfirst hm
          apply Held.idle ⟨now, 0, none, none⟩ (by simp [hg]) rfl hne
          simpa [hm] using htags
      | idle g hg hl hm htag =>
          apply Held.idle g (by simp [hg]) hl (by simp [hm])
          intro s hs
          rcases List.mem_append.mp hs with hold | hnew
          · exact htag s hold
          · exact htags s hnew
      | leased g w hg hl hm htag =>
          obtain ⟨s, hs, hse⟩ := hm
          apply Held.leased g w (by simp [hg]) hl ⟨s, List.mem_append_left _ hs, hse⟩
          intro s hs
          rcases List.mem_append.mp hs with hold | hnew
          · exact htag s hold
          · exact Or.inl (htags s hnew)

theorem Held.addMember (h : Held t cur) (groupKey : String) (m : MemberRow)
    (maxMembers leaseTTL now : ℤ) : Held (addMember e groupKey m maxMembers leaseTTL now t).2 cur :=
  (addsMember groupKey m maxMembers leaseTTL now).held h

theorem Held.claimedBefore (h : Held t cur) (hg : t.group = some g) :
    ∀ m ∈ t.members, m.claimedBefore (g.epoch + 1) = true := by
  intro m hm
  cases h with
  | absent hnone _ => simp [hnone] at hg
  | idle g _ _ _ htag => simp [StoredMember.claimedBefore, htag m hm]
  | leased g' w hg' _ _ htag =>
      obtain rfl : g' = g := by simpa [hg'] using hg
      rcases htag m hm with hnone | hsome
      · simp [StoredMember.claimedBefore, hnone]
      · simp [StoredMember.claimedBefore, hsome]

theorem Held.members_ne_nil (h : Held t cur) (hg : t.group = some g) : t.members ≠ [] := by
  cases h with
  | absent hnone _ => simp [hnone] at hg
  | idle _ _ _ hm _ => exact hm
  | leased _ _ _ _ hm _ =>
      obtain ⟨s, hs, -⟩ := hm
      exact List.ne_nil_of_mem hs

theorem claimGroup_none {leaseTTL : ℤ} (hc : claimGroup groupKey w leaseTTL now t = (none, t')) :
    t' = t := by
  simp only [claimGroup] at hc
  split at hc
  · exact (Prod.mk.inj hc).2.symm
  · split at hc
    · simp at hc
    · exact (Prod.mk.inj hc).2.symm

theorem Held.claimGroup (h : Held t cur) {leaseTTL : ℤ} {r : ClaimedGroup}
    (hc : claimGroup groupKey w leaseTTL now t = (some r, t')) : Held t' (some ⟨w, r.epoch⟩) := by
  simp only [Sql.claimGroup] at hc
  split at hc
  · simp at hc
  · next g hg =>
      split at hc
      · simp only [Prod.mk.injEq, Option.some.injEq] at hc
        obtain ⟨rfl, rfl⟩ := hc
        have hbefore := h.claimedBefore hg
        have htag : ∀ m ∈ updateWhere (StoredMember.claimedBefore (g.epoch + 1))
            (fun m => { m with claimedEpoch := some (g.epoch + 1) }) t.members,
            m.claimedEpoch = some (g.epoch + 1) := by
          intro m hm
          obtain ⟨q, hq, rfl⟩ := mem_updateWhere.mp hm
          rw [if_pos (hbefore q hq)]
        obtain ⟨m, hm⟩ := List.exists_mem_of_ne_nil _
          (mt updateWhere_eq_nil.mp (h.members_ne_nil hg))
        apply Held.leased ⟨g.createdAt, g.epoch + 1, some w, some now⟩ w rfl rfl
          ⟨m, hm, htag m hm⟩
        intro m hm
        exact Or.inr (htag m hm)
      · simp at hc

/-- The group row carries a lease, live or expired, with this epoch. -/
def GroupTables.leasedAt (t : GroupTables) (epoch : ℕ) : Prop :=
  ∃ g, t.group = some g ∧ g.lockedBy.isSome ∧ g.epoch = epoch

theorem fenced_eq_false (hg : t.group = some g) (hn : ¬ t.leasedAt n) : g.fenced e w n = false := by
  by_contra hf
  have hfenced : g.fenced e w n = true := by simpa using hf
  simp only [GroupRow.fenced, Bool.and_eq_true, beq_iff_eq] at hfenced
  apply hn
  exact ⟨g, hg, Option.isSome_of_any hfenced.1, hfenced.2⟩

theorem Held.not_claimedIn (h : Held t cur) (hn : ¬ t.leasedAt n) :
    ∀ m ∈ t.members, m.claimedIn n = false := by
  intro m hm
  cases h with
  | absent _ hnil => simp [hnil] at hm
  | idle _ _ _ _ htag => simp [StoredMember.claimedIn, htag m hm]
  | leased g w hg hl _ htag =>
      have hne : g.epoch ≠ n := fun heq => hn ⟨g, hg, by simp [hl], heq⟩
      rcases htag m hm with hnone | hsome
      · simp [StoredMember.claimedIn, hnone]
      · simp [StoredMember.claimedIn, hsome, hne]

theorem Held.exists_claimedIn (h : Held t cur) (hn : t.leasedAt n) :
    ∃ m ∈ t.members, m.claimedIn n = true := by
  obtain ⟨g, hg, hl, rfl⟩ := hn
  cases h with
  | absent hnone _ => simp [hnone] at hg
  | idle g' hg' hl' _ _ =>
      obtain rfl : g' = g := by simpa [hg'] using hg
      simp [hl'] at hl
  | leased g' _ hg' _ hm _ =>
      obtain rfl : g' = g := by simpa [hg'] using hg
      obtain ⟨m, hm, hme⟩ := hm
      exact ⟨m, hm, by simp [StoredMember.claimedIn, hme]⟩

theorem settleGroup_members (hg : t.group = some g) :
    (settleGroup e w n now t).2.members = deleteWhere (StoredMember.claimedIn n) t.members := by
  simp only [settleGroup, hg]
  split <;> rfl

theorem abandonGroup_members (hg : t.group = some g) :
    (abandonGroup e w n t).2.members = updateWhere (StoredMember.claimedIn n)
      (fun m => { m with claimedEpoch := none }) t.members := by
  simp only [abandonGroup, hg]

/-- The delete of the member table runs on the epoch alone, so the call is without effect
exactly when no lease of the group bears that epoch. -/
theorem Held.settleGroup_eq_iff (h : Held t cur) :
    settleGroup e w n now t = (false, t) ↔ ¬ t.leasedAt n := by
  constructor
  · rintro heq ⟨g, hg, hrest⟩
    obtain ⟨m, hm, hme⟩ := h.exists_claimedIn ⟨g, hg, hrest⟩
    have hmem : (settleGroup e w n now t).2.members =
        deleteWhere (StoredMember.claimedIn n) t.members := settleGroup_members hg
    rw [heq] at hmem
    exact deleteWhere_ne_self hm hme hmem.symm
  · intro hn
    cases hg : t.group with
    | none => simp [settleGroup, hg]
    | some g =>
        have hpos : 0 < t.members.length := List.length_pos_of_ne_nil (h.members_ne_nil hg)
        have hkeep := deleteWhere_eq_self (h.not_claimedIn hn)
        simp only [settleGroup, hg, hkeep, fenced_eq_false hg hn, if_pos hpos]
        rw [if_neg Bool.false_ne_true, ← hg]

theorem Held.abandonGroup_eq_iff (h : Held t cur) :
    abandonGroup e w n t = (false, t) ↔ ¬ t.leasedAt n := by
  constructor
  · rintro heq ⟨g, hg, hrest⟩
    obtain ⟨m, hm, hme⟩ := h.exists_claimedIn ⟨g, hg, hrest⟩
    have hmem := abandonGroup_members (e := e) (w := w) (n := n) hg
    rw [heq] at hmem
    exact updateWhere_ne_self hm hme (fun q => rfl) hmem.symm
  · intro hn
    cases hg : t.group with
    | none => simp [abandonGroup, hg]
    | some g =>
        have hkeep : updateWhere (StoredMember.claimedIn n)
            (fun m => { m with claimedEpoch := none }) t.members = t.members :=
          updateWhere_eq_self (h.not_claimedIn hn)
        simp only [abandonGroup, hg, hkeep, fenced_eq_false hg hn]
        rw [if_neg Bool.false_ne_true, ← hg]

theorem fenced_self (hl : g.lockedBy = some w) : g.fenced e w g.epoch = true := by
  simp [GroupRow.fenced, hl, e.collation.refl]

theorem Held.settleGroup (h : Held t (some c)) (now : ℤ) :
    Held (settleGroup e c.lockedBy c.epoch now t).2 none := by
  cases h with
  | leased g w hg hl _ htag =>
      simp only [Sql.settleGroup, hg, fenced_self hl, if_true]
      split
      · next hpos =>
          apply Held.idle _ rfl rfl (List.ne_nil_of_length_pos hpos)
          intro m hm
          obtain ⟨hold, hne⟩ := mem_deleteWhere.mp hm
          rcases htag m hold with hnone | hsome
          · exact hnone
          · simp [StoredMember.claimedIn, hsome] at hne
      · next hpos =>
          apply Held.absent rfl
          exact List.eq_nil_of_length_eq_zero (Nat.eq_zero_of_not_pos hpos)

theorem Held.abandonGroup (h : Held t (some c)) :
    Held (abandonGroup e c.lockedBy c.epoch t).2 none := by
  have hne := fun g hg => h.members_ne_nil (g := g) hg
  cases h with
  | leased g w hg hl _ htag =>
      simp only [Sql.abandonGroup, hg, fenced_self hl, if_true]
      apply Held.idle _ rfl rfl (mt updateWhere_eq_nil.mp (hne g hg))
      intro m hm
      obtain ⟨q, hq, rfl⟩ := mem_updateWhere.mp hm
      rcases htag q hq with hnone | hsome
      · simp [StoredMember.claimedIn, hnone]
      · simp [StoredMember.claimedIn, hsome]

/-- The claim that the history calls current is the one the tables are held for. -/
structure HistoryInv (h : ClaimHistory) : Prop where
  held : Held h.tables (h.current.bind fun i => h.claims[i]?)
  known : ∀ i, h.current = some i → i < h.claims.length

/-- A call on a superseded or finished claim finds no lease that bears its epoch. -/
def EpochNotRevived (h : ClaimHistory) : GroupCall → ClaimHistory → Prop
  | .settleGroup i _, _ | .abandonGroup i, _ =>
    h.current ≠ some i → ∀ c, h.claims[i]? = some c → ¬ h.tables.leasedAt c.epoch
  | _, _ => True

/-- A call on a superseded or finished claim changes no table and is not applied. -/
def StaleCallIgnored (e : Engine) (h : ClaimHistory) : GroupCall → ClaimHistory → Prop
  | .settleGroup i now, _ => h.current ≠ some i → ∀ c, h.claims[i]? = some c →
      settleGroup e c.lockedBy c.epoch now h.tables = (false, h.tables)
  | .abandonGroup i, _ => h.current ≠ some i → ∀ c, h.claims[i]? = some c →
      abandonGroup e c.lockedBy c.epoch h.tables = (false, h.tables)
  | _, _ => True

theorem historyInv_empty : HistoryInv .empty :=
  ⟨Held.absent rfl rfl, by simp [ClaimHistory.empty]⟩

theorem HistoryInv.release (hinv : HistoryInv h) {i : ℕ} (hi : h.claims[i]? = some c)
    (hcur : Held h.tables (some c) → Held t' none) (hstale : h.current ≠ some i → t' = h.tables) :
    HistoryInv (h.release i t') := by
  have hheld := hinv.held
  by_cases hc : h.current = some i
  · have hnone : (h.release i t').current = none := by simp [ClaimHistory.release, hc]
    constructor
    · rw [hnone]
      apply hcur
      simpa [hc, hi] using hheld
    · intro j hj
      simp [hnone] at hj
  · have heq : h.release i t' = h := by simp [ClaimHistory.release, hc, hstale hc]
    rw [heq]
    exact hinv

variable {h' : ClaimHistory}

theorem historyInv_step {call : GroupCall} (hinv : HistoryInv h)
    (hstep : callStep e groupKey h call = some h') (hrev : EpochNotRevived h call h') :
    HistoryInv h' := by
  cases call with
  | addMember m maxMembers leaseTTL now =>
      simp only [callStep, Option.some.injEq] at hstep
      subst hstep
      exact ⟨hinv.held.addMember groupKey m maxMembers leaseTTL now, hinv.known⟩
  | claimGroup w leaseTTL now =>
      simp only [callStep] at hstep
      split at hstep
      · next t' hc =>
          obtain rfl := Option.some.inj hstep
          obtain rfl := claimGroup_none hc
          exact hinv
      · next r t' hc =>
          obtain rfl := Option.some.inj hstep
          have hheld := hinv.held.claimGroup hc
          exact ⟨by simpa using hheld, by simp⟩
  | settleGroup i now =>
      simp only [callStep, Option.map_eq_some_iff] at hstep
      obtain ⟨c, hi, rfl⟩ := hstep
      apply hinv.release hi fun hheld => hheld.settleGroup now
      intro hc
      rw [hinv.held.settleGroup_eq_iff.mpr (hrev hc c hi)]
  | abandonGroup i =>
      simp only [callStep, Option.map_eq_some_iff] at hstep
      obtain ⟨c, hi, rfl⟩ := hstep
      apply hinv.release hi fun hheld => hheld.abandonGroup
      intro hc
      rw [hinv.held.abandonGroup_eq_iff.mpr (hrev hc c hi)]

theorem epochNotRevived_iff {call : GroupCall} (hinv : HistoryInv h) :
    EpochNotRevived h call h' ↔ StaleCallIgnored e h call h' := by
  cases call with
  | addMember => exact Iff.rfl
  | claimGroup => exact Iff.rfl
  | settleGroup i now =>
      simp only [EpochNotRevived, StaleCallIgnored, hinv.held.settleGroup_eq_iff]
  | abandonGroup i =>
      simp only [EpochNotRevived, StaleCallIgnored, hinv.held.abandonGroup_eq_iff]

/-- Along every run from empty tables, superseded and finished claims are without effect as
long as, and only as long as, none of their calls meets a lease that bears its epoch. -/
theorem run_staleCallIgnored_iff (e : Engine) (groupKey : String) (calls : List GroupCall) :
    Along (callStep e groupKey) EpochNotRevived .empty calls ↔
      Along (callStep e groupKey) (StaleCallIgnored e) .empty calls := by
  apply along_iff_along (I := HistoryInv)
  · intro h call h' hinv hstep hrev
    exact historyInv_step hinv hstep hrev
  · intro h call h' hinv _
    exact epochNotRevived_iff hinv
  · exact historyInv_empty

def soleMember (msgID : String) : MemberRow := ⟨msgID, 0, [], []⟩

/-- Holder `a` lets its lease expire, `b` settles the group, a new member re-creates it and
`c` claims it; then `a` settles. -/
def revivedEpoch : List GroupCall :=
  [.addMember (soleMember "m1") (-1) 1000000 0, .claimGroup "a" 1000000 1,
    .claimGroup "b" 1000000 2000, .settleGroup 1 2001,
    .addMember (soleMember "m2") (-1) 1000000 2002, .claimGroup "c" 1000000 2003]

/-- After these calls `a` settles: its call is not applied, and the member of `c`'s claim is
deleted. -/
def DeletesMemberOfC (e : Engine) : Prop :=
  ∃ h, run (callStep e "k") .empty revivedEpoch = some h ∧
    h.current = some 2 ∧ h.claims[0]? = some ⟨"a", 1⟩ ∧ h.claims[2]? = some ⟨"c", 1⟩ ∧
    h.tables.members = [⟨soleMember "m2", some 1⟩] ∧
    (settleGroup e "a" 1 2004 h.tables).1 = false ∧
    (settleGroup e "a" 1 2004 h.tables).2.members = []

theorem settleGroup_deletes_members_of_another_claim :
    DeletesMemberOfC .postgres ∧ DeletesMemberOfC (.mysql .binary) ∧ DeletesMemberOfC .sqlite :=
  ⟨⟨_, rfl, by decide⟩, ⟨_, rfl, by decide⟩, ⟨_, rfl, by decide⟩⟩

end Msgin.Sql
