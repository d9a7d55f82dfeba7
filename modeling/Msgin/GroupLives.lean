import Msgin.GroupFence

/-!
# Recovery of groups

A holder may crash with its claim, and its lease runs out. The next claim takes over whatever is
stored for the key, so that no member is orphaned by a claim that is never settled. A run records
how often the group row has been created and, for every claim, when it was taken and the rows it
was given out with.
-/

namespace Msgin.Sql

open TableRows TransitionRuns

structure Grant where
  rows : List MemberRow
  life : ℕ

structure GroupLives where
  history : ClaimHistory
  -- How often the group row has been created.
  life : ℕ
  -- One for each claim of the history.
  grants : List Grant

def GroupLives.empty : GroupLives := ⟨.empty, 0, []⟩

def GroupCall.claim : GroupCall → Option ℕ
  | .addMember _ _ _ _ => none
  | .claimGroup _ _ _ => none
  | .settleGroup i _ => some i
  | .abandonGroup i => some i

def GroupCall.member : GroupCall → Option MemberRow
  | .addMember m _ _ _ => some m
  | .claimGroup _ _ _ => none
  | .settleGroup _ _ => none
  | .abandonGroup _ => none

namespace GroupLives

def grant (groupKey : String) (s : GroupLives) : GroupCall → Option Grant
  | .claimGroup lockedBy leaseTTL now =>
      (claimGroup groupKey lockedBy leaseTTL now s.history.tables).1.map fun r =>
        ⟨r.rows.members, s.life⟩
  | _ => none

def next (groupKey : String) (s : GroupLives) (call : GroupCall) (h : ClaimHistory) : GroupLives :=
  ⟨h, if s.history.tables.group.isNone && h.tables.group.isSome then s.life + 1 else s.life,
    s.grants ++ (s.grant groupKey call).toList⟩

def step (e : Engine) (groupKey : String) (s : GroupLives) (call : GroupCall) : Option GroupLives :=
  (callStep e groupKey s.history call).map (s.next groupKey call)

/-- The rows that leave with a `SettleGroup` that is applied: those of its claim. -/
def settled (e : Engine) (s : GroupLives) : GroupCall → Option (List MemberRow)
  | .settleGroup i now =>
      s.history.claims[i]?.bind fun c =>
        if (settleGroup e c.lockedBy c.epoch now s.history.tables).1 then
          s.grants[i]?.map Grant.rows
        else none
  | _ => none

end GroupLives

/-- No call is made with a claim that was taken before the group row was last created. -/
def SameLife (s : GroupLives) (call : GroupCall) (_ : GroupLives) : Prop :=
  ∀ i ∈ call.claim, ∀ gr ∈ s.grants[i]?, gr.life = s.life

structure Recoverable (t : GroupTables) : Prop where
  tagged : ∀ m ∈ t.members, ∀ n, m.claimedEpoch = some n → ∃ g, t.group = some g ∧ n ≤ g.epoch
  unleased : ∀ g, t.group = some g → g.lockedBy = none → ∀ m ∈ t.members, m.claimedEpoch = none
  present : t.group.isSome ↔ t.members ≠ []

variable {e : Engine} {groupKey : String} {t t' : GroupTables} {c : Claim} {cur : Option Claim}

theorem Held.recoverable (h : Held t cur) : Recoverable t := by
  cases h with
  | absent hg hm =>
      refine ⟨?_, ?_, ?_⟩
      · simp [hm]
      · simp [hg]
      · simp [hg, hm]
  | idle g hg hl hm htag =>
      refine ⟨fun m hmem n hn => ?_, fun _ _ _ => htag, ?_⟩
      · rw [htag m hmem] at hn
        cases hn
      · simp [hg, hm]
  | leased g w hg hl hm htag =>
      refine ⟨fun m hmem n hn => ⟨g, hg, ?_⟩, fun g' hg' hfree => ?_, ?_⟩
      · rcases htag m hmem with hnone | hsome
        · rw [hnone] at hn
          cases hn
        · exact (Option.some.inj (hsome.symm.trans hn)).ge
      · obtain rfl := Option.some.inj (hg.symm.trans hg')
        rw [hl] at hfree
        cases hfree
      · obtain ⟨m, hm, -⟩ := hm
        simp [hg, List.ne_nil_of_mem hm]

theorem map_row_updateWhere (cond : StoredMember → Bool) (tag : Option ℕ)
    (members : List StoredMember) :
    (updateWhere cond (fun m => { m with claimedEpoch := tag }) members).map StoredMember.row =
      members.map StoredMember.row := by
  rw [updateWhere, List.map_map]
  apply List.map_congr_left
  intro m _
  show (if cond m then { m with claimedEpoch := tag } else m).row = m.row
  split
  · rfl
  · rfl

theorem selectMembers_perm (claimedWhere : Option ℕ → Bool) (members : List StoredMember)
    (h : ∀ m ∈ members, claimedWhere m.claimedEpoch = true) :
    (selectMembers claimedWhere members).Perm (members.map StoredMember.row) := by
  rw [selectMembers, List.filter_eq_self.mpr h]
  exact List.perm_insertionSort _ _

/-- What a granted claim is: the group row with the next epoch, and every member tagged with it. -/
structure Claims (lockedBy : String) (t : GroupTables) (r : ClaimedGroup) (t' : GroupTables) :
    Prop where
  group : ∃ g, t.group = some g ∧ r.epoch = g.epoch + 1 ∧
    ∃ g', t'.group = some g' ∧ g'.epoch = g.epoch + 1 ∧ g'.lockedBy = some lockedBy
  rows : r.rows.members.Perm (t.members.map StoredMember.row)
  kept : t'.members.map StoredMember.row = t.members.map StoredMember.row

variable {err : Option Err} {m : MemberRow} {now : ℤ}

theorem Held.claims (h : Held t cur) {w : String} {leaseTTL : ℤ} {r : ClaimedGroup}
    (hc : Sql.claimGroup groupKey w leaseTTL now t = (some r, t')) : Claims w t r t' := by
  have hbefore := fun g hg => h.claimedBefore (g := g) hg
  simp only [Sql.claimGroup] at hc
  split at hc
  · cases hc
  · next g hg =>
      split at hc
      · obtain ⟨hr, rfl⟩ := Prod.mk.inj hc
        obtain rfl := Option.some.inj hr
        refine ⟨⟨g, hg, rfl, _, rfl, rfl, rfl⟩, ?_, map_row_updateWhere _ _ _⟩
        have htag : ∀ m ∈ updateWhere (StoredMember.claimedBefore (g.epoch + 1))
            (fun m => { m with claimedEpoch := some (g.epoch + 1) }) t.members,
            (m.claimedEpoch == some (g.epoch + 1)) = true := by
          intro m hm
          obtain ⟨q, hq, rfl⟩ := mem_updateWhere.mp hm
          rw [if_pos (hbefore g hg q hq)]
          exact beq_self_eq_true _
        have hperm := selectMembers_perm (· == some (g.epoch + 1)) _ htag
        rwa [map_row_updateWhere] at hperm
      · cases hc

structure Frees (t t' : GroupTables) : Prop where
  was : t.group.isSome
  free : ∀ g', t'.group = some g' → g'.lockedBy = none ∧ ∃ g, t.group = some g ∧ g'.epoch = g.epoch

theorem Held.settleGroup_frees (h : Held t (some c)) (now : ℤ) :
    (Sql.settleGroup e c.lockedBy c.epoch now t).1 = true ∧
      Frees t (Sql.settleGroup e c.lockedBy c.epoch now t).2 := by
  cases h with
  | leased g w hg hl _ _ =>
      have hwas : t.group.isSome := by simp [hg]
      simp only [Sql.settleGroup, hg, fenced_self hl, if_true]
      split
      · refine ⟨rfl, hwas, fun g' hg' => ?_⟩
        obtain rfl := Option.some.inj hg'
        exact ⟨rfl, g, hg, rfl⟩
      · exact ⟨rfl, hwas, fun g' hg' => by cases hg'⟩

theorem Held.abandonGroup_frees (h : Held t (some c)) :
    Frees t (Sql.abandonGroup e c.lockedBy c.epoch t).2 := by
  cases h with
  | leased g w hg hl _ _ =>
      simp only [Sql.abandonGroup, hg, fenced_self hl, if_true]
      refine ⟨by simp [hg], fun g' hg' => ?_⟩
      obtain rfl := Option.some.inj hg'
      exact ⟨rfl, g, hg, rfl⟩

theorem AddsMember.of_group (h : AddsMember e m now t err t') {g : GroupRow}
    (hg : t'.group = some g) (hsome : t.group.isSome) : t.group = some g := by
  cases h with
  | refused err => exact hg
  | commits named inserts =>
      obtain ⟨g₀, hg₀⟩ := Option.isSome_iff_exists.mp hsome
      rw [hg₀] at hg ⊢
      exact hg

theorem AddsMember.of_mem (h : AddsMember e m now t err t') {q : StoredMember}
    (hq : q ∈ t'.members) : q ∈ t.members ∨ m.msgID ≠ "" ∧ q = ⟨m.stored e, none⟩ := by
  cases h with
  | refused err => exact .inl hq
  | commits named inserts =>
      cases inserts with
      | known p mem same => exact .inl hq
      | stores fresh =>
          exact (List.mem_append.mp hq).imp_right fun hnew => ⟨named, List.mem_singleton.mp hnew⟩

theorem AddsMember.mem (h : AddsMember e m now t err t') {q : StoredMember} (hq : q ∈ t.members) :
    q ∈ t'.members := by
  cases h with
  | refused err => exact hq
  | commits named inserts =>
      obtain ⟨ms, rfl, -⟩ := inserts.append
      exact List.mem_append_left _ hq

end Msgin.Sql
