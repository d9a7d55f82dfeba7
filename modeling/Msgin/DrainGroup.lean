import Msgin.DrainLoop

/-!
# The group that the drain loop works on

What a call of the store makes of the group at one key, seen from the goroutine that drains it.
Other goroutines only add members there. A claim of a free group takes all members, its
settlement leaves those that came later, and a claim that is put back leaves the group as it was.
-/

namespace Msgin.Routing

open Memory

variable {P : Type} {strategy : Strategy P} {k : String} {og og' : Option (GroupState P)}

def Free (og : Option (GroupState P)) : Prop := ∀ g, og = some g → g.leased = false

/-- A lease of the group is that of the given epoch. -/
def SoleLease (epoch : ℕ) (og : Option (GroupState P)) : Prop :=
  ∀ g, og = some g → g.leased = true → g.epoch = epoch

/-- The group is leased to `cl`, and holds just its members as long as none came late. -/
structure LeasedTo (cl : ClaimGroup P) (late : ℕ) (g : GroupState P) : Prop where
  leased : g.leased = true
  epoch : g.epoch = cl.epoch
  created : g.createdAt = cl.createdAt
  members : late = 0 → g.msgs = cl.msgs

/-- Nothing at the key is left to release. -/
def Drained (strategy : Strategy P) (k : String) (og : Option (GroupState P)) : Prop :=
  ∀ g, og = some g → g.leased = false ∧ strategy ⟨k, g.msgs, g.createdAt⟩ ≠ (true, none)

/-- What one `Add` makes of the group at its key. -/
inductive Grows : Option (GroupState P) → Option (GroupState P) → Prop
  | same (og : Option (GroupState P)) : Grows og og
  | appends (g : GroupState P) (m : Member P) : Grows (some g) (some (g.append m))
  | creates (g : GroupState P) (hfree : g.leased = false) : Grows none (some g)

theorem grows_add (st : GroupStore P) (key : String) (msg : Message P) (now : ℤ) :
    Grows (st.groups.lookup key) ((st.add key msg now).2.groups.lookup key) := by
  cases hg : st.groups.lookup key with
  | some g =>
      have hadd : st.add key msg now = st.addTo key g msg := by rw [GroupStore.add, hg]
      rw [hadd]
      unfold GroupStore.addTo
      split_ifs with hseen hroom
      · exact hg ▸ .same _
      · exact hg ▸ .same _
      · rw [AList.lookup_insert]
        exact .appends g _
  | none =>
      simp only [GroupStore.add, hg]
      unfold GroupStore.addTo
      split_ifs with hgroups hseen hroom
      · exact hg ▸ .same _
      · rw [AList.lookup_insert]
        exact .creates _ rfl
      · rw [AList.lookup_insert]
        exact .creates _ rfl
      · rw [AList.lookup_insert]
        exact .creates _ rfl

theorem lookup_add_of_ne (st : GroupStore P) {key : String} (hk : k ≠ key) (msg : Message P)
    (now : ℤ) : (st.add key msg now).2.groups.lookup k = st.groups.lookup k := by
  unfold GroupStore.add GroupStore.addTo
  split
  · split_ifs
    · rfl
    · rfl
    · exact AList.lookup_insert_ne hk
  · split_ifs
    · rfl
    · exact AList.lookup_insert_ne hk
    · exact AList.lookup_insert_ne hk
    · rw [AList.lookup_insert_ne hk, AList.lookup_insert_ne hk]

theorem lookup_claimGroup_of_ne (st : GroupStore P) {key : String} (hk : k ≠ key) :
    (st.claimGroup key).2.groups.lookup k = st.groups.lookup k := by
  unfold GroupStore.claimGroup
  split
  · rfl
  · split
    · rfl
    · exact AList.lookup_insert_ne hk

theorem lookup_settleGroup_of_missed (st : GroupStore P) {cl : ClaimGroup P} (now : ℤ)
    (h : ¬ (cl.key = k ∧ (st.fenced cl).isSome)) :
    (st.settleGroup cl now).groups.lookup k = st.groups.lookup k := by
  unfold GroupStore.settleGroup
  split
  · rfl
  · next g hf =>
      have hk : k ≠ cl.key := fun heq => h ⟨heq.symm, by rw [hf]; rfl⟩
      split
      · exact AList.lookup_erase_ne hk
      · exact AList.lookup_insert_ne hk

theorem lookup_abandonGroup_of_missed (st : GroupStore P) {cl : ClaimGroup P}
    (h : ¬ (cl.key = k ∧ (st.fenced cl).isSome)) :
    (st.abandonGroup cl).groups.lookup k = st.groups.lookup k := by
  unfold GroupStore.abandonGroup
  split
  · rfl
  · next g hf =>
      have hk : k ≠ cl.key := fun heq => h ⟨heq.symm, by rw [hf]; rfl⟩
      exact AList.lookup_insert_ne hk

theorem Free.grows (h : Free og) (hg : Grows og og') : Free og' := by
  cases hg with
  | same => exact h
  | appends g m =>
      rintro g' ⟨⟩
      exact h g rfl
  | creates g hfree =>
      rintro g' ⟨⟩
      exact hfree

theorem SoleLease.grows {epoch : ℕ} (h : SoleLease epoch og) (hg : Grows og og') :
    SoleLease epoch og' := by
  cases hg with
  | same => exact h
  | appends g m =>
      rintro g' ⟨⟩ hleased
      exact h g rfl hleased
  | creates g hfree =>
      rintro g' ⟨⟩ hleased
      rw [hfree] at hleased
      cases hleased

theorem LeasedTo.append {cl : ClaimGroup P} {late : ℕ} {g : GroupState P} (h : LeasedTo cl late g)
    (m : Member P) : LeasedTo cl (late + 1) (g.append m) :=
  ⟨h.leased, h.epoch, h.created, fun hlate => by cases hlate⟩

/-- The group behind a claim that `release` holds. -/
def ClaimedGroup (first : Bool) (cl : ClaimGroup P) (late : ℕ) (og : Option (GroupState P)) :
    Prop :=
  if first then SoleLease cl.epoch og else ∃ g, og = some g ∧ LeasedTo cl late g

variable {first : Bool}

theorem ClaimedGroup.grows {cl : ClaimGroup P} {late : ℕ} (h : ClaimedGroup first cl late og)
    (hg : Grows og og') : ClaimedGroup first cl (late + 1) og' := by
  cases first with
  | true => exact SoleLease.grows h hg
  | false =>
      obtain ⟨g, rfl, hleased⟩ := h
      cases hg with
      | same => exact ⟨g, rfl, hleased.leased, hleased.epoch, hleased.created, fun h => by cases h⟩
      | appends g m => exact ⟨_, rfl, hleased.append m⟩

def present (og : Option (GroupState P)) : ℕ := if og.isSome then 1 else 0

/-- Whether members will be left once the claim is settled. -/
def residual (first : Bool) (og : Option (GroupState P)) : ℕ :=
  if first || og.any (fun g => g.claimedLen < g.msgs.length) then 1 else 0

theorem present_le (og : Option (GroupState P)) : present og ≤ 1 := by
  unfold present
  split <;> decide

theorem residual_le (first : Bool) (og : Option (GroupState P)) : residual first og ≤ 1 := by
  unfold residual
  split <;> decide

variable {st : GroupStore P} {cl : ClaimGroup P} {late : ℕ}

theorem ClaimedGroup.soleLease (h : ClaimedGroup first cl late og) : SoleLease cl.epoch og := by
  cases first with
  | true => exact h
  | false =>
      obtain ⟨g, rfl, hg⟩ := h
      rintro g' ⟨⟩ -
      exact hg.epoch

theorem free_settleGroup (h : SoleLease cl.epoch (st.groups.lookup cl.key)) (now : ℤ) :
    Free ((st.settleGroup cl now).groups.lookup cl.key) := by
  cases hf : st.fenced cl with
  | none =>
      rw [settleGroup_of_missed hf]
      intro g hg
      by_contra hleased
      rw [Bool.not_eq_false] at hleased
      have hfenced := fenced_eq_some.mpr ⟨hg, hleased, h g hg hleased⟩
      rw [hf] at hfenced
      cases hfenced
  | some g =>
      intro g' hg'
      rw [(settleGroup_fenced hf now).self] at hg'
      exact (GroupState.settled_eq_some hg').1

theorem present_settleGroup (h : ClaimedGroup first cl late (st.groups.lookup cl.key)) (now : ℤ) :
    present ((st.settleGroup cl now).groups.lookup cl.key) ≤
      residual first (st.groups.lookup cl.key) := by
  cases first with
  | true => exact present_le _
  | false =>
      obtain ⟨g, hg, hleased⟩ := h
      have hf := fenced_eq_some.mpr ⟨hg, hleased.leased, hleased.epoch⟩
      rw [hg, (settleGroup_fenced hf now).self]
      cases hs : g.settled now with
      | none => exact Nat.zero_le _
      | some g' =>
          have hdrop : g.msgs.drop g.claimedLen ≠ [] := by
            intro hnil
            simp [GroupState.settled, hnil] at hs
          rw [ne_eq, List.drop_eq_nil_iff, Nat.not_le] at hdrop
          simp [present, residual, hdrop]

theorem drained_abandonGroup (h : ClaimedGroup false cl 0 (st.groups.lookup cl.key))
    (hdeclined : strategy cl.toSnapshot ≠ (true, none)) :
    Drained strategy cl.key ((st.abandonGroup cl).groups.lookup cl.key) := by
  obtain ⟨g, hg, hleased⟩ := h
  have hf := fenced_eq_some.mpr ⟨hg, hleased.leased, hleased.epoch⟩
  intro g' hg'
  rw [(abandonGroup_fenced hf).self] at hg'
  cases hg'
  refine ⟨rfl, ?_⟩
  have hsame : (⟨cl.key, g.msgs, g.createdAt⟩ : Snapshot P) = cl.toSnapshot := by
    rw [hleased.members rfl, hleased.created]
  change strategy ⟨cl.key, g.msgs, g.createdAt⟩ ≠ (true, none)
  rwa [hsame]

theorem claimGroup_of_free (hfree : Free (st.groups.lookup k)) :
    (st.groups.lookup k = none ∧ st.claimGroup k = (none, st)) ∨
    ∃ g next, st.groups.lookup k = some g ∧ (st.claimGroup k).1 = some next ∧ next.key = k ∧
      (st.claimGroup k).2.groups.lookup k = some g.lease ∧ LeasedTo next 0 g.lease := by
  cases hg : st.groups.lookup k with
  | none => exact .inl ⟨rfl, by rw [GroupStore.claimGroup, hg]⟩
  | some g =>
      have hclaim : st.claimGroup k = (some ⟨⟨k, g.msgs, g.createdAt⟩, g.epoch + 1⟩,
          { st with groups := st.groups.insert k g.lease }) := by
        simp only [GroupStore.claimGroup, hg, hfree g hg, Bool.false_eq_true, if_false]
      right
      rw [hclaim]
      exact ⟨g, _, rfl, rfl, rfl, AList.lookup_insert _, rfl, rfl, rfl, fun _ => rfl⟩

theorem residual_lease (g : GroupState P) : residual false (some g.lease) = 0 := by
  simp [residual, GroupState.lease]

end Msgin.Routing
