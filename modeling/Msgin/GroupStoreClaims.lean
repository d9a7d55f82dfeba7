import Msgin.GroupStoreInvariant

/-!
# Claims on a group store

A claim holds its group from `ClaimGroup` to its `SettleGroup` or `AbandonGroup`, and two
claims never hold the same group. Every operation conserves the stored messages, but for
those that it takes out with a settled claim.
-/

namespace Msgin.Memory

variable {P : Type}

section Claim

variable {st st' : GroupStore P} {key : String} {cl : ClaimGroup P}

/-- The group of the claim is leased to it, and the claim's members lead the group. -/
def GroupStore.Holds (st : GroupStore P) (cl : ClaimGroup P) : Prop :=
  ∃ g, st.groups.lookup cl.key = some g ∧ g.leased = true ∧ g.epoch = cl.epoch ∧
    g.claimedLen = cl.msgs.length ∧ cl.msgs <+: g.msgs

theorem Writes.holds_other {og : Option (GroupState P)} (hw : Writes st key og st')
    (hkey : cl.key ≠ key) (h : st.Holds cl) : st'.Holds cl := by
  obtain ⟨g, hg, hrest⟩ := h
  exact ⟨g, (hw.other hkey).trans hg, hrest⟩

theorem AddOutcome.holds {msg : Message P} {err : Option Err}
    (ho : AddOutcome key msg st err st') (h : st.Holds cl) : st'.Holds cl := by
  obtain ⟨g, hg, hleased, hepoch, hlen, hpre⟩ := h
  cases ho with
  | refused err st' same =>
      rcases same with rfl | ⟨now, hnone, hw, -⟩
      · exact ⟨g, hg, hleased, hepoch, hlen, hpre⟩
      · have hkey : cl.key ≠ key := by
          rintro rfl
          simp [hnone] at hg
        exact hw.holds_other hkey ⟨g, hg, hleased, hepoch, hlen, hpre⟩
  | known g' found nonempty seen => exact ⟨g, hg, hleased, hepoch, hlen, hpre⟩
  | appended g' st' found writes counted =>
      by_cases hkey : cl.key = key
      · subst hkey
        obtain rfl : g = g' := by
          rcases found with found | ⟨hnone, -⟩
          · exact Option.some.inj (hg.symm.trans found)
          · simp [hnone] at hg
        exact ⟨_, writes.self, hleased, hepoch, hlen, hpre.trans (List.prefix_append _ _)⟩
      · exact writes.holds_other hkey ⟨g, hg, hleased, hepoch, hlen, hpre⟩

theorem claimGroup_eq_some (h : st.claimGroup key = (some cl, st')) :
    ∃ g, st.groups.lookup key = some g ∧ g.leased = false ∧
      cl = ⟨⟨key, g.msgs, g.createdAt⟩, g.epoch + 1⟩ ∧ Writes st key (some g.lease) st' ∧
      st'.appended = st.appended := by
  simp only [GroupStore.claimGroup] at h
  split at h
  · simp at h
  · next g hg =>
      split at h
      · simp at h
      · next hleased =>
          simp only [Prod.mk.injEq, Option.some.injEq] at h
          obtain ⟨rfl, rfl⟩ := h
          exact ⟨g, hg, by simpa using hleased, rfl, writes_insert st key _ (Nat.le_refl _), rfl⟩

theorem claimGroup_eq_none (h : st.claimGroup key = (none, st')) : st' = st := by
  simp only [GroupStore.claimGroup] at h
  split at h
  · exact (Prod.mk.inj h).2.symm
  · split at h
    · exact (Prod.mk.inj h).2.symm
    · simp at h

structure Relabels (st : GroupStore P) (key : String) (st' : GroupStore P) : Prop where
  appended : st'.appended = st.appended
  group : ∃ g g', st.groups.lookup key = some g ∧ Writes st key (some g') st' ∧
    g'.msgs = g.msgs ∧ g'.ids = g.ids

variable {g : GroupState P} {m : Member P} {k : String} {now : ℤ}

theorem Relabels.stored_iff (h : Relabels st key st') : st'.Stored k m ↔ st.Stored k m := by
  obtain ⟨g, g', hg, hw, hmsgs, -⟩ := h.group
  by_cases hk : k = key
  · subst hk
    simp only [GroupStore.Stored, hw.self, hg, Option.some.injEq, exists_eq_left', hmsgs]
  · simp only [GroupStore.Stored, hw.other hk]

theorem Relabels.storeInv (h : Relabels st key st') (hst : StoreInv st) : StoreInv st' := by
  obtain ⟨g, g', hg, hw, hmsgs, hids⟩ := h.group
  obtain ⟨hid, hnumbers, hdistinct⟩ := hst.group key g hg
  apply hst.write hw
  · rintro g'' ⟨rfl⟩
    rw [h.appended]
    exact ⟨by rwa [hids, hmsgs], by rwa [hmsgs], by rwa [hmsgs]⟩
  · rintro g'' ⟨rfl⟩ m hm
    exact Or.inl ⟨g, hg, hmsgs ▸ hm⟩

theorem Relabels.holds_other (h : Relabels st key st') (hkey : cl.key ≠ key) (hcl : st.Holds cl) :
    st'.Holds cl := by
  obtain ⟨g, g', -, hw, -⟩ := h.group
  exact hw.holds_other hkey hcl

theorem claimGroup_relabels (h : st.claimGroup key = (some cl, st')) : Relabels st key st' := by
  obtain ⟨g, hg, -, -, hw, happ⟩ := claimGroup_eq_some h
  exact ⟨happ, g, g.lease, hg, hw, rfl, rfl⟩

theorem claimGroup_key (h : st.claimGroup key = (some cl, st')) : cl.key = key := by
  obtain ⟨g, -, -, rfl, -⟩ := claimGroup_eq_some h
  rfl

theorem claimGroup_holds (h : st.claimGroup key = (some cl, st')) : st'.Holds cl := by
  obtain ⟨g, hg, -, rfl, hw, -⟩ := claimGroup_eq_some h
  exact ⟨g.lease, hw.self, rfl, rfl, rfl, List.prefix_rfl⟩

theorem claimGroup_other (h : st.claimGroup key = (some cl, st')) {other : ClaimGroup P}
    (ho : st.Holds other) : other.key ≠ key ∧ st'.Holds other := by
  obtain ⟨g, hg, hfree, -, hw, -⟩ := claimGroup_eq_some h
  have hne : other.key ≠ key := by
    rintro rfl
    obtain ⟨g', hg', hleased, -⟩ := ho
    obtain rfl := Option.some.inj (hg.symm.trans hg')
    simp [hfree] at hleased
  exact ⟨hne, hw.holds_other hne ho⟩

theorem fenced_eq_some :
    st.fenced cl = some g ↔
      st.groups.lookup cl.key = some g ∧ g.leased = true ∧ g.epoch = cl.epoch := by
  simp [GroupStore.fenced, Option.filter_eq_some_iff]

theorem settleGroup_fenced (h : st.fenced cl = some g) (now : ℤ) :
    Writes st cl.key (g.settled now) (st.settleGroup cl now) := by
  simp only [GroupStore.settleGroup, h]
  cases hs : g.settled now with
  | none => exact writes_erase st cl.key
  | some g' => exact writes_insert st cl.key g' (Nat.le_refl _)

theorem abandonGroup_fenced (h : st.fenced cl = some g) :
    Writes st cl.key (some g.abandoned) (st.abandonGroup cl) := by
  simp only [GroupStore.abandonGroup, h]
  exact writes_insert st cl.key _ (Nat.le_refl _)

theorem fenced_of_holds (h : st.Holds cl) :
    ∃ g, st.fenced cl = some g ∧ st.groups.lookup cl.key = some g ∧
      g.msgs.take g.claimedLen = cl.msgs := by
  obtain ⟨g, hg, hleased, hepoch, hlen, hpre⟩ := h
  refine ⟨g, ?_, hg, ?_⟩
  · exact fenced_eq_some.mpr ⟨hg, hleased, hepoch⟩
  · rw [hlen]
    exact (List.prefix_iff_eq_take.mp hpre).symm

theorem abandonGroup_relabels (h : st.Holds cl) : Relabels st cl.key (st.abandonGroup cl) := by
  obtain ⟨g, hfenced, hg, -⟩ := fenced_of_holds h
  have heq : st.abandonGroup cl = { st with groups := st.groups.insert cl.key g.abandoned } := by
    simp only [GroupStore.abandonGroup, hfenced]
  rw [heq]
  exact ⟨rfl, g, g.abandoned, hg, writes_insert st _ _ (Nat.le_refl _), rfl, rfl⟩

theorem settleGroup_writes (h : st.Holds cl) (now : ℤ) :
    ∃ g, st.groups.lookup cl.key = some g ∧ g.msgs.take g.claimedLen = cl.msgs ∧
      Writes st cl.key (g.settled now) (st.settleGroup cl now) ∧
      (st.settleGroup cl now).appended = st.appended := by
  obtain ⟨g, hfenced, hg, htake⟩ := fenced_of_holds h
  refine ⟨g, hg, htake, settleGroup_fenced hfenced now, ?_⟩
  simp only [GroupStore.settleGroup, hfenced]
  cases g.settled now with
  | none => rfl
  | some g' => rfl

theorem GroupState.settled_msgs {g' : GroupState P} (h : g.settled now = some g') :
    g'.msgs = g.msgs.drop g.claimedLen := by
  simp only [GroupState.settled] at h
  split at h
  · simp at h
  · next hres =>
      obtain rfl := Option.some.inj h
      rfl

theorem GroupState.settled_eq_some {g' : GroupState P} (h : g.settled now = some g') :
    g'.leased = false ∧ g'.epoch = g.epoch := by
  simp only [GroupState.settled] at h
  split at h
  · simp at h
  · obtain rfl := Option.some.inj h
    exact ⟨rfl, rfl⟩

theorem GroupState.settled_none (h : g.settled now = none) : g.msgs.drop g.claimedLen = [] := by
  simp only [GroupState.settled] at h
  split at h
  · next hres => exact hres
  · simp at h

theorem settleGroup_storeInv (h : st.Holds cl) (hst : StoreInv st) (now : ℤ) :
    StoreInv (st.settleGroup cl now) := by
  obtain ⟨g, hg, -, hw, happ⟩ := settleGroup_writes h now
  apply hst.write hw
  · intro g' hg'
    rw [happ]
    exact (hst.group cl.key g hg).settled hg'
  · intro g' hg' m hm
    rw [GroupState.settled_msgs hg'] at hm
    exact Or.inl ⟨g, hg, List.mem_of_mem_drop hm⟩

theorem settleGroup_stored (h : st.Holds cl) (now : ℤ) (hm : st.Stored k m) :
    (st.settleGroup cl now).Stored k m ∨ m ∈ cl.msgs := by
  obtain ⟨g, hg, htake, hw, -⟩ := settleGroup_writes h now
  obtain ⟨g₀, hg₀, hmem⟩ := hm
  by_cases hk : k = cl.key
  · subst hk
    obtain rfl := Option.some.inj (hg.symm.trans hg₀)
    rw [← List.take_append_drop g.claimedLen g.msgs, htake] at hmem
    rcases List.mem_append.mp hmem with hgone | hres
    · exact Or.inr hgone
    · cases hs : g.settled now with
      | none => simp [GroupState.settled_none hs] at hres
      | some g' =>
          rw [hs] at hw
          exact Or.inl ⟨g', hw.self, by rwa [GroupState.settled_msgs hs]⟩
  · exact Or.inl ⟨g₀, (hw.other hk).trans hg₀, hmem⟩

theorem settleGroup_of_stored (h : st.Holds cl) (hst : StoreInv st) (now : ℤ)
    (hm : (st.settleGroup cl now).Stored k m) :
    st.Stored k m ∧ ∀ m' ∈ cl.msgs, m'.number ≠ m.number := by
  obtain ⟨g, hg, htake, hw, -⟩ := settleGroup_writes h now
  obtain ⟨g', hg', hmem⟩ := hm
  have hclaimed : ∀ m' ∈ cl.msgs, st.Stored cl.key m' := fun m' hm' =>
    ⟨g, hg, List.mem_of_mem_take (htake.symm ▸ hm')⟩
  by_cases hk : k = cl.key
  · subst hk
    have hs := hw.self.symm.trans hg'
    rw [GroupState.settled_msgs hs] at hmem
    refine ⟨⟨g, hg, List.mem_of_mem_drop hmem⟩, fun m' hm' heq => ?_⟩
    have hdistinct := (hst.group cl.key g hg).distinct
    rw [← List.take_append_drop g.claimedLen g.msgs, htake, List.map_append,
      List.nodup_append] at hdistinct
    exact hdistinct.2.2 _ (List.mem_map_of_mem hm') _ (List.mem_map_of_mem hmem) heq
  · have hold : st.Stored k m := ⟨g', (hw.other hk).symm.trans hg', hmem⟩
    exact ⟨hold, fun m' hm' heq => hk (hst.apart k cl.key m m' hold (hclaimed m' hm') heq.symm)⟩

/-- The store `st'` has what `st` has without the messages `out`, and new messages. -/
structure Conserves (st st' : GroupStore P) (out : List (Member P)) : Prop where
  storeInv : StoreInv st'
  appended : st.appended ≤ st'.appended
  kept : ∀ k m, st.Stored k m → st'.Stored k m ∨ m ∈ out
  fresh : ∀ k m, st'.Stored k m →
    (st.Stored k m ∧ ∀ m' ∈ out, m'.number ≠ m.number) ∨ st.appended ≤ m.number
  taken : ∀ m ∈ out, ∃ k, st.Stored k m
  distinct : (out.map Member.number).Nodup

theorem StoreInv.lt_appended (h : StoreInv st) (hm : st.Stored k m) : m.number < st.appended := by
  obtain ⟨g, hg, hmem⟩ := hm
  exact (h.group k g hg).numbers m hmem

theorem conserves_nil (hst' : StoreInv st') (happ : st.appended ≤ st'.appended)
    (hkept : ∀ k m, st.Stored k m → st'.Stored k m)
    (hfresh : ∀ k m, st'.Stored k m → st.Stored k m ∨ st.appended ≤ m.number) :
    Conserves st st' [] where
  storeInv := hst'
  appended := happ
  kept k m hm := Or.inl (hkept k m hm)
  fresh k m hm := (hfresh k m hm).imp_left fun hold => ⟨hold, by simp⟩
  taken := by simp
  distinct := by simp

theorem conserves_refl (h : StoreInv st) : Conserves st st [] :=
  conserves_nil h (Nat.le_refl _) (fun _ _ hm => hm) fun _ _ hm => Or.inl hm

theorem AddOutcome.conserves {msg : Message P} {err : Option Err}
    (ho : AddOutcome key msg st err st') (h : StoreInv st) : Conserves st st' [] := by
  refine conserves_nil (ho.storeInv h) ?_ (fun _ _ hm => ho.stored hm) fun _ _ hm => ho.of_stored hm
  cases ho with
  | refused err st' same =>
      rcases same with rfl | ⟨now, -, hw, -⟩
      · exact Nat.le_refl _
      · exact hw.appended
  | known g found nonempty seen => exact Nat.le_refl _
  | appended g st' found writes counted => exact writes.appended

theorem Relabels.conserves (hr : Relabels st key st') (h : StoreInv st) : Conserves st st' [] :=
  conserves_nil (hr.storeInv h) hr.appended.ge (fun _ _ hm => hr.stored_iff.mpr hm) fun _ _ hm =>
    Or.inl (hr.stored_iff.mp hm)

theorem settleGroup_conserves (hcl : st.Holds cl) (h : StoreInv st) (now : ℤ) :
    Conserves st (st.settleGroup cl now) cl.msgs := by
  obtain ⟨g, hg, htake, hw, happ⟩ := settleGroup_writes hcl now
  exact
    { storeInv := settleGroup_storeInv hcl h now
      appended := happ.ge
      kept := fun _ _ hm => settleGroup_stored hcl now hm
      fresh := fun _ _ hm => Or.inl (settleGroup_of_stored hcl h now hm)
      taken := fun m hm => ⟨cl.key, g, hg, List.mem_of_mem_take (htake.symm ▸ hm)⟩
      distinct := by
        rw [← htake]
        exact (h.group cl.key g hg).distinct.sublist ((List.take_sublist _ _).map _) }

end Claim

end Msgin.Memory
