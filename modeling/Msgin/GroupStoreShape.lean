import Mathlib.Data.List.Nodup
import Msgin.GroupStoreFence

/-!
# The shape of a group store

A group is a list of messages, the set of their ids and the length of the part that a claim has
frozen. Every operation keeps the three in agreement and both caps, and no group is left empty.
-/

namespace Msgin.Memory

variable {P : Type}

structure GroupShape (maxGroupMembers : ℤ) (g : GroupState P) : Prop where
  ids : ∀ id, id ∈ g.ids ↔ id ≠ "" ∧ ∃ m ∈ g.msgs, m.msg.id = id
  distinct : ((g.msgs.map fun m => m.msg.id).filter (· ≠ "")).Nodup
  claimed : g.claimedLen ≤ g.msgs.length
  bounded : (g.msgs.length : ℤ) ≤ maxGroupMembers
  unleased : g.leased = false → g.claimedLen = 0

section Shape

variable {cap : ℤ} {g g' : GroupState P}

theorem groupShape_new (now : ℤ) (hcap : 1 ≤ cap) : GroupShape cap (.new now : GroupState P) where
  ids id := by simp [GroupState.new]
  distinct := List.nodup_nil
  claimed := Nat.le_refl _
  bounded := by
    show ((0 : ℕ) : ℤ) ≤ cap
    omega
  unleased _ := rfl

variable (h : GroupShape cap g)

include h

theorem GroupShape.append {m : Member P} (hfresh : m.msg.id ≠ "" → m.msg.id ∉ g.ids)
    (hroom : (g.msgs.length : ℤ) < cap) :
    GroupShape cap (g.append m) where
  ids id := by
    have hold := h.ids id
    by_cases hm : m.msg.id = ""
    · simp only [GroupState.append, hm, ne_eq, not_true_eq_false, if_false, List.mem_append,
        List.mem_singleton, hold]
      grind
    · simp only [GroupState.append, ne_eq, hm, not_false_eq_true, if_true, Finset.mem_insert,
        List.mem_append, List.mem_singleton, hold]
      grind
  distinct := by
    have hnew : m.msg.id ≠ "" → ∀ m' ∈ g.msgs, m'.msg.id ≠ m.msg.id := fun hid m' hm' heq =>
      hfresh hid ((h.ids _).mpr ⟨hid, m', hm', heq⟩)
    simp only [GroupState.append, List.map_append, List.map_singleton, List.filter_append,
      List.nodup_append]
    refine ⟨h.distinct, List.Nodup.filter _ (List.nodup_singleton _), ?_⟩
    intro x hx y hy
    simp only [List.mem_filter, List.mem_map, List.mem_singleton, ne_eq, decide_eq_true_eq] at hx hy
    obtain ⟨⟨m', hm', rfl⟩, -⟩ := hx
    obtain ⟨rfl, hid⟩ := hy
    exact hnew hid m' hm'
  claimed := by
    have hle := h.claimed
    simp only [GroupState.append, List.length_append]
    omega
  bounded := by
    simp only [GroupState.append, List.length_append, List.length_singleton]
    omega
  unleased := h.unleased

theorem GroupShape.lease : GroupShape cap g.lease :=
  ⟨h.ids, h.distinct, Nat.le_refl _, h.bounded, fun hfree => by cases hfree⟩

theorem GroupShape.abandoned : GroupShape cap g.abandoned :=
  ⟨h.ids, h.distinct, Nat.zero_le _, h.bounded, fun _ => rfl⟩

theorem GroupShape.settled {now : ℤ} (hs : g.settled now = some g') :
    GroupShape cap g' ∧ g'.msgs ≠ [] := by
  have hsplit := List.take_append_drop g.claimedLen g.msgs
  -- An id of the claimed part is not an id of the rest.
  have hapart : ∀ m ∈ g.msgs.take g.claimedLen, ∀ m' ∈ g.msgs.drop g.claimedLen,
      m.msg.id ≠ "" → m.msg.id ≠ m'.msg.id := by
    intro m hm m' hm' hid heq
    have hdistinct := h.distinct
    rw [← hsplit, List.map_append, List.filter_append, List.nodup_append] at hdistinct
    refine hdistinct.2.2 m.msg.id ?_ m'.msg.id ?_ heq
    · exact List.mem_filter.mpr ⟨List.mem_map_of_mem hm, by simpa using hid⟩
    · exact List.mem_filter.mpr ⟨List.mem_map_of_mem hm', by simpa [← heq] using hid⟩
  simp only [GroupState.settled] at hs
  split at hs
  · cases hs
  · next hresidual =>
      obtain rfl := Option.some.inj hs
      refine ⟨⟨fun id => ?_, ?_, Nat.zero_le _, ?_, fun _ => rfl⟩, hresidual⟩
      · rw [mem_forget, h.ids]
        constructor
        · rintro ⟨⟨hid, m, hm, rfl⟩, hkept⟩
          refine ⟨hid, m, ?_, rfl⟩
          rw [← hsplit] at hm
          exact (List.mem_append.mp hm).resolve_left fun hin => hkept m hin hid rfl
        · rintro ⟨hid, m, hm, rfl⟩
          refine ⟨⟨hid, m, List.mem_of_mem_drop hm, rfl⟩, fun m' hm' hid' => ?_⟩
          exact hapart m' hm' m hm hid'
      · exact h.distinct.sublist (((List.drop_sublist _ _).map _).filter _)
      · have hle := h.bounded
        simp only [List.length_drop]
        omega

end Shape

structure StoreShape (maxGroups maxGroupMembers : ℤ) (st : GroupStore P) : Prop where
  caps : st.maxGroups = maxGroups ∧ st.maxGroupMembers = maxGroupMembers
  capacity : 1 ≤ maxGroupMembers
  groups : ∀ key g, st.groups.lookup key = some g → g.msgs ≠ [] ∧ GroupShape maxGroupMembers g
  few : (st.groups.entries.length : ℤ) ≤ maxGroups

section StoreShape

variable {cap mem : ℤ} {st : GroupStore P} {key : String}

theorem length_entries (groups : AList fun _ : String => GroupState P) :
    groups.entries.length = groups.keys.length := by
  simp [AList.keys, List.keys]

theorem length_insert (groups : AList fun _ : String => GroupState P) (key : String)
    (g : GroupState P) :
    (groups.insert key g).entries.length = (groups.keys.erase key).length + 1 := by
  rw [length_entries, AList.keys_insert, List.length_cons]

theorem storeShape_newGroupStore (h : newGroupStore cap mem = .ok st) : StoreShape cap mem st := by
  unfold newGroupStore checkRange at h
  split_ifs at h with hcap hmem
  · cases h
    refine ⟨⟨rfl, rfl⟩, hmem.1, fun key g hg => ?_, ?_⟩
    · simp at hg
    · exact (Int.zero_le_ofNat 1).trans hcap.1

variable (h : StoreShape cap mem st)

include h

theorem StoreShape.insert {g : GroupState P}
    (hroom : (∃ g₀, st.groups.lookup key = some g₀) ∨
      st.groups.lookup key = none ∧ (st.groups.entries.length : ℤ) < cap)
    (hg : g.msgs ≠ [] ∧ GroupShape mem g) (n : ℕ) :
    StoreShape cap mem { st with groups := st.groups.insert key g, appended := n } := by
  refine ⟨h.caps, h.capacity, fun k g' hg' => ?_, ?_⟩
  · have hlookup := congrFun (KeyedMaps.lookup_insert_eq st.groups key g) k
    by_cases hk : k = key
    · subst hk
      rw [Function.update_self] at hlookup
      obtain rfl := Option.some.inj (hlookup.symm.trans hg')
      exact hg
    · rw [Function.update_of_ne hk] at hlookup
      exact h.groups k g' (hlookup.symm.trans hg')
  · show ((st.groups.insert key g).entries.length : ℤ) ≤ cap
    have hfew := h.few
    rw [length_insert]
    rcases hroom with ⟨g₀, hg₀⟩ | ⟨-, hlt⟩
    · have hmem : key ∈ st.groups.keys := by
        rw [← AList.mem_keys, ← AList.lookup_isSome, hg₀]
        rfl
      have hlen := List.length_erase_of_mem hmem
      have hpos := List.length_pos_of_mem hmem
      rw [length_entries] at hfew
      omega
    · have hle := List.length_erase_le (l := st.groups.keys) (a := key)
      rw [length_entries] at hlt
      omega

theorem StoreShape.erase (key : String) :
    StoreShape cap mem { st with groups := st.groups.erase key } := by
  refine ⟨h.caps, h.capacity, fun k g hg => ?_, ?_⟩
  · have hlookup := congrFun (KeyedMaps.lookup_erase_eq st.groups key) k
    by_cases hk : k = key
    · subst hk
      rw [Function.update_self] at hlookup
      rw [hlookup] at hg
      cases hg
    · rw [Function.update_of_ne hk] at hlookup
      exact h.groups k g (hlookup.symm.trans hg)
  · have hfew := h.few
    have hle := List.length_erase_le (l := st.groups.keys) (a := key)
    show ((st.groups.erase key).entries.length : ℤ) ≤ cap
    rw [length_entries] at hfew ⊢
    rw [AList.keys_erase]
    omega

variable {st' : GroupStore P}

theorem StoreShape.add {msg : Message P} {now : ℤ} {err : Option Err}
    (ho : AddStep key msg now st err st') : StoreShape cap mem st' := by
  cases ho with
  | refused err => exact h
  | known g found => exact h
  | appended g found fresh room =>
      obtain ⟨hgroups, hmembers⟩ := h.caps
      rw [hmembers] at room
      have hshape : GroupShape mem g := by
        rcases found with hg | ⟨-, rfl, -⟩
        · exact (h.groups key g hg).2
        · exact groupShape_new now h.capacity
      refine h.insert ?_ ⟨by simp [GroupState.append], hshape.append fresh room⟩ _
      rcases found with hg | ⟨hnone, -, hlt⟩
      · exact .inl ⟨g, hg⟩
      · exact .inr ⟨hnone, hgroups ▸ hlt⟩

theorem StoreShape.claimGroup {cl : ClaimGroup P} (hc : st.claimGroup key = (some cl, st')) :
    StoreShape cap mem st' := by
  simp only [GroupStore.claimGroup] at hc
  split at hc
  · simp at hc
  · next g hg =>
      split at hc
      · simp at hc
      · obtain ⟨hne, hshape⟩ := h.groups key g hg
        obtain ⟨-, rfl⟩ := Prod.mk.inj hc
        exact h.insert (g := g.lease) (.inl ⟨g, hg⟩) ⟨hne, hshape.lease⟩ st.appended

theorem StoreShape.settleGroup (cl : ClaimGroup P) (now : ℤ) :
    StoreShape cap mem (st.settleGroup cl now) := by
  rcases hf : st.fenced cl with _ | g
  · rw [settleGroup_of_missed hf]
    exact h
  · obtain ⟨hg, -, -⟩ := fenced_eq_some.mp hf
    simp only [GroupStore.settleGroup, hf]
    rcases hs : g.settled now with _ | g'
    · exact h.erase cl.key
    · have hsettled := (h.groups cl.key g hg).2.settled hs
      exact h.insert (.inl ⟨g, hg⟩) ⟨hsettled.2, hsettled.1⟩ st.appended

theorem StoreShape.abandonGroup (cl : ClaimGroup P) : StoreShape cap mem (st.abandonGroup cl) := by
  rcases hf : st.fenced cl with _ | g
  · rw [abandonGroup_of_missed hf]
    exact h
  · obtain ⟨hg, -, -⟩ := fenced_eq_some.mp hf
    obtain ⟨hne, hshape⟩ := h.groups cl.key g hg
    simp only [GroupStore.abandonGroup, hf]
    exact h.insert (g := g.abandoned) (.inl ⟨g, hg⟩) ⟨hne, hshape.abandoned⟩ st.appended

end StoreShape

end Msgin.Memory
