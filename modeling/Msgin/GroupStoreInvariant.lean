import Msgin.MemoryGroupStore

/-!
# What a group store holds

Each operation writes one group. It keeps the numbers of the stored messages distinct, and
only `SettleGroup` takes messages away: those that its claim has frozen.
-/

namespace Msgin.Memory

variable {P : Type}

/-- The message that is the `m.number`-th to be appended is stored under `key`. -/
def GroupStore.Stored (st : GroupStore P) (key : String) (m : Member P) : Prop :=
  ∃ g, st.groups.lookup key = some g ∧ m ∈ g.msgs

structure GroupInv (appended : ℕ) (g : GroupState P) : Prop where
  ids : ∀ id ∈ g.ids, id ≠ "" ∧ ∃ m ∈ g.msgs, m.msg.id = id
  numbers : ∀ m ∈ g.msgs, m.number < appended
  distinct : (g.msgs.map Member.number).Nodup

structure StoreInv (st : GroupStore P) : Prop where
  group : ∀ key g, st.groups.lookup key = some g → GroupInv st.appended g
  apart : ∀ k k' m m', st.Stored k m → st.Stored k' m' → m.number = m'.number → k = k'

theorem groups_newGroupStore {maxGroups maxGroupMembers : ℤ} {st : GroupStore P}
    (h : newGroupStore maxGroups maxGroupMembers = .ok st) : st.groups = ∅ := by
  unfold newGroupStore at h
  split at h
  · cases h
  · split at h
    · cases h
    · cases h
      rfl

theorem storeInv_newGroupStore {maxGroups maxGroupMembers : ℤ} {st : GroupStore P}
    (h : newGroupStore maxGroups maxGroupMembers = .ok st) : StoreInv st := by
  have hempty : st.groups = ∅ := groups_newGroupStore h
  constructor
  · simp [hempty]
  · simp [GroupStore.Stored, hempty]

section Group

variable {n : ℕ} {g g' : GroupState P}

theorem groupInv_new (n : ℕ) (now : ℤ) : GroupInv n (.new now : GroupState P) := by
  constructor <;> simp [GroupState.new]

theorem GroupInv.append (h : GroupInv n g) (msg : Message P) :
    GroupInv (n + 1) (g.append ⟨n, msg⟩) where
  ids := by
    intro id hid
    simp only [GroupState.append, List.mem_append, List.mem_singleton] at hid ⊢
    split at hid
    · next hne =>
        rcases Finset.mem_insert.mp hid with rfl | hold
        · exact ⟨hne, ⟨n, msg⟩, Or.inr rfl, rfl⟩
        · obtain ⟨hid, m, hm, hmid⟩ := h.ids id hold
          exact ⟨hid, m, Or.inl hm, hmid⟩
    · obtain ⟨hid, m, hm, hmid⟩ := h.ids id hid
      exact ⟨hid, m, Or.inl hm, hmid⟩
  numbers := by
    intro m hm
    rcases List.mem_append.mp hm with hold | hnew
    · exact Nat.lt_succ_of_lt (h.numbers m hold)
    · obtain rfl := List.mem_singleton.mp hnew
      exact Nat.lt_succ_self n
  distinct := by
    have hnew : ∀ m ∈ g.msgs, m.number ≠ n := fun m hm => Nat.ne_of_lt (h.numbers m hm)
    simpa [GroupState.append, List.nodup_append, h.distinct] using hnew

theorem GroupInv.mono {k : ℕ} (h : GroupInv n g) (hk : n ≤ k) : GroupInv k g where
  ids := h.ids
  numbers m hm := Nat.lt_of_lt_of_le (h.numbers m hm) hk
  distinct := h.distinct

theorem mem_forget {ids : Finset String} {claimed : List (Member P)} {id : String} :
    id ∈ GroupState.forget ids claimed ↔
      id ∈ ids ∧ ∀ m ∈ claimed, m.msg.id ≠ "" → m.msg.id ≠ id := by
  induction claimed generalizing ids with
  | nil => simp [GroupState.forget]
  | cons m claimed ih =>
      have hcons : GroupState.forget ids (m :: claimed) =
        GroupState.forget (if m.msg.id ≠ "" then ids.erase m.msg.id else ids) claimed := rfl
      rw [hcons, ih]
      by_cases hm : m.msg.id = ""
      · simp [hm]
      · simp only [ne_eq, hm, not_false_eq_true, if_true, Finset.mem_erase, List.mem_cons,
          forall_eq_or_imp, forall_const]
        grind

theorem GroupInv.settled (h : GroupInv n g) {now : ℤ} (hs : g.settled now = some g') :
    GroupInv n g' := by
  simp only [GroupState.settled] at hs
  split at hs
  · simp at hs
  · obtain rfl := Option.some.inj hs
    have hsub : (g.msgs.drop g.claimedLen).Sublist g.msgs := List.drop_sublist _ _
    constructor
    · intro id hid
      obtain ⟨hold, hkept⟩ := mem_forget.mp hid
      obtain ⟨hne, m, hm, rfl⟩ := h.ids id hold
      refine ⟨hne, m, ?_, rfl⟩
      rw [← List.take_append_drop g.claimedLen g.msgs] at hm
      exact (List.mem_append.mp hm).resolve_left fun hin => hkept m hin hne rfl
    · intro m hm
      exact h.numbers m (hsub.mem hm)
    · exact h.distinct.sublist (hsub.map _)

end Group

/-- The group of `key` was written, or deleted. -/
structure Writes (st : GroupStore P) (key : String) (og : Option (GroupState P))
    (st' : GroupStore P) : Prop where
  lookup : (fun k => st'.groups.lookup k) = Function.update (fun k => st.groups.lookup k) key og
  appended : st.appended ≤ st'.appended

section Store

variable {st st' : GroupStore P} {key : String} {og : Option (GroupState P)} {g : GroupState P}

theorem Writes.self (h : Writes st key og st') : st'.groups.lookup key = og := by
  have hkey := congrFun h.lookup key
  rwa [Function.update_self] at hkey

variable {msg : Message P} {err : Option Err} {k : String}

theorem Writes.other (h : Writes st key og st') (hk : k ≠ key) :
    st'.groups.lookup k = st.groups.lookup k := by
  have hother := congrFun h.lookup k
  rwa [Function.update_of_ne hk] at hother

theorem writes_insert (st : GroupStore P) (key : String) (g : GroupState P) {n : ℕ}
    (hn : st.appended ≤ n) :
    Writes st key (some g) { st with groups := st.groups.insert key g, appended := n } :=
  ⟨KeyedMaps.lookup_insert_eq _ _ _, hn⟩

theorem writes_erase (st : GroupStore P) (key : String) :
    Writes st key none { st with groups := st.groups.erase key } :=
  ⟨KeyedMaps.lookup_erase_eq _ _, Nat.le_refl _⟩

theorem StoreInv.write (h : StoreInv st) (hw : Writes st key og st')
    (hgroup : ∀ g, og = some g → GroupInv st'.appended g)
    (hmembers : ∀ g, og = some g → ∀ m ∈ g.msgs, st.Stored key m ∨ st.appended ≤ m.number) :
    StoreInv st' where
  group k g hg := by
    by_cases hk : k = key
    · subst hk
      exact hgroup g (hw.self.symm.trans hg)
    · exact (h.group k g ((hw.other hk).symm.trans hg)).mono hw.appended
  apart := by
    -- A message stored by the write is an old one of its group or a new one.
    have hfrom : ∀ k m, st'.Stored k m → st.Stored k m ∨ k = key ∧ st.appended ≤ m.number := by
      rintro k m ⟨g, hg, hm⟩
      by_cases hk : k = key
      · subst hk
        exact (hmembers g (hw.self.symm.trans hg) m hm).imp_right fun hnew => ⟨rfl, hnew⟩
      · exact Or.inl ⟨g, (hw.other hk).symm.trans hg, hm⟩
    have hold : ∀ k m, st.Stored k m → m.number < st.appended := fun k m ⟨g, hg, hm⟩ =>
      (h.group k g hg).numbers m hm
    intro k k' m m' hm hm' heq
    rcases hfrom k m hm with hm | ⟨rfl, hnew⟩ <;> rcases hfrom k' m' hm' with hm' | ⟨rfl, hnew'⟩
    · exact h.apart k k' m m' hm hm' heq
    · have hlt := hold k m hm
      omega
    · have hlt := hold k' m' hm'
      omega
    · rfl

/-- What `Add` does: it refuses the message, or finds its id stored, or appends it. -/
inductive AddOutcome (key : String) (msg : Message P) (st : GroupStore P) :
    Option Err → GroupStore P → Prop
  | refused (err : Err) (st' : GroupStore P)
      (same : st' = st ∨ ∃ now, st.groups.lookup key = none ∧ Writes st key (some (.new now)) st' ∧
        st'.appended = st.appended) :
      AddOutcome key msg st (some err) st'
  | known (g : GroupState P) (found : st.groups.lookup key = some g) (nonempty : msg.id ≠ "")
      (seen : msg.id ∈ g.ids) : AddOutcome key msg st none st
  | appended (g : GroupState P) (st' : GroupStore P)
      (found : st.groups.lookup key = some g ∨
        st.groups.lookup key = none ∧ ∃ now, g = .new now)
      (writes : Writes st key (some (g.append ⟨st.appended, msg⟩)) st')
      (counted : st'.appended = st.appended + 1) : AddOutcome key msg st none st'

theorem add_outcome (key : String) (msg : Message P) (now : ℤ) (st : GroupStore P) :
    AddOutcome key msg st (st.add key msg now).1.2 (st.add key msg now).2 := by
  unfold GroupStore.add
  split
  · next g hg =>
      unfold GroupStore.addTo
      split
      · next hseen => exact .known g hg hseen.1 hseen.2
      · split
        · exact .refused _ st (Or.inl rfl)
        · exact .appended g _ (Or.inl hg) (writes_insert st key _ (Nat.le_succ _)) rfl
  · next hnone =>
      split
      · exact .refused _ st (Or.inl rfl)
      · unfold GroupStore.addTo
        split
        · next hseen => simp [GroupState.new] at hseen
        · split
          · exact .refused _ _ (Or.inr ⟨now, hnone, writes_insert st key _ (Nat.le_refl _), rfl⟩)
          · refine .appended (.new now) _ (Or.inr ⟨hnone, now, rfl⟩) ?_ rfl
            simp only [AList.insert_insert]
            exact writes_insert st key _ (Nat.le_succ _)

theorem add_accepted {now : ℤ} (h : (st.add key msg now).1.2 = none) :
    (∃ g, st.groups.lookup key = some g ∧ msg.id ≠ "" ∧ msg.id ∈ g.ids ∧
      st.add key msg now = ((some (g.live key), none), st)) ∨
    ∃ g st', (st.groups.lookup key = some g ∨ st.groups.lookup key = none ∧ g = .new now) ∧
      ¬(msg.id ≠ "" ∧ msg.id ∈ g.ids) ∧
      Writes st key (some (g.append ⟨st.appended, msg⟩)) st' ∧
      st.add key msg now = ((some ((g.append ⟨st.appended, msg⟩).live key), none), st') := by
  cases hg : st.groups.lookup key with
  | some g =>
      have hadd : st.add key msg now = st.addTo key g msg := by rw [GroupStore.add, hg]
      rw [hadd] at h ⊢
      unfold GroupStore.addTo at h ⊢
      split_ifs at h ⊢ with hseen hroom
      · exact Or.inl ⟨g, rfl, hseen.1, hseen.2, rfl⟩
      · exact Or.inr ⟨g, _, Or.inl rfl, hseen, writes_insert st key _ (Nat.le_succ _), rfl⟩
  | none =>
      simp only [GroupStore.add, hg] at h ⊢
      unfold GroupStore.addTo at h ⊢
      split_ifs at h ⊢ with hgroups hseen hroom
      · simp [GroupState.new] at hseen
      · refine Or.inr ⟨.new now, _, Or.inr ⟨trivial, rfl⟩, hseen, ?_, rfl⟩
        simp only [AList.insert_insert]
        exact writes_insert st key _ (Nat.le_succ _)

theorem AddOutcome.storeInv (ho : AddOutcome key msg st err st') (h : StoreInv st) :
    StoreInv st' := by
  cases ho with
  | refused err st' same =>
      rcases same with rfl | ⟨now, -, hw, -⟩
      · exact h
      · apply h.write hw
        · rintro g ⟨rfl⟩
          exact groupInv_new _ now
        · rintro g ⟨rfl⟩ m hm
          simp [GroupState.new] at hm
  | known g found nonempty seen => exact h
  | appended g st' found writes counted =>
      have hg : GroupInv st.appended g := by
        rcases found with hg | ⟨-, now, rfl⟩
        · exact h.group key g hg
        · exact groupInv_new _ now
      apply h.write writes
      · rintro g' ⟨rfl⟩
        rw [counted]
        exact hg.append msg
      · rintro g' ⟨rfl⟩ m hm
        rcases List.mem_append.mp hm with hold | hnew
        · rcases found with found | ⟨-, now, rfl⟩
          · exact Or.inl ⟨g, found, hold⟩
          · simp [GroupState.new] at hold
        · obtain rfl := List.mem_singleton.mp hnew
          exact Or.inr (Nat.le_refl _)

theorem AddOutcome.stored (ho : AddOutcome key msg st err st') {m : Member P} (hm : st.Stored k m) :
    st'.Stored k m := by
  obtain ⟨g, hg, hmem⟩ := hm
  cases ho with
  | refused err st' same =>
      rcases same with rfl | ⟨now, hnone, hw, -⟩
      · exact ⟨g, hg, hmem⟩
      · have hk : k ≠ key := by
          rintro rfl
          simp [hnone] at hg
        exact ⟨g, (hw.other hk).trans hg, hmem⟩
  | known g' found nonempty seen => exact ⟨g, hg, hmem⟩
  | appended g' st' found writes counted =>
      by_cases hk : k = key
      · subst hk
        obtain rfl : g = g' := by
          rcases found with found | ⟨hnone, -⟩
          · exact Option.some.inj (hg.symm.trans found)
          · simp [hnone] at hg
        exact ⟨_, writes.self, List.mem_append_left _ hmem⟩
      · exact ⟨g, (writes.other hk).trans hg, hmem⟩

theorem AddOutcome.of_stored (ho : AddOutcome key msg st err st') {m : Member P}
    (hm : st'.Stored k m) : st.Stored k m ∨ st.appended ≤ m.number := by
  obtain ⟨g, hg, hmem⟩ := hm
  cases ho with
  | refused err st' same =>
      rcases same with rfl | ⟨now, hnone, hw, -⟩
      · exact Or.inl ⟨g, hg, hmem⟩
      · by_cases hk : k = key
        · subst hk
          obtain rfl := Option.some.inj (hw.self.symm.trans hg)
          simp [GroupState.new] at hmem
        · exact Or.inl ⟨g, (hw.other hk).symm.trans hg, hmem⟩
  | known g' found nonempty seen => exact Or.inl ⟨g, hg, hmem⟩
  | appended g' st' found writes counted =>
      by_cases hk : k = key
      · subst hk
        obtain rfl := Option.some.inj (writes.self.symm.trans hg)
        rcases List.mem_append.mp hmem with hold | hnew
        · rcases found with found | ⟨-, now, rfl⟩
          · exact Or.inl ⟨g', found, hold⟩
          · simp [GroupState.new] at hold
        · obtain rfl := List.mem_singleton.mp hnew
          exact Or.inr (Nat.le_refl _)
      · exact Or.inl ⟨g, (writes.other hk).symm.trans hg, hmem⟩

theorem AddOutcome.accepted (ho : AddOutcome key msg st none st') (h : StoreInv st) :
    ∃ m, st'.Stored key m ∧ (m.msg = msg ∨ msg.id ≠ "" ∧ m.msg.id = msg.id) := by
  cases ho with
  | known g found nonempty seen =>
      obtain ⟨-, m, hm, hid⟩ := (h.group key g found).ids msg.id seen
      exact ⟨m, ⟨g, found, hm⟩, Or.inr ⟨nonempty, hid⟩⟩
  | appended g st' found writes counted =>
      exact ⟨⟨st.appended, msg⟩, ⟨_, writes.self, by simp [GroupState.append]⟩, Or.inl rfl⟩

end Store

end Msgin.Memory
