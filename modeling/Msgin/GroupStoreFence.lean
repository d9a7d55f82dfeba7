import Msgin.GroupStoreRuns

/-!
# The fence of a group store

The fence of a claim is the epoch of its group, which counts the claims on the group. Within the
life of one group the epochs of its claims are distinct, so that a claim that has been settled or
abandoned is stopped. A group that is settled as a whole is deleted, and the next one of the key
counts from the beginning again: there an old claim meets a lease that bears its epoch.
-/

namespace Msgin.Memory

open TransitionRuns

variable {P : Type} {s t : StoreRun P} {call : StoreCall P} {l : Lease P}
  {og : Option (GroupState P)} {i : ℕ}

section Fenced

variable {st : GroupStore P} {cl : ClaimGroup P} {g : GroupState P}

def EndsLease (g : GroupState P) (og : Option (GroupState P)) : Prop :=
  ∀ g', og = some g' → g'.leased = false ∧ g'.epoch = g.epoch

theorem endsLease_settled (g : GroupState P) (now : ℤ) : EndsLease g (g.settled now) :=
  fun _ h => GroupState.settled_eq_some h

theorem endsLease_abandoned (g : GroupState P) : EndsLease g (some g.abandoned) := by
  rintro g' ⟨rfl⟩
  exact ⟨rfl, rfl⟩

theorem EndsLease.ne_self (h : EndsLease g og) {st' : GroupStore P} (hf : st.fenced cl = some g)
    (hw : Writes st cl.key og st') : st' ≠ st := by
  rintro rfl
  obtain ⟨hg, hleased, -⟩ := fenced_eq_some.mp hf
  have hfree := (h g (hw.self.symm.trans hg)).1
  rw [hleased] at hfree
  cases hfree

end Fenced

structure FenceInv (s : StoreRun P) : Prop where
  known : ∀ i ∈ s.effective, i < s.leases.length
  lives : ∀ l ∈ s.leases, l.life ≤ s.deleted l.claim.key
  gone : ∀ l ∈ s.leases, s.store.groups.lookup l.claim.key = none →
    l.life < s.deleted l.claim.key
  epochs : ∀ i l g, s.leases[i]? = some l → s.store.groups.lookup l.claim.key = some g →
    l.life = s.deleted l.claim.key →
      l.claim.epoch ≤ g.epoch ∧ (i ∈ s.effective → g.leased = true → g.epoch ≠ l.claim.epoch)

theorem fenceInv_new (st : GroupStore P) : FenceInv (.new st) where
  known i h := by cases h
  lives l h := by cases h
  gone l h := by cases h
  epochs i l g h := by cases h

theorem FenceInv.claim (hinv : FenceInv s) {key : String} {cl : ClaimGroup P} {st : GroupStore P}
    (h : s.store.claimGroup key = (some cl, st)) :
    FenceInv
      { s with store := st, leases := s.leases ++ [⟨cl, s.store.appended, s.deleted key⟩] } := by
  obtain ⟨g, hg, -, rfl, hw, -⟩ := claimGroup_eq_some h
  refine ⟨fun i hi => ?_, fun l hl => ?_, fun l hl hnone => ?_, fun i l g' hl hg' hlife => ?_⟩
  · have hlt := hinv.known i hi
    rw [List.length_append]
    exact Nat.lt_add_right _ hlt
  · rcases List.mem_append.mp hl with hold | hnew
    · exact hinv.lives l hold
    · rw [List.mem_singleton.mp hnew]
  · by_cases hk : l.claim.key = key
    · rw [hk, hw.self] at hnone
      cases hnone
    · rcases List.mem_append.mp hl with hold | hnew
      · exact hinv.gone l hold ((hw.other hk).symm.trans hnone)
      · rw [List.mem_singleton.mp hnew] at hk
        exact absurd rfl hk
  · rcases KeyedMaps.getElem?_concat hl with hl | ⟨hi, rfl⟩
    · by_cases hk : l.claim.key = key
      · rw [hk] at hg' hlife
        obtain rfl := Option.some.inj (hw.self.symm.trans hg')
        have hle := (hinv.epochs i l g hl (by rw [hk]; exact hg) (by rw [hk]; exact hlife)).1
        show l.claim.epoch ≤ g.epoch + 1 ∧ (i ∈ s.effective → true = true →
          g.epoch + 1 ≠ l.claim.epoch)
        exact ⟨by omega, fun _ _ => by omega⟩
      · exact hinv.epochs i l g' hl ((hw.other hk).symm.trans hg') hlife
    · have hnone : i ∉ s.effective := fun hmem => Nat.ne_of_lt (hinv.known i hmem) hi
      obtain rfl := Option.some.inj (hw.self.symm.trans hg')
      exact ⟨Nat.le_refl _, fun h => absurd h hnone⟩

theorem FenceInv.write (hinv : FenceInv s) {key : String} {g : GroupState P} {st : GroupStore P}
    (hw : Writes s.store key (some g) st)
    (hsame : ∀ g₀, s.store.groups.lookup key = some g₀ → g.epoch = g₀.epoch ∧ g.leased = g₀.leased) :
    FenceInv { s with store := st } := by
  refine ⟨hinv.known, hinv.lives, fun l hl hnone => ?_, fun i l g' hl hg' hlife => ?_⟩
  · by_cases hk : l.claim.key = key
    · rw [hk, hw.self] at hnone
      cases hnone
    · exact hinv.gone l hl ((hw.other hk).symm.trans hnone)
  · by_cases hk : l.claim.key = key
    · rw [hk] at hg'
      obtain rfl := Option.some.inj (hw.self.symm.trans hg')
      rcases hg₀ : s.store.groups.lookup l.claim.key with _ | g₀
      · have hlt := hinv.gone l (List.mem_of_getElem? hl) hg₀
        exact absurd hlife (Nat.ne_of_lt hlt)
      · obtain ⟨hepoch, hleased⟩ := hsame g₀ (hk ▸ hg₀)
        rw [hepoch, hleased]
        exact hinv.epochs i l g₀ hl hg₀ hlife
    · exact hinv.epochs i l g' hl ((hw.other hk).symm.trans hg') hlife

theorem FenceInv.add (hinv : FenceInv s) (key : String) (msg : Message P) (now : ℤ) :
    FenceInv { s with store := (s.store.add key msg now).2 } := by
  have houtcome := add_outcome key msg now s.store
  generalize (s.store.add key msg now).1.2 = err at houtcome
  generalize (s.store.add key msg now).2 = st at houtcome
  cases houtcome with
  | refused err st same =>
      rcases same with rfl | ⟨now', hnone, hw, -⟩
      · exact hinv
      · exact hinv.write hw fun g₀ hg₀ => absurd (hnone.symm.trans hg₀) (by simp)
  | known g found nonempty seen => exact hinv
  | appended g st found writes counted =>
      refine hinv.write writes fun g₀ hg₀ => ?_
      rcases found with hg | ⟨hnone, -⟩
      · obtain rfl := Option.some.inj (hg.symm.trans hg₀)
        exact ⟨rfl, rfl⟩
      · exact absurd (hnone.symm.trans hg₀) (by simp)

theorem FenceInv.release (hinv : FenceInv s) (hl : s.leases[i]? = some l) {g : GroupState P}
    (hf : s.store.fenced l.claim = some g) {st : GroupStore P} (hends : EndsLease g og)
    (hw : Writes s.store l.claim.key og st) : FenceInv (s.release i l st) := by
  obtain ⟨hg, -, -⟩ := fenced_eq_some.mp hf
  have hknown : ∀ j ∈ i :: s.effective, j < s.leases.length := by
    intro j hj
    rcases List.mem_cons.mp hj with rfl | hj
    · exact (List.getElem?_eq_some_iff.mp hl).1
    · exact hinv.known j hj
  -- A group of another key is as it was, and claim `i` was not made with it.
  have hother : ∀ j l' g', s.leases[j]? = some l' → l'.claim.key ≠ l.claim.key →
      st.groups.lookup l'.claim.key = some g' → l'.life = s.deleted l'.claim.key →
      l'.claim.epoch ≤ g'.epoch ∧
        (j ∈ i :: s.effective → g'.leased = true → g'.epoch ≠ l'.claim.epoch) := by
    intro j l' g' hl' hk hg' hlife
    obtain ⟨hle, hkept⟩ := hinv.epochs j l' g' hl' ((hw.other hk).symm.trans hg') hlife
    refine ⟨hle, fun hj => ?_⟩
    rcases List.mem_cons.mp hj with rfl | hj
    · obtain rfl := Option.some.inj (hl.symm.trans hl')
      exact absurd rfl hk
    · exact hkept hj
  rw [StoreRun.release, hf, Option.isSome_some, if_pos rfl, hw.self]
  cases og with
  | none =>
      simp only [Option.isNone_none, if_true]
      have hdeleted : ∀ k, s.deleted k ≤
          Function.update s.deleted l.claim.key (s.deleted l.claim.key + 1) k := by
        intro k
        by_cases hk : k = l.claim.key
        · rw [hk, Function.update_self]
          exact Nat.le_succ _
        · rw [Function.update_of_ne hk]
      refine ⟨hknown, fun l' hl' => (hinv.lives l' hl').trans (hdeleted _), fun l' hl' hnone => ?_,
        fun j l' g' hl' hg' hlife => ?_⟩
      · by_cases hk : l'.claim.key = l.claim.key
        · have hle := hinv.lives l' hl'
          show l'.life < Function.update s.deleted l.claim.key (s.deleted l.claim.key + 1) _
          rw [hk, Function.update_self]
          rw [hk] at hle
          exact Nat.lt_succ_of_le hle
        · exact (hinv.gone l' hl' ((hw.other hk).symm.trans hnone)).trans_le (hdeleted _)
      · have hk : l'.claim.key ≠ l.claim.key := by
          intro hk
          have hg'' : st.groups.lookup l'.claim.key = some g' := hg'
          rw [hk, hw.self] at hg''
          cases hg''
        have hlife' : l'.life =
          Function.update s.deleted l.claim.key (s.deleted l.claim.key + 1) l'.claim.key := hlife
        rw [Function.update_of_ne hk] at hlife'
        exact hother j l' g' hl' hk hg' hlife'
  | some g₁ =>
      obtain ⟨hfree, hepoch⟩ := hends g₁ rfl
      simp only [Option.isNone_some, Bool.false_eq_true, if_false]
      refine ⟨hknown, hinv.lives, fun l' hl' hnone => ?_, fun j l' g' hl' hg' hlife => ?_⟩
      · by_cases hk : l'.claim.key = l.claim.key
        · have hnone' : st.groups.lookup l'.claim.key = none := hnone
          rw [hk, hw.self] at hnone'
          cases hnone'
        · exact hinv.gone l' hl' ((hw.other hk).symm.trans hnone)
      · by_cases hk : l'.claim.key = l.claim.key
        · have hg'' : st.groups.lookup l'.claim.key = some g' := hg'
          rw [hk, hw.self] at hg''
          obtain rfl := Option.some.inj hg''
          have hle := (hinv.epochs j l' g hl' (by rw [hk]; exact hg) hlife).1
          refine ⟨by omega, fun _ hleased => ?_⟩
          rw [hfree] at hleased
          cases hleased
        · exact hother j l' g' hl' hk hg' hlife

theorem FenceInv.step (hinv : FenceInv s) (h : StoreStep s call t) : FenceInv t := by
  cases h with
  | declines key => exact hinv
  | lists before => exact hinv
  | adds key msg now => exact hinv.add key msg now
  | claims key cl st given => exact hinv.claim given
  | misses i l made found missed => exact ⟨hinv.known, hinv.lives, hinv.gone, hinv.epochs⟩
  | settles i now l g found fenced =>
      exact hinv.release found fenced (endsLease_settled g now) (settleGroup_fenced fenced now)
  | abandons i l g found fenced =>
      exact hinv.release found fenced (endsLease_abandoned g) (abandonGroup_fenced fenced)

/-- `effective` records the claims whose calls have changed the store. -/
def RecordsEffects (s : StoreRun P) (call : StoreCall P) (t : StoreRun P) : Prop :=
  ∀ i, i ∈ t.effective ↔ i ∈ s.effective ∨ call.lease = some i ∧ t.store ≠ s.store

/-- A claim one of whose calls has had an effect leaves the store alone. -/
def FenceKept (s : StoreRun P) (call : StoreCall P) (t : StoreRun P) : Prop :=
  ∀ i, call.lease = some i → i ∈ s.effective → t.store = s.store

/-- A claim one of whose calls has had an effect is not used while the group of its key has been
deleted since and a lease on the new group bears its epoch. -/
def NotRevived (s : StoreRun P) (call : StoreCall P) (_ : StoreRun P) : Prop :=
  ∀ i l, call.lease = some i → s.leases[i]? = some l → i ∈ s.effective →
    l.life < s.deleted l.claim.key → ∀ g, s.store.groups.lookup l.claim.key = some g →
      g.leased = true → g.epoch ≠ l.claim.epoch

theorem release_of_fenced {g : GroupState P} (hf : s.store.fenced l.claim = some g)
    (st : GroupStore P) :
    (s.release i l st).store = st ∧ (s.release i l st).effective = i :: s.effective := by
  rw [StoreRun.release, hf, Option.isSome_some, if_pos rfl]
  exact ⟨rfl, rfl⟩

theorem recordsEffects_release {g : GroupState P} (hf : s.store.fenced l.claim = some g)
    (hcall : call.lease = some i) {st : GroupStore P} (hst : st ≠ s.store) :
    RecordsEffects s call (s.release i l st) := by
  intro j
  obtain ⟨hstore, heffective⟩ := release_of_fenced (i := i) hf st
  rw [hstore, heffective, hcall, Option.some.injEq, List.mem_cons, and_iff_left hst, or_comm,
    eq_comm]

theorem StoreStep.recordsEffects (h : StoreStep s call t) : RecordsEffects s call t := by
  cases h with
  | declines key => simp [RecordsEffects]
  | lists before => simp [RecordsEffects]
  | adds key msg now => simp [RecordsEffects, StoreCall.lease]
  | claims key cl st given => simp [RecordsEffects, StoreCall.lease]
  | misses i l made found missed => simp [RecordsEffects]
  | settles i now l g found fenced =>
      exact recordsEffects_release fenced rfl
        ((endsLease_settled g now).ne_self fenced (settleGroup_fenced fenced now))
  | abandons i l g found fenced =>
      exact recordsEffects_release fenced rfl
        ((endsLease_abandoned g).ne_self fenced (abandonGroup_fenced fenced))

theorem FenceInv.notRevived_iff_of_fenced (hinv : FenceInv s) {g : GroupState P}
    (hl : s.leases[i]? = some l) (hf : s.store.fenced l.claim = some g)
    (hcall : call.lease = some i) {st : GroupStore P} (hst : st ≠ s.store) :
    NotRevived s call (s.release i l st) ↔ FenceKept s call (s.release i l st) := by
  obtain ⟨hg, hleased, hepoch⟩ := fenced_eq_some.mp hf
  obtain ⟨hstore, -⟩ := release_of_fenced (i := i) hf st
  constructor
  · intro hrevived j hj heffective
    obtain rfl := Option.some.inj (hcall.symm.trans hj)
    have hlt : l.life < s.deleted l.claim.key := by
      refine Nat.lt_of_le_of_ne (hinv.lives l (List.mem_of_getElem? hl)) fun hlife => ?_
      exact (hinv.epochs i l g hl hg hlife).2 heffective hleased hepoch
    exact absurd hepoch (hrevived i l hcall hl heffective hlt g hg hleased)
  · intro hkept j l' hj hl' heffective
    obtain rfl := Option.some.inj (hcall.symm.trans hj)
    have hsame := hkept i hcall heffective
    rw [hstore] at hsame
    exact absurd hsame hst

theorem FenceInv.notRevived_iff (hinv : FenceInv s) (h : StoreStep s call t) :
    NotRevived s call t ↔ FenceKept s call t := by
  cases h with
  | declines key => simp [NotRevived, FenceKept, StoreCall.lease]
  | lists before => simp [NotRevived, FenceKept, StoreCall.lease]
  | adds key msg now => simp [NotRevived, FenceKept, StoreCall.lease]
  | claims key cl st given => simp [NotRevived, FenceKept, StoreCall.lease]
  | misses i l made found missed =>
      refine iff_of_true ?_ fun _ _ _ => rfl
      intro j l' hj hl' _ _ g hg hleased hepoch
      obtain rfl := Option.some.inj (made.symm.trans hj)
      obtain rfl := Option.some.inj (found.symm.trans hl')
      rw [fenced_eq_some.mpr ⟨hg, hleased, hepoch⟩] at missed
      cases missed
  | settles i now l g found fenced =>
      exact hinv.notRevived_iff_of_fenced found fenced rfl
        ((endsLease_settled g now).ne_self fenced (settleGroup_fenced fenced now))
  | abandons i l g found fenced =>
      exact hinv.notRevived_iff_of_fenced found fenced rfl
        ((endsLease_abandoned g).ne_self fenced (abandonGroup_fenced fenced))

/-- Along every run, claims that have had an effect have no other one as long as, and only as long
as, none of them is used while a lease of a later group of its key bears its epoch. -/
theorem run_fenceKept_iff (st : GroupStore P) (calls : List (StoreCall P)) :
    Along StoreRun.step RecordsEffects (.new st) calls ∧
      (Along StoreRun.step NotRevived (.new st) calls ↔
        Along StoreRun.step FenceKept (.new st) calls) := by
  constructor
  · exact along_of_invariant StoreRun.step (I := FenceInv)
      (fun _ _ _ hinv hstep => hinv.step (storeStep_of_step hstep))
      (fun _ _ _ _ hstep => (storeStep_of_step hstep).recordsEffects) (fenceInv_new st) calls
  · exact along_iff_along StoreRun.step (I := FenceInv)
      (fun _ _ _ hinv hstep _ => hinv.step (storeStep_of_step hstep))
      (fun _ _ _ hinv hstep => hinv.notRevived_iff (storeStep_of_step hstep)) (fenceInv_new st) calls

def namedMessage (id : String) : Message Unit := ⟨(), ⟨fun _ => some (.string id)⟩⟩

/-- A group is claimed and settled, the next one of its key is claimed, and then the first claim is
settled again. -/
def settledTwice : List (StoreCall Unit) :=
  [.add "k" (namedMessage "a") 0, .claimGroup "k", .settleGroup 0 1, .add "k" (namedMessage "b") 2,
    .claimGroup "k"]

theorem settledTwice_takes_members :
    ∃ st s t, newGroupStore 1024 65536 = .ok st ∧
      run StoreRun.step (.new st) settledTwice = some s ∧
      s.step (.settleGroup 0 3) = some t ∧ 0 ∈ s.effective ∧ s.leases.length = 2 ∧
      (s.store.groups.lookup "k").map (fun g => g.msgs.map fun m => m.msg.id) = some ["b"] ∧
      t.store.groups.lookup "k" = none := by
  exact ⟨_, _, _, rfl, rfl, rfl, by decide, rfl, rfl, rfl⟩

end Msgin.Memory
