import Msgin.GroupStoreClaims
import Msgin.TransitionRuns

/-!
# Callers of a group store

Any number of callers add messages, claim groups, settle and abandon the claims they were given, and
ask for expired groups, each call one critical section. A claim is a value that its caller may keep
and use again at any later time.
-/

namespace Msgin.Memory

open TransitionRuns

variable {P : Type}

structure Lease (P : Type) where
  claim : ClaimGroup P
  -- How many messages had been appended.
  since : ℕ
  -- How many groups of the key had been deleted.
  life : ℕ

structure StoreRun (P : Type) where
  store : GroupStore P
  leases : List (Lease P)
  -- The positions of the leases that `SettleGroup` or `AbandonGroup` was called with.
  called : List ℕ
  -- Those of them whose call passed the fence.
  effective : List ℕ
  -- How many groups of a key have been deleted.
  deleted : String → ℕ

inductive StoreCall (P : Type)
  | add (key : String) (msg : Message P) (now : ℤ)
  | claimGroup (key : String)
  -- Made with the claim at this position.
  | settleGroup (i : ℕ) (now : ℤ)
  | abandonGroup (i : ℕ)
  | expired (before : ℤ)

def StoreCall.lease : StoreCall P → Option ℕ
  | .settleGroup i _ => some i
  | .abandonGroup i => some i
  | _ => none

namespace StoreRun

def new (st : GroupStore P) : StoreRun P := ⟨st, [], [], [], fun _ => 0⟩

/-- A call with claim `i` has left the store `st`. -/
def release (s : StoreRun P) (i : ℕ) (l : Lease P) (st : GroupStore P) : StoreRun P :=
  if (s.store.fenced l.claim).isSome then
    { s with
      store := st
      called := i :: s.called
      effective := i :: s.effective
      deleted := if (st.groups.lookup l.claim.key).isNone then
          Function.update s.deleted l.claim.key (s.deleted l.claim.key + 1)
        else s.deleted }
  else { s with store := st, called := i :: s.called }

def step (s : StoreRun P) : StoreCall P → Option (StoreRun P)
  | .add key msg now => some { s with store := (s.store.add key msg now).2 }
  | .claimGroup key =>
      match s.store.claimGroup key with
      | (none, st) => some { s with store := st }
      | (some cl, st) =>
          some { s with
            store := st
            leases := s.leases ++ [⟨cl, s.store.appended, s.deleted key⟩] }
  | .settleGroup i now => s.leases[i]?.map fun l => s.release i l (s.store.settleGroup l.claim now)
  | .abandonGroup i => s.leases[i]?.map fun l => s.release i l (s.store.abandonGroup l.claim)
  | .expired _ => some s

end StoreRun

/-- What `Add` does to a store that admits at least one member to a group. -/
inductive AddStep (key : String) (msg : Message P) (now : ℤ) (st : GroupStore P) :
    Option Err → GroupStore P → Prop
  | refused (err : Err) : AddStep key msg now st (some err) st
  | known (g : GroupState P) (found : st.groups.lookup key = some g) :
      AddStep key msg now st none st
  | appended (g : GroupState P)
      (found : st.groups.lookup key = some g ∨ st.groups.lookup key = none ∧ g = .new now ∧
        (st.groups.entries.length : ℤ) < st.maxGroups)
      (fresh : msg.id ≠ "" → msg.id ∉ g.ids) (room : (g.msgs.length : ℤ) < st.maxGroupMembers) :
      AddStep key msg now st none
        { st with
          groups := st.groups.insert key (g.append ⟨st.appended, msg⟩)
          appended := st.appended + 1 }

variable {st : GroupStore P} {cl : ClaimGroup P}

theorem addStep (key : String) (msg : Message P) (now : ℤ) (hcap : 1 ≤ st.maxGroupMembers) :
    AddStep key msg now st (st.add key msg now).1.2 (st.add key msg now).2 := by
  cases hg : st.groups.lookup key with
  | some g =>
      have hadd : st.add key msg now = st.addTo key g msg := by rw [GroupStore.add, hg]
      rw [hadd]
      unfold GroupStore.addTo
      split_ifs with hseen hroom
      · exact .known g hg
      · exact .refused _
      · exact .appended g (.inl hg) (fun hid hmem => hseen ⟨hid, hmem⟩) (Int.not_le.mp hroom)
  | none =>
      simp only [GroupStore.add, hg]
      unfold GroupStore.addTo
      split_ifs with hgroups hseen hroom
      · exact .refused _
      · simp [GroupState.new] at hseen
      · simp only [GroupState.new, List.length_nil] at hroom
        omega
      · simp only [AList.insert_insert]
        exact .appended (.new now) (.inr ⟨hg, rfl, Int.not_le.mp hgroups⟩)
          (fun _ => by simp [GroupState.new]) (by simp only [GroupState.new, List.length_nil]; omega)

inductive StoreStep (s : StoreRun P) : StoreCall P → StoreRun P → Prop
  | declines (key : String) : StoreStep s (.claimGroup key) s
  | lists (before : ℤ) : StoreStep s (.expired before) s
  | adds (key : String) (msg : Message P) (now : ℤ) :
      StoreStep s (.add key msg now) { s with store := (s.store.add key msg now).2 }
  | claims (key : String) (cl : ClaimGroup P) (st : GroupStore P)
      (given : s.store.claimGroup key = (some cl, st)) :
      StoreStep s (.claimGroup key)
        { s with store := st, leases := s.leases ++ [⟨cl, s.store.appended, s.deleted key⟩] }
  | misses {call : StoreCall P} (i : ℕ) (l : Lease P) (made : call.lease = some i)
      (found : s.leases[i]? = some l) (missed : s.store.fenced l.claim = none) :
      StoreStep s call { s with called := i :: s.called }
  | settles (i : ℕ) (now : ℤ) (l : Lease P) (g : GroupState P) (found : s.leases[i]? = some l)
      (fenced : s.store.fenced l.claim = some g) :
      StoreStep s (.settleGroup i now) (s.release i l (s.store.settleGroup l.claim now))
  | abandons (i : ℕ) (l : Lease P) (g : GroupState P) (found : s.leases[i]? = some l)
      (fenced : s.store.fenced l.claim = some g) :
      StoreStep s (.abandonGroup i) (s.release i l (s.store.abandonGroup l.claim))

theorem settleGroup_of_missed (h : st.fenced cl = none) (now : ℤ) : st.settleGroup cl now = st := by
  simp only [GroupStore.settleGroup, h]

theorem abandonGroup_of_missed (h : st.fenced cl = none) : st.abandonGroup cl = st := by
  simp only [GroupStore.abandonGroup, h]

theorem storeStep_of_step {s t : StoreRun P} {call : StoreCall P} (h : s.step call = some t) :
    StoreStep s call t := by
  cases call with
  | add key msg now =>
      obtain rfl := Option.some.inj h
      exact .adds key msg now
  | claimGroup key =>
      rcases hc : s.store.claimGroup key with ⟨_ | cl, st⟩
      · simp only [StoreRun.step, hc, Option.some.injEq] at h
        obtain rfl := claimGroup_eq_none hc
        obtain rfl := h
        exact .declines key
      · simp only [StoreRun.step, hc, Option.some.injEq] at h
        obtain rfl := h
        exact .claims key cl st hc
  | settleGroup i now =>
      obtain ⟨l, hl, rfl⟩ := Option.map_eq_some_iff.mp h
      rcases hf : s.store.fenced l.claim with _ | g
      · rw [settleGroup_of_missed hf, StoreRun.release, hf]
        exact .misses i l rfl hl hf
      · exact .settles i now l g hl hf
  | abandonGroup i =>
      obtain ⟨l, hl, rfl⟩ := Option.map_eq_some_iff.mp h
      rcases hf : s.store.fenced l.claim with _ | g
      · rw [abandonGroup_of_missed hf, StoreRun.release, hf]
        exact .misses i l rfl hl hf
      · exact .abandons i l g hl hf
  | expired before =>
      obtain rfl := Option.some.inj h
      exact .lists before

end Msgin.Memory
