import Msgin.GroupStoreShape

/-!
# What a group store keeps

A claim is a number of leading messages of a list that other calls go on appending to. Where each
claim is settled or abandoned at most once, the messages a claim was given out with lead its group
until then, what has arrived since follows them in order, and every message that was appended is
stored or has left with one settled claim.
-/

namespace Msgin.Memory

open TransitionRuns

variable {P : Type}

inductive StoreEvent (P : Type)
  | appended (key : String) (m : Member P)
  -- The claimed part of its group that an effective `SettleGroup` took out.
  | settled (claimed : List (Member P))

def StoreEvent.takes (n : ℕ) : StoreEvent P → Bool
  | .appended _ _ => false
  | .settled claimed => n ∈ claimed.map Member.number

def StoreRun.event (s : StoreRun P) : StoreCall P → Option (StoreEvent P)
  | .add key msg now =>
      if (s.store.add key msg now).2.appended = s.store.appended then none
      else some (.appended key ⟨s.store.appended, msg⟩)
  | .settleGroup i _ =>
      (s.leases[i]?.bind fun l => s.store.fenced l.claim).map fun g =>
        .settled (g.msgs.take g.claimedLen)
  | .claimGroup _ => none
  | .abandonGroup _ => none
  | .expired _ => none

/-- The message that an event appends to the group of `key`, from the `since`-th message on. -/
def StoreEvent.arrival (key : String) (since : ℕ) : StoreEvent P → Option (Member P)
  | .appended k m => if k = key ∧ since ≤ m.number then some m else none
  | .settled _ => none

def arrivals (key : String) (since : ℕ) (os : List (StoreEvent P)) : List (Member P) :=
  os.filterMap (StoreEvent.arrival key since)

theorem arrivals_append (key : String) (since : ℕ) (os os' : List (StoreEvent P)) :
    arrivals key since (os ++ os') = arrivals key since os ++ arrivals key since os' :=
  List.filterMap_append

variable {og : Option (GroupState P)} {key : String}

section Account

variable {st st' : GroupStore P} {os : List (StoreEvent P)} {o : Option (StoreEvent P)}
  {out : List (Member P)}

/-- Every message that was appended is stored, or was taken out once. -/
structure Account (st : GroupStore P) (os : List (StoreEvent P)) : Prop where
  storeInv : StoreInv st
  numbered : ∀ key m, StoreEvent.appended key m ∈ os → m.number < st.appended
  untaken : ∀ n, st.appended ≤ n → os.countP (StoreEvent.takes n) = 0
  balance : ∀ key m, StoreEvent.appended key m ∈ os →
    st.Stored key m ∧ os.countP (StoreEvent.takes m.number) = 0 ∨
      (∀ k m', st.Stored k m' → m'.number ≠ m.number) ∧
        os.countP (StoreEvent.takes m.number) = 1

/-- The event tells which messages an operation took out, and of a message that it appended. -/
structure Tells (st st' : GroupStore P) (out : List (Member P)) (o : Option (StoreEvent P)) :
    Prop where
  takes : ∀ n, o.toList.countP (StoreEvent.takes n) = if n ∈ out.map Member.number then 1 else 0
  appends : ∀ key m, StoreEvent.appended key m ∈ o.toList →
    st'.Stored key m ∧ m.number = st.appended ∧ st.appended < st'.appended

theorem Account.step (h : Account st os) (hc : Conserves st st' out) (ho : Tells st st' out o) :
    Account st' (os ++ o.toList) := by
  have hout : ∀ n ∈ out.map Member.number, ∃ k m, st.Stored k m ∧ m.number = n := by
    intro n hn
    obtain ⟨m, hm, rfl⟩ := List.mem_map.mp hn
    obtain ⟨k, hk⟩ := hc.taken m hm
    exact ⟨k, m, hk, rfl⟩
  have hlate : ∀ n, st.appended ≤ n → n ∉ out.map Member.number := by
    intro n hn hmem
    obtain ⟨k, m, hm, rfl⟩ := hout n hmem
    exact Nat.not_lt.mpr hn (h.storeInv.lt_appended hm)
  refine ⟨hc.storeInv, fun key m hm => ?_, fun n hn => ?_, fun key m hm => ?_⟩
  · rcases List.mem_append.mp hm with hold | hnew
    · exact (h.numbered key m hold).trans_le hc.appended
    · obtain ⟨-, hnumber, hlt⟩ := ho.appends key m hnew
      rw [hnumber]
      exact hlt
  · have hn' := hc.appended.trans hn
    rw [List.countP_append, h.untaken n hn', ho.takes, if_neg (hlate n hn')]
  · rw [List.countP_append, ho.takes]
    rcases List.mem_append.mp hm with hold | hnew
    · have hlt := h.numbered key m hold
      rcases h.balance key m hold with ⟨hstored, hcount⟩ | ⟨hgone, hcount⟩
      · rcases hc.kept key m hstored with hkept | htaken
        · have hnot : m.number ∉ out.map Member.number := by
            intro hmem
            obtain ⟨m', hm', hnumber⟩ := List.mem_map.mp hmem
            rcases hc.fresh key m hkept with ⟨-, hother⟩ | hle
            · exact hother m' hm' hnumber
            · exact Nat.not_lt.mpr hle hlt
          exact .inl ⟨hkept, by rw [hcount, if_neg hnot]⟩
        · refine .inr ⟨fun k m' hm' => ?_, by rw [hcount, if_pos (List.mem_map_of_mem htaken)]⟩
          rcases hc.fresh k m' hm' with ⟨-, hother⟩ | hle
          · exact (hother m htaken).symm
          · exact Nat.ne_of_gt (hlt.trans_le hle)
      · have hnot : m.number ∉ out.map Member.number := by
          intro hmem
          obtain ⟨k, m', hm', hnumber⟩ := hout _ hmem
          exact hgone k m' hm' hnumber
        refine .inr ⟨fun k m' hm' => ?_, by rw [hcount, if_neg hnot]⟩
        rcases hc.fresh k m' hm' with ⟨hstored, -⟩ | hle
        · exact hgone k m' hstored
        · exact Nat.ne_of_gt (hlt.trans_le hle)
    · obtain ⟨hstored, hnumber, -⟩ := ho.appends key m hnew
      have hle : st.appended ≤ m.number := Nat.le_of_eq hnumber.symm
      exact .inl ⟨hstored, by rw [h.untaken _ hle, if_neg (hlate _ hle)]⟩

theorem tells_none (st st' : GroupStore P) : Tells st st' [] none := by
  constructor <;> simp

theorem tells_settled (st st' : GroupStore P) (out : List (Member P)) :
    Tells st st' out (some (.settled out)) := by
  constructor
  · intro n
    simp only [Option.toList_some, List.countP_singleton, StoreEvent.takes, decide_eq_true_eq]
  · simp

theorem tells_appended {m : Member P} (hm : st'.Stored key m) (hnumber : m.number = st.appended)
    (hlt : st.appended < st'.appended) : Tells st st' [] (some (.appended key m)) := by
  constructor
  · intro n
    rfl
  · intro k m' hm'
    simp only [Option.toList_some, List.mem_singleton, StoreEvent.appended.injEq] at hm'
    obtain ⟨rfl, rfl⟩ := hm'
    exact ⟨hm, hnumber, hlt⟩

end Account

/-- The group of the claim is leased to it: the messages of the claim lead it, and what has been
appended since follows them. -/
def Leads (st : GroupStore P) (os : List (StoreEvent P)) (l : Lease P) : Prop :=
  ∃ g, st.groups.lookup l.claim.key = some g ∧ g.leased = true ∧ g.epoch = l.claim.epoch ∧
    g.claimedLen = l.claim.msgs.length ∧
    g.msgs = l.claim.msgs ++ arrivals l.claim.key l.since os

section Leads

variable {st st' : GroupStore P} {os : List (StoreEvent P)} {o : Option (StoreEvent P)}
  {l : Lease P}

theorem Leads.holds (h : Leads st os l) : st.Holds l.claim := by
  obtain ⟨g, hg, hleased, hepoch, hlen, hmsgs⟩ := h
  exact ⟨g, hg, hleased, hepoch, hlen, hmsgs ▸ List.prefix_append _ _⟩

theorem Leads.write_other (h : Leads st os l) (hw : Writes st key og st') (hk : l.claim.key ≠ key)
    (ho : o.bind (StoreEvent.arrival l.claim.key l.since) = none) :
    Leads st' (os ++ o.toList) l := by
  obtain ⟨g, hg, hleased, hepoch, hlen, hmsgs⟩ := h
  refine ⟨g, (hw.other hk).trans hg, hleased, hepoch, hlen, ?_⟩
  have hnone : arrivals l.claim.key l.since o.toList = [] := by
    cases o with
    | none => rfl
    | some o => exact List.filterMap_cons_none ho
  rw [hmsgs, arrivals_append, hnone, List.append_nil]

theorem Leads.append {g : GroupState P} {m : Member P} (h : Leads st os l)
    (hg : st.groups.lookup l.claim.key = some g)
    (hw : Writes st l.claim.key (some (g.append m)) st') (hm : l.since ≤ m.number) :
    Leads st' (os ++ (some (StoreEvent.appended l.claim.key m)).toList) l := by
  obtain ⟨g', hg', hleased, hepoch, hlen, hmsgs⟩ := h
  obtain rfl := Option.some.inj (hg.symm.trans hg')
  refine ⟨g.append m, hw.self, hleased, hepoch, hlen, ?_⟩
  have hnew : arrivals l.claim.key l.since [StoreEvent.appended l.claim.key m] = [m] := by
    simp only [arrivals, List.filterMap_cons, StoreEvent.arrival, hm, and_self, if_true,
      List.filterMap_nil]
  rw [Option.toList_some, arrivals_append, hnew, ← List.append_assoc, ← hmsgs]
  rfl

theorem Leads.settleGroup (h : Leads st os l) (now : ℤ) :
    (((st.settleGroup l.claim now).groups.lookup l.claim.key).elim [] GroupState.msgs) =
      arrivals l.claim.key l.since os := by
  obtain ⟨g, hg, hleased, hepoch, hlen, hmsgs⟩ := h
  have hw := settleGroup_fenced (fenced_eq_some.mpr ⟨hg, hleased, hepoch⟩) now
  have hdrop : g.msgs.drop g.claimedLen = arrivals l.claim.key l.since os := by
    rw [hlen, hmsgs, List.drop_left]
  rw [hw.self, ← hdrop]
  rcases hs : g.settled now with _ | g'
  · exact (GroupState.settled_none hs).symm
  · exact GroupState.settled_msgs hs

end Leads

def CalledOnce (s : StoreRun P) (call : StoreCall P) (_ : StoreRun P) : Prop :=
  ∀ i ∈ call.lease, i ∉ s.called

instance decidableCalledOnce (s : StoreRun P) (call : StoreCall P) (t : StoreRun P) :
    Decidable (CalledOnce s call t) :=
  inferInstanceAs (Decidable (∀ i ∈ call.lease, i ∉ s.called))

structure KeepInv (maxGroups maxGroupMembers : ℤ) (s : StoreRun P) (os : List (StoreEvent P)) :
    Prop where
  shape : StoreShape maxGroups maxGroupMembers s.store
  account : Account s.store os
  since : ∀ l ∈ s.leases, l.since ≤ s.store.appended
  leads : ∀ i l, s.leases[i]? = some l → i ∉ s.called → Leads s.store os l
  apart : ∀ i j l l', s.leases[i]? = some l → s.leases[j]? = some l' → i ∉ s.called →
    j ∉ s.called → i ≠ j → l.claim.key ≠ l'.claim.key

section KeepInv

variable {cap mem : ℤ} {s t : StoreRun P} {os : List (StoreEvent P)} {call : StoreCall P}
  {st : GroupStore P}

theorem keepInv_new (h : newGroupStore cap mem = .ok st) :
    KeepInv cap mem (.new st) [] where
  shape := storeShape_newGroupStore h
  account := ⟨storeInv_newGroupStore h, by simp, by simp, by simp⟩
  since l hl := by cases hl
  leads i l hl := by cases hl
  apart i j l l' hl := by cases hl

theorem KeepInv.add (hinv : KeepInv cap mem s os) (key : String) (msg : Message P) (now : ℤ) :
    KeepInv cap mem { s with store := (s.store.add key msg now).2 }
      (os ++ (s.event (.add key msg now)).toList) := by
  have hcap : 1 ≤ s.store.maxGroupMembers := hinv.shape.caps.2 ▸ hinv.shape.capacity
  have hshape := hinv.shape.add (addStep key msg now hcap)
  have hconserves := (add_outcome key msg now s.store).conserves hinv.account.storeInv
  have hstep := addStep key msg now hcap
  rw [StoreRun.event]
  generalize (s.store.add key msg now).1.2 = err at hstep hconserves
  generalize (s.store.add key msg now).2 = st at hstep hconserves hshape ⊢
  cases hstep with
  | refused err =>
      rw [if_pos rfl, Option.toList_none, List.append_nil]
      exact hinv
  | known g found =>
      rw [if_pos rfl, Option.toList_none, List.append_nil]
      exact hinv
  | appended g found fresh room =>
      have hw := writes_insert s.store key (g.append ⟨s.store.appended, msg⟩)
        (Nat.le_succ s.store.appended)
      rw [if_neg (Nat.succ_ne_self _)]
      refine ⟨hshape, ?_, fun l hl => (hinv.since l hl).trans (Nat.le_succ _), ?_, hinv.apart⟩
      · refine hinv.account.step hconserves (tells_appended ?_ rfl (Nat.lt_succ_self _))
        exact ⟨_, hw.self, by simp [GroupState.append]⟩
      · intro i l hl hi
        have hleads := hinv.leads i l hl hi
        by_cases hk : l.claim.key = key
        · obtain ⟨g₀, hg₀, -⟩ := id hleads
          obtain rfl : g₀ = g := by
            rcases found with hg | ⟨hnone, -⟩
            · exact Option.some.inj (hg₀.symm.trans (hk ▸ hg))
            · rw [hk, hnone] at hg₀
              cases hg₀
          subst hk
          exact hleads.append hg₀ hw (hinv.since l (List.mem_of_getElem? hl))
        · refine hleads.write_other hw hk ?_
          simp only [Option.bind_some, StoreEvent.arrival, Ne.symm hk, false_and, if_false]

theorem KeepInv.claim (hinv : KeepInv cap mem s os) {cl : ClaimGroup P}
    (h : s.store.claimGroup key = (some cl, st)) :
    KeepInv cap mem
      { s with store := st, leases := s.leases ++ [⟨cl, s.store.appended, s.deleted key⟩] } os := by
  have hrelabels := claimGroup_relabels h
  have haccount := hinv.account.step (hrelabels.conserves hinv.account.storeInv) (tells_none _ _)
  have hshape := hinv.shape.claimGroup h
  obtain ⟨g, hg, hfree, rfl, hw, happ⟩ := claimGroup_eq_some h
  rw [Option.toList_none, List.append_nil] at haccount
  -- A claim that is held has another key.
  have hother : ∀ i l, s.leases[i]? = some l → i ∉ s.called → l.claim.key ≠ key := by
    intro i l hl hi
    exact (claimGroup_other h (hinv.leads i l hl hi).holds).1
  refine ⟨hshape, haccount, fun l hl => ?_, fun i l hl hi => ?_, ?_⟩
  · show l.since ≤ st.appended
    rw [happ]
    rcases List.mem_append.mp hl with hold | hnew
    · exact hinv.since l hold
    · rw [List.mem_singleton.mp hnew]
  · rcases KeyedMaps.getElem?_concat hl with hl | ⟨-, rfl⟩
    · have hleads := (hinv.leads i l hl hi).write_other hw (hother i l hl hi) rfl (o := none)
      rwa [Option.toList_none, List.append_nil] at hleads
    · refine ⟨g.lease, hw.self, rfl, rfl, rfl, ?_⟩
      have hnone : arrivals key s.store.appended os = [] := by
        rw [arrivals, List.filterMap_eq_nil_iff]
        intro o ho
        cases o with
        | settled claimed => rfl
        | appended k m =>
            have hlt := hinv.account.numbered k m ho
            simp only [StoreEvent.arrival, Nat.not_le.mpr hlt, and_false, if_false]
      show g.msgs = g.msgs ++ arrivals key s.store.appended os
      rw [hnone, List.append_nil]
  · intro i j l l' hl hl' hi hj hne
    rcases KeyedMaps.getElem?_concat hl with hl | ⟨rfl, rfl⟩
    · rcases KeyedMaps.getElem?_concat hl' with hl' | ⟨rfl, rfl⟩
      · exact hinv.apart i j l l' hl hl' hi hj hne
      · exact hother i l hl hi
    · rcases KeyedMaps.getElem?_concat hl' with hl' | ⟨rfl, rfl⟩
      · exact (hother j l' hl' hj).symm
      · exact absurd rfl hne

theorem release_fields (s : StoreRun P) (i : ℕ) (l : Lease P) (st : GroupStore P) :
    (s.release i l st).store = st ∧ (s.release i l st).leases = s.leases ∧
      (s.release i l st).called = i :: s.called := by
  unfold StoreRun.release
  split
  · exact ⟨rfl, rfl, rfl⟩
  · exact ⟨rfl, rfl, rfl⟩

theorem KeepInv.release (hinv : KeepInv cap mem s os) {i : ℕ} {l : Lease P}
    (hl : s.leases[i]? = some l) (hi : i ∉ s.called) {out : List (Member P)}
    {o : Option (StoreEvent P)} (hw : Writes s.store l.claim.key og st)
    (hshape : StoreShape cap mem st) (hc : Conserves s.store st out) (ho : Tells s.store st out o)
    (hquiet : ∀ key since, o.bind (StoreEvent.arrival key since) = none) :
    KeepInv cap mem (s.release i l st) (os ++ o.toList) := by
  obtain ⟨hstore, hleases, hcalled⟩ := release_fields s i l st
  constructor
  · rw [hstore]
    exact hshape
  · rw [hstore]
    exact hinv.account.step hc ho
  · rw [hstore, hleases]
    exact fun l' hl' => (hinv.since l' hl').trans hc.appended
  · rw [hstore, hleases, hcalled]
    intro j l' hl' hj
    have hj' := List.not_mem_of_not_mem_cons hj
    have hk := hinv.apart j i l' l hl' hl hj' hi (List.ne_of_not_mem_cons hj)
    exact (hinv.leads j l' hl' hj').write_other hw hk (hquiet _ _)
  · rw [hleases, hcalled]
    intro j k l' l'' hl' hl'' hj hk
    exact hinv.apart j k l' l'' hl' hl'' (List.not_mem_of_not_mem_cons hj)
      (List.not_mem_of_not_mem_cons hk)

theorem KeepInv.step (hinv : KeepInv cap mem s os) (h : StoreStep s call t)
    (honce : CalledOnce s call t) : KeepInv cap mem t (os ++ (s.event call).toList) := by
  cases h with
  | declines key =>
      rw [StoreRun.event, Option.toList_none, List.append_nil]
      exact hinv
  | lists before =>
      rw [StoreRun.event, Option.toList_none, List.append_nil]
      exact hinv
  | adds key msg now => exact hinv.add key msg now
  | claims key cl st given =>
      rw [StoreRun.event, Option.toList_none, List.append_nil]
      exact hinv.claim given
  | misses i l made found missed =>
      obtain ⟨g, hfenced, -⟩ := fenced_of_holds (hinv.leads i l found (honce i made)).holds
      rw [hfenced] at missed
      cases missed
  | settles i now l g found fenced =>
      have hi : i ∉ s.called := honce i rfl
      have hholds := (hinv.leads i l found hi).holds
      obtain ⟨g', hfenced, -, htake⟩ := fenced_of_holds hholds
      have hevent : s.event (.settleGroup i now) = some (.settled l.claim.msgs) := by
        rw [StoreRun.event, found, Option.bind_some, hfenced, Option.map_some, htake]
      rw [hevent]
      exact hinv.release found hi (settleGroup_fenced fenced now)
        (hinv.shape.settleGroup l.claim now)
        (settleGroup_conserves hholds hinv.account.storeInv now) (tells_settled _ _ _)
        fun _ _ => rfl
  | abandons i l g found fenced =>
      have hi : i ∉ s.called := honce i rfl
      have hholds := (hinv.leads i l found hi).holds
      exact hinv.release found hi (abandonGroup_fenced fenced) (hinv.shape.abandonGroup l.claim)
        ((abandonGroup_relabels hholds).conserves hinv.account.storeInv) (tells_none _ _)
        fun _ _ => rfl

end KeepInv

/-- On every run on a new store in which no claim is used twice, the groups have their shape and the
caps are kept, an `Add` that fails leaves the store alone, every message that was appended is stored
or was taken out by one effective settlement, and what has arrived since a claim was given out is,
in order, what its settlement leaves. -/
theorem run_keeps {maxGroups maxGroupMembers : ℤ} {st : GroupStore P} {s : StoreRun P}
    {calls : List (StoreCall P)} (hnew : newGroupStore maxGroups maxGroupMembers = .ok st)
    (honce : Along StoreRun.step CalledOnce (.new st) calls)
    (hr : run StoreRun.step (.new st) calls = some s) :
    (∀ key g, s.store.groups.lookup key = some g → g.msgs ≠ [] ∧ GroupShape maxGroupMembers g) ∧
      (s.store.groups.entries.length : ℤ) ≤ maxGroups ∧
      (∀ key msg now err, (s.store.add key msg now).1.2 = some err →
        (s.store.add key msg now).2 = s.store) ∧
      (∀ key m, .appended key m ∈ observe StoreRun.step StoreRun.event (.new st) calls →
        s.store.Stored key m ∧ (observe StoreRun.step StoreRun.event (.new st) calls).countP
            (StoreEvent.takes m.number) = 0 ∨
          (∀ k, ¬ s.store.Stored k m) ∧ (observe StoreRun.step StoreRun.event (.new st) calls).countP
            (StoreEvent.takes m.number) = 1) ∧
      ∀ i l now, s.leases[i]? = some l → i ∉ s.called →
        (∃ g, s.store.groups.lookup l.claim.key = some g ∧ g.msgs = l.claim.msgs ++
          arrivals l.claim.key l.since (observe StoreRun.step StoreRun.event (.new st) calls)) ∧
        ((s.store.settleGroup l.claim now).groups.lookup l.claim.key).elim [] GroupState.msgs =
          arrivals l.claim.key l.since (observe StoreRun.step StoreRun.event (.new st) calls) := by
  have hinv := run_observe_of_along StoreRun.step StoreRun.event
    (I := KeepInv maxGroups maxGroupMembers)
    (fun _ _ _ _ hinv hstep hp => hinv.step (storeStep_of_step hstep) hp) (keepInv_new hnew) honce hr
  rw [List.nil_append] at hinv
  refine ⟨hinv.shape.groups, hinv.shape.few, fun key msg now err herr => ?_, fun key m hm => ?_,
    fun i l now hl hi => ⟨?_, (hinv.leads i l hl hi).settleGroup now⟩⟩
  · have hcap : 1 ≤ s.store.maxGroupMembers := hinv.shape.caps.2 ▸ hinv.shape.capacity
    have hstep := addStep key msg now hcap
    rw [herr] at hstep
    generalize (s.store.add key msg now).2 = st' at hstep ⊢
    cases hstep
    rfl
  · refine (hinv.account.balance key m hm).imp_right fun ⟨hgone, hcount⟩ => ⟨fun k hk => ?_, hcount⟩
    exact hgone k m hk rfl
  · obtain ⟨g, hg, -, -, -, hmsgs⟩ := hinv.leads i l hl hi
    exact ⟨g, hg, hmsgs⟩

/-- A message arrives while its group is claimed, and the claim is settled. -/
def settledLate : List (StoreCall Unit) :=
  [.add "k" (namedMessage "a") 0, .claimGroup "k", .add "k" (namedMessage "b") 1, .settleGroup 0 2,
    .claimGroup "k"]

theorem run_keeps_settledLate :
    ∃ st s, newGroupStore 2 2 = .ok st ∧ Along StoreRun.step CalledOnce (.new st) settledLate ∧
      run StoreRun.step (.new st) settledLate = some s ∧
      (∀ key g, s.store.groups.lookup key = some g → g.msgs ≠ [] ∧ GroupShape 2 g) ∧
      (observe StoreRun.step StoreRun.event (.new st) settledLate).length = 3 := by
  obtain ⟨st, s, hnew, honce, hr, hlen⟩ : ∃ (st : GroupStore Unit) (s : StoreRun Unit),
      newGroupStore 2 2 = .ok st ∧ Along StoreRun.step CalledOnce (.new st) settledLate ∧
      run StoreRun.step (.new st) settledLate = some s ∧
      (observe StoreRun.step StoreRun.event (.new st) settledLate).length = 3 :=
    ⟨_, _, rfl, by decide, rfl, rfl⟩
  exact ⟨st, s, hnew, honce, hr, (run_keeps hnew honce hr).1, hlen⟩

end Msgin.Memory
