import Msgin.CommittedMembers
import Msgin.GroupStoreConservation
import Msgin.TwinAdd

/-!
# Two interchangeable group stores

The same calls are made on a memory store and on an SQL store with the same cap on the members of a
group. The claims given out are numbered in the order in which they were given, on either side, and
a call with a claim is made with the one of that number.
-/

namespace Msgin.Sql

open TransitionRuns

structure TwinStores where
  memory : Memory.StoreRun AnyPayload
  db : GroupDatabase
  claims : List GroupClaim

/-- A call on both stores, at a time of the memory store's clock and one of the database's. -/
inductive TwinCall
  | add (key : String) (msg : Message AnyPayload) (now dbNow : ℤ)
  | claimGroup (key : String) (dbNow : ℤ)
  | settleGroup (i : ℕ) (now dbNow : ℤ)
  | abandonGroup (i : ℕ)

def TwinCall.memory : TwinCall → Memory.StoreCall AnyPayload
  | .add key msg now _ => .add key msg now
  | .claimGroup key _ => .claimGroup key
  | .settleGroup i now _ => .settleGroup i now
  | .abandonGroup i => .abandonGroup i

namespace TwinStores

def new (mst : Memory.GroupStore AnyPayload) : TwinStores := ⟨.new mst, fun _ => ⟨none, []⟩, []⟩

def sqlStep (st : GroupStore) (s : TwinStores) : TwinCall → Option (GroupDatabase × List GroupClaim)
  | .add key msg _ dbNow => some ((st.add key msg dbNow s.db).2, s.claims)
  | .claimGroup key dbNow =>
      some ((st.claimGroup key dbNow s.db).2,
        s.claims ++ (st.claimGroup key dbNow s.db).1.1.toList)
  | .settleGroup i _ dbNow => s.claims[i]?.map fun c => (st.settleGroup c dbNow s.db, s.claims)
  | .abandonGroup i => s.claims[i]?.map fun c => (st.abandonGroup c s.db, s.claims)

def step (st : GroupStore) (s : TwinStores) (call : TwinCall) : Option TwinStores :=
  (s.memory.step call.memory).bind fun m =>
    (s.sqlStep st call).map fun sql => ⟨m, sql.1, sql.2⟩

end TwinStores

/-- The messages are on the wire, the ids and keys fit their columns, no group is refused for the
number of groups, no lease runs out and no claim is used twice. -/
def Admissible (st : GroupStore) (s : TwinStores) (call : TwinCall) (_ : TwinStores) : Prop :=
  (∀ i ∈ call.memory.lease, i ∉ s.memory.called) ∧
    match call with
    | .add key msg _ dbNow =>
        OnWire st.framing msg ∧ st.dialect.fits key = true ∧ st.dialect.fits msg.id = true ∧
          LeaseKept st dbNow (s.db key) ∧
          ((s.memory.store.groups.lookup key).isSome ∨
            (s.memory.store.groups.entries.length : ℤ) < s.memory.store.maxGroups)
    | .claimGroup key dbNow => st.dialect.fits key = true ∧ LeaseKept st dbNow (s.db key)
    | _ => True

/-- The two stores give the same answer. `SettleGroup` and `AbandonGroup` do not fail. -/
def SameAnswers (st : GroupStore) (s : TwinStores) (call : TwinCall) (_ : TwinStores) : Prop :=
  match call with
  | .add key msg now dbNow => SameAdd (s.memory.store.add key msg now).1 (st.add key msg dbNow s.db).1
  | .claimGroup key dbNow =>
      SameClaim (s.memory.store.claimGroup key).1 (st.claimGroup key dbNow s.db).1
  | _ => True

variable {st : GroupStore} {s s' : TwinStores} {call : TwinCall}

structure TwinInv (maxGroups : ℤ) (st : GroupStore) (s : TwinStores) : Prop where
  keeps : ∃ os, Memory.KeepInv maxGroups st.maxGroupMembers s.memory os
  twin : ∀ k, Twin st (s.memory.store.groups.lookup k) (s.db k)
  count : s.claims.length = s.memory.leases.length
  same : ∀ (i : ℕ) (l : Memory.Lease AnyPayload) (c : GroupClaim), s.memory.leases[i]? = some l →
    s.claims[i]? = some c → c.key = l.claim.key ∧ c.epoch = l.claim.epoch

variable {maxGroups : ℤ} {mst : Memory.GroupStore AnyPayload} {id : String}
  {l : Memory.Lease AnyPayload} {dbNow now : ℤ} {i : ℕ}

theorem twinInv_new (h : Memory.newGroupStore maxGroups st.maxGroupMembers = .ok mst) :
    TwinInv maxGroups st (.new mst) where
  keeps := ⟨[], Memory.keepInv_new h⟩
  twin k := by
    show Twin st (mst.groups.lookup k) ⟨none, []⟩
    rw [Memory.groups_newGroupStore h]
    exact .absent
  count := rfl
  same i l c hl := by cases hl

theorem TwinInv.keeps_step (hinv : TwinInv maxGroups st s) {call : Memory.StoreCall AnyPayload}
    {m : Memory.StoreRun AnyPayload} (hstep : s.memory.step call = some m)
    (honce : ∀ i ∈ call.lease, i ∉ s.memory.called) :
    ∃ os, Memory.KeepInv maxGroups st.maxGroupMembers m os := by
  obtain ⟨os, hkeeps⟩ := hinv.keeps
  exact ⟨_, hkeeps.step (Memory.storeStep_of_step hstep) honce⟩

theorem TwinInv.fenced (hinv : TwinInv maxGroups st s) {c : GroupClaim}
    (hl : s.memory.leases[i]? = some l) (hc : s.claims[i]? = some c) (hi : i ∉ s.memory.called) :
    ∃ g, s.memory.store.fenced l.claim = some g ∧ Twin st (some g) (s.db c.key) ∧
      g.leased = true ∧ g.epoch = c.epoch := by
  obtain ⟨os, hkeeps⟩ := hinv.keeps
  obtain ⟨g, hfenced, -⟩ := Memory.fenced_of_holds (hkeeps.leads i l hl hi).holds
  obtain ⟨hg, hleased, hepoch⟩ := Memory.fenced_eq_some.mp hfenced
  obtain ⟨hkey, hsame⟩ := hinv.same i l c hl hc
  have htwin := hinv.twin l.claim.key
  rw [hg, ← hkey] at htwin
  exact ⟨g, hfenced, htwin, hleased, hepoch.trans hsame.symm⟩

theorem TwinInv.step_add (hinv : TwinInv maxGroups st s) (hst : st.Valid) {key : String}
    {msg : Message AnyPayload} (hadm : Admissible st s (.add key msg now dbNow) s')
    (hstep : s.step st (.add key msg now dbNow) = some s') :
    TwinInv maxGroups st s' ∧ SameAnswers st s (.add key msg now dbNow) s' := by
  obtain ⟨m, hm, hs'⟩ := Option.bind_eq_some_iff.mp hstep
  obtain ⟨sql, hsql, rfl⟩ := Option.map_eq_some_iff.mp hs'
  obtain ⟨honce, hwire, hkey, hfits, hkept, hroom⟩ := hadm
  have hkeeps := hinv.keeps_step hm honce
  obtain rfl := Option.some.inj hm
  obtain rfl := Option.some.inj hsql
  obtain ⟨os, hinv'⟩ := hinv.keeps
  obtain ⟨hsame, htwin⟩ := Twin.add hinv.twin hst hinv'.shape hwire hkey hfits now hkept hroom
  exact ⟨⟨hkeeps, htwin, hinv.count, hinv.same⟩, hsame⟩

theorem TwinInv.step_claim (hinv : TwinInv maxGroups st s)
    (howner : st.dialect.fits st.lockedBy = true) {key : String}
    (hadm : Admissible st s (.claimGroup key dbNow) s')
    (hstep : s.step st (.claimGroup key dbNow) = some s') :
    TwinInv maxGroups st s' ∧ SameAnswers st s (.claimGroup key dbNow) s' := by
  obtain ⟨m, hm, hs'⟩ := Option.bind_eq_some_iff.mp hstep
  obtain ⟨sql, hsql, rfl⟩ := Option.map_eq_some_iff.mp hs'
  obtain rfl : ((st.claimGroup key dbNow s.db).2,
      s.claims ++ (st.claimGroup key dbNow s.db).1.1.toList) = sql := Option.some.inj hsql
  obtain ⟨honce, -, hkept⟩ := hadm
  have hkeeps := hinv.keeps_step hm honce
  have hsame := ((hinv.twin key).claimGroup howner hkept).1
  have htwin := Twin.claim hinv.twin howner hkept
  refine ⟨?_, hsame⟩
  obtain ⟨-, hclaim⟩ := hsame
  rcases hc : s.memory.store.claimGroup key with ⟨_ | cl, mst⟩
  · rw [hc, Option.map_none, eq_comm, Option.map_eq_none_iff] at hclaim
    simp only [TwinCall.memory, Memory.StoreRun.step, hc, Option.some.injEq] at hm
    subst hm
    rw [hc] at htwin
    refine ⟨hkeeps, htwin, ?_, ?_⟩
    · simp only [hclaim, Option.toList_none, List.append_nil]
      exact hinv.count
    · simp only [hclaim, Option.toList_none, List.append_nil]
      exact hinv.same
  · rw [hc, Option.map_some, eq_comm, Option.map_eq_some_iff] at hclaim
    obtain ⟨c, hclaim, hsame⟩ := hclaim
    simp only [TwinCall.memory, Memory.StoreRun.step, hc, Option.some.injEq] at hm
    subst hm
    rw [hc] at htwin
    refine ⟨hkeeps, htwin, ?_, fun i l c' hl hc' => ?_⟩
    · simp only [hclaim, Option.toList_some, List.length_append, hinv.count, List.length_singleton]
    · simp only [hclaim, Option.toList_some] at hc'
      rcases KeyedMaps.getElem?_concat hl with hl | ⟨rfl, rfl⟩
      · rcases KeyedMaps.getElem?_concat hc' with hc' | ⟨rfl, -⟩
        · exact hinv.same i l c' hl hc'
        · have hlt := (List.getElem?_eq_some_iff.mp hl).1
          rw [hinv.count] at hlt
          exact absurd hlt (Nat.lt_irrefl _)
      · rcases KeyedMaps.getElem?_concat hc' with hc' | ⟨-, rfl⟩
        · have hlt := (List.getElem?_eq_some_iff.mp hc').1
          rw [hinv.count] at hlt
          exact absurd hlt (Nat.lt_irrefl _)
        · simp only [Prod.mk.injEq] at hsame
          exact ⟨hsame.1, hsame.2.2⟩

theorem TwinInv.release (hinv : TwinInv maxGroups st s) {c : GroupClaim}
    (hl : s.memory.leases[i]? = some l) (hc : s.claims[i]? = some c)
    {og : Option (Memory.GroupState AnyPayload)} {t : GroupTables}
    (hw : Memory.Writes s.memory.store l.claim.key og mst) (ht : Twin st og t)
    (hkeeps : ∃ os, Memory.KeepInv maxGroups st.maxGroupMembers (s.memory.release i l mst) os) :
    TwinInv maxGroups st ⟨s.memory.release i l mst, Function.update s.db c.key t, s.claims⟩ := by
  obtain ⟨hstore, hleases, -⟩ := Memory.release_fields s.memory i l mst
  have hkey := (hinv.same i l c hl hc).1
  refine ⟨hkeeps, ?_, ?_, ?_⟩
  · rw [hstore, hkey]
    refine Twin.update _ (fun k hk => ?_) ?_
    · rw [hw.other hk]
      exact hinv.twin k
    · rw [hw.self]
      exact ht
  · rw [hleases]
    exact hinv.count
  · rw [hleases]
    exact hinv.same

theorem TwinInv.step_settle (hinv : TwinInv maxGroups st s)
    (hadm : Admissible st s (.settleGroup i now dbNow) s')
    (hstep : s.step st (.settleGroup i now dbNow) = some s') : TwinInv maxGroups st s' := by
  obtain ⟨m, hm, hs'⟩ := Option.bind_eq_some_iff.mp hstep
  obtain ⟨sql, hsql, rfl⟩ := Option.map_eq_some_iff.mp hs'
  have hkeeps := hinv.keeps_step hm hadm.1
  obtain ⟨l, hl, rfl⟩ := Option.map_eq_some_iff.mp hm
  obtain ⟨c, hc, rfl⟩ := Option.map_eq_some_iff.mp hsql
  obtain ⟨g, hfenced, htwin, hleased, hepoch⟩ := hinv.fenced hl hc (hadm.1 i rfl)
  have hsettled := htwin.settleGroup hleased now dbNow
  rw [hepoch] at hsettled
  exact hinv.release hl hc (Memory.settleGroup_fenced hfenced now) hsettled hkeeps

theorem TwinInv.step_abandon (hinv : TwinInv maxGroups st s)
    (hadm : Admissible st s (.abandonGroup i) s') (hstep : s.step st (.abandonGroup i) = some s') :
    TwinInv maxGroups st s' := by
  obtain ⟨m, hm, hs'⟩ := Option.bind_eq_some_iff.mp hstep
  obtain ⟨sql, hsql, rfl⟩ := Option.map_eq_some_iff.mp hs'
  have hkeeps := hinv.keeps_step hm hadm.1
  obtain ⟨l, hl, rfl⟩ := Option.map_eq_some_iff.mp hm
  obtain ⟨c, hc, rfl⟩ := Option.map_eq_some_iff.mp hsql
  obtain ⟨g, hfenced, htwin, hleased, hepoch⟩ := hinv.fenced hl hc (hadm.1 i rfl)
  have habandoned := htwin.abandonGroup hleased
  rw [hepoch] at habandoned
  exact hinv.release hl hc (Memory.abandonGroup_fenced hfenced) habandoned hkeeps

theorem TwinInv.step (hinv : TwinInv maxGroups st s) (hst : st.Valid)
    (hstep : s.step st call = some s') (hadm : Admissible st s call s') :
    TwinInv maxGroups st s' ∧ SameAnswers st s call s' := by
  cases call with
  | add key msg now dbNow => exact hinv.step_add hst hadm hstep
  | claimGroup key dbNow => exact hinv.step_claim hst.owner hadm hstep
  | settleGroup i now dbNow => exact ⟨hinv.step_settle hadm hstep, trivial⟩
  | abandonGroup i => exact ⟨hinv.step_abandon hadm hstep, trivial⟩

theorem valid_of_newGroupStore (h : Memory.newGroupStore maxGroups st.maxGroupMembers = .ok mst)
    (he : st.dialect = .postgres ∨ st.dialect = .sqlite)
    (howner : st.dialect.fits st.lockedBy = true) : st.Valid := by
  refine ⟨?_, howner, ?_⟩
  · rcases he with he | he
    · rw [he]
      rfl
    · rw [he]
      rfl
  · unfold Memory.newGroupStore Memory.checkRange at h
    split_ifs at h with hgroups hmembers
    exact hmembers

/-- Along every sequence of calls the two stores give the same answers, so that they have given out
the same number of claims. -/
theorem twinStores_sameAnswers {mst : Memory.GroupStore AnyPayload}
    (hnew : Memory.newGroupStore maxGroups st.maxGroupMembers = .ok mst)
    (he : st.dialect = .postgres ∨ st.dialect = .sqlite)
    (howner : st.dialect.fits st.lockedBy = true) {calls : List TwinCall}
    (hadm : Along (TwinStores.step st) (Admissible st) (.new mst) calls) :
    Along (TwinStores.step st) (SameAnswers st) (.new mst) calls ∧
      ∀ s, run (TwinStores.step st) (.new mst) calls = some s →
        s.claims.length = s.memory.leases.length := by
  have hst := valid_of_newGroupStore hnew he howner
  constructor
  · exact along_of_along_invariant (TwinStores.step st) (I := TwinInv maxGroups st)
      (fun _ _ _ hinv hstep hp => (hinv.step hst hstep hp).1)
      (fun _ _ _ hinv hstep hp => (hinv.step hst hstep hp).2) (twinInv_new hnew) hadm
  · intro s hr
    have hinv : TwinInv maxGroups st s := run_invariant_of_along (TwinStores.step st)
      (fun _ _ _ hinv hstep hp => (hinv.step hst hstep hp).1) (twinInv_new hnew) hadm hr
    exact hinv.count

def wireMessage (id : String) : Message AnyPayload :=
  ⟨.bytes [], ⟨fun key => if key = headerMessageID then some (.string id) else none⟩⟩

def twoHeaders : Framing where
  encodeHeaders h := .ok (if h.string headerMessageID = some "a" then [97] else [98])
  decodeHeaders b := .ok (if b = [97] then (wireMessage "a").headers else (wireMessage "b").headers)

def twinStore : GroupStore := ⟨.postgres, twoHeaders, 1000000000, "w", 2⟩

/-- A message arrives while its group is claimed, and stays when the claim is settled. -/
def twinCalls : List TwinCall :=
  [.add "k" (wireMessage "a") 0 0, .claimGroup "k" 1, .add "k" (wireMessage "b") 2 2,
    .settleGroup 0 3 3, .claimGroup "k" 4]

theorem onWire_wireMessage :
    OnWire twoHeaders (wireMessage "a") ∧ OnWire twoHeaders (wireMessage "b") :=
  ⟨⟨by decide, ⟨[], rfl⟩, [97], rfl, rfl⟩, ⟨by decide, ⟨[], rfl⟩, [98], rfl, rfl⟩⟩

def leaseTest (st : GroupStore) (now : ℤ) (t : GroupTables) : Bool :=
  t.group.all fun row => row.lockedBy.isNone || row.leaseLive st.leaseTTL now

theorem leaseKept_of_test {t : GroupTables} (h : leaseTest st now t = true) :
    LeaseKept st now t := by
  intro row hrow hsome
  rw [leaseTest, hrow, Option.all_some, ← Option.not_isSome, hsome] at h
  exact h

/-- `Admissible` but for the messages. -/
def admissibleTest (st : GroupStore) (s : TwinStores) (call : TwinCall) : Bool :=
  (call.memory.lease.all fun i => i ∉ s.memory.called) &&
    match call with
    | .add key msg _ dbNow => st.dialect.fits key && st.dialect.fits msg.id &&
        leaseTest st dbNow (s.db key) &&
        ((s.memory.store.groups.lookup key).isSome ||
          decide ((s.memory.store.groups.entries.length : ℤ) < s.memory.store.maxGroups))
    | .claimGroup key dbNow => st.dialect.fits key && leaseTest st dbNow (s.db key)
    | _ => true

theorem admissible_of_test (hwire : ∀ key msg now dbNow, call = .add key msg now dbNow →
    OnWire st.framing msg) (h : admissibleTest st s call = true) : Admissible st s call s' := by
  obtain ⟨honce, hrest⟩ := Bool.and_eq_true_iff.mp h
  refine ⟨fun i hi => ?_, ?_⟩
  · rw [Option.mem_def.mp hi, Option.all_some, decide_eq_true_eq] at honce
    exact honce
  · cases call with
    | add key msg now dbNow =>
        simp only [Bool.and_eq_true, Bool.or_eq_true, decide_eq_true_eq] at hrest
        obtain ⟨⟨⟨hkey, hfits⟩, hlease⟩, hroom⟩ := hrest
        exact ⟨hwire key msg now dbNow rfl, hkey, hfits, leaseKept_of_test hlease, hroom⟩
    | claimGroup key dbNow =>
        obtain ⟨hkey, hlease⟩ := Bool.and_eq_true_iff.mp hrest
        exact ⟨hkey, leaseKept_of_test hlease⟩
    | settleGroup i now dbNow => trivial
    | abandonGroup i => trivial

theorem twinStores_sameAnswers_twinCalls :
    ∃ mst s, Memory.newGroupStore 1 2 = .ok mst ∧
      Along (TwinStores.step twinStore) (Admissible twinStore) (.new mst) twinCalls ∧
      Along (TwinStores.step twinStore) (SameAnswers twinStore) (.new mst) twinCalls ∧
      run (TwinStores.step twinStore) (.new mst) twinCalls = some s ∧ s.claims.length = 2 := by
  obtain ⟨mst, s, hnew, htest, hr, hclaims⟩ : ∃ (mst : Memory.GroupStore AnyPayload)
      (s : TwinStores), Memory.newGroupStore 1 2 = .ok mst ∧
        alongTest (TwinStores.step twinStore) (admissibleTest twinStore) (.new mst) twinCalls = true ∧
        run (TwinStores.step twinStore) (.new mst) twinCalls = some s ∧ s.claims.length = 2 :=
    ⟨_, _, rfl, rfl, rfl, rfl⟩
  have hadm : Along (TwinStores.step twinStore) (Admissible twinStore) (.new mst) twinCalls := by
    refine along_of_alongTest (TwinStores.step twinStore) (fun call hcall s t h => ?_) htest
    refine admissible_of_test (fun key msg now dbNow heq => ?_) h
    subst heq
    simp only [twinCalls, List.mem_cons, TwinCall.add.injEq, reduceCtorEq, List.not_mem_nil,
      or_false, false_or] at hcall
    rcases hcall with ⟨-, rfl, -⟩ | ⟨-, rfl, -⟩
    · exact onWire_wireMessage.1
    · exact onWire_wireMessage.2
  have hcap : Memory.newGroupStore 1 twinStore.maxGroupMembers = .ok mst := hnew
  exact ⟨mst, s, hnew, hadm, (twinStores_sameAnswers hcap (.inl rfl) (by decide) hadm).1, hr, hclaims⟩

/-- A store whose framing brings the headers of one message back. -/
def storeFor (id : String) : GroupStore :=
  ⟨.postgres, ⟨fun _ => .ok [], fun _ => .ok (wireMessage id).headers⟩, 1000000000, "w", 2⟩

theorem onWire_storeFor (hne : id ≠ "") : OnWire (storeFor id).framing (wireMessage id) :=
  ⟨hne, ⟨[], rfl⟩, [], rfl, rfl⟩

theorem addMember_not_fits {groupKey : String} (hne : id ≠ "")
    (hfits : Engine.fits .postgres id = false) (t : GroupTables) :
    addMember .postgres groupKey ⟨id, 0, [], []⟩ 2 1000000000 0 t =
      ((.zero, some errTextRefused), t) := by
  have hinsert : insertMember .postgres ⟨id, 0, [], []⟩ t.members = .error errTextRefused := by
    simp [insertMember, Engine.insertText, hfits]
  simp [addMember, hne, hinsert, validateMaxMembers, unboundedGroupMembers, maxGroupMembersCeiling]

theorem storeFor_refuses (hne : id ≠ "") (hfits : Engine.fits .postgres id = false) :
    ((storeFor id).add "k" (wireMessage id) 0 fun _ => ⟨none, []⟩).1 =
      (none, some errTextRefused) := by
  have hkey : (storeFor id).dialect.fits "k" = true := rfl
  rw [(onWire_storeFor hne).add hkey]
  show (storeFor id).addAnswer (addMember .postgres "k" ⟨id, 0, [], []⟩ 2 1000000000 0
    ⟨none, []⟩).1 = _
  rw [addMember_not_fits hne hfits]
  rfl

theorem fits_longID (last : Char) : Engine.fits .postgres (longID last) = false := by
  rw [Engine.fits, toList_longID, List.length_append, List.length_replicate]
  rfl

theorem add_newGroupStore (msg : Message AnyPayload) :
    ∃ mst : Memory.GroupStore AnyPayload, Memory.newGroupStore 1 2 = .ok mst ∧
      (mst.add "k" msg 0).1.2 = none := by
  refine ⟨_, rfl, ?_⟩
  simp [Memory.GroupStore.add, Memory.GroupStore.addTo, Memory.GroupState.new]

theorem not_sameAnswers_storeFor (hne : id ≠ "") (hfits : Engine.fits .postgres id = false)
    (hmemory : (mst.add "k" (wireMessage id) 0).1.2 = none) (s : TwinStores) :
    ¬SameAnswers (storeFor id) (.new mst) (.add "k" (wireMessage id) 0 0) s := by
  rintro ⟨-, hverdict⟩
  have hsql : ((storeFor id).add "k" (wireMessage id) 0 (TwinStores.new mst).db).1 =
      (none, some errTextRefused) := storeFor_refuses hne hfits
  rw [hsql] at hverdict
  change verdict (mst.add "k" (wireMessage id) 0).1.2 = _ at hverdict
  rw [hmemory] at hverdict
  cases hverdict

/-- A message whose id has 256 characters is stored in memory, and PostgreSQL refuses it. -/
theorem longID_refused :
    OnWire (storeFor (longID 'a')).framing (wireMessage (longID 'a')) ∧
    ∃ mst : Memory.GroupStore AnyPayload, Memory.newGroupStore 1 2 = .ok mst ∧
      (mst.add "k" (wireMessage (longID 'a')) 0).1.2 = none ∧
      ((storeFor (longID 'a')).add "k" (wireMessage (longID 'a')) 0 fun _ => ⟨none, []⟩).1 =
        (none, some errTextRefused) ∧
      ¬SameAnswers (storeFor (longID 'a')) (.new mst) (.add "k" (wireMessage (longID 'a')) 0 0)
        (.new mst) := by
  have hne := longID_ne_empty 'a'
  have hsql := storeFor_refuses hne (fits_longID 'a')
  obtain ⟨mst, hnew, hmemory⟩ := add_newGroupStore (wireMessage (longID 'a'))
  exact ⟨onWire_storeFor hne, mst, hnew, hmemory, hsql,
    not_sameAnswers_storeFor hne (fits_longID 'a') hmemory _⟩

end Msgin.Sql
