import Msgin.TwinAnswers

/-!
# `Add` on both group stores

The memory store looks the id up and compares the length of the group with the cap before it
appends. The dialect inserts the row first and rolls back where the count is over the cap. Both take
the same of three ways: the id is known, the group is full, or the message is stored.
-/

namespace Msgin.Sql

open TableRows

variable {st : GroupStore} {t : GroupTables} {g : Memory.GroupState AnyPayload} {key : String}
  {msg : Message AnyPayload} {now : ℤ}

theorem insertMember_known {e : Engine} (he : e.collation = .binary) {f : Framing}
    (hfits : e.fits (rowOf f msg).msgID = true) (hknown : ∃ m ∈ g.msgs, m.msg.id = msg.id) :
    insertMember e (rowOf f msg) (memberRows f g) = .ok (false, memberRows f g) := by
  have hany := (any_memberRows (f := f) msg.id).mpr hknown
  simp only [insertMember, Engine.insertText_of_fits hfits, he]
  exact if_pos hany

theorem insertMember_fresh {e : Engine} (he : e.collation = .binary) {f : Framing}
    (hfits : e.fits (rowOf f msg).msgID = true) (hfresh : ¬ ∃ m ∈ g.msgs, m.msg.id = msg.id) :
    insertMember e (rowOf f msg) (memberRows f g) =
      .ok (true, memberRows f g ++ [⟨rowOf f msg, none⟩]) := by
  have hany := mt (any_memberRows (f := f) msg.id).mp hfresh
  simp only [insertMember, Engine.insertText_of_fits hfits, he]
  exact if_neg hany

theorem live_append (f : Framing) (hclaimed : g.claimedLen ≤ g.msgs.length)
    (m : Memory.Member AnyPayload) :
    (selectMembers Option.isNone (memberRows f g ++ [⟨rowOf f m.msg, none⟩])).Perm
      (((g.msgs.drop g.claimedLen).map Memory.Member.msg ++ [m.msg]).map (rowOf f)) := by
  have hlive := live_memberRows f (g.append m)
  rw [memberRows_append hclaimed] at hlive
  have hdrop : (g.append m).msgs.drop (g.append m).claimedLen =
      g.msgs.drop g.claimedLen ++ [m] := by
    show (g.msgs ++ [m]).drop g.claimedLen = _
    rw [List.drop_append_of_le_length hclaimed]
  rwa [hdrop, List.map_append] at hlive

theorem withoutMember_perm (f : Framing) (hclaimed : g.claimedLen ≤ g.msgs.length)
    (hfresh : ¬ ∃ m ∈ g.msgs, m.msg.id = msg.id) :
    (withoutMember (selectMembers Option.isNone (memberRows f g ++ [⟨rowOf f msg, none⟩]))
      (rowOf f msg).msgID).Perm
      (((g.msgs.drop g.claimedLen).map Memory.Member.msg).map (rowOf f)) := by
  have hperm := (live_append f hclaimed ⟨0, msg⟩).filter fun m => m.msgID ≠ (rowOf f msg).msgID
  have hkept : ((g.msgs.drop g.claimedLen).map Memory.Member.msg).map (rowOf f) =
      (((g.msgs.drop g.claimedLen).map Memory.Member.msg ++ [msg]).map (rowOf f)).filter
        fun m => m.msgID ≠ (rowOf f msg).msgID := by
    rw [List.map_append, List.filter_append, List.filter_eq_self.mpr, List.map_singleton,
      List.filter_singleton]
    · simp
    · intro row hrow
      obtain ⟨msg', hmsg', rfl⟩ := List.mem_map.mp hrow
      obtain ⟨m, hm, rfl⟩ := List.mem_map.mp hmsg'
      have hne : m.msg.id ≠ msg.id := fun heq => hfresh ⟨m, List.mem_of_mem_drop hm, heq⟩
      exact decide_eq_true hne
  rw [hkept]
  exact hperm

/-- The group of a key, or the one that `Add` makes, and its rows. -/
structure TwinGroup (st : GroupStore) (now : ℤ) (g : Memory.GroupState AnyPayload)
    (t : GroupTables) : Prop where
  row : TwinRow st g (t.group.getD ⟨now, 0, none, none⟩)
  members : t.members = memberRows st.framing g
  shape : Memory.GroupShape st.maxGroupMembers g
  live : (t.group.getD ⟨now, 0, none, none⟩).leaseLive st.leaseTTL now = g.leased

structure GroupStore.Valid (st : GroupStore) : Prop where
  exact : st.dialect.collation = .binary
  owner : st.dialect.fits st.lockedBy = true
  cap : 1 ≤ st.maxGroupMembers ∧ st.maxGroupMembers ≤ maxGroupMembersCeiling

theorem GroupStore.Valid.bounded (hst : st.Valid) : st.maxGroupMembers ≠ unboundedGroupMembers := by
  have hcap := hst.cap.1
  unfold unboundedGroupMembers
  omega

theorem GroupStore.Valid.validateMaxMembers (hst : st.Valid) (site : String) :
    Sql.validateMaxMembers site st.maxGroupMembers = none := by
  rw [Sql.validateMaxMembers, if_neg hst.bounded, if_pos hst.cap]

theorem TwinGroup.wire (h : TwinGroup st now g t) :
    ∀ m ∈ (g.msgs.drop g.claimedLen).map Memory.Member.msg, OnWire st.framing m := by
  intro m hm
  obtain ⟨m', hm', rfl⟩ := List.mem_map.mp hm
  exact h.row.wire m' (List.mem_of_mem_drop hm')

theorem TwinGroup.addMember (h : TwinGroup st now g t) (key : String) (hst : st.Valid)
    (hwire : OnWire st.framing msg) {inserted : Bool} {members : List StoredMember}
    (hinsert : insertMember st.dialect (rowOf st.framing msg) (memberRows st.framing g) =
      .ok (inserted, members)) :
    Sql.addMember st.dialect key (rowOf st.framing msg) st.maxGroupMembers st.leaseTTL now t =
      if inserted = true ∧ st.maxGroupMembers < members.length then
        ((⟨key, (t.group.getD ⟨now, 0, none, none⟩).createdAt,
            withoutMember (selectMembers Option.isNone members) msg.id⟩,
          some (groupOverflow st.dialect key members.length st.maxGroupMembers g.leased)), t)
      else
        ((⟨key, (t.group.getD ⟨now, 0, none, none⟩).createdAt,
            selectMembers Option.isNone members⟩, none),
          ⟨some (t.group.getD ⟨now, 0, none, none⟩), members⟩) := by
  have hnamed : (rowOf st.framing msg).msgID ≠ "" := hwire.named
  simp only [Sql.addMember, if_neg hnamed, hst.validateMaxMembers, h.members, hinsert, h.live, ne_eq,
    hst.bounded, not_false_eq_true, true_and]
  rfl

theorem verdict_overflow (key : String) (g : Memory.GroupState AnyPayload) (e : Engine)
    (mst : Memory.GroupStore AnyPayload) (n : ℕ) (cap : ℤ) :
    verdict (some (mst.memberRejected key g)) = verdict (some (groupOverflow e key n cap g.leased)) ∧
      (groupOverflow e key n cap g.leased).is .errOverflowDropped = true := by
  simp only [Memory.GroupStore.memberRejected, groupOverflow]
  rcases g.leased with _ | _
  · exact ⟨rfl, rfl⟩
  · exact ⟨rfl, rfl⟩

theorem addAnswer_perm (rows : GroupRows) (err : Option Err) {msgs : List (Message AnyPayload)}
    (hwire : ∀ msg ∈ msgs, OnWire st.framing msg)
    (hrows : rows.members.Perm (msgs.map (rowOf st.framing)))
    (herr : ∀ x ∈ err, x.is .errOverflowDropped = true) :
    ∃ snap, st.addAnswer (rows, err) = (some snap, err) ∧
      messageIDs snap.msgs = messageIDs msgs := by
  obtain ⟨msgs', hdecode, hperm⟩ := decodeGroupRows_perm rows hwire hrows
  refine ⟨⟨rows.groupKey, msgs', rows.createdAt⟩, ?_, messageIDs_perm hperm⟩
  rcases err with _ | x
  · simp only [GroupStore.addAnswer, hdecode]
  · simp only [GroupStore.addAnswer, hdecode, herr x rfl, and_self, if_true]

theorem TwinGroup.seen_iff (h : TwinGroup st now g t) (hwire : OnWire st.framing msg) :
    msg.id ≠ "" ∧ msg.id ∈ g.ids ↔ ∃ m ∈ g.msgs, m.msg.id = msg.id := by
  rw [h.shape.ids, and_iff_right hwire.named, and_iff_right hwire.named]

/-- The result of `AddMember` for a message. -/
def addRow (st : GroupStore) (key : String) (msg : Message AnyPayload) (now : ℤ) (t : GroupTables) :
    (GroupRows × Option Err) × GroupTables :=
  Sql.addMember st.dialect key (rowOf st.framing msg) st.maxGroupMembers st.leaseTTL now t

theorem TwinGroup.add_known (h : TwinGroup st now g t) (key : String)
    (mst : Memory.GroupStore AnyPayload) (hst : st.Valid)
    (hwire : OnWire st.framing msg) (hfits : st.dialect.fits msg.id = true) (hknown : ∃ m ∈ g.msgs, m.msg.id = msg.id) :
    SameAdd (mst.addTo key g msg).1 (st.addAnswer (addRow st key msg now t).1) ∧
      (mst.addTo key g msg).2 = mst ∧
      (addRow st key msg now t).2 =
        ⟨some (t.group.getD ⟨now, 0, none, none⟩), memberRows st.framing g⟩ := by
  have hmem : mst.addTo key g msg = ((some (g.live key), none), mst) := by
    rw [Memory.GroupStore.addTo, if_pos ((h.seen_iff hwire).mpr hknown)]
  have hsql := h.addMember key hst hwire (insertMember_known hst.exact hfits hknown)
  rw [if_neg fun hfull => Bool.false_ne_true hfull.1] at hsql
  obtain ⟨snap, hanswer, hids⟩ := addAnswer_perm ⟨key,
      (t.group.getD ⟨now, 0, none, none⟩).createdAt,
      selectMembers Option.isNone (memberRows st.framing g)⟩ none h.wire
    (live_memberRows st.framing g) (fun x hx => by cases hx)
  rw [addRow, hmem, hsql, hanswer]
  refine ⟨⟨?_, rfl⟩, rfl, rfl⟩
  simp only [Option.map_some, hids]
  rfl

theorem TwinGroup.add_full (h : TwinGroup st now g t) (key : String)
    (mst : Memory.GroupStore AnyPayload) (hst : st.Valid)
    (hwire : OnWire st.framing msg) (hfits : st.dialect.fits msg.id = true)
    (hcap : mst.maxGroupMembers = st.maxGroupMembers)
    (hfresh : ¬ ∃ m ∈ g.msgs, m.msg.id = msg.id) (hfull : st.maxGroupMembers ≤ g.msgs.length) :
    SameAdd (mst.addTo key g msg).1 (st.addAnswer (addRow st key msg now t).1) ∧
      (mst.addTo key g msg).2 = mst ∧ (addRow st key msg now t).2 = t := by
  have hmem : mst.addTo key g msg =
      ((some (g.live key), some (mst.memberRejected key g)), mst) := by
    rw [Memory.GroupStore.addTo, if_neg (mt (h.seen_iff hwire).mp hfresh), hcap, if_pos hfull]
  have hlength : (memberRows st.framing g ++ [(⟨rowOf st.framing msg, none⟩ : StoredMember)]).length =
      g.msgs.length + 1 := by
    rw [List.length_append, length_memberRows]
    rfl
  have hsql := h.addMember key hst hwire (insertMember_fresh hst.exact hfits hfresh)
  rw [hlength, if_pos ⟨rfl, by omega⟩] at hsql
  obtain ⟨hverdict, hoverflow⟩ := verdict_overflow key g st.dialect mst (g.msgs.length + 1)
    st.maxGroupMembers
  obtain ⟨snap, hanswer, hids⟩ := addAnswer_perm ⟨key,
      (t.group.getD ⟨now, 0, none, none⟩).createdAt,
      withoutMember (selectMembers Option.isNone
        (memberRows st.framing g ++ [⟨rowOf st.framing msg, none⟩])) msg.id⟩
    (some (groupOverflow st.dialect key (g.msgs.length + 1) st.maxGroupMembers g.leased))
    h.wire (withoutMember_perm st.framing h.shape.claimed hfresh)
    (fun x hx => by obtain rfl := Option.some.inj hx; exact hoverflow)
  rw [addRow, hmem, hsql, hanswer]
  refine ⟨⟨?_, hverdict⟩, rfl, rfl⟩
  simp only [Option.map_some, hids]
  rfl

theorem TwinGroup.add_fresh (h : TwinGroup st now g t) (key : String)
    (mst : Memory.GroupStore AnyPayload) (hst : st.Valid)
    (hwire : OnWire st.framing msg) (hfits : st.dialect.fits msg.id = true)
    (hcap : mst.maxGroupMembers = st.maxGroupMembers)
    (hfresh : ¬ ∃ m ∈ g.msgs, m.msg.id = msg.id) (hroom : g.msgs.length < st.maxGroupMembers) :
    SameAdd (mst.addTo key g msg).1 (st.addAnswer (addRow st key msg now t).1) ∧
      (mst.addTo key g msg).2.groups =
        mst.groups.insert key (g.append ⟨mst.appended, msg⟩) ∧
      Twin st (some (g.append ⟨mst.appended, msg⟩)) (addRow st key msg now t).2 := by
  have hmem : mst.addTo key g msg =
      ((some ((g.append ⟨mst.appended, msg⟩).live key), none),
        { mst with
          groups := mst.groups.insert key (g.append ⟨mst.appended, msg⟩)
          appended := mst.appended + 1 }) := by
    rw [Memory.GroupStore.addTo, if_neg (mt (h.seen_iff hwire).mp hfresh), hcap,
      if_neg (Int.not_le.mpr hroom)]
  have hrows := memberRows_append (f := st.framing) h.shape.claimed ⟨mst.appended, msg⟩
  have hsql := h.addMember key hst hwire (insertMember_fresh hst.exact hfits hfresh)
  rw [← hrows, length_memberRows] at hsql
  have hlength : (g.append ⟨mst.appended, msg⟩).msgs.length = g.msgs.length + 1 :=
    List.length_append
  rw [hlength, if_neg fun hfull => by have hlt := hfull.2; push_cast at hlt; omega] at hsql
  have hall : ∀ m ∈ (g.append ⟨mst.appended, msg⟩).msgs, OnWire st.framing m.msg := by
    intro m hm
    rcases List.mem_append.mp hm with hold | hnew
    · exact h.row.wire m hold
    · rw [List.mem_singleton.mp hnew]
      exact hwire
  have hlive : ∀ m ∈ ((g.append ⟨mst.appended, msg⟩).msgs.drop
      (g.append ⟨mst.appended, msg⟩).claimedLen).map Memory.Member.msg, OnWire st.framing m := by
    intro m hm
    obtain ⟨m', hm', rfl⟩ := List.mem_map.mp hm
    exact hall m' (List.mem_of_mem_drop hm')
  obtain ⟨snap, hanswer, hids⟩ := addAnswer_perm ⟨key,
      (t.group.getD ⟨now, 0, none, none⟩).createdAt,
      selectMembers Option.isNone (memberRows st.framing (g.append ⟨mst.appended, msg⟩))⟩
    none hlive (live_memberRows st.framing _) (fun x hx => by cases hx)
  rw [addRow, hmem, hsql, hanswer]
  refine ⟨⟨?_, rfl⟩, rfl, .present _ _ ⟨h.row.epoch, h.row.lease, hall⟩⟩
  simp only [Option.map_some, hids]
  rfl

section Database

variable {mst : Memory.GroupStore AnyPayload} {db : GroupDatabase}

theorem TwinRow.twinGroup {row : GroupRow} (related : TwinRow st g row)
    (hshape : Memory.GroupShape st.maxGroupMembers g)
    (hkept : row.lockedBy.isSome → row.leaseLive st.leaseTTL now = true) :
    TwinGroup st now g ⟨some row, memberRows st.framing g⟩ :=
  ⟨related, rfl, hshape, related.leaseLive hkept⟩

theorem twinGroup_new (hst : st.Valid) (now now' : ℤ) : TwinGroup st now' (.new now) ⟨none, []⟩ :=
  ⟨⟨rfl, rfl, fun m hm => by cases hm⟩, rfl, Memory.groupShape_new now hst.cap.1, rfl⟩

theorem Twin.add_present (h : ∀ k, Twin st (mst.groups.lookup k) (db k)) (hst : st.Valid)
    (hcap : mst.maxGroupMembers = st.maxGroupMembers) (hwire : OnWire st.framing msg)
    (hfits : st.dialect.fits msg.id = true) {dbNow : ℤ} (hg : mst.groups.lookup key = some g)
    (hgroup : TwinGroup st dbNow g (db key)) :
    SameAdd (mst.addTo key g msg).1 (st.addAnswer (addRow st key msg dbNow (db key)).1) ∧
      ∀ k, Twin st ((mst.addTo key g msg).2.groups.lookup k)
        (Function.update db key (addRow st key msg dbNow (db key)).2 k) := by
  have hkey := h key
  by_cases hknown : ∃ m ∈ g.msgs, m.msg.id = msg.id
  · obtain ⟨hsame, hmem, hsql⟩ := hgroup.add_known key mst hst hwire hfits hknown
    refine ⟨hsame, ?_⟩
    rw [hmem, hsql]
    refine Twin.update _ (fun k _ => h k) ?_
    rw [hg]
    exact .present g _ hgroup.row
  · rcases Int.lt_or_le g.msgs.length st.maxGroupMembers with hroom | hfull
    · obtain ⟨hsame, hmem, htwin⟩ := hgroup.add_fresh key mst hst hwire hfits hcap hknown hroom
      refine ⟨hsame, ?_⟩
      rw [hmem]
      refine Twin.update _ (fun k hk => ?_) ?_
      · rw [AList.lookup_insert_ne hk]
        exact h k
      · rw [AList.lookup_insert]
        exact htwin
    · obtain ⟨hsame, hmem, hsql⟩ := hgroup.add_full key mst hst hwire hfits hcap hknown hfull
      refine ⟨hsame, ?_⟩
      rw [hmem, hsql, Function.update_eq_self]
      exact h

theorem Twin.add (h : ∀ k, Twin st (mst.groups.lookup k) (db k)) (hst : st.Valid) {maxGroups : ℤ}
    (hshape : Memory.StoreShape maxGroups st.maxGroupMembers mst) (hwire : OnWire st.framing msg)
    (hkey : st.dialect.fits key = true) (hfits : st.dialect.fits msg.id = true) (now : ℤ)
    {dbNow : ℤ} (hkept : LeaseKept st dbNow (db key))
    (hroom : (mst.groups.lookup key).isSome ∨ (mst.groups.entries.length : ℤ) < mst.maxGroups) :
    SameAdd (mst.add key msg now).1 (st.add key msg dbNow db).1 ∧
      ∀ k, Twin st ((mst.add key msg now).2.groups.lookup k) ((st.add key msg dbNow db).2 k) := by
  have hcap := hshape.caps.2
  rw [hwire.add hkey]
  rcases hg : mst.groups.lookup key with _ | g
  · have hkey := h key
    rw [hg] at hkey hroom
    have hlt : (mst.groups.entries.length : ℤ) < mst.maxGroups :=
      hroom.resolve_left Bool.false_ne_true
    have hmem : mst.add key msg now =
        { mst with groups := mst.groups.insert key (.new now) }.addTo key (.new now) msg := by
      simp only [Memory.GroupStore.add, hg, if_neg (Int.not_le.mpr hlt)]
    generalize ht : db key = t at hkey
    cases hkey with
    | absent =>
        have hfresh : ¬ ∃ m ∈ (Memory.GroupState.new now : Memory.GroupState AnyPayload).msgs,
            m.msg.id = msg.id := by
          rintro ⟨m, hm, -⟩
          cases hm
        have hone : ((Memory.GroupState.new now : Memory.GroupState AnyPayload).msgs.length : ℤ) <
            st.maxGroupMembers := Int.lt_of_lt_of_le Int.zero_lt_one hst.cap.1
        obtain ⟨hsame, hgroups, htwin⟩ := (twinGroup_new hst now dbNow).add_fresh key
          { mst with groups := mst.groups.insert key (.new now) } hst hwire hfits hcap hfresh hone
        rw [hmem]
        refine ⟨hsame, ?_⟩
        rw [hgroups, AList.insert_insert]
        refine Twin.update _ (fun k hk => ?_) ?_
        · rw [AList.lookup_insert_ne hk]
          exact h k
        · rw [AList.lookup_insert]
          exact htwin
  · have hmem : mst.add key msg now = mst.addTo key g msg := by
      rw [Memory.GroupStore.add, hg]
    have hkey := h key
    rw [hg] at hkey
    rw [hmem]
    refine Twin.add_present h hst hcap hwire hfits hg ?_
    generalize db key = t at hkey hkept
    cases hkey with
    | present g row related =>
        exact related.twinGroup (hshape.groups key g hg).2 (hkept row rfl)

end Database

end Msgin.Sql
