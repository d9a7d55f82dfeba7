import Msgin.GroupStoreShape
import Msgin.GroupLives
import Msgin.SqlGroupStore

/-!
# One group in memory and in the tables

The group of a key is a list in the memory store, of which a claim has frozen a leading part, and in
the tables a row and tagged member rows. `Twin` relates the two: the frozen members bear the epoch
of the group and the others none. Each operation, made on both sides, keeps the relation and gives
the same answer.
-/

namespace Msgin.Sql

open TableRows

variable {f : Framing}

/-- A message that has an id, a payload of bytes and headers that survive the framing. -/
structure OnWire (f : Framing) (msg : Message AnyPayload) : Prop where
  named : msg.id ≠ ""
  payload : ∃ b, msg.payload = .bytes b
  headers : ∃ b, f.encodeHeaders msg.headers = .ok b ∧ f.decodeHeaders b = .ok msg.headers

def rowOf (f : Framing) (msg : Message AnyPayload) : MemberRow where
  msgID := msg.id
  seq := (msg.headers.int headerSequenceNumber).getD 0
  headers := (f.encodeHeaders msg.headers).toOption.getD []
  payload :=
    match msg.payload with
    | .bytes b => b
    | .other _ => []

variable {msgs : List (Message AnyPayload)} {msg : Message AnyPayload} {rows : List MemberRow}

theorem OnWire.add {st : GroupStore} (h : OnWire st.framing msg) {key : String}
    (hkey : st.dialect.fits key = true) (now : ℤ) (db : GroupDatabase) :
    st.add key msg now db =
      (st.addAnswer (addMember st.dialect key (rowOf st.framing msg) st.maxGroupMembers st.leaseTTL
          now (db key)).1,
        Function.update db key (addMember st.dialect key (rowOf st.framing msg) st.maxGroupMembers
          st.leaseTTL now (db key)).2) := by
  obtain ⟨b, hb⟩ := h.payload
  obtain ⟨hs, hencode, -⟩ := h.headers
  have hrow : rowOf st.framing msg =
      ⟨msg.id, (msg.headers.int headerSequenceNumber).getD 0, hs, b⟩ := by
    simp only [rowOf, hencode, hb, Except.toOption, Option.getD_some]
  simp only [GroupStore.add, if_neg h.named, hencode, hb, hrow, if_pos hkey]

def Decodes (f : Framing) (row : MemberRow) (msg : Message AnyPayload) : Prop :=
  f.decodeHeaders row.headers = .ok msg.headers ∧ msg.payload = .bytes row.payload

theorem OnWire.decodes (h : OnWire f msg) : Decodes f (rowOf f msg) msg := by
  obtain ⟨b, hb⟩ := h.payload
  obtain ⟨hs, hencode, hdecode⟩ := h.headers
  constructor
  · simp only [rowOf, hencode, Except.toOption, Option.getD_some]
    exact hdecode
  · simp only [rowOf, hb]

theorem decodeMembers_of_forall₂ (h : List.Forall₂ (Decodes f) rows msgs) :
    GroupStore.decodeMembers f rows = .ok msgs := by
  induction h with
  | nil => rfl
  | @cons row msg rows msgs hmsg _ ih =>
      obtain ⟨payload, headers⟩ := msg
      obtain ⟨hheaders, rfl⟩ := hmsg
      rw [GroupStore.decodeMembers, hheaders, ih]
      rfl

theorem decodeMembers_perm (hwire : ∀ msg ∈ msgs, OnWire f msg)
    (hrows : rows.Perm (msgs.map (rowOf f))) :
    ∃ msgs', GroupStore.decodeMembers f rows = .ok msgs' ∧ msgs'.Perm msgs := by
  have hdecodes : List.Forall₂ (Decodes f) (msgs.map (rowOf f)) msgs := by
    rw [List.forall₂_map_left_iff, List.forall₂_same]
    exact fun msg hmsg => (hwire msg hmsg).decodes
  obtain ⟨msgs', hrows', hperm⟩ := List.perm_comp_forall₂ hrows hdecodes
  exact ⟨msgs', decodeMembers_of_forall₂ hrows', hperm⟩

def tagged (f : Framing) (tag : Option ℕ) (m : Memory.Member AnyPayload) : StoredMember :=
  ⟨rowOf f m.msg, tag⟩

/-- The rows of a group: those of its frozen members bear its epoch. -/
def memberRows (f : Framing) (g : Memory.GroupState AnyPayload) : List StoredMember :=
  (g.msgs.take g.claimedLen).map (tagged f (some g.epoch)) ++
    (g.msgs.drop g.claimedLen).map (tagged f none)

structure TwinRow (st : GroupStore) (g : Memory.GroupState AnyPayload) (row : GroupRow) : Prop where
  epoch : row.epoch = g.epoch
  lease : row.lockedBy = if g.leased then some st.lockedBy else none
  wire : ∀ m ∈ g.msgs, OnWire st.framing m.msg

inductive Twin (st : GroupStore) : Option (Memory.GroupState AnyPayload) → GroupTables → Prop
  | absent : Twin st none ⟨none, []⟩
  | present (g : Memory.GroupState AnyPayload) (row : GroupRow) (related : TwinRow st g row) :
      Twin st (some g) ⟨some row, memberRows st.framing g⟩

section Rows

variable {g : Memory.GroupState AnyPayload}

theorem map_row_tagged (tag : Option ℕ) (ms : List (Memory.Member AnyPayload)) :
    (ms.map (tagged f tag)).map StoredMember.row = (ms.map Memory.Member.msg).map (rowOf f) := by
  rw [List.map_map, List.map_map]
  rfl

theorem length_memberRows (f : Framing) (g : Memory.GroupState AnyPayload) :
    (memberRows f g).length = g.msgs.length := by
  rw [memberRows, List.length_append, List.length_map, List.length_map, ← List.length_append,
    List.take_append_drop]

theorem filter_tagged (cond : Option ℕ → Bool) (tag : Option ℕ)
    (ms : List (Memory.Member AnyPayload)) :
    (ms.map (tagged f tag)).filter (fun m => cond m.claimedEpoch) =
      if cond tag then ms.map (tagged f tag) else [] := by
  split
  · next h =>
      rw [List.filter_eq_self]
      intro q hq
      obtain ⟨m, -, rfl⟩ := List.mem_map.mp hq
      exact h
  · next h =>
      rw [List.filter_eq_nil_iff]
      intro q hq
      obtain ⟨m, -, rfl⟩ := List.mem_map.mp hq
      exact h

theorem updateWhere_tagged (cond : Option ℕ → Bool) (tag tag' : Option ℕ)
    (ms : List (Memory.Member AnyPayload)) :
    updateWhere (fun m => cond m.claimedEpoch) (fun m => { m with claimedEpoch := tag' })
        (ms.map (tagged f tag)) = ms.map (tagged f (if cond tag then tag' else tag)) := by
  rw [updateWhere, List.map_map]
  apply List.map_congr_left
  intro m _
  show (if cond tag then (⟨rowOf f m.msg, tag'⟩ : StoredMember) else tagged f tag m) = _
  split
  · rfl
  · rfl

theorem live_memberRows (f : Framing) (g : Memory.GroupState AnyPayload) :
    (selectMembers Option.isNone (memberRows f g)).Perm
      (((g.msgs.drop g.claimedLen).map Memory.Member.msg).map (rowOf f)) := by
  have hfilter : (memberRows f g).filter (fun m => m.claimedEpoch.isNone) =
      (g.msgs.drop g.claimedLen).map (tagged f none) := by
    rw [memberRows, List.filter_append, filter_tagged, filter_tagged]
    rfl
  rw [selectMembers, hfilter, map_row_tagged]
  exact List.perm_insertionSort _ _

theorem any_memberRows (id : String) :
    ((memberRows f g).any fun s => Collation.binary.eq s.row.msgID id) = true ↔
      ∃ m ∈ g.msgs, m.msg.id = id := by
  have hrows : (memberRows f g).map (fun s => s.row.msgID) = g.msgs.map fun m => m.msg.id := by
    rw [memberRows, List.map_append, List.map_map, List.map_map]
    show (g.msgs.take g.claimedLen).map (fun m => m.msg.id) ++
      (g.msgs.drop g.claimedLen).map (fun m => m.msg.id) = _
    rw [← List.map_append, List.take_append_drop]
  have hany : ((memberRows f g).any fun s => Collation.binary.eq s.row.msgID id) = true ↔
      id ∈ (memberRows f g).map fun s => s.row.msgID := by
    simp [Collation.binary]
  rw [hany, hrows, List.mem_map]

theorem memberRows_append (hclaimed : g.claimedLen ≤ g.msgs.length)
    (m : Memory.Member AnyPayload) :
    memberRows f (g.append m) = memberRows f g ++ [⟨rowOf f m.msg, none⟩] := by
  simp only [memberRows, Memory.GroupState.append]
  rw [List.take_append_of_le_length hclaimed, List.drop_append_of_le_length hclaimed,
    List.map_append, List.append_assoc]
  rfl

theorem memberRows_of_unclaimed (h : g.claimedLen = 0) :
    memberRows f g = g.msgs.map (tagged f none) := by
  rw [memberRows, h, List.take_zero, List.drop_zero, List.map_nil, List.nil_append]

theorem memberRows_lease (f : Framing) (g : Memory.GroupState AnyPayload) :
    memberRows f g.lease = g.msgs.map (tagged f (some (g.epoch + 1))) := by
  rw [memberRows]
  show (g.msgs.take g.msgs.length).map (tagged f (some (g.epoch + 1))) ++
    (g.msgs.drop g.msgs.length).map (tagged f none) = _
  rw [List.take_length, List.drop_length, List.map_nil, List.append_nil]

theorem updateWhere_memberRows (f : Framing) (g : Memory.GroupState AnyPayload) :
    updateWhere (StoredMember.claimedBefore (g.epoch + 1))
        (fun m => { m with claimedEpoch := some (g.epoch + 1) }) (memberRows f g) =
      memberRows f g.lease := by
  have hupdate := updateWhere_tagged (f := f) (fun tag => tag.all fun c => c < g.epoch + 1)
  rw [memberRows_lease, memberRows, updateWhere, List.map_append]
  have hclaimed := hupdate (some g.epoch) (some (g.epoch + 1)) (g.msgs.take g.claimedLen)
  have hlive := hupdate none (some (g.epoch + 1)) (g.msgs.drop g.claimedLen)
  simp only [Option.all_some, Nat.lt_succ_self, decide_true, if_true, Option.all_none]
    at hclaimed hlive
  show updateWhere _ _ _ ++ updateWhere _ _ _ = _
  refine (congrArg₂ _ hclaimed hlive).trans ?_
  rw [← List.map_append, List.take_append_drop]

theorem deleteWhere_memberRows (f : Framing) (g : Memory.GroupState AnyPayload) :
    deleteWhere (StoredMember.claimedIn g.epoch) (memberRows f g) =
      (g.msgs.drop g.claimedLen).map (tagged f none) := by
  have hfilter := filter_tagged (f := f) (fun tag => !(tag == some g.epoch))
  have hclaimed := hfilter (some g.epoch) (g.msgs.take g.claimedLen)
  have hlive := hfilter none (g.msgs.drop g.claimedLen)
  rw [memberRows, deleteWhere, List.filter_append]
  refine (congrArg₂ _ hclaimed hlive).trans ?_
  simp

theorem untag_memberRows (f : Framing) (g : Memory.GroupState AnyPayload) :
    updateWhere (StoredMember.claimedIn g.epoch) (fun m => { m with claimedEpoch := none })
        (memberRows f g) = g.msgs.map (tagged f none) := by
  have hupdate := updateWhere_tagged (f := f) (fun tag => tag == some g.epoch)
  have hclaimed := hupdate (some g.epoch) none (g.msgs.take g.claimedLen)
  have hlive := hupdate none none (g.msgs.drop g.claimedLen)
  rw [ite_self] at hlive
  rw [beq_self_eq_true, if_pos rfl] at hclaimed
  rw [memberRows, updateWhere, List.map_append]
  refine (congrArg₂ _ hclaimed hlive).trans ?_
  rw [← List.map_append, List.take_append_drop]

end Rows

section Settle

variable {st : GroupStore} {g : Memory.GroupState AnyPayload} {t : GroupTables}

theorem TwinRow.fenced {row : GroupRow} (h : TwinRow st g row) (hleased : g.leased = true) :
    row.fenced st.dialect st.lockedBy g.epoch = true := by
  rw [← h.epoch]
  exact fenced_self (h.lease.trans (if_pos hleased))

theorem Twin.settleGroup (h : Twin st (some g) t) (hleased : g.leased = true) (now now' : ℤ) :
    Twin st (g.settled now) (Sql.settleGroup st.dialect st.lockedBy g.epoch now' t).2 := by
  cases h with
  | present g row related =>
      simp only [Sql.settleGroup, related.fenced hleased, deleteWhere_memberRows, if_true,
        List.length_map]
      rcases hresidual : g.msgs.drop g.claimedLen with _ | ⟨m, ms⟩
      · have hsettled : g.settled now = none := by
          simp only [Memory.GroupState.settled, hresidual]
        rw [hsettled]
        exact .absent
      · have hsettled : g.settled now = some ⟨m :: ms,
            Memory.GroupState.forget g.ids (g.msgs.take g.claimedLen), now, g.epoch, false, 0⟩ := by
          simp only [Memory.GroupState.settled, hresidual]
        rw [hsettled, List.length_cons, if_pos (Nat.succ_pos _)]
        refine .present _ _ ⟨related.epoch, rfl, fun m' hm' => related.wire m' ?_⟩
        refine List.mem_of_mem_drop (i := g.claimedLen) ?_
        rw [hresidual]
        exact hm'

theorem Twin.abandonGroup (h : Twin st (some g) t) (hleased : g.leased = true) :
    Twin st (some g.abandoned) (Sql.abandonGroup st.dialect st.lockedBy g.epoch t).2 := by
  cases h with
  | present g row related =>
      simp only [Sql.abandonGroup, related.fenced hleased, untag_memberRows, if_true]
      have hrows : g.msgs.map (tagged st.framing none) = memberRows st.framing g.abandoned :=
        (memberRows_of_unclaimed (g := g.abandoned) rfl).symm
      rw [hrows]
      exact .present _ _ ⟨related.epoch, rfl, related.wire⟩

end Settle

end Msgin.Sql
