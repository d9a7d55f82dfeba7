import Msgin.LockDialect

/-!
# The rows of a queue table under both strategies

Leases and open transactions never share a row: a claim of either kind passes over the rows that a
transaction has locked, and `ClaimLock` passes over the rows that bear a lease. So a row that nobody
holds stays as it is until a claim returns it.
-/

namespace Msgin.Sql

open TableRows TransitionRuns

variable {μ : Type*} {e : Engine}

/-- The ids are a key, and a row without `locked_at` has no holder. -/
structure TableInv (t : LeaseTable μ) : Prop where
  ids : (t.rows.map LeaseRow.id).Nodup
  lastID : ∀ r ∈ t.rows, r.id ≤ t.lastID
  paired : ∀ r ∈ t.rows, r.lockedAt = none → r.lockedBy = none

namespace TableInv

variable {t : LeaseTable μ}

theorem eq_of_id (h : TableInv t) {r q : LeaseRow μ} (hr : r ∈ t.rows) (hq : q ∈ t.rows)
    (hid : r.id = q.id) : r = q :=
  List.inj_on_of_nodup_map h.ids hr hq hid

theorem insert (h : TableInv t) (gap : ℕ) (msg : μ) (delay now : ℤ) :
    TableInv (Sql.insert e gap msg delay now t) where
  ids := by
    simp only [Sql.insert, List.map_append, List.map_singleton]
    rw [← List.concat_eq_append, List.nodup_concat]
    exact ⟨nextID_notMem h.lastID, h.ids⟩
  lastID := by
    intro r hr
    rcases List.mem_append.mp hr with hr | hr
    · have hle := h.lastID r hr
      simp only [Sql.insert]
      omega
    · obtain rfl := List.mem_singleton.mp hr
      simp only [Sql.insert]
      omega
  paired := by
    intro r hr hat
    rcases List.mem_append.mp hr with hr | hr
    · exact h.paired r hr hat
    · obtain rfl := List.mem_singleton.mp hr
      rfl

theorem update (h : TableInv t) {cond : LeaseRow μ → Bool} {set : LeaseRow μ → LeaseRow μ}
    (hid : ∀ r, (set r).id = r.id)
    (hset : ∀ r, (set r).lockedAt = none → (set r).lockedBy = none) :
    TableInv ⟨updateWhere cond set t.rows, t.lastID⟩ where
  ids := by
    have hsame : (updateWhere cond set t.rows).map LeaseRow.id = t.rows.map LeaseRow.id := by
      rw [updateWhere, List.map_map]
      apply List.map_congr_left
      intro r _
      simp only [Function.comp_apply]
      split
      · exact hid r
      · rfl
    rw [hsame]
    exact h.ids
  lastID := by
    intro r hr
    obtain ⟨q, hq, rfl⟩ := mem_updateWhere.mp hr
    split
    · rw [hid]
      exact h.lastID q hq
    · exact h.lastID q hq
  paired := by
    intro r hr
    obtain ⟨q, hq, rfl⟩ := mem_updateWhere.mp hr
    split
    · exact hset q
    · exact h.paired q hq

theorem delete (h : TableInv t) (cond : LeaseRow μ → Bool) :
    TableInv ⟨deleteWhere cond t.rows, t.lastID⟩ where
  ids := h.ids.sublist (List.filter_sublist.map LeaseRow.id)
  lastID := fun r hr => h.lastID r (mem_deleteWhere.mp hr).1
  paired := fun r hr => h.paired r (mem_deleteWhere.mp hr).1

end TableInv

variable {s s' : QueueState μ} {call : QueueCall μ} {r : LeaseRow μ} {id : ℕ} {lr : LockedRow μ}
  {rows : List (LeaseRow μ)} {now : ℤ}

theorem notMem_locked_of_selectClaimable (he : e.skipsLocked = true) {limit : ℕ} {leaseTTL : ℤ}
    {locked : List ℕ} {tie : ℕ → ℕ}
    (hr : r ∈ selectClaimable e limit leaseTTL now locked tie rows) : r.id ∉ locked := by
  have hsorted := List.mem_of_mem_take hr
  rw [List.mem_insertionSort, List.mem_filter, he, Bool.and_eq_true] at hsorted
  simpa using hsorted.2.2

theorem selectLockable_eq_some {locked : List ℕ} {tie : ℕ → ℕ}
    (hr : selectLockable now locked tie rows = some r) :
    r ∈ rows ∧ r.visibleAfter ≤ now ∧ r.lockedAt = none ∧ r.id ∉ locked := by
  have hsorted := List.mem_of_mem_head? hr
  rw [List.mem_insertionSort, List.mem_filter] at hsorted
  simpa [LeaseRow.lockable, and_assoc] using hsorted

theorem returned_claim (e : Engine) (s : QueueState μ) (limit : ℕ) (lockedBy : String)
    (leaseTTL : ℤ) (tie : ℕ → ℕ) :
    s.returned e (.claim limit lockedBy leaseTTL tie) =
      (selectClaimable e limit leaseTTL s.now s.locked tie s.table.rows).map LeaseRow.id := by
  simp only [QueueState.returned, claim, List.map_map]
  rfl

theorem lockedRow_eq_some (h : s.lockedRow id = some lr) : lr ∈ s.held ∧ lr.id = id :=
  ⟨List.mem_of_find?_eq_some h, by simpa using List.find?_some h⟩

theorem Engine.currentTime_le {start : ℤ} (h : start ≤ now) : e.currentTime start now ≤ now := by
  cases e with
  | postgres => exact h
  | mysql c => exact le_rfl
  | sqlite => exact le_rfl

inductive QueueStep (e : Engine) (s : QueueState μ) : QueueCall μ → QueueState μ → Prop
  | ticks (d : ℕ) : QueueStep e s (.tick d) { s with now := s.now + d }
  | inserts (gap : ℕ) (msg : μ) (delay : ℤ) :
      QueueStep e s (.insert gap msg delay)
        { s with table := Sql.insert e gap msg delay s.now s.table }
  | claims (limit : ℕ) (lockedBy : String) (leaseTTL : ℤ) (tie : ℕ → ℕ) :
      QueueStep e s (.claim limit lockedBy leaseTTL tie)
        { s with table := (claim e limit lockedBy leaseTTL s.now s.locked tie s.table).2 }
  | acks (id : ℕ) (lockedBy : String) (epoch : ℕ) :
      QueueStep e s (.ack id lockedBy epoch)
        { s with table := (ack e id lockedBy epoch s.table).2 }
  | nacks (id : ℕ) (lockedBy : String) (epoch : ℕ) (requeue : Bool) (delay : ℤ) :
      QueueStep e s (.nack id lockedBy epoch requeue delay)
        { s with
          table := (nack e id lockedBy epoch (nackDelay requeue delay) s.now s.table).2 }
  | begins : QueueStep e s .beginLockTx { s with begun := s.now :: s.begun }
  | finds (start : ℤ) (tie : ℕ → ℕ) (lr : LockedRow μ) (begun : start ∈ s.begun)
      (found : claimLock e start s.now s.locked tie s.table = some lr) :
      QueueStep e s (.claimLock start tie)
        { s with begun := s.begun.erase start, held := lr :: s.held }
  | misses (start : ℤ) (tie : ℕ → ℕ) (begun : start ∈ s.begun)
      (none : claimLock e start s.now s.locked tie s.table = none) :
      QueueStep e s (.claimLock start tie) { s with begun := s.begun.erase start }
  | ackLocks (lr : LockedRow μ) (held : lr ∈ s.held) :
      QueueStep e s (.ackLock lr.id) (s.release lr.id (ackLock lr s.table))
  | nackLocks (lr : LockedRow μ) (held : lr ∈ s.held) (requeue : Bool) (delay : ℤ) :
      QueueStep e s (.nackLock lr.id requeue delay)
        (s.release lr.id (nackLock e lr (nackDelay requeue delay) s.now s.table))
  | rollbacks (lr : LockedRow μ) (held : lr ∈ s.held) :
      QueueStep e s (.rollback lr.id) (s.release lr.id s.table)

theorem queueStep_of_step (hstep : s.step e call = some s') : QueueStep e s call s' := by
  cases call with
  | tick d =>
      cases hstep
      exact .ticks d
  | insert gap msg delay =>
      cases hstep
      exact .inserts gap msg delay
  | claim limit lockedBy leaseTTL tie =>
      cases hstep
      exact .claims limit lockedBy leaseTTL tie
  | ack id lockedBy epoch =>
      cases hstep
      exact .acks id lockedBy epoch
  | nack id lockedBy epoch requeue delay =>
      cases hstep
      exact .nacks id lockedBy epoch requeue delay
  | beginLockTx =>
      cases hstep
      exact .begins
  | claimLock start tie =>
      simp only [QueueState.step, Option.ite_none_right_eq_some] at hstep
      obtain ⟨begun, hstep⟩ := hstep
      split at hstep
      · next none =>
          cases hstep
          exact .misses start tie begun none
      · next lr found =>
          cases hstep
          exact .finds start tie lr begun found
  | ackLock id =>
      obtain ⟨lr, hlr, rfl⟩ := Option.map_eq_some_iff.mp hstep
      obtain ⟨held, rfl⟩ := lockedRow_eq_some hlr
      exact .ackLocks lr held
  | nackLock id requeue delay =>
      obtain ⟨lr, hlr, rfl⟩ := Option.map_eq_some_iff.mp hstep
      obtain ⟨held, rfl⟩ := lockedRow_eq_some hlr
      exact .nackLocks lr held requeue delay
  | rollback id =>
      obtain ⟨lr, hlr, rfl⟩ := Option.map_eq_some_iff.mp hstep
      obtain ⟨held, rfl⟩ := lockedRow_eq_some hlr
      exact .rollbacks lr held

theorem mem_release {t : LeaseTable μ} : lr ∈ (s.release id t).held ↔ lr ∈ s.held ∧ lr.id ≠ id := by
  simp [QueueState.release]

/-- The rows of the table, those of the open transactions, and the times they began at. -/
structure QueueInv (s : QueueState μ) : Prop where
  table : TableInv s.table
  begun : ∀ start ∈ s.begun, start ≤ s.now
  started : ∀ lr ∈ s.held, lr.start ≤ s.now
  held : ∀ lr ∈ s.held, ∃ r ∈ s.table.rows, r.id = lr.id ∧ r.lockedBy = none

namespace QueueInv

theorem of_returned (h : QueueInv s) (he : e.skipsLocked = true)
    (hstep : s.step e call = some s') (hid : id ∈ s.returned e call) :
    ∃ r ∈ s.table.rows, r.id = id ∧ r.visibleAfter ≤ s.now ∧ id ∉ s.locked := by
  cases call with
  | claim limit lockedBy leaseTTL tie =>
      rw [returned_claim] at hid
      obtain ⟨r, hr, rfl⟩ := List.mem_map.mp hid
      obtain ⟨hmem, hclaimable⟩ := mem_selectClaimable hr
      rw [LeaseRow.claimable, Bool.and_eq_true, decide_eq_true_eq] at hclaimable
      exact ⟨r, hmem, rfl, hclaimable.1, notMem_locked_of_selectClaimable he hr⟩
  | claimLock start tie =>
      simp only [QueueState.step, Option.ite_none_right_eq_some] at hstep
      have hnow := Engine.currentTime_le (e := e) (h.begun start hstep.1)
      simp only [QueueState.returned, claimLock, Option.map_map, Option.mem_toList,
        Option.map_eq_some_iff] at hid
      obtain ⟨r, hr, rfl⟩ := hid
      obtain ⟨hmem, hvisible, -, hfree⟩ := selectLockable_eq_some hr
      exact ⟨r, hmem, rfl, hvisible.trans hnow, hfree⟩
  | _ => cases hid

end QueueInv

def QueueCall.settles (id : ℕ) : QueueCall μ → Prop
  | .ackLock id' => id' = id
  | .nackLock id' _ _ => id' = id
  | .rollback id' => id' = id
  | _ => False

theorem fenced_of_unlocked {epoch : ℕ} {lockedBy : String} (h : r.lockedBy = none) :
    r.fenced e id lockedBy epoch = false := by
  simp [LeaseRow.fenced, h]

/-- A row without a holder stays as it is, unless the call returns or settles it. -/
theorem kept_of_step (hstep : s.step e call = some s') (hr : r ∈ s.table.rows)
    (hfree : r.lockedBy = none) (hreturned : r.id ∉ s.returned e call)
    (hsettles : ¬call.settles r.id) : r ∈ s'.table.rows := by
  cases queueStep_of_step hstep with
  | inserts gap msg delay => exact List.mem_append_left _ hr
  | claims limit lockedBy leaseTTL tie =>
      refine mem_updateWhere_of_false hr ?_
      rw [returned_claim] at hreturned
      simpa using hreturned
  | acks id lockedBy epoch => exact mem_deleteWhere.mpr ⟨hr, fenced_of_unlocked hfree⟩
  | nacks id lockedBy epoch requeue delay =>
      exact mem_updateWhere_of_false hr (fenced_of_unlocked hfree)
  | ackLocks lr held =>
      exact mem_deleteWhere.mpr ⟨hr, beq_false_of_ne fun hid => hsettles hid.symm⟩
  | nackLocks lr held requeue delay =>
      exact mem_updateWhere_of_false hr (beq_false_of_ne fun hid => hsettles hid.symm)
  | _ => exact hr

/-- A transaction that is open after a call was open before and has not been settled, or it was
opened by the call, on a row that it returns. -/
theorem held_of_step (hstep : s.step e call = some s') (hlr : lr ∈ s'.held) :
    lr ∈ s.held ∧ ¬call.settles lr.id ∨
      lr.id ∈ s.returned e call ∧ lr.start ∈ s.begun ∧
        ∃ r ∈ s'.table.rows, r.id = lr.id ∧ r.lockedAt = none := by
  cases queueStep_of_step hstep with
  | finds start tie lr' begun found =>
      rcases List.mem_cons.mp hlr with rfl | hlr
      · have hreturned : lr.id ∈ s.returned e (.claimLock start tie) := by
          simp [QueueState.returned, found]
        obtain ⟨r, hr, rfl⟩ := Option.map_eq_some_iff.mp found
        obtain ⟨hmem, -, hat, -⟩ := selectLockable_eq_some hr
        exact .inr ⟨hreturned, begun, r, hmem, rfl, hat⟩
      · exact .inl ⟨hlr, id⟩
  | ackLocks lr' held | nackLocks lr' held requeue delay | rollbacks lr' held =>
      obtain ⟨hlr, hne⟩ := mem_release.mp hlr
      exact .inl ⟨hlr, fun hid => hne hid.symm⟩
  | _ => exact .inl ⟨hlr, id⟩

theorem now_le_of_step (hstep : s.step e call = some s') : s.now ≤ s'.now := by
  cases queueStep_of_step hstep with
  | ticks d =>
      simp only
      omega
  | _ => exact le_rfl

theorem begun_of_step (hstep : s.step e call = some s') {start : ℤ} (hstart : start ∈ s'.begun) :
    start ∈ s.begun ∨ start = s.now := by
  cases queueStep_of_step hstep with
  | begins => exact (List.mem_cons.mp hstart).symm
  | finds | misses => exact .inl (List.mem_of_mem_erase hstart)
  | _ => exact .inl hstart

theorem TableInv.step (h : TableInv s.table) (hstep : s.step e call = some s') :
    TableInv s'.table := by
  cases queueStep_of_step hstep with
  | inserts gap msg delay => exact h.insert gap msg delay s.now
  | claims => exact h.update (fun _ => rfl) fun _ hat => (by cases hat)
  | acks => exact h.delete _
  | nacks => exact h.update (fun _ => rfl) fun _ _ => rfl
  | ackLocks => exact h.delete _
  | nackLocks => exact h.update (fun _ => rfl) fun _ _ => rfl
  | _ => exact h

namespace QueueInv

theorem step (h : QueueInv s) (he : e.skipsLocked = true) (hstep : s.step e call = some s') :
    QueueInv s' := by
  have hnow := now_le_of_step hstep
  have htable := h.table.step hstep
  refine ⟨htable, fun start hstart => ?_, fun lr hlr => ?_, fun lr hlr => ?_⟩
  · rcases begun_of_step hstep hstart with hstart | rfl
    · exact (h.begun start hstart).trans hnow
    · exact hnow
  · rcases held_of_step hstep hlr with ⟨hlr, -⟩ | ⟨-, hstart, -⟩
    · exact (h.started lr hlr).trans hnow
    · exact (h.begun _ hstart).trans hnow
  · rcases held_of_step hstep hlr with ⟨hlr, hsettles⟩ | ⟨-, -, r, hr, hid, hat⟩
    · obtain ⟨r, hr, hid, hfree⟩ := h.held lr hlr
      refine ⟨r, kept_of_step hstep hr hfree ?_ (hid ▸ hsettles), hid, hfree⟩
      intro hreturned
      obtain ⟨-, -, -, -, hunlocked⟩ := h.of_returned he hstep hreturned
      rw [hid] at hunlocked
      exact hunlocked (List.mem_map_of_mem hlr)
    · exact ⟨r, hr, hid, htable.paired r hr hat⟩

theorem new (now : ℤ) : QueueInv (QueueState.new now : QueueState μ) where
  table := ⟨List.nodup_nil, fun _ h => (by cases h), fun _ h => (by cases h)⟩
  begun := fun _ h => by cases h
  started := fun _ h => by cases h
  held := fun _ h => by cases h

theorem run (h : QueueInv s) (he : e.skipsLocked = true) {calls : List (QueueCall μ)}
    (hr : TransitionRuns.run (QueueState.step e) s calls = some s') : QueueInv s' :=
  run_invariant (QueueState.step e) (fun _ _ _ h hstep => h.step he hstep) h hr

end QueueInv

end Msgin.Sql
