import Msgin.NackDelay

/-!
# Safety of a queue table under both strategies

Workers of the lease strategy and of the lock strategy share one table. A row that an open
transaction has locked is handed out to nobody else, and a row leaves the table only by the
`AckLock` of the transaction that holds it or by an `Ack` that bears its current lease.
-/

namespace Msgin.Sql

open TableRows TransitionRuns

variable {μ : Type*} {e : Engine} {s s' : QueueState μ} {call : QueueCall μ}

/-- A transaction that a call opens holds a row that nobody else has locked. -/
theorem opened_of_step (hstep : s.step e call = some s') :
    s'.held.Sublist s.held ∨ ∃ lr, s'.held = lr :: s.held ∧ lr.id ∉ s.locked := by
  cases queueStep_of_step hstep with
  | finds start tie lr begun found =>
      obtain ⟨r, hr, rfl⟩ := Option.map_eq_some_iff.mp found
      obtain ⟨-, -, -, hfree⟩ := selectLockable_eq_some hr
      exact .inr ⟨_, rfl, hfree⟩
  | ackLocks | nackLocks | rollbacks => exact .inl List.filter_sublist
  | _ => exact .inl (List.Sublist.refl _)

theorem nodup_locked_step (h : s.locked.Nodup) (hstep : s.step e call = some s') :
    s'.locked.Nodup := by
  rcases opened_of_step hstep with hsub | ⟨lr, hheld, hfree⟩
  · exact h.sublist (hsub.map LockedRow.id)
  · rw [QueueState.locked, hheld, List.map_cons, List.nodup_cons]
    exact ⟨hfree, h⟩

/-- The call takes the row out of the table: the `AckLock` of the transaction that holds it, or an
`Ack` with the lease it bears. -/
def Removes (e : Engine) (s : QueueState μ) (r : LeaseRow μ) : QueueCall μ → Prop
  | .ackLock id => id = r.id ∧ id ∈ s.locked
  | .ack id lockedBy epoch => r.fenced e id lockedBy epoch = true
  | _ => False

variable {r : LeaseRow μ}

theorem exists_of_updateWhere {cond : LeaseRow μ → Bool} {set : LeaseRow μ → LeaseRow μ}
    {rows : List (LeaseRow μ)} (hr : r ∈ rows) (hid : ∀ q, (set q).id = q.id)
    (hmsg : ∀ q, (set q).msg = q.msg) :
    ∃ q ∈ updateWhere cond set rows, q.id = r.id ∧ q.msg = r.msg := by
  refine ⟨_, mem_updateWhere.mpr ⟨r, hr, rfl⟩, ?_⟩
  split
  · exact ⟨hid r, hmsg r⟩
  · exact ⟨rfl, rfl⟩

theorem kept_or_removed (hstep : s.step e call = some s') (hr : r ∈ s.table.rows) :
    (∃ q ∈ s'.table.rows, q.id = r.id ∧ q.msg = r.msg) ∨ Removes e s r call := by
  cases queueStep_of_step hstep with
  | inserts gap msg delay => exact .inl ⟨r, List.mem_append_left _ hr, rfl, rfl⟩
  | claims => exact .inl (exists_of_updateWhere hr (fun _ => rfl) fun _ => rfl)
  | nacks => exact .inl (exists_of_updateWhere hr (fun _ => rfl) fun _ => rfl)
  | nackLocks => exact .inl (exists_of_updateWhere hr (fun _ => rfl) fun _ => rfl)
  | acks id lockedBy epoch =>
      by_cases hfenced : r.fenced e id lockedBy epoch = true
      · exact .inr hfenced
      · exact .inl ⟨r, mem_deleteWhere.mpr ⟨hr, by simpa using hfenced⟩, rfl, rfl⟩
  | ackLocks lr held =>
      by_cases hid : r.id = lr.id
      · exact .inr ⟨hid.symm, List.mem_map_of_mem held⟩
      · exact .inl ⟨r, mem_deleteWhere.mpr ⟨hr, beq_false_of_ne hid⟩, rfl, rfl⟩
  | _ => exact .inl ⟨r, hr, rfl, rfl⟩

/-- An `Ack` takes no row that an open transaction holds. -/
theorem QueueInv.notMem_locked_of_fenced (h : QueueInv s) {id : ℕ} {lockedBy : String} {epoch : ℕ}
    (hr : r ∈ s.table.rows) (hfenced : r.fenced e id lockedBy epoch = true) : r.id ∉ s.locked := by
  intro hlocked
  obtain ⟨lr, hlr, hid⟩ := List.mem_map.mp hlocked
  obtain ⟨q, hq, hqid, hfree⟩ := h.held lr hlr
  obtain rfl := h.table.eq_of_id hr hq (hid.symm.trans hqid.symm)
  rw [fenced_of_unlocked hfree] at hfenced
  cases hfenced

structure LockSafe (e : Engine) (s : QueueState μ) (call : QueueCall μ) (s' : QueueState μ) :
    Prop where
  /-- Two open transactions never hold the same row. -/
  exclusive : s'.locked.Nodup
  holds : ∀ lr ∈ s'.held, ∃ r ∈ s'.table.rows, r.id = lr.id ∧ r.lockedBy = none
  /-- No claim of either kind returns a row that an open transaction holds. -/
  returned : ∀ id ∈ s.returned e call, id ∉ s.locked
  kept : ∀ r ∈ s.table.rows,
    (∃ q ∈ s'.table.rows, q.id = r.id ∧ q.msg = r.msg) ∨ Removes e s r call
  fenced : ∀ r ∈ s.table.rows, ∀ id lockedBy epoch, call = .ack id lockedBy epoch →
    Removes e s r call → r.id ∉ s.locked

theorem lockSafe_step (h : s.locked.Nodup) (hq : QueueInv s) (he : e.skipsLocked = true)
    (hstep : s.step e call = some s') : LockSafe e s call s' where
  exclusive := nodup_locked_step h hstep
  holds := (hq.step he hstep).held
  returned := by
    intro id hid
    obtain ⟨-, -, -, -, hfree⟩ := hq.of_returned he hstep hid
    exact hfree
  kept := fun r hr => kept_or_removed hstep hr
  fenced := by
    rintro r hr id lockedBy epoch rfl hremoves
    exact hq.notMem_locked_of_fenced hr hremoves

/-- Every call of a run on a table that both strategies share is safe. -/
theorem run_lockSafe (e : Engine) (he : e.skipsLocked = true) (now : ℤ)
    (calls : List (QueueCall μ)) : Along (QueueState.step e) (LockSafe e) (.new now) calls := by
  apply along_of_invariant (I := fun s => QueueInv s ∧ s.locked.Nodup)
  · rintro s call s' ⟨hq, h⟩ hstep
    exact ⟨hq.step he hstep, nodup_locked_step h hstep⟩
  · rintro s call s' ⟨hq, h⟩ hstep
    exact lockSafe_step h hq he hstep
  · exact ⟨.new now, List.nodup_nil⟩

/-- A transaction holds the first row while a lease is taken on the second; its worker crashes, and
the row is claimed and acked by another transaction. -/
def crashedTransaction : List (QueueCall String) :=
  [.insert 0 "a" 0, .insert 0 "b" 0, .beginLockTx, .claimLock 0 id, .claim 2 "w" 1000000 id,
    .rollback 1, .beginLockTx, .claimLock 0 id, .ackLock 1, .ack 2 "w" 1]

theorem run_lockSafe_crashedTransaction :
    Engine.skipsLocked .postgres = true ∧
      (∃ s, run (QueueState.step .postgres) (.new 0) crashedTransaction = some s ∧
        s.table.rows = [] ∧ s.held.length = 0) ∧
      Along (QueueState.step .postgres) (LockSafe .postgres) (.new 0) crashedTransaction :=
  ⟨rfl, ⟨_, rfl, rfl, rfl⟩, run_lockSafe .postgres rfl 0 crashedTransaction⟩

end Msgin.Sql
