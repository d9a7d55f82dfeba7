import Msgin.LockQueue

/-!
# The delay of a `Nack`

A row that was nacked with a delay lies in the table, unlocked, until the time in its
`visible_after`. That time is the delay after the `Nack` itself only if the statement reads the time
at which it runs, which on PostgreSQL it does not inside the transaction of a `ClaimLock`.
-/

namespace Msgin.Sql

open TableRows TransitionRuns

variable {μ : Type*} {e : Engine} {s s' : QueueState μ} {call : QueueCall μ} {id : ℕ} {after : ℤ}

/-- The row lies in the table, unlocked, and is not visible before `after`. -/
structure Waits (s : QueueState μ) (id : ℕ) (after : ℤ) : Prop where
  row : ∃ r ∈ s.table.rows, r.id = id ∧ r.lockedBy = none ∧ r.lockedAt = none ∧
    r.visibleAfter = after
  free : id ∉ s.locked

theorem Waits.of_returned (hw : Waits s id after) (h : QueueInv s) (he : e.skipsLocked = true)
    (hstep : s.step e call = some s') (hid : id ∈ s.returned e call) : after ≤ s.now := by
  obtain ⟨r, hr, hrid, -, -, rfl⟩ := hw.row
  obtain ⟨q, hq, hqid, hvisible, -⟩ := h.of_returned he hstep hid
  obtain rfl := h.table.eq_of_id hr hq (hrid.trans hqid.symm)
  exact hvisible

theorem mem_locked_of_settles (hstep : s.step e call = some s') (h : call.settles id) :
    id ∈ s.locked := by
  cases queueStep_of_step hstep with
  | ackLocks lr held | nackLocks lr held requeue delay | rollbacks lr held =>
      obtain rfl : lr.id = id := h
      exact List.mem_map_of_mem held
  | _ => cases h

theorem Waits.step (hw : Waits s id after) (h : QueueInv s) (he : e.skipsLocked = true)
    (hstep : s.step e call = some s') : Waits s' id after ∨ after ≤ s'.now := by
  by_cases hreturned : id ∈ s.returned e call
  · exact .inr ((hw.of_returned h he hstep hreturned).trans (now_le_of_step hstep))
  · obtain ⟨r, hr, rfl, hby, hat, hafter⟩ := hw.row
    have hkept := kept_of_step hstep hr hby hreturned
      fun hsettles => hw.free (mem_locked_of_settles hstep hsettles)
    refine .inl ⟨⟨r, hkept, rfl, hby, hat, hafter⟩, fun hlocked => ?_⟩
    obtain ⟨lr, hlr, hid⟩ := List.mem_map.mp hlocked
    rcases held_of_step hstep hlr with ⟨hlr, -⟩ | ⟨hnew, -⟩
    · exact hw.free (hid ▸ List.mem_map_of_mem hlr)
    · exact hreturned (hid ▸ hnew)

theorem Waits.run (hw : Waits s id after) (h : QueueInv s) (he : e.skipsLocked = true)
    {calls : List (QueueCall μ)} (hr : TransitionRuns.run (QueueState.step e) s calls = some s') :
    (Waits s' id after ∨ after ≤ s'.now) ∧ s.now ≤ s'.now ∧ QueueInv s' := by
  refine run_invariant (QueueState.step e)
    (I := fun u => (Waits u id after ∨ after ≤ u.now) ∧ s.now ≤ u.now ∧ QueueInv u) ?_
    ⟨.inl hw, le_rfl, h⟩ hr
  rintro u call v ⟨hwait, hle, hinv⟩ hstep
  have hnow := now_le_of_step hstep
  refine ⟨?_, hle.trans hnow, hinv.step he hstep⟩
  rcases hwait with hwait | hpast
  · exact hwait.step hinv he hstep
  · exact .inr (hpast.trans hnow)

theorem Waits.mem_returned (hw : Waits s id after) (hnow : after ≤ s.now) :
    id ∈ s.returned e (.claim s.table.rows.length "" 0 fun _ => 0) := by
  obtain ⟨r, hr, rfl, hby, hat, rfl⟩ := hw.row
  rw [returned_claim]
  refine List.mem_map_of_mem ?_
  have hlength : ∀ p : LeaseRow μ → Bool,
      ((s.table.rows.filter p).insertionSort (LeaseRow.inOrder fun _ => 0)).length ≤
        s.table.rows.length := fun p => by
    rw [List.length_insertionSort]
    exact List.length_filter_le p _
  rw [selectClaimable, List.take_of_length_le (hlength _), List.mem_insertionSort, List.mem_filter]
  refine ⟨hr, ?_⟩
  have hfree := hw.free
  simp [LeaseRow.claimable, hat, hnow, hfree]

theorem Waits.returned_iff (hw : Waits s id after) (h : QueueInv s) (he : e.skipsLocked = true)
    (bound : ℤ) :
    (∀ calls u call v, TransitionRuns.run (QueueState.step e) s calls = some u →
        u.step e call = some v → id ∈ u.returned e call → bound ≤ 1000 * u.now) ↔
      bound ≤ 1000 * max s.now after := by
  constructor
  · intro hlaw
    let u := { s with now := max s.now after }
    have htick : TransitionRuns.run (QueueState.step e) s [.tick (max s.now after - s.now).toNat] =
        some u := by
      have hnow : s.now + ((max s.now after - s.now).toNat : ℤ) = max s.now after := by omega
      simp only [run_cons, QueueState.step, hnow]
      rfl
    have hwait : Waits u id after := ⟨hw.row, hw.free⟩
    exact hlaw _ u _ _ htick rfl (hwait.mem_returned (le_max_right _ _))
  · intro hbound calls u call v hr hstep hid
    obtain ⟨hwait, hle, hinv⟩ := hw.run h he hr
    have hafter : after ≤ u.now := by
      rcases hwait with hwait | hpast
      · exact hwait.of_returned hinv he hstep hid
      · exact hpast
    omega

theorem QueueInv.waits_of_nacked (h : QueueInv s) (hstep : s.step e call = some s') {d stamp : ℤ}
    (hn : s.nacked e call = some ⟨id, true, d, stamp⟩) :
    stamp ≤ s.now ∧ s'.now = s.now ∧ Waits s' id (stamp + microseconds d) := by
  cases call with
  | nack id' lockedBy epoch requeue delay =>
      obtain rfl := Option.some.inj hstep
      simp only [QueueState.nacked, Option.ite_none_right_eq_some, Option.some.injEq,
        NackEvent.mk.injEq] at hn
      obtain ⟨heffect, rfl, rfl, rfl, rfl⟩ := hn
      obtain ⟨r, hr, hfenced⟩ := affected_pos.mp (of_decide_eq_true heffect)
      have hid : r.id = id' := by
        simp only [LeaseRow.fenced, Bool.and_eq_true, beq_iff_eq] at hfenced
        exact hfenced.1.1
      refine ⟨le_rfl, rfl, ⟨r.requeue delay s.now, ?_, hid, rfl, rfl, rfl⟩, fun hlocked => ?_⟩
      · exact mem_updateWhere.mpr ⟨r, hr, if_pos hfenced⟩
      · obtain ⟨lr, hlr, hlrid⟩ := List.mem_map.mp hlocked
        obtain ⟨q, hq, hqid, hfree⟩ := h.held lr hlr
        obtain rfl := h.table.eq_of_id hr hq (hid.trans (hqid.trans hlrid).symm)
        rw [fenced_of_unlocked hfree] at hfenced
        cases hfenced
  | nackLock id' requeue delay =>
      obtain ⟨lr, hlr, rfl⟩ := Option.map_eq_some_iff.mp hstep
      simp only [QueueState.nacked, hlr, Option.map_some, Option.some.injEq,
        NackEvent.mk.injEq] at hn
      obtain ⟨rfl, rfl, rfl, rfl⟩ := hn
      obtain ⟨hmem, rfl⟩ := lockedRow_eq_some hlr
      obtain ⟨r, hr, hid, -⟩ := h.held lr hmem
      refine ⟨Engine.currentTime_le (h.started lr hmem), rfl,
        ⟨r.requeueLocked delay (e.currentTime lr.start s.now), ?_, hid, rfl, rfl, rfl⟩,
        fun hlocked => ?_⟩
      · exact mem_updateWhere.mpr ⟨r, hr, if_pos (beq_iff_eq.mpr hid)⟩
      · obtain ⟨lr', hlr', hid'⟩ := List.mem_map.mp hlocked
        exact bne_iff_ne.mp (List.mem_filter.mp hlr').2 hid'
  | _ => cases hn

/-- After an effective `Nack` at the present time, no claim returns the row before the delay has
passed. -/
def QueueState.Delays (e : Engine) (s : QueueState μ) (id : ℕ) (d : ℤ) : Prop :=
  ∀ calls u call v, run (QueueState.step e) s calls = some u → u.step e call = some v →
    id ∈ u.returned e call → 1000 * s.now + d ≤ 1000 * u.now

theorem nack_delays_iff (he : e.skipsLocked = true) {start : ℤ} {calls : List (QueueCall μ)}
    (hr : run (QueueState.step e) (.new start) calls = some s) (hstep : s.step e call = some s')
    {d stamp : ℤ} (hd : 0 ≤ d) (hn : s.nacked e call = some ⟨id, true, d, stamp⟩) :
    s'.Delays e id d ↔ d = 0 ∨ stamp = s.now ∧ 1000 ∣ d := by
  have hinv := (QueueInv.new start).run he hr
  obtain ⟨hstamp, hnow, hwait⟩ := hinv.waits_of_nacked hstep hn
  unfold QueueState.Delays
  rw [hwait.returned_iff (hinv.step he hstep) he, hnow, microseconds,
    Int.tdiv_eq_ediv_of_nonneg hd]
  omega

/-- A handler that runs for ten seconds on a row that `ClaimLock` has claimed. -/
def slowHandler : List (QueueCall Unit) :=
  [.insert 0 () 0, .beginLockTx, .claimLock 0 fun _ => 0, .tick 10000000]

theorem nack_delays_iff_mysql :
    ∃ s s', run (QueueState.step (.mysql .binary)) (.new 0) slowHandler = some s ∧
      s.step (.mysql .binary) (.nackLock 1 true 5000000000) = some s' ∧
      s'.Delays (.mysql .binary) 1 5000000000 := by
  obtain ⟨s, s', hr, hstep, hn, hnow⟩ : ∃ s s', run (QueueState.step (.mysql .binary)) (.new 0)
      slowHandler = some s ∧ s.step (.mysql .binary) (.nackLock 1 true 5000000000) = some s' ∧
      s.nacked (.mysql .binary) (.nackLock 1 true 5000000000) =
        some ⟨1, true, 5000000000, 10000000⟩ ∧ s.now = 10000000 := ⟨_, _, rfl, rfl, rfl, rfl⟩
  exact ⟨s, s', hr, hstep,
    (nack_delays_iff rfl hr hstep (by decide) hn).mpr (.inr ⟨hnow.symm, by decide⟩)⟩

/-- Nacked with a delay of five seconds, the row is claimed again at once. -/
theorem slowHandler_redelivered :
    ∃ s s', run (QueueState.step .postgres) (.new 0) slowHandler = some s ∧
      s.step .postgres (.nackLock 1 true 5000000000) = some s' ∧
      s.nacked .postgres (.nackLock 1 true 5000000000) = some ⟨1, true, 5000000000, 0⟩ ∧
      s'.now = s.now ∧ s'.returned .postgres (.claim 1 "w" 30000000000 fun _ => 0) = [1] ∧
      ¬s'.Delays .postgres 1 5000000000 := by
  obtain ⟨s, s', hr, hstep, hn, hnow, hreturned⟩ : ∃ s s', run (QueueState.step .postgres) (.new 0)
      slowHandler = some s ∧ s.step .postgres (.nackLock 1 true 5000000000) = some s' ∧
      s.nacked .postgres (.nackLock 1 true 5000000000) = some ⟨1, true, 5000000000, 0⟩ ∧
      s'.now = s.now ∧ s'.returned .postgres (.claim 1 "w" 30000000000 fun _ => 0) = [1] :=
    ⟨_, _, rfl, rfl, rfl, rfl, rfl⟩
  refine ⟨s, s', hr, hstep, hn, hnow, hreturned, fun hlaw => ?_⟩
  have hbound := hlaw [] s' (.claim 1 "w" 30000000000 fun _ => 0) _ rfl rfl
    (by rw [hreturned]; exact List.mem_singleton_self 1)
  omega

end Msgin.Sql
