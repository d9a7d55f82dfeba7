import Msgin.LeaseInvariant

/-!
# The fence of the queue tables

An `Ack` or `Nack` names a claim by row id, worker and epoch. Where ids are never given out
twice the triple names one claim of one message, and the queue has the safety of
`LeaseSafe`. An SQLite table gives the id of a deleted last row to the next message, whose
epochs count from 1 again, so there the fence is sound exactly for the runs in which no
call is made with a triple that a lease of another message bears.
-/

namespace Msgin.Sql

open TableRows TransitionRuns

variable {e : Engine} {h h' : LeaseHistory}

def OwnRowOnly (h : LeaseHistory) : LeaseCall → LeaseHistory → Prop
  | .ack n _, h' | .nack n _ _ _, h' =>
    ∀ r : LeaseRow ℕ, r.msg ≠ n → (r ∈ h'.table.rows ↔ r ∈ h.table.rows)
  | _, _ => True

theorem HistoryOf.ack_ownRow_iff (hh : HistoryOf h) {n : ℕ} {c : LeaseClaim}
    (hc : c ∈ (h.logs n).claims) :
    NoTwin e h n c ↔ ∀ r : LeaseRow ℕ, r.msg ≠ n →
      (r ∈ (ack e c.id c.lockedBy c.epoch h.table).2.rows ↔ r ∈ h.table.rows) := by
  constructor
  · intro htwin r hmsg
    simp only [ack, mem_deleteWhere, and_iff_left_iff_imp]
    intro hr
    by_contra hf
    exact hmsg (hh.holder_of_fenced hc htwin hr (by simpa using hf)).1
  · intro hown m d hd hid heq hepoch
    by_contra hmn
    obtain ⟨r, hr, rfl, hrid, hrby, hrepoch⟩ := hh.row_of_holder hd
    have hkept := (hown r hmn).mpr hr
    simp only [ack, mem_deleteWhere] at hkept
    simp [LeaseRow.fenced, hrid, hid, hrby, heq, hrepoch, hepoch] at hkept

theorem HistoryOf.nack_ownRow_iff (hh : HistoryOf h) {n : ℕ} {c : LeaseClaim}
    (hc : c ∈ (h.logs n).claims) (delay now : ℤ) :
    NoTwin e h n c ↔ ∀ r : LeaseRow ℕ, r.msg ≠ n →
      (r ∈ (nack e c.id c.lockedBy c.epoch delay now h.table).2.rows ↔ r ∈ h.table.rows) := by
  constructor
  · intro htwin r hmsg
    simp only [nack, mem_updateWhere]
    constructor
    · rintro ⟨q, hq, hqr⟩
      have hqmsg : q.msg ≠ n := by
        intro hqn
        apply hmsg
        rw [← hqr]
        split <;> exact hqn
      rw [if_neg fun hf => hqmsg (hh.holder_of_fenced hc htwin hq hf).1] at hqr
      exact hqr ▸ hq
    · intro hr
      exact ⟨r, hr, if_neg fun hf => hmsg (hh.holder_of_fenced hc htwin hr hf).1⟩
  · intro hown m d hd hid heq hepoch
    by_contra hmn
    obtain ⟨r, hr, rfl, hrid, hrby, hrepoch⟩ := hh.row_of_holder hd
    have hkept := (hown r hmn).mpr hr
    simp only [nack, mem_updateWhere] at hkept
    obtain ⟨q, hq, hqr⟩ := hkept
    have hqid : q.id = r.id := by
      rw [← hqr]
      split <;> rfl
    obtain rfl : q = r := hh.eq_of_id hq hr hqid
    have hf : q.fenced e c.id c.lockedBy c.epoch = true := by
      simp [LeaseRow.fenced, hrid, hid, hrby, heq, hrepoch, hepoch]
    rw [if_pos hf] at hqr
    have hnone : q.lockedBy = none := by
      rw [← hqr]
      rfl
    simp [hnone] at hrby

theorem callNoTwin_iff_ownRowOnly {call : LeaseCall} (hh : HistoryOf h)
    (hstep : leaseStep e h call = some h') : CallNoTwin e h call h' ↔ OwnRowOnly h call h' := by
  cases call with
  | insert gap delay now => exact Iff.rfl
  | claim limit w leaseTTL now locked tie => exact Iff.rfl
  | ack n c =>
      simp only [leaseStep] at hstep
      split at hstep
      · next hc =>
          obtain rfl := Option.some.inj hstep
          exact hh.ack_ownRow_iff hc
      · simp at hstep
  | nack n c delay now =>
      simp only [leaseStep] at hstep
      split at hstep
      · next hc =>
          obtain rfl := Option.some.inj hstep
          exact hh.nack_ownRow_iff hc delay now
      · simp at hstep

/-- On an SQLite table, a run whose calls never bear the triple of another message's lease
is a run whose calls touch only the rows of their own messages, and the other way round. -/
theorem sqlite_run_ownRowOnly_iff (calls : List LeaseCall) :
    Along (leaseStep .sqlite) (CallNoTwin .sqlite) .empty calls ↔
      Along (leaseStep .sqlite) OwnRowOnly .empty calls := by
  apply along_iff_along (I := HistoryOf)
  · intro h call h' hh hstep htwin
    exact historyOf_step hh hstep htwin
  · intro h call h' hh hstep
    exact callNoTwin_iff_ownRowOnly hh hstep
  · exact historyOf_empty

/-- A first message is claimed twice by workers that share a name, and acked by the second;
the next message is given its id and claimed under the same name. -/
def reusedID : List LeaseCall :=
  [.insert 0 0 0, .claim 1 "w" 1000000 1 [] id, .claim 1 "w" 1000000 2000 [] id,
    .ack 0 ⟨1, "w", 2, 2000⟩, .insert 0 0 2001, .claim 1 "w" 1000000 2002 [] id]

/-- The first worker's late `Ack` deletes the second message. -/
theorem sqlite_ack_deletes_another_message :
    ∃ h, run (leaseStep .sqlite) .empty reusedID = some h ∧
      (h.logs 0).claims = [⟨1, "w", 2, 2000⟩, ⟨1, "w", 1, 1⟩] ∧
      h.table.rows.map LeaseRow.msg = [1] ∧
      (ack .sqlite 1 "w" 1 h.table).1 = true ∧ (ack .sqlite 1 "w" 1 h.table).2.rows = [] :=
  ⟨_, rfl, by decide⟩

end Msgin.Sql
