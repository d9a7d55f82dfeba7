import Msgin.LeaseFence

/-!
# Safety of the queue where ids are never reused

On PostgreSQL and MySQL every message has an id of its own (`Issued`), so no call can be
mistaken for one of another message and every run keeps `HistoryOf`. What the workers may
rely on is read off it step by step.
-/

namespace Msgin.Sql

open TableRows TransitionRuns

variable {e : Engine} {h h' : LeaseHistory}

/-- Every message that arrived has an id that no other message has. -/
def Issued (h : LeaseHistory) : Prop :=
  ∃ idOf : ℕ → ℕ, (∀ n < h.arrived, ∀ m < h.arrived, idOf n = idOf m → n = m) ∧
    (∀ n < h.arrived, idOf n ≤ h.table.lastID) ∧
    (∀ r ∈ h.table.rows, r.id = idOf r.msg) ∧ ∀ n, ∀ c ∈ (h.logs n).claims, c.id = idOf n

theorem noTwin_of_issued (hh : HistoryOf h) (hi : Issued h) {n : ℕ} {c : LeaseClaim}
    (hc : c ∈ (h.logs n).claims) : NoTwin e h n c := by
  obtain ⟨idOf, hinj, -, -, hclaims⟩ := hi
  intro m d hd hid _ _
  have hd' := MessageLog.mem_claims_of_holder hd
  have heq : idOf m = idOf n := by rw [← hclaims m d hd', ← hclaims n c hc, hid]
  exact hinj m (hh.lt_arrived hd') n (hh.lt_arrived hc) heq

variable {call : LeaseCall}

theorem callNoTwin_of_issued (hh : HistoryOf h) (hi : Issued h)
    (hstep : leaseStep e h call = some h') : CallNoTwin e h call h' := by
  cases call with
  | insert gap delay now => trivial
  | claim limit w leaseTTL now locked tie => trivial
  | ack n c =>
      simp only [leaseStep] at hstep
      split at hstep
      · next hc => exact noTwin_of_issued hh hi hc
      · simp at hstep
  | nack n c delay now =>
      simp only [leaseStep] at hstep
      split at hstep
      · next hc => exact noTwin_of_issued hh hi hc
      · simp at hstep

theorem issued_empty : Issued .empty :=
  ⟨id, by simp [LeaseHistory.empty], by simp [LeaseHistory.empty], by simp [LeaseHistory.empty],
    by simp [LeaseHistory.empty, MessageLog.empty]⟩

theorem Issued.insert (hh : HistoryOf h) (hi : Issued h) (he : e.reusesIDs = false) (gap : ℕ)
    (delay now : ℤ) :
    Issued { h with
      table := insert e gap h.arrived delay now h.table, arrived := h.arrived + 1 } := by
  obtain ⟨idOf, hinj, hlast, hrows, hclaims⟩ := hi
  have hnext : h.table.nextID e gap = h.table.lastID + gap + 1 := by simp [LeaseTable.nextID, he]
  have hold : ∀ n < h.arrived, Function.update idOf h.arrived (h.table.nextID e gap) n = idOf n :=
    fun n hn => Function.update_of_ne (Nat.ne_of_lt hn) _ _
  have hnew : Function.update idOf h.arrived (h.table.nextID e gap) h.arrived =
      h.table.lastID + gap + 1 := by rw [Function.update_self, hnext]
  refine ⟨Function.update idOf h.arrived (h.table.nextID e gap), ?_, ?_, ?_, ?_⟩
  · intro n hn m hm heq
    rcases Nat.lt_succ_iff_lt_or_eq.mp hn with hn | rfl <;>
      rcases Nat.lt_succ_iff_lt_or_eq.mp hm with hm | rfl
    · rw [hold n hn, hold m hm] at heq
      exact hinj n hn m hm heq
    · rw [hold n hn, hnew] at heq
      have hle := hlast n hn
      omega
    · rw [hold m hm, hnew] at heq
      have hle := hlast m hm
      omega
    · rfl
  · intro n hn
    simp only [Sql.insert, hnext]
    rcases Nat.lt_succ_iff_lt_or_eq.mp hn with hn | rfl
    · rw [← hnext, hold n hn]
      have hle := hlast n hn
      omega
    · rw [← hnext, hnew]
      omega
  · intro r hr
    rcases List.mem_append.mp hr with hr | hr
    · rw [hold r.msg (hh.arrived r hr)]
      exact hrows r hr
    · obtain rfl := List.mem_singleton.mp hr
      simp
  · intro n c hc
    rw [hold n (hh.lt_arrived hc)]
    exact hclaims n c hc

theorem Issued.of_subset (hi : Issued h) {t : LeaseTable ℕ} {logs : ℕ → MessageLog}
    (hlast : t.lastID = h.table.lastID)
    (hrows : ∀ r ∈ t.rows, ∃ q ∈ h.table.rows, q.id = r.id ∧ q.msg = r.msg)
    (hlogs : ∀ n, ∀ c ∈ (logs n).claims, c ∈ (h.logs n).claims ∨
      ∃ q ∈ h.table.rows, q.id = c.id ∧ q.msg = n) : Issued ⟨t, h.arrived, logs⟩ := by
  obtain ⟨idOf, hinj, hbound, hids, hclaims⟩ := hi
  refine ⟨idOf, hinj, ?_, ?_, ?_⟩
  · rw [hlast]
    exact hbound
  · intro r hr
    obtain ⟨q, hq, hid, hmsg⟩ := hrows r hr
    rw [← hid, ← hmsg]
    exact hids q hq
  · intro n c hc
    rcases hlogs n c hc with hold | ⟨q, hq, hid, rfl⟩
    · exact hclaims n c hold
    · rw [← hid]
      exact hids q hq

theorem issued_step (he : e.reusesIDs = false) (hh : HistoryOf h) (hi : Issued h)
    (hstep : leaseStep e h call = some h') : Issued h' := by
  cases call with
  | insert gap delay now =>
      simp only [leaseStep, Option.some.injEq] at hstep
      subst hstep
      exact hi.insert hh he gap delay now
  | claim limit w leaseTTL now locked tie =>
      simp only [leaseStep, Option.some.injEq] at hstep
      subst hstep
      apply hi.of_subset
      · rfl
      · intro r hr
        obtain ⟨q, hq, rfl⟩ := mem_updateWhere.mp hr
        refine ⟨q, hq, ?_, ?_⟩ <;> split <;> rfl
      · intro n c hc
        rcases recordClaims_eq (selectClaimable e limit leaseTTL now locked tie
          h.table.rows) w now h.logs n with ⟨-, hsame⟩ | ⟨q, hq, hqmsg, hpush⟩
        · exact Or.inl (hsame ▸ hc)
        · have hc' : c ∈ ((h.logs n).push ⟨q.id, w, q.leaseEpoch + 1, now⟩).claims := hpush ▸ hc
          rcases List.mem_cons.mp hc' with rfl | hold
          · exact Or.inr ⟨q, (mem_selectClaimable hq).1, rfl, hqmsg⟩
          · exact Or.inl hold
  | ack n c =>
      simp only [leaseStep] at hstep
      split at hstep
      · obtain rfl := Option.some.inj hstep
        apply hi.of_subset
        · rfl
        · intro r hr
          exact ⟨r, (mem_deleteWhere.mp hr).1, rfl, rfl⟩
        · intro m d hd
          rw [recordAck_claims] at hd
          exact Or.inl hd
      · simp at hstep
  | nack n c delay now =>
      simp only [leaseStep] at hstep
      split at hstep
      · obtain rfl := Option.some.inj hstep
        apply hi.of_subset
        · rfl
        · intro r hr
          obtain ⟨q, hq, rfl⟩ := mem_updateWhere.mp hr
          refine ⟨q, hq, ?_, ?_⟩ <;> split <;> rfl
        · intro m d hd
          rw [recordNack_claims] at hd
          exact Or.inl hd
      · simp at hstep

def CallSafe (e : Engine) (h : LeaseHistory) : LeaseCall → Prop
  | .insert _ _ _ => True
  | .claim limit w leaseTTL now locked tie =>
    ∀ r ∈ (claim e limit w leaseTTL now locked tie h.table).1,
      ∃ q ∈ h.table.rows, q.id = r.id ∧ q.msg = r.msg ∧ q.visibleAfter ≤ now ∧
        ∀ c, (h.logs r.msg).latest = some c →
          c ∈ (h.logs r.msg).nacked ∨ c.claimedAt ≤ now - microseconds leaseTTL
  | .ack n c => (ack e c.id c.lockedBy c.epoch h.table).1 = true ↔
      (h.logs n).latest = some c ∧ c ∉ (h.logs n).acked ∧ c ∉ (h.logs n).nacked
  | .nack n c delay now => (nack e c.id c.lockedBy c.epoch delay now h.table).1 = true ↔
      (h.logs n).latest = some c ∧ c ∉ (h.logs n).acked ∧ c ∉ (h.logs n).nacked

structure LeaseSafe (e : Engine) (h : LeaseHistory) (call : LeaseCall) (h' : LeaseHistory) :
    Prop where
  /-- A message leaves the table by an applied `Ack` of its latest claim only. -/
  kept : ∀ n < h'.arrived, (∃ r ∈ h'.table.rows, r.msg = n) ∨
    ∃ c, (h'.logs n).latest = some c ∧ c ∈ (h'.logs n).acked
  counted : ∀ r ∈ h'.table.rows, r.deliveryCount = (h'.logs r.msg).claims.length ∧
    r.leaseEpoch = (h'.logs r.msg).claims.length
  call : CallSafe e h call

theorem claim_safe (hh : HistoryOf h) {limit : ℕ} {w : String} {leaseTTL now : ℤ}
    {locked : List ℕ} {tie : ℕ → ℕ} : CallSafe e h (.claim limit w leaseTTL now locked tie) := by
  intro r hr
  obtain ⟨q, hq, rfl⟩ := List.mem_map.mp hr
  obtain ⟨hmem, hclaimable⟩ := mem_selectClaimable hq
  simp only [LeaseRow.claimable, Bool.and_eq_true, decide_eq_true_eq, Option.all_eq_true]
    at hclaimable
  refine ⟨q, hmem, rfl, rfl, hclaimable.1, ?_⟩
  intro c hlatest
  have hlog := hh.logged q hmem
  by_cases hn : c ∈ (h.logs q.msg).nacked
  · exact Or.inl hn
  · have hholder : (h.logs q.msg).holder = some c :=
      MessageLog.holder_eq_some.mpr ⟨hlatest, by simp [hlog.notAcked], hn⟩
    have hat : q.lockedAt = some c.claimedAt := by simp [hlog.lockedAt, hholder]
    exact Or.inr (hclaimable.2 c.claimedAt hat)

theorem leaseSafe_step (hh : HistoryOf h) (hi : Issued h) (hstep : leaseStep e h call = some h') :
    LeaseSafe e h call h' := by
  have htwin := callNoTwin_of_issued hh hi hstep
  have hh' := historyOf_step hh hstep htwin
  constructor
  · exact hh'.kept
  · intro r hr
    exact ⟨(hh'.logged r hr).deliveryCount, (hh'.logged r hr).leaseEpoch⟩
  · cases call with
    | insert gap delay now => trivial
    | claim limit w leaseTTL now locked tie => exact claim_safe hh
    | ack n c =>
        simp only [leaseStep] at hstep
        split at hstep
        · next hc =>
            simp only [CallSafe, ack, decide_eq_true_eq, ← MessageLog.holder_eq_some]
            exact hh.affected_pos_iff hc htwin
        · simp at hstep
    | nack n c delay now =>
        simp only [leaseStep] at hstep
        split at hstep
        · next hc =>
            simp only [CallSafe, nack, decide_eq_true_eq, ← MessageLog.holder_eq_some]
            exact hh.affected_pos_iff hc htwin
        · simp at hstep

/-- Every run of the calls on a PostgreSQL or MySQL queue table is safe at every step. -/
theorem run_leaseSafe (e : Engine) (he : e.reusesIDs = false) (calls : List LeaseCall) :
    Along (leaseStep e) (LeaseSafe e) .empty calls := by
  apply along_of_invariant (I := fun h => HistoryOf h ∧ Issued h)
  · rintro h call h' ⟨hh, hi⟩ hstep
    have htwin := callNoTwin_of_issued hh hi hstep
    exact ⟨historyOf_step hh hstep htwin, issued_step he hh hi hstep⟩
  · rintro h call h' ⟨hh, hi⟩ hstep
    exact leaseSafe_step hh hi hstep
  · exact ⟨historyOf_empty, issued_empty⟩

/-- A message is leased to `a`, taken over by `b` when the lease is over, and acked. -/
def takenOver : List LeaseCall :=
  [.insert 0 0 0, .claim 1 "a" 1000000 0 [] id, .claim 1 "b" 1000000 1000 [] id,
    .ack 0 ⟨1, "a", 1, 0⟩, .ack 0 ⟨1, "b", 2, 1000⟩]

theorem run_leaseSafe_takenOver :
    Engine.reusesIDs .postgres = false ∧
      (∃ h, run (leaseStep .postgres) .empty takenOver = some h ∧ h.table.rows = []) ∧
      Along (leaseStep .postgres) (LeaseSafe .postgres) .empty takenOver :=
  ⟨rfl, ⟨_, rfl, rfl⟩, run_leaseSafe .postgres rfl takenOver⟩

/-- A lease of 1500 ns reaches the statement as 1 µs, so a row that was claimed 1000 ns ago
and never settled is handed out again. -/
def HandsOutLeasedRow (e : Engine) : Prop :=
  ∃ h, run (leaseStep e) .empty [.insert 0 0 0, .claim 1 "a" 1500 0 [] id] = some h ∧
    (h.logs 0).latest = some ⟨1, "a", 1, 0⟩ ∧ (h.logs 0).nacked = [] ∧
    (1 - 0) * 1000 < (1500 : ℤ) ∧
    (claim e 1 "b" 1500 1 [] id h.table).1 = [⟨1, 0, 2, 2⟩]

theorem claim_returns_row_leased_for_less_than_leaseTTL :
    HandsOutLeasedRow .postgres ∧ HandsOutLeasedRow (.mysql .binary) :=
  ⟨⟨_, rfl, by decide⟩, ⟨_, rfl, by decide⟩⟩

end Msgin.Sql
