import Msgin.SqlSource

/-!
# Dead letters of the lease source

The delivery count a delivery carries is the number of times its row was claimed. In runs
in which every claim is settled before its lease expires, that is one for every delivery on
which the handler failed with an error that is not permanent, and one for every delivery
that was given back for another reason. The count of the two reaches `MaxAttempts` before a
message is dead-lettered as exhausted.
-/

namespace Msgin.Sql

open Interaction Prog TableRows TransitionRuns

variable {P T : Type} {e : Engine} {h h' : LeaseHistory} {n : ℕ} {c : LeaseClaim}

theorem HistoryOf.noTwin_of_holder (hh : HistoryOf h) (hn : (h.logs n).holder = some c) :
    NoTwin e h n c := by
  intro m d hd hid _ _
  obtain ⟨r, hr, hrmsg, hrid, -⟩ := hh.row_of_holder hn
  obtain ⟨q, hq, hqmsg, hqid, -⟩ := hh.row_of_holder hd
  have heq : q = r := hh.eq_of_id hq hr (by rw [hqid, hrid, hid])
  rw [← hqmsg, ← hrmsg, heq]

/-- What a statement on the row of message `n` leaves as it was. -/
structure TouchesOnly (h : LeaseHistory) (n : ℕ) (h' : LeaseHistory) : Prop where
  history : HistoryOf h'
  arrived : h'.arrived = h.arrived
  logs : ∀ m, m ≠ n → h'.logs m = h.logs m
  claims : (h'.logs n).claims = (h.logs n).claims
  rows : ∀ r ∈ h'.table.rows, r.msg ≠ n → r ∈ h.table.rows

theorem touchesOnly_ack (hh : HistoryOf h) (hn : (h.logs n).holder = some c)
    (hstep : leaseStep e h (.ack n c) = some h') :
    TouchesOnly h n h' ∧ ∀ r ∈ h'.table.rows, r.msg ≠ n := by
  have hc := MessageLog.mem_claims_of_holder hn
  have htwin := hh.noTwin_of_holder (e := e) hn
  have hh' := historyOf_step hh hstep htwin
  simp only [leaseStep, if_pos hc] at hstep
  obtain rfl := Option.some.inj hstep
  constructor
  · constructor
    · exact hh'
    · rfl
    · intro m hm
      simp only [recordAck]
      split <;> simp [hm]
    · exact recordAck_claims _ _ _ _ _
    · intro r hr _
      exact (mem_deleteWhere.mp hr).1
  · intro r hr hmsg
    obtain ⟨hold, hf⟩ := mem_deleteWhere.mp hr
    rw [(hh.fenced_iff hc htwin hn hold).mpr hmsg] at hf
    exact Bool.noConfusion hf

variable {now delay : ℤ} {es : List (Event P T)} {dbErr : Option Err}

theorem touchesOnly_nack (hh : HistoryOf h) (hn : (h.logs n).holder = some c)
    (hstep : leaseStep e h (.nack n c delay now) = some h') : TouchesOnly h n h' := by
  have hc := MessageLog.mem_claims_of_holder hn
  have htwin := hh.noTwin_of_holder (e := e) hn
  have hh' := historyOf_step hh hstep htwin
  simp only [leaseStep, if_pos hc] at hstep
  obtain rfl := Option.some.inj hstep
  constructor
  · exact hh'
  · rfl
  · intro m hm
    simp only [recordNack]
    split <;> simp [hm]
  · exact recordNack_claims _ _ _ _ _
  · intro r hr hmsg
    obtain ⟨q, hq, rfl⟩ := mem_updateWhere.mp hr
    by_cases hf : q.fenced e c.id c.lockedBy c.epoch = true
    · rw [if_pos hf] at hmsg
      exact absurd ((hh.fenced_iff hc htwin hn hq).mp hf) hmsg
    · rw [if_neg hf]
      exact hq

/-- The deliveries of each message add up to the claims on its row. -/
structure SourceInv (c : Consumer P T) (s : SourceState) : Prop where
  history : HistoryOf s.history
  inFlight : ∀ n claim k, s.inFlight n = some (claim, k) →
    (s.history.logs n).holder = some claim ∧ k = (s.history.logs n).claims.length ∧
      k = s.failed n + s.skipped n + 1
  waiting : ∀ r ∈ s.history.table.rows, r.lockedBy = none →
    (s.history.logs r.msg).claims.length = s.failed r.msg + s.skipped r.msg
  unborn : ∀ n, s.history.arrived ≤ n → s.failed n = 0 ∧ s.skipped n = 0
  deadLettered : ∀ x ∈ s.deadLettered, 1 ≤ x.failed ∧
    c.policy.maxAttempts ≤ ((x.failed + x.skipped : ℕ) : ℤ)

theorem sourceInv_initial (c : Consumer P T) : SourceInv c .initial where
  history := historyOf_empty
  inFlight := by simp [SourceState.initial]
  waiting := by simp [SourceState.initial, LeaseHistory.empty]
  unborn := by simp [SourceState.initial]
  deadLettered := by simp [SourceState.initial]

theorem HistoryOf.locked_of_holder (hh : HistoryOf h) (hn : (h.logs n).holder = some c)
    {r : LeaseRow ℕ} (hr : r ∈ h.table.rows) (hmsg : r.msg = n) : r.lockedBy ≠ none := by
  subst hmsg
  simp [(hh.logged r hr).lockedBy, hn]

variable {cons : Consumer P T} {s : SourceState}

theorem SourceInv.insert (hs : SourceInv cons s) {gap : ℕ}
    (hstep : leaseStep e s.history (.insert gap delay now) = some h') :
    SourceInv cons { s with history := h' } := by
  have hh' := historyOf_step hs.history hstep trivial
  simp only [leaseStep, Option.some.injEq] at hstep
  subst hstep
  constructor
  · exact hh'
  · exact hs.inFlight
  · intro r hr hfree
    rcases List.mem_append.mp hr with hold | hnew
    · exact hs.waiting r hold hfree
    · obtain rfl := List.mem_singleton.mp hnew
      have hlog := hs.history.unborn s.history.arrived (Nat.le_refl _)
      obtain ⟨hf, hk⟩ := hs.unborn s.history.arrived (Nat.le_refl _)
      simp [hlog, hf, hk, MessageLog.empty]
  · intro m hm
    exact hs.unborn m (Nat.le_of_succ_le hm)
  · exact hs.deadLettered

theorem SourceInv.poll (hs : SourceInv cons s) {limit : ℕ} {w : String} {leaseTTL : ℤ}
    {locked : List ℕ} {tie : ℕ → ℕ}
    (hfree : ∀ r ∈ selectClaimable e limit leaseTTL now locked tie s.history.table.rows,
      r.lockedBy = none)
    (hstep : leaseStep e s.history (.claim limit w leaseTTL now locked tie) = some h') :
    SourceInv cons { s with
      history := h'
      inFlight := recordDeliveries w now
        (claim e limit w leaseTTL now locked tie s.history.table).1 s.inFlight } := by
  have hh := hs.history
  have hh' := historyOf_step hh hstep trivial
  simp only [leaseStep, Option.some.injEq] at hstep
  subst hstep
  let selected := selectClaimable e limit leaseTTL now locked tie s.history.table.rows
  have hsel : ∀ r ∈ selected, r ∈ s.history.table.rows := fun r hr => (mem_selectClaimable hr).1
  constructor
  · exact hh'
  · intro n d k hd
    simp only [claim, recordDeliveries] at hd
    simp only [claim, recordClaims]
    rcases find_claimed selected w now n with ⟨-, hfind⟩ | ⟨r, hr, rfl, hfind⟩
    · rw [hfind] at hd ⊢
      exact hs.inFlight n d k hd
    · rw [hfind, Option.some.injEq, Prod.mk.injEq] at hd
      rw [hfind]
      obtain ⟨rfl, rfl⟩ := hd
      have hrow := hh.logged r (hsel r hr)
      have hcount := hrow.deliveryCount
      have hwait := hs.waiting r (hsel r hr) (hfree r hr)
      constructor
      · exact hrow.holder_push w now (hh.numbered r.msg) fun x hx => hh.known r.msg x (Or.inr hx)
      · simp only [LeaseRow.claimed, LeaseRow.lease, MessageLog.push, List.length_cons]
        omega
  · intro q hq hunlocked
    obtain ⟨r, hr, rfl⟩ := mem_updateWhere.mp hq
    by_cases hin : (selected.map LeaseRow.id).contains r.id = true
    · rw [if_pos hin] at hunlocked
      simp [LeaseRow.lease] at hunlocked
    · rw [if_neg hin] at hunlocked ⊢
      rcases recordClaims_eq selected w now s.history.logs r.msg with ⟨-, hsame⟩ | ⟨x, hx, hxmsg, -⟩
      · exact (congrArg (fun l => l.claims.length) hsame).trans (hs.waiting r hr hunlocked)
      · have hxr : x = r := hh.eq_of_msg (hsel x hx) hr hxmsg
        have hmem : r.id ∈ selected.map LeaseRow.id := hxr ▸ List.mem_map_of_mem hx
        exact absurd (List.contains_iff_mem.mpr hmem) hin
  · exact hs.unborn
  · exact hs.deadLettered

theorem touchesOnly_settle (hh : HistoryOf h) (hn : (h.logs n).holder = some c)
    {call : Option LeaseCall}
    (hcall : ∀ x, call = some x → x = .ack n c ∨ ∃ delay now, x = .nack n c delay now)
    (hstep : settleHistory e h dbErr call = some h') :
    TouchesOnly h n h' ∧ ∀ r ∈ h'.table.rows, r.msg = n → r.lockedBy = none →
      ∃ delay now, call = some (.nack n c delay now) := by
  by_cases hsent : dbErr = none ∧ call ≠ none
  · obtain ⟨rfl, hsome⟩ := hsent
    obtain ⟨x, rfl⟩ := Option.ne_none_iff_exists'.mp hsome
    rcases hcall x rfl with rfl | ⟨delay, now, rfl⟩
    · obtain ⟨htouch, hgone⟩ := touchesOnly_ack hh hn hstep
      exact ⟨htouch, fun r hr hmsg _ => absurd hmsg (hgone r hr)⟩
    · exact ⟨touchesOnly_nack hh hn hstep, fun _ _ _ _ => ⟨delay, now, rfl⟩⟩
  · have hsame : settleHistory e h dbErr call = some h := by
      cases dbErr <;> cases call <;> simp_all [settleHistory]
    obtain rfl := Option.some.inj (hsame.symm.trans hstep)
    constructor
    · exact ⟨hh, rfl, fun _ _ => rfl, rfl, fun r hr _ => hr⟩
    · intro r hr hmsg hfree
      exact absurd hfree (hh.locked_of_holder hn hr hmsg)

theorem SourceInv.settled (hs : SourceInv cons s) {claim : LeaseClaim} {k : ℕ}
    (hin : s.inFlight n = some (claim, k)) (ht : TouchesOnly s.history n h') {f g : ℕ}
    (hcount : ∀ r ∈ h'.table.rows, r.msg = n → r.lockedBy = none →
      f + g = s.failed n + s.skipped n + 1)
    {dead : List DeadLettered} (hdead : ∀ x ∈ dead, 1 ≤ x.failed ∧
      cons.policy.maxAttempts ≤ ((x.failed + x.skipped : ℕ) : ℤ)) :
    SourceInv cons ⟨h', Function.update s.inFlight n none, Function.update s.failed n f,
      Function.update s.skipped n g, dead⟩ := by
  obtain ⟨hholder, hk, hsum⟩ := hs.inFlight n claim k hin
  have hlt := hs.history.lt_arrived (MessageLog.mem_claims_of_holder hholder)
  constructor
  · exact ht.history
  · intro m d j hd
    by_cases hm : m = n
    · simp [hm] at hd
    · simp only [Function.update_of_ne hm] at hd ⊢
      rw [ht.logs m hm]
      exact hs.inFlight m d j hd
  · intro r hr hfree
    by_cases hm : r.msg = n
    · have hfg := hcount r hr hm hfree
      simp only [hm, Function.update_self, ht.claims]
      omega
    · simp only [Function.update_of_ne hm, ht.logs r.msg hm]
      exact hs.waiting r (ht.rows r hr hm) hfree
  · intro m hm
    have harrived : s.history.arrived ≤ m := ht.arrived ▸ hm
    have hmn : m ≠ n := by omega
    simp only [Function.update_of_ne hmn]
    exact hs.unborn m harrived
  · exact hdead

theorem settleCall_eq_some {claim : LeaseClaim} {x : LeaseCall}
    (h : settleCall n claim now es = some x) :
    x = .ack n claim ∨ ∃ delay now, x = .nack n claim delay now := by
  simp only [settleCall] at h
  split at h
  · exact Or.inl (Option.some.inj h).symm
  · obtain ⟨⟨requeue, delay⟩, -, rfl⟩ := Option.map_eq_some_iff.mp h
    exact Or.inr ⟨_, _, rfl⟩

theorem nackArgs_of_settleCall {claim : LeaseClaim} {at' : ℤ}
    (h : settleCall n claim now es = some (.nack n claim delay at')) :
    (es.findSome? nackArgs).isSome = true := by
  simp only [settleCall] at h
  split at h
  · simp at h
  · obtain ⟨args, hargs, -⟩ := Option.map_eq_some_iff.mp h
    simp [hargs]

theorem int_deliveredMessage (stored : Message P) (k : ℕ) :
    (deliveredMessage stored k).headers.int headerDeliveryCount = some (k : ℤ) :=
  Headers.int_withKey_self _ _ _

theorem SourceInv.work (hs : SourceInv cons s) {claim : LeaseClaim} {k : ℕ}
    (hin : s.inFlight n = some (claim, k)) (envelope : Message P) (env : Environment P T)
    (hstep : settleHistory e s.history dbErr (settleCall n claim now
      ((process cons ⟨n, deliveredMessage envelope k, true⟩).trace env)) = some h') :
    SourceInv cons (s.processed cons n
      ((process cons ⟨n, deliveredMessage envelope k, true⟩).trace env) h') := by
  let d : Delivery P := ⟨n, deliveredMessage envelope k, true⟩
  let es := (process cons d).trace env
  obtain ⟨hholder, -, hsum⟩ := hs.inFlight n claim k hin
  obtain ⟨htouch, hnacked⟩ :=
    touchesOnly_settle hs.history hholder (fun x hx => settleCall_eq_some hx) hstep
  apply hs.settled hin htouch
  · intro r hr hmsg hfree
    obtain ⟨delay, at', hcall⟩ := hnacked r hr hmsg hfree
    have hargs : (es.findSome? nackArgs).isSome = true := nackArgs_of_settleCall hcall
    change s.failed n + (es.any isTransientFailure).toNat + (s.skipped n +
      (!es.any isTransientFailure && (es.findSome? nackArgs).isSome).toNat) = _
    rw [hargs]
    cases es.any isTransientFailure <;> simp <;> omega
  · intro x hx
    split at hx
    · next hsent =>
        rcases List.mem_cons.mp hx with rfl | hold
        · simp only [Bool.and_eq_true, Option.any_eq_true] at hsent
          obtain ⟨hfail, sink, -, hsend⟩ := hsent
          have hex := process_exhausted_of_sent cons d env (int_deliveredMessage envelope k) hfail hsend
          simp only [exhausted, Bool.and_eq_true, decide_eq_true_eq] at hex
          dsimp only
          omega
        · exact hs.deadLettered x hold
    · exact hs.deadLettered x hx

theorem sourceInv_step {stored : ℕ → Option (Message P)} {l : SourceLabel P T} {s' : SourceState}
    (hs : SourceInv cons s) (hstep : sourceStep e cons stored s l = some s') :
    SourceInv cons s' := by
  cases l with
  | insert gap delay now =>
      simp only [sourceStep] at hstep
      obtain ⟨h', hlease, rfl⟩ := Option.map_eq_some_iff.mp hstep
      exact hs.insert hlease
  | poll limit w leaseTTL now locked tie =>
      simp only [sourceStep] at hstep
      split at hstep
      · next hfree =>
          obtain ⟨h', hlease, rfl⟩ := Option.map_eq_some_iff.mp hstep
          exact hs.poll (by simpa using hfree) hlease
      · simp at hstep
  | work n now dbErr answer =>
      simp only [sourceStep] at hstep
      split at hstep
      · next claim k envelope hin _ =>
          obtain ⟨h', hsettle, rfl⟩ := Option.map_eq_some_iff.mp hstep
          exact hs.work hin envelope _ hsettle
      · simp at hstep
  | giveBack n requeue delay now dbErr =>
      simp only [sourceStep] at hstep
      split at hstep
      · next claim k hin =>
          obtain ⟨h', hsettle, rfl⟩ := Option.map_eq_some_iff.mp hstep
          have hholder := (hs.inFlight n claim k hin).1
          obtain ⟨htouch, -⟩ := touchesOnly_settle hs.history hholder
            (fun x hx => Or.inr ⟨_, _, (Option.some.inj hx).symm⟩) hsettle
          have hgiven := hs.settled hin htouch (fun _ _ _ _ => (Nat.add_assoc _ _ 1).symm)
            hs.deadLettered
          rwa [Function.update_eq_self] at hgiven
      · simp at hstep

/-- In every run, a message that was dead-lettered as exhausted had failed transiently at
least once, and the deliveries that failed so and those that were given back for another
reason are together at least `MaxAttempts`. -/
theorem run_deadLettered (e : Engine) (c : Consumer P T) (stored : ℕ → Option (Message P))
    (ls : List (SourceLabel P T)) (s : SourceState)
    (hrun : run (sourceStep e c stored) .initial ls = some s) :
    ∀ x ∈ s.deadLettered, 1 ≤ x.failed ∧
      c.policy.maxAttempts ≤ ((x.failed + x.skipped : ℕ) : ℤ) := by
  have hinv : SourceInv c s :=
    run_invariant _ (fun _ _ _ hs hstep => sourceInv_step hs hstep) (sourceInv_initial c) hrun
  exact hinv.deadLettered

def guardedConsumer : Consumer Unit Unit :=
  { pairConsumer with policy := ⟨2, none, some 0⟩, breaker := true }

def openBreaker : (q : Call Unit Unit) → q.Answer
  | .allow => .returned false
  | q => q.calm

def deliveredTwice (first second : (q : Call Unit Unit) → q.Answer) : List (SourceLabel Unit Unit) :=
  [.insert 0 0 0, .poll 1 "w" 60 0 [] id, .work 0 1 none first, .poll 1 "w" 60 2 [] id,
    .work 0 3 none second]

theorem run_deadLettered_deliveredTwice :
    ∃ s, run (sourceStep .postgres guardedConsumer fun _ => some blankMessage) .initial
        (deliveredTwice failingHandler failingHandler) = some s ∧
      s.deadLettered = [⟨0, 2, 0⟩] ∧ ∀ x ∈ s.deadLettered, 2 ≤ x.failed + x.skipped := by
  obtain ⟨s, hrun, hdead⟩ : ∃ s, run
      (sourceStep .postgres guardedConsumer fun _ => some blankMessage) .initial
        (deliveredTwice failingHandler failingHandler) = some s ∧
      s.deadLettered = [⟨0, 2, 0⟩] := ⟨_, rfl, rfl⟩
  refine ⟨s, hrun, hdead, ?_⟩
  intro x hx
  have hle := (run_deadLettered .postgres guardedConsumer _ _ s hrun x hx).2
  exact Int.ofNat_le.mp hle

/-- The breaker denied the first delivery, so with two attempts the message is
dead-lettered after one failure of the handler. -/
theorem deadLettered_after_one_failure :
    ∃ s, run (sourceStep .postgres guardedConsumer fun _ => some blankMessage) .initial
        (deliveredTwice openBreaker failingHandler) = some s ∧
      guardedConsumer.policy.maxAttempts = 2 ∧ s.deadLettered = [⟨0, 1, 1⟩] :=
  ⟨_, rfl, rfl, rfl⟩

end Msgin.Sql
