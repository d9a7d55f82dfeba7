import Msgin.LeaseHistory

/-!
# What a queue table and its history agree on

Each call is shown to keep `HistoryOf`. For `Ack` and `Nack` the argument needs that the
rows the fence selects are rows of the message the claim was taken on; `NoTwin` is that
condition, in terms of the history alone.
-/

namespace Msgin.Sql

open TableRows

variable {e : Engine} {h : LeaseHistory} {n : ℕ} {c : LeaseClaim}

/-- No lease of another message bears the triple of this claim. -/
def NoTwin (e : Engine) (h : LeaseHistory) (n : ℕ) (c : LeaseClaim) : Prop :=
  ∀ m d, (h.logs m).holder = some d → d.id = c.id →
    e.collation.eq d.lockedBy c.lockedBy = true → d.epoch = c.epoch → m = n

namespace HistoryOf

variable {r : LeaseRow ℕ} {logs : ℕ → MessageLog} (hh : HistoryOf h)

include hh

theorem eq_of_id {q : LeaseRow ℕ} (hr : r ∈ h.table.rows) (hq : q ∈ h.table.rows)
    (hid : r.id = q.id) : r = q :=
  List.inj_on_of_nodup_map hh.ids hr hq hid

theorem eq_of_msg {q : LeaseRow ℕ} (hr : r ∈ h.table.rows) (hq : q ∈ h.table.rows)
    (hmsg : r.msg = q.msg) : r = q :=
  List.inj_on_of_nodup_map hh.messages hr hq hmsg

theorem lt_arrived (hc : c ∈ (h.logs n).claims) : n < h.arrived := by
  by_contra hge
  simp [hh.unborn n (Nat.le_of_not_lt hge), MessageLog.empty] at hc

theorem row_of_holder (hn : (h.logs n).holder = some c) :
    ∃ r ∈ h.table.rows, r.msg = n ∧ r.id = c.id ∧ r.lockedBy = some c.lockedBy ∧
      r.leaseEpoch = c.epoch := by
  obtain ⟨hlatest, hack, -⟩ := MessageLog.holder_eq_some.mp hn
  have hmem := MessageLog.mem_claims_of_holder hn
  rcases hh.kept n (hh.lt_arrived hmem) with ⟨r, hr, rfl⟩ | ⟨d, hd, hdack⟩
  · have hlog := hh.logged r hr
    have hnum := hh.numbered r.msg
    have hby : r.lockedBy = some c.lockedBy := by simp [hlog.lockedBy, hn]
    have hepoch : r.leaseEpoch = c.epoch := by
      rw [hlog.leaseEpoch]
      cases hcs : (h.logs r.msg).claims with
      | nil => simp [hcs] at hmem
      | cons d cs =>
          obtain rfl : d = c := by simpa [MessageLog.latest, hcs] using hlatest
          rw [hcs] at hnum
          simp [hnum.1]
    exact ⟨r, hr, rfl, (hlog.ids c hmem).symm, hby, hepoch⟩
  · obtain rfl : d = c := by simpa [hd] using hlatest
    exact absurd hdack hack

theorem holder_of_fenced (hc : c ∈ (h.logs n).claims) (htwin : NoTwin e h n c)
    (hr : r ∈ h.table.rows) (hf : r.fenced e c.id c.lockedBy c.epoch = true) :
    r.msg = n ∧ (h.logs n).holder = some c := by
  simp only [LeaseRow.fenced, Bool.and_eq_true, beq_iff_eq, Option.any_eq_true] at hf
  obtain ⟨⟨hid, w, hw, heq⟩, hepoch⟩ := hf
  have hlog := hh.logged r hr
  obtain ⟨d, hd, rfl⟩ : ∃ d, (h.logs r.msg).holder = some d ∧ d.lockedBy = w := by
    simpa [hlog.lockedBy] using hw
  obtain ⟨q, hq, hqmsg, hqid, -, hqepoch⟩ := hh.row_of_holder hd
  obtain rfl : q = r := hh.eq_of_msg hq hr hqmsg
  have hdepoch : d.epoch = c.epoch := hqepoch.symm.trans hepoch
  have hmsg : q.msg = n := htwin q.msg d hd (hqid.symm.trans hid) heq hdepoch
  subst hmsg
  have hlatest := (MessageLog.holder_eq_some.mp hd).1
  have hcd : c = d := (hh.numbered q.msg).eq_of_latest hlatest hc hdepoch
  rw [hcd]
  exact ⟨rfl, hd⟩

theorem fenced_of_holder (hr : r ∈ h.table.rows) (hn : (h.logs r.msg).holder = some c) :
    r.fenced e c.id c.lockedBy c.epoch = true := by
  obtain ⟨q, hq, hqmsg, hqid, hqby, hqepoch⟩ := hh.row_of_holder hn
  obtain rfl : q = r := hh.eq_of_msg hq hr hqmsg
  simp [LeaseRow.fenced, hqid, hqby, hqepoch, e.collation.refl]

/-- A call is applied exactly when its claim is the latest one and was not settled. -/
theorem affected_pos_iff (hc : c ∈ (h.logs n).claims) (htwin : NoTwin e h n c) :
    0 < affected (LeaseRow.fenced e c.id c.lockedBy c.epoch) h.table.rows ↔
      (h.logs n).holder = some c := by
  rw [affected_pos]
  constructor
  · rintro ⟨r, hr, hf⟩
    exact (hh.holder_of_fenced hc htwin hr hf).2
  · intro hn
    obtain ⟨r, hr, rfl, -⟩ := hh.row_of_holder hn
    exact ⟨r, hr, hh.fenced_of_holder hr hn⟩

theorem fenced_iff (hc : c ∈ (h.logs n).claims) (htwin : NoTwin e h n c)
    (hn : (h.logs n).holder = some c) (hr : r ∈ h.table.rows) :
    r.fenced e c.id c.lockedBy c.epoch = true ↔ r.msg = n := by
  constructor
  · intro hf
    exact (hh.holder_of_fenced hc htwin hr hf).1
  · rintro rfl
    exact hh.fenced_of_holder hr hn

theorem not_fenced (hc : c ∈ (h.logs n).claims) (htwin : NoTwin e h n c)
    (hn : (h.logs n).holder ≠ some c) :
    ∀ r ∈ h.table.rows, r.fenced e c.id c.lockedBy c.epoch = false := by
  intro r hr
  by_contra hf
  exact hn (hh.holder_of_fenced hc htwin hr (by simpa using hf)).2

theorem insert (gap : ℕ) (delay now : ℤ) :
    HistoryOf { h with
      table := insert e gap h.arrived delay now h.table, arrived := h.arrived + 1 } where
  ids := by
    have hnew : ∀ r ∈ h.table.rows, r.id ≠ h.table.nextID e gap := fun r hr heq =>
      nextID_notMem hh.lastID (List.mem_map.mpr ⟨r, hr, heq⟩)
    simpa [Sql.insert, List.nodup_append, hh.ids] using hnew
  messages := by
    have hnew : ∀ r ∈ h.table.rows, r.msg ≠ h.arrived :=
      fun r hr => Nat.ne_of_lt (hh.arrived r hr)
    simpa [Sql.insert, List.nodup_append, hh.messages] using hnew
  lastID := by
    intro r hr
    rcases List.mem_append.mp hr with hold | hnew
    · exact Nat.le_trans (hh.lastID r hold) (Nat.le_max_left _ _)
    · obtain rfl := List.mem_singleton.mp hnew
      exact Nat.le_max_right _ _
  arrived := by
    intro r hr
    rcases List.mem_append.mp hr with hold | hnew
    · exact Nat.lt_succ_of_lt (hh.arrived r hold)
    · obtain rfl := List.mem_singleton.mp hnew
      exact Nat.lt_succ_self _
  logged := by
    intro r hr
    rcases List.mem_append.mp hr with hold | hnew
    · exact hh.logged r hold
    · obtain rfl := List.mem_singleton.mp hnew
      have hlog : h.logs h.arrived = .empty := hh.unborn _ (Nat.le_refl _)
      constructor <;> simp [hlog, MessageLog.empty, MessageLog.holder, MessageLog.latest]
  kept := by
    intro m hm
    rcases Nat.lt_succ_iff_lt_or_eq.mp hm with hlt | rfl
    · rcases hh.kept m hlt with ⟨r, hr, hmsg⟩ | hgone
      · exact Or.inl ⟨r, List.mem_append_left _ hr, hmsg⟩
      · exact Or.inr hgone
    · exact Or.inl ⟨_, List.mem_append_right _ (List.mem_singleton.mpr rfl), rfl⟩
  unborn m hm := hh.unborn m (Nat.le_of_succ_le hm)
  numbered := hh.numbered
  known := hh.known

theorem known_settled (hc : c ∈ (h.logs n).claims)
    (hclaims : ∀ m, (logs m).claims = (h.logs m).claims) (hother : ∀ m, m ≠ n → logs m = h.logs m)
    (hself : ∀ d, d ∈ (logs n).acked ∨ d ∈ (logs n).nacked →
      d = c ∨ d ∈ (h.logs n).acked ∨ d ∈ (h.logs n).nacked) (m : ℕ) (d : LeaseClaim)
    (hd : d ∈ (logs m).acked ∨ d ∈ (logs m).nacked) : d ∈ (logs m).claims := by
  rw [hclaims]
  by_cases hmn : m = n
  · subst hmn
    rcases hself d hd with rfl | hold
    · exact hc
    · exact hh.known m d hold
  · rw [hother m hmn] at hd
    exact hh.known m d hd

theorem mem_rows_ack (hc : c ∈ (h.logs n).claims) (htwin : NoTwin e h n c)
    (hn : (h.logs n).holder = some c) :
    r ∈ (ack e c.id c.lockedBy c.epoch h.table).2.rows ↔ r ∈ h.table.rows ∧ r.msg ≠ n := by
  refine mem_deleteWhere.trans (and_congr_right fun hr => ?_)
  rw [← Bool.not_eq_true, hh.fenced_iff hc htwin hn hr]

theorem ackHolder (hc : c ∈ (h.logs n).claims) (htwin : NoTwin e h n c)
    (hn : (h.logs n).holder = some c) :
    HistoryOf { h with
      table := (ack e c.id c.lockedBy c.epoch h.table).2
      logs := recordAck true n c h.logs } := by
  have hrows {r : LeaseRow ℕ} := hh.mem_rows_ack (r := r) hc htwin hn
  have hsub : (ack e c.id c.lockedBy c.epoch h.table).2.rows.Sublist h.table.rows :=
    List.filter_sublist
  have hother : ∀ m, m ≠ n → recordAck true n c h.logs m = h.logs m :=
    fun m hm => recordAck_of_ne hm c h.logs
  constructor
  · exact hh.ids.sublist (hsub.map _)
  · exact hh.messages.sublist (hsub.map _)
  · intro r hr
    exact hh.lastID r (hrows.mp hr).1
  · intro r hr
    exact hh.arrived r (hrows.mp hr).1
  · intro r hr
    obtain ⟨hold, hmsg⟩ := hrows.mp hr
    simp only [hother r.msg hmsg]
    exact hh.logged r hold
  · intro m hm
    by_cases hmn : m = n
    · subst hmn
      refine Or.inr ⟨c, ?_, ?_⟩
      · simpa [MessageLog.latest] using (MessageLog.holder_eq_some.mp hn).1
      · simp [recordAck_self]
    · simp only [hother m hmn]
      rcases hh.kept m hm with ⟨r, hr, rfl⟩ | hgone
      · exact Or.inl ⟨r, hrows.mpr ⟨hr, hmn⟩, rfl⟩
      · exact Or.inr hgone
  · intro m hm
    have hmn : m ≠ n := by
      rintro rfl
      simp [hh.unborn m hm, MessageLog.empty] at hc
    simp only [hother m hmn]
    exact hh.unborn m hm
  · intro m
    rw [recordAck_claims]
    exact hh.numbered m
  · refine hh.known_settled hc (fun m => recordAck_claims true n m c h.logs) hother ?_
    intro d hd
    simpa [recordAck_self, or_assoc] using hd

theorem mapRows {f : LeaseRow ℕ → LeaseRow ℕ} (hid : ∀ r, (f r).id = r.id)
    (hmsg : ∀ r, (f r).msg = r.msg) (hlogged : ∀ r ∈ h.table.rows, RowLogged (f r) (logs r.msg))
    (hnone : ∀ m, (∀ r ∈ h.table.rows, r.msg ≠ m) → logs m = h.logs m)
    (hnumbered : ∀ m, Numbered (logs m).claims)
    (hknown : ∀ m d, d ∈ (logs m).acked ∨ d ∈ (logs m).nacked → d ∈ (logs m).claims) :
    HistoryOf ⟨⟨h.table.rows.map f, h.table.lastID⟩, h.arrived, logs⟩ where
  ids := by
    have hcomp : LeaseRow.id ∘ f = LeaseRow.id := funext hid
    rw [List.map_map, hcomp]
    exact hh.ids
  messages := by
    have hcomp : LeaseRow.msg ∘ f = LeaseRow.msg := funext hmsg
    rw [List.map_map, hcomp]
    exact hh.messages
  lastID := by
    intro r hr
    obtain ⟨q, hq, rfl⟩ := List.mem_map.mp hr
    rw [hid]
    exact hh.lastID q hq
  arrived := by
    intro r hr
    obtain ⟨q, hq, rfl⟩ := List.mem_map.mp hr
    rw [hmsg]
    exact hh.arrived q hq
  logged := by
    intro r hr
    obtain ⟨q, hq, rfl⟩ := List.mem_map.mp hr
    rw [hmsg]
    exact hlogged q hq
  kept := by
    intro m hm
    by_cases hrow : ∃ r ∈ h.table.rows, r.msg = m
    · obtain ⟨r, hr, rfl⟩ := hrow
      exact Or.inl ⟨f r, List.mem_map_of_mem hr, hmsg r⟩
    · have hsame : logs m = h.logs m := hnone m fun r hr heq => hrow ⟨r, hr, heq⟩
      have hgone := (hh.kept m hm).resolve_left hrow
      rw [← hsame] at hgone
      exact Or.inr hgone
  unborn := by
    intro m hm
    have hsame : logs m = h.logs m := hnone m fun r hr =>
      Nat.ne_of_lt (Nat.lt_of_lt_of_le (hh.arrived r hr) hm)
    exact hsame.trans (hh.unborn m hm)
  numbered := hnumbered
  known := hknown

theorem nackHolder (hc : c ∈ (h.logs n).claims) (htwin : NoTwin e h n c)
    (hn : (h.logs n).holder = some c) (delay now : ℤ) :
    HistoryOf { h with
      table := (nack e c.id c.lockedBy c.epoch delay now h.table).2
      logs := recordNack true n c h.logs } := by
  have hother : ∀ m, m ≠ n → recordNack true n c h.logs m = h.logs m :=
    fun m hm => recordNack_of_ne hm c h.logs
  have hfree : (recordNack true n c h.logs n).holder = none := by
    have hlatest := (MessageLog.holder_eq_some.mp hn).1
    simp only [MessageLog.latest] at hlatest
    simp [MessageLog.holder, MessageLog.latest, recordNack_self, hlatest]
  apply hh.mapRows
  · intro r
    split <;> rfl
  · intro r
    split <;> rfl
  · intro r hr
    have hlog := hh.logged r hr
    by_cases hmsg : r.msg = n
    · subst hmsg
      rw [if_pos ((hh.fenced_iff hc htwin hn hr).mpr rfl)]
      constructor
      · rw [recordNack_claims]
        exact hlog.deliveryCount
      · rw [recordNack_claims]
        exact hlog.leaseEpoch
      · rw [recordNack_claims]
        exact hlog.ids
      · rw [hfree]
        rfl
      · rw [hfree]
        rfl
      · rw [recordNack_self]
        exact hlog.notAcked
    · rw [if_neg (mt (hh.fenced_iff hc htwin hn hr).mp hmsg), hother r.msg hmsg]
      exact hlog
  · intro m hm
    obtain ⟨r, hr, hrmsg, -⟩ := hh.row_of_holder hn
    apply hother
    rintro rfl
    exact hm r hr hrmsg
  · intro m
    rw [recordNack_claims]
    exact hh.numbered m
  · refine hh.known_settled hc (fun m => recordNack_claims true n m c h.logs) hother ?_
    intro d hd
    simpa [recordNack_self, or_left_comm] using hd

theorem claim (limit : ℕ) (w : String) (leaseTTL now : ℤ) (locked : List ℕ) (tie : ℕ → ℕ) :
    HistoryOf { h with
      table := (claim e limit w leaseTTL now locked tie h.table).2
      logs := recordClaims w now (claim e limit w leaseTTL now locked tie h.table).1 h.logs } := by
  let selected := selectClaimable e limit leaseTTL now locked tie h.table.rows
  have hsel : ∀ r ∈ selected, r ∈ h.table.rows := fun r hr => (mem_selectClaimable hr).1
  have hrec := recordClaims_eq selected w now h.logs
  apply hh.mapRows (f := fun r =>
    if (selected.map LeaseRow.id).contains r.id then r.lease w now else r)
  · intro r
    split <;> rfl
  · intro r
    split <;> rfl
  · intro r hr
    have hlog := hh.logged r hr
    rcases hrec r.msg with ⟨hnone, hsame⟩ | ⟨q, hq, hqmsg, hpush⟩
    · have hnot : ¬ (selected.map LeaseRow.id).contains r.id = true := by
        intro hmem
        simp only [List.contains_iff_mem, List.mem_map] at hmem
        obtain ⟨q, hq, hqid⟩ := hmem
        exact hnone q hq (congrArg LeaseRow.msg (hh.eq_of_id (hsel q hq) hr hqid))
      rw [if_neg hnot]
      exact hsame.symm ▸ hlog
    · obtain rfl : q = r := hh.eq_of_msg (hsel q hq) hr hqmsg
      have hin : (selected.map LeaseRow.id).contains q.id = true := by
        simp only [List.contains_iff_mem]
        exact List.mem_map_of_mem hq
      rw [if_pos hin]
      exact hpush.symm ▸ hlog.lease w now (hh.numbered q.msg) fun d hd =>
        hh.known q.msg d (Or.inr hd)
  · intro m hm
    rcases hrec m with ⟨-, hsame⟩ | ⟨q, hq, hqmsg, -⟩
    · exact hsame
    · exact absurd hqmsg (hm q (hsel q hq))
  · intro m
    have hnum := hh.numbered m
    rcases hrec m with ⟨-, hsame⟩ | ⟨q, hq, rfl, hpush⟩
    · exact hsame.symm ▸ hnum
    · have hepoch := (hh.logged q (hsel q hq)).leaseEpoch
      exact hpush.symm ▸ ⟨congrArg (· + 1) hepoch, hnum⟩
  · intro m d hd
    rcases hrec m with ⟨-, hsame⟩ | ⟨q, -, -, hpush⟩
    · have hsame' : recordClaims w now
          (Sql.claim e limit w leaseTTL now locked tie h.table).1 h.logs m = h.logs m := hsame
      rw [hsame'] at hd ⊢
      exact hh.known m d hd
    · have hpush' : recordClaims w now
          (Sql.claim e limit w leaseTTL now locked tie h.table).1 h.logs m = _ := hpush
      rw [hpush'] at hd ⊢
      exact List.mem_cons_of_mem _ (hh.known m d hd)

end HistoryOf

/-- The claim a call is made with is not mistaken for one of another message. -/
def CallNoTwin (e : Engine) (h : LeaseHistory) : LeaseCall → LeaseHistory → Prop
  | .ack n c, _ | .nack n c _ _, _ => NoTwin e h n c
  | _, _ => True

theorem historyOf_step {h' : LeaseHistory} {call : LeaseCall} (hh : HistoryOf h)
    (hstep : leaseStep e h call = some h') (htwin : CallNoTwin e h call h') : HistoryOf h' := by
  cases call with
  | insert gap delay now =>
      simp only [leaseStep, Option.some.injEq] at hstep
      subst hstep
      exact hh.insert gap delay now
  | claim limit w leaseTTL now locked tie =>
      simp only [leaseStep, Option.some.injEq] at hstep
      subst hstep
      exact hh.claim limit w leaseTTL now locked tie
  | ack n c =>
      simp only [leaseStep] at hstep
      split at hstep
      · next hc =>
          simp only [Option.some.injEq] at hstep
          subst hstep
          by_cases hn : (h.logs n).holder = some c
          · have hpos := (hh.affected_pos_iff hc htwin).mpr hn
            simpa [ack, hpos] using hh.ackHolder hc htwin hn
          · have hnone := hh.not_fenced hc htwin hn
            have hzero := affected_eq_zero.mpr hnone
            simpa [ack, hzero, deleteWhere_eq_self hnone, recordAck] using hh
      · simp at hstep
  | nack n c delay now =>
      simp only [leaseStep] at hstep
      split at hstep
      · next hc =>
          simp only [Option.some.injEq] at hstep
          subst hstep
          by_cases hn : (h.logs n).holder = some c
          · have hpos := (hh.affected_pos_iff hc htwin).mpr hn
            simpa [nack, hpos] using hh.nackHolder hc htwin hn delay now
          · have hnone := hh.not_fenced hc htwin hn
            have hzero := affected_eq_zero.mpr hnone
            simpa [nack, hzero, updateWhere_eq_self hnone, recordNack] using hh
      · simp at hstep

end Msgin.Sql
