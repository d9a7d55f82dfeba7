import Msgin.ElectorCalls

/-!
# One leader at a time

A lease keeps the calls of other holders from returning true until it expires, as far as the engine
tells the holders apart and stores them: `holder` is a text column, MySQL compares it by the
collation of the table, which the schema leaves to the server, and `INSERT IGNORE` cuts an id that
is too long for it.
-/

namespace Msgin.Cron

open Interaction Prog TransitionRuns KeyedMaps
open Msgin.Sql (Engine Execution Collation microseconds)

variable {e : Engine} {scope : String} {ttl : String → LeaseTTL} {ids : Set String}

def Distinguished (e : Engine) (ids : Set String) : Prop :=
  ∀ a ∈ ids, ∀ b ∈ ids, e.collation.eq a b = true → a = b

def RowInv (ttl : String → LeaseTTL) (ids : Set String) (s : Election) : Prop :=
  ∀ l ∈ s.row, l.holder ∈ ids ∧ l.expiresAt ≤ s.now + microseconds (ttl l.holder)

theorem rowInv_new (ids : Set String) (now : ℤ) : RowInv ttl ids (.new now) := by
  intro l hl
  cases hl

variable {holder : String} {s t : Election}

theorem RowInv.step {l : ElectionLabel} (h : RowInv ttl ids s) (huncut : Uncut e ids)
    (hmade : s.MadeBy ids) (hstep : ElectionStep e scope ttl s l t) : RowInv ttl ids t := by
  cases hstep with
  | tick d =>
      intro lease hlease
      obtain ⟨hmem, hle⟩ := h lease hlease
      exact ⟨hmem, by show _ ≤ s.now + d + _; omega⟩
  | start w fresh => exact h
  | @statement c o w q k r row running answer =>
      have hw : w ∈ ids := hmade c w ⟨_, running⟩
      intro lease hlease
      rcases Statement.answer_row (huncut.storedID hw) answer with rfl | ⟨rfl, -⟩
      · exact h lease hlease
      · obtain rfl := Option.some.inj hlease
        exact ⟨hw, Int.le_refl _⟩
  | finish running => exact h

/-- Up to the time `E` the holder has a lease that lasts at least until then. -/
structure LeasedUntil (ttl : String → LeaseTTL) (holder : String) (E : ℤ) (s : Election) :
    Prop where
  bounded : E ≤ s.now + microseconds (ttl holder)
  leased : s.now ≤ E → ∃ x, s.row = some ⟨holder, x⟩ ∧ E ≤ x

theorem RowInv.leasedUntil (h : RowInv ttl ids s) {E : ℤ} (hrow : s.row = some ⟨holder, E⟩) :
    LeasedUntil ttl holder E s where
  bounded := (h _ hrow).2
  leased _ := ⟨E, hrow, Int.le_refl E⟩

theorem LeasedUntil.step (hids : Distinguished e ids) (huncut : Uncut e ids) {l : ElectionLabel}
    {E : ℤ} (hmade : s.MadeBy ids) (hrow : RowInv ttl ids s) (h : LeasedUntil ttl holder E s)
    (hstep : ElectionStep e scope ttl s l t) : LeasedUntil ttl holder E t := by
  cases hstep with
  | tick d =>
      have hbounded := h.bounded
      refine ⟨by show _ ≤ s.now + d + _; omega, fun hle => h.leased ?_⟩
      have hle' : s.now + d ≤ E := hle
      omega
  | start w fresh => exact ⟨h.bounded, h.leased⟩
  | @statement c o w q k r row running answer =>
      refine ⟨h.bounded, fun hle => ?_⟩
      obtain ⟨x, hx, hE⟩ := h.leased hle
      have hw : w ∈ ids := hmade c w ⟨_, running⟩
      rcases Statement.answer_row (huncut.storedID hw) answer with hkept | ⟨hnew, hfree⟩
      · exact ⟨x, hkept.trans hx, hE⟩
      · rw [hx, Option.all_some, Lease.free, Bool.or_eq_true] at hfree
        have hle' : s.now ≤ E := hle
        have hvalid : ¬Lease.expired s.now ⟨holder, x⟩ = true := by
          simp only [Lease.expired, decide_eq_true_eq]
          omega
        have hself : holder = w := hids holder (hrow _ hx).1 w hw (hfree.resolve_right hvalid)
        subst hself
        exact ⟨_, hnew, h.bounded⟩
  | finish running => exact ⟨h.bounded, h.leased⟩

theorem grants_of_look {m m' : Look} {q : Statement} {r : q.Answer}
    (h : look holder m q r = some m') (hg : m'.granted = true) : q.grants holder r = true := by
  cases q with
  | upsert => obtain rfl := Option.some.inj h; exact hg
  | update => obtain rfl := Option.some.inj h; exact hg
  | insertIgnore => obtain rfl := Option.some.inj h; exact hg
  | selectLease =>
      rcases r with err | (_ | ⟨w, expired⟩)
      · obtain rfl := Option.some.inj h; exact hg
      · obtain rfl := Option.some.inj h; cases hg
      · obtain rfl := Option.some.inj h; exact hg
  | selectHolder =>
      by_cases hm : m.absent = true
      · obtain rfl := Option.some.inj ((if_pos hm).symm.trans h); exact hg
      · exact absurd ((if_neg hm).symm.trans h) (by simp)

def Decides (c : ℕ) (t : Election) : Prop :=
  ∃ holder, t.calls c = some (.running holder (.ret (.ok true)))

theorem row_of_decides {past : List Election} {c : ℕ} {o : Execution} (hinv : CallInv past s)
    (hstep : s.step e scope ttl (.statement c o) = some t) (hstored : e.storedID holder = holder)
    (hrun : s.Running c holder) (hdecides : Decides c t) :
    t.now = s.now ∧ ∃ x, t.row = some ⟨holder, x⟩ := by
  obtain ⟨p, hp⟩ := hrun
  obtain ⟨w, hw⟩ := hdecides
  cases electionStep_of_step hstep with
  | @statement _ _ w' q k r row running answer =>
      obtain ⟨rfl, rfl⟩ := Call.running.inj (Option.some.inj (hp.symm.trans running))
      obtain ⟨m, hmeets, -⟩ := hinv.running c holder _ running
      obtain ⟨m', hlook, hrest⟩ := hmeets r
      rcases update_eq_some.mp hw with ⟨-, hcall⟩ | ⟨hne, -⟩
      · obtain ⟨-, hk⟩ := Call.running.inj hcall
        rw [← hk] at hrest
        obtain ⟨x, hx, -⟩ := Statement.answer_grants hstored answer (grants_of_look hlook (hrest rfl))
        exact ⟨rfl, x, hx⟩
      · exact absurd rfl hne

/-- A call returns true only if its holder had a valid lease at some instant of the call. -/
def LeadsDuringCall (e : Engine) (scope : String) (ttl : String → LeaseTTL) (ids : Set String) :
    Prop :=
  ∀ now ls s, (∀ l ∈ ls, ElectionLabel.madeBy ids l) →
    run (Election.step e scope ttl) (.new now) ls = some s →
    ∀ c holder, s.calls c = some (.returned holder (.ok true)) →
      ∃ u ∈ instants e scope ttl (.new now) ls, u.Running c holder ∧ u.Leads holder

/-- Once the row had a holder with expiry `E`, no statement at a time up to `E` decides that a call
of another holder returns true. -/
def LeaseExcludes (e : Engine) (scope : String) (ttl : String → LeaseTTL) (ids : Set String) :
    Prop :=
  ∀ now ls s, (∀ l ∈ ls, ElectionLabel.madeBy ids l) →
    run (Election.step e scope ttl) (.new now) ls = some s →
    ∀ holder E, s.row = some ⟨holder, E⟩ →
      ∀ ls' t, (∀ l ∈ ls', ElectionLabel.madeBy ids l) →
        run (Election.step e scope ttl) s ls' = some t → t.now ≤ E →
        ∀ c o u other, t.Running c other → other ≠ holder →
          t.step e scope ttl (.statement c o) = some u → ¬Decides c u

theorem leadsDuringCall (huncut : Uncut e ids) : LeadsDuringCall e scope ttl ids :=
  fun _ _ _ hl hr c holder h => (callInv_run huncut hl hr).2.returned c holder h

theorem rowInv_run (huncut : Uncut e ids) {now : ℤ} {ls : List ElectionLabel}
    (hl : ∀ l ∈ ls, ElectionLabel.madeBy ids l)
    (hr : run (Election.step e scope ttl) (.new now) ls = some s) :
    s.MadeBy ids ∧ RowInv ttl ids s :=
  run_invariant_of_along (Election.step e scope ttl)
    (I := fun s => s.MadeBy ids ∧ RowInv ttl ids s)
    (fun _ _ _ h hstep hl => ⟨h.1.step hl (electionStep_of_step hstep),
      h.2.step huncut h.1 (electionStep_of_step hstep)⟩) ⟨madeBy_new ids now, rowInv_new ids now⟩
    (along_of_forall (Election.step e scope ttl) hl) hr

theorem leaseExcludes_of_distinguished (hids : Distinguished e ids) (huncut : Uncut e ids) :
    LeaseExcludes e scope ttl ids := by
  intro now ls s hl hr holder E hrow ls' t hl' hr' hnow c o u other hrun hne hstep hdecides
  obtain ⟨hmade, hs⟩ := rowInv_run huncut hl hr
  obtain ⟨hmade', hrow', hleased⟩ :
      t.MadeBy ids ∧ RowInv ttl ids t ∧ LeasedUntil ttl holder E t :=
    run_invariant_of_along (Election.step e scope ttl)
      (I := fun s => s.MadeBy ids ∧ RowInv ttl ids s ∧ LeasedUntil ttl holder E s)
      (fun _ _ _ h hstep hl => ⟨h.1.step hl (electionStep_of_step hstep),
        h.2.1.step huncut h.1 (electionStep_of_step hstep),
        h.2.2.step hids huncut h.1 h.2.1 (electionStep_of_step hstep)⟩)
      ⟨hmade, hs, hs.leasedUntil hrow⟩ (along_of_forall (Election.step e scope ttl) hl') hr'
  have hlabels : ∀ l ∈ ls ++ ls', ElectionLabel.madeBy ids l := fun l hmem =>
    (List.mem_append.mp hmem).elim (hl l) (hl' l)
  obtain ⟨-, hcalls⟩ : t.MadeBy ids ∧ CallInv (instants e scope ttl (.new now) (ls ++ ls')) t :=
    callInv_run huncut hlabels (by rw [run_append, hr]; exact hr')
  obtain ⟨hsame, x, hx⟩ :=
    row_of_decides hcalls hstep (huncut.storedID (hmade' c other hrun)) hrun hdecides
  obtain ⟨y, hy, -⟩ :=
    (hleased.step hids huncut hmade' hrow' (electionStep_of_step hstep)).leased
      (by rw [hsame]; exact hnow)
  exact hne (congrArg Lease.holder (Option.some.inj (hx.symm.trans hy)))

/-- The insert of the first call stores the cut id, and the call returns true. -/
theorem uncut_of_leadsDuringCall (h : LeadsDuringCall e scope ttl ids) : Uncut e ids := by
  rintro c rfl a ha
  have hl : ∀ l ∈ [ElectionLabel.start 0 a, .statement 0 .done, .statement 0 .done,
      .statement 0 .done, .finish 0], ElectionLabel.madeBy ids l := by
    simp [ElectionLabel.madeBy, ha]
  obtain ⟨u, hu, -, x, hx, -⟩ := h 0 _ _ hl rfl 0 a rfl
  have hrows : (instants (.mysql c) scope ttl (.new 0) [ElectionLabel.start 0 a,
      .statement 0 .done, .statement 0 .done, .statement 0 .done, .finish 0]).map Election.row =
        [none, none, none, none, some (newLease ((Engine.mysql c).storedID a) (ttl a) 0)] := rfl
  have hmem : u.row ∈ [none, none, none, none,
      some (newLease ((Engine.mysql c).storedID a) (ttl a) 0)] := by
    rw [← hrows]
    exact List.mem_map_of_mem hu
  rw [hx] at hmem
  simp only [List.mem_cons, reduceCtorEq, List.not_mem_nil, or_false, false_or,
    Option.some.injEq] at hmem
  exact Engine.fits_mysql_of_storedID (congrArg Lease.holder hmem).symm

theorem exec_update_twin {d : LeaseTTL} {now : ℤ} {l : Lease} (hfits : e.fits holder = true)
    (heq : e.collation.eq l.holder holder = true) (hne : l.holder ≠ holder) :
    Statement.exec e holder d now (some l) .update =
      (.ok (1 : ℕ), some (newLease holder d now)) := by
  have hfree : l.free e holder now = true := by rw [Lease.free, heq, Bool.true_or]
  have hnew : l ≠ newLease holder d now := fun h => hne (congrArg Lease.holder h)
  simp only [Statement.exec, if_pos hfree, if_pos hfits, if_neg hnew]

theorem step_update_twin {c : ℕ} {l : Lease} {k : Statement.update.Answer → ElectorProg}
    (hrun : s.calls c = some (.running holder (.ask .update k))) (hrow : s.row = some l)
    (hfits : e.fits holder = true) (heq : e.collation.eq l.holder holder = true)
    (hne : l.holder ≠ holder) :
    s.step e scope ttl (.statement c .done) =
      some ⟨some (newLease holder (ttl holder) s.now), s.now,
        Function.update s.calls c (some (.running holder (k (.ok (1 : ℕ)))))⟩ := by
  simp only [Election.step, hrun, Statement.answer, hrow, exec_update_twin hfits heq hne, Option.map_some]

theorem distinguished_of_leaseExcludes (huncut : Uncut e ids) (h : LeaseExcludes e scope ttl ids) :
    Distinguished e ids := by
  intro a ha b hb heq
  cases e with
  | postgres => exact eq_of_beq heq
  | sqlite => exact eq_of_beq heq
  | mysql c =>
      by_contra hne
      have hl : ∀ l ∈ [ElectionLabel.start 0 a, .statement 0 .done, .statement 0 .done,
          .statement 0 .done], ElectionLabel.madeBy ids l := by
        simp [ElectionLabel.madeBy, ha]
      have hl' : ∀ l ∈ [ElectionLabel.start 1 b], ElectionLabel.madeBy ids l := by
        simp [ElectionLabel.madeBy, hb]
      obtain ⟨s, hr, hrow, hnow, hcalls⟩ : ∃ s, run (Election.step (.mysql c) scope ttl) (.new 0)
          [ElectionLabel.start 0 a, .statement 0 .done, .statement 0 .done, .statement 0 .done] =
            some s ∧ s.row = some (newLease a (ttl a) 0) ∧ s.now = 0 ∧ s.calls 1 = none := by
        refine ⟨_, rfl, ?_, rfl, rfl⟩
        show some (newLease ((Engine.mysql c).storedID a) (ttl a) 0) = _
        rw [huncut.storedID ha]
      obtain ⟨t, hr', hrow', hnow', hcalls'⟩ : ∃ t, run (Election.step (.mysql c) scope ttl) s
          [ElectionLabel.start 1 b] = some t ∧ t.row = s.row ∧ t.now = s.now ∧
            t.calls 1 = some (.running b (updateLease scope b)) := by
        simp only [run_cons, run_nil, Election.step, hcalls, Option.bind_some]
        exact ⟨_, rfl, rfl, rfl, rfl⟩
      have hexpires := le_newLease_expiresAt a (ttl a) 0
      refine h 0 _ s hl hr a _ hrow _ t hl' hr' (by rw [hnow', hnow]; exact hexpires) 1 .done _ b
        ⟨_, hcalls'⟩ (Ne.symm hne) (step_update_twin hcalls' (hrow'.trans hrow) (huncut c rfl b hb) heq hne)
        ⟨b, ?_⟩
      rfl

theorem election_law_iff_distinguished (e : Engine) (scope : String) (ttl : String → LeaseTTL)
    (ids : Set String) :
    LeadsDuringCall e scope ttl ids ∧ LeaseExcludes e scope ttl ids ↔
      Distinguished e ids ∧ Uncut e ids := by
  constructor
  · intro h
    have huncut := uncut_of_leadsDuringCall h.1
    exact ⟨distinguished_of_leaseExcludes huncut h.2, huncut⟩
  · intro h
    exact ⟨leadsDuringCall h.2, leaseExcludes_of_distinguished h.1 h.2⟩

/-- Texts that differ only in the case of their letters are equal, as they are under the collations
that MySQL and MariaDB have by default. -/
def caseInsensitive : Collation where
  eq a b := a.toList.map Char.toLower == b.toList.map Char.toLower
  refl _ := beq_self_eq_true _

theorem caseInsensitive_takes_over :
    (∃ s t, run (Election.step (.mysql caseInsensitive) "nightly" fun _ => ⟨30000000000, by decide⟩)
        (.new 0) [.start 0 "Node", .statement 0 .done, .statement 0 .done, .statement 0 .done] =
          some s ∧
      s.row = some ⟨"Node", 30000000⟩ ∧
      run (Election.step (.mysql caseInsensitive) "nightly" fun _ => ⟨30000000000, by decide⟩) s
        [.tick 1000000, .start 1 "node", .statement 1 .done, .finish 1] = some t ∧
      t.now = 1000000 ∧ t.row = some ⟨"node", 31000000⟩ ∧
      t.calls 1 = some (.returned "node" (.ok true))) ∧
    ¬LeaseExcludes (.mysql caseInsensitive) "nightly" (fun _ => ⟨30000000000, by decide⟩)
      {"Node", "node"} := by
  refine ⟨⟨_, _, rfl, rfl, rfl, rfl, rfl, rfl⟩, fun h => ?_⟩
  have huncut : Uncut (.mysql caseInsensitive) {"Node", "node"} := by
    rintro c - a (rfl | rfl) <;> decide
  have hsame := distinguished_of_leaseExcludes huncut h "Node" (.inl rfl) "node" (.inr rfl) rfl
  exact absurd hsame (by decide)

end Msgin.Cron
