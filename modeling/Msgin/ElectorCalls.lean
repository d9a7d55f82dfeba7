import Msgin.ElectorDialect
import Msgin.KeyedMaps
import Msgin.TransitionRuns

/-!
# Concurrent calls of an elector

Any number of `AcquireOrRenew` calls on one scope, run a statement at a time against the one lease
row. No transaction is around the statements of a call, so those of other calls come anywhere
between them, and a statement that is reported as failed may have been applied.

A call whose holder the column stores as it is returns true only after the holder had a valid lease
during the call. The monitor `look` follows what the answers of a call say about the run.
-/

namespace Msgin.Cron

open Interaction Prog TransitionRuns KeyedMaps
open Msgin.Sql (Engine Execution)

inductive Call
  | running (holder : String) (prog : ElectorProg)
  | returned (holder : String) (result : Except Err Bool)

structure Election where
  row : Option Lease
  now : ℤ
  calls : ℕ → Option Call

inductive ElectionLabel
  | tick (d : ℕ)
  | start (c : ℕ) (holder : String)
  | statement (c : ℕ) (o : Execution)
  | finish (c : ℕ)

def ElectionLabel.madeBy (ids : Set String) : ElectionLabel → Prop
  | start _ holder => holder ∈ ids
  | _ => True

namespace Statement

def answer (e : Engine) (holder : String) (ttl : LeaseTTL) (now : ℤ) (row : Option Lease) :
    (q : Statement) → Execution → Option (q.Answer × Option Lease)
  | q, .done => some (q.exec e holder ttl now row)
  | insertIgnore, .demoted => some (.ok (0 : ℕ), row)
  | _, .demoted => none
  | q, .failed err applied =>
    some (.error err, if applied then (q.exec e holder ttl now row).2 else row)

end Statement

namespace Election

/-- No lease row and no call yet. -/
def new (now : ℤ) : Election := ⟨none, now, fun _ => none⟩

def step (e : Engine) (scope : String) (ttl : String → LeaseTTL) (s : Election) :
    ElectionLabel → Option Election
  | .tick d => some { s with now := s.now + d }
  | .start c holder =>
    match s.calls c with
    | none =>
      some { s with
        calls := Function.update s.calls c (some (.running holder (acquireOrRenew e scope holder))) }
    | some _ => none
  | .statement c o =>
    match s.calls c with
    | some (.running holder (.ask q k)) =>
      (q.answer e holder (ttl holder) s.now s.row o).map fun a =>
        ⟨a.2, s.now, Function.update s.calls c (some (.running holder (k a.1)))⟩
    | _ => none
  | .finish c =>
    match s.calls c with
    | some (.running holder (.ret r)) =>
      some { s with calls := Function.update s.calls c (some (.returned holder r)) }
    | _ => none

def Leads (s : Election) (holder : String) : Prop :=
  ∃ x, s.row = some ⟨holder, x⟩ ∧ s.now ≤ x

def Running (s : Election) (c : ℕ) (holder : String) : Prop :=
  ∃ p, s.calls c = some (.running holder p)

def MadeBy (ids : Set String) (s : Election) : Prop := ∀ c holder, s.Running c holder → holder ∈ ids

end Election

/-- On MySQL the ids fit their column, so that `INSERT IGNORE` cuts none of them. -/
def Uncut (e : Engine) (ids : Set String) : Prop :=
  ∀ c, e = .mysql c → ∀ a ∈ ids, e.fits a = true

variable {e : Engine} {scope : String} {ttl : String → LeaseTTL} {ids : Set String}

theorem Uncut.storedID (h : Uncut e ids) {a : String} (ha : a ∈ ids) : e.storedID a = a := by
  cases e with
  | mysql c => exact Engine.storedID_of_fits (h c rfl a ha)
  | postgres | sqlite => exact Engine.storedID_of_ne_mysql (by simp) a

inductive ElectionStep (e : Engine) (scope : String) (ttl : String → LeaseTTL) (s : Election) :
    ElectionLabel → Election → Prop
  | tick (d : ℕ) : ElectionStep e scope ttl s (.tick d) { s with now := s.now + d }
  | start {c : ℕ} (holder : String) (fresh : s.calls c = none) :
      ElectionStep e scope ttl s (.start c holder)
        ⟨s.row, s.now,
          Function.update s.calls c (some (.running holder (acquireOrRenew e scope holder)))⟩
  | statement {c : ℕ} {o : Execution} {holder : String} {q : Statement} {k : q.Answer → ElectorProg}
      {r : q.Answer} {row : Option Lease} (running : s.calls c = some (.running holder (.ask q k)))
      (answer : q.answer e holder (ttl holder) s.now s.row o = some (r, row)) :
      ElectionStep e scope ttl s (.statement c o)
        ⟨row, s.now, Function.update s.calls c (some (.running holder (k r)))⟩
  | finish {c : ℕ} {holder : String} {r : Except Err Bool}
      (running : s.calls c = some (.running holder (.ret r))) :
      ElectionStep e scope ttl s (.finish c)
        ⟨s.row, s.now, Function.update s.calls c (some (.returned holder r))⟩

variable {past : List Election} {s t : Election} {l : ElectionLabel} {c : ℕ}

theorem electionStep_of_step (h : s.step e scope ttl l = some t) :
    ElectionStep e scope ttl s l t := by
  cases l with
  | tick d =>
      obtain rfl := Option.some.inj h
      exact .tick d
  | start c holder =>
      cases hc : s.calls c with
      | none =>
          simp only [Election.step, hc, Option.some.injEq] at h
          exact h ▸ .start holder hc
      | some call => simp [Election.step, hc] at h
  | statement c o =>
      rcases hc : s.calls c with _ | (⟨holder, r | ⟨q, k⟩⟩ | ⟨holder, r⟩)
      · simp [Election.step, hc] at h
      · simp [Election.step, hc] at h
      · simp only [Election.step, hc, Option.map_eq_some_iff] at h
        obtain ⟨⟨r, row⟩, hanswer, rfl⟩ := h
        exact .statement hc hanswer
      · simp [Election.step, hc] at h
  | finish c =>
      rcases hc : s.calls c with _ | (⟨holder, r | ⟨q, k⟩⟩ | ⟨holder, r⟩)
      · simp [Election.step, hc] at h
      · simp only [Election.step, hc, Option.some.injEq] at h
        exact h ▸ .finish hc
      · simp [Election.step, hc] at h
      · simp [Election.step, hc] at h

theorem madeBy_new (ids : Set String) (now : ℤ) : (Election.new now).MadeBy ids := by
  rintro c holder ⟨p, hp⟩
  cases hp

theorem Election.MadeBy.step (h : s.MadeBy ids) (hl : l.madeBy ids)
    (hstep : ElectionStep e scope ttl s l t) : t.MadeBy ids := by
  cases hstep with
  | tick d => exact h
  | start holder fresh =>
      rintro c' w ⟨p, hp⟩
      rcases update_eq_some.mp hp with ⟨-, hcall⟩ | ⟨-, hs⟩
      · obtain ⟨rfl, -⟩ := Call.running.inj hcall
        exact hl
      · exact h c' w ⟨p, hs⟩
  | statement running answer =>
      rintro c' w ⟨p, hp⟩
      rcases update_eq_some.mp hp with ⟨rfl, hcall⟩ | ⟨-, hs⟩
      · obtain ⟨rfl, -⟩ := Call.running.inj hcall
        exact h c' _ ⟨_, running⟩
      · exact h c' w ⟨p, hs⟩
  | finish running =>
      rintro c' w ⟨p, hp⟩
      rcases update_eq_some.mp hp with ⟨-, hcall⟩ | ⟨-, hs⟩
      · cases hcall
      · exact h c' w ⟨p, hs⟩

namespace Statement

variable {holder : String} {d : LeaseTTL} {now : ℤ} {row row' : Option Lease} {q : Statement}
  {o : Execution} {r : q.Answer}

theorem answer_row (hstored : e.storedID holder = holder)
    (h : q.answer e holder d now row o = some (r, row')) :
    row' = row ∨
      row' = some (newLease holder d now) ∧ row.all (Lease.free e holder now) = true := by
  have hexec := exec_row hstored d now row q
  cases o with
  | done =>
      rw [Option.some.inj h] at hexec
      exact hexec
  | demoted =>
      cases q with
      | insertIgnore =>
          obtain ⟨-, rfl⟩ := Prod.mk.inj (Option.some.inj h)
          exact .inl rfl
      | upsert => cases h
      | update => cases h
      | selectLease => cases h
      | selectHolder => cases h
  | failed err applied =>
      obtain ⟨-, rfl⟩ := Prod.mk.inj (Option.some.inj h)
      cases applied with
      | true => exact hexec
      | false => exact .inl rfl

theorem answer_grants (hstored : e.storedID holder = holder)
    (h : q.answer e holder d now row o = some (r, row')) (hr : q.grants holder r = true) :
    ∃ x, row' = some ⟨holder, x⟩ ∧ (q ≠ .selectHolder → now ≤ x) := by
  cases o with
  | done =>
      have hexec : q.exec e holder d now row = (r, row') := Option.some.inj h
      have hgrants : q.grants holder (q.exec e holder d now row).1 = true := by rwa [hexec]
      have hrow := exec_grants hstored hgrants
      rwa [hexec] at hrow
  | demoted =>
      cases q with
      | insertIgnore =>
          obtain ⟨rfl, -⟩ := Prod.mk.inj (Option.some.inj h)
          cases hr
      | upsert => cases h
      | update => cases h
      | selectLease => cases h
      | selectHolder => cases h
  | failed err applied =>
      obtain ⟨rfl, -⟩ := Prod.mk.inj (Option.some.inj h)
      cases q <;> cases hr

theorem answer_selectLease {r : selectLease.Answer}
    (h : selectLease.answer e holder d now row o = some (r, row')) (hr : r = .ok none) :
    row = none ∧ row' = none := by
  subst hr
  cases o with
  | done =>
      obtain ⟨hrow, rfl⟩ := Prod.mk.inj (Option.some.inj h)
      have hnone : row = none := by
        cases row with
        | none => rfl
        | some l => cases hrow
      exact ⟨hnone, hnone⟩
  | demoted => cases h
  | failed err applied =>
      obtain ⟨hrow, -⟩ := Prod.mk.inj (Option.some.inj h)
      cases hrow

end Statement

/-- The call ran while its holder had a valid lease. -/
def LedDuring (past : List Election) (c : ℕ) (holder : String) : Prop :=
  ∃ u ∈ past, u.Running c holder ∧ u.Leads holder

theorem LedDuring.append {holder : String} (h : LedDuring past c holder) (s : Election) :
    LedDuring (past ++ [s]) c holder := by
  obtain ⟨u, hu, h⟩ := h
  exact ⟨u, List.mem_append_left _ hu, h⟩

/-- What the answers that a call has had say about the run. -/
structure Knows (past : List Election) (s : Election) (c : ℕ) (holder : String) (m : Look) :
    Prop where
  granted : m.granted = true → LedDuring (past ++ [s]) c holder
  absent : m.absent = true → ∀ x, s.row = some ⟨holder, x⟩ → LedDuring (past ++ [s]) c holder

structure CallInv (past : List Election) (s : Election) : Prop where
  running : ∀ c holder p, s.calls c = some (.running holder p) →
    ∃ m, Meets (look holder) TrueIfGranted p m ∧ Knows past s c holder m
  returned : ∀ c holder, s.calls c = some (.returned holder (.ok true)) → LedDuring past c holder

theorem callInv_new (now : ℤ) : CallInv [] (.new now) where
  running c holder p h := by cases h
  returned c holder h := by cases h

theorem Knows.step {holder : String} {m : Look} (h : Knows past s c holder m) (huncut : Uncut e ids)
    (hmade : s.MadeBy ids) (hstep : ElectionStep e scope ttl s l t) (hrun : t.Running c holder) :
    Knows (past ++ [s]) t c holder m where
  granted hm := (h.granted hm).append t
  absent hm x hx := by
    have hkept : t.row = s.row → LedDuring (past ++ [s] ++ [t]) c holder := fun hrow =>
      (h.absent hm x (hrow ▸ hx)).append t
    cases hstep with
    | tick d => exact hkept rfl
    | start w fresh => exact hkept rfl
    | @statement c' o w q k r row running answer =>
        have hstored := huncut.storedID (hmade c' w ⟨_, running⟩)
        rcases Statement.answer_row hstored answer with hrow | ⟨hrow, -⟩
        · exact hkept hrow
        · have hlease : newLease w (ttl w) s.now = ⟨holder, x⟩ := Option.some.inj (hrow.symm.trans hx)
          have hle := le_newLease_expiresAt w (ttl w) s.now
          rw [hlease] at hle
          exact ⟨_, List.mem_append_right _ List.mem_cons_self, hrun, x, hx, hle⟩
    | finish running => exact hkept rfl

theorem Knows.answered {holder : String} {m m' : Look} (h : Knows past s c holder m) {q : Statement}
    {r : q.Answer} {o : Execution} (hstored : e.storedID holder = holder)
    (hlook : look holder m q r = some m')
    (hanswer : q.answer e holder (ttl holder) s.now s.row o = some (r, t.row))
    (hnow : t.now = s.now) (hrun : t.Running c holder) : Knows (past ++ [s]) t c holder m' := by
  have habsent : m.absent = true → ∀ x, t.row = some ⟨holder, x⟩ →
      LedDuring (past ++ [s] ++ [t]) c holder := by
    intro hm x hx
    rcases Statement.answer_row hstored hanswer with hrow | ⟨hrow, -⟩
    · exact (h.absent hm x (hrow ▸ hx)).append t
    · have hlease : newLease holder (ttl holder) s.now = ⟨holder, x⟩ :=
        Option.some.inj (hrow.symm.trans hx)
      have hle := le_newLease_expiresAt holder (ttl holder) s.now
      rw [hlease] at hle
      exact ⟨t, List.mem_append_right _ List.mem_cons_self, hrun, x, hx, hnow ▸ hle⟩
  have hgranted : q.grants holder r = true → q ≠ .selectHolder →
      LedDuring (past ++ [s] ++ [t]) c holder := by
    intro hg hq
    obtain ⟨x, hx, hle⟩ := Statement.answer_grants hstored hanswer hg
    exact ⟨t, List.mem_append_right _ List.mem_cons_self, hrun, x, hx, hnow ▸ hle hq⟩
  have hother : look holder m q r = some ⟨q.grants holder r, m.absent⟩ → q ≠ .selectHolder →
      Knows (past ++ [s]) t c holder m' := by
    intro heq hq
    obtain rfl := Option.some.inj (heq.symm.trans hlook)
    exact ⟨fun hg => hgranted hg hq, habsent⟩
  cases q with
  | upsert => exact hother rfl (by decide)
  | update => exact hother rfl (by decide)
  | insertIgnore => exact hother rfl (by decide)
  | selectLease =>
      rcases r with err | (_ | ⟨w, expired⟩)
      · exact hother rfl (by decide)
      · obtain rfl := Option.some.inj hlook
        obtain ⟨-, hrow⟩ := Statement.answer_selectLease hanswer rfl
        exact ⟨fun hg => (by cases hg), fun _ x hx => by rw [hrow] at hx; cases hx⟩
      · exact hother rfl (by decide)
  | selectHolder =>
      by_cases hm : m.absent = true
      · obtain rfl := Option.some.inj ((if_pos hm).symm.trans hlook)
        refine ⟨fun hg => ?_, fun _ => habsent hm⟩
        obtain ⟨x, hx, -⟩ := Statement.answer_grants hstored hanswer hg
        exact habsent hm x hx
      · exact absurd ((if_neg hm).symm.trans hlook) (by simp)

theorem CallInv.other (hinv : CallInv past s) (huncut : Uncut e ids) (hmade : s.MadeBy ids)
    (hstep : ElectionStep e scope ttl s l t) {holder : String} {p : ElectorProg}
    (hs : s.calls c = some (.running holder p)) (ht : t.calls c = some (.running holder p)) :
    ∃ m, Meets (look holder) TrueIfGranted p m ∧ Knows (past ++ [s]) t c holder m := by
  obtain ⟨m, hmeets, hknows⟩ := hinv.running c holder p hs
  exact ⟨m, hmeets, hknows.step huncut hmade hstep ⟨p, ht⟩⟩

theorem CallInv.step (hinv : CallInv past s) (huncut : Uncut e ids) (hmade : s.MadeBy ids)
    (hstep : ElectionStep e scope ttl s l t) : CallInv (past ++ [s]) t := by
  have hother : ∀ c holder p, s.calls c = some (.running holder p) →
      t.calls c = some (.running holder p) →
      ∃ m, Meets (look holder) TrueIfGranted p m ∧ Knows (past ++ [s]) t c holder m :=
    fun _ _ _ => hinv.other huncut hmade hstep
  cases hstep with
  | tick d =>
      exact ⟨fun c holder p h => hother c holder p h h,
        fun c holder h => (hinv.returned c holder h).append s⟩
  | @start c w fresh =>
      refine ⟨fun c' holder p h => ?_, fun c' holder h => ?_⟩
      · rcases update_eq_some.mp h with ⟨rfl, hcall⟩ | ⟨-, hs⟩
        · obtain ⟨rfl, rfl⟩ := Call.running.inj hcall
          refine ⟨⟨false, false⟩, meets_acquireOrRenew e scope holder _, ?_, ?_⟩
          · intro hg
            cases hg
          · intro ha
            cases ha
        · exact hother c' holder p hs h
      · rcases update_eq_some.mp h with ⟨-, hcall⟩ | ⟨-, hs⟩
        · cases hcall
        · exact (hinv.returned c' holder hs).append s
  | @statement c o w q k r row running answer =>
      refine ⟨fun c' holder p h => ?_, fun c' holder h => ?_⟩
      · rcases update_eq_some.mp h with ⟨rfl, hcall⟩ | ⟨-, hs⟩
        · obtain ⟨rfl, rfl⟩ := Call.running.inj hcall
          obtain ⟨m, hmeets, hknows⟩ := hinv.running c' holder _ running
          obtain ⟨m', hlook, hrest⟩ := hmeets r
          have hstored := huncut.storedID (hmade c' holder ⟨_, running⟩)
          exact ⟨m', hrest, hknows.answered hstored hlook answer rfl ⟨_, h⟩⟩
        · exact hother c' holder p hs h
      · rcases update_eq_some.mp h with ⟨-, hcall⟩ | ⟨-, hs⟩
        · cases hcall
        · exact (hinv.returned c' holder hs).append s
  | @finish c w r running =>
      refine ⟨fun c' holder p h => ?_, fun c' holder h => ?_⟩
      · rcases update_eq_some.mp h with ⟨-, hcall⟩ | ⟨-, hs⟩
        · cases hcall
        · exact hother c' holder p hs h
      · rcases update_eq_some.mp h with ⟨rfl, hcall⟩ | ⟨-, hs⟩
        · obtain ⟨rfl, rfl⟩ := Call.returned.inj hcall
          obtain ⟨m, hmeets, hknows⟩ := hinv.running c' holder _ running
          exact hknows.granted (hmeets rfl)
        · exact (hinv.returned c' holder hs).append s

def instants (e : Engine) (scope : String) (ttl : String → LeaseTTL) (s : Election)
    (ls : List ElectionLabel) : List Election :=
  observe (Election.step e scope ttl) (fun s _ => some s) s ls

theorem callInv_run (huncut : Uncut e ids) {now : ℤ} {ls : List ElectionLabel}
    (hl : ∀ l ∈ ls, ElectionLabel.madeBy ids l)
    (hr : run (Election.step e scope ttl) (.new now) ls = some s) :
    s.MadeBy ids ∧ CallInv (instants e scope ttl (.new now) ls) s :=
  run_observe_of_along (Election.step e scope ttl) (fun s _ => some s)
    (I := fun s past => s.MadeBy ids ∧ CallInv past s)
    (fun _ _ _ _ h hstep hl => ⟨h.1.step hl (electionStep_of_step hstep),
      h.2.step huncut h.1 (electionStep_of_step hstep)⟩) ⟨madeBy_new ids now, callInv_new now⟩
    (along_of_forall (Election.step e scope ttl) hl) hr

end Msgin.Cron
