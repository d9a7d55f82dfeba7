import Msgin.InboxDeduper
import Msgin.TransitionRuns

/-!
# Exactly one effect

Every committed effect has its row in the dedup table until `Purge` removes it, and a row comes with
an effect. So an at-least-once source has the effect of each message committed once, whatever the
handlers' transactions meet with, as long as `Purge` leaves the row of the id in the table.
-/

namespace Msgin.Sql

open TransactionalRows TransitionRuns TxTable

variable {e : Engine} {window : Option ℤ} {s s' : InboxState} {i j : ℕ} {h : Handler}

/-- An effect was committed for the id, or for one whose row the engine takes for it. -/
def Recorded (e : Engine) (s : InboxState) (msgID : String) : Prop :=
  ∃ f ∈ s.effects, f.msgID = msgID ∨ e.collation.eq (e.storedID f.msgID) msgID = true

/-- What a handler may rely on. -/
def Knows (e : Engine) (s : InboxState) (i : ℕ) (h : Handler) : Prop :=
  match h.phase with
  | .begun => s.table.own i = []
  | .failed => True
  | .already => s.table.own i = [] ∧ Recorded e s h.msgID
  | .first | .applied => ∃ stamp, s.table.own i = [⟨e.storedID h.msgID, stamp⟩]

structure HandlerInv (e : Engine) (window : Option ℤ) (s : InboxState) (i : ℕ) (h : Handler) :
    Prop where
  started : h.start ≤ s.now
  knows : Knows e s i h
  marked : ∀ row ∈ s.table.own i, row.msgID = e.storedID h.msgID ∧ h.start ≤ row.processedAt
  fresh : window.isSome → s.table.own i ≠ [] → ∀ f ∈ s.effects, f.msgID ≠ h.msgID

structure InboxInv (e : Engine) (window : Option ℤ) (s : InboxState) : Prop where
  unique : Unique InboxRow.msgID s.table
  conserved : (s.effects.map fun f => e.storedID f.msgID).Perm
    (s.table.rows.map InboxRow.msgID ++ s.purged)
  handlers : ∀ i h, s.handlers i = some h → HandlerInv e window s i h
  idle : ∀ i, s.handlers i = none → s.table.own i = []
  handled : ∀ msgID ∈ s.handled, Recorded e s msgID
  /-- The row of an effect stays as long as its id can be delivered again. -/
  retained : ∀ W ∈ window, ∀ f ∈ s.effects, s.now ≤ f.start + W →
    ∃ row ∈ s.table.rows, row.msgID = e.storedID f.msgID ∧ f.start ≤ row.processedAt
  once : window.isSome → (s.effects.map BusinessEffect.msgID).Nodup

variable {msgID : String} {start : ℤ}

theorem Recorded.mono (hr : Recorded e s msgID) (heffects : s.effects ⊆ s'.effects) :
    Recorded e s' msgID := by
  obtain ⟨f, hf, heq⟩ := hr
  exact ⟨f, heffects hf, heq⟩

theorem Knows.mono (hk : Knows e s i h) (hown : s'.table.own i = s.table.own i)
    (heffects : s.effects ⊆ s'.effects) : Knows e s' i h := by
  rcases h with ⟨msgID, start, _ | _ | _ | _ | _⟩
  · exact hown.trans hk
  · trivial
  · exact ⟨hown.trans hk.1, hk.2.mono heffects⟩
  · exact ⟨hk.choose, hown.trans hk.choose_spec⟩
  · exact ⟨hk.choose, hown.trans hk.choose_spec⟩

theorem HandlerInv.congr (hh : HandlerInv e window s i h) (hnow : s.now ≤ s'.now)
    (hown : s'.table.own i = s.table.own i) (heffects : s'.effects = s.effects) :
    HandlerInv e window s' i h := by
  have hkept : s.effects ⊆ s'.effects := heffects ▸ List.Subset.refl _
  refine ⟨hh.started.trans hnow, hh.knows.mono hown hkept, hown ▸ hh.marked, ?_⟩
  rw [hown, heffects]
  exact hh.fresh

/-- A step of one handler leaves the transactions of the others alone, and an effect that it commits
has its row in the handler's transaction. -/
structure StepAt (e : Engine) (i : ℕ) (s s' : InboxState) : Prop where
  now : s'.now = s.now
  kept : s.effects ⊆ s'.effects
  added : ∀ f ∈ s'.effects, f ∈ s.effects ∨ ∃ row ∈ s.table.own i, row.msgID = e.storedID f.msgID
  handlers : ∀ j, j ≠ i → s'.handlers j = s.handlers j
  own : ∀ j, j ≠ i → s'.table.own j = s.table.own j

theorem HandlerInv.mono (hh : HandlerInv e window s j h) (hunique : Unique InboxRow.msgID s.table)
    (hat : StepAt e i s s') (hji : j ≠ i) : HandlerInv e window s' j h := by
  have hown := hat.own j hji
  refine ⟨hat.now ▸ hh.started, hh.knows.mono hown hat.kept, hown ▸ hh.marked, ?_⟩
  intro hw hne f hf heq
  rw [hown] at hne
  rcases hat.added f hf with hf | ⟨row, hrow, hid⟩
  · exact hh.fresh hw hne f hf heq
  · -- two open transactions cannot both have inserted the row of one id
    obtain ⟨row', hrow'⟩ := List.exists_mem_of_ne_nil _ hne
    refine hunique.own_ne hji hrow hrow' ?_
    rw [hid, heq, (hh.marked row' hrow').1]

theorem InboxInv.of_stepAt (hi : InboxInv e window s) (hat : StepAt e i s s')
    (hself : ∀ h, s'.handlers i = some h → HandlerInv e window s' i h)
    (hidle : s'.handlers i = none → s'.table.own i = []) :
    (∀ j h, s'.handlers j = some h → HandlerInv e window s' j h) ∧
      ∀ j, s'.handlers j = none → s'.table.own j = [] := by
  refine ⟨fun j h hj => ?_, fun j hj => ?_⟩ <;> by_cases hji : j = i
  · exact hji ▸ hself h (hji ▸ hj)
  · exact (hi.handlers j h ((hat.handlers j hji).symm.trans hj)).mono hi.unique hat hji
  · exact hji ▸ hidle (hji ▸ hj)
  · exact (hat.own j hji).trans (hi.idle j ((hat.handlers j hji).symm.trans hj))

/-- A step that changes neither the committed rows nor the effects. -/
theorem InboxInv.put (hi : InboxInv e window s) {t : InboxTable} {o : Option Handler}
    (hunique : Unique InboxRow.msgID t) (hrows : t.rows = s.table.rows)
    (hother : ∀ j, j ≠ i → t.own j = s.table.own j)
    (hself : ∀ h, o = some h → HandlerInv e window (s.put i t o) i h)
    (hidle : o = none → t.own i = []) : InboxInv e window (s.put i t o) := by
  have hat : StepAt e i s (s.put i t o) :=
    ⟨rfl, fun _ hf => hf, fun _ hf => .inl hf, fun _ hj => Function.update_of_ne hj _ _, hother⟩
  have hput := s.handlers_put_self i t o
  obtain ⟨hhandlers, hidles⟩ := hi.of_stepAt hat (fun h hh => hself h (hput.symm.trans hh))
    fun hh => hidle (hput.symm.trans hh)
  refine ⟨hunique, hrows ▸ hi.conserved, hhandlers, hidles, hi.handled, ?_, hi.once⟩
  intro W hW f hf hnow
  exact hrows ▸ hi.retained W hW f hf hnow

theorem InboxInv.rollback (hi : InboxInv e window s) (i : ℕ) :
    InboxInv e window (s.put i (s.table.rollback i) none) :=
  hi.put (hi.unique.rollback i) rfl (fun _ hj => own_rollback_of_ne hj) (fun _ h => by cases h)
    fun _ => own_rollback_self

theorem InboxInv.returnNil (hi : InboxInv e window s) {msgIDs : List String}
    (hr : ∀ msgID ∈ msgIDs, Recorded e s msgID) :
    InboxInv e window { s with handled := s.handled ++ msgIDs } := by
  refine ⟨hi.unique, hi.conserved, fun j h hj => (hi.handlers j h hj).congr le_rfl rfl rfl, hi.idle,
    fun m hm => ?_, hi.retained, hi.once⟩
  exact (List.mem_append.mp hm).elim (hi.handled m) (hr m)

/-- The committed row of a text that a transaction without rows of its own has read. -/
theorem InboxInv.recorded_of_bears (hi : InboxInv e window s) (hown : s.table.own i = [])
    (hbears : bears e msgID (s.table.visible i) = true) : Recorded e s msgID := by
  obtain ⟨row, hrow, heq⟩ := bears_eq_true.mp hbears
  rw [visible, hown, List.append_nil] at hrow
  obtain ⟨f, hf, hstored⟩ := List.mem_map.mp (hi.conserved.mem_iff.mpr
    (List.mem_append_left _ (List.mem_map_of_mem hrow)))
  exact ⟨f, hf, .inr (hstored.symm ▸ heq)⟩

theorem ne_of_bears_eq_false {text : String} {rows : List InboxRow}
    (habsent : bears e text rows = false) : ∀ q ∈ rows, q.msgID ≠ text := by
  intro q hq heq
  have hfalse := bears_eq_false.mp habsent q hq
  rw [heq, e.collation.refl] at hfalse
  cases hfalse

theorem Engine.le_currentTime {now : ℤ} (h : start ≤ now) : start ≤ e.currentTime start now := by
  cases e with
  | postgres => exact le_rfl
  | mysql c => exact h
  | sqlite => exact h

theorem InboxInv.mark (hi : InboxInv e window s) {o : Execution} {r : Except Err Bool}
    {t : InboxTable} (here : s.handlers i = some ⟨msgID, start, .begun⟩)
    (inTime : Deliverable window s msgID)
    (marked : markProcessed e (some i) msgID (e.currentTime start s.now) s.table o = some (r, t)) :
    InboxInv e window (s.put i t (some ⟨msgID, start, .ofVerdict r⟩)) := by
  obtain ⟨hstarted, hown, -, -⟩ := hi.handlers i _ here
  rcases markProcessed_cases marked with ⟨rfl, hfirst, halready⟩ | ⟨hinserts, halready⟩
  · refine hi.put hi.unique rfl (fun _ _ => rfl) (fun h' hh => ?_) fun hh => by cases hh
    cases hh
    refine ⟨hstarted, ?_, fun row hrow => ?_, fun _ hne => absurd hown hne⟩
    · rcases r with err | _ | _
      · trivial
      · exact absurd rfl hfirst
      · exact ⟨hown, hi.recorded_of_bears hown (halready rfl)⟩
    · exact absurd (hown ▸ hrow) List.not_mem_nil
  · obtain ⟨rfl, hvisible, hothers⟩ := hinserts
    have hself : (s.table.insert i ⟨e.storedID msgID, e.currentTime start s.now⟩).own i =
        [⟨e.storedID msgID, e.currentTime start s.now⟩] := by
      rw [own_insert_self, hown, List.nil_append]
    refine hi.put (hi.unique.insert (ne_of_bears_eq_false hvisible) (ne_of_bears_eq_false hothers))
      rfl (fun _ hj => own_insert_of_ne (Ne.symm hj)) (fun h' hh => ?_) fun hh => by cases hh
    cases hh
    refine ⟨hstarted, ?_, fun row hrow => ?_, fun hw _ f hf heq => ?_⟩
    · rcases r with err | _ | _
      · trivial
      · exact ⟨_, hself⟩
      · exact absurd rfl halready
    · obtain rfl := List.mem_singleton.mp (hself ▸ hrow)
      exact ⟨rfl, Engine.le_currentTime hstarted⟩
    · -- the row of an earlier effect would still be there
      obtain ⟨W, hW⟩ := Option.isSome_iff_exists.mp hw
      obtain ⟨row, hrow, hid, -⟩ := hi.retained W hW f hf (inTime W hW f hf heq)
      refine ne_of_bears_eq_false hvisible row (List.mem_append_left _ hrow) ?_
      rw [hid, heq]

theorem InboxInv.commit (hi : InboxInv e window s)
    (here : s.handlers i = some ⟨msgID, start, .applied⟩) :
    InboxInv e window { s.put i (s.table.commit i) none with
      effects := s.effects ++ [⟨msgID, start⟩] } := by
  obtain ⟨-, ⟨stamp, hown⟩, hmarked, hfresh⟩ := hi.handlers i _ here
  have hrow : (⟨e.storedID msgID, stamp⟩ : InboxRow) ∈ s.table.own i := hown ▸ List.mem_cons_self
  have hat : StepAt e i s { s.put i (s.table.commit i) none with
      effects := s.effects ++ [⟨msgID, start⟩] } := by
    refine ⟨rfl, List.subset_append_left _ _, fun f hf => ?_,
      fun _ hj => Function.update_of_ne hj _ _, fun _ hj => own_rollback_of_ne hj⟩
    refine (List.mem_append.mp hf).imp id fun hf => ⟨_, hrow, ?_⟩
    obtain rfl := List.mem_singleton.mp hf
    rfl
  have hput := s.handlers_put_self i (s.table.commit i) none
  obtain ⟨hhandlers, hidles⟩ := hi.of_stepAt hat (fun h hh => by cases hput.symm.trans hh)
    fun _ => own_rollback_self
  refine ⟨hi.unique.commit i, ?_, hhandlers, hidles, fun m hm => (hi.handled m hm).mono hat.kept,
    fun W hW f hf hnow => ?_, fun hw => ?_⟩
  · have hrows : (s.table.commit i).rows = s.table.rows ++ [⟨e.storedID msgID, stamp⟩] :=
      congrArg _ hown
    simp only [InboxState.put, hrows, List.map_append, List.map_singleton, List.append_assoc]
    refine (hi.conserved.append_right _).trans ?_
    rw [List.append_assoc]
    exact List.perm_append_comm.append_left _
  · rcases List.mem_append.mp hf with hf | hf
    · obtain ⟨row, hr, hid⟩ := hi.retained W hW f hf hnow
      exact ⟨row, List.mem_append_left _ hr, hid⟩
    · obtain rfl := List.mem_singleton.mp hf
      exact ⟨_, List.mem_append_right _ hrow, hmarked _ hrow⟩
  · rw [List.map_append, List.map_singleton, ← List.concat_eq_append, List.nodup_concat]
    refine ⟨fun hmem => ?_, hi.once hw⟩
    obtain ⟨f, hf, heq⟩ := List.mem_map.mp hmem
    exact hfresh hw (List.ne_nil_of_mem hrow) f hf heq

theorem InboxInv.purge (hi : InboxInv e window s) {olderThan : ℤ} (valid : 0 < olderThan)
    (keeps : ∀ W ∈ window, W ≤ microseconds olderThan) :
    InboxInv e window { s with
      table := (purge olderThan s.now s.table).2
      purged := s.purged ++
        (s.table.rows.filter (InboxRow.expired olderThan s.now)).map InboxRow.msgID } := by
  have htable : (Sql.purge olderThan s.now s.table).2 =
      ⟨s.table.rows.filter fun r => !r.expired olderThan s.now, s.table.pending⟩ := by
    rw [Sql.purge, if_neg (not_le.mpr valid)]
    rfl
  rw [htable]
  refine ⟨hi.unique.filter _, ?_, fun j h hj => (hi.handlers j h hj).congr le_rfl rfl rfl, hi.idle,
    hi.handled, fun W hW f hf hnow => ?_, hi.once⟩
  · have hsplit := (List.filter_append_perm (InboxRow.expired olderThan s.now) s.table.rows).map
      InboxRow.msgID
    rw [List.map_append] at hsplit
    refine hi.conserved.trans ((hsplit.symm.append_right s.purged).trans ?_)
    refine (List.perm_append_comm.append_right s.purged).trans ?_
    rw [List.append_assoc]
    exact List.perm_append_comm.append_left _
  · obtain ⟨row, hr, hid, hstart⟩ := hi.retained W hW f hf hnow
    have hlong := keeps W hW
    refine ⟨row, List.mem_filter.mpr ⟨hr, ?_⟩, hid, hstart⟩
    dsimp only at hnow
    simp only [InboxRow.expired, Bool.not_eq_true', decide_eq_false_iff_not, not_lt]
    omega

theorem InboxInv.step (hi : InboxInv e window s) (hstep : InboxStep e window s s') :
    InboxInv e window s' := by
  cases hstep with
  | tick d =>
      have hnow : s.now ≤ s.now + d := by omega
      exact ⟨hi.unique, hi.conserved, fun i h hh => (hi.handlers i h hh).congr hnow rfl rfl,
        hi.idle, hi.handled, fun W hW f hf hlast => hi.retained W hW f hf (hnow.trans hlast),
        hi.once⟩
  | begin i msgID idle =>
      have hown := hi.idle i idle
      refine hi.put hi.unique rfl (fun _ _ => rfl) (fun h hh => ?_) fun hh => by cases hh
      cases hh
      exact ⟨le_rfl, hown, fun row hrow => absurd (hown ▸ hrow) List.not_mem_nil,
        fun _ hne => absurd hown hne⟩
  | mark i msgID start o r t here inTime marked => exact hi.mark here inTime marked
  | apply i msgID start here =>
      obtain ⟨hstarted, hknows, hmarked, hfresh⟩ := hi.handlers i _ here
      refine hi.put hi.unique rfl (fun _ _ => rfl) (fun h hh => ?_) fun hh => by cases hh
      cases hh
      exact ⟨hstarted, hknows, hmarked, hfresh⟩
  | commit i msgID start reported here =>
      refine (hi.commit here).returnNil fun m hm => ⟨⟨msgID, start⟩, ?_, .inl ?_⟩
      · exact List.mem_append_right _ List.mem_cons_self
      · cases reported with
        | true => exact (List.mem_singleton.mp hm).symm
        | false => cases hm
  | skip i msgID start here =>
      refine (hi.rollback i).returnNil fun m hm => ?_
      obtain rfl := List.mem_singleton.mp hm
      exact (hi.handlers i _ here).knows.2
  | rollback i h here => exact hi.rollback i
  | purge olderThan valid keeps => exact hi.purge valid keeps

theorem inboxInv_new (e : Engine) (window : Option ℤ) (now : ℤ) : InboxInv e window (.new now) where
  unique := List.nodup_nil
  conserved := .nil
  handlers := fun _ _ h => by cases h
  idle := fun _ _ => rfl
  handled := fun _ h => by cases h
  retained := fun _ _ _ h => by cases h
  once := fun _ => List.nodup_nil

theorem InboxInv.reaches (hi : InboxInv e window s) (hr : InboxReaches e window s s') :
    InboxInv e window s' :=
  reaches_invariant (fun _ _ h hstep => h.step hstep) hi hr

/-- Where every retention covers the window of redelivery, no effect is committed twice. -/
theorem effects_nodup_of_window {W now : ℤ} (hr : InboxReaches e (some W) (.new now) s) :
    (s.effects.map BusinessEffect.msgID).Nodup :=
  ((inboxInv_new e (some W) now).reaches hr).once rfl

/-- A delivery at the end of the window, after a `Purge` of everything older than it. -/
theorem effects_nodup_of_window_lateDelivery :
    ∃ s, InboxReaches .sqlite (some 50) (.new 0) s ∧ s.handled = ["m"] ∧ s.purged = ["m"] ∧
      (s.effects.map BusinessEffect.msgID).Nodup := by
  have hkeeps : ∀ W ∈ some (50 : ℤ), W ≤ microseconds 50000 := by decide
  obtain ⟨s, hr, hhandled, hpurged⟩ : ∃ s, InboxReaches .sqlite (some 50) (.new 0) s ∧
      s.handled = ["m"] ∧ s.purged = ["m"] :=
    ⟨_, .head (.begin 0 "m" rfl) <|
      .head (.mark 0 "m" 0 .done _ _ rfl (fun _ _ _ hf => by cases hf) rfl) <|
      .head (.apply 0 "m" 0 rfl) <| .head (.commit 0 "m" 0 false rfl) <| .head (.tick 50) <|
      .head (.purge 50000 (by decide) hkeeps) <| .head (.begin 1 "m" rfl) <|
      .head (.mark 1 "m" 50 .done _ _ rfl (by unfold Deliverable; decide) rfl) <|
      .head (.skip 1 "m" 50 rfl) <| .head (.tick 1) <|
      .head (.purge 50000 (by decide) hkeeps) .refl, rfl, rfl⟩
  exact ⟨s, hr, hhandled, hpurged, effects_nodup_of_window hr⟩

end Msgin.Sql
