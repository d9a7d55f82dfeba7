import Mathlib.Data.List.Nodup
import Msgin.SkipPhases

/-!
# The fires of one stream

The instants a loop has passed are the first ones of the schedule, in order and without a gap, so
each of them is missed, lost or won once. Those it won are the ones it hands over. A fire is handed
over at its time or later, unless the wait for it was longer than a `time.Duration` can say.
-/

namespace Msgin.Cron

open TransitionRuns

variable {c : Source} {s s' : LoopState} {e : Option LoopEvent} {os : List LoopEvent}
  {first : Option ℤ}

def LoopEvent.settles : LoopEvent → Option (ℤ × Bool)
  | .missed t => some (t, false)
  | .asked fire won => some (fire, won)
  | .handed _ => none

def LoopEvent.delivery : LoopEvent → Option StreamFire
  | .handed x => some x
  | _ => none

def passed (os : List LoopEvent) : List (ℤ × Bool) := os.filterMap LoopEvent.settles

def won (os : List LoopEvent) : List ℤ := ((passed os).filter Prod.snd).map Prod.fst

def emitted (os : List LoopEvent) : List StreamFire := os.filterMap LoopEvent.delivery

theorem passed_append (os : List LoopEvent) (e : Option LoopEvent) :
    passed (os ++ e.toList) = passed os ++ (e.bind LoopEvent.settles).toList := by
  rw [passed, List.filterMap_append]
  cases e with
  | none => rfl
  | some e => cases h : e.settles <;> simp [passed, h]

theorem emitted_append (os : List LoopEvent) (e : Option LoopEvent) :
    emitted (os ++ e.toList) = emitted os ++ (e.bind LoopEvent.delivery).toList := by
  rw [emitted, List.filterMap_append]
  cases e with
  | none => rfl
  | some e => cases h : e.delivery <;> simp [emitted, h]

theorem won_append (os : List LoopEvent) (e : Option LoopEvent) :
    won (os ++ e.toList) =
      won os ++ ((e.bind LoopEvent.settles).toList.filter Prod.snd).map Prod.fst := by
  rw [won, passed_append, List.filter_append, List.map_append, won]

/-- The loop has passed `n` instants. -/
def Points (c : Schedule) (first : Option ℤ) (n : ℕ) : LoopPhase → Prop
  | .seeking next => c.iterate first n = next
  | .arming next => c.iterate first n = some next
  | .waiting next _ => c.iterate first n = some next
  | .asking fire _ next => c.iterate first n = some fire ∧ c.next fire = next
  | .handing _ _ next => c.iterate first n = next
  | .returned _ => True

structure Follows (c : Schedule) (first : Option ℤ) (s : LoopState) (os : List LoopEvent)
    (n : ℕ) : Prop where
  instants : (passed os).map Prod.fst = c.iterates first n
  points : Points c first n s.phase

variable {held : List ℤ} {n : ℕ} {t : ℤ}

theorem Follows.idle (h : Follows c.schedule first s os n)
    (hpoints : Points c.schedule first n s'.phase) :
    Follows c.schedule first s' (os ++ (none : Option LoopEvent).toList) n := by
  rw [Option.toList_none, List.append_nil]
  exact ⟨h.instants, hpoints⟩

theorem Follows.settle {w : Bool} {e : LoopEvent} (h : Follows c.schedule first s os n)
    (hhere : c.schedule.iterate first n = some t) (he : e.settles = some (t, w))
    (hpoints : Points c.schedule first (n + 1) s'.phase) :
    Follows c.schedule first s' (os ++ (some e).toList) (n + 1) := by
  refine ⟨?_, hpoints⟩
  rw [passed_append, Option.bind_some, he, List.map_append, h.instants, Schedule.iterates_succ,
    hhere]
  rfl

theorem Follows.step (h : Follows c.schedule first s os n) (hs : LoopStep c s s' e) :
    ∃ m, Follows c.schedule first s' (os ++ e.toList) m := by
  have hpoints := h.points
  cases hs with
  | passes d => exact ⟨n, h.idle hpoints⟩
  | cancels err => exact ⟨n, h.idle hpoints⟩
  | misses next here due =>
      rw [here] at hpoints
      exact ⟨n + 1, h.settle hpoints rfl (c.schedule.iterate_next hpoints)⟩
  | stays next here ahead =>
      rw [here] at hpoints
      exact ⟨n, h.idle hpoints⟩
  | arms next here =>
      rw [here] at hpoints
      exact ⟨n, h.idle hpoints⟩
  | wakes next armed here elapsed =>
      rw [here] at hpoints
      exact ⟨n, h.idle ⟨hpoints, rfl⟩⟩
  | wins fire armed next here =>
      rw [here] at hpoints
      have hnext := (c.schedule.iterate_next hpoints.1).trans hpoints.2
      exact ⟨n + 1, h.settle hpoints.1 rfl hnext⟩
  | loses fire armed next here =>
      rw [here] at hpoints
      have hnext := (c.schedule.iterate_next hpoints.1).trans hpoints.2
      exact ⟨n + 1, h.settle hpoints.1 rfl hnext⟩
  | hands fire armed next here =>
      rw [here] at hpoints
      refine ⟨n, ?_, hpoints⟩
      rw [passed_append]
      exact (congrArg (List.map Prod.fst) (List.append_nil _)).trans h.instants
  | returns err here ended => exact ⟨n, h.idle trivial⟩

/-- The fires that were won and not handed over. -/
def HoldsBack : LoopPhase → List ℤ → Prop
  | .handing fire _ _, held => held = [fire]
  | .returned _, held => held.length ≤ 1
  | _, held => held = []

theorem HoldsBack.length_le {p : LoopPhase} (h : HoldsBack p held) : held.length ≤ 1 := by
  cases p with
  | handing fire armed next =>
      cases h
      exact le_rfl
  | returned err => exact h
  | seeking | arming | waiting | asking =>
      cases h
      exact Nat.zero_le 1

def Delivers (s : LoopState) (os : List LoopEvent) (held : List ℤ) : Prop :=
  won os = (emitted os).map StreamFire.fire ++ held ∧ HoldsBack s.phase held

theorem Delivers.idle (h : Delivers s os held) (hheld : HoldsBack s'.phase held)
    (hwon : (e.bind LoopEvent.settles).toList.filter Prod.snd = [])
    (hemitted : e.bind LoopEvent.delivery = none) : Delivers s' (os ++ e.toList) held := by
  refine ⟨?_, hheld⟩
  rw [won_append, emitted_append, hwon, hemitted, h.1]
  simp

theorem Delivers.step (h : Delivers s os held) (hs : LoopStep c s s' e) :
    ∃ held', Delivers s' (os ++ e.toList) held' := by
  have hheld := h.2
  cases hs with
  | passes d => exact ⟨held, h.idle hheld rfl rfl⟩
  | cancels err => exact ⟨held, h.idle hheld rfl rfl⟩
  | misses next here due =>
      rw [here] at hheld
      exact ⟨held, h.idle hheld rfl rfl⟩
  | stays next here ahead =>
      rw [here] at hheld
      exact ⟨held, h.idle hheld rfl rfl⟩
  | arms next here =>
      rw [here] at hheld
      exact ⟨held, h.idle hheld rfl rfl⟩
  | wakes next armed here elapsed =>
      rw [here] at hheld
      exact ⟨held, h.idle hheld rfl rfl⟩
  | wins fire armed next here =>
      rw [here] at hheld
      cases hheld
      refine ⟨[fire], ?_, rfl⟩
      rw [won_append, emitted_append, h.1]
      simp [LoopEvent.settles, LoopEvent.delivery]
  | loses fire armed next here =>
      rw [here] at hheld
      exact ⟨held, h.idle hheld rfl rfl⟩
  | hands fire armed next here =>
      rw [here] at hheld
      cases hheld
      refine ⟨[], ?_, rfl⟩
      rw [won_append, emitted_append, h.1]
      simp [LoopEvent.settles, LoopEvent.delivery]
  | returns err here ended => exact ⟨held, h.idle hheld.length_le rfl rfl⟩

/-- The time of a fire has come, unless the wait for it was cut short. -/
def Due (fire armed now : ℤ) : Prop := fire - armed ≤ maxDuration → fire ≤ now

def Ripe (now : ℤ) : LoopPhase → Prop
  | .asking fire armed _ => Due fire armed now
  | .handing fire armed _ => Due fire armed now
  | _ => True

theorem Ripe.mono {p : LoopPhase} {now : ℤ} (h : Ripe now p) (d : ℕ) : Ripe (now + d) p := by
  cases p with
  | asking fire armed next =>
      intro hrange
      have := h hrange
      omega
  | handing fire armed next =>
      intro hrange
      have := h hrange
      omega
  | seeking | arming | waiting | returned => trivial

structure OnTime (s : LoopState) (os : List LoopEvent) : Prop where
  fires : ∀ x ∈ emitted os, Due x.fire x.armed x.handed
  phase : Ripe s.now s.phase

theorem OnTime.idle (h : OnTime s os) (hphase : Ripe s'.now s'.phase)
    (he : e.bind LoopEvent.delivery = none) : OnTime s' (os ++ e.toList) := by
  refine ⟨?_, hphase⟩
  rw [emitted_append, he, Option.toList_none, List.append_nil]
  exact h.fires

theorem OnTime.step (h : OnTime s os) (hs : LoopStep c s s' e) : OnTime s' (os ++ e.toList) := by
  have hphase := h.phase
  cases hs with
  | passes d => exact h.idle (hphase.mono d) rfl
  | cancels err => exact h.idle hphase rfl
  | misses next here due => exact h.idle trivial rfl
  | stays next here ahead => exact h.idle trivial rfl
  | arms next here => exact h.idle trivial rfl
  | wakes next armed here elapsed =>
      refine h.idle ?_ rfl
      intro hrange
      exact (add_timeSub_of_le hrange).trans elapsed
  | wins fire armed next here =>
      rw [here] at hphase
      exact h.idle hphase rfl
  | loses fire armed next here => exact h.idle trivial rfl
  | hands fire armed next here =>
      rw [here] at hphase
      refine ⟨?_, trivial⟩
      intro x hx
      rw [emitted_append, List.mem_append] at hx
      rcases hx with hx | hx
      · exact h.fires x hx
      · obtain rfl : x = ⟨fire, armed, s.now⟩ := List.mem_singleton.mp hx
        exact hphase
  | returns err here ended => exact h.idle trivial rfl

/-- What `Stream` does, called when the clock reads `start`, in state `s` after the events `os`. -/
structure StreamLaw (c : Source) (start : ℤ) (s : LoopState) (os : List LoopEvent) : Prop where
  iterate : ∀ x ∈ emitted os, ∃ n,
    c.schedule.iterate (c.schedule.next start) n = some x.fire
  increasing : ((emitted os).map StreamFire.fire).Pairwise (· < ·)
  -- Unless the instant was more than 292 years ahead of the clock that the wait was computed from.
  onTime : ∀ x ∈ emitted os, x.fire - x.armed ≤ maxDuration → x.fire ≤ x.handed
  missed : ∀ t, .missed t ∈ os → ∀ x ∈ emitted os, x.fire ≠ t
  once : ∀ t, .asked t true ∈ os →
    ((emitted os).map StreamFire.fire).count t = 1 ∨
      ((emitted os).map StreamFire.fire).count t = 0 ∧
        ((∃ armed next, s.phase = .handing t armed next) ∨ ∃ err, s.phase = .returned err)
  skip : ∀ next, s.phase = .seeking next → ∀ d : ℕ → ℕ,
    (SkipEnds c s d ↔
      ∃ n, ∀ t, c.schedule.iterate next n = some t → clockAfter s.now d (n + 1) < t) ∧
    ∀ b, Unbounded c.schedule next → (∀ k, clockAfter s.now d k ≤ b) → SkipEnds c s d

section Run

variable {start : ℤ} {ls : List LoopLabel} (hr : run c.step (c.stream start) ls = some s)

include hr

theorem run_follows :
    ∃ n, Follows c.schedule (c.schedule.next start) s (c.trace (c.stream start) ls) n := by
  refine run_loop (I := fun s os => ∃ n, Follows c.schedule (c.schedule.next start) s os n)
    ?_ ⟨0, rfl, rfl⟩ hr
  rintro s s' e os ⟨n, h⟩ hs
  exact h.step hs

theorem run_delivers : ∃ held, Delivers s (c.trace (c.stream start) ls) held := by
  refine run_loop (I := fun s os => ∃ held, Delivers s os held) ?_ ⟨[], rfl, rfl⟩ hr
  rintro s s' e os ⟨held, h⟩ hs
  exact h.step hs

theorem run_onTime : OnTime s (c.trace (c.stream start) ls) := by
  refine run_loop ?_ ⟨fun x hx => (by cases hx), trivial⟩ hr
  intro s s' e os h hs
  exact h.step hs

end Run

theorem mem_passed {w : Bool} {e : LoopEvent} (he : e.settles = some (t, w)) (h : e ∈ os) :
    (t, w) ∈ passed os :=
  List.mem_filterMap.mpr ⟨e, h, he⟩

theorem mem_won : t ∈ won os ↔ (t, true) ∈ passed os := by
  simp [won]

theorem Delivers.mem_won_of_mem (h : Delivers s os held) {x : StreamFire} (hx : x ∈ emitted os) :
    x.fire ∈ won os := by
  rw [h.1]
  exact List.mem_append_left held (List.mem_map_of_mem hx)

theorem Follows.nodup (h : Follows c.schedule first s os n) : ((passed os).map Prod.fst).Nodup := by
  rw [h.instants]
  exact (c.schedule.pairwise_iterates first n).imp ne_of_lt

theorem Follows.pairwise_won (h : Follows c.schedule first s os n) : (won os).Pairwise (· < ·) := by
  have hpassed := c.schedule.pairwise_iterates first n
  rw [← h.instants] at hpassed
  exact hpassed.sublist (List.filter_sublist.map Prod.fst)

theorem Follows.exists_iterate (h : Follows c.schedule first s os n) (ht : t ∈ won os) :
    ∃ m, c.schedule.iterate first m = some t := by
  have hmem : t ∈ (passed os).map Prod.fst := List.mem_map_of_mem (mem_won.mp ht)
  rw [h.instants] at hmem
  exact c.schedule.mem_iterates hmem

theorem Follows.not_won_of_missed (h : Follows c.schedule first s os n) (ht : .missed t ∈ os) :
    t ∉ won os := by
  intro hwon
  have heq : (t, false) = (t, true) :=
    List.inj_on_of_nodup_map h.nodup (mem_passed rfl ht) (mem_won.mp hwon) rfl
  cases heq

theorem Delivers.once (h : Delivers s os held) (hnodup : (won os).Nodup) (ht : t ∈ won os) :
    ((emitted os).map StreamFire.fire).count t = 1 ∨
      ((emitted os).map StreamFire.fire).count t = 0 ∧
        ((∃ armed next, s.phase = .handing t armed next) ∨ ∃ err, s.phase = .returned err) := by
  rw [h.1] at ht hnodup
  rw [List.nodup_append] at hnodup
  obtain ⟨hfires, -, hapart⟩ := hnodup
  rcases List.mem_append.mp ht with hfire | hheld
  · exact .inl (List.count_eq_one_of_mem hfires hfire)
  · refine .inr ⟨List.count_eq_zero_of_not_mem fun hfire => hapart t hfire t hheld rfl, ?_⟩
    have hholds := h.2
    cases hphase : s.phase with
    | handing fire armed next =>
        rw [hphase] at hholds
        cases hholds
        cases List.mem_singleton.mp hheld
        exact .inl ⟨armed, next, rfl⟩
    | returned err => exact .inr ⟨err, rfl⟩
    | seeking | arming | waiting | asking =>
        rw [hphase] at hholds
        cases hholds
        cases hheld

theorem stream_follows_schedule (c : Source) (start : ℤ) {ls : List LoopLabel} {s : LoopState}
    (hr : run c.step (c.stream start) ls = some s) :
    StreamLaw c start s (c.trace (c.stream start) ls) := by
  obtain ⟨n, hfollows⟩ := run_follows hr
  obtain ⟨held, hdelivers⟩ := run_delivers hr
  have hwon := hfollows.pairwise_won
  refine ⟨?_, ?_, (run_onTime hr).fires, ?_, ?_, ?_⟩
  · intro x hx
    exact hfollows.exists_iterate (hdelivers.mem_won_of_mem hx)
  · rw [hdelivers.1] at hwon
    exact hwon.sublist (List.sublist_append_left _ held)
  · intro t ht x hx heq
    exact hfollows.not_won_of_missed ht (heq ▸ hdelivers.mem_won_of_mem hx)
  · intro t ht
    exact hdelivers.once (hwon.imp ne_of_lt) (mem_won.mpr (mem_passed rfl ht))
  · intro next hphase d
    refine ⟨skipEnds_iff hphase d, ?_⟩
    intro b hunbounded hb
    exact skipEnds_of_bounded hphase d hunbounded hb

def everySecond : Source := constantDelay 1000000000 (by decide) true

/-- The receiver takes the first fire two and a half seconds late; at the fourth one the gate
fails. -/
def overrun : List LoopLabel :=
  [.look, .arm, .tick 1000000000, .timer, .answer (.ok true), .tick 2500000000, .hand,
    .look, .look, .look, .arm, .tick 500000000, .timer, .answer (.error (.new "gate"))]

theorem stream_follows_schedule_overrun :
    ∃ s, run everySecond.step (everySecond.stream 0) overrun = some s ∧
      everySecond.trace (everySecond.stream 0) overrun =
        [.asked 1000000000 true, .handed ⟨1000000000, 0, 3500000000⟩, .missed 2000000000,
          .missed 3000000000, .asked 4000000000 false] ∧
      StreamLaw everySecond 0 s (everySecond.trace (everySecond.stream 0) overrun) :=
  ⟨_, rfl, rfl, stream_follows_schedule everySecond 0 rfl⟩

def everyNanosecond : Source := constantDelay 1 (by decide) false

/-- One nanosecond more than `maxDuration`. -/
def overlongDelay : Source := constantDelay (2 ^ 63) (by decide) false

def lifetime : List LoopLabel :=
  [.look, .arm, .tick (2 ^ 63 - 1), .timer, .answer (.ok true), .hand]

/-- A wait of more than `maxDuration` is over too early, and a schedule that fires every nanosecond
never catches up with a clock that moves on by two in each turn. -/
theorem schedule_outrun :
    (∃ s x, run overlongDelay.step (overlongDelay.stream 0) lifetime = some s ∧
      emitted (overlongDelay.trace (overlongDelay.stream 0) lifetime) = [x] ∧
      x.handed < x.fire) ∧
    Unbounded everyNanosecond.schedule (everyNanosecond.schedule.next 0) ∧
    ¬ SkipEnds everyNanosecond (everyNanosecond.stream 0) fun _ => 2 := by
  have hiterate (n : ℕ) : everyNanosecond.schedule.iterate (everyNanosecond.schedule.next 0) n =
      some (0 + (1 : ℕ) + n * (1 : ℕ)) :=
    iterate_constantDelay 1 (by decide) false _ n
  refine ⟨⟨_, ⟨2 ^ 63, 0, 2 ^ 63 - 1⟩, rfl, rfl, by decide⟩, ?_, ?_⟩
  · intro b
    refine ⟨b.toNat, ?_⟩
    intro t ht
    rw [hiterate] at ht
    cases ht
    omega
  · rw [skipEnds_iff rfl]
    rintro ⟨n, hn⟩
    have hlt := hn _ (hiterate n)
    have hnow : (everyNanosecond.stream 0).now = 0 := rfl
    rw [clockAfter_const, hnow] at hlt
    omega

end Msgin.Cron
