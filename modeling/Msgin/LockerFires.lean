import Msgin.KeyedMaps
import Msgin.LockerFleet

/-!
# The fires of a locker fleet

A fire is emitted by the stream whose claim inserted its key, and a stream's instants only grow, so
no instant is emitted twice.
-/

namespace Msgin.Cron

open Interaction Prog TransitionRuns LockerFleet
open Msgin.Sql (Execution)

variable {f : LockerFleet} {s s' : LockerState} {i : ℕ} {p : StreamPhase}

theorem streams_put (s : LockerState) (i : ℕ) (p : StreamPhase) (j : ℕ) :
    j = i ∧ (put s i p).streams j = p ∨ j ≠ i ∧ (put s i p).streams j = s.streams j := by
  change j = i ∧ Function.update s.streams i p j = p ∨
    j ≠ i ∧ Function.update s.streams i p j = s.streams j
  by_cases hj : j = i
  · subst hj
    exact .inl ⟨rfl, Function.update_self ..⟩
  · exact .inr ⟨hj, Function.update_of_ne hj ..⟩

/-- The claims of the streams against the table, where `owner` says which stream inserted a
fire. -/
structure Owned (f : LockerFleet) (owner : ℤ → Option ℕ) (s : LockerState) : Prop where
  kept : ∀ fire i, owner fire = some i → (f.scope, fire) ∈ s.fired
  claiming : ∀ i fire next prog, s.streams i = .claiming fire next prog →
    Meets watch WinsIfInserted prog (owner fire = some i)
  handing : ∀ i fire next, s.streams i = .handing fire next → owner fire = some i
  emitted : ∀ x ∈ s.emitted, owner x.fire = some x.stream

variable {next : Option ℤ} {fire : ℤ}

section Owned

variable {owner : ℤ → Option ℕ} (h : Owned f owner s)

include h

theorem Owned.put
    (hclaiming : ∀ fire next prog, p = .claiming fire next prog →
      Meets watch WinsIfInserted prog (owner fire = some i))
    (hhanding : ∀ fire next, p = .handing fire next → owner fire = some i) :
    Owned f owner (put s i p) := by
  refine ⟨h.kept, ?_, ?_, h.emitted⟩
  · intro j fire next prog hj
    rcases streams_put s i p j with ⟨rfl, hp⟩ | ⟨-, hp⟩ <;> rw [hp] at hj
    · exact hclaiming fire next prog hj
    · exact h.claiming j fire next prog hj
  · intro j fire next hj
    rcases streams_put s i p j with ⟨rfl, hp⟩ | ⟨-, hp⟩ <;> rw [hp] at hj
    · exact hhanding fire next hj
    · exact h.handing j fire next hj

theorem Owned.away (hp : p.following = none) : Owned f owner (LockerFleet.put s i p) := by
  refine h.put ?_ ?_
  · rintro fire next prog rfl
    cases hp
  · rintro fire next rfl
    cases hp

variable {fired : List FiredKey}

theorem Owned.mono (hfired : ∀ k ∈ s.fired, k ∈ fired) :
    Owned f owner { s with fired := fired } := by
  refine ⟨?_, h.claiming, h.handing, h.emitted⟩
  intro fire i hi
  exact hfired _ (h.kept fire i hi)

theorem Owned.insert {prog : LockerProg} (hfired : ∀ k ∈ s.fired, k ∈ fired)
    (hnew : (f.scope, fire) ∉ s.fired) (hkey : (f.scope, fire) ∈ fired)
    (hprog : Meets watch WinsIfInserted prog true) :
    Owned f (Function.update owner fire (some i))
      (LockerFleet.put { s with fired := fired } i (.claiming fire next prog)) := by
  have hnone : owner fire = none := by
    cases howner : owner fire with
    | none => rfl
    | some j => exact absurd (h.kept fire j howner) hnew
  have hkeep : ∀ g j, owner g = some j → Function.update owner fire (some i) g = some j := by
    intro g j hg
    refine (Function.update_of_ne ?_ _ _).trans hg
    rintro rfl
    rw [hnone] at hg
    cases hg
  refine ⟨?_, ?_, ?_, ?_⟩
  · intro g j hg
    rcases KeyedMaps.update_eq_some.mp hg with ⟨rfl, -⟩ | ⟨-, hg⟩
    · exact hkey
    · exact hfired _ (h.kept g j hg)
  · intro j g n prog' hj
    rcases streams_put { s with fired := fired } i (.claiming fire next prog) j with
      ⟨rfl, hp⟩ | ⟨hne, hp⟩ <;> rw [hp] at hj
    · cases hj
      rw [Function.update_self]
      simpa using hprog
    · have hold := h.claiming j g n prog' hj
      by_cases hg : g = fire
      · subst hg
        rw [Function.update_self]
        simpa [hnone, Ne.symm hne] using hold
      · rw [Function.update_of_ne hg]
        exact hold
  · intro j g n hj
    rcases streams_put { s with fired := fired } i (.claiming fire next prog) j with
      ⟨rfl, hp⟩ | ⟨-, hp⟩ <;> rw [hp] at hj
    · cases hj
    · exact hkeep g j (h.handing j g n hj)
  · intro x hx
    exact hkeep x.fire x.stream (h.emitted x hx)

theorem Owned.asks {q : LockerStatement} {k : q.Answer → LockerProg} {o : Execution} {r : q.Answer}
    (here : s.streams i = .claiming fire next (.ask q k))
    (answered : q.answer (f.scope, fire) s.fired o = some (r, fired)) :
    ∃ owner', Owned f owner'
      (LockerFleet.put { s with fired := fired } i (.claiming fire next (k r))) := by
  obtain ⟨hfired, hinserts⟩ := answer_cases answered
  obtain ⟨m, hm, hrest⟩ := h.claiming i fire next _ here r
  cases hm
  cases hr : q.inserts r with
  | true =>
      rw [hr, Bool.or_true] at hrest
      obtain ⟨hnew, hkey⟩ := hinserts hr
      exact ⟨_, h.insert hfired hnew hkey hrest⟩
  | false =>
      rw [hr, Bool.or_false] at hrest
      refine ⟨owner, (h.mono hfired).put ?_ ?_⟩
      · rintro _ _ _ ⟨⟩
        exact hrest
      · rintro _ _ ⟨⟩

theorem Owned.step (hstep : LockerStep f s s') : ∃ owner', Owned f owner' s' := by
  cases hstep with
  | starts i now here => exact ⟨owner, h.away rfl⟩
  | skips i next here => exact ⟨owner, h.away rfl⟩
  | waits i next here => exact ⟨owner, h.away rfl⟩
  | claims i fire here =>
      refine ⟨owner, h.put ?_ ?_⟩
      · rintro _ _ _ ⟨⟩
        exact meets_claimFire _ _ _ _
      · rintro _ _ ⟨⟩
  | asks i fire next q k o r fired here answered => exact h.asks here answered
  | wins i fire next here =>
      refine ⟨owner, h.put ?_ ?_⟩
      · rintro _ _ _ ⟨⟩
      · rintro _ _ ⟨⟩
        exact of_decide_eq_true (h.claiming i fire next _ here rfl)
  | loses i fire next r here => exact ⟨owner, h.away rfl⟩
  | hands i fire next here =>
      have hemitted : Owned f owner { s with emitted := s.emitted ++ [⟨i, fire⟩] } := by
        refine ⟨h.kept, h.claiming, h.handing, ?_⟩
        intro x hx
        rcases List.mem_append.mp hx with hx | hx
        · exact h.emitted x hx
        · rw [List.mem_singleton.mp hx]
          exact h.handing i fire next here
      exact ⟨owner, hemitted.away rfl⟩
  | stops i => exact ⟨owner, h.away rfl⟩
  | grows key => exact ⟨owner, h.mono fun k hk => List.mem_cons_of_mem _ hk⟩

end Owned

structure Paced (f : LockerFleet) (s : LockerState) : Prop where
  fresh : ∀ i, s.streams i = .idle → ∀ x ∈ s.emitted, x.stream ≠ i
  ahead : ∀ i n, (s.streams i).due = some n →
    f.schedule.grid n ∧ ∀ x ∈ s.emitted, x.stream = i → x.fire < n
  follows : ∀ i fire next, (s.streams i).following = some (fire, next) →
    next = f.schedule.next fire
  grid : ∀ x ∈ s.emitted, f.schedule.grid x.fire
  ordered : s.emitted.Pairwise fun x y => x.stream = y.stream → x.fire < y.fire

theorem paced_new : Paced f LockerFleet.new := by
  refine ⟨?_, ?_, ?_, ?_, .nil⟩
  · intro i _ x hx
    cases hx
  · intro i n hn
    cases hn
  · intro i fire next hfollows
    cases hfollows
  · intro x hx
    cases hx

section Paced

variable (h : Paced f s)

include h

theorem Paced.put (hidle : p ≠ .idle)
    (hdue : ∀ n, p.due = some n →
      f.schedule.grid n ∧ ∀ x ∈ s.emitted, x.stream = i → x.fire < n)
    (hfollows : ∀ fire next, p.following = some (fire, next) → next = f.schedule.next fire) :
    Paced f (put s i p) := by
  refine ⟨?_, ?_, ?_, h.grid, h.ordered⟩
  · intro j hj
    rcases streams_put s i p j with ⟨rfl, hp⟩ | ⟨-, hp⟩ <;> rw [hp] at hj
    · exact absurd hj hidle
    · exact h.fresh j hj
  · intro j n hn
    rcases streams_put s i p j with ⟨rfl, hp⟩ | ⟨-, hp⟩ <;> rw [hp] at hn
    · exact hdue n hn
    · exact h.ahead j n hn
  · intro j fire next hnext
    rcases streams_put s i p j with ⟨rfl, hp⟩ | ⟨-, hp⟩ <;> rw [hp] at hnext
    · exact hfollows fire next hnext
    · exact h.follows j fire next hnext

theorem Paced.stay (hidle : p ≠ .idle) (hdue : p.due = (s.streams i).due)
    (hfollows : ∀ fire next, p.following = some (fire, next) → next = f.schedule.next fire) :
    Paced f (LockerFleet.put s i p) := by
  refine h.put hidle ?_ hfollows
  intro n hn
  rw [hdue] at hn
  exact h.ahead i n hn

theorem Paced.advance {t : ℤ} (hdue : ∀ x ∈ s.emitted, x.stream = i → x.fire ≤ t) :
    Paced f (LockerFleet.put s i (.seeking (f.schedule.next t))) := by
  refine h.put (fun hp => by cases hp) ?_ (fun fire next hp => by cases hp)
  intro n hn
  obtain ⟨hgrid, hlt, -⟩ := f.schedule.least t n hn
  refine ⟨hgrid, ?_⟩
  intro x hx hi
  exact Int.lt_of_le_of_lt (hdue x hx hi) hlt

theorem Paced.emit {x : Fire} (hactive : s.streams x.stream ≠ .idle)
    (hgrid : f.schedule.grid x.fire)
    (hdue : ∀ n, (s.streams x.stream).due = some n → x.fire < n)
    (hlast : ∀ y ∈ s.emitted, y.stream = x.stream → y.fire < x.fire) :
    Paced f { s with emitted := s.emitted ++ [x] } := by
  have hemitted : ∀ {P : Fire → Prop}, (∀ y ∈ s.emitted, P y) → P x →
      ∀ y ∈ s.emitted ++ [x], P y := by
    intro P hold hnew y hy
    rcases List.mem_append.mp hy with hy | hy
    · exact hold y hy
    · rw [List.mem_singleton.mp hy]
      exact hnew
  refine ⟨?_, ?_, h.follows, ?_, ?_⟩
  · intro j hj
    refine hemitted (h.fresh j hj) ?_
    rintro rfl
    exact hactive hj
  · intro j n hn
    obtain ⟨hj, hold⟩ := h.ahead j n hn
    refine ⟨hj, hemitted hold ?_⟩
    rintro rfl
    exact hdue n hn
  · exact hemitted h.grid hgrid
  · refine List.pairwise_append.mpr ⟨h.ordered, List.pairwise_singleton _ _, ?_⟩
    intro y hy z hz
    rw [List.mem_singleton.mp hz]
    exact hlast y hy

theorem Paced.hands (here : s.streams i = .handing fire next) :
    Paced f (LockerFleet.put { s with emitted := s.emitted ++ [⟨i, fire⟩] } i (.seeking next)) := by
  obtain ⟨hgrid, hless⟩ := h.ahead i fire (by rw [here]; rfl)
  have hnext := h.follows i fire next (by rw [here]; rfl)
  subst hnext
  have hmoved : Paced f (LockerFleet.put s i (.seeking (f.schedule.next fire))) :=
    h.advance fun x hx hi => Int.le_of_lt (hless x hx hi)
  have hi : (LockerFleet.put s i (.seeking (f.schedule.next fire))).streams i =
      .seeking (f.schedule.next fire) := Function.update_self ..
  refine hmoved.emit (x := ⟨i, fire⟩) ?_ hgrid ?_ hless
  · rw [hi]
    intro hidle
    cases hidle
  · rw [hi]
    intro n hn
    exact (f.schedule.least fire n hn).2.1

theorem Paced.step (hstep : LockerStep f s s') : Paced f s' := by
  cases hstep with
  | starts i now here =>
      refine h.advance fun x hx hi => ?_
      exact absurd hi (h.fresh i here x hx)
  | skips i next here =>
      refine h.advance fun x hx hi => ?_
      exact Int.le_of_lt ((h.ahead i next (by rw [here]; rfl)).2 x hx hi)
  | waits i next here =>
      refine h.stay (fun hp => by cases hp) (by rw [here]; rfl) ?_
      intro fire next hp
      cases hp
  | claims i fire here =>
      refine h.stay (fun hp => by cases hp) (by rw [here]; rfl) ?_
      rintro _ _ ⟨⟩
      rfl
  | asks i fire next q k o r fired here answered =>
      have hfired : Paced f { s with fired := fired } :=
        ⟨h.fresh, h.ahead, h.follows, h.grid, h.ordered⟩
      refine hfired.stay (fun hp => by cases hp) (by rw [here]; rfl) ?_
      rintro _ _ ⟨⟩
      exact h.follows i fire next (by rw [here]; rfl)
  | wins i fire next here =>
      refine h.stay (fun hp => by cases hp) (by rw [here]; rfl) ?_
      rintro _ _ ⟨⟩
      exact h.follows i fire next (by rw [here]; rfl)
  | loses i fire next r here =>
      have hnext := h.follows i fire next (by rw [here]; rfl)
      subst hnext
      refine h.advance fun x hx hi => ?_
      exact Int.le_of_lt ((h.ahead i fire (by rw [here]; rfl)).2 x hx hi)
  | hands i fire next here => exact h.hands here
  | stops i =>
      refine h.put (fun hp => by cases hp) ?_ ?_
      · intro n hn
        cases hn
      · intro fire next hp
        cases hp
  | grows key => exact ⟨h.fresh, h.ahead, h.follows, h.grid, h.ordered⟩

end Paced

def LockerInv (f : LockerFleet) (s : LockerState) : Prop :=
  (∃ owner, Owned f owner s) ∧ Paced f s

theorem lockerInv_run {ls : List LockerLabel} (hrun : run f.step LockerFleet.new ls = some s) :
    LockerInv f s := by
  refine run_invariant f.step ?_ ⟨⟨fun _ => none, ?_⟩, paced_new⟩ hrun
  · rintro s l s' ⟨⟨owner, howned⟩, hpaced⟩ hstep
    have hcases := lockerStep_of_step hstep
    exact ⟨howned.step hcases, hpaced.step hcases⟩
  · refine ⟨?_, ?_, ?_, ?_⟩
    · intro fire i hi
      cases hi
    · intro i fire next prog hi
      cases hi
    · intro i fire next hi
      cases hi
    · intro x hx
      cases hx

theorem locker_fires (f : LockerFleet) (ls : List LockerLabel)
    (hrun : run f.step LockerFleet.new ls = some s) :
    (s.emitted.map Fire.fire).Nodup ∧
      (∀ i, ((s.emitted.filter fun x => x.stream = i).map Fire.fire).Pairwise (· < ·)) ∧
      ∀ x ∈ s.emitted, f.schedule.grid x.fire := by
  obtain ⟨⟨owner, howned⟩, hpaced⟩ := lockerInv_run hrun
  refine ⟨?_, ?_, hpaced.grid⟩
  · refine List.pairwise_map.mpr (hpaced.ordered.imp_of_mem ?_)
    intro x y hx hy hless hsame
    have howner := howned.emitted x hx
    rw [hsame, howned.emitted y hy, Option.some.injEq] at howner
    exact absurd (hless howner.symm) (hsame ▸ Int.lt_irrefl _)
  · intro i
    refine List.pairwise_map.mpr ((hpaced.ordered.filter _).imp_of_mem ?_)
    intro x y hx hy hless
    have hxi := of_decide_eq_true (List.mem_filter.mp hx).2
    have hyi := of_decide_eq_true (List.mem_filter.mp hy).2
    exact hless (hxi.trans hyi.symm)

/-- Every tenth instant, forever. -/
def decimalSchedule : GridSchedule where
  next t := some ((t / 10 + 1) * 10)
  isEvery := false
  grid t := 10 ∣ t
  least t n h := by
    cases h
    refine ⟨⟨t / 10 + 1, Int.mul_comm _ _⟩, by omega, ?_⟩
    rintro m ⟨k, rfl⟩ hm
    omega
  last t h := by cases h

def decimalFleet : LockerFleet := ⟨.mysql .binary, "reports", decimalSchedule, toString⟩

/-- Two streams claim the same instant; the first one's statement is applied but reported as
failed, and the next instant goes to the second. -/
def racingLabels : List LockerLabel :=
  [.start 0 3, .start 1 5, .look 0 3, .look 1 6, .timer 0, .timer 1,
    .statement 0 (.failed (.new "bad connection") true), .statement 1 .done, .statement 1 .done,
    .result 0, .result 1, .look 1 12, .timer 1, .statement 1 .done, .result 1, .hand 1]

theorem locker_fires_racing :
    ∃ s, run decimalFleet.step LockerFleet.new racingLabels = some s ∧ s.emitted = [⟨1, 20⟩] ∧
      (s.emitted.map Fire.fire).Nodup ∧
      (∀ i, ((s.emitted.filter fun x => x.stream = i).map Fire.fire).Pairwise (· < ·)) ∧
      ∀ x ∈ s.emitted, decimalFleet.schedule.grid x.fire := by
  obtain ⟨s, hs, hemitted⟩ : ∃ s, run decimalFleet.step LockerFleet.new racingLabels = some s ∧
      s.emitted = [⟨1, 20⟩] := ⟨_, rfl, rfl⟩
  exact ⟨s, hs, hemitted, locker_fires decimalFleet racingLabels hs⟩

end Msgin.Cron
