import Mathlib.Data.List.Basic
import Msgin.ElectorDialect
import Msgin.TransitionRuns

/-!
# A fleet on one "@every" schedule

Any number of `Stream` loops that run one "@every" schedule from starts of their own and ask one
`SQLElector` scope for every fire. A loop advances `next` by one step of the schedule each time and
passes over instants that have elapsed before it came back to them. The schedule is a parameter:
wherever it puts the first instant of a loop, each later one is the period after the one before.
Times are microseconds of one clock. The `IsLeader` statement of a fire is carried out at its
instant, or up to `latency` after it.
-/

namespace Msgin.Cron

open Interaction Prog TransitionRuns
open Msgin.Sql (Engine microseconds)

/-- `AcquireOrRenew` with no statement of another call between its own. -/
def alone (e : Engine) (holder : String) (ttl : LeaseTTL) (now : ℤ) :
    ElectorProg → Option Lease → Except Err Bool × Option Lease
  | .ret r, row => (r, row)
  | .ask q k, row =>
    alone e holder ttl now (k (q.exec e holder ttl now row).1) (q.exec e holder ttl now row).2

/-- `SQLElector.IsLeader`. -/
def isLeader (e : Engine) (scope holder : String) (ttl : LeaseTTL) (now : ℤ) (row : Option Lease) :
    Except Err Bool × Option Lease :=
  alone e holder ttl now (acquireOrRenew e scope holder) row

/-- `Source.win`: an error is a loss. -/
def win : Except Err Bool → Bool
  | .ok won => won
  | .error _ => false

structure Fleet where
  engine : Engine
  scope : String
  size : ℕ
  holder : Fin size → String
  distinct : Function.Injective holder
  fits : ∀ i, engine.fits (holder i) = true
  -- `schedule.Next`
  scheduleNext : ℤ → ℤ
  period : ℤ
  period_pos : 0 < period
  every : ∀ t, scheduleNext (scheduleNext t) = scheduleNext t + period
  -- When the `Stream` loop was started.
  start : Fin size → ℤ
  leaseTTL : LeaseTTL
  latency : ℕ

/-- A fire that a loop emitted, with the time of its `IsLeader` statement. -/
structure Emission (size : ℕ) where
  loop : Fin size
  fire : ℤ
  asked : ℤ
  deriving DecidableEq

structure FleetState (size : ℕ) where
  now : ℤ
  row : Option Lease
  next : Fin size → ℤ
  emitted : List (Emission size)

inductive FleetLabel (size : ℕ)
  | tick (d : ℕ)
  | skip (i : Fin size)
  | fire (i : Fin size)

namespace Fleet

variable (f : Fleet)

/-- The first instant of a loop. -/
def first (i : Fin f.size) : ℤ := f.scheduleNext (f.start i)

def new (now : ℤ) : FleetState f.size := ⟨now, none, f.first, []⟩

def advance (s : FleetState f.size) (i : Fin f.size) : Fin f.size → ℤ :=
  Function.update s.next i (f.scheduleNext (s.next i))

def ask (s : FleetState f.size) (i : Fin f.size) : Except Err Bool × Option Lease :=
  isLeader f.engine f.scope (f.holder i) f.leaseTTL s.now s.row

def step (s : FleetState f.size) : FleetLabel f.size → Option (FleetState f.size)
  | .tick d => some { s with now := s.now + d }
  | .skip i => if s.next i ≤ s.now then some { s with next := f.advance s i } else none
  | .fire i =>
    if s.next i ≤ s.now ∧ s.now ≤ s.next i + f.latency then
      some
        { s with
          row := (f.ask s i).2
          next := f.advance s i
          emitted := s.emitted ++ if win (f.ask s i).1 then [⟨i, s.next i, s.now⟩] else [] }
    else none

/-- At most one fire in any window `[a, a + period)`. -/
def SingleFire (s : FleetState f.size) : Prop :=
  ∀ a : ℤ, (s.emitted.filter fun x => a ≤ x.fire ∧ x.fire < a + f.period).length ≤ 1

/-- The engine tells the holders of two loops apart, and their instants, with the latency, are
always within the lease of one another. -/
def LeaseCoversPhases : Prop :=
  ∀ i j, i ≠ j → f.engine.collation.eq (f.holder i) (f.holder j) = false ∧
    (f.first j - f.first i) % f.period + f.latency ≤ microseconds f.leaseTTL

end Fleet

variable {e : Engine} {holder : String} {ttl : LeaseTTL} {now : ℤ} {row : Option Lease}

theorem alone_upsertLease (hfits : e.fits holder = true) :
    alone e holder ttl now (upsertLease holder) row =
      if row.all (Lease.free e holder now) then (.ok true, some (newLease holder ttl now))
      else (.ok false, row) := by
  by_cases hfree : row.all (Lease.free e holder now) = true
  · have hexec : Statement.exec e holder ttl now row .upsert =
        (.ok (some holder), some (newLease holder ttl now)) := by
      rw [Statement.exec, if_pos hfits, if_pos hfree]
    rw [if_pos hfree]
    simp [upsertLease, alone, hexec]
  · have hexec : Statement.exec e holder ttl now row .upsert = (.ok none, row) := by
      rw [Statement.exec, if_pos hfits, if_neg hfree]
    rw [if_neg hfree]
    simp [upsertLease, alone, hexec]

theorem alone_verifyLease (scope : String) (l : Lease) :
    alone e holder ttl now (verifyLease scope holder) (some l) =
      (.ok (l.holder == holder && !l.expired now), some l) := rfl

theorem alone_updateLease (hfits : e.fits holder = true) (scope : String) :
    alone e holder ttl now (updateLease scope holder) row =
      if row.all (Lease.free e holder now) then (.ok true, some (newLease holder ttl now))
      else (.ok false, row) := by
  cases row with
  | none =>
      have halone : alone e holder ttl now (updateLease scope holder) none =
          (.ok true, some (newLease (e.storedID holder) ttl now)) := rfl
      rw [halone, Engine.storedID_of_fits hfits]
      rfl
  | some l =>
      by_cases hfree : l.free e holder now = true
      · rw [Option.all_some, if_pos hfree]
        by_cases hsame : l = newLease holder ttl now
        · have hexec : Statement.exec e holder ttl now (some l) .update =
              (.ok (0 : ℕ), some (newLease holder ttl now)) := by
            simp only [Statement.exec, if_pos hfree, if_pos hfits, if_pos hsame]
          have hvalid : (newLease holder ttl now).expired now = false := by
            have hle := le_newLease_expiresAt holder ttl now
            simpa [Lease.expired] using hle
          have hholder : (newLease holder ttl now).holder = holder := rfl
          simp [updateLease, alone, hexec, alone_verifyLease, hvalid, hholder]
        · have hexec : Statement.exec e holder ttl now (some l) .update =
              (.ok (1 : ℕ), some (newLease holder ttl now)) := by
            simp only [Statement.exec, if_pos hfree, if_pos hfits, if_neg hsame]
          simp [updateLease, alone, hexec]
      · have hexec : Statement.exec e holder ttl now (some l) .update =
            (.ok (0 : ℕ), some l) := by
          simp only [Statement.exec, if_neg hfree]
        have hholder : l.holder ≠ holder := by
          rintro rfl
          exact hfree (by rw [Lease.free, e.collation.refl, Bool.true_or])
        rw [Option.all_some, if_neg hfree]
        simp [updateLease, alone, hexec, alone_verifyLease, hholder]

/-- The three dialects agree on a call that no other call comes between. -/
theorem isLeader_eq (hfits : e.fits holder = true) (scope : String) (ttl : LeaseTTL) (now : ℤ)
    (row : Option Lease) :
    isLeader e scope holder ttl now row =
      if row.all (Lease.free e holder now) then (.ok true, some (newLease holder ttl now))
      else (.ok false, row) := by
  cases e with
  | postgres => exact alone_upsertLease hfits
  | mysql c => exact alone_updateLease hfits scope
  | sqlite => exact alone_upsertLease hfits

variable {f : Fleet}

inductive FleetStep (f : Fleet) (s : FleetState f.size) : FleetState f.size → Prop
  | tick (d : ℕ) : FleetStep f s { s with now := s.now + d }
  | pass (i : Fin f.size) : FleetStep f s { s with next := f.advance s i }
  | fire (i : Fin f.size) (due : s.next i ≤ s.now) (timely : s.now ≤ s.next i + f.latency)
      (free : s.row.all (Lease.free f.engine (f.holder i) s.now) = true) :
      FleetStep f s
        ⟨s.now, some (newLease (f.holder i) f.leaseTTL s.now), f.advance s i,
          s.emitted ++ [⟨i, s.next i, s.now⟩]⟩

theorem fleetStep_of_step {s t : FleetState f.size} {l : FleetLabel f.size}
    (h : f.step s l = some t) : FleetStep f s t := by
  cases l with
  | tick d =>
      obtain rfl := Option.some.inj h
      exact .tick d
  | skip i =>
      obtain ⟨-, h⟩ := Option.ite_none_right_eq_some.mp h
      obtain rfl := Option.some.inj h
      exact .pass i
  | fire i =>
      obtain ⟨⟨hdue, htimely⟩, h⟩ := Option.ite_none_right_eq_some.mp h
      obtain rfl := Option.some.inj h
      by_cases hfree : s.row.all (Lease.free f.engine (f.holder i) s.now) = true
      · have hask : f.ask s i = (.ok true, some (newLease (f.holder i) f.leaseTTL s.now)) := by
          rw [Fleet.ask, isLeader_eq (f.fits i), if_pos hfree]
        rw [hask]
        exact .fire i hdue htimely hfree
      · have hask : f.ask s i = (.ok false, s.row) := by
          rw [Fleet.ask, isLeader_eq (f.fits i), if_neg hfree]
        have hlost : (if win (f.ask s i).1 = true then [Emission.mk i (s.next i) s.now] else []) =
            [] := by
          rw [hask]
          rfl
        rw [hlost, hask, List.append_nil]
        exact .pass i

end Msgin.Cron
