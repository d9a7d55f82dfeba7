import Msgin.Errors
import Msgin.Interaction
import Msgin.SqlEngines

/-!
# The elector dialects

`AcquireOrRenew` of `postgresElector`, `mysqlElector` and `sqliteElector` on the lease row of one
scope that fits its column. A dialect is a program over single statements, each of them atomic on
the committed row; the clock of the server is read once in each statement.
-/

namespace Msgin.Cron

open Interaction Prog
open Msgin.Sql (Engine errTextRefused microseconds)

structure Lease where
  holder : String
  expiresAt : ℤ
  deriving DecidableEq

namespace Lease

/-- `expires_at < now()`. -/
def expired (now : ℤ) (l : Lease) : Bool := l.expiresAt < now

/-- `holder = $2 OR expires_at < now()`. -/
def free (e : Engine) (holder : String) (now : ℤ) (l : Lease) : Bool :=
  e.collation.eq l.holder holder || l.expired now

end Lease

/-- A lease TTL as `NewSQLElector` accepts it, in nanoseconds. -/
abbrev LeaseTTL := { d : ℤ // 0 < d }

def newLease (holder : String) (ttl : LeaseTTL) (now : ℤ) : Lease := ⟨holder, now + microseconds ttl⟩

inductive Statement
  -- `INSERT ... ON CONFLICT (scope) DO UPDATE ... WHERE ... RETURNING holder`.
  | upsert
  | update
  | selectLease
  | insertIgnore
  | selectHolder
  deriving DecidableEq

namespace Statement

abbrev Rows : Statement → Type
  | upsert => Option String
  | update => ℕ
  | selectLease => Option (String × Bool)
  | insertIgnore => ℕ
  | selectHolder => Option String

abbrev Answer (q : Statement) : Type := Except Err q.Rows

/-- What a statement for `holder` answers, and the lease row after it. An update that leaves the row
as it was affects no row. -/
def exec (e : Engine) (holder : String) (ttl : LeaseTTL) (now : ℤ) (row : Option Lease) :
    (q : Statement) → q.Answer × Option Lease
  | upsert =>
    if e.fits holder then
      if row.all (Lease.free e holder now) then
        (.ok (some holder), some (newLease holder ttl now))
      else (.ok none, row)
    else (.error errTextRefused, row)
  | update =>
    match row with
    | none => (.ok (0 : ℕ), none)
    | some l =>
      if l.free e holder now then
        if e.fits holder then
          (.ok (if l = newLease holder ttl now then 0 else 1 : ℕ), some (newLease holder ttl now))
        else (.error errTextRefused, some l)
      else (.ok (0 : ℕ), some l)
  | selectLease => (.ok (row.map fun l => (l.holder, l.expired now)), row)
  | insertIgnore =>
    match row with
    | none => (.ok (1 : ℕ), some (newLease (e.storedID holder) ttl now))
    | some l => (.ok (0 : ℕ), some l)
  | selectHolder => (.ok (row.map Lease.holder), row)

end Statement

abbrev ElectorProg := Prog Statement Statement.Answer (Except Err Bool)

def errElectorAcquireFailed : Err := .foreign "msgin/cron: elector acquire did not take effect" []

/-- `postgresElector.AcquireOrRenew`, and `sqliteElector.AcquireOrRenew` with it. -/
def upsertLease (holder : String) : ElectorProg := do
  match ← call Statement.upsert with
  | .error err => return .error err
  | .ok none => return .ok false
  | .ok (some gotHolder) => return .ok (gotHolder == holder)

/-- `INSERT IGNORE` affected no row: the second verifying read. -/
def recheckHolder (scope holder : String) : ElectorProg := do
  match ← call Statement.selectHolder with
  | .error err => return .error err
  | .ok none =>
    return .error (.wrapped "" (": scope " ++ scope.quote ++
      " (INSERT IGNORE affected no row and none exists)") errElectorAcquireFailed)
  | .ok (some curHolder) => return .ok (curHolder == holder)

/-- The third step: the row was absent. -/
def insertLease (scope holder : String) : ElectorProg := do
  match ← call Statement.insertIgnore with
  | .error err => return .error err
  | .ok ins => if ins = 1 then return .ok true else recheckHolder scope holder

def verifyLease (scope holder : String) : ElectorProg := do
  match ← call Statement.selectLease with
  | .error err => return .error err
  | .ok none => insertLease scope holder
  | .ok (some (curHolder, expired)) => return .ok (curHolder == holder && !expired)

/-- `mysqlElector.AcquireOrRenew`. -/
def updateLease (scope holder : String) : ElectorProg := do
  match ← call Statement.update with
  | .error err => return .error err
  | .ok n => if 1 ≤ n then return .ok true else verifyLease scope holder

def acquireOrRenew (e : Engine) (scope holder : String) : ElectorProg :=
  match e with
  | .mysql _ => updateLease scope holder
  | _ => upsertLease holder

variable {e : Engine} {holder : String} {ttl : LeaseTTL} {now : ℤ} {row : Option Lease}

theorem le_newLease_expiresAt (holder : String) (ttl : LeaseTTL) (now : ℤ) :
    now ≤ (newLease holder ttl now).expiresAt := by
  have hmicros : 0 ≤ microseconds ttl := Int.tdiv_nonneg (Int.le_of_lt ttl.2) (by decide)
  exact Int.le_add_of_nonneg_right hmicros

namespace Statement

/-- A statement leaves the row as it is, or it writes the lease of its own holder to a row that is
absent or free. -/
theorem exec_row (hstored : e.storedID holder = holder) (ttl : LeaseTTL) (now : ℤ)
    (row : Option Lease) (q : Statement) :
    (q.exec e holder ttl now row).2 = row ∨
      (q.exec e holder ttl now row).2 = some (newLease holder ttl now) ∧
        row.all (Lease.free e holder now) = true := by
  cases q with
  | upsert =>
      by_cases hfits : e.fits holder = true
      · by_cases hfree : row.all (Lease.free e holder now) = true
        · exact .inr ⟨by rw [exec, if_pos hfits, if_pos hfree], hfree⟩
        · exact .inl (by rw [exec, if_pos hfits, if_neg hfree])
      · exact .inl (by rw [exec, if_neg hfits])
  | update =>
      cases row with
      | none => exact .inl rfl
      | some l =>
          by_cases hfree : l.free e holder now = true
          · by_cases hfits : e.fits holder = true
            · exact .inr ⟨by simp only [exec, if_pos hfree, if_pos hfits], hfree⟩
            · exact .inl (by simp only [exec, if_pos hfree, if_neg hfits])
          · exact .inl (by simp only [exec, if_neg hfree])
  | selectLease => exact .inl rfl
  | insertIgnore =>
      cases row with
      | none => exact .inr ⟨by simp only [exec, hstored], rfl⟩
      | some l => exact .inl rfl
  | selectHolder => exact .inl rfl

/-- The answers on which a call of `holder` returns true. -/
def grants (holder : String) : (q : Statement) → q.Answer → Bool
  | upsert, .ok (some w) => w == holder
  | update, .ok n => decide (1 ≤ n)
  | selectLease, .ok (some (w, expired)) => w == holder && !expired
  | insertIgnore, .ok n => n == 1
  | selectHolder, .ok (some w) => w == holder
  | _, _ => false

/-- After an answer that grants the lease the row has the holder, and but for the second verifying
read the lease is valid. -/
theorem exec_grants (hstored : e.storedID holder = holder) {q : Statement}
    (h : q.grants holder (q.exec e holder ttl now row).1 = true) :
    ∃ x, (q.exec e holder ttl now row).2 = some ⟨holder, x⟩ ∧ (q ≠ .selectHolder → now ≤ x) := by
  have hnew := le_newLease_expiresAt holder ttl now
  cases q with
  | upsert =>
      by_cases hfits : e.fits holder = true
      · by_cases hfree : row.all (Lease.free e holder now) = true
        · exact ⟨_, by rw [exec, if_pos hfits, if_pos hfree]; rfl, fun _ => hnew⟩
        · rw [exec, if_pos hfits, if_neg hfree] at h
          cases h
      · rw [exec, if_neg hfits] at h
        cases h
  | update =>
      cases row with
      | none => cases h
      | some l =>
          by_cases hfree : l.free e holder now = true
          · by_cases hfits : e.fits holder = true
            · exact ⟨_, by simp only [exec, if_pos hfree, if_pos hfits]; rfl, fun _ => hnew⟩
            · simp only [exec, if_pos hfree, if_neg hfits] at h
              cases h
          · simp only [exec, if_neg hfree] at h
            cases h
  | selectLease =>
      cases row with
      | none => cases h
      | some l =>
          obtain ⟨hholder, hexpired⟩ := Bool.and_eq_true_iff.mp h
          obtain rfl : l.holder = holder := eq_of_beq hholder
          refine ⟨l.expiresAt, rfl, fun _ => ?_⟩
          simpa [Lease.expired] using hexpired
  | insertIgnore =>
      cases row with
      | none => exact ⟨_, by simp only [exec, hstored]; rfl, fun _ => hnew⟩
      | some l => cases h
  | selectHolder =>
      cases row with
      | none => cases h
      | some l =>
          obtain rfl : l.holder = holder := eq_of_beq h
          exact ⟨l.expiresAt, rfl, fun hne => absurd rfl hne⟩

end Statement

/-- Whether the last answer granted the lease, and whether the row was found absent. -/
structure Look where
  granted : Bool
  absent : Bool

/-- The second verifying read is out of order before the row was found absent. -/
def look (holder : String) (m : Look) : (q : Statement) → q.Answer → Option Look
  | .selectLease, .ok none => some ⟨false, true⟩
  | .selectHolder, r => if m.absent then some ⟨Statement.grants holder .selectHolder r, true⟩ else none
  | q, r => some ⟨q.grants holder r, m.absent⟩

/-- A call returns true on an answer that grants the lease. -/
def TrueIfGranted (r : Except Err Bool) (m : Look) : Prop := r = .ok true → m.granted = true

theorem meets_upsertLease (holder : String) (m : Look) :
    Meets (look holder) TrueIfGranted (upsertLease holder) m := by
  rintro (err | (_ | w))
  · exact ⟨_, rfl, (by intro h; cases h)⟩
  · exact ⟨_, rfl, (by intro h; cases h)⟩
  · exact ⟨_, rfl, fun h => Except.ok.inj h⟩

theorem meets_recheckHolder (scope holder : String) {m : Look} (h : m.absent = true) :
    Meets (look holder) TrueIfGranted (recheckHolder scope holder) m := by
  rintro (err | (_ | w))
  · exact ⟨_, if_pos h, (by intro h; cases h)⟩
  · exact ⟨_, if_pos h, (by intro h; cases h)⟩
  · exact ⟨_, if_pos h, fun h => Except.ok.inj h⟩

theorem meets_insertLease (scope holder : String) {m : Look} (h : m.absent = true) :
    Meets (look holder) TrueIfGranted (insertLease scope holder) m := by
  rintro (err | n)
  · exact ⟨_, rfl, (by intro h; cases h)⟩
  · refine ⟨_, rfl, ?_⟩
    by_cases hn : n = 1
    · subst hn
      exact fun _ => rfl
    · show Meets _ _ (if n = 1 then _ else _) _
      rw [if_neg hn]
      exact meets_recheckHolder scope holder h

theorem meets_verifyLease (scope holder : String) (m : Look) :
    Meets (look holder) TrueIfGranted (verifyLease scope holder) m := by
  rintro (err | (_ | ⟨w, expired⟩))
  · exact ⟨_, rfl, (by intro h; cases h)⟩
  · exact ⟨_, rfl, meets_insertLease scope holder rfl⟩
  · exact ⟨_, rfl, fun h => Except.ok.inj h⟩

theorem meets_updateLease (scope holder : String) (m : Look) :
    Meets (look holder) TrueIfGranted (updateLease scope holder) m := by
  rintro (err | n)
  · exact ⟨_, rfl, (by intro h; cases h)⟩
  · refine ⟨_, rfl, ?_⟩
    by_cases hn : 1 ≤ n
    · show Meets _ _ (if 1 ≤ n then _ else _) _
      rw [if_pos hn]
      exact fun _ => decide_eq_true hn
    · show Meets _ _ (if 1 ≤ n then _ else _) _
      rw [if_neg hn]
      exact meets_verifyLease scope holder _

theorem meets_acquireOrRenew (e : Engine) (scope holder : String) (m : Look) :
    Meets (look holder) TrueIfGranted (acquireOrRenew e scope holder) m := by
  cases e with
  | postgres => exact meets_upsertLease holder m
  | mysql _ => exact meets_updateLease scope holder m
  | sqlite => exact meets_upsertLease holder m

end Msgin.Cron
