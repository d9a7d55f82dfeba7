import Msgin.CronFleet

/-!
# The locker dialects

`ClaimFire` of `postgresLocker`, `mysqlLocker` and `sqliteLocker` on the table of fired keys. A
dialect is a program over single statements, each of them atomic on the committed table, whose keys
are unique. What `fire.UTC()` prints is a parameter.
-/

namespace Msgin.Cron

open Interaction Prog
open Msgin.Sql (Engine Execution)

/-- `(scope, fire_ts)`. -/
abbrev FiredKey := String × ℤ

inductive LockerStatement
  -- `INSERT ... ON CONFLICT (scope, fire_ts) DO NOTHING RETURNING scope`.
  | insertReturning
  | insertIgnore
  -- `SELECT scope ... LOCK IN SHARE MODE`.
  | selectScope

namespace LockerStatement

abbrev Rows : LockerStatement → Type
  | insertReturning => Option String
  | insertIgnore => ℕ
  | selectScope => Option String

abbrev Answer (q : LockerStatement) : Type := Except Err q.Rows

def exec (key : FiredKey) (fired : List FiredKey) :
    (q : LockerStatement) → q.Rows × List FiredKey
  | insertReturning => if key ∈ fired then (none, fired) else (some key.1, key :: fired)
  | insertIgnore => if key ∈ fired then (0, fired) else (1, key :: fired)
  | selectScope => (if key ∈ fired then some key.1 else none, fired)

def answer (key : FiredKey) (fired : List FiredKey) :
    (q : LockerStatement) → Execution → Option (q.Answer × List FiredKey)
  | q, .done => some (.ok (q.exec key fired).1, (q.exec key fired).2)
  | insertIgnore, .demoted => some (.ok (0 : ℕ), fired)
  | _, .demoted => none
  | q, .failed err applied => some (.error err, if applied then (q.exec key fired).2 else fired)

end LockerStatement

abbrev LockerProg := Prog LockerStatement LockerStatement.Answer (Except Err Bool)

def errLockerClaimFailed : Err :=
  .foreign "msgin/cron: locker claim did not take effect and is not a conflict" []

/-- `postgresLocker.ClaimFire`, and `sqliteLocker.ClaimFire` with it. -/
def insertFire : LockerProg := do
  match ← call LockerStatement.insertReturning with
  | .error err => return .error err
  | .ok none => return .ok false
  | .ok (some _) => return .ok true

/-- `INSERT IGNORE` affected no row: the verifying read. -/
def verifyFire (utc : ℤ → String) (key : FiredKey) : LockerProg := do
  match ← call LockerStatement.selectScope with
  | .error err => return .error err
  | .ok none =>
    return .error (.wrapped "" (": scope " ++ key.1.quote ++ " fire " ++ utc key.2 ++
      " (INSERT IGNORE affected no row and none exists)") errLockerClaimFailed)
  | .ok (some _) => return .ok false

/-- `mysqlLocker.ClaimFire`. -/
def insertIgnoreFire (utc : ℤ → String) (key : FiredKey) : LockerProg := do
  match ← call LockerStatement.insertIgnore with
  | .error err => return .error err
  | .ok n => if n = 1 then return .ok true else verifyFire utc key

def claimFire (e : Engine) (utc : ℤ → String) (key : FiredKey) : LockerProg :=
  match e with
  | .mysql _ => insertIgnoreFire utc key
  | .postgres | .sqlite => insertFire

def LockerStatement.inserts : (q : LockerStatement) → q.Answer → Bool
  | insertReturning, .ok row => row.isSome
  | insertIgnore, .ok n => n == 1
  | _, _ => false

/-- The monitor of one claim: whether an answer said that the key was inserted. -/
def watch (m : Bool) (q : LockerStatement) (r : q.Answer) : Option Bool := some (m || q.inserts r)

/-- A claim returns true only after such an answer. -/
def WinsIfInserted (r : Except Err Bool) (m : Bool) : Prop := r = .ok true → m = true

theorem meets_insertFire : Meets watch WinsIfInserted insertFire false := by
  intro r
  refine ⟨_, rfl, ?_⟩
  rcases r with err | _ | scope
  · intro h
    cases h
  · intro h
    cases h
  · intro _
    rfl

theorem meets_verifyFire (utc : ℤ → String) (key : FiredKey) :
    Meets watch WinsIfInserted (verifyFire utc key) false := by
  intro r
  refine ⟨_, rfl, ?_⟩
  rcases r with err | _ | scope <;> intro h <;> cases h

theorem meets_insertIgnoreFire (utc : ℤ → String) (key : FiredKey) :
    Meets watch WinsIfInserted (insertIgnoreFire utc key) false := by
  intro r
  refine ⟨_, rfl, ?_⟩
  rcases r with err | n
  · intro h
    cases h
  · by_cases hn : n = 1
    · subst hn
      intro _
      rfl
    · have hinserts : LockerStatement.inserts .insertIgnore (.ok n) = false := by
        simpa [LockerStatement.inserts] using hn
      rw [hinserts]
      change Meets watch WinsIfInserted
        (if n = 1 then ret (.ok true) else verifyFire utc key) false
      rw [if_neg hn]
      exact meets_verifyFire utc key

theorem meets_of_inserted (p : LockerProg) : Meets watch WinsIfInserted p true := by
  induction p with
  | ret r =>
      intro _
      rfl
  | ask q k ih =>
      intro r
      exact ⟨true, rfl, ih r⟩

theorem meets_claimFire (e : Engine) (utc : ℤ → String) (key : FiredKey) (m : Bool) :
    Meets watch WinsIfInserted (claimFire e utc key) m := by
  cases m with
  | true => exact meets_of_inserted _
  | false =>
      cases e with
      | postgres => exact meets_insertFire
      | mysql c => exact meets_insertIgnoreFire utc key
      | sqlite => exact meets_insertFire

/-- Keys stay, and an answer that the key was inserted comes once: the key was not there. -/
theorem answer_cases {key : FiredKey} {fired fired' : List FiredKey} {q : LockerStatement}
    {o : Execution} {r : q.Answer} (h : q.answer key fired o = some (r, fired')) :
    (∀ k ∈ fired, k ∈ fired') ∧ (q.inserts r = true → key ∉ fired ∧ key ∈ fired') := by
  have hexec : (∀ k ∈ fired, k ∈ (q.exec key fired).2) ∧
      (q.inserts (.ok (q.exec key fired).1) = true → key ∉ fired ∧ key ∈ (q.exec key fired).2) := by
    cases q with
    | insertReturning =>
        by_cases hkey : key ∈ fired
        · simp [LockerStatement.exec, LockerStatement.inserts, hkey]
        · simp +contextual [LockerStatement.exec, hkey]
    | insertIgnore =>
        by_cases hkey : key ∈ fired
        · simp [LockerStatement.exec, LockerStatement.inserts, hkey]
        · simp +contextual [LockerStatement.exec, hkey]
    | selectScope => exact ⟨fun _ hk => hk, fun hr => by cases hr⟩
  cases o with
  | done =>
      cases q <;> cases h <;> exact hexec
  | demoted =>
      cases q with
      | insertIgnore =>
          cases h
          exact ⟨fun _ hk => hk, fun hr => by cases hr⟩
      | insertReturning => cases h
      | selectScope => cases h
  | failed err applied =>
      have hr : r = .error err ∧ fired' = if applied then (q.exec key fired).2 else fired := by
        cases q <;> cases h <;> exact ⟨rfl, rfl⟩
      obtain ⟨rfl, rfl⟩ := hr
      refine ⟨?_, fun hr => by cases q <;> cases hr⟩
      cases applied with
      | true => exact hexec.1
      | false => exact fun _ hk => hk

end Msgin.Cron
