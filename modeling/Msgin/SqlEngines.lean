import Mathlib.Data.Int.Notation
import Msgin.Errors

/-!
# The database engines

What the dialects of `adapter/database/sql` and `adapter/cron` depend on beside their statements:
how text columns compare and what they take, which engine skips locked rows, and how durations reach
a statement. Times are microseconds of the server clock and durations are nanoseconds.
-/

namespace Msgin.Sql

/-- How an engine compares text columns. -/
structure Collation where
  eq : String → String → Bool
  refl : ∀ s, eq s s = true

def Collation.binary : Collation where
  eq a b := a == b
  refl s := beq_self_eq_true s

inductive Engine
  | postgres
  | mysql (collation : Collation)
  | sqlite

namespace Engine

def collation : Engine → Collation
  | mysql c => c
  | _ => .binary

def name : Engine → String
  | postgres => "postgres"
  | mysql _ => "mysql"
  | sqlite => "sqlite"

/-- The text columns of the reference schemas are `VARCHAR(255)`, and `TEXT` on SQLite. PostgreSQL
has no text with the character zero. -/
def fits : Engine → String → Bool
  | postgres, s => decide (s.toList.length ≤ 255) && s.toList.all fun c => c.toNat ≠ 0
  | mysql _, s => s.toList.length ≤ 255
  | sqlite, _ => true

/-- What an insert stores of a text. One that does not fit its column is an error, and the
`INSERT IGNORE` of MySQL makes a warning of it and cuts the text. -/
def insertText (e : Engine) (s : String) : Option String :=
  match e with
  | mysql _ => some (String.ofList (s.toList.take 255))
  | postgres | sqlite => if e.fits s then some s else none

def storedID (e : Engine) (s : String) : String := (e.insertText s).getD s

/-- A claim passes over the rows that another open transaction has locked. -/
def skipsLocked : Engine → Bool
  | sqlite => false
  | _ => true

/-- `id INTEGER PRIMARY KEY` takes the highest id present plus one; `BIGSERIAL` and
`AUTO_INCREMENT` count on from the last id given out. -/
def reusesIDs : Engine → Bool
  | sqlite => true
  | _ => false

theorem storedID_mysql (c : Collation) (s : String) :
    (mysql c).storedID s = String.ofList (s.toList.take 255) := rfl

variable {e : Engine} {s : String}

theorem insertText_of_fits (h : e.fits s = true) : e.insertText s = some s := by
  cases e with
  | mysql c =>
      rw [insertText, List.take_of_length_le (of_decide_eq_true h), String.ofList_toList]
  | postgres | sqlite => simp only [insertText, if_pos h]

theorem storedID_of_fits (h : e.fits s = true) : e.storedID s = s := by
  rw [storedID, insertText_of_fits h, Option.getD_some]

/-- Only MySQL cuts a text. -/
theorem storedID_of_ne_mysql (h : ∀ c, e ≠ mysql c) (s : String) : e.storedID s = s := by
  by_cases hfits : e.fits s = true
  · exact storedID_of_fits hfits
  · cases e with
    | mysql c => exact absurd rfl (h c)
    | postgres | sqlite => simp only [storedID, insertText, if_neg hfits, Option.getD_none]

theorem fits_mysql_of_storedID {c : Collation} (h : (mysql c).storedID s = s) :
    (mysql c).fits s = true := by
  have hlength := congrArg (fun s => s.toList.length) h
  rw [storedID_mysql, String.toList_ofList, List.length_take] at hlength
  exact decide_eq_true (by omega)

end Engine

/-- The driver's error for a text that does not fit its column. -/
def errTextRefused : Err := .foreign "the column does not take the text" []

/-- What becomes of a statement. One that is reported as failed may have been applied. -/
inductive Execution
  | done
  -- `INSERT IGNORE` makes a warning of an error.
  | demoted
  | failed (err : Err) (applied : Bool)

/-- `Duration.Microseconds`. -/
def microseconds (d : ℤ) : ℤ := d.tdiv 1000

/-- `time.Time` at its zero value, in microseconds since the Unix epoch. -/
def zeroTime : ℤ := -62135596800000000

end Msgin.Sql
