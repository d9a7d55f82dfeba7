import Mathlib.Data.Int.Notation
import Mathlib.Data.Nat.Notation

/-!
# Messages and their headers

The immutable envelope: a payload and a header set. A header value is any value; the
typed accessors of the header set only tell strings, ints and times from the rest.
-/

namespace Msgin

inductive HeaderValue
  | string (s : String)
  | int (n : ℤ)
  | time (t : ℤ)
  | other (tag : ℕ)
  deriving DecidableEq

def headerMessageID : String := "msgin.message-id"
def headerTimestamp : String := "msgin.timestamp"
def headerContentType : String := "msgin.content-type"
def headerCorrelationID : String := "msgin.correlation-id"
def headerDeliveryCount : String := "msgin.delivery-count"

structure Headers where
  m : String → Option HeaderValue

namespace Headers

def string (h : Headers) (key : String) : Option String :=
  match h.m key with
  | some (.string s) => some s
  | _ => none

def int (h : Headers) (key : String) : Option ℤ :=
  match h.m key with
  | some (.int n) => some n
  | _ => none

/-- `with`: a copy in which `key` holds `v`. -/
def withKey (h : Headers) (key : String) (v : HeaderValue) : Headers where
  m := fun k => if k = key then some v else h.m k

def without (h : Headers) (key : String) : Headers where
  m := fun k => if k = key then none else h.m k

theorem int_withKey_self (h : Headers) (key : String) (n : ℤ) :
    (h.withKey key (.int n)).int key = some n := by
  simp [int, withKey]

end Headers

structure Message (α : Type*) where
  payload : α
  headers : Headers

namespace Message

variable {α : Type*}

/-- `New`, where `NewID` and the clock return these. -/
def new (payload : α) (headers : Headers) (id : String) (now : ℤ) : Message α where
  payload := payload
  headers := (headers.withKey headerMessageID (.string id)).withKey headerTimestamp (.time now)

def id (m : Message α) : String := (m.headers.string headerMessageID).getD ""

def withHeader (m : Message α) (key : String) (v : HeaderValue) : Message α where
  payload := m.payload
  headers := m.headers.withKey key v

end Message

end Msgin
