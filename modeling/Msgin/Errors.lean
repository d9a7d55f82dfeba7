import Mathlib.Algebra.Group.Nat.Defs
import Mathlib.Data.Int.Notation
import Mathlib.Data.Nat.Notation

/-!
# Error values and their classification

Error values as the runtime inspects them. A value is one of the package sentinels, a
marker or wrapper around another value, a node over two values, or a value of some type
outside the module, which may answer `errors.Is` through a method of its own. A node over
more values is one over the first and a node over the rest. `Err.is` is `errors.Is` against
a sentinel; `Err.asPermanent` and `Err.asRetryAfter` are `errors.As` against the unexported
markers. All of them visit the tree in pre-order.
-/

namespace Msgin

inductive Sentinel
  | errPayloadType
  | errPayloadDecode
  | errPayloadTooLarge
  | errHandlerPanic
  | errOverflowDropped
  | errNoCorrelation
  | errNilMessageGroup
  | errGatewayClosed
  | errReplyTimeout
  | errDuplicateCorrelation
  | errInvalidCapacity
  | errMissingMsgID
  | errInvalidPayload
  | errStaleLease
  | errSchemaNotReady
  | errRetryBudgetExhausted
  | errDeadLettered
  | errChannelSubscribed
  | errNilHandler
  | errNilFunc
  | errDecodeRequest
  | errWriteResponse
  | errUnsupportedPayload
  | errReplyTooLarge
  -- `io.EOF` and `io.ErrUnexpectedEOF`
  | eof
  | errUnexpectedEOF
  -- Any `*http.MaxBytesError`: `errors.As` finds it as `errors.Is` finds a sentinel.
  | maxBytesError
  deriving DecidableEq

def Sentinel.text : Sentinel → String
  | errPayloadType => "msgin: payload is not of the expected type"
  | errPayloadDecode => "msgin: payload decode failed"
  | errPayloadTooLarge => "msgin: payload exceeds the configured maximum size"
  | errHandlerPanic => "msgin: handler panicked"
  | errOverflowDropped => "msgin: message dropped by overflow policy"
  | errNoCorrelation => "msgin: message has no correlation key"
  | errNilMessageGroup => "msgin: message group store returned a nil group"
  | errGatewayClosed => "msgin: request-reply exchange is closed"
  | errReplyTimeout => "msgin: timed out awaiting reply"
  | errDuplicateCorrelation => "msgin: correlation id already has an in-flight request"
  | errInvalidCapacity => "msgin: capacity out of range"
  | errMissingMsgID => "msgin/sql: group member requires a non-empty message id"
  | errInvalidPayload => "msgin/sql: outbound payload must be []byte"
  | errStaleLease => "msgin/sql: stale lease; message was re-claimed by another worker"
  | errSchemaNotReady => "msgin/sql: schema not ready"
  | errRetryBudgetExhausted => "msgin: retry budget exhausted before attempts were spent"
  | errDeadLettered => "msgin: message diverted to the dead-letter sink"
  | errChannelSubscribed => "msgin: channel already has a subscriber"
  | errNilHandler => "msgin: nil message handler"
  | errNilFunc => "msgin: nil endpoint function"
  | errDecodeRequest => "msghttp: decode request failed"
  | errWriteResponse => "msghttp: write response body failed"
  | errUnsupportedPayload => "msghttp: message payload is not []byte or string"
  | errReplyTooLarge => "msghttp: reply body exceeds max response bytes"
  | eof => "EOF"
  | errUnexpectedEOF => "unexpected EOF"
  | maxBytesError => "http: request body too large"

/-- `fmtFrac`: the last `prec` decimal digits of `u` after a point, without trailing zeros. -/
def fmtFrac (u prec : ℕ) : String :=
  let digits := (Nat.toDigits 10 (10 ^ prec + u % 10 ^ prec)).drop 1
  let kept := (digits.reverse.dropWhile (· = '0')).reverse
  if kept.isEmpty then "" else "." ++ String.ofList kept

/-- Hours and minutes, where there are any, before the seconds of a duration. -/
def fmtMinutes (minutes : ℕ) : String :=
  if minutes = 0 then ""
  else (if minutes < 60 then "" else toString (minutes / 60) ++ "h") ++
    toString (minutes % 60) ++ "m"

/-- `time.Duration.String`, of a duration in nanoseconds. -/
def durationString (d : ℤ) : String :=
  let u := d.natAbs
  let magnitude :=
    if u = 0 then "0s"
    else if u < 10 ^ 3 then toString u ++ "ns"
    else if u < 10 ^ 6 then toString (u / 10 ^ 3) ++ fmtFrac u 3 ++ "µs"
    else if u < 10 ^ 9 then toString (u / 10 ^ 6) ++ fmtFrac u 6 ++ "ms"
    else fmtMinutes (u / 10 ^ 9 / 60) ++ toString (u / 10 ^ 9 % 60) ++ fmtFrac u 9 ++ "s"
  if d < 0 then "-" ++ magnitude else magnitude

inductive Err
  | sentinel (s : Sentinel)
  -- `*permanentError`.
  | permanent (e : Err)
  -- `*retryAfterError`.
  | retryAfter (e : Err) (d : ℤ)
  -- `fmt.Errorf` with one `%w`: the text before it, the text after it, the operand.
  | wrapped (before after : String) (e : Err)
  -- `fmt.Errorf` with two, and the text between them.
  | wrappedPair (before between after : String) (a b : Err)
  -- `errors.Join`.
  | join (a b : Err)
  -- A value of a foreign type, with the sentinels its own `Is` method reports.
  | foreign (text : String) (answers : List Sentinel)
  deriving DecidableEq

namespace Err

def text : Err → String
  | sentinel s => s.text
  | permanent e => "msgin: permanent: " ++ e.text
  | retryAfter e d => "msgin: retry after " ++ durationString d ++ ": " ++ e.text
  | wrapped before after e => before ++ e.text ++ after
  | wrappedPair before between after a b => before ++ a.text ++ between ++ b.text ++ after
  | join a b => a.text ++ "\n" ++ b.text
  | foreign t _ => t

def is (target : Sentinel) : Err → Bool
  | sentinel s => s = target
  | permanent e => e.is target
  | retryAfter e _ => e.is target
  | wrapped _ _ e => e.is target
  | wrappedPair _ _ _ a b => a.is target || b.is target
  | join a b => a.is target || b.is target
  | foreign _ answers => target ∈ answers

def asPermanent : Err → Bool
  | sentinel _ => false
  | permanent _ => true
  | retryAfter e _ => e.asPermanent
  | wrapped _ _ e => e.asPermanent
  | wrappedPair _ _ _ a b => a.asPermanent || b.asPermanent
  | join a b => a.asPermanent || b.asPermanent
  | foreign _ _ => false

def asRetryAfter : Err → Option ℤ
  | sentinel _ => none
  | permanent e => e.asRetryAfter
  | retryAfter _ d => some d
  | wrapped _ _ e => e.asRetryAfter
  | wrappedPair _ _ _ a b => a.asRetryAfter.or b.asRetryAfter
  | join a b => a.asRetryAfter.or b.asRetryAfter
  | foreign _ _ => none

/-- An error made by `errors.New` or `fmt.Errorf` without a `%w` operand. -/
def new (t : String) : Err := foreign t []

/-- `errors.Join` of values that are not nil. -/
def joinAll : List Err → Option Err
  | [] => none
  | [e] => some (wrapped "" "" e)
  | a :: b :: es => (joinAll (b :: es)).map (join a)

def nodes : Err → List Err
  | sentinel s => [sentinel s]
  | permanent e => permanent e :: e.nodes
  | retryAfter e d => retryAfter e d :: e.nodes
  | wrapped before after e => wrapped before after e :: e.nodes
  | wrappedPair before between after a b =>
      wrappedPair before between after a b :: (a.nodes ++ b.nodes)
  | join a b => join a b :: (a.nodes ++ b.nodes)
  | foreign t answers => [foreign t answers]

/-- The delay of a `*retryAfterError`. -/
def marker : Err → Option ℤ
  | retryAfter _ d => some d
  | _ => none

def markers (e : Err) : List ℤ := e.nodes.filterMap marker

theorem self_mem_nodes (e : Err) : e ∈ e.nodes := by
  cases e <;> simp [nodes]

theorem mem_nodes_trans {a b c : Err} (hab : a ∈ b.nodes) (hbc : b ∈ c.nodes) : a ∈ c.nodes := by
  induction c with
  | sentinel s =>
      cases List.mem_singleton.mp hbc
      exact hab
  | foreign t answers =>
      cases List.mem_singleton.mp hbc
      exact hab
  | permanent e ih =>
      rcases List.mem_cons.mp hbc with rfl | h
      · exact hab
      · exact List.mem_cons_of_mem _ (ih h)
  | retryAfter e d ih =>
      rcases List.mem_cons.mp hbc with rfl | h
      · exact hab
      · exact List.mem_cons_of_mem _ (ih h)
  | wrapped before after e ih =>
      rcases List.mem_cons.mp hbc with rfl | h
      · exact hab
      · exact List.mem_cons_of_mem _ (ih h)
  | wrappedPair before between after x y ihx ihy =>
      rcases List.mem_cons.mp hbc with rfl | h
      · exact hab
      · exact List.mem_cons_of_mem _ (List.mem_append.mpr ((List.mem_append.mp h).imp ihx ihy))
  | join x y ihx ihy =>
      rcases List.mem_cons.mp hbc with rfl | h
      · exact hab
      · exact List.mem_cons_of_mem _ (List.mem_append.mpr ((List.mem_append.mp h).imp ihx ihy))

theorem asRetryAfter_eq_head? (e : Err) : e.asRetryAfter = e.markers.head? := by
  unfold markers
  induction e with
  | sentinel s => rfl
  | permanent e ih => exact ih
  | retryAfter e d ih => rfl
  | wrapped before after e ih => exact ih
  | wrappedPair before between after a b iha ihb =>
      simp only [asRetryAfter, nodes, List.filterMap_cons, marker, List.filterMap_append,
        List.head?_append, iha, ihb]
  | join a b iha ihb =>
      simp only [asRetryAfter, nodes, List.filterMap_cons, marker, List.filterMap_append,
        List.head?_append, iha, ihb]
  | foreign t answers => rfl

end Err

def retryAfterOf (err : Option Err) : Option ℤ := err.bind Err.asRetryAfter

def isPermanent : Option Err → Bool
  | none => false
  | some e => e.asPermanent || e.is .errPayloadType || e.is .errPayloadDecode ||
      e.is .errPayloadTooLarge

theorem isPermanent_of_tooLarge {e : Err} (h : e.is .errPayloadTooLarge = true) :
    isPermanent (some e) = true := by
  simp [isPermanent, h]

theorem isPermanent_of_decode {e : Err} (h : e.is .errPayloadDecode = true) :
    isPermanent (some e) = true := by
  simp [isPermanent, h]

theorem isPermanent_of_type {e : Err} (h : e.is .errPayloadType = true) :
    isPermanent (some e) = true := by
  simp [isPermanent, h]

end Msgin
