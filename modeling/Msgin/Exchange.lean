import Mathlib.Data.List.AList
import Msgin.BoundedChannel
import Msgin.ConsumerCalls
import Msgin.TransitionRuns

/-!
# The request-reply exchange

`replyCorrelator` and `ChannelExchange`. The correlator's methods are one critical section
each, except `deliver`, which sends on the slot after it has left its critical section. The
exchange's methods are programs over these sections, the channel operations and the code
the exchange was given; a run interleaves any number of `Exchange` calls, invocations of
the receiver and calls of `Close`.
-/

namespace Msgin

open Interaction Prog

variable {P : Type}

def Message.correlationID (m : Message P) : String :=
  (m.headers.string headerCorrelationID).getD ""

abbrev Reply (P : Type) := ℕ × Message P

/-- Slots are numbered in the order `register` makes them. -/
structure ReplyCorrelator (P : Type) where
  waiters : AList fun _ : String => ℕ
  closed : Bool
  slots : ℕ → Chan (Reply P) 1
  made : ℕ

namespace ReplyCorrelator

def newReplyCorrelator : ReplyCorrelator P := ⟨∅, false, fun _ => .make _ 1, 0⟩

def register (id : String) (c : ReplyCorrelator P) : (Err ⊕ ℕ) × ReplyCorrelator P :=
  if c.closed then (.inl (.sentinel .errGatewayClosed), c)
  else if (c.waiters.lookup id).isSome then (.inl (.sentinel .errDuplicateCorrelation), c)
  else
    (.inr c.made,
      { c with
        waiters := c.waiters.insert id c.made
        slots := Function.update c.slots c.made (.make _ 1)
        made := c.made + 1 })

def deregister (id : String) (slot : ℕ) (c : ReplyCorrelator P) : Bool × ReplyCorrelator P :=
  if c.waiters.lookup id = some slot then (true, { c with waiters := c.waiters.erase id })
  else (false, c)

/-- The critical section of `deliver`. -/
def remove (id : String) (c : ReplyCorrelator P) : Option ℕ × ReplyCorrelator P :=
  match c.waiters.lookup id with
  | some slot => (some slot, { c with waiters := c.waiters.erase id })
  | none => (none, c)

/-- `none` is a panic of `close(slot)`. -/
def closeSlots (slots : ℕ → Chan (Reply P) 1) :
    List (Σ _ : String, ℕ) → Option (ℕ → Chan (Reply P) 1)
  | [] => some slots
  | w :: ws => do
    let slot ← (slots w.2).close
    closeSlots (Function.update slots w.2 slot) ws

def closeAll (c : ReplyCorrelator P) : Option (ReplyCorrelator P) :=
  if c.closed then some c
  else do
    let slots ← closeSlots c.slots c.waiters.entries
    return { c with closed := true, waiters := ∅, slots }

end ReplyCorrelator

/-- One arm of the select in `Exchange`. -/
inductive Selected (P : Type)
  | slot (reply : Option (Reply P))
  | ctxDone (err : Err)
  | timer

inductive ExchangeCall (P : Type)
  | register (id : String)
  | send (req : Message P)
  | select (slot : ℕ)
  | deregister (id : String) (slot : ℕ)
  -- The receive in `giveUp`.
  | receive (slot : ℕ)
  | remove (id : String)
  -- The send in `deliver`.
  | sendSlot (slot : ℕ) (reply : Reply P)
  | unmatchedSend (reply : Reply P)
  | warnSinkFailed (reply : Reply P) (err : Err)
  | warnDropping (reply : Reply P)
  | closeAll
  -- `replySub.Cancel`.
  | cancel

namespace ExchangeCall

@[reducible] def Answer : ExchangeCall P → Type
  | register _ => Err ⊕ ℕ
  | send _ => Outcome (Option Err)
  | select _ => Selected P
  | deregister _ _ => Bool
  | receive _ => Option (Reply P)
  | remove _ => Option ℕ
  | unmatchedSend _ => Option Err
  | sendSlot _ _ | warnSinkFailed _ _ | warnDropping _ | closeAll | cancel => Unit

def routed : ExchangeCall P → Option ℕ
  | unmatchedSend reply | warnDropping reply => some reply.1
  | _ => none

end ExchangeCall

abbrev ExchangeRoutine (P α : Type) := Prog (ExchangeCall P) ExchangeCall.Answer α

def issue (q : ExchangeCall P) : ExchangeRoutine P q.Answer := Prog.call q

inductive ExchangeFailure
  | returned (err : Err)
  -- A panic of `request.Send` that unwinds through the call.
  | panicked (r : String)

inductive ExchangeResult (P : Type)
  | reply (r : Reply P)
  | failed (f : ExchangeFailure)

/-- `sink` is whether the exchange has an unmatched-reply sink. -/
def routeUnmatched (sink : Bool) (reply : Reply P) : ExchangeRoutine P Unit :=
  if sink then do
    match ← issue (.unmatchedSend reply) with
    | some err => issue (.warnSinkFailed reply err)
    | none => return ()
  else issue (.warnDropping reply)

/-- The second half of `giveUp`, for a slot that is no longer the caller's. -/
def drain (sink : Bool) (slot : ℕ) : ExchangeRoutine P Unit := do
  match ← issue (.receive slot) with
  | some reply => routeUnmatched sink reply
  | none => return ()

def giveUp (sink : Bool) (id : String) (slot : ℕ) : ExchangeRoutine P Unit := do
  if ← issue (.deregister id slot) then return ()
  else drain sink slot

/-- An exit of `Exchange` that runs the deferred reconciler. -/
def unsettled (sink : Bool) (id : String) (slot : ℕ) (f : ExchangeFailure) :
    ExchangeRoutine P (ExchangeResult P) := do
  giveUp sink id slot
  return .failed f

def awaitReply (sink : Bool) (id : String) (slot : ℕ) :
    ExchangeRoutine P (ExchangeResult P) := do
  match ← issue (.select slot) with
  | .slot (some reply) => return .reply reply
  | .slot none => return .failed (.returned (.sentinel .errGatewayClosed))
  | .ctxDone err => unsettled sink id slot (.returned err)
  | .timer => unsettled sink id slot (.returned (.sentinel .errReplyTimeout))

def sendRequest (sink : Bool) (req : Message P) (slot : ℕ) :
    ExchangeRoutine P (ExchangeResult P) := do
  match ← issue (.send req) with
  | .returned none => awaitReply sink req.correlationID slot
  | .returned (some err) => unsettled sink req.correlationID slot (.returned err)
  | .panicked r => unsettled sink req.correlationID slot (.panicked r)

def exchange (sink : Bool) (req : Message P) : ExchangeRoutine P (ExchangeResult P) :=
  if req.correlationID = "" then
    return .failed (.returned (.sentinel .errNoCorrelation))
  else do
    match ← issue (.register req.correlationID) with
    | .inl err => return .failed (.returned err)
    | .inr slot => sendRequest sink req slot

def deliver (id : String) (reply : Reply P) : ExchangeRoutine P Bool := do
  match ← issue (.remove id) with
  | none => return false
  | some slot =>
    issue (.sendSlot slot reply)
    return true

def receiver (sink : Bool) (reply : Reply P) : ExchangeRoutine P Unit := do
  if ← deliver reply.2.correlationID reply then return ()
  else routeUnmatched sink reply

def closeExchange : ExchangeRoutine P Unit := do
  issue .closeAll
  issue .cancel

structure ExchangeState (P : Type) where
  corr : ReplyCorrelator P
  -- What is left to do of each call, each receiver invocation and each `Close`.
  calls : ℕ → Option (ExchangeRoutine P (ExchangeResult P))
  receivers : ℕ → Option (ExchangeRoutine P Unit)
  closers : ℕ → Option (ExchangeRoutine P Unit)
  -- The request of each call, and the reply each invocation was handed.
  requests : ℕ → Option (Message P)
  handed : ℕ → Option (Message P)
  -- The replies routed to the unmatched path, the latest first.
  unmatched : List ℕ
  -- A send on a closed slot, or a second close of a slot.
  panicked : Bool

inductive SelectArm
  | slot
  | ctxDone (err : Err)
  | timer

structure ExchangeChoice where
  sent : Outcome (Option Err)
  arm : SelectArm
  sinkErr : Option Err

inductive Served (α σ : Type)
  | answered (a : α) (s : σ)
  | blocks
  | panics

def ReplyCorrelator.serve (c : ReplyCorrelator P) (choice : ExchangeChoice) :
    (q : ExchangeCall P) → Served q.Answer (ReplyCorrelator P)
  | .register id => .answered (c.register id).1 (c.register id).2
  | .send _ => .answered choice.sent c
  | .select slot =>
    match choice.arm with
    | .ctxDone err => .answered (.ctxDone err) c
    | .timer => .answered .timer c
    | .slot =>
      match (c.slots slot).receive with
      | .received reply s =>
        .answered (.slot (some reply)) { c with slots := Function.update c.slots slot s }
      | .closed => .answered (.slot none) c
      | .blocks => .blocks
  | .deregister id slot => .answered (c.deregister id slot).1 (c.deregister id slot).2
  | .receive slot =>
    match (c.slots slot).receive with
    | .received reply s => .answered (some reply) { c with slots := Function.update c.slots slot s }
    | .closed => .answered none c
    | .blocks => .blocks
  | .remove id => .answered (c.remove id).1 (c.remove id).2
  | .sendSlot slot reply =>
    match (c.slots slot).send reply with
    | .sent s => .answered () { c with slots := Function.update c.slots slot s }
    | .blocks => .blocks
    | .panics => .panics
  | .unmatchedSend _ => .answered choice.sinkErr c
  | .closeAll =>
    match c.closeAll with
    | some c' => .answered () c'
    | none => .panics
  | .warnSinkFailed _ _ | .warnDropping _ | .cancel => .answered () c

inductive ExchangeLabel (P : Type)
  | exchange (call : ℕ) (req : Message P)
  | receiver (invocation : ℕ) (reply : Message P)
  | close (closer : ℕ)
  | call (call : ℕ) (choice : ExchangeChoice)
  | receive (invocation : ℕ) (choice : ExchangeChoice)
  | closing (closer : ℕ) (choice : ExchangeChoice)

namespace ExchangeState

def initial : ExchangeState P where
  corr := .newReplyCorrelator
  calls := fun _ => none
  receivers := fun _ => none
  closers := fun _ => none
  requests := fun _ => none
  handed := fun _ => none
  unmatched := []
  panicked := false

def advance {α : Type} (s : ExchangeState P) (choice : ExchangeChoice) :
    ExchangeRoutine P α → Option (ExchangeState P × Option (ExchangeRoutine P α))
  | .ret _ => none
  | .ask q k =>
    match s.corr.serve choice q with
    | .answered a corr =>
      some ({ s with corr := corr, unmatched := q.routed.toList ++ s.unmatched }, some (k a))
    | .blocks => none
    | .panics => some ({ s with panicked := true }, none)

def step (sink : Bool) (s : ExchangeState P) : ExchangeLabel P → Option (ExchangeState P)
  | .exchange c req =>
    if s.requests c = none then
      some { s with
        requests := Function.update s.requests c (some req)
        calls := Function.update s.calls c (some (Msgin.exchange sink req)) }
    else none
  | .receiver n reply =>
    if s.handed n = none then
      some { s with
        handed := Function.update s.handed n (some reply)
        receivers := Function.update s.receivers n (some (Msgin.receiver sink (n, reply))) }
    else none
  | .close k =>
    if s.closers k = none then
      some { s with closers := Function.update s.closers k (some closeExchange) }
    else none
  | .call c choice => do
    let (s', p) ← s.advance choice (← s.calls c)
    return { s' with calls := Function.update s'.calls c p }
  | .receive n choice => do
    let (s', p) ← s.advance choice (← s.receivers n)
    return { s' with receivers := Function.update s'.receivers n p }
  | .closing k choice => do
    let (s', p) ← s.advance choice (← s.closers k)
    return { s' with closers := Function.update s'.closers k p }

end ExchangeState

end Msgin
