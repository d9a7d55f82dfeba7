import Msgin.LeaseInvariant
import Msgin.ProcessEffects

/-!
# A consumer over the lease source

The lease strategy of the SQL `Source`: a poll claims rows and hands them out with the
row's delivery count as their delivery-count header, and the closures of a delivery are
fenced statements on the row. A run interleaves inserts, polls, the workers that process
the deliveries and the places that give a delivery back without processing it (a row with
undecodable headers, a batch that is cut). In the runs of this module no lease expires: a
poll claims only rows whose last claim was settled. A graceful restart leaves the table as
it is and so is no step of its own.
-/

namespace Msgin.Sql

open Interaction Prog

variable {P T : Type} {μ : Type*}

def ackClosure (e : Engine) (c : LeaseClaim) (dbErr : Option Err) (t : LeaseTable μ) : Option Err :=
  match dbErr with
  | some err => some err
  | none => if (ack e c.id c.lockedBy c.epoch t).1 then none else some (.sentinel .errStaleLease)

def nackClosure (e : Engine) (c : LeaseClaim) (requeue : Bool) (delay now : ℤ)
    (dbErr : Option Err) (t : LeaseTable μ) : Option Err :=
  match dbErr with
  | some err => some err
  | none =>
    if (nack e c.id c.lockedBy c.epoch (nackDelay requeue delay) now t).1 then none
    else some (.sentinel .errStaleLease)

/-- The stored envelope with the claim's delivery count laid over it. -/
def deliveredMessage (stored : Message P) (deliveryCount : ℕ) : Message P :=
  stored.withHeader headerDeliveryCount (.int deliveryCount)

/-- A message that was sent to the dead-letter sink because its attempts were exhausted, with
the deliveries before and including this one: those on which the handler failed with an
error that is not permanent, and those that were given back without such a failure. -/
structure DeadLettered where
  message : ℕ
  failed : ℕ
  skipped : ℕ
  deriving DecidableEq

structure SourceState where
  history : LeaseHistory
  -- The delivery of a message that is not settled yet: its claim and its delivery count.
  inFlight : ℕ → Option (LeaseClaim × ℕ)
  failed : ℕ → ℕ
  skipped : ℕ → ℕ
  deadLettered : List DeadLettered

inductive SourceLabel (P T : Type)
  | insert (gap : ℕ) (delay now : ℤ)
  | poll (limit : ℕ) (lockedBy : String) (leaseTTL now : ℤ) (locked : List ℕ) (tie : ℕ → ℕ)
  -- A worker processes the delivery of a message.
  | work (message : ℕ) (now : ℤ) (dbErr : Option Err) (answer : (q : Call P T) → q.Answer)
  -- The delivery of a message is Nacked outside a worker.
  | giveBack (message : ℕ) (requeue : Bool) (delay now : ℤ) (dbErr : Option Err)

def SourceState.initial : SourceState where
  history := .empty
  inFlight := fun _ => none
  failed := fun _ => 0
  skipped := fun _ => 0
  deadLettered := []

def sourceAnswer (e : Engine) (c : LeaseClaim) (now : ℤ) (dbErr : Option Err)
    (t : LeaseTable μ) (answer : (q : Call P T) → q.Answer) : Environment P T := fun _ q =>
  match q with
  | .ack _ => .returned (ackClosure e c dbErr t)
  | .nack _ requeue delay => .returned (nackClosure e c requeue delay now dbErr t)
  | q => answer q

def isAckCall (e : Event P T) : Bool :=
  match e.1 with
  | .ack _ => true
  | _ => false

def nackArgs (e : Event P T) : Option (Bool × ℤ) :=
  match e.1 with
  | .nack _ requeue delay => some (requeue, delay)
  | _ => none

/-- The statement that the calls `es` sent to the database. -/
def settleCall (n : ℕ) (c : LeaseClaim) (now : ℤ) (es : List (Event P T)) : Option LeaseCall :=
  if es.any isAckCall then some (.ack n c)
  else (es.findSome? nackArgs).map fun (requeue, delay) => .nack n c (nackDelay requeue delay) now

def settleHistory (e : Engine) (h : LeaseHistory) (dbErr : Option Err)
    (call : Option LeaseCall) : Option LeaseHistory :=
  match dbErr, call with
  | none, some call => leaseStep e h call
  | _, _ => some h

def recordDeliveries (lockedBy : String) (now : ℤ) (claimed : List (ClaimedRow ℕ))
    (inFlight : ℕ → Option (LeaseClaim × ℕ)) : ℕ → Option (LeaseClaim × ℕ) := fun n =>
  match claimed.find? fun r => r.msg == n with
  | some r => some (⟨r.id, lockedBy, r.leaseEpoch, now⟩, r.deliveryCount)
  | none => inFlight n

/-- The state after the delivery of message `n` was processed with the calls `es`. -/
def SourceState.processed (s : SourceState) (c : Consumer P T) (n : ℕ) (es : List (Event P T))
    (h : LeaseHistory) : SourceState :=
  let failed := es.any isTransientFailure
  let skipped := !failed && (es.findSome? nackArgs).isSome
  let sent := failed && c.policy.deadLetter.any fun s => es.any (isSendTo s)
  { history := h
    inFlight := Function.update s.inFlight n none
    failed := Function.update s.failed n (s.failed n + failed.toNat)
    skipped := Function.update s.skipped n (s.skipped n + skipped.toNat)
    deadLettered :=
      if sent then ⟨n, s.failed n + 1, s.skipped n⟩ :: s.deadLettered else s.deadLettered }

/-- `stored n` is the envelope in the row of message `n`, if its headers decode. -/
def sourceStep (e : Engine) (c : Consumer P T) (stored : ℕ → Option (Message P))
    (s : SourceState) : SourceLabel P T → Option SourceState
  | .insert gap delay now =>
    (leaseStep e s.history (.insert gap delay now)).map fun h => { s with history := h }
  | .poll limit lockedBy leaseTTL now locked tie =>
    if (selectClaimable e limit leaseTTL now locked tie s.history.table.rows).all
        fun r => r.lockedBy.isNone then
      (leaseStep e s.history (.claim limit lockedBy leaseTTL now locked tie)).map fun h =>
        { s with
          history := h
          inFlight := recordDeliveries lockedBy now
            (claim e limit lockedBy leaseTTL now locked tie s.history.table).1 s.inFlight }
    else none
  | .work n now dbErr answer =>
    match s.inFlight n, stored n with
    | some (claim, deliveryCount), some envelope =>
      let d : Delivery P := ⟨n, deliveredMessage envelope deliveryCount, true⟩
      let es := (process c d).trace (sourceAnswer e claim now dbErr s.history.table answer)
      (settleHistory e s.history dbErr (settleCall n claim now es)).map fun h =>
        s.processed c n es h
    | _, _ => none
  | .giveBack n requeue delay now dbErr =>
    match s.inFlight n with
    | some (claim, _) =>
      (settleHistory e s.history dbErr
        (some (.nack n claim (nackDelay requeue delay) now))).map fun h =>
          { s with
            history := h
            inFlight := Function.update s.inFlight n none
            skipped := Function.update s.skipped n (s.skipped n + 1) }
    | none => none

end Msgin.Sql
