import Mathlib.Data.List.AList
import Msgin.BoundedChannel
import Msgin.ConsumerCalls
import Msgin.InPlaceFilter
import Msgin.KeyedMaps
import Msgin.MemoryGroupStore
import Msgin.TransitionRuns

/-!
# The in-memory queue store

`memory.QueueStore`: a queue of messages with claims that are settled by closures. A buffered
channel counts the occupied places, outside the mutex that guards the queue, so `Enqueue` and a
settlement that frees a place take two steps each. Messages are told apart by the order in which
they arrived.
-/

namespace Msgin.Memory

variable {P : Type} {cap : ℕ}

structure Entry (P : Type) where
  number : ℕ
  msg : Message P
  visibleAt : ℤ
  epoch : ℕ

structure QueueStore (P : Type) (cap : ℕ) where
  sem : Chan Unit cap
  overflow : OverflowPolicy
  ready : List (Entry P)
  -- Claimed, by epoch.
  inflight : AList fun _ : ℕ => Entry P
  epoch : ℕ
  -- The number of messages that were appended or dropped on arrival.
  arrived : ℕ

namespace QueueStore

def new (P : Type) (cap : ℕ) (overflow : OverflowPolicy) : QueueStore P cap :=
  ⟨Chan.make Unit cap, overflow, [], ∅, 0, 0⟩

/-- The second step of `Enqueue`. -/
def append (msg : Message P) (now : ℤ) (st : QueueStore P cap) : QueueStore P cap :=
  { st with
    ready := st.ready ++ [⟨st.arrived, msg, now, 0⟩]
    arrived := st.arrived + 1 }

/-- The error of `shed` and the message it drops. -/
def shed (msg : Message P) (now : ℤ) (st : QueueStore P cap) :
    (Option Err × ℕ) × QueueStore P cap :=
  match st.overflow, st.ready with
  | .overflowDropOldest, e :: rest =>
    ((none, e.number), { st with ready := rest }.append msg now)
  | .overflowDropOldest, [] =>
    ((some (.sentinel .errOverflowDropped), st.arrived), { st with arrived := st.arrived + 1 })
  | .overflowDropNewest, _ => ((none, st.arrived), { st with arrived := st.arrived + 1 })
  | .overflowReject, _ | .overflowBlock, _ | .outOfRange _, _ =>
    ((some (.sentinel .errOverflowDropped), st.arrived), { st with arrived := st.arrived + 1 })

/-- What the loop of `Claim` changes besides the queue. -/
structure ClaimLoop (P : Type) where
  epoch : ℕ
  inflight : AList fun _ : ℕ => Entry P
  out : List (Entry P)

/-- One turn of the loop. An entry that is not claimed is kept. -/
def claimEntry (max : ℤ) (now : ℤ) (l : ClaimLoop P) (e : Entry P) : Option (ClaimLoop P) :=
  if l.out.length < max ∧ e.visibleAt ≤ now then
    let claimed := { e with epoch := l.epoch + 1 }
    some ⟨l.epoch + 1, l.inflight.insert (l.epoch + 1) claimed, l.out ++ [claimed]⟩
  else none

/-- The claimed entries are the deliveries; the closures of a delivery carry its epoch. -/
def claim (max : ℤ) (now : ℤ) (st : QueueStore P cap) : List (Entry P) × QueueStore P cap :=
  if max ≤ 0 then ([], st)
  else
    let l := InPlaceFilter.compact (claimEntry max now) ⟨st.epoch, st.inflight, []⟩ st.ready
    (l.state.out,
      { st with
        ready := l.array.take l.kept
        inflight := l.state.inflight
        epoch := l.state.epoch })

def delete (epoch : ℕ) (st : QueueStore P cap) : QueueStore P cap :=
  { st with inflight := st.inflight.erase epoch }

def requeue (e : Entry P) (visibleAt : ℤ) (st : QueueStore P cap) : QueueStore P cap :=
  { st with ready := st.ready ++ [{ e with visibleAt := visibleAt, epoch := 0 }] }

end QueueStore

/-- A call between its two steps: an `Enqueue` that has a slot, one that found none, and a
settlement that is to free its slot. -/
inductive QueueCall (P : Type)
  | appending (msg : Message P)
  | shedding (msg : Message P)
  | receiving

def QueueCall.hasSlot : QueueCall P → Bool
  | appending _ => true
  | shedding _ => false
  | receiving => true

structure QueueState (P : Type) (cap : ℕ) where
  store : QueueStore P cap
  -- The calls under way, by goroutine.
  calls : AList fun _ : ℕ => QueueCall P
  settled : List ℕ
  dropped : List ℕ
  -- The epochs for which a closure was called.
  called : List ℕ

/-- A step of the goroutine `t`, or a whole call. -/
inductive QueueLabel (P : Type)
  | enqueue (t : ℕ) (msg : Message P)
  -- An `Enqueue` that returns on its context.
  | cancel (msg : Message P)
  | append (t : ℕ) (now : ℤ)
  | shed (t : ℕ) (now : ℤ)
  | claim (max : ℤ) (now : ℤ)
  | ack (t : ℕ) (epoch : ℕ)
  | nack (t : ℕ) (epoch : ℕ) (requeue : Bool) (delay : ℤ) (now : ℤ)
  | receive (t : ℕ)

/-- Whether `Enqueue` waits for a slot. -/
def OverflowPolicy.blocks : OverflowPolicy → Bool
  | .overflowDropNewest | .overflowDropOldest | .overflowReject => false
  | .overflowBlock | .outOfRange _ => true

namespace QueueState

def initial (P : Type) (cap : ℕ) (overflow : OverflowPolicy) : QueueState P cap :=
  ⟨.new P cap overflow, ∅, [], [], []⟩

/-- A closure finds its entry: the entry is no longer in flight. -/
def settle (s : QueueState P cap) (epoch : ℕ) : QueueState P cap :=
  { s with store := s.store.delete epoch, called := epoch :: s.called }

def begin (s : QueueState P cap) (t : ℕ) (c : QueueCall P) : QueueState P cap :=
  { s with calls := s.calls.insert t c }

def finish (s : QueueState P cap) (t : ℕ) : QueueState P cap :=
  { s with calls := s.calls.erase t }

def step (s : QueueState P cap) : QueueLabel P → Option (QueueState P cap)
  | .enqueue t msg =>
    if (s.calls.lookup t).isSome then none
    else
      match s.store.sem.send () with
      | .sent sem => some ({ s with store.sem := sem }.begin t (.appending msg))
      | .blocks =>
        if OverflowPolicy.blocks s.store.overflow then none else some (s.begin t (.shedding msg))
      | .panics => none
  | .cancel _ => if OverflowPolicy.blocks s.store.overflow then some s else none
  | .append t now =>
    match s.calls.lookup t with
    | some (.appending msg) => some ({ s with store := s.store.append msg now }.finish t)
    | some (.shedding _) | some .receiving | none => none
  | .shed t now =>
    match s.calls.lookup t with
    | some (.shedding msg) =>
      some ({ s with
        store := (s.store.shed msg now).2
        dropped := (s.store.shed msg now).1.2 :: s.dropped }.finish t)
    | some (.appending _) | some .receiving | none => none
  | .claim max now => some { s with store := (s.store.claim max now).2 }
  | .ack t epoch =>
    if (s.calls.lookup t).isSome ∨ s.store.epoch < epoch then none
    else
      match s.store.inflight.lookup epoch with
      | none => some { s with called := epoch :: s.called }
      | some e => some ({ s.settle epoch with settled := e.number :: s.settled }.begin t .receiving)
  | .nack t epoch requeue delay now =>
    if (s.calls.lookup t).isSome ∨ s.store.epoch < epoch then none
    else
      match s.store.inflight.lookup epoch with
      | none => some { s with called := epoch :: s.called }
      | some e =>
        if requeue then
          some { s.settle epoch with store := (s.store.delete epoch).requeue e (now + delay) }
        else some ({ s.settle epoch with dropped := e.number :: s.dropped }.begin t .receiving)
  | .receive t =>
    match s.calls.lookup t, s.store.sem.receive with
    | some .receiving, .received _ sem => some ({ s with store.sem := sem }.finish t)
    | _, _ => none

end QueueState

end Msgin.Memory
