import Mathlib.Data.List.Sort
import Msgin.ConsumerCalls
import Msgin.MemoryGroupStore
import Msgin.TransitionRuns

/-!
# The aggregator

`Handle` and the reaper's sweep as programs over the group store, the strategies, the
aggregate function and the two channels. The loop in `release` and the loop over the groups
of a sweep have no bound, so a program ends at the head of such a loop and the goroutine goes
on from there. A run interleaves any number of `Handle` calls and sweeps over one in-memory
store, each store operation in one step.
-/

namespace Msgin.Routing

open Interaction Prog Memory

variable {P : Type}

inductive AggregatorCall (P : Type)
  | assert (msg : Message P)
  | correlate (msg : Message P)
  | add (key : String) (msg : Message P)
  -- `cfg.release`, the release strategy.
  | release (group : Snapshot P)
  | claimGroup (key : String)
  -- `agg`.
  | aggregate (msgs : List (Member P))
  -- `cfg.output.Send`.
  | send (out : Message P)
  | settleGroup (claim : ClaimGroup P)
  | abandonGroup (claim : ClaimGroup P)
  | now
  | expired (before : ℤ)
  -- `cfg.expired.Send`.
  | sendExpired (m : Member P)

namespace AggregatorCall

@[reducible] def Answer : AggregatorCall P → Type
  | assert _ => Option Err
  | correlate _ => Outcome (Except Err String)
  | add _ _ => Option (Snapshot P) × Option Err
  | release _ => Outcome (Bool × Option Err)
  | claimGroup _ => Except Err (Option (ClaimGroup P))
  | aggregate _ => Outcome (Except Err (Message P))
  | send _ | sendExpired _ => Outcome (Option Err)
  | settleGroup _ | abandonGroup _ => Option Err
  | now => ℤ
  | expired _ => Except Err (List (Snapshot P))

end AggregatorCall

abbrev AggregatorRoutine (P α : Type) := Prog (AggregatorCall P) AggregatorCall.Answer α

abbrev AggregatorEvent (P : Type) := Σ q : AggregatorCall P, q.Answer

def issue (q : AggregatorCall P) : AggregatorRoutine P q.Answer := Prog.call q

/-- Who called `release`. -/
inductive ReleaseSite (P : Type)
  | member
  -- The branch of `Handle` for a member that the store refused.
  | refused (key : String)
  -- A sweep, with the groups it has not come to.
  | sweep (rest : List (Snapshot P)) (cutoff : ℤ)

inductive Control (P : Type)
  | handled (o : Outcome (Option Err))
  | swept (o : Outcome Unit)
  -- The head of the loop in `release`.
  | draining (key : String) (site : ReleaseSite P)
  -- The head of the loop in `reap`.
  | reaping (groups : List (Snapshot P)) (cutoff : ℤ)

/-- `time.Time` at its zero value, in nanoseconds since the Unix epoch. -/
def zeroTime : ℤ := -62135596800000000000

def overflowRetryable (key reason : String) : Err :=
  .wrapped "" (": routing.Aggregator.Handle: group " ++ key.quote ++ " " ++ reason ++
    "; retry to admit the rejected member") (.sentinel .errOverflowDropped)

namespace ReleaseSite

/-- What follows when `release` returns. -/
def returned (err : Option Err) : ReleaseSite P → Control P
  | member => .handled (.returned err)
  | refused key =>
    match err with
    | some relErr =>
      .handled (.returned (some (overflowRetryable key ("was claimed but its release FAILED (" ++
        relErr.text ++ "), so it did not drain"))))
    | none => .handled (.returned (some (overflowRetryable key "drained by this release")))
  | sweep rest cutoff => .reaping rest cutoff

def panicked (r : String) : ReleaseSite P → Control P
  | member | refused _ => .handled (.panicked r)
  | sweep _ _ => .swept (.panicked r)

end ReleaseSite

/-- `releaseOnce` without its deferred function. -/
def settleReleased (claim : ClaimGroup P) : AggregatorRoutine P (Outcome (Option Err)) := do
  match ← issue (.aggregate claim.msgs) with
  | .panicked r => return .panicked r
  | .returned (.error aggErr) => return .returned (some aggErr)
  | .returned (.ok out) =>
    match ← issue (.send out) with
    | .panicked r => return .panicked r
    | .returned (some sendErr) => return .returned (some sendErr)
    | .returned none => return .returned (← issue (.settleGroup claim))

/-- The claim is settled if and only if this returns no error. -/
def releaseOnce (claim : ClaimGroup P) : AggregatorRoutine P (Outcome (Option Err)) := do
  match ← settleReleased claim with
  | .returned none => return .returned none
  | failed =>
    let _ ← issue (.abandonGroup claim)
    return failed

def release (site : ReleaseSite P) (claim : ClaimGroup P) : AggregatorRoutine P (Control P) := do
  match ← releaseOnce claim with
  | .panicked r => return site.panicked r
  | .returned (some err) => return site.returned (some err)
  | .returned none => return .draining claim.key site

/-- One turn of the loop in `release`. -/
def drain (key : String) (site : ReleaseSite P) : AggregatorRoutine P (Control P) := do
  match ← issue (.claimGroup key) with
  | .error _ | .ok none => return site.returned none
  | .ok (some next) =>
    match ← issue (.release next.toSnapshot) with
    | .panicked r => return site.panicked r
    | .returned (true, none) =>
      match ← releaseOnce next with
      | .panicked r => return site.panicked r
      | .returned (some _) => return site.returned none
      | .returned none => return .draining key site
    | .returned _ =>
      let _ ← issue (.abandonGroup next)
      return site.returned none

/-- `Handle` for a member that the store refused but whose group it reported. -/
def handleRefused (key : String) (group : Snapshot P) (err : Err) :
    AggregatorRoutine P (Control P) := do
  match ← issue (.release group) with
  | .panicked r => return .handled (.panicked r)
  | .returned (_, some rerr) => return .handled (.returned (some (.join err rerr)))
  | .returned (false, none) => return .handled (.returned (some err))
  | .returned (true, none) =>
    match ← issue (.claimGroup key) with
    | .error cerr => return .handled (.returned (some cerr))
    | .ok none =>
      return .handled (.returned (some (overflowRetryable key
        "is held by another holder, whose lease is draining it")))
    | .ok (some claim) => release (.refused key) claim

/-- `Handle` for a member that is stored. -/
def handleStored (key : String) (group : Snapshot P) : AggregatorRoutine P (Control P) := do
  match ← issue (.release group) with
  | .panicked r => return .handled (.panicked r)
  | .returned (_, some err) => return .handled (.returned (some err))
  | .returned (false, none) => return .handled (.returned none)
  | .returned (true, none) =>
    match ← issue (.claimGroup key) with
    | .error err => return .handled (.returned (some err))
    | .ok none => return .handled (.returned none)
    | .ok (some claim) => release .member claim

def nilGroup : Err :=
  .wrapped "" ": routing.Aggregator.Handle: MessageGroupStore.Add returned a nil group with a nil error"
    (.permanent (.sentinel .errNilMessageGroup))

def handle (msg : Message P) : AggregatorRoutine P (Control P) := do
  match ← issue (.assert msg) with
  | some err => return .handled (.returned (some err))
  | none =>
    match ← issue (.correlate msg) with
    | .panicked r => return .handled (.panicked r)
    | .returned (.error err) => return .handled (.returned (some err))
    | .returned (.ok key) =>
      match ← issue (.add key msg) with
      | (none, some err) => return .handled (.returned (some err))
      | (some group, some err) =>
        if !err.is .errOverflowDropped || group.msgs.isEmpty then
          return .handled (.returned (some err))
        else handleRefused key group err
      | (none, none) => return .handled (.returned (some nilGroup))
      | (some group, none) => handleStored key group

def expireMembers (claim : ClaimGroup P) :
    List (Member P) → AggregatorRoutine P (Outcome Unit)
  | [] => do
    let _ ← issue (.settleGroup claim)
    return .returned ()
  | m :: ms => do
    match ← issue (.sendExpired m) with
    | .panicked r => return .panicked r
    | .returned (some _) =>
      let _ ← issue (.abandonGroup claim)
      return .returned ()
    | .returned none => expireMembers claim ms

def reapGroup (g : Snapshot P) (rest : List (Snapshot P)) (cutoff : ℤ) :
    AggregatorRoutine P (Control P) := do
  match ← issue (.claimGroup g.key) with
  | .error _ | .ok none => return .reaping rest cutoff
  | .ok (some claim) =>
    match ← issue (.release claim.toSnapshot) with
    | .panicked r => return .swept (.panicked r)
    | .returned (true, none) => release (.sweep rest cutoff) claim
    | .returned _ =>
      if cutoff ≠ zeroTime ∧ claim.createdAt < cutoff then
        match ← expireMembers claim claim.msgs with
        | .panicked r => return .swept (.panicked r)
        | .returned () => return .reaping rest cutoff
      else
        let _ ← issue (.abandonGroup claim)
        return .reaping rest cutoff

/-- `reap` up to its loop. -/
def reap (timeout : ℤ) : AggregatorRoutine P (Control P) := do
  let cutoff ← if 0 < timeout then (fun now => now - timeout) <$> issue .now else pure zeroTime
  match ← issue (.expired cutoff) with
  | .error _ => return .swept (.returned ())
  | .ok groups => return .reaping groups cutoff

/-- What a goroutine does next from the head of a loop. -/
def Control.code : Control P → Option (AggregatorRoutine P (Control P))
  | handled _ | swept _ => none
  | draining key site => some (drain key site)
  | reaping [] _ => some (return .swept (.returned ()))
  | reaping (g :: rest) cutoff => some (reapGroup g rest cutoff)

structure Goroutine (P : Type) where
  -- The message given to `Handle`; a sweep has none.
  given : Option (Message P)
  code : AggregatorRoutine P (Control P)
  -- The calls made so far, the latest first.
  events : List (AggregatorEvent P)

structure Settlement (P : Type) where
  claim : ClaimGroup P
  events : List (AggregatorEvent P)

structure AggregatorState (P : Type) where
  store : GroupStore P
  goroutines : ℕ → Option (Goroutine P)
  settled : List (Settlement P)

/-- What the environment decides when a call is answered: the time, the order in which
`Expired` ranges over the groups, and the answers of everything but the store. -/
structure AggregatorChoice (P : Type) where
  now : ℤ
  order : String → ℕ
  answer : (q : AggregatorCall P) → q.Answer

inductive AggregatorLabel (P : Type)
  | handle (t : ℕ) (msg : Message P)
  | reap (t : ℕ)
  | proceed (t : ℕ) (choice : AggregatorChoice P)

def serve (choice : AggregatorChoice P) (st : GroupStore P) :
    (q : AggregatorCall P) → q.Answer × GroupStore P
  | .add key msg => st.add key msg choice.now
  | .claimGroup key => (.ok (st.claimGroup key).1, (st.claimGroup key).2)
  | .settleGroup claim => (none, st.settleGroup claim choice.now)
  | .abandonGroup claim => (none, st.abandonGroup claim)
  | .expired before =>
    (.ok ((st.expired before).insertionSort fun a b => choice.order a.key ≤ choice.order b.key), st)
  | .now => (choice.now, st)
  | .assert msg => (choice.answer (.assert msg), st)
  | .correlate msg => (choice.answer (.correlate msg), st)
  | .release group => (choice.answer (.release group), st)
  | .aggregate msgs => (choice.answer (.aggregate msgs), st)
  | .send out => (choice.answer (.send out), st)
  | .sendExpired m => (choice.answer (.sendExpired m), st)

/-- The settlement of a claim that holds its group. -/
def settlementOf (st : GroupStore P) (events : List (AggregatorEvent P)) :
    AggregatorCall P → Option (Settlement P)
  | .settleGroup claim => (st.fenced claim).map fun _ => ⟨claim, events⟩
  | _ => none

namespace AggregatorState

def initial (store : GroupStore P) : AggregatorState P := ⟨store, fun _ => none, []⟩

def start (s : AggregatorState P) (t : ℕ) (given : Option (Message P))
    (code : AggregatorRoutine P (Control P)) : Option (AggregatorState P) :=
  if (s.goroutines t).isNone then
    some { s with goroutines := Function.update s.goroutines t (some ⟨given, code, []⟩) }
  else none

def proceed (s : AggregatorState P) (t : ℕ) (choice : AggregatorChoice P) (g : Goroutine P) :
    Option (AggregatorState P) :=
  match g.code with
  | .ret c => c.code.map fun code =>
    { s with goroutines := Function.update s.goroutines t (some { g with code := code }) }
  | .ask q k =>
    let (r, store) := serve choice s.store q
    some
      { store := store
        goroutines := Function.update s.goroutines t
          (some { g with code := k r, events := ⟨q, r⟩ :: g.events })
        settled := (settlementOf s.store g.events q).toList ++ s.settled }

def step (timeout : ℤ) (s : AggregatorState P) : AggregatorLabel P → Option (AggregatorState P)
  | .handle t msg => s.start t (some msg) (Routing.handle msg)
  | .reap t => s.start t none (Routing.reap timeout)
  | .proceed t choice => (s.goroutines t).bind (s.proceed t choice)

end AggregatorState

end Msgin.Routing
