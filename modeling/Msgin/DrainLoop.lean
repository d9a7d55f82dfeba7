import Msgin.Aggregator
import Msgin.GroupStoreRuns

/-!
# Draining the residual of a released group

`release` on the in-memory store, step by step, while other goroutines add members to the key and
work on other keys. After the claim is settled the loop claims whatever is left at the key, and
either releases it or puts it back and returns. A turn that releases leaves only members added
since its claim, so the turns are bounded by the `Add` calls.
-/

namespace Msgin.Routing

open Interaction Prog Memory

variable {P : Type}

structure DrainState (P : Type) where
  store : GroupStore P
  -- What is left of `release`.
  code : AggregatorRoutine P (Control P)
  -- The calls it has made, the latest first.
  events : List (AggregatorEvent P)
  -- How many `Add` calls at the key came after its last `ClaimGroup`.
  late : ℕ

/-- A step of the goroutine in `release`, or a call of the store by another one. -/
inductive DrainLabel (P : Type)
  | proceed (choice : AggregatorChoice P)
  | add (key : String) (msg : Message P) (now : ℤ)
  | claimGroup (key : String)
  | settleGroup (claim : ClaimGroup P) (now : ℤ)
  | abandonGroup (claim : ClaimGroup P)

def DrainLabel.isProceed : DrainLabel P → Bool
  | proceed _ => true
  | add _ _ _ => false
  | claimGroup _ => false
  | settleGroup _ _ => false
  | abandonGroup _ => false

def DrainLabel.addsTo (k : String) : DrainLabel P → Bool
  | proceed _ => false
  | add key _ _ => key == k
  | claimGroup _ => false
  | settleGroup _ _ => false
  | abandonGroup _ => false

abbrev Strategy (P : Type) := Snapshot P → Bool × Option Err

/-- The store and the strategy answer; the rest is the choice of the environment. -/
def serveDrain (strategy : Strategy P) (choice : AggregatorChoice P) (st : GroupStore P) :
    (q : AggregatorCall P) → q.Answer × GroupStore P
  | .release group => (.returned (strategy group), st)
  | q => serve choice st q

def isClaim : AggregatorCall P → Bool
  | .claimGroup _ => true
  | _ => false

namespace DrainState

def start (st : GroupStore P) (claim : ClaimGroup P) : DrainState P :=
  ⟨st, release .member claim, [], 0⟩

def answer (strategy : Strategy P) (choice : AggregatorChoice P) (s : DrainState P)
    (q : AggregatorCall P) (f : q.Answer → AggregatorRoutine P (Control P)) : DrainState P where
  store := (serveDrain strategy choice s.store q).2
  code := f (serveDrain strategy choice s.store q).1
  events := ⟨q, (serveDrain strategy choice s.store q).1⟩ :: s.events
  late := if isClaim q then 0 else s.late

/-- No other goroutine claims the key `k`, or holds a claim there. -/
def step (strategy : Strategy P) (k : String) (s : DrainState P) :
    DrainLabel P → Option (DrainState P)
  | .proceed choice =>
    match s.code with
    | .ret (.handled _) | .ret (.swept _) | .ret (.reaping _ _) => none
    | .ret (.draining key site) => some { s with code := drain key site }
    | .ask q f => some (s.answer strategy choice q f)
  | .add key msg now =>
    some { s with
      store := (s.store.add key msg now).2
      late := if key = k then s.late + 1 else s.late }
  | .claimGroup key =>
    if key = k then none else some { s with store := (s.store.claimGroup key).2 }
  | .settleGroup claim now =>
    if claim.key = k ∧ (s.store.fenced claim).isSome then none
    else some { s with store := s.store.settleGroup claim now }
  | .abandonGroup claim =>
    if claim.key = k ∧ (s.store.fenced claim).isSome then none
    else some { s with store := s.store.abandonGroup claim }

end DrainState

/-- `releaseOnce` is called for the claim that `release` was given, or for one of its loop. -/
inductive DrainPhase (P : Type)
  | ended (o : Outcome (Option Err))
  | head
  | turn
  | deciding (next : ClaimGroup P)
  | declining (next : ClaimGroup P)
  | aggregating (first : Bool) (cl : ClaimGroup P)
  | sending (first : Bool) (cl : ClaimGroup P) (out : Message P)
  | settling (first : Bool) (cl : ClaimGroup P)
  | failing (first : Bool) (cl : ClaimGroup P) (o : Outcome (Option Err))

namespace DrainPhase

/-- Where `release` goes on when `releaseOnce` ends. -/
def resume (first : Bool) : Outcome (Option Err) → DrainPhase P
  | .panicked r => ended (.panicked r)
  | .returned (some err) => ended (.returned (if first then some err else none))
  | .returned none => head

def claimed : Except Err (Option (ClaimGroup P)) → DrainPhase P
  | .error _ => ended (.returned none)
  | .ok none => ended (.returned none)
  | .ok (some next) => deciding next

def decided (next : ClaimGroup P) : Outcome (Bool × Option Err) → DrainPhase P
  | .panicked r => ended (.panicked r)
  | .returned (true, none) => aggregating false next
  | .returned (true, some _) => declining next
  | .returned (false, _) => declining next

def aggregated (first : Bool) (cl : ClaimGroup P) : Outcome (Except Err (Message P)) → DrainPhase P
  | .panicked r => failing first cl (.panicked r)
  | .returned (.error aggErr) => failing first cl (.returned (some aggErr))
  | .returned (.ok out) => sending first cl out

def sent (first : Bool) (cl : ClaimGroup P) : Outcome (Option Err) → DrainPhase P
  | .panicked r => failing first cl (.panicked r)
  | .returned (some sendErr) => failing first cl (.returned (some sendErr))
  | .returned none => settling first cl

def settled (first : Bool) (cl : ClaimGroup P) : Option Err → DrainPhase P
  | some err => failing first cl (.returned (some err))
  | none => head

/-- The rest of `release` at the key `k` from such a point on. -/
inductive Runs (k : String) : DrainPhase P → AggregatorRoutine P (Control P) → Prop
  | ended (o : Outcome (Option Err)) : Runs k (ended o) (.ret (.handled o))
  | head : Runs k head (.ret (.draining k .member))
  | turn {f : Except Err (Option (ClaimGroup P)) → AggregatorRoutine P (Control P)}
      (hf : ∀ a, Runs k (claimed a) (f a)) : Runs k turn (.ask (.claimGroup k) f)
  | deciding {next : ClaimGroup P}
      {f : Outcome (Bool × Option Err) → AggregatorRoutine P (Control P)}
      (hf : ∀ a, Runs k (decided next a) (f a)) :
      Runs k (deciding next) (.ask (.release next.toSnapshot) f)
  | declining {next : ClaimGroup P} {f : Option Err → AggregatorRoutine P (Control P)}
      (hf : ∀ a, Runs k (.ended (.returned none)) (f a)) :
      Runs k (declining next) (.ask (.abandonGroup next) f)
  | aggregating {first : Bool} {cl : ClaimGroup P}
      {f : Outcome (Except Err (Message P)) → AggregatorRoutine P (Control P)}
      (hf : ∀ a, Runs k (aggregated first cl a) (f a)) :
      Runs k (aggregating first cl) (.ask (.aggregate cl.msgs) f)
  | sending {first : Bool} {cl : ClaimGroup P} {out : Message P}
      {f : Outcome (Option Err) → AggregatorRoutine P (Control P)}
      (hf : ∀ a, Runs k (sent first cl a) (f a)) :
      Runs k (sending first cl out) (.ask (.send out) f)
  | settling {first : Bool} {cl : ClaimGroup P}
      {f : Option Err → AggregatorRoutine P (Control P)}
      (hf : ∀ a, Runs k (settled first cl a) (f a)) :
      Runs k (settling first cl) (.ask (.settleGroup cl) f)
  | failing {first : Bool} {cl : ClaimGroup P} {o : Outcome (Option Err)}
      {f : Option Err → AggregatorRoutine P (Control P)}
      (hf : ∀ a, Runs k (resume first o) (f a)) :
      Runs k (failing first cl o) (.ask (.abandonGroup cl) f)

variable {k : String}

theorem runs_releaseOnce (first : Bool) (cl : ClaimGroup P)
    {f : Outcome (Option Err) → AggregatorRoutine P (Control P)}
    (hf : ∀ o, Runs k (resume first o) (f o)) :
    Runs k (aggregating first cl) (releaseOnce cl >>= f) := by
  refine .aggregating fun a => ?_
  rcases a with (aggErr | out) | r
  · exact .failing fun _ => hf _
  · refine .sending fun b => ?_
    rcases b with (_ | sendErr) | r
    · refine .settling fun c => ?_
      rcases c with _ | err
      · exact hf (.returned none)
      · exact .failing fun _ => hf _
    · exact .failing fun _ => hf _
    · exact .failing fun _ => hf _
  · exact .failing fun _ => hf _

theorem runs_release (claim : ClaimGroup P) :
    Runs claim.key (aggregating true claim) (release .member claim) := by
  refine runs_releaseOnce true claim fun o => ?_
  rcases o with (_ | err) | r
  · exact .head
  · exact .ended _
  · exact .ended _

theorem runs_drain (k : String) : Runs k turn (drain k .member : AggregatorRoutine P _) := by
  refine .turn fun a => ?_
  rcases a with cerr | _ | next
  · exact .ended _
  · exact .ended _
  · refine .deciding fun d => ?_
    rcases d with ⟨_ | _, rerr⟩ | r
    · exact .declining fun _ => .ended _
    · rcases rerr with _ | rerr
      · refine runs_releaseOnce false next fun o => ?_
        rcases o with (_ | err) | r
        · exact .head
        · exact .ended _
        · exact .ended _
      · exact .declining fun _ => .ended _
    · exact .ended _

end DrainPhase

end Msgin.Routing
