import Mathlib.Data.Finset.Card
import Mathlib.Logic.Function.Basic
import Msgin.TransitionRuns
import Msgin.Producers

/-!
# A running consumer

`Run` starts one producer goroutine and a pool of workers around a credit gate and a
worker channel. A state holds the residual routine of each goroutine, and a step answers
one call of one goroutine. The label of a step carries the answer of every collaborator,
context, timer and tracker, so a run covers every interleaving and every behaviour of the
environment; the gate and the channel answer from the state.
-/

namespace Msgin

open Interaction Prog

variable {P T : Type}

structure RunState (P T : Type) where
  ctxDone : Bool
  -- `len(gate.tokens)`
  tokens : ℕ
  -- credits the producer has taken and neither returned nor passed on with a delivery
  held : ℕ
  -- deliveries with a `sync.OnceFunc(gate.release)`, and those whose release has run
  managed : Finset ℕ
  released : Finset ℕ
  -- how many credits a delivery has given back
  given : ℕ → ℕ
  workerCh : List (Delivery P)
  -- `none` once the goroutine has closed the worker channel
  producer : Option (Routine P T (Control P))
  workers : ℕ → Option (Delivery P × Routine P T Unit)

inductive RunLabel (P T : Type)
  | cancel
  | produce (answer : (q : Call P T) → q.Answer)
  | nextPass
  | take (i : ℕ)
  | work (i : ℕ) (answer : (q : Call P T) → q.Answer)
  | finish (i : ℕ)

namespace RunState

/-- Whether the gate, the channel or the context lets a call return this answer now. -/
def enabled (c : Consumer P T) (s : RunState P T) (q : Call P T) (r : q.Answer) : Bool :=
  match q, r with
  | .acquire, none => s.tokens < c.maxInFlight
  | .acquire, some _ => s.ctxDone
  | .tryAcquire, b => b == decide (s.tokens < c.maxInFlight)
  | .release, _ => 0 < s.tokens
  -- a second call of the `sync.OnceFunc` receives nothing
  | .releaseOnce d, _ => d ∈ s.released || 0 < s.tokens
  | .handOff _, sent => if sent then s.workerCh.length < c.maxInFlight else s.ctxDone
  | .receive, .ctxDone => s.ctxDone
  | .park, woken => woken || s.ctxDone
  | .sleep _, elapsed => elapsed || s.ctxDone
  | _, _ => true

def effect (s : RunState P T) (q : Call P T) (r : q.Answer) : RunState P T :=
  match q, r with
  | .acquire, none => { s with tokens := s.tokens + 1, held := s.held + 1 }
  | .tryAcquire, b => if b then { s with tokens := s.tokens + 1, held := s.held + 1 } else s
  | .release, _ => { s with tokens := s.tokens - 1, held := s.held - 1 }
  | .manage d, _ => { s with held := s.held - 1, managed := insert d s.managed }
  | .releaseOnce d, _ =>
      if d ∈ s.released then s
      else
        { s with
          tokens := s.tokens - 1
          released := insert d s.released
          given := Function.update s.given d (s.given d + 1) }
  | .handOff md, sent => if sent then { s with workerCh := s.workerCh ++ [md] } else s
  | _, _ => s

end RunState

inductive SourceKind
  | streaming
  | polling
  deriving DecidableEq

def startOf : SourceKind → Control P
  | .streaming => .ingest 0
  | .polling => .pollLoop 0 0

namespace RunState

def initial (c : Consumer P T) (kind : SourceKind) : RunState P T where
  ctxDone := false
  tokens := 0
  held := 0
  managed := ∅
  released := ∅
  given := fun _ => 0
  workerCh := []
  producer := some (Msgin.producer c (startOf kind))
  workers := fun _ => none

def step (c : Consumer P T) (s : RunState P T) : RunLabel P T → Option (RunState P T)
  | .cancel => some { s with ctxDone := true }
  | .produce answer =>
      match s.producer with
      | some (.ask q k) =>
          if s.enabled c q (answer q) then
            some { s.effect q (answer q) with producer := some (k (answer q)) }
          else none
      | _ => none
  | .nextPass =>
      match s.producer with
      | some (.ret .stopped) => some { s with producer := none }
      | some (.ret ctl) => some { s with producer := some (Msgin.producer c ctl) }
      | _ => none
  | .take i =>
      match s.workers i, s.workerCh with
      | none, md :: rest =>
          if i < c.workers then
            some { s with
              workerCh := rest
              workers := Function.update s.workers i (some (md, process c md)) }
          else none
      | _, _ => none
  | .work i answer =>
      match s.workers i with
      | some (md, .ask q k) =>
          if s.enabled c q (answer q) then
            some { s.effect q (answer q) with
              workers := Function.update s.workers i (some (md, k (answer q))) }
          else none
      | _ => none
  | .finish i =>
      match s.workers i with
      | some (_, .ret _) => some { s with workers := Function.update s.workers i none }
      | _ => none

def producerCall (s : RunState P T) : Option (Call P T) :=
  match s.producer with
  | some (.ask q _) => some q
  | _ => none

def workerCall (s : RunState P T) (i : ℕ) : Option (Call P T) :=
  match s.workers i with
  | some (_, .ask q _) => some q
  | _ => none

def inProcess (s : RunState P T) (i d : ℕ) : Prop :=
  ∃ md p, s.workers i = some (md, p) ∧ md.tag = d

def betweenPasses (s : RunState P T) : Prop :=
  s.producer = none ∨ ∃ ctl, s.producer = some (.ret ctl)

end RunState

end Msgin
