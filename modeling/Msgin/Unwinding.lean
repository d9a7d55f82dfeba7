import Msgin.SettlementCalls

/-!
# A worker whose collaborators may panic outside a guard

Three pieces of caller-supplied code are called on a worker with no wrapper around them: the
policy's `Backoff.Delay`, an argument of a guarded Nack, the source's `NativeDeadLetter`, and the
methods of the handler's error that `errors.Is` and `errors.As` run. A panic there unwinds through
`dispatch` and `process`, and only the deferred release runs. The routines are given here with
their panics; where all three return, they are those of the settlement path.
-/

namespace Msgin

open Interaction Prog

/-- The calls that no wrapper guards. `inspect` is one `errors.Is` or `errors.As`. -/
inductive Bare
  | delay (retry : ℤ)
  | nativeDeadLetter
  | inspect (err : Err)

@[reducible] def Bare.Value : Bare → Type
  | .delay _ => ℤ
  | .nativeDeadLetter => Bool
  | .inspect _ => Unit

inductive BareCall (P T : Type)
  | guarded (q : Call P T)
  | bare (b : Bare)

variable {P T : Type}

@[reducible] def BareCall.Answer : BareCall P T → Type
  | .guarded q => q.Answer
  | .bare b => Outcome b.Value

abbrev BareEvent (P T : Type) := Σ q : BareCall P T, q.Answer

abbrev BareRoutine (P T : Type) (α : Type) := Prog (BareCall P T) BareCall.Answer α

abbrev BareEnvironment (P T : Type) := List (BareEvent P T) → (q : BareCall P T) → q.Answer

/-- A routine all of whose panics are recovered. -/
def guarded {α : Type} (p : Routine P T α) : BareRoutine P T α :=
  p.interpret fun q => call (.guarded q)

def bare (b : Bare) : BareRoutine P T (Outcome b.Value) := call (BareCall.bare b)

/-- Continue with the value of a call, or unwind. -/
def Outcome.unwind {α β : Type} (o : Outcome α) (f : α → BareRoutine P T (Outcome β)) :
    BareRoutine P T (Outcome β) :=
  match o with
  | .returned a => f a
  | .panicked r => return .panicked r

def Err.isForeign : Err → Bool
  | .foreign _ _ => true
  | _ => false

namespace Unwinding

/-- Only the methods of a type outside the module can panic. -/
def inspect (err : Err) : BareRoutine P T (Outcome Unit) :=
  if err.nodes.any Err.isForeign then bare (.inspect err) else return .returned ()

def invalidTarget (c : Consumer P T) (cause : Err) :
    BareRoutine P T (Outcome (Option OutboundAdapter × Bool)) :=
  if c.invalidSink.isSome then return .returned (c.invalidTarget cause)
  else do (← inspect cause).unwind fun _ => return .returned (c.invalidTarget cause)

def retryDelay (p : RetryPolicy) (attempt : ℤ) : BareRoutine P T (Outcome ℤ) :=
  match p.backoff with
  | none => return .returned 0
  | some _ => bare (.delay (attempt - 1))

/-- Each log line of a discarded message looks for the decode error in its cause. -/
def divertTerminal (c : Consumer P T) (sink : Option OutboundAdapter) (d : Delivery P)
    (terminalHook : Hook) (cause : Err) : BareRoutine P T (Outcome Bool) :=
  match sink with
  | none => do
      (← inspect cause).unwind fun _ => do
        return .returned (← guarded (do warnDiscard d cause; settleTerminal c d terminalHook cause))
  | some s => do
      match ← guarded (safeSend (some s) d.msg) with
      | none => return .returned (← guarded (settleTerminal c d terminalHook cause))
      | some err =>
          let done ← guarded (perform .settleDone)
          (← inspect cause).unwind fun _ => do
            return .returned (← guarded (settleRefused c d terminalHook cause err done))

def redeliver (c : Consumer P T) (d : Delivery P) (cause : Err) (attempt : ℤ) :
    BareRoutine P T (Outcome Unit) := do
  guarded (safeFire c .onRetry d.msg (some cause))
  (← retryDelay c.policy attempt).unwind fun delay => do
    guarded (do finish (← safeNack d true delay))
    return .returned ()

def divert (c : Consumer P T) (sink : Option OutboundAdapter) (d : Delivery P)
    (terminalHook : Hook) (cause : Err) (attempt : ℤ) : BareRoutine P T (Outcome Bool) := do
  match ← guarded (safeSend sink d.msg) with
  | some _ => (← redeliver c d cause attempt).unwind fun _ => return .returned false
  | none => return .returned (← guarded (settleTerminal c d terminalHook cause))

def evicting (d : Delivery P) (settled : Bool) : BareRoutine P T (Outcome Unit) := do
  guarded (if settled then perform (.evict d.msg.id) else return)
  return .returned ()

def settleInvalid (c : Consumer P T) (d : Delivery P) (cause : Err) :
    BareRoutine P T (Outcome Unit) := do
  (← invalidTarget c cause).unwind fun target => do
    guarded (if target.2 then warnInvalidFallback d.msg.id else return)
    (← divertTerminal c target.1 d .onInvalidMessage cause).unwind (evicting d)

def exhausted (c : Consumer P T) (n : ℤ) : BareRoutine P T (Outcome Bool) :=
  if 0 < c.policy.maxAttempts && c.policy.maxAttempts ≤ n then do
    (← bare .nativeDeadLetter).unwind fun native => return .returned (!native)
  else return .returned false

def settleTransient (c : Consumer P T) (d : Delivery P) (cause : Err) :
    BareRoutine P T (Outcome Unit) := do
  let n ← guarded (attempts d)
  (← exhausted c n).unwind fun exhausted => do
    if exhausted then
      (← divert c c.policy.deadLetter d .onDeadLetter cause n).unwind (evicting d)
    else redeliver c d cause n

def dispatch (c : Consumer P T) (d : Delivery P) : BareRoutine P T (Outcome (Option Err)) := do
  match ← guarded (decode c d.msg) with
  | .inr derr => (← settleInvalid c d derr).unwind fun _ => return .returned (some derr)
  | .inl payload =>
      match ← guarded (safeHandle ⟨payload, d.msg.headers⟩) with
      | none =>
          let ackErr ← guarded (safeAck d)
          guarded (finish ackErr)
          if ackErr.isNone then
            guarded (safeFire c .onAck d.msg none)
            guarded (perform (.evict d.msg.id))
          return .returned none
      | some err =>
          (← inspect err).unwind fun _ => do
            (← if isPermanent (some err) then settleInvalid c d err
              else settleTransient c d err).unwind fun _ => return .returned (some err)

/-- The health signal, for which the error is classified once more. -/
def healthy : Option Err → BareRoutine P T (Outcome Bool)
  | none => return .returned true
  | some err => do (← inspect err).unwind fun _ => return .returned (isPermanent (some err))

def record (c : Consumer P T) (d : Delivery P) (err : Option Err) :
    BareRoutine P T (Outcome Unit) :=
  if c.breaker then do
    (← healthy err).unwind fun success => do
      guarded (safeRecord d.msg.id success)
      return .returned ()
  else return .returned ()

def processUnreleased (c : Consumer P T) (d : Delivery P) : BareRoutine P T (Outcome Unit) := do
  if ← guarded (perform .drainDone) then
    guarded (do finish (← safeNack d true 0))
    return .returned ()
  else if ← guarded (if c.breaker then return !(← dispatchAllowed c d.msg.id)
      else return false) then
    guarded (do finish (← safeNack d true 0))
    return .returned ()
  else
    (← dispatch c d).unwind (record c d)

/-- One delivery on a worker; the deferred release runs also when a panic unwinds. -/
def process (c : Consumer P T) (md : Delivery P) : BareRoutine P T (Outcome Unit) := do
  let o ← processUnreleased c md
  guarded (perform (.releaseOnce md.tag))
  return o

end Unwinding

/-- What a bare call returns on the settlement path. -/
def Consumer.value (c : Consumer P T) : (b : Bare) → b.Value
  | .delay retry => (c.policy.backoff.getD fun _ => 0) retry
  | .nativeDeadLetter => c.nativeDeadLetter
  | .inspect _ => ()

def returning (c : Consumer P T) : (q : BareCall P T) → Routine P T q.Answer
  | .guarded q => perform q
  | .bare b => return .returned (c.value b)

section Returning

variable (c : Consumer P T) {α β : Type}

/-- The routine `p` is the routine `p'` where the bare calls return. -/
def Matches (p : BareRoutine P T (Outcome α)) (p' : Routine P T α) : Prop :=
  p.interpret (returning c) = p' >>= fun a => ret (.returned a)

variable {c}

theorem interpret_guarded (p : Routine P T α) : (guarded p).interpret (returning c) = p :=
  interpret_interpret_eq_self (fun q => interpret_call (BareCall.guarded q)) p

theorem matches_return (a : α) : Matches c (return .returned a) (return a) := rfl

variable {f : α → BareRoutine P T (Outcome β)} {p : BareRoutine P T (Outcome α)}

theorem Matches.guarded_bind {p : Routine P T α} {f' : α → Routine P T β}
    (hf : ∀ a, Matches c (f a) (f' a)) : Matches c (guarded p >>= f) (p >>= f') := by
  rw [Matches, interpret_bind, interpret_guarded, Prog.bind_assoc]
  congr 1
  funext a
  exact hf a

theorem Matches.unwind {p' : Routine P T α} {f' : α → Routine P T β} (hp : Matches c p p')
    (hf : ∀ a, Matches c (f a) (f' a)) : Matches c (p >>= fun o => o.unwind f) (p' >>= f') := by
  rw [Matches, interpret_bind, hp, Prog.bind_assoc,
    Prog.bind_assoc]
  congr 1
  funext a
  exact hf a

theorem Matches.value_bind {a : α} {q : Routine P T β} (hp : Matches c p (return a))
    (hf : Matches c (f a) q) : Matches c (p >>= fun o => o.unwind f) q := by
  rw [Matches, interpret_bind, hp]
  exact hf

theorem matches_guarded (p : Routine P T α) : Matches c (do return .returned (← guarded p)) p := by
  rw [Matches, interpret_bind, interpret_guarded]
  rfl

theorem matches_guarded_unit (p : Routine P T Unit) :
    Matches c (do guarded p; return .returned ()) p := by
  rw [Matches, interpret_bind, interpret_guarded]
  rfl

theorem matches_bare (b : Bare) : Matches c (bare b) (return c.value b) :=
  interpret_call (BareCall.bare b)

theorem matches_inspect (err : Err) : Matches c (Unwinding.inspect err) (return ()) := by
  unfold Unwinding.inspect
  split
  · exact matches_bare (.inspect err)
  · exact matches_return ()

variable (d : Delivery P) (cause : Err) (n : ℤ)

theorem matches_invalidTarget :
    Matches c (Unwinding.invalidTarget c cause) (return c.invalidTarget cause) := by
  unfold Unwinding.invalidTarget
  split
  · exact matches_return _
  · exact (matches_inspect cause).value_bind (matches_return _)

theorem matches_retryDelay :
    Matches c (Unwinding.retryDelay c.policy n) (return retryDelay c.policy n) := by
  unfold Unwinding.retryDelay retryDelay
  cases hb : c.policy.backoff with
  | none => rfl
  | some delay => simpa [Consumer.value, hb] using matches_bare (c := c) (.delay (n - 1))

theorem matches_exhausted : Matches c (Unwinding.exhausted c n) (return exhausted c n) := by
  unfold Unwinding.exhausted exhausted
  split
  · next h =>
      rw [h, Bool.true_and]
      exact (matches_bare (c := c) .nativeDeadLetter).unwind fun native => matches_return (!native)
  · next h => simp [Matches, Bool.eq_false_iff.mpr h]

theorem matches_divertTerminal (sink : Option OutboundAdapter) (d : Delivery P) (hook : Hook)
    (cause : Err) :
    Matches c (Unwinding.divertTerminal c sink d hook cause) (divertTerminal c sink d hook cause) := by
  cases sink with
  | none => exact (matches_inspect cause).value_bind (matches_guarded _)
  | some s =>
      refine Matches.guarded_bind fun err => ?_
      cases err with
      | none => exact matches_guarded _
      | some err =>
          exact Matches.guarded_bind fun done =>
            (matches_inspect cause).value_bind (matches_guarded _)

theorem matches_redeliver :
    Matches c (Unwinding.redeliver c d cause n) (redeliver c d cause n) := by
  have htail : ∀ delay, Matches c
      (do guarded (do finish (← safeNack d true delay)); return .returned ())
      (do finish (← safeNack d true delay)) := fun delay => matches_guarded_unit _
  exact Matches.guarded_bind fun _ => (matches_retryDelay n).unwind htail

theorem matches_divert (sink : Option OutboundAdapter) (d : Delivery P) (hook : Hook) (cause : Err)
    (n : ℤ) : Matches c (Unwinding.divert c sink d hook cause n) (divert c sink d hook cause n) := by
  refine Matches.guarded_bind fun err => ?_
  cases err with
  | some err => exact (matches_redeliver d cause n).unwind fun _ => matches_return false
  | none => exact matches_guarded _

theorem matches_evicting (settled : Bool) :
    Matches c (Unwinding.evicting d settled) (if settled then perform (.evict d.msg.id) else return) :=
  matches_guarded_unit _

theorem matches_settleInvalid :
    Matches c (Unwinding.settleInvalid c d cause) (settleInvalid c d cause) := by
  refine (matches_invalidTarget cause).value_bind ?_
  unfold settleInvalid
  obtain ⟨sink, fellBack⟩ := c.invalidTarget cause
  have htail := (matches_divertTerminal (c := c) sink d .onInvalidMessage cause).unwind
    (matches_evicting d)
  cases fellBack with
  | true => exact Matches.guarded_bind fun _ => htail
  | false => exact htail

theorem matches_settleTransient :
    Matches c (Unwinding.settleTransient c d cause) (settleTransient c d cause) := by
  refine Matches.guarded_bind fun n => ?_
  have htail : ∀ ex : Bool, Matches c
      (if ex then do
        (← Unwinding.divert c c.policy.deadLetter d .onDeadLetter cause n).unwind
          (Unwinding.evicting d)
      else Unwinding.redeliver c d cause n)
      (if ex then do
        if ← divert c c.policy.deadLetter d .onDeadLetter cause n then perform (.evict d.msg.id)
      else redeliver c d cause n) := by
    intro ex
    cases ex with
    | true => exact (matches_divert _ d _ cause n).unwind (matches_evicting d)
    | false => exact matches_redeliver d cause n
  exact (matches_exhausted n).unwind htail

theorem matches_dispatch : Matches c (Unwinding.dispatch c d) (dispatch c d) := by
  refine Matches.guarded_bind fun res => ?_
  cases res with
  | inr derr => exact (matches_settleInvalid d derr).unwind fun _ => matches_return _
  | inl payload =>
      refine Matches.guarded_bind fun err => ?_
      cases err with
      | none =>
          refine Matches.guarded_bind fun ackErr => Matches.guarded_bind fun _ => ?_
          cases ackErr with
          | none => exact Matches.guarded_bind fun _ => Matches.guarded_bind fun _ => matches_return _
          | some err => exact matches_return _
      | some err =>
          refine (matches_inspect err).value_bind ?_
          dsimp only
          split
          · exact (matches_settleInvalid d err).unwind fun _ => matches_return _
          · exact (matches_settleTransient d err).unwind fun _ => matches_return _

theorem matches_healthy (err : Option Err) :
    Matches c (Unwinding.healthy err) (return err.isNone || isPermanent err) := by
  cases err with
  | none => exact matches_return true
  | some err => exact (matches_inspect err).value_bind (matches_return _)

theorem matches_record (err : Option Err) :
    Matches c (Unwinding.record c d err)
      (if c.breaker then safeRecord d.msg.id (err.isNone || isPermanent err) else return) := by
  unfold Unwinding.record
  split
  · exact (matches_healthy err).value_bind (matches_guarded_unit _)
  · exact matches_return ()

theorem matches_processUnreleased :
    Matches c (Unwinding.processUnreleased c d) (processUnreleased c d) := by
  have hnack : Matches c (do guarded (do finish (← safeNack d true 0)); return .returned ())
      (do finish (← safeNack d true 0)) := matches_guarded_unit _
  refine Matches.guarded_bind fun done => ?_
  cases done with
  | true => exact hnack
  | false =>
      refine Matches.guarded_bind fun denied => ?_
      cases denied with
      | true => exact hnack
      | false => exact (matches_dispatch d).unwind (matches_record d)

/-- Where the bare calls return, a worker is the worker of the settlement path. -/
theorem matches_process (md : Delivery P) : Matches c (Unwinding.process c md) (process c md) := by
  rw [Matches, Unwinding.process, interpret_bind, matches_processUnreleased, process,
    Prog.bind_assoc, Prog.bind_assoc]
  congr 1

end Returning

end Msgin
