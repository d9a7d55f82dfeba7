import Msgin.Settlement

/-!
# The calls of the settlement path

Settling a delivery touches the credit gate in one way only: a managed delivery calls its
own release. The only Ack and Nack it calls are those of the delivery itself. Every other
call of the settlement path is plain: it is one of `dispatch` or one of the governors. `φ`
stands for a set of calls that contains those, the Ack and the Nack of the delivery, and its
release where it is managed.
-/

namespace Msgin

open Interaction Prog

variable {P T : Type}

def Call.isCredit : Call P T → Bool
  | .acquire => true
  | .tryAcquire => true
  | .release => true
  | .manage _ => true
  | .releaseOnce _ => true
  | .handOff _ => true
  | _ => false

def Call.settles : Call P T → Option ℕ
  | .ack d => some d
  | .nack d _ _ => some d
  | _ => none

/-- A call that moves no credit and neither receives nor settles a delivery. -/
def Call.isPlain : Call P T → Bool
  | .receive => false
  | q => !q.isCredit && q.settles.isNone

theorem isCredit_of_isPlain (q : Call P T) (h : q.isPlain = true) : q.isCredit = false := by
  cases q <;> first | rfl | cases h

variable {q : Call P T}

theorem settles_of_isPlain (h : q.isPlain = true) : q.settles = none := by
  cases q <;> first | rfl | cases h

theorem isCredit_of_settles {d : ℕ} (q : Call P T) (h : q.settles = some d) :
    q.isCredit = false := by
  cases q <;> first | rfl | cases h

/-- A call of `dispatch` that does not settle and moves no credit. -/
def Call.isDispatch : Call P T → Bool
  | .decode _ => true
  | .handle _ => true
  | .send _ _ => true
  | .fire _ _ _ => true
  | .observe _ => true
  | .evict _ => true
  | .settleDone => true
  | .invalidFallbackLogged => true
  | .log _ _ _ => true
  | _ => false

theorem isPlain_of_isDispatch (h : q.isDispatch = true) : q.isPlain = true := by
  cases q <;> first | rfl | cases h

theorem isCredit_of_isDispatch (q : Call P T) (h : q.isDispatch = true) : q.isCredit = false :=
  isCredit_of_isPlain q (isPlain_of_isDispatch h)

def Call.isGovernor : Call P T → Bool
  | .allow => true
  | .tryProbe => true
  | .recordOutcome _ => true
  | .panicLogged _ => true
  | .drainDone => true
  | .log _ _ _ => true
  | _ => false

theorem isPlain_of_isGovernor (h : q.isGovernor = true) : q.isPlain = true := by
  cases q <;> simp_all [Call.isGovernor, Call.isPlain, Call.isCredit, Call.settles]

theorem isCredit_of_isGovernor (h : q.isGovernor = true) : q.isCredit = false :=
  isCredit_of_isPlain q (isPlain_of_isGovernor h)

theorem only_perform {φ : Call P T → Prop} (h : φ q) : Only φ (perform q) :=
  only_call h

section Governor

variable {φ : Call P T → Prop} (hg : ∀ q, q.isGovernor = true → φ q)

include hg

theorem only_governorPanic (method id r : String) :
    Only φ (governorPanic method id r : Routine P T Unit) := by
  unfold governorPanic
  refine (only_perform (hg _ rfl)).bind fun b => ?_
  split
  · exact only_pure ()
  · exact only_perform (hg _ rfl)

theorem only_failOpen (method id : String) (o : Outcome Bool) :
    Only φ (failOpen method id o : Routine P T Bool) := by
  cases o with
  | returned ok => exact only_pure ok
  | panicked r => exact (only_governorPanic hg method id r).bind fun _ => only_pure true

theorem only_safeAllow (id : String) : Only φ (safeAllow id : Routine P T Bool) :=
  (only_perform (hg _ rfl)).bind fun o => only_failOpen hg _ id o

theorem only_dispatchAllowed (c : Consumer P T) (id : String) : Only φ (dispatchAllowed c id) := by
  unfold dispatchAllowed
  split
  · exact (only_perform (hg _ rfl)).bind fun o => only_failOpen hg _ id o
  · exact only_safeAllow hg id

theorem only_safeRecord (id : String) (success : Bool) :
    Only φ (safeRecord id success : Routine P T Unit) := by
  unfold safeRecord
  refine (only_perform (hg _ rfl)).bind fun o => ?_
  cases o with
  | returned u => exact only_pure ()
  | panicked r => exact only_governorPanic hg _ id r

end Governor

section Neutral

variable {φ : Call P T → Prop} (hφ : ∀ q, q.isDispatch = true → φ q)

include hφ

theorem only_logWarn (text : String) (attrs : List (String × LogValue)) :
    Only φ (logWarn text attrs : Routine P T Unit) := only_perform (hφ _ rfl)

theorem only_logError (text : String) (attrs : List (String × LogValue)) :
    Only φ (logError text attrs : Routine P T Unit) := only_perform (hφ _ rfl)

theorem only_finish (err : Option Err) : Only φ (finish err : Routine P T Unit) := by
  cases err with
  | none => exact only_pure ()
  | some err => exact only_logError hφ _ _

theorem only_safeFire (c : Consumer P T) (hook : Hook) (m : Message P) (cause : Option Err) :
    Only φ (safeFire c hook m cause) := by
  unfold safeFire
  split
  · refine (only_perform (hφ _ rfl)).bind fun o => ?_
    cases o with
    | returned u => exact only_pure ()
    | panicked r => exact only_logWarn hφ _ _
  · exact only_pure ()

theorem only_safeHandle (m : Message T) : Only φ (safeHandle m : Routine P T (Option Err)) := by
  unfold safeHandle
  refine (only_perform (hφ _ rfl)).bind fun o => ?_
  cases o with
  | returned err => exact only_pure _
  | panicked r => exact only_pure _

theorem only_safeDecode (id : String) (b : List UInt8) :
    Only φ (safeDecode id b : Routine P T (T ⊕ Err)) := by
  unfold safeDecode
  refine (only_perform (hφ _ rfl)).bind fun o => ?_
  rcases o with (v | err) | r
  · exact only_pure _
  · exact only_pure _
  · exact (only_logError hφ _ _).bind fun _ => only_pure _

theorem only_decode (c : Consumer P T) (m : Message P) : Only φ (decode c m) := by
  unfold decode
  split
  · split <;> exact only_pure _
  · split
    · exact only_pure _
    · split
      · exact only_pure _
      · exact only_safeDecode hφ _ _

theorem only_safeSend (sink : Option OutboundAdapter) (m : Message P) :
    Only φ (safeSend sink m : Routine P T (Option Err)) := by
  unfold safeSend
  cases sink with
  | none => exact (only_logError hφ _ _).bind fun _ => only_pure _
  | some s =>
      refine (only_perform (hφ (.send s m) rfl)).bind fun o => ?_
      cases o with
      | returned err => exact only_pure _
      | panicked r => exact (only_logError hφ _ _).bind fun _ => only_pure _

theorem only_attempts (d : Delivery P) : Only φ (attempts d : Routine P T ℤ) := by
  unfold attempts
  split
  · exact only_pure _
  · exact only_perform (hφ _ rfl)

theorem only_warnInvalidFallback (id : String) :
    Only φ (warnInvalidFallback id : Routine P T Unit) := by
  unfold warnInvalidFallback
  refine (only_perform (hφ _ rfl)).bind fun b => ?_
  split
  · exact only_logWarn hφ _ _
  · exact only_pure ()

theorem only_warnDiscard (d : Delivery P) (cause : Err) :
    Only φ (warnDiscard d cause : Routine P T Unit) := by
  unfold warnDiscard
  split <;> exact only_logWarn hφ _ _

end Neutral

section Settling

variable {φ : Call P T → Prop} (hφ : ∀ q, q.isDispatch = true → φ q) {d : Delivery P}
  (hs : ∀ q, q.settles = some d.tag → φ q) (hd : d.managed = true → φ (.releaseOnce d.tag))

include hd in
theorem only_release_bind {α : Type} {p : Routine P T α} (hp : Only φ p) :
    Only φ (do if d.managed then perform (.releaseOnce d.tag)
               p) := by
  by_cases hm : d.managed = true
  · simp only [hm, if_true]
    exact (only_perform (hd hm)).bind fun _ => hp
  · simp only [hm]
    exact hp

include hφ hs hd

theorem only_safeAck : Only φ (safeAck d : Routine P T (Option Err)) := by
  unfold safeAck
  refine Only.bind (only_release_bind hd (only_perform (hs (.ack d.tag) rfl))) fun o => ?_
  cases o with
  | returned err => exact only_pure _
  | panicked r => exact (only_logError hφ _ _).bind fun _ => only_pure _

theorem only_safeNack (requeue : Bool) (delay : ℤ) :
    Only φ (safeNack d requeue delay : Routine P T (Option Err)) := by
  unfold safeNack
  refine Only.bind
    (only_release_bind hd (only_perform (hs (.nack d.tag requeue delay) rfl))) fun o => ?_
  cases o with
  | returned err => exact only_pure _
  | panicked r => exact (only_logError hφ _ _).bind fun _ => only_pure _

theorem only_finish_safeNack (requeue : Bool) (delay : ℤ) :
    Only φ (do finish (← safeNack d requeue delay) : Routine P T Unit) :=
  (only_safeNack hφ hs hd requeue delay).bind fun err => only_finish hφ err

variable (c : Consumer P T) (hook : Hook) (cause : Err)

theorem only_settleTerminal (hookErr : Err) : Only φ (settleTerminal c d hook hookErr) := by
  unfold settleTerminal
  refine (only_safeFire hφ c hook d.msg _).bind fun _ => ?_
  refine (only_safeAck hφ hs hd).bind fun ackErr => ?_
  exact (only_finish hφ ackErr).bind fun _ => only_pure _

theorem only_settleRefused (err : Err) (done : Bool) :
    Only φ (settleRefused c d hook cause err done) := by
  unfold settleRefused
  split
  · refine (only_logWarn hφ _ _).bind fun _ => (only_safeNack hφ hs hd true 0).bind fun nackErr => ?_
    exact (only_finish hφ nackErr).bind fun _ => only_pure _
  · exact (only_logWarn hφ _ _).bind fun _ => only_settleTerminal hφ hs hd c hook _

theorem only_divertTerminal (sink : Option OutboundAdapter) (hook : Hook) (cause : Err) :
    Only φ (divertTerminal c sink d hook cause) := by
  unfold divertTerminal
  cases sink with
  | none =>
      exact (only_warnDiscard hφ d cause).bind fun _ => only_settleTerminal hφ hs hd c hook cause
  | some s =>
      refine (only_safeSend hφ (some s) d.msg).bind fun err => ?_
      cases err with
      | none => exact only_settleTerminal hφ hs hd c hook cause
      | some err =>
          refine (only_perform (hφ _ rfl)).bind fun done => ?_
          exact only_settleRefused hφ hs hd c hook cause err done

theorem only_redeliver (n : ℤ) : Only φ (redeliver c d cause n) := by
  unfold redeliver
  exact (only_safeFire hφ c .onRetry d.msg _).bind fun _ => only_finish_safeNack hφ hs hd true _

theorem only_divert (sink : Option OutboundAdapter) (hook : Hook) (cause : Err) (n : ℤ) :
    Only φ (divert c sink d hook cause n) := by
  unfold divert
  refine (only_safeSend hφ sink d.msg).bind fun err => ?_
  cases err with
  | none => exact only_settleTerminal hφ hs hd c hook cause
  | some err => exact (only_redeliver hφ hs hd c cause n).bind fun _ => only_pure _

theorem only_settleInvalid : Only φ (settleInvalid c d cause) := by
  have htail : Only φ (do
      if ← divertTerminal c (c.invalidTarget cause).1 d .onInvalidMessage cause then
        perform (.evict d.msg.id)) := by
    refine (only_divertTerminal hφ hs hd c _ .onInvalidMessage cause).bind fun settled => ?_
    split
    · exact only_perform (hφ _ rfl)
    · exact only_pure ()
  unfold settleInvalid
  dsimp only
  split
  · exact (only_warnInvalidFallback hφ d.msg.id).bind fun _ => htail
  · exact htail

theorem only_settleTransient : Only φ (settleTransient c d cause) := by
  unfold settleTransient
  refine (only_attempts hφ d).bind fun n => ?_
  split
  · refine (only_divert hφ hs hd c _ .onDeadLetter cause n).bind fun settled => ?_
    split
    · exact only_perform (hφ _ rfl)
    · exact only_pure _
  · exact only_redeliver hφ hs hd c cause n

theorem only_dispatch : Only φ (dispatch c d) := by
  unfold dispatch
  refine (only_decode hφ c d.msg).bind fun res => ?_
  cases res with
  | inr derr => exact (only_settleInvalid hφ hs hd c derr).bind fun _ => only_pure _
  | inl payload =>
      refine (only_safeHandle hφ _).bind fun err => ?_
      cases err with
      | none =>
          refine (only_safeAck hφ hs hd).bind fun ackErr => ?_
          refine (only_finish hφ ackErr).bind fun _ => ?_
          split
          · refine (only_safeFire hφ c .onAck d.msg none).bind fun _ => ?_
            exact (only_perform (hφ _ rfl)).bind fun _ => only_pure _
          · exact only_pure _
      | some err =>
          dsimp only
          split
          · exact (only_settleInvalid hφ hs hd c err).bind fun _ => only_pure _
          · exact (only_settleTransient hφ hs hd c err).bind fun _ => only_pure _

theorem only_processUnreleased (hg : ∀ q, q.isGovernor = true → φ q) (c : Consumer P T) :
    Only φ (processUnreleased c d) := by
  have hnack : Only φ (do finish (← safeNack d true 0) : Routine P T Unit) :=
    only_finish_safeNack hφ hs hd true 0
  have hdispatch : Only φ (do
      let err ← dispatch c d
      if c.breaker then safeRecord d.msg.id (err.isNone || isPermanent err)) := by
    refine (only_dispatch hφ hs hd c).bind fun err => ?_
    split
    · exact only_safeRecord hg _ _
    · exact only_pure ()
  unfold processUnreleased
  refine (only_perform (hg _ rfl)).bind fun done => ?_
  split
  · exact hnack
  · refine Only.bind ?_ fun denied => ?_
    · split
      · exact (only_dispatchAllowed hg c d.msg.id).bind fun ok => only_pure _
      · exact only_pure _
    · split
      · exact hnack
      · exact hdispatch

end Settling

end Msgin
