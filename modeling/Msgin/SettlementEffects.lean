import Msgin.Settlement

/-!
# The effects of settling one delivery

Each routine of the settlement path has a shape: the calls it makes, log lines aside,
with their answers. The shapes are inductive predicates that mirror the routines, and
each routine is shown to take its shape whatever the collaborators do. This module goes
from single guarded calls to the two diverts.
-/

namespace Msgin

open Interaction Prog

variable {P T α : Type}

/-- The result of a routine and its calls, log lines aside, always form a pair of `S`. -/
abbrev Effects (S : α → List (Event P T) → Prop) (p : Routine P T α) : Prop :=
  Emits (fun q => !q.isLog) S p

def effects (env : Environment P T) (p : Routine P T α) : List (Event P T) :=
  (p.trace env).filter fun e => !e.1.isLog

theorem Effects.effects {S : α → List (Event P T) → Prop} {p : Routine P T α} (h : Effects S p)
    (env : Environment P T) : S (p.exec env []).1 (effects env p) :=
  Emits.trace h env

/-- The error a guarded call reports: a panic becomes an error with the given text. -/
def Outcome.errOr (text : String) : Outcome (Option Err) → Option Err
  | .returned err => err
  | .panicked r => some (.new (text ++ r))

def Outcome.succeeded : Outcome (Option Err) → Bool
  | .returned none => true
  | _ => false

@[simp] theorem Outcome.isNone_errOr (text : String) (o : Outcome (Option Err)) :
    (o.errOr text).isNone = o.succeeded := by
  cases o with
  | returned err => cases err <;> rfl
  | panicked r => rfl

variable {o : Outcome (Option Err)}

theorem Outcome.eq_returned_none (h : o.succeeded = true) : o = .returned none := by
  cases o with
  | returned err =>
      cases err with
      | none => rfl
      | some err => cases h
  | panicked r => cases h

theorem Outcome.errOr_eq_none {text : String} (h : o.errOr text = none) : o = .returned none := by
  cases o with
  | returned err => exact congrArg Outcome.returned h
  | panicked r => cases h

theorem Outcome.succeeded_of_errOr {text : String} {err : Err} (h : o.errOr text = some err) :
    o.succeeded = false := by
  rw [← Outcome.isNone_errOr text, h]
  rfl

section Rules

variable {β : Type} {S : α → List (Event P T) → Prop}

theorem effects_pure (a : α) : Effects S (pure a) ↔ S a [] := Iff.rfl

theorem effects_bind {R : β → List (Event P T) → Prop} (p : Routine P T α)
    (f : α → Routine P T β) :
    Effects R (p >>= f) ↔ Effects (fun a es => Effects (fun b fs => R b (es ++ fs)) (f a)) p :=
  emits_bind

theorem effects_perform_bind (q : Call P T) (hq : q.isLog = false)
    (f : q.Answer → Routine P T α) :
    Effects S (perform q >>= f) ↔ ∀ r, Effects (fun a es => S a (⟨q, r⟩ :: es)) (f r) := by
  simp only [perform, call_bind, emits_ask, hq, Bool.not_false, if_true]

theorem effects_perform (q : Call P T) (hq : q.isLog = false) {S : q.Answer → _ → Prop} :
    Effects S (perform q) ↔ ∀ r, S r [⟨q, r⟩] := by
  simp only [perform, call, emits_ask, emits_ret, hq, Bool.not_false, if_true]

variable (text : String) (attrs : List (String × LogValue))

theorem effects_logWarn_bind (f : Unit → Routine P T α) :
    Effects S (logWarn text attrs >>= f) ↔ Effects S (f ()) :=
  ⟨fun h => h (), fun h _ => h⟩

theorem effects_logError_bind (f : Unit → Routine P T α) :
    Effects S (logError text attrs >>= f) ↔ Effects S (f ()) :=
  ⟨fun h => h (), fun h _ => h⟩

theorem effects_logWarn {S : Unit → List (Event P T) → Prop} :
    Effects S (logWarn text attrs) ↔ S () [] :=
  ⟨fun h => h (), fun h _ => h⟩

theorem effects_logError {S : Unit → List (Event P T) → Prop} :
    Effects S (logError text attrs) ↔ S () [] :=
  ⟨fun h => h (), fun h _ => h⟩

end Rules

def releaseEvents (d : Delivery P) : List (Event P T) :=
  if d.managed then [⟨.releaseOnce d.tag, ()⟩] else []

def ackEvents (d : Delivery P) (o : Outcome (Option Err)) : List (Event P T) :=
  releaseEvents d ++ [⟨.ack d.tag, o⟩]

def nackEvents (d : Delivery P) (requeue : Bool) (delay : ℤ) (o : Outcome (Option Err)) :
    List (Event P T) :=
  releaseEvents d ++ [⟨.nack d.tag requeue delay, o⟩]

variable (c : Consumer P T) (sink : Option OutboundAdapter) (d : Delivery P) (hook : Hook)
  (m : Message P)

theorem effects_release_bind {S : α → List (Event P T) → Prop} (p : Routine P T α) :
    Effects S (do if d.managed then perform (.releaseOnce d.tag)
                  p) ↔
      Effects (fun a es => S a (releaseEvents d ++ es)) p := by
  by_cases hm : d.managed = true
  · simp only [hm, if_true, releaseEvents, List.singleton_append]
    rw [effects_perform_bind (.releaseOnce d.tag) rfl]
    exact ⟨fun h => h (), fun h _ => h⟩
  · simp only [hm, releaseEvents]
    exact Iff.rfl

theorem effects_safeAck {S : Option Err → List (Event P T) → Prop} :
    Effects S (safeAck d) ↔
      ∀ o, S (o.errOr "msgin: Delivery.Ack panicked: ") (ackEvents d o) := by
  unfold safeAck Delivery.ack
  rw [effects_bind, effects_release_bind, effects_perform (.ack d.tag) rfl]
  refine forall_congr' fun o => ?_
  cases o with
  | returned err => rw [effects_pure, List.append_nil]; rfl
  | panicked r => rw [effects_logError_bind, effects_pure, List.append_nil]; rfl

theorem effects_safeNack {S : Option Err → List (Event P T) → Prop} (requeue : Bool) (delay : ℤ) :
    Effects S (safeNack d requeue delay) ↔
      ∀ o, S (o.errOr "msgin: Delivery.Nack panicked: ") (nackEvents d requeue delay o) := by
  unfold safeNack Delivery.nack
  rw [effects_bind, effects_release_bind, effects_perform (.nack d.tag requeue delay) rfl]
  refine forall_congr' fun o => ?_
  cases o with
  | returned err => rw [effects_pure, List.append_nil]; rfl
  | panicked r => rw [effects_logError_bind, effects_pure, List.append_nil]; rfl

theorem effects_finish {S : Unit → List (Event P T) → Prop} (err : Option Err) :
    Effects S (finish err) ↔ S () [] := by
  cases err with
  | none => exact Iff.rfl
  | some err => exact effects_logError _ _

theorem effects_finish_bind {S : α → List (Event P T) → Prop} (err : Option Err)
    (f : Unit → Routine P T α) : Effects S (finish err >>= f) ↔ Effects S (f ()) := by
  rw [effects_bind, effects_finish]
  exact Iff.rfl

theorem effects_safeSend {S : Option Err → List (Event P T) → Prop} (s : OutboundAdapter)
    (m : Message P) :
    Effects S (safeSend (some s) m) ↔
      ∀ o, S (o.errOr "msgin: OutboundAdapter.Send panicked: ") [⟨.send s m, o⟩] := by
  unfold safeSend
  rw [effects_bind, effects_perform (.send s m) rfl]
  refine forall_congr' fun o => ?_
  cases o with
  | returned err => exact Iff.rfl
  | panicked r => exact effects_logError_bind _ _ _

theorem effects_safeSend_none {S : Option Err → List (Event P T) → Prop} :
    Effects S (safeSend none m) ↔
      S (some (.new ("msgin: OutboundAdapter.Send panicked: " ++ nilDereference))) [] :=
  effects_logError_bind _ _ _

inductive Fired (c : Consumer P T) (hook : Hook) (m : Message P) (cause : Option Err) :
    List (Event P T) → Prop
  | unset (h : c.hooks hook = false) : Fired c hook m cause []
  | called (h : c.hooks hook = true) (o : Outcome Unit) :
      Fired c hook m cause [⟨.fire hook m cause, o⟩]

theorem effects_safeFire (cause : Option Err) :
    Effects (fun _ es => Fired c hook m cause es) (safeFire c hook m cause) := by
  unfold safeFire
  by_cases hh : c.hooks hook = true
  · rw [if_pos hh, effects_perform_bind (.fire hook m cause) rfl]
    intro o
    cases o with
    | returned u => exact .called hh _
    | panicked r => exact (effects_logWarn _ _).mpr (.called hh _)
  · rw [if_neg hh]
    exact .unset (Bool.eq_false_iff.mpr hh)

/-- A decode calls the codec at most once, and its errors are permanent. -/
inductive Decoded (c : Consumer P T) : T ⊕ Err → List (Event P T) → Prop
  | asserted (v : T) : Decoded c (.inl v) []
  | rejected (e : Err) (h : isPermanent (some e) = true) : Decoded c (.inr e) []
  | decoded (b : List UInt8) (v : T) : Decoded c (.inl v) [⟨.decode b, .returned (.inl v)⟩]
  | failed (b : List UInt8) (o : Outcome (T ⊕ Err)) (e : Err)
      (h : isPermanent (some e) = true) : Decoded c (.inr e) [⟨.decode b, o⟩]

theorem Decoded.isPermanent {c : Consumer P T} {e : Err} {es : List (Event P T)}
    (h : Decoded c (.inr e) es) : isPermanent (some e) = true := by
  cases h with
  | rejected _ h => exact h
  | failed b o _ h => exact h

theorem effects_safeDecode (id : String) (b : List UInt8) :
    Effects (Decoded c) (safeDecode id b) := by
  unfold safeDecode
  rw [effects_perform_bind (.decode b) rfl]
  intro o
  match o with
  | .returned (.inl v) => exact .decoded b v
  | .returned (.inr err) => exact .failed b _ _ (isPermanent_of_decode rfl)
  | .panicked r =>
      rw [effects_logError_bind]
      exact .failed b _ _ (isPermanent_of_decode rfl)

theorem effects_decode : Effects (Decoded c) (decode c m) := by
  unfold decode
  split
  · split
    · exact .asserted _
    · exact .rejected _ (isPermanent_of_type rfl)
  · split
    · exact .rejected _ (isPermanent_of_type rfl)
    · split
      · exact .rejected _ (isPermanent_of_tooLarge rfl)
      · exact effects_safeDecode c m.id _

def handlerErr : Outcome (Option Err) → Option Err
  | .returned err => err
  | .panicked r => some (.wrapped "" (": " ++ r) (.sentinel .errHandlerPanic))

theorem effects_safeHandle {S : Option Err → List (Event P T) → Prop} (m : Message T) :
    Effects S (safeHandle m) ↔ ∀ o, S (handlerErr o) [⟨.handle m, o⟩] := by
  unfold safeHandle
  rw [effects_perform_bind (.handle m) rfl]
  refine forall_congr' fun o => ?_
  cases o with
  | returned err => exact Iff.rfl
  | panicked r => exact Iff.rfl

inductive Counted (d : Delivery P) : ℤ → List (Event P T) → Prop
  | header (n : ℤ) (h : d.msg.headers.int headerDeliveryCount = some n) : Counted d n []
  | tracker (n : ℤ) (h : d.msg.headers.int headerDeliveryCount = none) :
      Counted d n [⟨.observe d.msg.id, n⟩]

theorem effects_attempts : Effects (Counted d) (attempts d : Routine P T ℤ) := by
  unfold attempts
  split
  · rename_i n h
    exact .header n h
  · rename_i h
    rw [effects_perform (.observe d.msg.id) rfl]
    intro n
    exact .tracker n h

inductive SettledTerminal (c : Consumer P T) (d : Delivery P) (hook : Hook) (hookErr : Err) :
    Bool → List (Event P T) → Prop
  | mk (hs : List (Event P T)) (o : Outcome (Option Err))
      (fired : Fired c hook d.msg (some hookErr) hs) :
      SettledTerminal c d hook hookErr o.succeeded (hs ++ ackEvents d o)

theorem effects_settleTerminal (hookErr : Err) :
    Effects (SettledTerminal c d hook hookErr) (settleTerminal c d hook hookErr) := by
  unfold settleTerminal
  refine Emits.bind (effects_safeFire c hook d.msg (some hookErr)) fun _ hs fired => ?_
  rw [← Effects, effects_bind, effects_safeAck]
  intro o
  rw [effects_finish_bind, effects_pure, List.append_nil, Outcome.isNone_errOr]
  exact .mk hs o fired

inductive DivertedTerminal (c : Consumer P T) (sink : Option OutboundAdapter) (d : Delivery P)
    (hook : Hook) (cause : Err) : Bool → List (Event P T) → Prop
  | discarded (r : Bool) (es : List (Event P T)) (unset : sink = none)
      (settled : SettledTerminal c d hook cause r es) : DivertedTerminal c sink d hook cause r es
  | accepted (s : OutboundAdapter) (r : Bool) (es : List (Event P T)) (set : sink = some s)
      (settled : SettledTerminal c d hook cause r es) :
      DivertedTerminal c sink d hook cause r (⟨.send s d.msg, .returned none⟩ :: es)
  | refused (s : OutboundAdapter) (o : Outcome (Option Err)) (err : Err) (r : Bool)
      (es : List (Event P T)) (set : sink = some s) (failed : o.succeeded = false)
      (settled : SettledTerminal c d hook (.join cause err) r es) :
      DivertedTerminal c sink d hook cause r (⟨.send s d.msg, o⟩ :: ⟨.settleDone, false⟩ :: es)
  | aborted (s : OutboundAdapter) (o o' : Outcome (Option Err)) (set : sink = some s)
      (failed : o.succeeded = false) :
      DivertedTerminal c sink d hook cause false
        (⟨.send s d.msg, o⟩ :: ⟨.settleDone, true⟩ :: nackEvents d true 0 o')

theorem effects_divertTerminal (cause : Err) :
    Effects (DivertedTerminal c sink d hook cause) (divertTerminal c sink d hook cause) := by
  unfold divertTerminal
  cases sink with
  | none =>
      simp only [warnDiscard]
      have hsettle : Effects (DivertedTerminal c none d hook cause)
          (settleTerminal c d hook cause) :=
        (effects_settleTerminal c d hook cause).mono fun r es hs => .discarded r es rfl hs
      split
      · rwa [effects_logWarn_bind]
      · rwa [effects_logWarn_bind]
  | some s =>
      rw [effects_bind, effects_safeSend]
      intro o
      cases herr : o.errOr "msgin: OutboundAdapter.Send panicked: " with
      | none =>
          obtain rfl := Outcome.errOr_eq_none herr
          exact (effects_settleTerminal c d hook cause).mono fun r es hs =>
            .accepted s r es rfl hs
      | some err =>
          have hfail := Outcome.succeeded_of_errOr herr
          rw [effects_perform_bind .settleDone rfl]
          intro done
          unfold settleRefused
          cases done with
          | true =>
              rw [if_pos rfl, effects_logWarn_bind, effects_bind, effects_safeNack]
              intro o'
              rw [effects_finish_bind, effects_pure]
              simpa using DivertedTerminal.aborted s o o' rfl hfail
          | false =>
              rw [if_neg Bool.false_ne_true, effects_logWarn_bind]
              exact (effects_settleTerminal c d hook (.join cause err)).mono fun r es hs =>
                .refused s o err r es rfl hfail hs

inductive Redelivered (c : Consumer P T) (d : Delivery P) (cause : Err) (n : ℤ) :
    List (Event P T) → Prop
  | mk (hs : List (Event P T)) (o : Outcome (Option Err))
      (fired : Fired c .onRetry d.msg (some cause) hs) :
      Redelivered c d cause n (hs ++ nackEvents d true (retryDelay c.policy n) o)

theorem effects_redeliver (cause : Err) (n : ℤ) :
    Effects (fun _ es => Redelivered c d cause n es) (redeliver c d cause n) := by
  unfold redeliver
  refine Emits.bind (effects_safeFire c .onRetry d.msg (some cause)) fun _ hs fired => ?_
  rw [← Effects, effects_bind, effects_safeNack]
  intro o
  rw [effects_finish, List.append_nil]
  exact .mk hs o fired

/-- The send of a divert to a sink that is not known to be set. -/
inductive SendFailed (sink : Option OutboundAdapter) (m : Message P) : List (Event P T) → Prop
  | unset (h : sink = none) : SendFailed sink m []
  | failed (s : OutboundAdapter) (o : Outcome (Option Err)) (set : sink = some s)
      (h : o.succeeded = false) : SendFailed sink m [⟨.send s m, o⟩]

inductive Diverted (c : Consumer P T) (sink : Option OutboundAdapter) (d : Delivery P)
    (hook : Hook) (cause : Err) (n : ℤ) : Bool → List (Event P T) → Prop
  | accepted (s : OutboundAdapter) (r : Bool) (es : List (Event P T)) (set : sink = some s)
      (settled : SettledTerminal c d hook cause r es) :
      Diverted c sink d hook cause n r (⟨.send s d.msg, .returned none⟩ :: es)
  | retried (ss es : List (Event P T)) (failed : SendFailed sink d.msg ss)
      (settled : Redelivered c d cause n es) : Diverted c sink d hook cause n false (ss ++ es)

theorem effects_divert_failed (cause : Err) (n : ℤ) {ss : List (Event P T)}
    (hss : SendFailed sink d.msg ss) :
    Effects (fun r es => Diverted c sink d hook cause n r (ss ++ es))
      (do redeliver c d cause n
          return false) := by
  refine Emits.bind (effects_redeliver c d cause n) fun _ es hes => ?_
  rw [← Effects, effects_pure, List.append_nil]
  exact .retried ss es hss hes

theorem effects_divert (cause : Err) (n : ℤ) :
    Effects (Diverted c sink d hook cause n) (divert c sink d hook cause n) := by
  unfold divert
  cases sink with
  | none =>
      rw [effects_bind, effects_safeSend_none]
      exact effects_divert_failed c none d hook cause n (.unset rfl)
  | some s =>
      rw [effects_bind, effects_safeSend]
      intro o
      cases herr : o.errOr "msgin: OutboundAdapter.Send panicked: " with
      | none =>
          obtain rfl := Outcome.errOr_eq_none herr
          exact (effects_settleTerminal c d hook cause).mono fun r es hs =>
            .accepted s r es rfl hs
      | some err =>
          exact effects_divert_failed c (some s) d hook cause n
            (.failed s o rfl (Outcome.succeeded_of_errOr herr))

end Msgin
