import Msgin.FaultIsolation
import Msgin.SettlementLaw

/-!
# The settlement law of a dispatch that may unwind

`errors.Is` and `errors.As` run the methods of the error that the handler returned, outside every
guard. Where they return, the calls of a dispatch are those of the settlement path and obey its
law; where one panics, the dispatch unwinds before it has called Ack or Nack.
-/

namespace Msgin

open Interaction Prog

variable {P T α : Type}

/-- A guarded call, log lines aside. -/
def guardedEvent : BareEvent P T → Option (Event P T)
  | ⟨.guarded q, r⟩ => if q.isLog then none else some ⟨q, r⟩
  | ⟨.bare _, _⟩ => none

def guardedEvents (es : List (BareEvent P T)) : List (Event P T) := es.filterMap guardedEvent

/-- The policy's `Backoff` and the source's `NativeDeadLetter` return the values of `c`. -/
def steady (c : Consumer P T) (env : BareEnvironment P T) : BareEnvironment P T := fun t q =>
  match q with
  | .bare (.delay retry) => .returned (c.value (.delay retry))
  | .bare .nativeDeadLetter => .returned (c.value .nativeDeadLetter)
  | .bare (.inspect err) => env t (.bare (.inspect err))
  | .guarded q => env t (.guarded q)

def Returned (c : Consumer P T) : BareEvent P T → Prop
  | ⟨.guarded _, _⟩ => True
  | ⟨.bare b, o⟩ => o = .returned (c.value b)

variable {S : α → List (Event P T) → Prop} {p : BareRoutine P T α}

theorem emits_of_returning {c : Consumer P T} (h : Effects S (p.interpret (returning c))) :
    Emits (fun _ => true) (fun a es => (∀ e ∈ es, Returned c e) → S a (guardedEvents es)) p := by
  induction p generalizing S with
  | ret a => exact fun _ => h
  | ask q k ih =>
      intro r
      cases q with
      | guarded q =>
          refine (ih r (h r)).mono fun a es hes hreturned => ?_
          have hS := hes fun e he => hreturned e (List.mem_cons_of_mem _ he)
          cases hlog : q.isLog <;> simpa [guardedEvents, guardedEvent, hlog] using hS
      | bare b =>
          by_cases hr : r = .returned (c.value b)
          · subst hr
            refine (ih _ h).mono fun a es hes hreturned => ?_
            exact hes fun e he => hreturned e (List.mem_cons_of_mem _ he)
          · exact emits_of_forall (fun a es hreturned =>
              absurd (hreturned _ List.mem_cons_self) hr) _

theorem emits_guarded {p : Routine P T α} (h : Effects S p) :
    Emits (fun _ => true) (fun a es => S a (guardedEvents es)) (guarded p) := by
  induction p generalizing S with
  | ret a => exact h
  | ask q k ih =>
      intro r
      refine (ih r (h r)).mono fun a es hes => ?_
      cases hlog : q.isLog <;> simpa [guardedEvents, guardedEvent, hlog] using hes

section Dispatch

variable (c : Consumer P T) (d : Delivery P) (env : BareEnvironment P T)

theorem returned_of_steady
    (hinspect : ∀ err r, ⟨.bare (.inspect err), .panicked r⟩ ∉ p.trace (steady c env)) :
    ∀ e ∈ p.trace (steady c env), Returned c e := by
  intro e he
  obtain ⟨pre, post, hsplit⟩ := List.append_of_mem he
  have hanswer := trace_answer hsplit
  obtain ⟨q, r⟩ := e
  cases q with
  | guarded q => trivial
  | bare b =>
      cases b with
      | delay retry => exact hanswer
      | nativeDeadLetter => exact hanswer
      | inspect err =>
          cases r with
          | returned u => rfl
          | panicked r => exact absurd he (hinspect err r)

theorem effects_dispatch_returned :
    Effects (fun o es => ∃ r, o = .returned r ∧ Dispatched c d r es)
      ((Unwinding.dispatch c d).interpret (returning c)) := by
  rw [matches_dispatch]
  refine Emits.bind (dispatch_effects c d) fun r es hes => ?_
  exact ⟨r, rfl, by simpa using hes⟩

theorem counts_of_unsettled {es : List (BareEvent P T)} (h : es.any isSettle = false) (x : ℕ) :
    acks x (guardedEvents es) + nacks x (guardedEvents es) = 0 := by
  have hnone : ∀ p : Event P T → Bool, (∀ e, p e = true → e.1.settles.isSome = true) →
      (guardedEvents es).countP p = 0 := by
    intro p hp
    refine List.countP_eq_zero.mpr fun e he hpe => ?_
    obtain ⟨⟨q, r⟩, hmem, heq⟩ := List.mem_filterMap.mp he
    have hq := List.any_eq_false.mp h _ hmem
    cases q with
    | bare b => cases heq
    | guarded q =>
        simp only [guardedEvent] at heq
        split at heq
        · cases heq
        · cases heq
          exact hq (hp _ hpe)
  have hacks : acks x (guardedEvents es) = 0 := by
    refine hnone _ fun ⟨q, r⟩ hack => ?_
    cases q <;> first | rfl | cases hack
  have hnacks : nacks x (guardedEvents es) = 0 := by
    refine hnone _ fun ⟨q, r⟩ hnack => ?_
    cases q <;> first | rfl | cases hnack
  omega

theorem dispatch_of_decode_failed {derr : Err} {r : Option Err}
    (hderr : ((guarded (decode c d.msg)).exec env []).1 = .inr derr)
    (hr : ((Unwinding.dispatch c d).exec env []).1 = .returned r) :
    r = some derr ∧ isPermanent (some derr) = true := by
  constructor
  · rw [Unwinding.dispatch, exec_bind, hderr, exec_bind] at hr
    cases ho : ((Unwinding.settleInvalid c d derr).exec env
        ((guarded (decode c d.msg)).exec env []).2).1 with
    | returned u =>
        rw [ho] at hr
        exact (Outcome.returned.inj hr).symm
    | panicked text =>
        rw [ho] at hr
        cases hr
  · have hdecoded := (emits_guarded (effects_decode c d.msg)).trace env
    rw [hderr] at hdecoded
    exact hdecoded.isPermanent

/-- A dispatch unwinds exactly when a bare call panics, and then it has settled nothing. -/
theorem dispatch_unwinds :
    (((Unwinding.dispatch c d).exec env []).1.isPanicked =
      ((Unwinding.dispatch c d).trace env).any isBarePanic) ∧
    (((Unwinding.dispatch c d).exec env []).1.isPanicked = true →
      acks d.tag (guardedEvents ((Unwinding.dispatch c d).trace env)) +
        nacks d.tag (guardedEvents ((Unwinding.dispatch c d).trace env)) = 0) := by
  obtain ⟨es, m, htrace, hfold, hcarries, hsettled⟩ :=
    (Watch.tracks_dispatch (d := 0) d c false {} ⟨rfl, rfl⟩).exec env []
  have hes : (Unwinding.dispatch c d).trace env = es := htrace
  have hany := Watch.unwinding_of_foldlM hfold
  have hsettles := Watch.settled_of_foldlM hfold
  rw [hes]
  refine ⟨hcarries.1.symm.trans hany, fun h => counts_of_unsettled ?_ d.tag⟩
  rw [← Bool.false_or (es.any isSettle), ← hsettles]
  exact hsettled h

/-- The law holds exactly where no method of the handler's error panics; where one does, neither
Ack nor Nack has been called. -/
theorem dispatch_settlementLaw_iff :
    ((∃ r, ((Unwinding.dispatch c d).exec (steady c env) []).1 = .returned r ∧
        SettlementLaw c d r (guardedEvents ((Unwinding.dispatch c d).trace (steady c env))) ∧
        ∀ derr, ((guarded (decode c d.msg)).exec (steady c env) []).1 = .inr derr →
          r = some derr ∧ isPermanent (some derr) = true) ↔
      ∀ err r, ⟨.bare (.inspect err), .panicked r⟩ ∉
        (Unwinding.dispatch c d).trace (steady c env)) ∧
    ((∃ err r, ⟨.bare (.inspect err), .panicked r⟩ ∈
        (Unwinding.dispatch c d).trace (steady c env)) →
      acks d.tag (guardedEvents ((Unwinding.dispatch c d).trace (steady c env))) +
        nacks d.tag (guardedEvents ((Unwinding.dispatch c d).trace (steady c env))) = 0) := by
  obtain ⟨hunwinds, hunsettled⟩ := dispatch_unwinds c d (steady c env)
  have hpanics : ∀ err r, ⟨.bare (.inspect err), .panicked r⟩ ∈
      (Unwinding.dispatch c d).trace (steady c env) →
      ((Unwinding.dispatch c d).exec (steady c env) []).1.isPanicked = true := by
    intro err r hmem
    rw [hunwinds, List.any_eq_true]
    exact ⟨_, hmem, rfl⟩
  refine ⟨⟨?_, ?_⟩, ?_⟩
  · rintro ⟨r, hr, -⟩ err text hmem
    have hpanicked := hpanics err text hmem
    rw [hr] at hpanicked
    cases hpanicked
  · intro hcalm
    obtain ⟨r, hr, hdispatched⟩ := (emits_of_returning (effects_dispatch_returned c d)).trace
      (steady c env) (by simpa using returned_of_steady c env hcalm)
    refine ⟨r, hr, by simpa using hdispatched.settlementLaw, fun derr hderr => ?_⟩
    exact dispatch_of_decode_failed c d _ hderr hr
  · rintro ⟨err, r, hmem⟩
    exact hunsettled (hpanics err r hmem)

end Dispatch

/-- A handler that returns a nil pointer of an error type whose `Unwrap` reads it. -/
def typedNil : BareEnvironment Unit Unit := fun _ q =>
  match q with
  | .guarded q => failingHandler q
  | .bare (.delay _) => .returned 0
  | .bare .nativeDeadLetter => .returned false
  | .bare (.inspect _) => .panicked nilDereference

/-- The delivery is neither Acked nor Nacked. -/
theorem typedNil_not_settled :
    acks 0 (guardedEvents ((Unwinding.dispatch pairConsumer ⟨0, blankMessage, true⟩).trace
      (steady pairConsumer typedNil))) = 0 ∧
    nacks 0 (guardedEvents ((Unwinding.dispatch pairConsumer ⟨0, blankMessage, true⟩).trace
      (steady pairConsumer typedNil))) = 0 ∧
    ¬∃ r, SettlementLaw pairConsumer ⟨0, blankMessage, true⟩ r
      (guardedEvents ((Unwinding.dispatch pairConsumer ⟨0, blankMessage, true⟩).trace
        (steady pairConsumer typedNil))) := by
  refine ⟨rfl, rfl, ?_⟩
  rintro ⟨r, h⟩
  cases h.once

end Msgin
