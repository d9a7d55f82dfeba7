import Msgin.AttemptTracker
import Msgin.TransitionRuns

/-!
# Retrying over the in-memory broker

`memory.Broker` keeps no delivery count: its `Ack` does nothing and its `Nack` sends the
same message again. A state says which messages are in the broker and what the tracker of
the consumer holds; a step dispatches one delivery of a message whose handler fails with an
error that is not permanent. The rest of the environment answers as it likes.
-/

namespace Msgin

open Interaction Prog TransitionRuns

variable {P T : Type}

structure BrokerConsumer (P T : Type) extends Consumer P T where
  sink : OutboundAdapter
  emitsLiveValue : liveValue = true
  attempts_pos : 1 ≤ policy.maxAttempts
  deadLetter_eq : policy.deadLetter = some sink
  noNativeReliability : nativeDeadLetter = false

structure BrokerState where
  tracker : AttemptTracker
  -- Whether a message is in the broker, by its position in the set.
  queued : ℕ → Bool
  delivered : ℕ
  dispatched : ℕ → ℕ
  -- The dispatch at which a message was first sent to the dead-letter sink.
  firstSent : ℕ → Option ℕ

structure BrokerDispatch (P T : Type) where
  message : ℕ
  now : ℤ
  answer : (q : Call P T) → q.Answer

def BrokerState.initial : BrokerState where
  tracker := .new
  queued := fun _ => true
  delivered := 0
  dispatched := fun _ => 0
  firstSent := fun _ => none

/-- The tracker answers from its map and `Ack` returns nil. -/
def brokerAnswer (t : AttemptTracker) (now : ℤ) (answer : (q : Call P T) → q.Answer) :
    Environment P T := fun history q =>
  match q with
  | .observe id => (((t.after now history).observe now id).1 : ℕ)
  | .ack _ => .returned none
  | q => answer q

def failsTransiently (c : Consumer P T) (m : Message P) (answer : (q : Call P T) → q.Answer) :
    Bool :=
  match c.assertValue m.payload with
  | none => false
  | some v =>
    match handlerErr (answer (.handle ⟨v, m.headers⟩)) with
    | none => false
    | some err => !isPermanent (some err)

/-- A `Nack` of the broker that put the message back. -/
def isRequeue : Event P T → Bool
  | ⟨.nack _ true _, .returned none⟩ => true
  | _ => false

def brokerStep (c : BrokerConsumer P T) (msgs : List (Message P)) (s : BrokerState)
    (l : BrokerDispatch P T) : Option BrokerState :=
  match msgs[l.message]? with
  | none => none
  | some m =>
    if s.queued l.message ∧ failsTransiently c.toConsumer m l.answer then
      let es := (dispatch c.toConsumer ⟨s.delivered, m, true⟩).trace
        (brokerAnswer s.tracker l.now l.answer)
      let n := s.dispatched l.message + 1
      some {
        tracker := s.tracker.after l.now es
        queued := Function.update s.queued l.message (es.any isRequeue)
        delivered := s.delivered + 1
        dispatched := Function.update s.dispatched l.message n
        firstSent := Function.update s.firstSent l.message
          ((s.firstSent l.message).or (if es.any (isSendTo c.sink) then some n else none)) }
    else none

theorem isRequeue_of_isLog (e : Event P T) (h : e.1.isLog = true) : isRequeue e = false := by
  obtain ⟨q, r⟩ := e
  cases q <;> simp_all [Call.isLog, isRequeue]

theorem exec_safeHandle (env : Environment P T) (t : List (Event P T)) (m : Message T) :
    (safeHandle m).exec env t =
      (handlerErr (env t (.handle m)), t ++ [⟨.handle m, env t (.handle m)⟩]) := by
  simp only [safeHandle, perform, call_bind, exec]
  cases env t (.handle m) with
  | returned err => rfl
  | panicked r => rfl

theorem trace_dispatch (c : Consumer P T) (d : Delivery P) (env : Environment P T) {v : T}
    {o : Outcome (Option Err)} {err : Err} (hlive : c.liveValue = true)
    (hv : c.assertValue d.msg.payload = some v)
    (ho : env [] (.handle ⟨v, d.msg.headers⟩) = o) (hfail : handlerErr o = some err)
    (hperm : isPermanent (some err) = false) :
    ∃ es, (dispatch c d).trace env = ⟨.handle ⟨v, d.msg.headers⟩, o⟩ :: es ∧
      SettledTransient c d err (es.filter fun e => !e.1.isLog) := by
  have htail : Effects (fun _ es => SettledTransient c d err es)
      (do settleTransient c d err
          return some err : Routine P T (Option Err)) := by
    apply Emits.bind (effects_settleTransient c d err)
    intro _ es hes
    simpa using hes
  obtain ⟨es, ht, hS⟩ := htail.exec env [⟨.handle ⟨v, d.msg.headers⟩, o⟩]
  refine ⟨es, ?_, hS⟩
  have hdecode : decode c d.msg = (pure (.inl v) : Routine P T (T ⊕ Err)) := by
    simp [decode, hlive, hv]
  have hexec : (dispatch c d).exec env [] =
      (do settleTransient c d err
          return some err : Routine P T (Option Err)).exec env
        [⟨.handle ⟨v, d.msg.headers⟩, o⟩] := by
    simp only [dispatch, hdecode, pure_eq_ret, ret_bind]
    rw [exec_bind, exec_safeHandle, ho, hfail, List.nil_append]
    simp only [hperm, Bool.false_eq_true, if_false]
  rw [trace, hexec, ht]
  rfl

def attemptNumber (t : AttemptTracker) (m : Message P) : ℤ :=
  match m.headers.int headerDeliveryCount with
  | some h => h
  | none => (t.count m.id + 1 : ℕ)

section Outcome

variable {c : BrokerConsumer P T} {d : Delivery P} {t : AttemptTracker} {now : ℤ}
  {answer : (q : Call P T) → q.Answer} {m : Message T} {o : Outcome (Option Err)} {err : Err}
  {es : List (Event P T)} {n : ℤ} {sink : Option OutboundAdapter} {p : Routine P T (Option Err)}
  {cause : Err} {r : Bool}

theorem attempt_of_counted {ns fs : List (Event P T)}
    (htrace : p.trace (brokerAnswer t now answer) = ⟨.handle m, o⟩ :: es)
    (hshape : (es.filter fun e => !e.1.isLog) = ns ++ fs) (hc : Counted d n ns) :
    n = attemptNumber t d.msg := by
  cases hc with
  | header hint => simp [attemptNumber, hint]
  | tracker hint =>
      rw [List.singleton_append, List.filter_eq_cons_iff] at hshape
      obtain ⟨pre, post, rfl, hpre, -⟩ := hshape
      have hsplit : p.trace (brokerAnswer t now answer) =
          (⟨.handle m, o⟩ :: pre) ++ ⟨.observe d.msg.id, n⟩ :: post := htrace
      have hanswer := trace_answer hsplit
      have hsame : t.after now (⟨.handle m, o⟩ :: pre : List (Event P T)) = t := by
        apply AttemptTracker.after_eq_self
        intro e he t
        rcases List.mem_cons.mp he with rfl | he
        · rfl
        · exact AttemptTracker.apply_of_isLog (by simpa using hpre e he)
      simp only [brokerAnswer, hsame] at hanswer
      simp only [attemptNumber, hint]
      exact hanswer

structure DispatchOutcome (c : BrokerConsumer P T) (m : Message P) (t : AttemptTracker) (now : ℤ)
    (es : List (Event P T)) : Prop where
  sent : es.any (isSendTo c.sink) = true ↔ c.policy.maxAttempts ≤ attemptNumber t m
  counted : m.headers.int headerDeliveryCount = none → es.any isRequeue = true →
    (t.after now es).count m.id = t.count m.id + 1
  others : ∀ id, id ≠ m.id → (t.after now es).count id = t.count id

theorem Counted.count_after {ns : List (Event P T)} (hc : Counted d n ns)
    (hint : d.msg.headers.int headerDeliveryCount = none) :
    (t.after now ns).count d.msg.id = t.count d.msg.id + 1 := by
  cases hc with
  | header hsome => simp [hsome] at hint
  | tracker hnone => exact AttemptTracker.count_observe_self t now d.msg.id

theorem Redelivered.untracked {c : Consumer P T} (h : Redelivered c d cause n es) :
    t.after now es = t := by
  apply AttemptTracker.after_eq_self
  intro e he t
  rcases h.call he with hq | hq | hq <;> simp [AttemptTracker.apply, hq]

theorem SendFailed.untracked {m : Message P} (h : SendFailed sink m es) : t.after now es = t := by
  apply AttemptTracker.after_eq_self
  intro e he t
  obtain ⟨s, -, hq⟩ := h.call he
  simp [AttemptTracker.apply, hq]

theorem Counted.not_requeue (h : Counted d n es) : es.any isRequeue = false := by
  rw [List.any_eq_false]
  rintro ⟨q, r⟩ he
  obtain rfl : q = .observe d.msg.id := h.call he
  simp [isRequeue]

theorem SettledTerminal.not_requeue {hook : Hook} {c : Consumer P T}
    (h : SettledTerminal c d hook cause r es) : es.any isRequeue = false := by
  rw [List.any_eq_false]
  rintro ⟨q, a⟩ he
  rcases h.call he with hq | hq | hq <;>
    · dsimp only at hq
      subst hq
      simp [isRequeue]

theorem evictEvents_not_requeue (settled : Bool) (id : String) :
    (evictEvents settled id : List (Event P T)).any isRequeue = false := by
  cases settled <;> rfl

theorem Diverted.sendTo (h : Diverted c.toConsumer c.policy.deadLetter d .onDeadLetter err n r es) :
    es.any (isSendTo c.sink) = true := by
  rw [c.deadLetter_eq] at h
  cases h with
  | accepted s _ es set settled =>
      obtain rfl := Option.some.inj set
      simp [isSendTo]
  | retried ss es failed settled =>
      cases failed with
      | unset h => cases h
      | failed s o set h =>
          obtain rfl := Option.some.inj set
          simp [isSendTo]

theorem Diverted.call {c : Consumer P T} {hook : Hook} (h : Diverted c sink d hook cause n r es)
    {e : Event P T} (he : e ∈ es) (i : String) : e.1 ≠ .observe i ∧ e.1 ≠ .evict i := by
  cases h with
  | accepted s _ es set settled =>
      rcases List.mem_cons.mp he with rfl | he
      · simp
      · rcases settled.call he with hq | hq | hq <;> simp [hq]
  | retried ss es failed settled =>
      rcases List.mem_append.mp he with he | he
      · obtain ⟨s, -, hq⟩ := failed.call he
        simp [hq]
      · rcases settled.call he with hq | hq | hq <;> simp [hq]

theorem SettledTransient.tracked {c : Consumer P T} (h : SettledTransient c d err es) :
    ∀ e ∈ es, ∀ i, e.1 = .observe i ∨ e.1 = .evict i → i = d.msg.id := by
  intro e he i hi
  cases h with
  | exhausted ns es n r counted hn diverted =>
      rcases List.mem_append.mp he with he | he
      · have hq := counted.call he
        rcases hi with hi | hi <;> simp_all
      rcases List.mem_append.mp he with he | he
      · have hq := diverted.call he i
        exact (hi.elim hq.1 hq.2).elim
      · have hq := evictEvents_call he
        rcases hi with hi | hi <;> simp_all
  | retried ns es n counted hn redelivered =>
      rcases List.mem_append.mp he with he | he
      · have hq := counted.call he
        rcases hi with hi | hi <;> simp_all
      · rcases redelivered.call he with hq | hq | hq <;> rcases hi with hi | hi <;> simp_all

theorem exhausted_iff (c : BrokerConsumer P T) (n : ℤ) :
    exhausted c.toConsumer n = true ↔ c.policy.maxAttempts ≤ n := by
  have hpos := c.attempts_pos
  have hnative := c.noNativeReliability
  simp only [exhausted, hnative, Bool.not_false, Bool.and_true, Bool.and_eq_true,
    decide_eq_true_eq]
  omega

theorem SettledTransient.outcome
    (htrace : p.trace (brokerAnswer t now answer) = ⟨.handle m, o⟩ :: es)
    (h : SettledTransient c.toConsumer d err (es.filter fun e => !e.1.isLog)) :
    DispatchOutcome c d.msg t now (⟨.handle m, o⟩ :: es) := by
  have hsend : (⟨.handle m, o⟩ :: es : List (Event P T)).any (isSendTo c.sink) =
      (es.filter fun e => !e.1.isLog).any (isSendTo c.sink) := by
    rw [any_effects (isSendTo_of_isLog c.sink)]
    rfl
  have hreq : (⟨.handle m, o⟩ :: es : List (Event P T)).any isRequeue =
      (es.filter fun e => !e.1.isLog).any isRequeue := by
    rw [any_effects isRequeue_of_isLog]
    rfl
  have hafter : t.after now (⟨.handle m, o⟩ :: es : List (Event P T)) =
      t.after now (es.filter fun e => !e.1.isLog) := by
    rw [AttemptTracker.after_effects]
    rfl
  have htracked := h.tracked
  generalize hfs : (es.filter fun e => !e.1.isLog) = fs at h hsend hreq hafter htracked
  constructor
  · rw [hsend]
    cases h with
    | exhausted ns es' n r counted hn diverted =>
        rw [attempt_of_counted htrace hfs counted, exhausted_iff] at hn
        simp [diverted.sendTo, hn]
    | retried ns es' n counted hn redelivered =>
        rw [attempt_of_counted htrace hfs counted, ← Bool.not_eq_true, exhausted_iff] at hn
        simp [counted.not_sendTo, redelivered.not_sendTo, hn]
  · intro hint hrequeue
    rw [hafter]
    rw [hreq] at hrequeue
    cases h with
    | exhausted ns es' n r counted hn diverted =>
        cases diverted with
        | accepted s _ es'' set settled =>
            simp [counted.not_requeue, settled.not_requeue, evictEvents_not_requeue,
              isRequeue] at hrequeue
        | retried ss es'' failed settled =>
            rw [AttemptTracker.after_append, AttemptTracker.after_append,
              AttemptTracker.after_append, failed.untracked, settled.untracked]
            exact counted.count_after hint
    | retried ns es' n counted hn redelivered =>
        rw [AttemptTracker.after_append, redelivered.untracked]
        exact counted.count_after hint
  · intro id hid
    rw [hafter]
    exact AttemptTracker.count_after_of_ne htracked hid

end Outcome

end Msgin
