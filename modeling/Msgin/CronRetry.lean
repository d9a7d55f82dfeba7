import Msgin.BrokerAttempts
import Msgin.KeyedMaps
import Msgin.ProcessEffects
import Msgin.SettlementLaw

/-!
# Retrying the fires of a cron source

`cron.Source` hands each fire to the runtime as a delivery whose `Ack` and `Nack` do nothing. The
runtime retries a delivery by its `Nack` alone, so that a fire comes to the handler once: what the
retry policy makes of a second attempt never happens, and the dead-letter sink sees a failed fire
only if the first attempt is the last one.
-/

namespace Msgin

open Interaction Prog TransitionRuns

variable {P T : Type}

/-- `msgin.New` without headers of the caller, where `NewID` and the clock return these. -/
def newMessage (payload : P) (id : String) (now : ℤ) : Message P where
  payload := payload
  headers := ((Headers.mk fun _ => none).withKey headerMessageID (.string id)).withKey
    headerTimestamp (.time now)

structure CronConsumer (P T : Type) extends BrokerConsumer P T where
  factory : ℤ → P
  typed : ∀ fire, (assertValue (factory fire)).isSome = true

structure CronState (P : Type) where
  tracker : AttemptTracker
  -- The messages of the fires that `Stream` has handed over, in order.
  fires : List (Message P)
  -- Whether the delivery of a fire is with the runtime.
  inFlight : ℕ → Bool

inductive CronLabel (P T : Type)
  | fire (fire now : ℤ) (id : String)
  | dispatch (i : ℕ) (now : ℤ) (answer : (q : Call P T) → q.Answer)
  -- The delivery is Nacked before it is dispatched: it is shed, denied or drained.
  | decline (i : ℕ)

def CronState.initial : CronState P := ⟨.new, [], fun _ => false⟩

/-- `noopAck` and `noopNack` return nil, and the dead-letter sink accepts every message. -/
def cronAnswer (c : CronConsumer P T) (answer : (q : Call P T) → q.Answer) :
    (q : Call P T) → q.Answer
  | .nack _ _ _ => .returned none
  | .send sink m => if sink = c.sink then .returned none else answer (.send sink m)
  | q => answer q

def fireCalls (c : CronConsumer P T) (i : ℕ) (m : Message P) (t : AttemptTracker) (now : ℤ)
    (answer : (q : Call P T) → q.Answer) : List (Event P T) :=
  (dispatch c.toConsumer ⟨i, m, true⟩).trace (brokerAnswer t now (cronAnswer c answer))

/-- However a delivery is settled, `noopAck` and `noopNack` leave nothing behind. -/
def cronStep (c : CronConsumer P T) (s : CronState P) : CronLabel P T → Option (CronState P)
  | .fire fire now id =>
      some
        { s with
          fires := s.fires ++ [newMessage (c.factory fire) id now]
          inFlight := Function.update s.inFlight s.fires.length true }
  | .dispatch i now answer =>
      match s.fires[i]? with
      | some m =>
        if s.inFlight i then
          some
            { s with
              tracker := s.tracker.after now (fireCalls c i m s.tracker now answer)
              inFlight := Function.update s.inFlight i false }
        else none
      | none => none
  | .decline i =>
      if s.inFlight i then some { s with inFlight := Function.update s.inFlight i false } else none

def cronCalls (c : CronConsumer P T) (s : CronState P) :
    CronLabel P T → Option (ℕ × List (Event P T))
  | .dispatch i now answer => (s.fires[i]?).map fun m => (i, fireCalls c i m s.tracker now answer)
  | _ => none

def callsFor (i : ℕ) (os : List (ℕ × List (Event P T))) : List (Event P T) :=
  os.flatMap fun o => if o.1 = i then o.2 else []

def isHandle : Event P T → Bool
  | ⟨.handle _, _⟩ => true
  | _ => false

def KeepsFailing (es : List (Event P T)) : Prop :=
  (∃ e ∈ es, isHandle e = true) ∧ ∀ e ∈ es, isHandle e = true → isTransientFailure e = true

instance (es : List (Event P T)) : Decidable (KeepsFailing es) :=
  inferInstanceAs (Decidable (_ ∧ _))

def DeadLettered (c : CronConsumer P T) (m : Message P) (es : List (Event P T)) : Prop :=
  ∃ pre post, es = pre ++ ⟨.send c.sink m, .returned none⟩ :: post ∧ ∀ e ∈ post, isHandle e = false

/-- A fire that is over and whose handler kept failing was handed to the handler `MaxAttempts` times
and then dead-lettered. -/
def FireRetryLaw (c : CronConsumer P T) : Prop :=
  ∀ ls s, run (cronStep c) .initial ls = some s →
    ∀ i m, s.fires[i]? = some m → s.inFlight i = false →
      KeepsFailing (callsFor i (observe (cronStep c) (cronCalls c) .initial ls)) →
        ((callsFor i (observe (cronStep c) (cronCalls c) .initial ls)).countP isHandle : ℤ) =
            c.policy.maxAttempts ∧
          DeadLettered c m (callsFor i (observe (cronStep c) (cronCalls c) .initial ls))

section Dispatch

variable {c : CronConsumer P T} {d : Delivery P} {m : Message P} {t : AttemptTracker} {now : ℤ}
  {answer : (q : Call P T) → q.Answer} {err : Err} {es : List (Event P T)}

theorem SettledTransient.handle_not_mem {c : Consumer P T} (h : SettledTransient c d err es)
    (m : Message T) (o : Outcome (Option Err)) : ⟨.handle m, o⟩ ∉ es := by
  intro hmem
  cases h with
  | exhausted ns es n r counted hn diverted =>
      rcases List.mem_append.mp hmem with hmem | hmem
      · exact counted.local.handle_not_mem m o hmem
      · rcases List.mem_append.mp hmem with hmem | hmem
        · exact diverted.handle_not_mem m o hmem
        · exact (evictEvents_local r d.msg.id).handle_not_mem m o hmem
  | retried ns es n counted hn redelivered =>
      exact (counted.local.append redelivered.local).handle_not_mem m o hmem

theorem Diverted.send_mem {c : Consumer P T} {sink : OutboundAdapter} {hook : Hook} {n : ℤ}
    {r : Bool} (h : Diverted c (some sink) d hook err n r es) :
    ∃ o, ⟨.send sink d.msg, o⟩ ∈ es := by
  cases h with
  | accepted s _ es set settled =>
      obtain rfl := Option.some.inj set
      exact ⟨_, List.mem_cons_self⟩
  | retried ss es failed settled =>
      cases failed with
      | unset h => cases h
      | failed s o set h =>
          obtain rfl := Option.some.inj set
          exact ⟨o, List.mem_cons_self⟩

theorem trace_dispatch_handle (c : Consumer P T) (d : Delivery P) (env : Environment P T) {v : T}
    (hlive : c.liveValue = true) (hv : c.assertValue d.msg.payload = some v) :
    ∃ es, (dispatch c d).trace env =
      ⟨.handle ⟨v, d.msg.headers⟩, env [] (.handle ⟨v, d.msg.headers⟩)⟩ :: es := by
  have hdecode : decode c d.msg = (pure (.inl v) : Routine P T (T ⊕ Err)) := by
    simp [decode, hlive, hv]
  rw [trace, dispatch, hdecode, pure_eq_ret, ret_bind, exec_bind, exec_safeHandle]
  obtain ⟨es, hes, -⟩ := exec_extends env ([] ++ [⟨.handle ⟨v, d.msg.headers⟩,
    env [] (.handle ⟨v, d.msg.headers⟩)⟩]) _
  exact ⟨es, hes⟩

theorem fireCalls_eq (i : ℕ) (t : AttemptTracker) (now : ℤ) {v : T}
    (hv : c.assertValue m.payload = some v)
    (herr : handlerErr (answer (.handle ⟨v, m.headers⟩)) = some err)
    (hperm : isPermanent (some err) = false) :
    ∃ es, fireCalls c i m t now answer =
        ⟨.handle ⟨v, m.headers⟩, answer (.handle ⟨v, m.headers⟩)⟩ :: es ∧
      SettledTransient c.toConsumer ⟨i, m, true⟩ err (es.filter fun e => !e.1.isLog) ∧
      ∀ e ∈ es, isHandle e = false := by
  obtain ⟨es, hes, hsettled⟩ := trace_dispatch c.toConsumer ⟨i, m, true⟩
    (brokerAnswer t now (cronAnswer c answer)) c.emitsLiveValue hv rfl herr hperm
  refine ⟨es, hes, hsettled, ?_⟩
  rintro ⟨q, o⟩ he
  cases q with
  | handle m' => exact absurd (List.mem_filter.mpr ⟨he, rfl⟩) (hsettled.handle_not_mem m' o)
  | _ => rfl

theorem fireCalls_failing {i : ℕ} (hint : m.headers.int headerDeliveryCount = none)
    (hv : (c.assertValue m.payload).isSome = true)
    (hfail : KeepsFailing (fireCalls c i m t now answer)) :
    (fireCalls c i m t now answer).countP isHandle = 1 ∧
      (c.policy.maxAttempts ≤ (t.count m.id + 1 : ℕ) →
        DeadLettered c m (fireCalls c i m t now answer)) := by
  obtain ⟨v, hv⟩ := Option.isSome_iff_exists.mp hv
  obtain ⟨es₀, hes₀⟩ := trace_dispatch_handle c.toConsumer ⟨i, m, true⟩
    (brokerAnswer t now (cronAnswer c answer)) c.emitsLiveValue hv
  have hfirst := hfail.2 ⟨.handle ⟨v, m.headers⟩, answer (.handle ⟨v, m.headers⟩)⟩
    (by rw [fireCalls, hes₀]; exact List.mem_cons_self) rfl
  simp only [isTransientFailure, Option.any_eq_true, Bool.not_eq_true'] at hfirst
  obtain ⟨err, herr, hperm⟩ := hfirst
  obtain ⟨es, hes, hsettled, hrest⟩ := fireCalls_eq i t now hv herr hperm
  rw [hes]
  constructor
  · rw [List.countP_cons_of_pos rfl, List.countP_eq_zero.mpr fun e he => by simp [hrest e he]]
  · intro hlast
    generalize hfs : (es.filter fun e => !e.1.isLog) = fs at hsettled
    cases hsettled with
    | exhausted ns es' n r counted hn diverted =>
        rw [c.deadLetter_eq] at diverted
        obtain ⟨o, ho⟩ := diverted.send_mem
        have hmem : ⟨.send c.sink m, o⟩ ∈ es.filter fun e => !e.1.isLog := by
          rw [hfs]
          exact List.mem_append_right ns (List.mem_append_left _ ho)
        obtain ⟨pre, post, rfl⟩ := List.append_of_mem (List.mem_of_mem_filter hmem)
        have hsent : o = .returned none := by
          rw [← List.cons_append] at hes
          simpa [brokerAnswer, cronAnswer] using trace_answer hes
        subst hsent
        refine ⟨_ :: pre, post, rfl, fun e he => hrest e ?_⟩
        exact List.mem_append_right pre (List.mem_cons_of_mem _ he)
    | retried ns es' n counted hn redelivered =>
        rw [attempt_of_counted hes hfs counted, ← Bool.not_eq_true, exhausted_iff] at hn
        refine absurd hlast ?_
        simpa [attemptNumber, hint] using hn

end Dispatch

section Runs

variable {c : CronConsumer P T} {s s' : CronState P} {l : CronLabel P T}
  {os : List (ℕ × List (Event P T))}

theorem callsFor_concat (i j : ℕ) (es : List (Event P T)) :
    callsFor i (os ++ [(j, es)]) = callsFor i os ++ if j = i then es else [] := by
  simp [callsFor]

structure CronInv (c : CronConsumer P T) (s : CronState P) (os : List (ℕ × List (Event P T))) :
    Prop where
  pending : ∀ i, s.inFlight i = true → i < s.fires.length ∧ callsFor i os = []
  ahead : ∀ i, s.fires.length ≤ i → callsFor i os = []
  calls : ∀ i m, s.fires[i]? = some m → callsFor i os = [] ∨
    ∃ t now answer, callsFor i os = fireCalls c i m t now answer
  minted : ∀ m ∈ s.fires, m.headers.int headerDeliveryCount = none ∧
    (c.assertValue m.payload).isSome = true

theorem cronInv_initial (c : CronConsumer P T) : CronInv c .initial [] where
  pending i h := by cases h
  ahead i _ := rfl
  calls i m h := by cases h
  minted m h := by cases h

theorem CronInv.fire (hinv : CronInv c s os) (fire now : ℤ) (id : String) :
    CronInv c
      { s with
        fires := s.fires ++ [newMessage (c.factory fire) id now]
        inFlight := Function.update s.inFlight s.fires.length true } os where
  pending i h := by
    rw [List.length_append, List.length_singleton]
    by_cases hi : i = s.fires.length
    · exact ⟨by omega, hinv.ahead i (by omega)⟩
    · have hold := hinv.pending i (by simpa [Function.update_of_ne hi] using h)
      exact ⟨by omega, hold.2⟩
  ahead i h := by
    rw [List.length_append, List.length_singleton] at h
    exact hinv.ahead i (by omega)
  calls i m h := by
    rcases Nat.lt_or_ge i s.fires.length with hi | hi
    · rw [List.getElem?_append_left hi] at h
      exact hinv.calls i m h
    · exact .inl (hinv.ahead i hi)
  minted m h := by
    rcases List.mem_append.mp h with h | h
    · exact hinv.minted m h
    · rw [List.mem_singleton.mp h]
      exact ⟨rfl, c.typed fire⟩

theorem CronInv.settle (hinv : CronInv c s os) (i : ℕ) (t : AttemptTracker) :
    CronInv c ⟨t, s.fires, Function.update s.inFlight i false⟩ os where
  pending j h := hinv.pending j (KeyedMaps.of_update_ne Bool.false_ne_true h).2
  ahead := hinv.ahead
  calls := hinv.calls
  minted := hinv.minted

theorem CronInv.dispatch (hinv : CronInv c s os) {i : ℕ} {m : Message P} (hm : s.fires[i]? = some m)
    (hi : s.inFlight i = true) (t : AttemptTracker) (now : ℤ) (answer : (q : Call P T) → q.Answer)
    (t' : AttemptTracker) :
    CronInv c ⟨t', s.fires, Function.update s.inFlight i false⟩
      (os ++ [(i, fireCalls c i m t now answer)]) := by
  obtain ⟨hlt, hnone⟩ := hinv.pending i hi
  refine ⟨fun j hj => ?_, fun j hj => ?_, fun j m' hm' => ?_, hinv.minted⟩
  · obtain ⟨hne, hj⟩ := KeyedMaps.of_update_ne Bool.false_ne_true hj
    rw [callsFor_concat, if_neg hne.symm, List.append_nil]
    exact hinv.pending j hj
  · have hne : i ≠ j := fun h => absurd (h ▸ hlt) (Nat.not_lt.mpr hj)
    rw [callsFor_concat, if_neg hne, List.append_nil]
    exact hinv.ahead j hj
  · rw [callsFor_concat]
    by_cases hij : i = j
    · subst hij
      obtain rfl : m = m' := Option.some.inj (hm.symm.trans hm')
      rw [if_pos rfl, hnone, List.nil_append]
      exact .inr ⟨t, now, answer, rfl⟩
    · rw [if_neg hij, List.append_nil]
      exact hinv.calls j m' hm'

theorem CronInv.step (hinv : CronInv c s os) (h : cronStep c s l = some s') :
    CronInv c s' (os ++ (cronCalls c s l).toList) := by
  cases l with
  | fire fire now id =>
      obtain rfl := Option.some.inj h
      have hseen : cronCalls c s (.fire fire now id) = none := rfl
      rw [hseen, Option.toList_none, List.append_nil]
      exact hinv.fire fire now id
  | dispatch i now answer =>
      rcases hm : s.fires[i]? with _ | m
      · simp [cronStep, hm] at h
      · simp only [cronStep, hm, Option.ite_none_right_eq_some, Option.some.injEq] at h
        obtain ⟨hi, rfl⟩ := h
        rw [cronCalls, hm, Option.map_some, Option.toList_some]
        exact hinv.dispatch hm hi s.tracker now answer _
  | decline i =>
      obtain ⟨-, h⟩ := Option.ite_none_right_eq_some.mp h
      obtain rfl := Option.some.inj h
      have hseen : cronCalls c s (.decline i) = none := rfl
      rw [hseen, Option.toList_none, List.append_nil]
      exact hinv.settle i s.tracker

theorem cronInv_run {ls : List (CronLabel P T)} (hr : run (cronStep c) .initial ls = some s) :
    CronInv c s (observe (cronStep c) (cronCalls c) .initial ls) :=
  run_observe (cronStep c) (cronCalls c) (fun _ _ _ _ h hstep => h.step hstep)
    (cronInv_initial c) hr

def unavailable [Inhabited T] : (q : Call P T) → q.Answer
  | .handle _ => .returned (some (.new "unavailable"))
  | q => q.calm

/-- The policy is kept exactly where it allows one attempt. -/
theorem fireRetryLaw_iff (c : CronConsumer P T) : FireRetryLaw c ↔ c.policy.maxAttempts = 1 := by
  constructor
  · intro hlaw
    obtain ⟨v, hv⟩ := Option.isSome_iff_exists.mp (c.typed 0)
    have : Inhabited T := ⟨v⟩
    let m := newMessage (c.factory 0) "" 0
    have hr : run (cronStep c) .initial [.fire 0 0 "", .dispatch 0 0 unavailable] = some _ := rfl
    have hcalls : callsFor 0 (observe (cronStep c) (cronCalls c) .initial
        [.fire 0 0 "", .dispatch 0 0 unavailable]) = fireCalls c 0 m .new 0 unavailable :=
      List.append_nil _
    have herr : handlerErr ((unavailable : (q : Call P T) → q.Answer) (.handle ⟨v, m.headers⟩)) =
        some (.new "unavailable") := rfl
    obtain ⟨es, hes, -, hrest⟩ := fireCalls_eq (c := c) 0 .new 0 hv herr rfl
    have hfail : KeepsFailing (fireCalls c 0 m .new 0 unavailable) := by
      rw [hes]
      refine ⟨⟨_, List.mem_cons_self, rfl⟩, fun e he hhandle => ?_⟩
      rcases List.mem_cons.mp he with rfl | he
      · rfl
      · rw [hrest e he] at hhandle
        cases hhandle
    have hkept := hlaw _ _ hr 0 m rfl rfl (hcalls ▸ hfail)
    rw [hcalls] at hkept
    have hcount := (fireCalls_failing rfl (c.typed 0) hfail).1
    rw [hcount] at hkept
    exact hkept.1.symm
  · intro hone ls s hr i m hm hover hfail
    have hinv := cronInv_run hr
    obtain ⟨hint, hv⟩ := hinv.minted m (List.mem_of_getElem? hm)
    rcases hinv.calls i m hm with hnone | ⟨t, now, answer, hcalls⟩
    · rw [hnone] at hfail
      obtain ⟨e, he, -⟩ := hfail.1
      cases he
    · rw [hcalls] at hfail ⊢
      obtain ⟨hcount, hlast⟩ := fireCalls_failing hint hv hfail
      refine ⟨by rw [hcount, hone]; rfl, hlast ?_⟩
      rw [hone]
      omega

end Runs

def minutely : CronConsumer Unit Unit where
  toBrokerConsumer := twoAttempts
  factory := fun _ => ()
  typed := fun _ => rfl

/-- With two attempts a fire whose handler fails is handled once, settled and not dead-lettered. -/
theorem failedFire_lost :
    ∃ s, run (cronStep minutely) .initial [.fire 60 60 "a", .dispatch 0 60 failingHandler] =
        some s ∧
      s.inFlight 0 = false ∧
      KeepsFailing (callsFor 0 (observe (cronStep minutely) (cronCalls minutely) .initial
        [.fire 60 60 "a", .dispatch 0 60 failingHandler])) ∧
      (callsFor 0 (observe (cronStep minutely) (cronCalls minutely) .initial
        [.fire 60 60 "a", .dispatch 0 60 failingHandler])).countP isHandle = 1 ∧
      ∀ e ∈ callsFor 0 (observe (cronStep minutely) (cronCalls minutely) .initial
        [.fire 60 60 "a", .dispatch 0 60 failingHandler]), isSendTo minutely.sink e = false :=
  ⟨_, rfl, rfl, by decide, rfl, by decide⟩

end Msgin
