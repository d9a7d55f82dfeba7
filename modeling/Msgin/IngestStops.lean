import Msgin.ProducerCalls
import Msgin.ProducerRuns

/-!
# Why a stream is read no further

`ingest` returns when its source is closed, when its context is done at one of the places where it
blocks, and when the rate limiter returns an error, whatever the error is. The monitor of this module
records which of these calls stopped the producer.
-/

namespace Msgin

open Interaction Prog TransitionRuns

variable {P T : Type} {c : Consumer P T} {s t : RunState P T}

/-- `ingest` has returned, and the worker channel may be closed already. -/
def RunState.ingestReturned (s : RunState P T) : Prop :=
  s.producer = some (.ret .stopped) ∨ s.producer = none

/-- Where the rate limiter returns an error to `ingest`, the context is done. -/
def RunState.LimiterHeeds (s : RunState P T) (l : RunLabel P T) : Prop :=
  ∀ err, produced s l = some ⟨.limiterWait, .returned (some err)⟩ → s.ctxDone = true

inductive StopCause
  | limiter
  | closed
  | ctxDone
  deriving DecidableEq

def Event.stopCause : Event P T → Option StopCause
  | ⟨.limiterWait, .returned (some _)⟩ => some .limiter
  | ⟨.receive, .closed⟩ => some .closed
  | ⟨.receive, .ctxDone⟩ => some .ctxDone
  | ⟨.acquire, some _⟩ => some .ctxDone
  | ⟨.handOff _, false⟩ => some .ctxDone
  | ⟨.park, false⟩ => some .ctxDone
  | _ => none

namespace StopCause

/-- The first cause is kept, and a second one is rejected. -/
def next (m : Option StopCause) (q : Call P T) (r : q.Answer) : Option (Option StopCause) :=
  match m, Event.stopCause ⟨q, r⟩ with
  | m, none => some m
  | none, some cause => some (some cause)
  | some _, some _ => none

def Ready : Control P → Option StopCause → Prop
  | .stopped, m => m.isSome = true
  | .pollLoop _ _, _ => False
  | _, m => m = none

/-- A call that stops the producer with none of its answers. -/
def Keeps (q : Call P T) : Prop := ∀ r : q.Answer, Event.stopCause ⟨q, r⟩ = none

variable {q : Call P T} {e : Event P T} {ls : List (RunLabel P T)}

theorem next_of_stopCause {m : Option StopCause} {r : q.Answer}
    (h : Event.stopCause ⟨q, r⟩ = none) : next m q r = some m := by
  cases m <;> simp only [next, h]

theorem next_none (q : Call P T) (r : q.Answer) :
    next none q r = some (Event.stopCause ⟨q, r⟩) := by
  rcases h : Event.stopCause ⟨q, r⟩ with _ | cause <;> simp only [next, h]

theorem keeps_of_isDispatch (hq : q.isDispatch = true) : Keeps q := by
  intro r
  cases q <;> first | rfl | cases hq

theorem keeps_of_settles {d : ℕ} (hq : q.settles = some d) : Keeps q := by
  intro r
  cases q <;> first | rfl | cases hq

theorem keeps_of_isGovernor (hq : q.isGovernor = true) : Keeps q := by
  intro r
  cases q <;> first | rfl | cases hq

variable {m : Option StopCause} {N : ℕ} {d : Delivery P} {α β : Type}

theorem meets_keeps_bind {post : β → Option StopCause → Prop} {p : Routine P T α}
    {f : α → Routine P T β} (hp : Only Keeps p) (hf : ∀ a, Meets next post (f a) m) :
    Meets next post (p >>= f) m :=
  hp.meets_bind (fun _ r hq => next_of_stopCause (hq r)) hf

theorem meets_nack (d : Delivery P) (requeue : Bool) {ctl : Control P} (h : Ready ctl m) :
    Meets next Ready (do
      finish (← safeNack d requeue 0)
      return ctl : Routine P T (Control P)) m :=
  meets_nack_of (fun _ r hq => next_of_stopCause (keeps_of_isDispatch hq r))
    (fun _ r hq => next_of_stopCause (keeps_of_settles hq r))
    (fun _ _ => next_of_stopCause rfl) requeue h

theorem meets_forward : Meets next Ready (forward N d : Routine P T (Control P)) none := by
  intro _
  refine ⟨none, rfl, ?_⟩
  intro sent
  refine ⟨_, next_none _ sent, ?_⟩
  cases sent with
  | true => rfl
  | false => exact meets_nack _ true rfl

theorem meets_admitCredit (c : Consumer P T) : Meets next Ready (admitCredit c N d) none :=
  meets_admitCredit_of c (fun _ _ r hq => next_of_stopCause (keeps_of_isDispatch hq r))
    ⟨none, rfl, meets_forward⟩ ⟨none, rfl, meets_nack d false rfl⟩
    ⟨none, rfl, meets_forward⟩ fun _ => ⟨_, rfl, meets_nack d true rfl⟩

theorem meets_safeLimiterWait (id : String) :
    Meets next (fun err m => err.isSome = m.isSome)
      (safeLimiterWait id : Routine P T (Option Err)) none := by
  intro waited
  refine ⟨_, next_none _ waited, ?_⟩
  cases waited with
  | returned err => cases err <;> rfl
  | panicked r =>
      exact meets_keeps_bind (f := fun _ => pure none)
        (only_governorPanic (fun _ hq => keeps_of_isGovernor hq) _ id r) fun _ => rfl

theorem meets_admitBreaker (c : Consumer P T) : Meets next Ready (admitBreaker c N d) none :=
  meets_admitBreaker_of c (fun _ r hq => next_of_stopCause (keeps_of_isGovernor hq r))
    (fun _ => rfl) (meets_admitCredit c) ⟨none, rfl, rfl⟩ ⟨_, rfl, meets_nack d true rfl⟩

theorem meets_ingest (c : Consumer P T) : Meets next Ready (ingest c N) none := by
  intro received
  refine ⟨_, next_none _ received, ?_⟩
  cases received with
  | ctxDone => rfl
  | closed => rfl
  | delivery msg =>
      change Meets next Ready (admitDelivery c (N + 1) ⟨N, msg, false⟩) none
      unfold admitDelivery
      split
      · rw [meets_bind]
        refine (meets_safeLimiterWait _).mono fun err m hm => ?_
        cases err with
        | none => exact Option.isNone_iff_eq_none.mp (Option.isSome_eq_false_iff.mp hm.symm)
        | some err => exact meets_nack _ true hm.symm
      · rfl

theorem meets_producer (ctl : Control P) (m : Option StopCause) (h : Ready ctl m) :
    Meets next Ready (producer c ctl) m := by
  cases ctl with
  | pollLoop N errN => cases h
  | ingest N =>
      obtain rfl : m = none := h
      exact meets_ingest c
  | admitBreaker N d =>
      obtain rfl : m = none := h
      exact meets_admitBreaker c
  | stopped => exact h

theorem filterMap_stopCause {es : List (Event P T)}
    (h : es.foldlM (fun m e => next m e.1 e.2) none = some m) :
    es.filterMap Event.stopCause = m.toList := by
  induction es using List.reverseRecOn generalizing m with
  | nil =>
      obtain rfl := Option.some.inj h
      rfl
  | append_singleton es e ih =>
      rw [List.foldlM_append] at h
      obtain ⟨m₁, hm₁, hnext⟩ := Option.bind_eq_some_iff.mp h
      have hnext : next m₁ e.1 e.2 = some m := by simpa using hnext
      rw [List.filterMap_append, ih hm₁]
      rcases he : e.stopCause with _ | cause
      · rw [next_of_stopCause he, Option.some.injEq] at hnext
        simp [he, hnext]
      · cases m₁ with
        | none =>
            rw [next_none, he, Option.some.injEq] at hnext
            simp [he, ← hnext]
        | some first =>
            simp only [next, he] at hnext
            cases hnext

theorem run_ingestReturned (hr : run (RunState.step c) (.initial c .streaming) ls = some s)
    (hs : s.ingestReturned) :
    ∃ cause, (producerEvents c (.initial c .streaming) ls).filterMap Event.stopCause = [cause] := by
  have hready : Ready (startOf .streaming : Control P) none := rfl
  obtain ⟨m, hm, hnone, hp⟩ := run_producer_monitored meets_producer hready hr
  have hstopped : Ready (.stopped : Control P) m := by
    rcases hs with hs | hs
    · exact hp _ hs
    · exact hnone hs
  obtain ⟨cause, rfl⟩ := Option.isSome_iff_exists.mp hstopped
  exact ⟨cause, filterMap_stopCause hm⟩

theorem ctxDone_of_enabled {r : q.Answer} (he : s.enabled c q r = true)
    (hc : Event.stopCause ⟨q, r⟩ = some .ctxDone) : s.ctxDone = true := by
  cases q with
  | receive => cases r <;> first | exact he | cases hc
  | acquire => cases r <;> first | exact he | cases hc
  | handOff md => cases r <;> first | exact he | cases hc
  | park => cases r <;> first | exact he | cases hc
  | limiterWait => rcases r with (_ | _) | _ <;> cases hc
  | _ => cases hc

theorem eq_limiterWait (h : e.stopCause = some .limiter) :
    ∃ err, e = ⟨.limiterWait, .returned (some err)⟩ := by
  unfold Event.stopCause at h
  split at h <;> cases h
  exact ⟨_, rfl⟩

theorem eq_receive_closed (h : e.stopCause = some .closed) : e = ⟨.receive, .closed⟩ := by
  unfold Event.stopCause at h
  split at h <;> cases h
  rfl

/-- The producer has been stopped by its context or by a limiter that failed after it. -/
theorem run_ctxDone {kind : SourceKind}
    (hlimiter : Along (RunState.step c) (fun s l _ => s.LimiterHeeds l) (.initial c kind) ls)
    (hr : run (RunState.step c) (.initial c kind) ls = some s) {cause : StopCause}
    (he : e ∈ producerEvents c (.initial c kind) ls) (hc : e.stopCause = some cause)
    (hopen : cause ≠ .closed) : s.ctxDone = true := by
  have hstart : ∀ e ∈ ([] : List (Event P T)), ∀ cause, e.stopCause = some cause →
      cause ≠ .closed → (RunState.initial c kind).ctxDone = true := by simp
  have hinv := run_observe_of_along (RunState.step c) produced
    (I := fun s es => ∀ e ∈ es, ∀ cause, e.stopCause = some cause → cause ≠ .closed →
      s.ctxDone = true) ?_ hstart hlimiter hr
  · exact hinv e he cause hc hopen
  · intro s l t es hs hstep hheeds e he cause hc hopen
    rcases List.mem_append.mp he with he | he
    · exact ctxDone_of_step hstep (hs e he cause hc hopen)
    · refine ctxDone_of_step hstep ?_
      have hseen := Option.mem_toList.mp he
      cases cause with
      | limiter =>
          obtain ⟨err, rfl⟩ := eq_limiterWait hc
          exact hheeds err hseen
      | closed => exact absurd rfl hopen
      | ctxDone =>
          cases producerStep_of_step hstep with
          | calls q k r asks enabled next seen =>
              rw [seen] at hseen
              cases hseen
              exact ctxDone_of_enabled enabled hc
          | idle _ seen => simp [seen] at hseen
          | exits _ _ seen => simp [seen] at hseen
          | enters _ _ _ seen => simp [seen] at hseen

end StopCause

/-- Where the limiter returns an error only once the context is done, `ingest` has returned only
after its context was done or its source was closed. -/
theorem ingest_returns_late {ls : List (RunLabel P T)}
    (hlimiter : Along (RunState.step c) (fun s l _ => s.LimiterHeeds l) (.initial c .streaming) ls)
    (hr : run (RunState.step c) (.initial c .streaming) ls = some s) (hs : s.ingestReturned) :
    s.ctxDone = true ∨
      (⟨.receive, .closed⟩ : Event P T) ∈ producerEvents c (.initial c .streaming) ls := by
  obtain ⟨cause, honly⟩ := StopCause.run_ingestReturned hr hs
  obtain ⟨e, he, hc⟩ := List.mem_filterMap.mp (honly ▸ List.mem_singleton_self cause)
  by_cases hclosed : cause = .closed
  · subst hclosed
    rw [StopCause.eq_receive_closed hc] at he
    exact .inr he
  · exact .inl (StopCause.run_ctxDone hlimiter hr he hc hclosed)

def limitedConsumer : Consumer Unit Unit := { pairConsumer with rateLimiter := true }

/-- A limiter that is interrupted by the context. -/
def interrupted : (q : Call Unit Unit) → q.Answer
  | .receive => .delivery blankMessage
  | .limiterWait => .returned (some (.new "context canceled"))
  | q => q.calm

def interruptedStream : List (RunLabel Unit Unit) :=
  [.produce interrupted, .cancel, .produce interrupted, .produce interrupted]

theorem ingest_returns_late_interrupted :
    ∃ s, run (RunState.step limitedConsumer) (.initial limitedConsumer .streaming)
        interruptedStream = some s ∧ s.ingestReturned ∧
      (s.ctxDone = true ∨ (⟨.receive, .closed⟩ : Event Unit Unit) ∈
        producerEvents limitedConsumer (.initial limitedConsumer .streaming) interruptedStream) := by
  obtain ⟨s, hr, hs⟩ : ∃ s, run (RunState.step limitedConsumer)
      (.initial limitedConsumer .streaming) interruptedStream = some s ∧ s.ingestReturned :=
    ⟨_, rfl, .inl rfl⟩
  have hlimiter : Along (RunState.step limitedConsumer) (fun s l _ => s.LimiterHeeds l)
      (.initial limitedConsumer .streaming) interruptedStream := by
    rintro _ ⟨⟩
    refine ⟨fun _ h => (by cases h), ?_⟩
    rintro _ ⟨⟩
    refine ⟨fun _ h => (by cases h), ?_⟩
    rintro _ ⟨⟩
    refine ⟨fun _ _ => rfl, ?_⟩
    rintro _ ⟨⟩
    exact ⟨fun _ h => (by cases h), trivial⟩
  exact ⟨s, hr, hs, ingest_returns_late hlimiter hr hs⟩

def noBurst : (q : Call Unit Unit) → q.Answer
  | .receive => .delivery blankMessage
  | .limiterWait => .returned (some (.new "rate: Wait(n=1) exceeds limiter's burst 0"))
  | q => q.calm

theorem noBurst_stops :
    ∃ s, run (RunState.step limitedConsumer) (.initial limitedConsumer .streaming)
        (List.replicate 3 (.produce noBurst)) = some s ∧
      s.ingestReturned ∧ s.ctxDone = false ∧
      (⟨.receive, .closed⟩ : Event Unit Unit) ∉
        producerEvents limitedConsumer (.initial limitedConsumer .streaming)
          (List.replicate 3 (.produce noBurst)) := by
  refine ⟨_, rfl, .inl rfl, rfl, fun hclosed => ?_⟩
  have hcauses : ∀ e ∈ producerEvents limitedConsumer (.initial limitedConsumer .streaming)
      (List.replicate 3 (.produce noBurst)), e.stopCause ≠ some .closed := by decide
  exact hcauses _ hclosed rfl

end Msgin
