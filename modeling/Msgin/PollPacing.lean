import Msgin.PollBackoff
import Msgin.ProducerCalls
import Msgin.ProducerRuns

/-!
# The pace of the poll loop

A poll loop waits after a poll that failed and after one that returned nothing. In every run of a
consumer of a polling source each wait is the one that belongs to the number of polls that failed
in a row before it: the backoff, or the poll interval where the last poll did not fail.
-/

namespace Msgin

open Interaction Prog TransitionRuns

variable {P T : Type} {c : Consumer P T}

/-- The polls that failed in a row, after one more call. -/
def failuresAfter (n : ℕ) : (q : Call P T) → q.Answer → ℕ
  | .poll _, .returned (_, none) => 0
  | .poll _, .returned (_, some _) => n + 1
  | .poll _, .panicked _ => n + 1
  | _, _ => n

/-- The polls that failed in a row at the end of the calls. -/
def failures (es : List (Event P T)) : ℕ := es.foldl (fun n e => failuresAfter n e.1 e.2) 0

/-- The wait of the loop after `n` polls that failed in a row. -/
def pollWait (c : Consumer P T) (n : ℕ) : ℤ :=
  if n = 0 then c.pollInterval else pollErrorBackoff c n

def isPaced (c : Consumer P T) (n : ℕ) : Call P T → Bool
  | .sleep d => d = pollWait c n
  | _ => true

/-- Follows the failures and accepts the waits that belong to them. -/
def paceNext (c : Consumer P T) (n : ℕ) (q : Call P T) (r : q.Answer) : Option ℕ :=
  if isPaced c n q then some (failuresAfter n q r) else none

theorem paceNext_of_isPace (n : ℕ) (q : Call P T) (r : q.Answer) (hq : q.isPace = false) :
    paceNext c n q r = some n := by
  cases q <;> first | rfl | cases hq

def PaceReady : Control P → ℕ → Prop
  | .pollLoop _ errN, n => n = errN
  | .stopped, _ => True
  | _, _ => False

theorem meets_unpaced_bind {α β : Type} {p : Routine P T α} {f : α → Routine P T β} {n : ℕ}
    {post : β → ℕ → Prop} (hp : Only (fun q => q.isPace = false) p)
    (hf : ∀ a, Meets (paceNext c) post (f a) n) : Meets (paceNext c) post (p >>= f) n :=
  hp.meets_bind (fun q r hq => paceNext_of_isPace n q r hq) hf

theorem meets_sleepCtx_bind_of_eq {α : Type} {f : Bool → Routine P T α} {n : ℕ} {d : ℤ}
    {post : α → ℕ → Prop} (hd : d = pollWait c n) (hf : ∀ b, Meets (paceNext c) post (f b) n) :
    Meets (paceNext c) post (sleepCtx d >>= f) n := by
  unfold sleepCtx
  split
  · exact hf true
  · intro b
    exact ⟨n, if_pos (decide_eq_true hd), hf b⟩

theorem meets_pace_pollFailed (next errN held : ℕ) (err : Err) :
    Meets (paceNext c) PaceReady (pollFailed c next errN held err) (errN + 1) := by
  unfold pollFailed
  refine meets_unpaced_bind (only_perform rfl) fun _ => ?_
  refine meets_unpaced_bind (only_releaseN (fun q _ hq => hq) held) fun _ => ?_
  refine meets_sleepCtx_bind_of_eq (if_neg (Nat.succ_ne_zero errN)).symm fun awake => ?_
  cases awake with
  | true => exact rfl
  | false => exact trivial

theorem meets_pace_deliverRows (next held : ℕ) (rows : List (Delivery P)) :
    Meets (paceNext c) PaceReady (deliverRows c next held rows) 0 := by
  unfold deliverRows
  refine meets_unpaced_bind (only_releaseN (fun q _ hq => hq) _) fun _ => ?_
  refine meets_unpaced_bind (only_handRows (fun q _ hq => hq) rows) fun handed => ?_
  split
  · split
    · refine meets_sleepCtx_bind_of_eq rfl fun awake => ?_
      cases awake with
      | true => exact rfl
      | false => exact trivial
    · exact rfl
  · exact trivial

theorem meets_pace_pollLoop (next errN : ℕ) :
    Meets (paceNext c) PaceReady (pollLoop c next errN) errN := by
  unfold pollLoop
  refine meets_unpaced_bind (only_perform rfl) fun acquired => ?_
  cases acquired with
  | some err => exact trivial
  | none =>
      refine meets_unpaced_bind (only_topUp (fun q _ hq => hq) _ 1) fun held => ?_
      rw [meets_bind]
      unfold safePoll
      intro o
      match o with
      | .panicked r => exact ⟨errN + 1, rfl, meets_pace_pollFailed next errN held _⟩
      | .returned (ms, some err) => exact ⟨errN + 1, rfl, meets_pace_pollFailed next errN held err⟩
      | .returned (ms, none) =>
          refine ⟨0, rfl, ?_⟩
          refine meets_unpaced_bind (p := creditedRows (number next ms) held)
            (only_creditedRows (fun q _ hq => hq) _ held) fun rows => ?_
          exact meets_pace_deliverRows _ held rows

theorem meets_pace_producer (ctl : Control P) (n : ℕ) (h : PaceReady ctl n) :
    Meets (paceNext c) PaceReady (producer c ctl) n := by
  cases ctl with
  | pollLoop next errN =>
      obtain rfl : n = errN := h
      exact meets_pace_pollLoop next n
  | ingest next => cases h
  | admitBreaker next d => cases h
  | stopped => exact trivial

theorem eq_failures_of_accepted {es : List (Event P T)} {n m : ℕ}
    (h : es.foldlM (fun n e => paceNext c n e.1 e.2) n = some m) :
    m = es.foldl (fun n e => failuresAfter n e.1 e.2) n := by
  induction es generalizing n with
  | nil => exact (Option.some.inj h).symm
  | cons e es ih =>
      obtain ⟨k, hk, hrest⟩ := Option.bind_eq_some_iff.mp h
      obtain ⟨-, hnext⟩ := Option.ite_none_right_eq_some.mp hk
      obtain rfl := Option.some.inj hnext
      exact ih hrest

/-- In every run of a consumer of a polling source each wait of the loop is the one after as many
failed polls as there were in a row. -/
theorem run_pollWait {s : RunState P T} {ls : List (RunLabel P T)}
    (hr : run (RunState.step c) (.initial c .polling) ls = some s) {es fs : List (Event P T)}
    {d : ℤ} {awake : Bool}
    (h : producerEvents c (.initial c .polling) ls = es ++ ⟨.sleep d, awake⟩ :: fs) :
    d = pollWait c (failures es) := by
  have hstart : PaceReady (startOf .polling : Control P) 0 := rfl
  obtain ⟨m, hm⟩ := run_producer_accepted meets_pace_producer hstart hr
  rw [h, List.foldlM_append] at hm
  obtain ⟨n, hn, hrest⟩ := Option.bind_eq_some_iff.mp hm
  obtain ⟨k, hk, -⟩ := Option.bind_eq_some_iff.mp hrest
  obtain ⟨hpaced, -⟩ := Option.ite_none_right_eq_some.mp hk
  rw [failures, ← eq_failures_of_accepted hn]
  exact of_decide_eq_true hpaced

/-- While the polls fail the waits double from the poll interval on, up to the cap; after a poll
that did not fail the wait is the poll interval. -/
theorem run_pollWait_doubles (hp : 0 < c.pollInterval) {s : RunState P T}
    {ls : List (RunLabel P T)}
    (hr : run (RunState.step c) (.initial c .polling) ls = some s) {es fs : List (Event P T)}
    {d : ℤ} {awake : Bool}
    (h : producerEvents c (.initial c .polling) ls = es ++ ⟨.sleep d, awake⟩ :: fs) :
    d = if failures es = 0 then c.pollInterval
      else min maxPollErrorBackoff (c.pollInterval * 2 ^ (failures es - 1)) := by
  rw [run_pollWait hr h, pollWait, pollErrorBackoff_eq c hp]

def failingPoll : (q : Call Unit Unit) → q.Answer
  | .poll _ => .returned ([], some (.new "poll failed"))
  | q => q.calm

/-- Two polls fail. -/
def twoFailedPolls : List (RunLabel Unit Unit) :=
  List.replicate 7 (.produce failingPoll) ++ .nextPass :: List.replicate 7 (.produce failingPoll)

theorem run_pollWait_doubles_failingPoll :
    ∃ s es, run (RunState.step pairConsumer) (.initial pairConsumer .polling) twoFailedPolls =
        some s ∧
      producerEvents pairConsumer (.initial pairConsumer .polling) twoFailedPolls =
        es ++ [⟨.sleep 2000000000, true⟩] ∧
      (2000000000 : ℤ) = if failures es = 0 then pairConsumer.pollInterval
        else min maxPollErrorBackoff (pairConsumer.pollInterval * 2 ^ (failures es - 1)) := by
  obtain ⟨s, es, hr, h⟩ : ∃ s es, run (RunState.step pairConsumer)
      (.initial pairConsumer .polling) twoFailedPolls = some s ∧
      producerEvents pairConsumer (.initial pairConsumer .polling) twoFailedPolls =
        es ++ [⟨.sleep 2000000000, true⟩] :=
    ⟨_, (producerEvents pairConsumer (.initial pairConsumer .polling) twoFailedPolls).dropLast,
      rfl, rfl⟩
  exact ⟨s, es, hr, h, run_pollWait_doubles (by decide) hr h⟩

end Msgin
