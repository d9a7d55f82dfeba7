import Mathlib.Algebra.Order.BigOperators.Group.List
import Mathlib.Algebra.Order.Ring.Int
import Msgin.ProducerRetry

/-!
# How a send with retries ends

Read from the calls of one `sendRetrying`: what the attempts returned, how long it waited, what
it handed to the dead-letter sink and what the clock showed. Where the clock advances by every
completed wait, the budget bounds the waits and thereby the attempts, so the loop ends. The
last attempt decides the result, and a message that is given up goes to the sink once.
-/

namespace Msgin

open Interaction Prog

variable {P T : Type}

structure Divert (P : Type) where
  sink : OutboundAdapter
  timeout : ℤ
  msg : Message P
  outcome : Outcome (Option Err)

def Divert.call (d : Divert P) : OutboundAdapter × ℤ × Message P := (d.sink, d.timeout, d.msg)

inductive Tick
  | read (t : ℤ)
  | waited (d : ℤ)

/-- From the time `low` on no reading is earlier than the one before it and the waits since. -/
def AdvancesFrom : ℤ → List Tick → Prop
  | _, [] => True
  | low, .read t :: ts => low ≤ t ∧ AdvancesFrom t ts
  | low, .waited d :: ts => AdvancesFrom (low + d) ts

def ClockAdvances (ts : List Tick) : Prop := ∃ low, AdvancesFrom low ts

/-- What an attempt returns that does not end the loop by itself. -/
def Transient (o : Outcome (Option Err)) : Prop :=
  ∃ e, o = .returned (some e) ∧ isPermanent (some e) = false

theorem not_transient_nil : ¬ Transient (.returned none) := by
  rintro ⟨e, h, -⟩
  cases h

theorem not_transient_panicked (r : String) : ¬ Transient (.panicked r) := by
  rintro ⟨e, h, -⟩
  cases h

variable {e : Err}

theorem not_transient_permanent (he : isPermanent (some e) = true) :
    ¬ Transient (.returned (some e)) := by
  rintro ⟨e', h, he'⟩
  cases h
  rw [he] at he'
  cases he'

namespace Producer

def attemptOf : SendEvent P T → Option (Outcome (Option Err))
  | ⟨.send _, o⟩ => some o
  | _ => none

def waitOf : SendEvent P T → Option ℤ
  | ⟨.wait d, none⟩ => some d
  | _ => none

def divertOf : SendEvent P T → Option (Divert P)
  | ⟨.deadLetter sink timeout m, o⟩ => some ⟨sink, timeout, m, o⟩
  | _ => none

def tickOf : SendEvent P T → Option Tick
  | ⟨.now, t⟩ => some (.read t)
  | ⟨.wait d, none⟩ => some (.waited d)
  | _ => none

def attempts (es : List (SendEvent P T)) : List (Outcome (Option Err)) := es.filterMap attemptOf

def waits (es : List (SendEvent P T)) : List ℤ := es.filterMap waitOf

def diverts (es : List (SendEvent P T)) : List (Divert P) := es.filterMap divertOf

def ticks (es : List (SendEvent P T)) : List Tick := es.filterMap tickOf

/-- Hooks and log records tell nothing about the outcome. -/
def tells : SendCall P T → Bool
  | .fire _ _ _ => false
  | .log _ _ _ => false
  | _ => true

variable (p : Producer P T) (boxed : Message P)

/-- What `deadLetter` returns, and the call it makes. -/
inductive Diverts (cause : Err) : Err → List (SendEvent P T) → Prop
  | unconfigured (h : p.retry.deadLetter = none) : Diverts cause cause []
  | accepted {sink : OutboundAdapter} (h : p.retry.deadLetter = some sink) :
      Diverts cause (.wrappedPair "" ": " "" (.sentinel .errDeadLettered) cause)
        [⟨.deadLetter sink p.deadLetterTimeout boxed, .returned none⟩]
  | refused {sink : OutboundAdapter} (h : p.retry.deadLetter = some sink) (dlErr : Err) :
      Diverts cause (.join cause dlErr)
        [⟨.deadLetter sink p.deadLetterTimeout boxed, .returned (some dlErr)⟩]
  | panicked {sink : OutboundAdapter} (h : p.retry.deadLetter = some sink) (r : String) :
      Diverts cause (.join cause (.new ("msgin: producer DeadLetter.Send panicked: " ++ r)))
        [⟨.deadLetter sink p.deadLetterTimeout boxed, .panicked r⟩]

/-- The budget error around the error of the last attempt. -/
def budgetErr (e : Err) : Err :=
  .wrappedPair "" ": " "" (.sentinel .errRetryBudgetExhausted) e

/-- An attempt that ends the loop: what it returns, what the loop returns, and the calls. -/
inductive Ends (k : ℤ) :
    Outcome (Option Err) → Outcome (Option Err) → List (SendEvent P T) → Prop
  | settles {o : Outcome (Option Err)} (h : ¬ Transient o) : Ends k o o [⟨.send boxed, o⟩]
  | exhausts {e out : Err} {es : List (SendEvent P T)} (hperm : isPermanent (some e) = false)
      (hout : Diverts p boxed e out es) :
      Ends k (.returned (some e)) (.returned (some out)) (⟨.send boxed, .returned (some e)⟩ :: es)
  | overruns {e out : Err} {es : List (SendEvent P T)} (t : ℤ)
      (hperm : isPermanent (some e) = false) (hout : Diverts p boxed (budgetErr e) out es) :
      Ends k (.returned (some e)) (.returned (some out))
        (⟨.send boxed, .returned (some e)⟩ :: ⟨.now, t⟩ :: es)
  | cancels {e out : Err} {es : List (SendEvent P T)} (t : ℤ) (c : CtxErr)
      (hperm : isPermanent (some e) = false) (hout : Diverts p boxed e out es) :
      Ends k (.returned (some e)) (.returned (some (.join out c.err)))
        (⟨.send boxed, .returned (some e)⟩ :: ⟨.now, t⟩ ::
          ⟨.wait (p.nextDelay k e), some c⟩ :: es)

/-- What the loop returns from an attempt on, and the calls it makes. -/
inductive Loops (deadline : ℤ) :
    ℕ → ℤ → Option (Outcome (Option Err)) → List (SendEvent P T) → Prop
  | spent (k : ℤ) : Loops deadline 0 k none []
  | ends (n : ℕ) {k : ℤ} {o r : Outcome (Option Err)} {es : List (SendEvent P T)}
      (h : Ends p boxed k o r es) : Loops deadline (n + 1) k (some r) es
  | retries {n : ℕ} {k t : ℤ} {e : Err} {r : Option (Outcome (Option Err))}
      {es : List (SendEvent P T)} (hperm : isPermanent (some e) = false)
      (hmax : 0 < p.retry.maxAttempts → k < p.retry.maxAttempts)
      (ht : t + p.nextDelay k e ≤ deadline) (hrest : Loops deadline n (k + 1) r es) :
      Loops deadline (n + 1) k r
        (⟨.send boxed, .returned (some e)⟩ :: ⟨.now, t⟩ ::
          ⟨.wait (p.nextDelay k e), none⟩ :: es)

variable {o : Outcome (Option Err)} {α : Type} {S : α → List (SendEvent P T) → Prop}

theorem emits_performSend_bind {q : SendCall P T} (hq : tells q = true)
    {f : q.Answer → SendRoutine P T α} :
    Emits tells S (performSend q >>= f) ↔
      ∀ r, Emits tells (fun a es => S a (⟨q, r⟩ :: es)) (f r) := by
  simp only [performSend, call_bind, emits_ask, hq, if_true]

theorem emits_fireHook (hook : Hook) (m : Message P) (err : Err) :
    Emits tells (fun _ es => es = []) (p.fireHook hook m err) := by
  unfold fireHook
  split
  · intro r
    cases r with
    | returned a => rfl
    | panicked r => exact fun _ => rfl
  · rfl

theorem emits_fireHook_bind (hook : Hook) (m : Message P) (err : Err) {f : Unit → SendRoutine P T α}
    (hf : Emits tells S (f ())) : Emits tells S (p.fireHook hook m err >>= f) := by
  refine (p.emits_fireHook hook m err).bind ?_
  rintro ⟨⟩ es rfl
  exact hf

theorem emits_deadLetter (cause : Err) :
    Emits tells (Diverts p boxed cause) (p.deadLetter boxed cause) := by
  unfold deadLetter
  cases hsink : p.retry.deadLetter with
  | none => exact .unconfigured hsink
  | some sink =>
      intro r
      cases r with
      | panicked r => exact p.emits_fireHook_bind _ _ _ (.panicked hsink r)
      | returned o =>
          cases o with
          | none => exact p.emits_fireHook_bind _ _ _ (.accepted hsink)
          | some dlErr => exact p.emits_fireHook_bind _ _ _ (.refused hsink dlErr)

theorem emits_deadLetter_return (cause : Err) {f : Err → α}
    (hS : ∀ out es, Diverts p boxed cause out es → S (f out) es) :
    Emits tells S (do return f (← p.deadLetter boxed cause)) := by
  refine (p.emits_deadLetter boxed cause).bind fun out es hout => ?_
  rw [pure_eq_ret, emits_ret, List.append_nil]
  exact hS out es hout

theorem emits_sendAttempts (deadline : ℤ) (n : ℕ) (k : ℤ) :
    Emits tells (Loops p boxed deadline n k) (p.sendAttempts boxed deadline n k) := by
  induction n generalizing k with
  | zero => exact .spent k
  | succ n ih =>
      rw [sendAttempts, emits_performSend_bind rfl]
      intro o
      rcases o with (_ | e) | r
      · exact .ends n (.settles not_transient_nil)
      · dsimp only
        split
        · next hperm => exact .ends n (.settles (not_transient_permanent hperm))
        next hperm =>
        rw [Bool.not_eq_true] at hperm
        split
        · exact p.emits_deadLetter_return boxed e fun out es hout => .ends n <| .exhausts hperm hout
        next hmax =>
        rw [emits_performSend_bind rfl]
        intro t
        split
        · exact p.emits_deadLetter_return boxed _ fun out es hout => .ends n <| .overruns t hperm hout
        next ht =>
        apply p.emits_fireHook_bind
        rw [emits_performSend_bind rfl]
        intro o
        cases o with
        | some c =>
            exact p.emits_deadLetter_return boxed e fun out es hout => .ends n <| .cancels t c hperm hout
        | none =>
            refine (ih (k + 1)).mono fun r es hrest => ?_
            exact .retries hperm (fun h => by omega) (by omega) hrest
      · exact .ends n (.settles (not_transient_panicked r))

variable {p boxed} {cause out : Err} {deadline low : ℤ} {n : ℕ} {k : ℤ}
  {r : Option (Outcome (Option Err))} {es : List (SendEvent P T)}

theorem Diverts.attempts_eq (h : Diverts p boxed cause out es) : attempts es = [] := by
  cases h <;> rfl

theorem Diverts.waits_eq (h : Diverts p boxed cause out es) : waits es = [] := by
  cases h <;> rfl

theorem Ends.attempts_eq {r : Outcome (Option Err)} (h : Ends p boxed k o r es) :
    attempts es = [o] := by
  cases h with
  | settles h => rfl
  | exhausts hperm hout => exact congrArg (_ :: ·) hout.attempts_eq
  | overruns t hperm hout => exact congrArg (_ :: ·) hout.attempts_eq
  | cancels t c hperm hout => exact congrArg (_ :: ·) hout.attempts_eq

theorem Ends.waits_eq {r : Outcome (Option Err)} (h : Ends p boxed k o r es) : waits es = [] := by
  cases h with
  | settles h => rfl
  | exhausts hperm hout => exact hout.waits_eq
  | overruns t hperm hout => exact hout.waits_eq
  | cancels t c hperm hout => exact hout.waits_eq

theorem Loops.length_attempts (h : Loops p boxed deadline n k r es) :
    (attempts es).length = (waits es).length + r.toList.length := by
  induction h with
  | spent k => rfl
  | ends n h => rw [h.attempts_eq, h.waits_eq]; rfl
  | @retries n k t e r es hperm hmax ht hrest ih =>
      change (attempts es).length + 1 = (waits es).length + 1 + r.toList.length
      omega

theorem Loops.length_waits (h : Loops p boxed deadline n k r es) (hr : r = none) :
    (waits es).length = n := by
  induction h with
  | spent k => rfl
  | ends n h => cases hr
  | retries hperm hmax ht hrest ih => exact congrArg (· + 1) (ih hr)

theorem Loops.le_of_mem_waits (h : Loops p boxed deadline n k r es) :
    ∀ d ∈ waits es, minRetryDelay ≤ d := by
  induction h with
  | spent k => exact List.forall_mem_nil _
  | ends n h =>
      rw [h.waits_eq]
      exact List.forall_mem_nil _
  | retries hperm hmax ht hrest ih =>
      exact List.forall_mem_cons.mpr ⟨p.minRetryDelay_le_nextDelay _ _, ih⟩

theorem Loops.mul_minRetryDelay_le (h : Loops p boxed deadline n k r es) :
    (waits es).length * minRetryDelay ≤ (waits es).sum := by
  have hsum := List.card_nsmul_le_sum (waits es) minRetryDelay h.le_of_mem_waits
  rwa [nsmul_eq_mul] at hsum

theorem Loops.sum_waits_le (h : Loops p boxed deadline n k r es)
    (hclock : AdvancesFrom low (ticks es)) : waits es = [] ∨ low + (waits es).sum ≤ deadline := by
  induction h generalizing low with
  | spent k => exact .inl rfl
  | ends n h => exact .inl h.waits_eq
  | @retries n k t e r es hperm hmax ht hrest ih =>
      obtain ⟨hlow, hrestClock⟩ : low ≤ t ∧ AdvancesFrom (t + p.nextDelay k e) (ticks es) :=
        hclock
      right
      change low + (p.nextDelay k e :: waits es).sum ≤ deadline
      rw [List.sum_cons]
      rcases ih hrestClock with hnil | hsum
      · rw [hnil, List.sum_nil]
        omega
      · omega

theorem Loops.attempts_le (h : Loops p boxed deadline n k r es)
    (hmax : 0 < p.retry.maxAttempts) (hk : k ≤ p.retry.maxAttempts) :
    k + (attempts es).length ≤ p.retry.maxAttempts + 1 := by
  induction h with
  | spent k =>
      change k + 0 ≤ p.retry.maxAttempts + 1
      omega
  | ends n h =>
      rw [h.attempts_eq]
      exact Int.add_le_add_right hk 1
  | @retries n k t e r es hperm hlt ht hrest ih =>
      have hih := ih (hlt hmax)
      change k + ((attempts es).length + 1 : ℕ) ≤ p.retry.maxAttempts + 1
      omega

/-- What becomes of a message whose last attempt ended with the error `last`: the configured sink
is called once, the result matches `last`, and it matches `ErrDeadLettered` when the sink took
the message or `last` did before. -/
structure GivenUp (p : Producer P T) (boxed : Message P) (last out : Err) (ds : List (Divert P)) :
    Prop where
  once : ds.map Divert.call =
    p.retry.deadLetter.toList.map fun sink => (sink, p.deadLetterTimeout, boxed)
  marked : out.is .errDeadLettered = true ↔
    (∃ d ∈ ds, d.outcome = .returned none) ∨ last.is .errDeadLettered = true
  wraps : last ∈ out.nodes

/-- No error of the sink carries `ErrDeadLettered`. -/
def SinkUnmarked (ds : List (Divert P)) : Prop :=
  ∀ d ∈ ds, ∀ e, d.outcome = .returned (some e) → e.is .errDeadLettered = false

theorem Diverts.givenUp (h : Diverts p boxed cause out es) (hsink : SinkUnmarked (diverts es)) :
    GivenUp p boxed cause out (diverts es) := by
  cases h with
  | unconfigured h =>
      refine ⟨by rw [h]; rfl, ?_, cause.self_mem_nodes⟩
      simp [diverts]
  | accepted h =>
      refine ⟨by rw [h]; rfl, ?_, ?_⟩
      · simp [diverts, divertOf, Err.is]
      · simp [Err.nodes, cause.self_mem_nodes]
  | @refused sink h dlErr =>
      have hplain : dlErr.is .errDeadLettered = false :=
        hsink ⟨sink, p.deadLetterTimeout, boxed, .returned (some dlErr)⟩ List.mem_cons_self _ rfl
      refine ⟨by rw [h]; rfl, ?_, ?_⟩
      · simp [diverts, divertOf, Err.is, hplain]
      · simp [Err.nodes, cause.self_mem_nodes]
  | panicked h r =>
      refine ⟨by rw [h]; rfl, ?_, ?_⟩
      · simp [diverts, divertOf, Err.is, Err.new]
      · simp [Err.nodes, cause.self_mem_nodes]

theorem GivenUp.of_budgetErr {ds : List (Divert P)} (h : GivenUp p boxed (budgetErr e) out ds) :
    GivenUp p boxed e out ds := by
  refine ⟨h.once, ?_, ?_⟩
  · rw [h.marked]
    simp [budgetErr, Err.is]
  · refine Err.mem_nodes_trans ?_ h.wraps
    simp [budgetErr, Err.nodes, e.self_mem_nodes]

theorem GivenUp.join {ds : List (Divert P)} (h : GivenUp p boxed e out ds) (c : CtxErr) :
    GivenUp p boxed e (.join out c.err) ds := by
  refine ⟨h.once, ?_, ?_⟩
  · have hc : c.err.is .errDeadLettered = false := by cases c <;> rfl
    simp only [Err.is, hc, Bool.or_false]
    exact h.marked
  · exact List.mem_cons_of_mem _ (List.mem_append_left _ h.wraps)

inductive Verdict (p : Producer P T) (boxed : Message P) :
    Outcome (Option Err) → Outcome (Option Err) → List (Divert P) → Prop
  | settled {o : Outcome (Option Err)} (h : ¬ Transient o) : Verdict p boxed o o []
  | givenUp {last out : Err} {ds : List (Divert P)} (hperm : isPermanent (some last) = false)
      (hout : GivenUp p boxed last out ds) :
      Verdict p boxed (.returned (some last)) (.returned (some out)) ds

theorem Ends.verdict {r : Outcome (Option Err)} (h : Ends p boxed k o r es)
    (hsink : SinkUnmarked (diverts es)) : Verdict p boxed o r (diverts es) := by
  cases h with
  | settles h => exact .settled h
  | exhausts hperm hout => exact .givenUp hperm (hout.givenUp hsink)
  | overruns t hperm hout => exact .givenUp hperm (hout.givenUp hsink).of_budgetErr
  | cancels t c hperm hout => exact .givenUp hperm ((hout.givenUp hsink).join c)

theorem Loops.verdict {r : Outcome (Option Err)} (h : Loops p boxed deadline n k (some r) es)
    (hsink : SinkUnmarked (diverts es)) :
    ∃ earlier last, attempts es = earlier ++ [last] ∧ (∀ o ∈ earlier, Transient o) ∧
      Verdict p boxed last r (diverts es) := by
  generalize hr : some r = r' at h
  induction h with
  | spent k => cases hr
  | @ends n k o r' es h =>
      cases hr
      exact ⟨[], o, h.attempts_eq, List.forall_mem_nil _, h.verdict hsink⟩
  | @retries n k t e r' es hperm hmax ht hrest ih =>
      obtain ⟨earlier, last, hes, hearlier, hverdict⟩ := ih hsink hr
      refine ⟨.returned (some e) :: earlier, last, congrArg (_ :: ·) hes, ?_, hverdict⟩
      exact List.forall_mem_cons.mpr ⟨⟨e, rfl, hperm⟩, hearlier⟩

/-- What a send with retries returned, against what its attempts returned, how long it waited
and what it diverted. -/
structure RetryLaw (p : Producer P T) (boxed : Message P) (r : Outcome (Option Err))
    (os : List (Outcome (Option Err))) (ws : List ℤ) (ds : List (Divert P)) : Prop where
  attempts_le_max : 0 < p.retry.maxAttempts → os.length ≤ p.retry.maxAttempts
  attempts_le_budget : os.length ≤ 1 + p.retryBudget / minRetryDelay
  waits_le_budget : ws.sum ≤ p.retryBudget
  nil_iff : r = .returned none ↔ .returned none ∈ os
  nil_undiverted : r = .returned none → ds = []
  permanent : ∀ e, .returned (some e) ∈ os → isPermanent (some e) = true →
    r = .returned (some e) ∧ ds = []
  unwound : ∀ x, .panicked x ∈ os → r = .panicked x ∧ ds = []
  givenUp : (∀ o ∈ os, Transient o) → ∃ last out, os.getLast? = some (.returned (some last)) ∧
    r = .returned (some out) ∧ GivenUp p boxed last out ds

theorem emits_sendRetrying (p : Producer P T) (boxed : Message P) (n : ℕ) :
    Emits tells (fun r es => ∃ t es', es = ⟨.now, t⟩ :: es' ∧
      Loops p boxed (t + p.retryBudget) n 1 r es') (p.sendRetrying n boxed) := by
  rw [sendRetrying, emits_performSend_bind rfl]
  intro t
  refine (p.emits_sendAttempts boxed _ n 1).mono fun r es hloop => ?_
  exact ⟨t, es, rfl, hloop⟩

theorem Loops.length_waits_le {t : ℤ} (h : Loops p boxed (t + p.retryBudget) n k r es)
    (hbudget : 0 < p.retryBudget) (hclock : AdvancesFrom t (ticks es)) :
    (waits es).sum ≤ p.retryBudget ∧ (waits es).length ≤ p.retryBudget / minRetryDelay := by
  have hsum : (waits es).sum ≤ p.retryBudget := by
    rcases h.sum_waits_le hclock with hnil | hle
    · rw [hnil, List.sum_nil]
      exact hbudget.le
    · omega
  refine ⟨hsum, ?_⟩
  rw [Int.le_ediv_iff_mul_le (by decide)]
  exact h.mul_minRetryDelay_le.trans hsum

theorem Loops.law {t : ℤ} {r : Outcome (Option Err)}
    (h : Loops p boxed (t + p.retryBudget) n 1 (some r) es) (hbudget : 0 < p.retryBudget)
    (hclock : AdvancesFrom t (ticks es)) (hsink : SinkUnmarked (diverts es)) :
    RetryLaw p boxed r (attempts es) (waits es) (diverts es) := by
  obtain ⟨hsum, hlength⟩ := h.length_waits_le hbudget hclock
  obtain ⟨earlier, last, hes, hearlier, hverdict⟩ := h.verdict hsink
  have hattempts : (attempts es).length = (waits es).length + 1 := h.length_attempts
  generalize diverts es = ds at hverdict
  have hsettled : ∀ o ∈ attempts es, ¬ Transient o → r = o ∧ ds = [] := by
    intro o ho hnot
    rw [hes, List.mem_append, List.mem_singleton] at ho
    rcases ho with ho | rfl
    · exact absurd (hearlier o ho) hnot
    · cases hverdict with
      | settled h => exact ⟨rfl, rfl⟩
      | givenUp hperm hout => exact absurd ⟨_, rfl, hperm⟩ hnot
  have hlast : last ∈ attempts es := by
    rw [hes]
    exact List.mem_append_right _ List.mem_cons_self
  have hnil : r = .returned none → .returned none ∈ attempts es := by
    rintro rfl
    cases hverdict with
    | settled h => exact hlast
  refine ⟨?_, ?_, hsum, ⟨hnil, fun ho => (hsettled _ ho not_transient_nil).1⟩, ?_, ?_, ?_, ?_⟩
  · intro hmax
    have hle := h.attempts_le hmax hmax
    omega
  · omega
  · exact fun hr => (hsettled _ (hnil hr) not_transient_nil).2
  · exact fun e he hperm => hsettled _ he (not_transient_permanent hperm)
  · exact fun x hx => hsettled _ hx (not_transient_panicked x)
  · intro hall
    cases hverdict with
    | settled h => exact absurd (hall _ hlast) h
    | @givenUp last out ds hperm hout =>
        exact ⟨last, out, by rw [hes, List.getLast?_concat], rfl, hout⟩

theorem filterMap_filter_tells {f : SendEvent P T → Option α}
    (hf : ∀ e, tells e.1 = false → f e = none) (es : List (SendEvent P T)) :
    (es.filter fun e => tells e.1).filterMap f = es.filterMap f := by
  rw [List.filterMap_filter]
  congr 1
  funext e
  cases he : tells e.1 with
  | true => rfl
  | false => exact (hf e he).symm

theorem attempts_filter_tells (es : List (SendEvent P T)) :
    attempts (es.filter fun e => tells e.1) = attempts es := by
  refine filterMap_filter_tells ?_ es
  rintro ⟨q, o⟩ hq
  cases q <;> first | rfl | cases hq

theorem waits_filter_tells (es : List (SendEvent P T)) :
    waits (es.filter fun e => tells e.1) = waits es := by
  refine filterMap_filter_tells ?_ es
  rintro ⟨q, o⟩ hq
  cases q <;> first | rfl | cases hq

theorem diverts_filter_tells (es : List (SendEvent P T)) :
    diverts (es.filter fun e => tells e.1) = diverts es := by
  refine filterMap_filter_tells ?_ es
  rintro ⟨q, o⟩ hq
  cases q <;> first | rfl | cases hq

theorem ticks_filter_tells (es : List (SendEvent P T)) :
    ticks (es.filter fun e => tells e.1) = ticks es := by
  refine filterMap_filter_tells ?_ es
  rintro ⟨q, o⟩ hq
  cases q <;> first | rfl | cases hq

/-- Whatever the adapter, the sink, the hooks and the context do, a send with retries ends and
keeps the law. -/
theorem sendRetrying_law (p : Producer P T) (boxed : Message P) (env : SendEnvironment P T)
    (fuel : ℕ) (hbudget : 0 < p.retryBudget) (hfuel : p.retryBudget / minRetryDelay < fuel)
    (hclock : ClockAdvances (ticks ((p.sendRetrying fuel boxed).trace env)))
    (hsink : SinkUnmarked (diverts ((p.sendRetrying fuel boxed).trace env))) :
    ∃ r, ((p.sendRetrying fuel boxed).exec env []).1 = some r ∧
      RetryLaw p boxed r (attempts ((p.sendRetrying fuel boxed).trace env))
        (waits ((p.sendRetrying fuel boxed).trace env))
        (diverts ((p.sendRetrying fuel boxed).trace env)) := by
  obtain ⟨t, es, hes, hloop⟩ := (p.emits_sendRetrying boxed fuel).trace env
  rw [← ticks_filter_tells, hes] at hclock
  rw [← diverts_filter_tells, hes] at hsink
  rw [← attempts_filter_tells, ← waits_filter_tells, ← diverts_filter_tells, hes]
  obtain ⟨low, hlow, hclock⟩ : ∃ low, low ≤ t ∧ AdvancesFrom t (ticks es) := hclock
  cases hr : ((p.sendRetrying fuel boxed).exec env []).1 with
  | none =>
      rw [hr] at hloop
      have hlength := (hloop.length_waits_le hbudget hclock).2
      rw [hloop.length_waits rfl] at hlength
      omega
  | some r =>
      rw [hr] at hloop
      exact ⟨r, rfl, hloop.law hbudget hclock hsink⟩

/-- An adapter that answers `first` until a wait has passed and then succeeds, and a sink that
answers `sink`. The clock moves by the waits alone. -/
def scriptedSend (first sink : Option Err) : SendEnvironment Unit Unit
  | _, .encode _ => .returned (.inl [])
  | es, .now => (waits es).sum
  | es, .send _ => if (waits es).isEmpty then .returned first else .returned none
  | _, .wait _ => none
  | _, .deadLetter _ _ _ => .returned sink
  | _, .fire _ _ _ => .returned ()
  | _, .log _ _ _ => ()

theorem sendRetrying_law_recovers :
    ∃ r, ((plainProducer.sendRetrying 1201 blankMessage).exec
        (scriptedSend (some (.new "unavailable")) none) []).1 = some r ∧
      RetryLaw plainProducer blankMessage r
        (attempts ((plainProducer.sendRetrying 1201 blankMessage).trace
          (scriptedSend (some (.new "unavailable")) none)))
        (waits ((plainProducer.sendRetrying 1201 blankMessage).trace
          (scriptedSend (some (.new "unavailable")) none)))
        (diverts ((plainProducer.sendRetrying 1201 blankMessage).trace
          (scriptedSend (some (.new "unavailable")) none))) := by
  have hticks : ticks ((plainProducer.sendRetrying 1201 blankMessage).trace
      (scriptedSend (some (.new "unavailable")) none)) =
      [.read 0, .read 0, .waited minRetryDelay] := rfl
  have hdiverts : diverts ((plainProducer.sendRetrying 1201 blankMessage).trace
      (scriptedSend (some (.new "unavailable")) none)) = [] := rfl
  refine sendRetrying_law plainProducer blankMessage _ 1201 (by decide) (by decide) ?_ ?_
  · rw [hticks]
    exact ⟨0, le_rfl, le_rfl, trivial⟩
  · rw [hdiverts]
    exact List.forall_mem_nil _

def onceProducer : Producer Unit Unit where
  liveValue := true
  anyValue := id
  anyBytes := fun _ => ()
  retry := ⟨1, none, some 0⟩
  retrySet := true
  retryAfterCap := 60000000000
  retryBudget := 120000000000
  deadLetterTimeout := 30000000000
  hooks := fun _ => false

/-- The adapter is itself a producer that diverted the message, and the sink is down: the result
matches `ErrDeadLettered` although the divert failed. -/
theorem sendRetrying_nested :
    ∃ tr, tr = (onceProducer.sendRetrying 1201 blankMessage).trace
        (scriptedSend (some (.sentinel .errDeadLettered)) (some (.new "down"))) ∧
      ClockAdvances (ticks tr) ∧ SinkUnmarked (diverts tr) ∧
      (diverts tr).map Divert.outcome = [.returned (some (.new "down"))] ∧
      ((onceProducer.sendRetrying 1201 blankMessage).exec
        (scriptedSend (some (.sentinel .errDeadLettered)) (some (.new "down"))) []).1 =
        some (.returned (some (.join (.sentinel .errDeadLettered) (.new "down")))) ∧
      (Err.join (.sentinel .errDeadLettered) (.new "down")).is .errDeadLettered = true := by
  refine ⟨_, rfl, ⟨0, le_rfl, trivial⟩, ?_, rfl, rfl, rfl⟩
  intro d hd e he
  cases List.mem_singleton.mp hd
  cases he
  rfl

end Producer

end Msgin
