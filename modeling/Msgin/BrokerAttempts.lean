import Msgin.MemoryBroker

/-!
# The first dead-letter of a message

Over the in-memory broker a message that carries an int delivery-count header is judged by
that header at every dispatch, since it is redelivered unchanged. Every other message is
counted by the tracker under its id, and the count is its own as long as no other message
of the set bears the same id.
-/

namespace Msgin

open Interaction Prog TransitionRuns

variable {P T : Type} {c : BrokerConsumer P T} {msgs : List (Message P)} {s s' : BrokerState}
  {l : BrokerDispatch P T}

/-- The state after the dispatch of message `i` with the calls `es`. -/
structure Dispatches (c : BrokerConsumer P T) (s : BrokerState) (i : ℕ) (now : ℤ)
    (es : List (Event P T)) (s' : BrokerState) : Prop where
  tracker : s'.tracker = s.tracker.after now es
  queued : s'.queued = Function.update s.queued i (es.any isRequeue)
  dispatched : s'.dispatched = Function.update s.dispatched i (s.dispatched i + 1)
  firstSent : s'.firstSent = Function.update s.firstSent i ((s.firstSent i).or
    (if es.any (isSendTo c.sink) then some (s.dispatched i + 1) else none))

theorem brokerStep_dispatches (hstep : brokerStep c msgs s l = some s') :
    ∃ m es, msgs[l.message]? = some m ∧ s.queued l.message = true ∧
      DispatchOutcome c m s.tracker l.now es ∧ Dispatches c s l.message l.now es s' := by
  simp only [brokerStep] at hstep
  split at hstep
  · simp at hstep
  · next m hm =>
      split at hstep
      · next hguard =>
          obtain ⟨hqueued, hfails⟩ := hguard
          simp only [failsTransiently] at hfails
          split at hfails
          · simp at hfails
          · next v hv =>
              split at hfails
              · simp at hfails
              · next err herr =>
                  obtain ⟨es, htrace, hsettled⟩ := trace_dispatch c.toConsumer
                    ⟨s.delivered, m, true⟩ (brokerAnswer s.tracker l.now l.answer)
                    c.emitsLiveValue hv rfl herr (by simpa using hfails)
                  have hout := hsettled.outcome htrace
                  rw [← htrace] at hout
                  obtain rfl := Option.some.inj hstep
                  exact ⟨m, _, hm, hqueued, hout, rfl, rfl, rfl, rfl⟩
      · simp at hstep

/-- The first dispatch at which a message with this header is sent. -/
def SentByHeader (c : BrokerConsumer P T) (i : ℕ) (h : ℤ) (s : BrokerState) : Prop :=
  s.firstSent i = if s.dispatched i = 0 ∨ h < c.policy.maxAttempts then none else some 1

theorem sentByHeader_step {i : ℕ} {m : Message P} {h : ℤ} (hi : msgs[i]? = some m)
    (hh : m.headers.int headerDeliveryCount = some h) (hinv : SentByHeader c i h s)
    (hstep : brokerStep c msgs s l = some s') : SentByHeader c i h s' := by
  obtain ⟨m', es, hm', -, hout, hd⟩ := brokerStep_dispatches hstep
  unfold SentByHeader at hinv ⊢
  rw [hd.firstSent, hd.dispatched]
  by_cases hli : l.message = i
  · subst hli
    obtain rfl : m' = m := by simpa [hi] using hm'.symm
    have hsent := hout.sent
    have hattempt : attemptNumber s.tracker m' = h := by simp [attemptNumber, hh]
    rw [hattempt] at hsent
    simp only [Function.update_self, hinv]
    by_cases hlt : h < c.policy.maxAttempts
    · have hno : ¬ es.any (isSendTo c.sink) = true := by
        rw [hsent]
        omega
      simp [hlt, hno]
    · have hyes : es.any (isSendTo c.sink) = true := by
        rw [hsent]
        omega
      by_cases hz : s.dispatched l.message = 0 <;> simp [hlt, hyes, hz]
  · simp only [Function.update_of_ne (Ne.symm hli)]
    exact hinv

/-- The tracker counts the dispatches of a message while it is in the broker. -/
structure SentByTracker (c : BrokerConsumer P T) (i : ℕ) (id : String) (s : BrokerState) :
    Prop where
  counted : s.queued i = true → s.tracker.count id = s.dispatched i
  first : s.firstSent i = if (s.dispatched i : ℤ) < c.policy.maxAttempts then none
    else some c.policy.maxAttempts.toNat

theorem sentByTracker_step {i : ℕ} {m : Message P} (hi : msgs[i]? = some m)
    (hh : m.headers.int headerDeliveryCount = none)
    (hid : ∀ j m', j ≠ i → msgs[j]? = some m' → m'.id ≠ m.id)
    (hinv : SentByTracker c i m.id s) (hstep : brokerStep c msgs s l = some s') :
    SentByTracker c i m.id s' := by
  obtain ⟨m', es, hm', hqueued, hout, hd⟩ := brokerStep_dispatches hstep
  by_cases hli : l.message = i
  · subst hli
    obtain rfl : m' = m := by simpa [hi] using hm'.symm
    have hcount := hinv.counted hqueued
    have hsent := hout.sent
    have hattempt : attemptNumber s.tracker m' = (s.dispatched l.message + 1 : ℕ) := by
      simp [attemptNumber, hh, hcount]
    rw [hattempt] at hsent
    constructor
    · intro hq
      rw [hd.queued, Function.update_self] at hq
      rw [hd.tracker, hd.dispatched, Function.update_self, hout.counted hh hq, hcount]
    · rw [hd.firstSent, hd.dispatched]
      simp only [Function.update_self, hinv.first, hsent]
      by_cases hlt : (s.dispatched l.message : ℤ) < c.policy.maxAttempts
      · rw [if_pos hlt, Option.none_or]
        by_cases hk : c.policy.maxAttempts ≤ ((s.dispatched l.message + 1 : ℕ) : ℤ)
        · have hnot : ¬ ((s.dispatched l.message + 1 : ℕ) : ℤ) < c.policy.maxAttempts := by omega
          have heq : s.dispatched l.message + 1 = c.policy.maxAttempts.toNat := by omega
          rw [if_pos hk, if_neg hnot, heq]
        · rw [if_neg hk, if_pos (by omega)]
      · rw [if_neg hlt, Option.some_or, if_neg (by omega)]
  · have hne := hid l.message m' hli hm'
    have hil : i ≠ l.message := Ne.symm hli
    constructor
    · intro hq
      rw [hd.queued, Function.update_of_ne hil] at hq
      rw [hd.tracker, hd.dispatched, Function.update_of_ne hil, hout.others m.id hne.symm]
      exact hinv.counted hq
    · rw [hd.firstSent, hd.dispatched, Function.update_of_ne hil, Function.update_of_ne hil]
      exact hinv.first

/-- In every run, a message with an int delivery-count header is sent at its first dispatch
or never, by that header; any other message whose id no other message bears is first sent
at the dispatch whose number is `MaxAttempts`. -/
theorem run_firstSent (c : BrokerConsumer P T) (msgs : List (Message P))
    (ls : List (BrokerDispatch P T)) (s : BrokerState)
    (hrun : run (brokerStep c msgs) .initial ls = some s) (i : ℕ) (m : Message P)
    (hi : msgs[i]? = some m) :
    (∀ h, m.headers.int headerDeliveryCount = some h → s.firstSent i =
      if s.dispatched i = 0 ∨ h < c.policy.maxAttempts then none else some 1) ∧
    (m.headers.int headerDeliveryCount = none →
      (∀ j m', j ≠ i → msgs[j]? = some m' → m'.id ≠ m.id) → s.firstSent i =
      if (s.dispatched i : ℤ) < c.policy.maxAttempts then none
      else some c.policy.maxAttempts.toNat) := by
  constructor
  · intro h hh
    apply run_invariant (brokerStep c msgs) (I := SentByHeader c i h) _ _ hrun
    · intro s l s' hinv hstep
      exact sentByHeader_step hi hh hinv hstep
    · simp [SentByHeader, BrokerState.initial]
  · intro hh hid
    have hpos := c.attempts_pos
    have hinv : SentByTracker c i m.id s := by
      apply run_invariant (brokerStep c msgs) (I := SentByTracker c i m.id) _ _ hrun
      · intro s l s' hinv hstep
        exact sentByTracker_step hi hh hid hinv hstep
      · constructor
        · intro _
          rfl
        · have hlt : (0 : ℤ) < c.policy.maxAttempts := by omega
          simp [BrokerState.initial, hlt]
    exact hinv.first

def twoAttempts : BrokerConsumer Unit Unit where
  toConsumer := { pairConsumer with policy := ⟨2, none, some 0⟩ }
  sink := 0
  emitsLiveValue := rfl
  attempts_pos := by decide
  deadLetter_eq := rfl
  noNativeReliability := rfl

def messageWithCount (n : ℤ) : Message Unit :=
  blankMessage.withHeader headerDeliveryCount (.int n)

theorem run_firstSent_twoAttempts :
    ∃ s, run (brokerStep twoAttempts [messageWithID "a", messageWithCount 3]) .initial
        [⟨0, 0, failingHandler⟩, ⟨1, 1, failingHandler⟩, ⟨0, 2, failingHandler⟩] = some s ∧
      s.firstSent 0 = some 2 ∧ s.firstSent 1 = some 1 := by
  obtain ⟨s, hrun, h0, h1⟩ : ∃ s, run
      (brokerStep twoAttempts [messageWithID "a", messageWithCount 3]) .initial
        [⟨0, 0, failingHandler⟩, ⟨1, 1, failingHandler⟩, ⟨0, 2, failingHandler⟩] = some s ∧
      s.dispatched 0 = 2 ∧ s.dispatched 1 = 1 := ⟨_, rfl, rfl, rfl⟩
  have hids : ∀ j m', j ≠ 0 → [messageWithID "a", messageWithCount 3][j]? = some m' →
      m'.id ≠ (messageWithID "a").id := by
    intro j m' hj hm'
    match j with
    | 0 => exact absurd rfl hj
    | 1 =>
        obtain rfl : messageWithCount 3 = m' := Option.some.inj hm'
        decide
    | j + 2 => simp at hm'
  have hfirst := (run_firstSent twoAttempts _ _ s hrun 0 (messageWithID "a") rfl).2 rfl hids
  have hsecond := (run_firstSent twoAttempts _ _ s hrun 1 (messageWithCount 3) rfl).1 3 rfl
  refine ⟨s, hrun, ?_, ?_⟩
  · rw [hfirst, h0]
    rfl
  · rw [hsecond, h1]
    rfl

/-- With two attempts, a message that arrives with the count 3 is sent at its first dispatch,
one that arrives with the count 1 is not sent at its second, and of two messages without an
id the second is sent at its first dispatch. -/
theorem firstSent_before_and_after_maxAttempts :
    (∃ s, run (brokerStep twoAttempts [messageWithCount 3]) .initial
        [⟨0, 0, failingHandler⟩] = some s ∧ s.firstSent 0 = some 1) ∧
      (∃ s, run (brokerStep twoAttempts [messageWithCount 1]) .initial
        [⟨0, 0, failingHandler⟩, ⟨0, 1, failingHandler⟩] = some s ∧
        s.dispatched 0 = 2 ∧ s.firstSent 0 = none) ∧
      ∃ s, run (brokerStep twoAttempts [blankMessage, blankMessage]) .initial
        [⟨0, 0, failingHandler⟩, ⟨1, 1, failingHandler⟩] = some s ∧
        s.dispatched 1 = 1 ∧ s.firstSent 1 = some 1 :=
  ⟨⟨_, rfl, rfl⟩, ⟨_, rfl, rfl, rfl⟩, ⟨_, rfl, rfl, rfl⟩⟩

end Msgin
