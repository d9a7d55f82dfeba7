import Msgin.QueueInvariant

/-!
# Whole runs of the queue store

Under every interleaving the tokens of the semaphore are the occupied places, every message is in
one place, and a claim is settled once.
-/

namespace Msgin.Memory

variable {P : Type} {cap : ℕ} {s s' : QueueState P cap} {l : QueueLabel P}

theorem QueueInv.exists_receive (h : QueueInv s) {t : ℕ}
    (found : s.calls.lookup t = some .receiving) : ∃ s', s.step (.receive t) = some s' := by
  have hslots : slots s.calls = slots (s.calls.erase t) + 1 := slots_erase found
  have hpos : 0 < s.store.sem.buffer.length := by
    rw [h.counted]
    omega
  obtain ⟨v, sem, hreceived⟩ := Chan.exists_receive hpos
  refine ⟨{ s with store.sem := sem }.finish t, ?_⟩
  simp only [QueueState.step, found, hreceived]

theorem QueueInv.within (h : QueueInv s) :
    s.store.ready.length + s.store.inflight.entries.length ≤ cap := by
  have hcounted := h.counted
  have hwithin := s.store.sem.within
  omega

theorem QueueInv.count_place (h : QueueInv s) {n : ℕ} (hn : n < s.store.arrived) :
    s.places.count n = 1 := by
  rw [h.conserved.count_eq]
  exact List.count_eq_one_of_mem List.nodup_range (List.mem_range.mpr hn)

theorem queueInv_run {overflow : OverflowPolicy} {ls : List (QueueLabel P)}
    (hrun : TransitionRuns.run QueueState.step (.initial P cap overflow) ls = some s) :
    QueueInv s := by
  refine TransitionRuns.run_invariant QueueState.step ?_ (queueInv_initial overflow) hrun
  intro s l s' h hstep
  exact h.step (queueStep_of_step hstep)

def QueueLabel.mayDrop : QueueLabel P → Bool
  | shed _ _ => true
  | nack _ _ requeue _ _ => !requeue
  | enqueue _ _ | cancel _ | append _ _ | claim _ _ | ack _ _ | receive _ => false

structure QueueStepLaw (s : QueueState P cap) (l : QueueLabel P) (s' : QueueState P cap) :
    Prop where
  drops : l.mayDrop = false → s'.dropped = s.dropped
  first : ∀ epoch, 0 < epoch → epoch ∉ s.called → l.settles = some epoch →
    ∃ e, s.store.inflight.lookup epoch = some e ∧
      s'.store.inflight = s.store.inflight.erase epoch
  later : ∀ epoch ∈ s.called, l.settles = some epoch →
    s'.store = s.store ∧ s'.calls = s.calls ∧ s'.settled = s.settled ∧ s'.dropped = s.dropped
  claims : ∀ max now, l = .claim max now →
    Claims max now s.store (s.store.claim max now).1 s'.store

theorem dropped_of_step (hstep : QueueStep s l s') (hl : l.mayDrop = false) :
    s'.dropped = s.dropped := by
  cases hstep with
  | sheds t now msg found => cases hl
  | drops t epoch delay now e free given found => cases hl
  | acquires | refuses | cancels | appends | claims | misses | acks | requeues | receives => rfl

theorem settlement_of_step (hstep : QueueStep s l s') {epoch : ℕ}
    (hl : l.settles = some epoch) :
    epoch ≤ s.store.epoch ∧
    ((∃ e, s.store.inflight.lookup epoch = some e ∧
      s'.store.inflight = s.store.inflight.erase epoch) ∨
    (s.store.inflight.lookup epoch = none ∧ s' = { s with called := epoch :: s.called })) := by
  cases hstep with
  | misses k settles given missed =>
      obtain rfl : k = epoch := Option.some.inj (settles.symm.trans hl)
      exact ⟨given, .inr ⟨missed, rfl⟩⟩
  | acks t k e free given found =>
      cases hl
      exact ⟨given, .inl ⟨e, found, rfl⟩⟩
  | requeues t k delay now e given found =>
      cases hl
      exact ⟨given, .inl ⟨e, found, rfl⟩⟩
  | drops t k delay now e free given found =>
      cases hl
      exact ⟨given, .inl ⟨e, found, rfl⟩⟩
  | acquires | refuses | cancels | appends | sheds | claims | receives => cases hl

theorem QueueInv.stepLaw (h : QueueInv s) (hstep : s.step l = some s') : QueueStepLaw s l s' := by
  have hcases := queueStep_of_step hstep
  refine ⟨dropped_of_step hcases, ?_, ?_, ?_⟩
  · intro epoch hpos hcalled hl
    obtain ⟨hgiven, hfound | ⟨hmissed, -⟩⟩ := settlement_of_step hcases hl
    · exact hfound
    · have hlive := h.epochs.live epoch hpos hgiven hcalled
      rw [hmissed] at hlive
      cases hlive
  · intro epoch hcalled hl
    obtain ⟨-, ⟨e, hfound, -⟩ | ⟨-, rfl⟩⟩ := settlement_of_step hcases hl
    · rw [(h.epochs.fenced epoch hcalled).1] at hfound
      cases hfound
    · exact ⟨rfl, rfl, rfl, rfl⟩
  · rintro max now rfl
    cases hstep
    exact claims_claim h.epochs.given max now

theorem queueStore_law (overflow : OverflowPolicy) (ls : List (QueueLabel P))
    (hrun : TransitionRuns.run QueueState.step (.initial P cap overflow) ls = some s) :
    (s.store.sem.buffer.length =
        s.store.ready.length + s.store.inflight.entries.length + slots s.calls ∧
      s.store.ready.length + s.store.inflight.entries.length ≤ cap ∧
      (∀ t, s.calls.lookup t = some .receiving → ∃ s', s.step (.receive t) = some s') ∧
      ∀ n < s.store.arrived, s.places.count n = 1) ∧
    ∀ l s', s.step l = some s' → QueueStepLaw s l s' := by
  have h := queueInv_run hrun
  refine ⟨⟨h.counted, h.within, ?_, ?_⟩, ?_⟩
  · intro t found
    exact h.exists_receive found
  · intro n hn
    exact h.count_place hn
  · intro l s' hstep
    exact h.stepLaw hstep

/-- One entry evicted, one claimed and requeued, one acked and its slot still held. -/
def queueLabels : List (QueueLabel Unit) :=
  [.enqueue 0 blankMessage, .enqueue 1 blankMessage, .append 1 0, .append 0 0,
    .enqueue 0 blankMessage, .shed 0 1, .claim 2 1, .nack 0 1 true 5 1, .ack 0 2, .ack 1 2]

theorem queueStore_law_labels :
    ∃ s, TransitionRuns.run QueueState.step (.initial Unit 2 .overflowDropOldest) queueLabels =
        some s ∧
      (s.store.sem.buffer.length =
          s.store.ready.length + s.store.inflight.entries.length + slots s.calls ∧
        s.store.ready.length + s.store.inflight.entries.length ≤ 2 ∧
        (∀ t, s.calls.lookup t = some .receiving → ∃ s', s.step (.receive t) = some s') ∧
        ∀ n < s.store.arrived, s.places.count n = 1) ∧
      ∀ l s', s.step l = some s' → QueueStepLaw s l s' := by
  obtain ⟨s, hs⟩ : ∃ s, TransitionRuns.run QueueState.step
      (.initial Unit 2 .overflowDropOldest) queueLabels = some s := ⟨_, rfl⟩
  exact ⟨s, hs, queueStore_law _ _ hs⟩

end Msgin.Memory
