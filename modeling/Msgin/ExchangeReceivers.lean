import Msgin.ExchangeSteps

/-!
# The steps of receivers and of `Close`

The receiver's half of the rendezvous, the closing of the correlator, and the invariant over
all steps of a run.
-/

namespace Msgin

open Interaction Prog Rendezvous

variable {P : Type} {sink : Bool} {s s' : ExchangeState P} {ph : Phases P} {n : ℕ}
  {choice : ExchangeChoice} {p₀ : ReceiverPhase P}

namespace Phased

variable {corr : ReplyCorrelator P} {msg : Message P} (h : Phased sink s ph)

include h

theorem answerReceiver (hp : ph.receivers n = p₀) {q : ExchangeCall P}
    {k : q.Answer → ExchangeRoutine P Unit} {a : q.Answer} (hask : p₀.code sink n = some (.ask q k))
    (hserve : s.corr.serve choice q = .answered a corr)
    (hstep : s.step sink (.receive n choice) = some s') :
    s' = { s with
      corr
      unmatched := q.routed.toList ++ s.unmatched
      receivers := Function.update s.receivers n (some (k a)) } := by
  have hn : s.receivers n = some (.ask q k) := by rw [h.receivers, hp, hask]
  simpa [ExchangeState.step, hn, advance_answered hserve] using hstep.symm

theorem not_step_of_done (hp : ph.receivers n = p₀) (hret : p₀.code sink n = some (.ret ())) :
    s.step sink (.receive n choice) ≠ some s' := by
  have hn : s.receivers n = some (.ret ()) := by rw [h.receivers, hp, hret]
  simp [ExchangeState.step, hn, ExchangeState.advance]

theorem setReceiver (hp : ph.receivers n = p₀) (p : ReceiverPhase P) {unmatched : List ℕ}
    (hmsg : p.message = p₀.message)
    (hinv : Inv Message.correlationID ((ph.setReceiver n p).board corr))
    (hunmatched : ∀ m, m ∈ unmatched ↔ (ph.setReceiver n p).Routed m) (hnodup : unmatched.Nodup) :
    Phased sink
      { s with corr, unmatched, receivers := Function.update s.receivers n (p.code sink n) }
      (ph.setReceiver n p) where
  calls := h.calls
  requests := h.requests
  receivers m := by
    by_cases hm : m = n
    · subst hm
      simp [Phases.setReceiver]
    · simp [Phases.setReceiver, hm, h.receivers m]
  handed m := by
    by_cases hm : m = n
    · subst hm
      simp [Phases.setReceiver, hmsg, h.handed m, hp]
    · simp [Phases.setReceiver, hm, h.handed m]
  closers := h.closers
  inv := hinv
  unmatched := hunmatched
  nodup := hnodup
  calm := h.calm

theorem moveReceiver (hp : ph.receivers n = p₀) (p : ReceiverPhase P)
    (hmsg : p.message = p₀.message) (hrouted : p.isRouted = p₀.isRouted)
    (hinv : Inv Message.correlationID ((ph.setReceiver n p).board corr)) :
    Phased sink { s with corr, receivers := Function.update s.receivers n (p.code sink n) }
      (ph.setReceiver n p) :=
  h.setReceiver hp p hmsg hinv
    (fun m => (h.unmatched m).trans (Phases.routed_setReceiver_of_eq ph (hp ▸ hrouted)).symm) h.nodup

theorem keepReceiver (hp : ph.receivers n = p₀) (p : ReceiverPhase P)
    (hmsg : p.message = p₀.message) (hrouted : p.isRouted = p₀.isRouted)
    (hview : p.view = p₀.view) :
    Phased sink { s with receivers := Function.update s.receivers n (p.code sink n) }
      (ph.setReceiver n p) := by
  apply h.moveReceiver hp p hmsg hrouted
  rw [Phases.board_setReceiver_of_view (hp ▸ hview)]
  exact h.inv

theorem routeReceiver (hp : ph.receivers n = p₀) (p : ReceiverPhase P)
    (hmsg : p.message = p₀.message) (hold : p₀.isRouted = false) (haway : p₀.view = .away)
    (hview : p.view = .away) (hnew : p.isRouted = true) :
    Phased sink
      { s with
        unmatched := n :: s.unmatched
        receivers := Function.update s.receivers n (p.code sink n) }
      (ph.setReceiver n p) := by
  subst hp
  have hfresh : n ∉ s.unmatched := by
    rw [h.unmatched]
    rintro (hrec | ⟨d, hd⟩)
    · simp [hold] at hrec
    · obtain ⟨id, slot, v, hd'⟩ := CallPhase.view_of_routedReply hd
      have hfrom : (ph.receivers n).view = .delivered slot v := (h.inv.taken d _ _ _ _ hd').2
      simp [haway] at hfrom
  apply h.setReceiver rfl p hmsg
  · rw [Phases.board_setReceiver_of_view (hview.trans haway.symm)]
    exact h.inv
  · intro m
    rw [Phases.routed_setReceiver ph hold, List.mem_cons, h.unmatched]
    simp [hnew]
  · exact List.nodup_cons.mpr ⟨hfresh, h.nodup⟩

theorem delivering (hp : ph.receivers n = .delivering msg)
    (hstep : s.step sink (.receive n choice) = some s') : ∃ ph', Phased sink s' ph' := by
  cases hslot : s.corr.waiters.lookup msg.correlationID with
  | none =>
      obtain rfl := h.answerReceiver hp rfl
        (by simp only [ReplyCorrelator.serve, ReplyCorrelator.remove, hslot]; rfl) hstep
      exact ⟨_, h.keepReceiver hp (.routing msg) rfl rfl rfl⟩
  | some slot =>
      obtain rfl := h.answerReceiver hp rfl
        (by simp only [ReplyCorrelator.serve, ReplyCorrelator.remove, hslot]; rfl) hstep
      refine ⟨_, h.moveReceiver hp (.committed slot msg) rfl rfl ?_⟩
      have haway : (ph.board s.corr).deliverer n = .away := by
        simp [Phases.board, hp, ReceiverPhase.view]
      rw [Phases.board_setReceiver]
      simpa [Phases.board, KeyedMaps.lookup_erase_eq, ReceiverPhase.view] using
        h.inv.commit (v := msg) haway hslot

theorem committed {slot : ℕ} (hp : ph.receivers n = .committed slot msg)
    (hstep : s.step sink (.receive n choice) = some s') : ∃ ph', Phased sink s' ph' := by
  have hcommitted : (ph.board s.corr).deliverer n = .committed slot msg := by
    simp [Phases.board, hp, ReceiverPhase.view]
  have hsend : (s.corr.slots slot).send (n, msg) = .sent (.full (n, msg)) :=
    h.inv.send_committed hcommitted
  obtain rfl := h.answerReceiver hp rfl (by simp only [ReplyCorrelator.serve, hsend]; rfl) hstep
  refine ⟨_, h.moveReceiver hp (.delivered slot msg) rfl rfl ?_⟩
  rw [Phases.board_setReceiver]
  exact h.inv.fill hcommitted

theorem routingReceiver (hp : ph.receivers n = .routing msg)
    (hstep : s.step sink (.receive n choice) = some s') : ∃ ph', Phased sink s' ph' := by
  have hrouted := h.routeReceiver hp (.routed msg) rfl rfl rfl rfl rfl
  cases sink with
  | false =>
      obtain rfl := h.answerReceiver hp rfl rfl hstep
      exact ⟨_, hrouted⟩
  | true =>
      obtain rfl := h.answerReceiver hp rfl rfl hstep
      cases choice.sinkErr with
      | none => exact ⟨_, hrouted⟩
      | some err => exact ⟨_, h.routeReceiver hp (.warning msg err) rfl rfl rfl rfl rfl⟩

theorem receive (hstep : s.step sink (.receive n choice) = some s') :
    ∃ ph', Phased sink s' ph' := by
  cases hp : ph.receivers n with
  | absent =>
      have hn : s.receivers n = none := by rw [h.receivers, hp]; rfl
      simp [ExchangeState.step, hn] at hstep
  | delivering msg => exact h.delivering hp hstep
  | committed slot msg => exact h.committed hp hstep
  | delivered slot msg => exact absurd hstep (h.not_step_of_done hp rfl)
  | routing msg => exact h.routingReceiver hp hstep
  | warning msg err =>
      obtain rfl := h.answerReceiver hp rfl rfl hstep
      exact ⟨_, h.keepReceiver hp (.routed msg) rfl rfl rfl⟩
  | routed msg => exact absurd hstep (h.not_step_of_done hp rfl)

theorem closeAll_eq :
    ∃ corr, s.corr.closeAll = some corr ∧ Inv Message.correlationID (ph.board corr) := by
  by_cases hclosed : s.corr.closed = true
  · exact ⟨s.corr, if_pos hclosed, h.inv⟩
  · have hlisted : ∀ w ∈ s.corr.waiters.entries, (ph.board s.corr).waiter w.1 = some w.2 :=
      fun w hw => AList.mem_lookup_iff.mpr hw
    have hnodup : (s.corr.waiters.entries.map Sigma.snd).Nodup := by
      apply List.Nodup.map_on
      · intro x hx y hy hxy
        have hkey := h.inv.eq_of_listed (hlisted y hy) (hxy ▸ hlisted x hx)
        exact Sigma.ext hkey (heq_of_eq hxy)
      · exact s.corr.waiters.nodupKeys.nodup
    obtain ⟨slots, hslots, hshut, hkept⟩ := ReplyCorrelator.closeSlots_eq _ s.corr.slots
      (fun w hw => h.inv.slot_of_listed (hlisted w hw)) hnodup
    refine ⟨{ s.corr with closed := true, waiters := ∅, slots }, ?_, ?_⟩
    · simp [ReplyCorrelator.closeAll, hclosed, hslots]
    · have hinv : Inv Message.correlationID
          { ph.board s.corr with waiter := fun _ => none, slot := slots } := h.inv.shutAll
        (fun k i hk => hshut ⟨k, i⟩ (AList.mem_lookup_iff.mp hk))
        (fun i hi => hkept i fun w hw hwi => hi w.1 (hwi ▸ hlisted w hw))
      simpa [Phases.board] using hinv

theorem setCloser {p : ExchangeRoutine P Unit}
    (hp : p = closeExchange ∨ p = issue .cancel ∨ p = return ())
    (hinv : Inv Message.correlationID (ph.board corr)) :
    Phased sink { s with corr, closers := Function.update s.closers n (some p) } ph where
  calls := h.calls
  requests := h.requests
  receivers := h.receivers
  handed := h.handed
  closers k p' hk := by
    by_cases hkn : k = n
    · subst hkn
      obtain rfl : p = p' := by simpa using hk
      exact hp
    · exact h.closers k p' (by simpa [hkn] using hk)
  inv := hinv
  unmatched := h.unmatched
  nodup := h.nodup
  calm := h.calm

theorem closing (hstep : s.step sink (.closing n choice) = some s') :
    ∃ ph', Phased sink s' ph' := by
  cases hn : s.closers n with
  | none => simp [ExchangeState.step, hn] at hstep
  | some p =>
      rcases h.closers n p hn with rfl | rfl | rfl
      · obtain ⟨corr, hclose, hinv⟩ := h.closeAll_eq
        have hn' : s.closers n = some (.ask .closeAll fun _ => issue .cancel) := hn
        obtain rfl := step_closing_answered hn'
          (by simp only [ReplyCorrelator.serve, hclose]; rfl) hstep
        exact ⟨_, h.setCloser (Or.inr (Or.inl rfl)) hinv⟩
      · have hn' : s.closers n = some (.ask .cancel fun _ => return ()) := hn
        obtain rfl := step_closing_answered hn' rfl hstep
        exact ⟨_, h.setCloser (Or.inr (Or.inr rfl)) h.inv⟩
      · rw [step_closing_ret hn] at hstep
        exact absurd hstep (by simp)

theorem startCall {c : ℕ} (hc : s.requests c = none) (req : Message P) :
    Phased sink
      { s with
        requests := Function.update s.requests c (some req)
        calls := Function.update s.calls c (some (exchange sink req)) }
      (ph.setCall c (.calling req)) := by
  have habsent : ph.calls c = .absent := by
    rw [h.requests] at hc
    cases hp : ph.calls c <;> simp [hp, CallPhase.request] at hc ⊢
  constructor
  · intro d
    by_cases hd : d = c
    · subst hd
      simp [Phases.setCall, CallPhase.code]
    · simp [Phases.setCall, hd, h.calls d]
  · intro d
    by_cases hd : d = c
    · subst hd
      simp [Phases.setCall, CallPhase.request]
    · simp [Phases.setCall, hd, h.requests d]
  · exact h.receivers
  · exact h.handed
  · exact h.closers
  · rw [Phases.board_setCall_of_view (by rw [habsent]; rfl)]
    exact h.inv
  · intro m
    rw [h.unmatched]
    exact (Phases.routed_setCall_of_eq ph (by rw [habsent]; rfl)).symm
  · exact h.nodup
  · exact h.calm

theorem startReceiver (hn : s.handed n = none) (reply : Message P) :
    Phased sink
      { s with
        handed := Function.update s.handed n (some reply)
        receivers := Function.update s.receivers n (some (receiver sink (n, reply))) }
      (ph.setReceiver n (.delivering reply)) := by
  have habsent : ph.receivers n = .absent := by
    rw [h.handed] at hn
    cases hp : ph.receivers n <;> simp [hp, ReceiverPhase.message] at hn ⊢
  constructor
  · exact h.calls
  · exact h.requests
  · intro m
    by_cases hm : m = n
    · subst hm
      simp [Phases.setReceiver, ReceiverPhase.code]
    · simp [Phases.setReceiver, hm, h.receivers m]
  · intro m
    by_cases hm : m = n
    · subst hm
      simp [Phases.setReceiver, ReceiverPhase.message]
    · simp [Phases.setReceiver, hm, h.handed m]
  · exact h.closers
  · rw [Phases.board_setReceiver_of_view (by rw [habsent]; rfl)]
    exact h.inv
  · intro m
    rw [h.unmatched]
    exact (Phases.routed_setReceiver_of_eq ph (by rw [habsent]; rfl)).symm
  · exact h.nodup
  · exact h.calm

theorem step {l : ExchangeLabel P} (hstep : s.step sink l = some s') :
    ∃ ph', Phased sink s' ph' := by
  cases l with
  | exchange c req =>
      simp only [ExchangeState.step] at hstep
      split at hstep
      · next hc =>
          obtain rfl := Option.some.inj hstep
          exact ⟨_, h.startCall hc req⟩
      · simp at hstep
  | receiver n reply =>
      simp only [ExchangeState.step] at hstep
      split at hstep
      · next hn =>
          obtain rfl := Option.some.inj hstep
          exact ⟨_, h.startReceiver hn reply⟩
      · simp at hstep
  | close k =>
      simp only [ExchangeState.step] at hstep
      split at hstep
      · obtain rfl := Option.some.inj hstep
        exact ⟨_, h.setCloser (Or.inl rfl) h.inv⟩
      · simp at hstep
  | call c choice => exact h.call hstep
  | receive n choice => exact h.receive hstep
  | closing k choice => exact h.closing hstep

end Phased

end Msgin
