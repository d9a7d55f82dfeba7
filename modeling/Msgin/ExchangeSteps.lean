import Msgin.ExchangePhases

/-!
# The steps of an exchange

Each step of a run leads from phases to phases. A step of a call or of a receiver either
keeps its part in the rendezvous or is one step of it.
-/

namespace Msgin

open Interaction Prog Rendezvous

variable {P : Type} {sink : Bool} {s s' : ExchangeState P} {ph : Phases P} {c n : ℕ}
  {choice : ExchangeChoice} {p₀ : CallPhase P}

structure Phased (sink : Bool) (s : ExchangeState P) (ph : Phases P) : Prop where
  calls : ∀ c, s.calls c = (ph.calls c).code sink
  requests : ∀ c, s.requests c = (ph.calls c).request
  receivers : ∀ n, s.receivers n = (ph.receivers n).code sink n
  handed : ∀ n, s.handed n = (ph.receivers n).message
  closers : ∀ k p, s.closers k = some p →
    p = closeExchange ∨ p = issue .cancel ∨ p = return ()
  inv : Inv Message.correlationID (ph.board s.corr)
  unmatched : ∀ n, n ∈ s.unmatched ↔ ph.Routed n
  nodup : s.unmatched.Nodup
  calm : s.panicked = false

theorem phased_initial : Phased sink (.initial : ExchangeState P)
    ⟨fun _ => 0, fun _ => .absent, fun _ => .absent⟩ where
  calls _ := rfl
  requests _ := rfl
  receivers _ := rfl
  handed _ := rfl
  closers := by simp [ExchangeState.initial]
  inv := inv_empty _
  unmatched := by
    simp [ExchangeState.initial, Phases.Routed, ReceiverPhase.isRouted, CallPhase.routedReply]
  nodup := List.nodup_nil
  calm := rfl

section Goroutine

variable {α : Type} {q : ExchangeCall P} {a : q.Answer} {corr : ReplyCorrelator P}
  {k : q.Answer → ExchangeRoutine P α}

theorem advance_answered (hserve : s.corr.serve choice q = .answered a corr) :
    s.advance choice (.ask q k) =
      some ({ s with corr, unmatched := q.routed.toList ++ s.unmatched }, some (k a)) := by
  simp only [ExchangeState.advance, hserve]

theorem advance_blocks (hserve : s.corr.serve choice q = .blocks) :
    s.advance choice (.ask q k) = none := by
  simp only [ExchangeState.advance, hserve]

theorem step_closing_answered {k : q.Answer → ExchangeRoutine P Unit}
    (hn : s.closers n = some (.ask q k)) (hserve : s.corr.serve choice q = .answered a corr)
    (hstep : s.step sink (.closing n choice) = some s') :
    s' = { s with
      corr
      unmatched := q.routed.toList ++ s.unmatched
      closers := Function.update s.closers n (some (k a)) } := by
  simpa [ExchangeState.step, hn, advance_answered hserve] using hstep.symm

theorem step_closing_ret (hn : s.closers n = some (.ret ())) :
    s.step sink (.closing n choice) = none := by
  simp [ExchangeState.step, hn, ExchangeState.advance]

end Goroutine

namespace Phased

variable {req : Message P} {slot : ℕ} {f : ExchangeFailure} {corr : ReplyCorrelator P} {id : String}
  {reply : Reply P} {q : ExchangeCall P} {k : q.Answer → ExchangeRoutine P (ExchangeResult P)}
  (h : Phased sink s ph)

include h

theorem answerCall (hp : ph.calls c = p₀) {a : q.Answer} (hask : p₀.code sink = some (.ask q k))
    (hserve : s.corr.serve choice q = .answered a corr)
    (hstep : s.step sink (.call c choice) = some s') :
    s' = { s with
      corr
      unmatched := q.routed.toList ++ s.unmatched
      calls := Function.update s.calls c (some (k a)) } := by
  have hc : s.calls c = some (.ask q k) := by rw [h.calls, hp, hask]
  simpa [ExchangeState.step, hc, advance_answered hserve] using hstep.symm

theorem not_step_of_blocks (hp : ph.calls c = p₀) (hask : p₀.code sink = some (.ask q k))
    (hserve : s.corr.serve choice q = .blocks) : s.step sink (.call c choice) ≠ some s' := by
  have hc : s.calls c = some (.ask q k) := by rw [h.calls, hp, hask]
  simp [ExchangeState.step, hc, advance_blocks hserve]

theorem not_step_of_ret (hp : ph.calls c = p₀) {r : ExchangeResult P}
    (hret : p₀.code sink = some (.ret r)) : s.step sink (.call c choice) ≠ some s' := by
  have hc : s.calls c = some (.ret r) := by rw [h.calls, hp, hret]
  simp [ExchangeState.step, hc, ExchangeState.advance]

theorem setCall (hp : ph.calls c = p₀) (p : CallPhase P) (owner : ℕ → ℕ) {unmatched : List ℕ}
    (hreq : p.request = p₀.request)
    (hinv : Inv Message.correlationID (({ ph with owner }.setCall c p).board corr))
    (hunmatched : ∀ m, m ∈ unmatched ↔ ({ ph with owner }.setCall c p).Routed m)
    (hnodup : unmatched.Nodup) :
    Phased sink { s with corr, unmatched, calls := Function.update s.calls c (p.code sink) }
      ({ ph with owner }.setCall c p) where
  calls d := by
    by_cases hd : d = c
    · subst hd
      simp [Phases.setCall]
    · simp [Phases.setCall, hd, h.calls d]
  requests d := by
    by_cases hd : d = c
    · subst hd
      simp [Phases.setCall, hreq, h.requests d, hp]
    · simp [Phases.setCall, hd, h.requests d]
  receivers := h.receivers
  handed := h.handed
  closers := h.closers
  inv := hinv
  unmatched := hunmatched
  nodup := hnodup
  calm := h.calm

theorem moveCall (hp : ph.calls c = p₀) (p : CallPhase P) (owner : ℕ → ℕ)
    (hreq : p.request = p₀.request) (hrouted : p.routedReply = p₀.routedReply)
    (hinv : Inv Message.correlationID (({ ph with owner }.setCall c p).board corr)) :
    Phased sink { s with corr, calls := Function.update s.calls c (p.code sink) }
      ({ ph with owner }.setCall c p) :=
  h.setCall hp p owner hreq hinv
    (fun m => (h.unmatched m).trans (Phases.routed_setCall_of_eq ph (hp ▸ hrouted)).symm) h.nodup

theorem keepCall (hp : ph.calls c = p₀) (p : CallPhase P) (hreq : p.request = p₀.request)
    (hrouted : p.routedReply = p₀.routedReply) (hview : p.view = p₀.view) :
    Phased sink { s with calls := Function.update s.calls c (p.code sink) } (ph.setCall c p) := by
  apply h.moveCall hp p ph.owner hreq hrouted
  rw [Phases.board_setCall_of_view (hp ▸ hview)]
  exact h.inv

theorem routeCall (hp : ph.calls c = p₀) (p : CallPhase P) (hreq : p.request = p₀.request)
    (hold : p₀.routedReply = none) (hview : p.view = p₀.view) (reply : Reply P)
    (htaken : p.view = .taken id slot reply.1 reply.2) (hnew : p.routedReply = some reply.1) :
    Phased sink
      { s with
        unmatched := reply.1 :: s.unmatched
        calls := Function.update s.calls c (p.code sink) }
      (ph.setCall c p) := by
  subst hp
  have hfresh : reply.1 ∉ s.unmatched := by
    rw [h.unmatched]
    have hholder : (ph.board s.corr).holder c = .taken id slot reply.1 reply.2 :=
      hview.symm.trans htaken
    rintro (hrec | ⟨d, hd⟩)
    · have hfrom := (h.inv.taken _ _ _ _ _ hholder).2
      exact Phases.not_isRouted_of_delivered hfrom hrec
    · obtain ⟨id', slot', v', hd'⟩ := CallPhase.view_of_routedReply hd
      obtain rfl := h.inv.taken_unique hholder hd'
      simp [hold] at hd
  apply h.setCall rfl p ph.owner hreq
  · rw [Phases.board_setCall_of_view hview]
    exact h.inv
  · intro m
    rw [Phases.routed_setCall ph hold, hnew, List.mem_cons, h.unmatched]
    simp [eq_comm]
  · exact List.nodup_cons.mpr ⟨hfresh, h.nodup⟩

theorem slot_of_open (hp : ph.calls c = p₀) (hopen : p₀.view.Open id slot) :
    s.corr.slots slot = .make _ 1 ∨ s.corr.slots slot = .shut _ 1 ∨
      ∃ n v, s.corr.slots slot = .full (n, v) := by
  subst hp
  exact h.inv.slot_of_open hopen

theorem takeReply (hp : ph.calls c = p₀) (p : CallPhase P) (hopen : p₀.view.Open id slot)
    (hfull : s.corr.slots slot = .full reply) (hreq : p.request = p₀.request)
    (hrouted : p.routedReply = p₀.routedReply) (hview : p.view = .taken id slot reply.1 reply.2) :
    Phased sink
      { s with
        corr := { s.corr with slots := Function.update s.corr.slots slot (.make _ 1) }
        calls := Function.update s.calls c (p.code sink) }
      (ph.setCall c p) := by
  subst hp
  apply h.moveCall rfl p ph.owner hreq hrouted
  rw [Phases.board_setCall, hview]
  exact h.inv.take hopen hfull

theorem leaveSlot (hp : ph.calls c = p₀) (p : CallPhase P) (hopen : p₀.view.Open id slot)
    (hshut : s.corr.slots slot = .shut _ 1) (hreq : p.request = p₀.request)
    (hrouted : p.routedReply = p₀.routedReply) (hview : p.view = .away) :
    Phased sink { s with calls := Function.update s.calls c (p.code sink) } (ph.setCall c p) := by
  subst hp
  apply h.moveCall rfl p ph.owner hreq hrouted
  rw [Phases.board_setCall, hview]
  exact h.inv.leave hopen hshut

theorem calling (hp : ph.calls c = .calling req) (hstep : s.step sink (.call c choice) = some s') :
    ∃ ph', Phased sink s' ph' := by
  by_cases hid : req.correlationID = ""
  · exact absurd hstep (h.not_step_of_ret hp (congrArg some (if_pos hid)))
  · obtain rfl := h.answerCall hp (congrArg some (if_neg hid)) rfl hstep
    have hfail := fun f => h.keepCall hp (.failed req f) rfl rfl rfl
    unfold ReplyCorrelator.register
    split_ifs with hclosed hdup
    · exact ⟨_, hfail _⟩
    · exact ⟨_, hfail _⟩
    · refine ⟨_, h.moveCall hp (.sending req s.corr.made) (Function.update ph.owner s.corr.made c)
        rfl rfl ?_⟩
      have hnew := h.inv.register (c := c) (k := req.correlationID)
        (by simp [Phases.board, hp, CallPhase.view]) (by simpa [Phases.board] using hdup)
      rw [Phases.board_setCall]
      simpa [Phases.board, KeyedMaps.lookup_insert_eq, CallPhase.view] using hnew

theorem sending (hp : ph.calls c = .sending req slot)
    (hstep : s.step sink (.call c choice) = some s') : ∃ ph', Phased sink s' ph' := by
  obtain rfl := h.answerCall hp rfl rfl hstep
  have hfail := fun f => h.keepCall hp (.unsettled req slot f) rfl rfl rfl
  rcases choice.sent with (_ | err) | r
  · exact ⟨_, h.keepCall hp (.waiting req slot) rfl rfl rfl⟩
  · exact ⟨_, hfail _⟩
  · exact ⟨_, hfail _⟩

theorem waiting (hp : ph.calls c = .waiting req slot)
    (hstep : s.step sink (.call c choice) = some s') : ∃ ph', Phased sink s' ph' := by
  have hopen : (CallPhase.waiting req slot).view.Open req.correlationID slot := Or.inl rfl
  have hfail := fun f => h.keepCall hp (.unsettled req slot f) rfl rfl rfl
  cases harm : choice.arm with
  | ctxDone err =>
      obtain rfl := h.answerCall hp rfl (by simp only [ReplyCorrelator.serve, harm]; rfl) hstep
      exact ⟨_, hfail _⟩
  | timer =>
      obtain rfl := h.answerCall hp rfl (by simp only [ReplyCorrelator.serve, harm]; rfl) hstep
      exact ⟨_, hfail _⟩
  | slot =>
      rcases h.slot_of_open hp hopen with hslot | hslot | ⟨n, v, hslot⟩
      · exact absurd hstep
          (h.not_step_of_blocks hp rfl (by simp [ReplyCorrelator.serve, harm, hslot]))
      · obtain rfl := h.answerCall hp rfl
          (by simp only [ReplyCorrelator.serve, harm, hslot, Chan.receive_shut]; rfl) hstep
        exact ⟨_, h.leaveSlot hp (.failed req _) hopen hslot rfl rfl rfl⟩
      · obtain rfl := h.answerCall hp rfl
          (by simp only [ReplyCorrelator.serve, harm, hslot, Chan.receive_full]; rfl) hstep
        exact ⟨_, h.takeReply hp (.returned req slot (n, v)) hopen hslot rfl rfl rfl⟩

theorem unsettled (hp : ph.calls c = .unsettled req slot f)
    (hstep : s.step sink (.call c choice) = some s') : ∃ ph', Phased sink s' ph' := by
  have hholding : (ph.board s.corr).holder c = .holding req.correlationID slot := by
    simp [Phases.board, hp, CallPhase.view]
  by_cases hown : s.corr.waiters.lookup req.correlationID = some slot
  · obtain rfl := h.answerCall hp rfl
      (by simp only [ReplyCorrelator.serve, ReplyCorrelator.deregister, if_pos hown]; rfl) hstep
    refine ⟨_, h.moveCall hp (.failed req f) ph.owner rfl rfl ?_⟩
    rw [Phases.board_setCall]
    simpa [Phases.board, KeyedMaps.lookup_erase_eq, CallPhase.view] using
      h.inv.withdraw hholding hown
  · obtain rfl := h.answerCall hp rfl
      (by simp only [ReplyCorrelator.serve, ReplyCorrelator.deregister, if_neg hown]; rfl) hstep
    refine ⟨_, h.moveCall hp (.draining req slot f) ph.owner rfl rfl ?_⟩
    rw [Phases.board_setCall]
    exact h.inv.miss hholding hown

theorem draining (hp : ph.calls c = .draining req slot f)
    (hstep : s.step sink (.call c choice) = some s') : ∃ ph', Phased sink s' ph' := by
  have hopen : (CallPhase.draining req slot f).view.Open req.correlationID slot := Or.inr rfl
  rcases h.slot_of_open hp hopen with hslot | hslot | ⟨n, v, hslot⟩
  · exact absurd hstep (h.not_step_of_blocks hp rfl (by simp [ReplyCorrelator.serve, hslot]))
  · obtain rfl := h.answerCall hp rfl
      (by simp only [ReplyCorrelator.serve, hslot, Chan.receive_shut]; rfl) hstep
    exact ⟨_, h.leaveSlot hp (.failed req f) hopen hslot rfl rfl rfl⟩
  · obtain rfl := h.answerCall hp rfl
      (by simp only [ReplyCorrelator.serve, hslot, Chan.receive_full]; rfl) hstep
    exact ⟨_, h.takeReply hp (.routing req slot (n, v) f) hopen hslot rfl rfl rfl⟩

theorem routing (hp : ph.calls c = .routing req slot reply f)
    (hstep : s.step sink (.call c choice) = some s') : ∃ ph', Phased sink s' ph' := by
  have hrouted := h.routeCall hp (.routed req slot reply f) rfl rfl rfl reply rfl rfl
  cases sink with
  | false =>
      obtain rfl := h.answerCall hp rfl rfl hstep
      exact ⟨_, hrouted⟩
  | true =>
      obtain rfl := h.answerCall hp rfl rfl hstep
      cases choice.sinkErr with
      | none => exact ⟨_, hrouted⟩
      | some err =>
          exact ⟨_, h.routeCall hp (.warning req slot reply err f) rfl rfl rfl reply rfl rfl⟩

theorem warning {err : Err} (hp : ph.calls c = .warning req slot reply err f)
    (hstep : s.step sink (.call c choice) = some s') : ∃ ph', Phased sink s' ph' := by
  obtain rfl := h.answerCall hp rfl rfl hstep
  exact ⟨_, h.keepCall hp (.routed req slot reply f) rfl rfl rfl⟩

theorem call (hstep : s.step sink (.call c choice) = some s') : ∃ ph', Phased sink s' ph' := by
  cases hp : ph.calls c with
  | absent =>
      have hc : s.calls c = none := by rw [h.calls, hp]; rfl
      simp [ExchangeState.step, hc] at hstep
  | calling req => exact h.calling hp hstep
  | sending req slot => exact h.sending hp hstep
  | waiting req slot => exact h.waiting hp hstep
  | unsettled req slot f => exact h.unsettled hp hstep
  | draining req slot f => exact h.draining hp hstep
  | routing req slot reply f => exact h.routing hp hstep
  | warning req slot reply err f => exact h.warning hp hstep
  | routed req slot reply f => exact absurd hstep (h.not_step_of_ret hp rfl)
  | returned req slot reply => exact absurd hstep (h.not_step_of_ret hp rfl)
  | failed req f => exact absurd hstep (h.not_step_of_ret hp rfl)

end Phased

end Msgin
