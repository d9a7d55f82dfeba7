import Msgin.ExchangeReceivers

/-!
# What becomes of a reply

In every run of an exchange a reply that was handed to the receiver ends with one call of
the same correlation id or on the unmatched path, and nothing waits for a reply that does
not come.
-/

namespace Msgin

open Interaction Prog Rendezvous TransitionRuns

variable {P : Type} {sink : Bool} {s : ExchangeState P} {ph : Phases P}

def Ended {α : Type} (p : Option (ExchangeRoutine P α)) : Prop := ∀ q k, p ≠ some (.ask q k)

def ExchangeState.ReturnedBy (s : ExchangeState P) (reply : Reply P) (c : ℕ) : Prop :=
  s.calls c = some (.ret (.reply reply))

structure Correlated (s : ExchangeState P) : Prop where
  sameID : ∀ c n msg, s.ReturnedBy (n, msg) c → s.handed n = some msg ∧
    ∃ req, s.requests c = some req ∧ req.correlationID = msg.correlationID
  oneCall : ∀ c d n msg msg', s.ReturnedBy (n, msg) c → s.ReturnedBy (n, msg') d → c = d
  routedOnce : s.unmatched.Nodup
  notBoth : ∀ c n msg, s.ReturnedBy (n, msg) c → n ∉ s.unmatched
  -- Once the receiver is done with a reply and the calls of its correlation id have ended.
  notNeither : ∀ n msg, s.handed n = some msg → Ended (s.receivers n) →
    (∀ c req, s.requests c = some req → req.correlationID = msg.correlationID →
      Ended (s.calls c)) →
    n ∈ s.unmatched ∨ ∃ c, s.ReturnedBy (n, msg) c
  noPanic : s.panicked = false
  sendReady : ∀ n slot reply k, s.receivers n = some (.ask (.sendSlot slot reply) k) →
    s.corr.slots slot = .make _ 1
  drainReady : ∀ c slot k, s.calls c = some (.ask (.receive slot) k) →
    (s.corr.slots slot).closed = true ∨ (s.corr.slots slot).buffer ≠ [] ∨
      ∃ n reply k', s.receivers n = some (.ask (.sendSlot slot reply) k')
  emptied : (∀ c, Ended (s.calls c)) → s.corr.waiters = ∅

variable {p : CallPhase P} {msg : Message P} {slot n : ℕ}

theorem CallPhase.eq_returned {reply : Reply P} (h : p.code sink = some (.ret (.reply reply))) :
    ∃ req slot, p = .returned req slot reply := by
  cases p with
  | returned req slot r =>
      obtain rfl : r = reply := by simpa [code] using h
      exact ⟨req, slot, rfl⟩
  | calling req => by_cases hid : req.correlationID = "" <;> simp [code, exchange, hid, issue] at h
  | routing req slot r f => cases sink <;> simp [code, routeUnmatched, issue] at h
  | _ => simp [code, sendRequest, awaitReply, Msgin.unsettled, giveUp, drain, issue] at h

theorem CallPhase.eq_draining {k : Option (Reply P) → ExchangeRoutine P (ExchangeResult P)}
    (h : p.code sink = some (.ask (.receive slot) k)) : ∃ req f, p = .draining req slot f := by
  cases p with
  | draining req i f =>
      simp only [code, drain, issue, call_bind, ask_bind, Option.some.injEq, ask.injEq,
        ExchangeCall.receive.injEq] at h
      exact ⟨req, f, by rw [h.1]⟩
  | calling req => by_cases hid : req.correlationID = "" <;> simp [code, exchange, hid, issue] at h
  | routing req slot r f => cases sink <;> simp [code, routeUnmatched, issue] at h
  | _ => simp [code, sendRequest, awaitReply, Msgin.unsettled, giveUp, issue] at h

theorem ReceiverPhase.eq_committed {p : ReceiverPhase P} {reply : Reply P}
    {k : Unit → ExchangeRoutine P Unit} (h : p.code sink n = some (.ask (.sendSlot slot reply) k)) :
    ∃ msg, p = .committed slot msg := by
  cases p with
  | committed i msg =>
      simp only [code, issue, call, Option.some.injEq, ask.injEq, ExchangeCall.sendSlot.injEq] at h
      exact ⟨msg, by rw [h.1.1]⟩
  | routing msg => cases sink <;> simp [code, routeUnmatched, issue, call] at h
  | _ => simp [code, receiver, deliver, issue, call] at h

theorem ReceiverPhase.of_ended {p : ReceiverPhase P} (hmsg : p.message = some msg)
    (h : Ended (p.code sink n)) : p.isRouted = true ∨ ∃ slot, p.view = .delivered slot msg := by
  cases p with
  | absent => simp [message] at hmsg
  | delivering m => exact absurd rfl (h _ _)
  | committed i m => exact absurd rfl (h _ _)
  | delivered i m =>
      obtain rfl : m = msg := by simpa [message] using hmsg
      exact Or.inr ⟨i, rfl⟩
  | routing m => cases sink <;> exact absurd rfl (h _ _)
  | warning m err => exact Or.inl rfl
  | routed m => exact Or.inl rfl

theorem CallPhase.not_ended_of_open {id : String} (h : p.view.Open id slot) :
    ¬ Ended (p.code sink) ∧ ∃ req, p.request = some req ∧ req.correlationID = id := by
  cases p with
  | sending req i | waiting req i =>
      simp only [view, Holder.Open, Holder.holding.injEq, reduceCtorEq, or_false] at h
      exact ⟨fun hend => hend _ _ rfl, req, rfl, h.1⟩
  | unsettled req i f =>
      simp only [view, Holder.Open, Holder.holding.injEq, reduceCtorEq, or_false] at h
      exact ⟨fun hend => hend _ _ rfl, req, rfl, h.1⟩
  | draining req i f =>
      simp only [view, Holder.Open, Holder.draining.injEq, reduceCtorEq, false_or] at h
      exact ⟨fun hend => hend _ _ rfl, req, rfl, h.1⟩
  | _ => simp [view, Holder.Open] at h

theorem CallPhase.of_taken {id : String} (h : p.view = .taken id slot n msg) :
    ∃ req, p.request = some req ∧ req.correlationID = id ∧
      (Ended (p.code sink) → p.routedReply = some n ∨
        p.code sink = some (.ret (.reply (n, msg)))) := by
  cases p with
  | routing req i reply f =>
      simp only [view, Holder.taken.injEq] at h
      refine ⟨req, rfl, h.1, fun hend => ?_⟩
      cases sink <;> exact absurd rfl (hend _ _)
  | warning req i reply err f =>
      simp only [view, Holder.taken.injEq] at h
      exact ⟨req, rfl, h.1, fun _ => Or.inl (congrArg some h.2.2.1)⟩
  | routed req i reply f =>
      simp only [view, Holder.taken.injEq] at h
      exact ⟨req, rfl, h.1, fun _ => Or.inl (congrArg some h.2.2.1)⟩
  | returned req i reply =>
      simp only [view, Holder.taken.injEq] at h
      obtain ⟨rfl, rfl, rfl, rfl⟩ := h
      exact ⟨req, rfl, rfl, fun _ => Or.inr rfl⟩
  | _ => simp [view] at h

namespace Phased

theorem taken_of_returned (h : Phased sink s ph) {c : ℕ} (hc : s.ReturnedBy (n, msg) c) :
    ∃ req slot, s.requests c = some req ∧
      (ph.board s.corr).holder c = .taken req.correlationID slot n msg ∧
      (ph.calls c).routedReply = none := by
  obtain ⟨req, slot, hp⟩ := CallPhase.eq_returned ((h.calls c).symm.trans hc)
  refine ⟨req, slot, ?_, ?_, ?_⟩
  · rw [h.requests, hp]
    rfl
  · simp [Phases.board, hp, CallPhase.view]
  · rw [hp]
    rfl

theorem correlated (h : Phased sink s ph) : Correlated s where
  sameID c n msg hc := by
    obtain ⟨req, slot, hreq, htaken, -⟩ := h.taken_of_returned hc
    obtain ⟨hkey, hfrom⟩ := h.inv.taken c _ _ _ _ htaken
    refine ⟨?_, req, hreq, hkey.symm⟩
    rw [h.handed, ReceiverPhase.eq_of_view_delivered hfrom]
    rfl
  oneCall c d n msg msg' hc hd := by
    obtain ⟨req, slot, -, hc', -⟩ := h.taken_of_returned hc
    obtain ⟨req', slot', -, hd', -⟩ := h.taken_of_returned hd
    exact h.inv.taken_unique hc' hd'
  routedOnce := h.nodup
  notBoth c n msg hc := by
    obtain ⟨req, slot, -, hc', hnone⟩ := h.taken_of_returned hc
    rw [h.unmatched]
    rintro (hrec | ⟨d, hd⟩)
    · exact Phases.not_isRouted_of_delivered (h.inv.taken c _ _ _ _ hc').2 hrec
    · obtain ⟨id', slot', v', hd'⟩ := CallPhase.view_of_routedReply hd
      obtain rfl := h.inv.taken_unique hc' hd'
      simp [hnone] at hd
  notNeither n msg hn hend hcalls := by
    rw [h.handed] at hn
    rw [h.receivers] at hend
    rw [h.unmatched]
    rcases ReceiverPhase.of_ended hn hend with hrouted | ⟨slot, hview⟩
    · exact Or.inl (Or.inl hrouted)
    · rcases h.inv.delivered n slot msg hview with ⟨-, hopen⟩ | ⟨-, htaken⟩
      · obtain ⟨hgoes, req, hreq, hid⟩ := CallPhase.not_ended_of_open hopen
        have hstop := hcalls _ req ((h.requests _).trans hreq) hid
        rw [h.calls] at hstop
        exact absurd hstop hgoes
      · obtain ⟨req, hreq, hid, hdone⟩ := CallPhase.of_taken htaken
        have hstop := hcalls _ req ((h.requests _).trans hreq) hid
        rw [h.calls] at hstop
        rcases hdone hstop with hrouted | hreturned
        · exact Or.inl (Or.inr ⟨_, hrouted⟩)
        · exact Or.inr ⟨_, (h.calls _).trans hreturned⟩
  noPanic := h.calm
  sendReady n slot reply k hn := by
    obtain ⟨msg, hp⟩ := ReceiverPhase.eq_committed ((h.receivers n).symm.trans hn)
    exact (h.inv.committed n slot msg (by simp [Phases.board, hp, ReceiverPhase.view])).1
  drainReady c slot k hc := by
    obtain ⟨req, f, hp⟩ := CallPhase.eq_draining ((h.calls c).symm.trans hc)
    have hgone := h.inv.draining c req.correlationID slot (by simp [Phases.board, hp, CallPhase.view])
    rcases hgone with hshut | ⟨n, v, -, hn | ⟨-, hfull⟩⟩
    · exact Or.inl (by rw [show s.corr.slots slot = .shut _ 1 from hshut]; rfl)
    · refine Or.inr (Or.inr ⟨n, (n, v), fun _ => return (), ?_⟩)
      rw [h.receivers, ReceiverPhase.eq_of_view_committed hn]
      rfl
    · refine Or.inr (Or.inl ?_)
      rw [show s.corr.slots slot = .full (n, v) from hfull]
      simp [Chan.full]
  emptied hend := by
    have hnone : s.corr.waiters.entries = [] := by
      rw [List.eq_nil_iff_forall_not_mem]
      intro w hw
      have hheld := (h.inv.waiting w.1 w.2 (AList.mem_lookup_iff.mpr hw)).2.1
      have hgoes : ¬ Ended ((ph.calls _).code sink) :=
        (CallPhase.not_ended_of_open (Or.inl hheld)).1
      rw [← h.calls] at hgoes
      exact hgoes (hend _)
    exact AList.ext hnone

end Phased

/-- In every run of an exchange, with any number of calls, receiver invocations and calls of
`Close`. -/
theorem run_correlated (sink : Bool) (ls : List (ExchangeLabel P)) (s : ExchangeState P)
    (hrun : run (ExchangeState.step sink) .initial ls = some s) : Correlated s := by
  have hinv : ∃ ph, Phased sink s ph := by
    apply run_invariant (ExchangeState.step sink) (I := fun s => ∃ ph, Phased sink s ph) _ _ hrun
    · rintro t l t' ⟨ph, hph⟩ hstep
      exact hph.step hstep
    · exact ⟨_, phased_initial⟩
  obtain ⟨ph, hph⟩ := hinv
  exact hph.correlated

def prompt : ExchangeChoice := ⟨.returned none, .slot, none⟩

def messageOf (id : String) : Message Unit :=
  blankMessage.withHeader headerCorrelationID (.string id)

def answeredOnce : List (ExchangeLabel Unit) :=
  [.exchange 0 (messageOf "a"), .call 0 prompt, .call 0 prompt, .receiver 0 (messageOf "a"),
    .receive 0 prompt, .receiver 1 (messageOf "a"), .receive 1 prompt, .receive 0 prompt,
    .call 0 prompt, .receive 1 prompt, .close 0, .closing 0 prompt, .closing 0 prompt]

theorem run_correlated_answeredOnce :
    ∃ s, run (ExchangeState.step true) .initial answeredOnce = some s ∧
      s.ReturnedBy (0, messageOf "a") 0 ∧ s.unmatched = [1] ∧ 0 ∉ s.unmatched ∧
      s.panicked = false := by
  obtain ⟨s, hrun, hreturned, hunmatched⟩ : ∃ s,
      run (ExchangeState.step true) .initial answeredOnce = some s ∧
      s.ReturnedBy (0, messageOf "a") 0 ∧ s.unmatched = [1] := ⟨_, rfl, rfl, rfl⟩
  have hall := run_correlated true answeredOnce s hrun
  exact ⟨s, hrun, hreturned, hunmatched, hall.notBoth 0 0 _ hreturned, hall.noPanic⟩

end Msgin
