import Msgin.SettlementEffects

/-!
# The effects of a dispatch

The settlement switch takes one of the five shapes of `Dispatched`, one for each branch.
Laws about settlement are read off these shapes, so a change to the switch is a change to
this module and to the laws that name the branch.
-/

namespace Msgin

open Interaction Prog

variable {P T : Type}

def evictEvents (settled : Bool) (id : String) : List (Event P T) :=
  if settled then [⟨.evict id, ()⟩] else []

theorem effects_evict {S : Unit → List (Event P T) → Prop} (settled : Bool) (id : String) :
    Effects S (if settled = true then perform (.evict id) else pure ()) ↔
      S () (evictEvents settled id) := by
  cases settled with
  | true =>
      rw [if_pos rfl, effects_perform (.evict id) rfl]
      exact ⟨fun h => h (), fun h _ => h⟩
  | false => exact Iff.rfl

inductive FellBack (fellBack : Bool) : List (Event P T) → Prop
  | no (h : fellBack = false) : FellBack fellBack []
  | yes (h : fellBack = true) (first : Bool) :
      FellBack fellBack [⟨.invalidFallbackLogged, first⟩]

inductive Invalidated (c : Consumer P T) (d : Delivery P) (cause : Err) :
    List (Event P T) → Prop
  | mk (ws es : List (Event P T)) (r : Bool) (warned : FellBack (c.invalidTarget cause).2 ws)
      (diverted : DivertedTerminal c (c.invalidTarget cause).1 d .onInvalidMessage cause r es) :
      Invalidated c d cause (ws ++ (es ++ evictEvents r d.msg.id))

theorem effects_warnInvalidFallback (id : String) :
    Effects (fun _ es => FellBack true es) (warnInvalidFallback id : Routine P T Unit) := by
  unfold warnInvalidFallback
  rw [effects_perform_bind .invalidFallbackLogged rfl]
  intro first
  split
  · exact (effects_logWarn _ _).mpr (.yes rfl first)
  · exact .yes rfl first

theorem effects_settleInvalid (c : Consumer P T) (d : Delivery P) (cause : Err) :
    Effects (fun _ es => Invalidated c d cause es) (settleInvalid c d cause) := by
  have htail : ∀ ws, FellBack (c.invalidTarget cause).2 ws →
      Effects (fun _ es => Invalidated c d cause (ws ++ es))
        (do if ← divertTerminal c (c.invalidTarget cause).1 d .onInvalidMessage cause then
              perform (.evict d.msg.id)) := by
    intro ws hws
    refine Emits.bind (effects_divertTerminal c _ d .onInvalidMessage cause) fun r es hes => ?_
    rw [← Effects, effects_evict]
    exact .mk ws es r hws hes
  unfold settleInvalid
  cases hfb : (c.invalidTarget cause).2 with
  | true =>
      simp only [hfb, if_true]
      exact Emits.bind (effects_warnInvalidFallback d.msg.id) fun _ ws hws =>
        htail ws (hfb ▸ hws)
  | false =>
      simp only [hfb, Bool.false_eq_true, if_false]
      exact htail [] (.no hfb)

/-- The branches of the settlement switch: the error that `dispatch` returns and its calls. -/
inductive Dispatched (c : Consumer P T) (d : Delivery P) : Option Err → List (Event P T) → Prop
  | undecodable (ds es : List (Event P T)) (derr : Err) (decoded : Decoded c (.inr derr) ds)
      (invalid : Invalidated c d derr es) : Dispatched c d (some derr) (ds ++ es)
  | handled (ds hs : List (Event P T)) (v : T) (o o' : Outcome (Option Err))
      (decoded : Decoded c (.inl v) ds) (ok : handlerErr o = none)
      (fired : if o'.succeeded then Fired c .onAck d.msg none hs else hs = []) :
      Dispatched c d none (ds ++ ⟨.handle ⟨v, d.msg.headers⟩, o⟩ ::
        (ackEvents d o' ++ (hs ++ evictEvents o'.succeeded d.msg.id)))
  | permanent (ds es : List (Event P T)) (v : T) (o : Outcome (Option Err)) (err : Err)
      (decoded : Decoded c (.inl v) ds) (failed : handlerErr o = some err)
      (hperm : isPermanent (some err) = true) (invalid : Invalidated c d err es) :
      Dispatched c d (some err) (ds ++ ⟨.handle ⟨v, d.msg.headers⟩, o⟩ :: es)
  | exhausted (ds ns es : List (Event P T)) (v : T) (o : Outcome (Option Err)) (err : Err)
      (n : ℤ) (r : Bool) (decoded : Decoded c (.inl v) ds) (failed : handlerErr o = some err)
      (hperm : isPermanent (some err) = false) (counted : Counted d n ns)
      (hn : Msgin.exhausted c n = true)
      (diverted : Diverted c c.policy.deadLetter d .onDeadLetter err n r es) :
      Dispatched c d (some err) (ds ++ ⟨.handle ⟨v, d.msg.headers⟩, o⟩ ::
        (ns ++ (es ++ evictEvents r d.msg.id)))
  | retried (ds ns es : List (Event P T)) (v : T) (o : Outcome (Option Err)) (err : Err) (n : ℤ)
      (decoded : Decoded c (.inl v) ds) (failed : handlerErr o = some err)
      (hperm : isPermanent (some err) = false) (counted : Counted d n ns)
      (hn : Msgin.exhausted c n = false) (redelivered : Redelivered c d err n es) :
      Dispatched c d (some err) (ds ++ ⟨.handle ⟨v, d.msg.headers⟩, o⟩ :: (ns ++ es))

variable {es : List (Event P T)} {e : Event P T} {d : Delivery P} {c : Consumer P T}
  {o : Outcome (Option Err)} {cause : Err} {n : ℤ}

theorem effects_handled (c : Consumer P T) (d : Delivery P) {ds : List (Event P T)} {v : T}
    (hdec : Decoded c (.inl v) ds) (hok : handlerErr o = none) :
    Effects (fun r es => Dispatched c d r (ds ++ ⟨.handle ⟨v, d.msg.headers⟩, o⟩ :: es))
      (do
        let ackErr ← safeAck d
        finish ackErr
        if ackErr.isNone then
          safeFire c .onAck d.msg none
          perform (.evict d.msg.id)
        return none) := by
  rw [effects_bind, effects_safeAck]
  intro o'
  rw [effects_finish_bind, Outcome.isNone_errOr]
  by_cases ho : o'.succeeded = true
  · rw [if_pos ho]
    refine Emits.bind (effects_safeFire c .onAck d.msg none) fun _ hs fired => ?_
    rw [← Effects, effects_perform_bind (.evict d.msg.id) rfl]
    intro _
    rw [effects_pure]
    have h := Dispatched.handled (c := c) (d := d) ds hs v o o' hdec hok (by rwa [if_pos ho])
    simpa [ho, evictEvents] using h
  · rw [if_neg ho, effects_pure]
    have h := Dispatched.handled (c := c) (d := d) ds [] v o o' hdec hok (by rw [if_neg ho])
    simpa [ho, evictEvents] using h

inductive SettledTransient (c : Consumer P T) (d : Delivery P) (err : Err) :
    List (Event P T) → Prop
  | exhausted (ns es : List (Event P T)) (n : ℤ) (r : Bool) (counted : Counted d n ns)
      (hn : Msgin.exhausted c n = true)
      (diverted : Diverted c c.policy.deadLetter d .onDeadLetter err n r es) :
      SettledTransient c d err (ns ++ (es ++ evictEvents r d.msg.id))
  | retried (ns es : List (Event P T)) (n : ℤ) (counted : Counted d n ns)
      (hn : Msgin.exhausted c n = false) (redelivered : Redelivered c d err n es) :
      SettledTransient c d err (ns ++ es)

theorem effects_settleTransient (c : Consumer P T) (d : Delivery P) (err : Err) :
    Effects (fun _ es => SettledTransient c d err es) (settleTransient c d err) := by
  unfold settleTransient
  refine Emits.bind (effects_attempts d) fun n ns hns => ?_
  by_cases hn : exhausted c n = true
  · rw [← Effects, if_pos hn, effects_bind]
    refine (effects_divert c c.policy.deadLetter d .onDeadLetter err n).mono fun r es hes => ?_
    rw [effects_evict]
    exact .exhausted ns es n r hns hn hes
  · rw [← Effects, if_neg hn]
    exact (effects_redeliver c d err n).mono fun _ es hes =>
      .retried ns es n hns (Bool.eq_false_iff.mpr hn) hes

theorem dispatch_effects (c : Consumer P T) (d : Delivery P) :
    Effects (Dispatched c d) (dispatch c d) := by
  unfold dispatch
  refine Emits.bind (effects_decode c d.msg) fun res ds hdec => ?_
  cases res with
  | inr derr =>
      refine Emits.bind (effects_settleInvalid c d derr) fun _ es hes => ?_
      rw [← Effects, effects_pure, List.append_nil]
      exact .undecodable ds es derr hdec hes
  | inl v =>
      rw [← Effects, effects_bind, effects_safeHandle]
      intro o
      cases herr : handlerErr o with
      | none => exact effects_handled c d hdec herr
      | some err =>
          by_cases hperm : isPermanent (some err) = true
          · simp only [hperm, if_true]
            refine Emits.bind (effects_settleInvalid c d err) fun _ es hes => ?_
            rw [← Effects, effects_pure, List.append_nil]
            exact .permanent ds es v o err hdec herr hperm hes
          · have htransient := Bool.eq_false_iff.mpr hperm
            simp only [hperm, Bool.false_eq_true, if_false]
            refine Emits.bind (effects_settleTransient c d err) fun _ es hes => ?_
            rw [← Effects, effects_pure, List.append_nil]
            cases hes with
            | exhausted ns es n r hns hn hes =>
                exact .exhausted ds ns es v o err n r hdec herr htransient hns hn hes
            | retried ns es n hns hn hes =>
                exact .retried ds ns es v o err n hdec herr htransient hns hn hes

theorem Decoded.call {res : T ⊕ Err} (h : Decoded c res es) (he : e ∈ es) :
    ∃ b, e.1 = .decode b := by
  cases h with
  | asserted v => simp at he
  | rejected e' h => simp at he
  | decoded b v => exact ⟨b, by rw [List.mem_singleton.mp he]⟩
  | failed b o e' h => exact ⟨b, by rw [List.mem_singleton.mp he]⟩

theorem Counted.call (h : Counted d n es) (he : e ∈ es) : e.1 = .observe d.msg.id := by
  cases h with
  | header h => simp at he
  | tracker h => rw [List.mem_singleton.mp he]

theorem Fired.call {hook : Hook} {m : Message P} {cause : Option Err} (h : Fired c hook m cause es)
    (he : e ∈ es) : e.1 = .fire hook m cause := by
  cases h with
  | unset h => simp at he
  | called h o => rw [List.mem_singleton.mp he]

theorem SendFailed.call {sink : Option OutboundAdapter} {m : Message P} (h : SendFailed sink m es)
    (he : e ∈ es) : ∃ s, sink = some s ∧ e.1 = .send s m := by
  cases h with
  | unset h => simp at he
  | failed s o set h => exact ⟨s, set, by rw [List.mem_singleton.mp he]⟩

theorem releaseEvents_call (he : e ∈ releaseEvents d) : e.1 = .releaseOnce d.tag := by
  unfold releaseEvents at he
  split at he
  · rw [List.mem_singleton.mp he]
  · simp at he

theorem ackEvents_call (he : e ∈ ackEvents d o) : e.1 = .releaseOnce d.tag ∨ e.1 = .ack d.tag := by
  rcases List.mem_append.mp he with he | he
  · exact Or.inl (releaseEvents_call he)
  · exact Or.inr (by rw [List.mem_singleton.mp he])

theorem nackEvents_call {requeue : Bool} {delay : ℤ} (he : e ∈ nackEvents d requeue delay o) :
    e.1 = .releaseOnce d.tag ∨ e.1 = .nack d.tag requeue delay := by
  rcases List.mem_append.mp he with he | he
  · exact Or.inl (releaseEvents_call he)
  · exact Or.inr (by rw [List.mem_singleton.mp he])

theorem evictEvents_call {settled : Bool} {id : String} (he : e ∈ evictEvents settled id) :
    e.1 = .evict id := by
  cases settled with
  | true => rw [List.mem_singleton.mp he]
  | false => simp [evictEvents] at he

theorem SettledTerminal.call {hook : Hook} {r : Bool} (h : SettledTerminal c d hook cause r es)
    (he : e ∈ es) :
    e.1 = .fire hook d.msg (some cause) ∨ e.1 = .releaseOnce d.tag ∨ e.1 = .ack d.tag := by
  obtain ⟨hs, o, fired⟩ := h
  rcases List.mem_append.mp he with he | he
  · exact Or.inl (fired.call he)
  · exact Or.inr (ackEvents_call he)

theorem Redelivered.call (h : Redelivered c d cause n es) (he : e ∈ es) :
    e.1 = .fire .onRetry d.msg (some cause) ∨ e.1 = .releaseOnce d.tag ∨
      e.1 = .nack d.tag true (retryDelay c.policy n) := by
  obtain ⟨hs, o, fired⟩ := h
  rcases List.mem_append.mp he with he | he
  · exact Or.inl (fired.call he)
  · exact Or.inr (nackEvents_call he)

theorem any_effects {p : Event P T → Bool} (hp : ∀ e : Event P T, e.1.isLog = true → p e = false)
    (es : List (Event P T)) : (es.filter fun e => !e.1.isLog).any p = es.any p := by
  induction es with
  | nil => rfl
  | cons e es ih =>
      by_cases hlog : e.1.isLog = true
      · simp [hlog, hp e hlog, ih]
      · simp [hlog, ih]

def isSendTo (s : OutboundAdapter) (e : Event P T) : Bool :=
  match e.1 with
  | .send s' _ => s' == s
  | _ => false

variable (s : OutboundAdapter)

theorem isSendTo_of_isLog (e : Event P T) (h : e.1.isLog = true) : isSendTo s e = false := by
  obtain ⟨q, r⟩ := e
  cases q <;> simp_all [Call.isLog, isSendTo]

theorem Redelivered.not_sendTo (h : Redelivered c d cause n es) : es.any (isSendTo s) = false := by
  rw [List.any_eq_false]
  intro e he
  rcases h.call he with hq | hq | hq <;> simp [isSendTo, hq]

theorem Counted.not_sendTo (h : Counted d n es) : es.any (isSendTo s) = false := by
  rw [List.any_eq_false]
  intro e he
  simp [isSendTo, h.call he]

theorem Decoded.not_sendTo {res : T ⊕ Err} (h : Decoded c res es) :
    es.any (isSendTo s) = false := by
  rw [List.any_eq_false]
  intro e he
  obtain ⟨b, hq⟩ := h.call he
  simp [isSendTo, hq]

end Msgin
