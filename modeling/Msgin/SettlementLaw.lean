import Msgin.SettlementTails

/-!
# The settlement law of a dispatch

Whatever the codec, the handler, the sinks, the hooks and the settle closures do, a
dispatch settles its delivery exactly once, and the way it does so is determined by the
class of the delivery's error. The error is the decode error or else the handler's.
-/

namespace Msgin

open Interaction Prog

variable {P T : Type}

/-- The law, for a delivery whose error is `r` and the calls `es` of its dispatch. -/
structure SettlementLaw (c : Consumer P T) (d : Delivery P) (r : Option Err)
    (es : List (Event P T)) : Prop where
  handlerError : ∀ m o, ⟨.handle m, o⟩ ∈ es → r = handlerErr o
  once : acks d.tag es + nacks d.tag es = 1
  ackedIfDeadLettered : ∀ err, r = some err → isPermanent (some err) = false →
    acks d.tag es ≠ 0 → ∃ s, c.policy.deadLetter = some s ∧ ⟨.send s d.msg, .returned none⟩ ∈ es
  nackedIfAborted : ∀ err, r = some err → isPermanent (some err) = true → nacks d.tag es ≠ 0 →
    ∃ s o, (c.invalidTarget err).1 = some s ∧ ⟨.send s d.msg, o⟩ ∈ es ∧ o.succeeded = false ∧
      ⟨.settleDone, true⟩ ∈ es
  tooLarge : ∀ err, r = some err → err.is .errPayloadTooLarge = true →
    ∀ s m o, ⟨.send s m, o⟩ ∈ es → c.invalidSink = some s
  oneTerminalHook : terminalHooks es ≤ 1
  noTerminalHookOnNack : nacks d.tag es ≠ 0 → terminalHooks es = 0
  evictedIfAcked : ∀ id u, ⟨.evict id, u⟩ ∈ es → ⟨.ack d.tag, .returned none⟩ ∈ es

def isLocal (e : Event P T) : Bool :=
  match e.1 with
  | .send _ _ => false
  | .handle _ => false
  | _ => true

def Local (es : List (Event P T)) : Prop := ∀ e ∈ es, isLocal e = true

variable {es ds : List (Event P T)} {c : Consumer P T} {d : Delivery P}
  {sink : Option OutboundAdapter} {o : Outcome (Option Err)} {hook : Hook} {cause : Err} {r : Bool}
  {v : T} {n : ℤ}

theorem Local.append {fs : List (Event P T)} (he : Local es) (hf : Local fs) :
    Local (es ++ fs) := by
  intro e h
  rcases List.mem_append.mp h with h | h
  · exact he e h
  · exact hf e h

theorem Local.send_not_mem (h : Local es) (s : OutboundAdapter) (m : Message P)
    (o : Outcome (Option Err)) : ⟨.send s m, o⟩ ∉ es := by
  intro hmem
  cases h _ hmem

theorem Local.handle_not_mem (h : Local es) (m : Message T) (o : Outcome (Option Err)) :
    ⟨.handle m, o⟩ ∉ es := by
  intro hmem
  cases h _ hmem

theorem ackEvents_local (d : Delivery P) (o : Outcome (Option Err)) :
    Local (ackEvents d o : List (Event P T)) := by
  intro e he
  unfold ackEvents releaseEvents at he
  split at he <;> simp at he
  · rcases he with rfl | rfl <;> rfl
  · subst he
    rfl

theorem nackEvents_local (d : Delivery P) (requeue : Bool) (delay : ℤ)
    (o : Outcome (Option Err)) : Local (nackEvents d requeue delay o : List (Event P T)) := by
  intro e he
  unfold nackEvents releaseEvents at he
  split at he <;> simp at he
  · rcases he with rfl | rfl <;> rfl
  · subst he
    rfl

theorem evictEvents_local (settled : Bool) (id : String) :
    Local (evictEvents settled id : List (Event P T)) := by
  intro e he
  cases settled with
  | true => rw [List.mem_singleton.mp he]; rfl
  | false => cases he

theorem Decoded.local {res : T ⊕ Err} (h : Decoded c res es) : Local es := by
  intro e he
  cases h with
  | asserted v => cases he
  | rejected e' h => cases he
  | decoded b v => rw [List.mem_singleton.mp he]; rfl
  | failed b o e' h => rw [List.mem_singleton.mp he]; rfl

theorem Counted.local (h : Counted d n es) : Local es := by
  intro e he
  cases h with
  | header h => cases he
  | tracker h => rw [List.mem_singleton.mp he]; rfl

theorem FellBack.local {b : Bool} (h : FellBack b es) : Local es := by
  intro e he
  cases h with
  | no h => cases he
  | yes h first => rw [List.mem_singleton.mp he]; rfl

theorem Fired.local {m : Message P} {cause : Option Err} (h : Fired c hook m cause es) :
    Local es := by
  intro e he
  cases h with
  | unset h => cases he
  | called h o => rw [List.mem_singleton.mp he]; rfl

theorem SettledTerminal.local {e : Err} (h : SettledTerminal c d hook e r es) : Local es := by
  obtain ⟨hs, o, fired⟩ := h
  exact fired.local.append (ackEvents_local d o)

theorem Redelivered.local (h : Redelivered c d cause n es) : Local es := by
  obtain ⟨hs, o, fired⟩ := h
  exact fired.local.append (nackEvents_local d true _ o)

theorem DivertedTerminal.send_mem (h : DivertedTerminal c sink d hook cause r es)
    {s : OutboundAdapter} {m : Message P} (hmem : ⟨.send s m, o⟩ ∈ es) : sink = some s := by
  cases h with
  | discarded _ _ unset settled => exact absurd hmem (settled.local.send_not_mem s m o)
  | accepted s' _ es set settled =>
      rcases List.mem_cons.mp hmem with heq | hmem
      · cases heq
        exact set
      · exact absurd hmem (settled.local.send_not_mem s m o)
  | refused s' o' err _ es set failed settled =>
      rcases List.mem_cons.mp hmem with heq | hmem
      · cases heq
        exact set
      rcases List.mem_cons.mp hmem with heq | hmem
      · cases heq
      · exact absurd hmem (settled.local.send_not_mem s m o)
  | aborted s' o' o'' set failed =>
      rcases List.mem_cons.mp hmem with heq | hmem
      · cases heq
        exact set
      rcases List.mem_cons.mp hmem with heq | hmem
      · cases heq
      · exact absurd hmem ((nackEvents_local d true 0 o'').send_not_mem s m o)

theorem DivertedTerminal.handle_not_mem (h : DivertedTerminal c sink d hook cause r es)
    (m : Message T) (o : Outcome (Option Err)) : ⟨.handle m, o⟩ ∉ es := by
  cases h with
  | discarded _ _ unset settled => exact settled.local.handle_not_mem m o
  | accepted s' _ es set settled => simpa using settled.local.handle_not_mem m o
  | refused s' o' err _ es set failed settled => simpa using settled.local.handle_not_mem m o
  | aborted s' o' o'' set failed => simpa using (nackEvents_local d true 0 o'').handle_not_mem m o

theorem Diverted.handle_not_mem (h : Diverted c sink d hook cause n r es) (m : Message T)
    (o : Outcome (Option Err)) : ⟨.handle m, o⟩ ∉ es := by
  cases h with
  | accepted s' _ es set settled => simpa using settled.local.handle_not_mem m o
  | retried ss es failed settled =>
      intro hmem
      rcases List.mem_append.mp hmem with hmem | hmem
      · cases failed with
        | unset h => cases hmem
        | failed s' o' set h => simp at hmem
      · exact settled.local.handle_not_mem m o hmem

theorem invalidTarget_of_tooLarge (c : Consumer P T) (h : cause.is .errPayloadTooLarge = true) :
    (c.invalidTarget cause).1 = c.invalidSink := by
  unfold Consumer.invalidTarget
  split
  · rfl
  · rename_i hnone
    cases hs : c.invalidSink with
    | none => rfl
    | some s => rw [hs] at hnone; exact absurd rfl hnone

theorem evictEvents_counts (settled : Bool) (id : String) (d : ℕ) :
    acks d (evictEvents settled id : List (Event P T)) = 0 ∧
      nacks d (evictEvents settled id : List (Event P T)) = 0 ∧
      terminalHooks (evictEvents settled id : List (Event P T)) = 0 := by
  cases settled with
  | true => exact ⟨rfl, rfl, rfl⟩
  | false => exact ⟨rfl, rfl, rfl⟩

theorem evict_not_mem_of_evictions (h : evictions es = 0) (id : String) (u : Unit) :
    ⟨.evict id, u⟩ ∉ es := by
  intro hmem
  exact (List.countP_eq_zero.mp h _ hmem) rfl

theorem Settles.evicting {settled : Bool} (h : Settles d settled es) (id : String) :
    let fs := es ++ evictEvents settled id
    acks d.tag fs = acks d.tag es ∧ nacks d.tag fs = nacks d.tag es ∧
      terminalHooks fs ≤ 1 ∧ (nacks d.tag fs ≠ 0 → terminalHooks fs = 0) ∧
      ∀ id' u, ⟨.evict id', u⟩ ∈ fs → ⟨.ack d.tag, .returned none⟩ ∈ fs := by
  obtain ⟨hacks, hnacks, hhooks⟩ := evictEvents_counts (P := P) (T := T) settled id d.tag
  obtain ⟨honce, hle, hacked, hkept⟩ := h
  simp only [acks_append, nacks_append, terminalHooks_append, hacks, hnacks, hhooks]
  refine ⟨rfl, rfl, by omega, by omega, ?_⟩
  intro id' u hmem
  rcases List.mem_append.mp hmem with hmem | hmem
  · exact absurd hmem (evict_not_mem_of_evictions hkept id' u)
  · cases settled with
    | true => exact List.mem_append_left _ (hacked rfl)
    | false => cases hmem

theorem settlementLaw_invalid {err : Err} {qs : List (Event P T)} (hq : Quiet qs)
    (hsend : ∀ s m o, ⟨.send s m, o⟩ ∉ qs)
    (hhandle : ∀ m o, ⟨.handle m, o⟩ ∈ qs → some err = handlerErr o)
    (hperm : isPermanent (some err) = true) (h : Invalidated c d err es) :
    SettlementLaw c d (some err) (qs ++ es) := by
  obtain ⟨ws, fs, r, warned, diverted⟩ := h
  have hsettles := diverted.settles.of_quiet_append (hq.append warned.quiet)
  obtain ⟨hacks, hnacks, hone, hnone, hevict⟩ := hsettles.evicting d.msg.id
  simp only [List.append_assoc] at hacks hnacks hone hnone hevict
  have honce := hsettles.once
  have hnacks' : nacks d.tag (qs ++ (ws ++ (fs ++ evictEvents r d.msg.id))) = nacks d.tag fs := by
    rw [hnacks, nacks_append, nacks_append, (hq.counts d.tag).2.1,
      (warned.quiet.counts d.tag).2.1]
    omega
  rw [List.append_assoc] at honce
  have hmem : ∀ {e}, e ∈ fs → e ∈ qs ++ (ws ++ (fs ++ evictEvents r d.msg.id)) := by
    intro e he
    exact List.mem_append_right _ (List.mem_append_right _ (List.mem_append_left _ he))
  constructor
  · intro m o hm
    rcases List.mem_append.mp hm with hm | hm
    · exact hhandle m o hm
    rcases List.mem_append.mp hm with hm | hm
    · exact absurd hm (warned.local.handle_not_mem m o)
    rcases List.mem_append.mp hm with hm | hm
    · exact absurd hm (diverted.handle_not_mem m o)
    · exact absurd hm ((evictEvents_local r d.msg.id).handle_not_mem m o)
  · rw [hacks, hnacks]
    exact honce
  · intro err' heq hfalse
    cases heq
    rw [hperm] at hfalse
    cases hfalse
  · intro err' heq _ hn
    cases heq
    rw [hnacks'] at hn
    obtain ⟨s, o, hsink, hs, hfail, hdone⟩ := diverted.aborted_of_nacked hn
    exact ⟨s, o, hsink, hmem hs, hfail, hmem hdone⟩
  · intro err' heq hlarge s m o hm
    cases heq
    rw [← invalidTarget_of_tooLarge c hlarge]
    rcases List.mem_append.mp hm with hm | hm
    · exact absurd hm (hsend s m o)
    rcases List.mem_append.mp hm with hm | hm
    · exact absurd hm (warned.local.send_not_mem s m o)
    rcases List.mem_append.mp hm with hm | hm
    · exact diverted.send_mem hm
    · exact absurd hm ((evictEvents_local r d.msg.id).send_not_mem s m o)
  · exact hone
  · exact hnone
  · exact hevict

theorem handled_quiet (h : Decoded c (.inl v) ds) (m : Message T) (o : Outcome (Option Err)) :
    Quiet (ds ++ [⟨.handle m, o⟩]) :=
  h.quiet.append (Quiet.singleton rfl)

theorem handled_send_not_mem (h : Decoded c (.inl v) ds) (m : Message T) (o : Outcome (Option Err))
    (s : OutboundAdapter) (m' : Message P) (o' : Outcome (Option Err)) :
    ⟨.send s m', o'⟩ ∉ ds ++ [⟨.handle m, o⟩] := by
  intro hmem
  rcases List.mem_append.mp hmem with hmem | hmem
  · exact h.local.send_not_mem s m' o' hmem
  · simp at hmem

theorem handled_handle_mem (h : Decoded c (.inl v) ds) {m m' : Message T}
    {o' : Outcome (Option Err)} (hmem : ⟨.handle m', o'⟩ ∈ ds ++ [⟨.handle m, o⟩]) : o' = o := by
  rcases List.mem_append.mp hmem with hmem | hmem
  · exact absurd hmem (h.local.handle_not_mem m' o')
  · have heq := List.mem_singleton.mp hmem
    cases heq
    rfl

/-- A tail that settles after the decode and the handler and issues no further handler
call obeys the clauses that every branch shares. -/
theorem settlementLaw_handled {m : Message T} {ts : List (Event P T)} {r : Option Err}
    {settled : Bool} (hdec : Decoded c (.inl v) ds) (hr : handlerErr o = r)
    (hperm : ∀ err, r = some err → isPermanent (some err) = false) (ht : Settles d settled ts)
    (hhandle : ∀ m' o', ⟨.handle m', o'⟩ ∉ ts)
    (hdead : r ≠ none → acks d.tag ts ≠ 0 →
      ∃ s, c.policy.deadLetter = some s ∧ ⟨.send s d.msg, .returned none⟩ ∈ ts) :
    SettlementLaw c d r
      ((ds ++ [⟨.handle m, o⟩]) ++ (ts ++ evictEvents settled d.msg.id)) := by
  have hq := handled_quiet hdec m o
  have hsettles := ht.of_quiet_append hq
  obtain ⟨hacks, hnacks, hone, hnone, hevict⟩ := hsettles.evicting d.msg.id
  simp only [List.append_assoc _ ts] at hacks hnacks hone hnone hevict
  have hacks' : acks d.tag ((ds ++ [⟨.handle m, o⟩]) ++ ts) = acks d.tag ts := by
    rw [acks_append, (hq.counts d.tag).1]
    omega
  constructor
  · intro m' o' hm
    rcases List.mem_append.mp hm with hm | hm
    · rw [handled_handle_mem hdec hm, hr]
    rcases List.mem_append.mp hm with hm | hm
    · exact absurd hm (hhandle m' o')
    · exact absurd hm ((evictEvents_local settled d.msg.id).handle_not_mem m' o')
  · rw [hacks, hnacks]
    exact hsettles.once
  · intro err hrerr _ hacked
    rw [hacks, hacks'] at hacked
    obtain ⟨s, hsink, hs⟩ := hdead (by rw [hrerr]; exact Option.some_ne_none err) hacked
    exact ⟨s, hsink, List.mem_append_right _ (List.mem_append_left _ hs)⟩
  · intro err hrerr htrue
    rw [hperm err hrerr] at htrue
    cases htrue
  · intro err hrerr hlarge
    have hfalse := hperm err hrerr
    rw [isPermanent_of_tooLarge hlarge] at hfalse
    cases hfalse
  · exact hone
  · exact hnone
  · exact hevict

theorem Dispatched.settlementLaw {r : Option Err} (h : Dispatched c d r es) :
    SettlementLaw c d r es := by
  cases h with
  | undecodable ds es derr decoded invalid =>
      refine settlementLaw_invalid decoded.quiet decoded.local.send_not_mem ?_ ?_ invalid
      · intro m o hm
        exact absurd hm (decoded.local.handle_not_mem m o)
      · exact decoded.isPermanent
  | handled ds hs v o o' decoded ok fired =>
      have hlaw := settlementLaw_handled (m := ⟨v, d.msg.headers⟩) decoded ok (by simp)
        (settles_ack_fired fired) ?_ (by simp)
      · simpa using hlaw
      · intro m' o'' hm
        rcases List.mem_append.mp hm with hm | hm
        · exact (ackEvents_local d o').handle_not_mem m' o'' hm
        · split at fired
          · exact fired.local.handle_not_mem m' o'' hm
          · rw [fired] at hm
            cases hm
  | permanent ds es v o err decoded failed hperm invalid =>
      have hlaw := settlementLaw_invalid (handled_quiet decoded ⟨v, d.msg.headers⟩ o)
        (handled_send_not_mem decoded ⟨v, d.msg.headers⟩ o) ?_ hperm invalid
      · simpa using hlaw
      · intro m' o' hm
        rw [handled_handle_mem decoded hm, failed]
  | exhausted ds ns es v o err n r decoded failed hperm counted hn diverted =>
      have hlaw := settlementLaw_handled (m := ⟨v, d.msg.headers⟩) decoded failed
        (by simpa using hperm) (diverted.settles.of_quiet_append counted.quiet) ?_ ?_
      · simpa using hlaw
      · intro m' o' hm
        rcases List.mem_append.mp hm with hm | hm
        · exact counted.local.handle_not_mem m' o' hm
        · exact diverted.handle_not_mem m' o' hm
      · intro _ hacked
        rw [acks_append, (counted.quiet.counts d.tag).1, Nat.zero_add] at hacked
        obtain ⟨s, hsink, hs⟩ := diverted.accepted_of_acked hacked
        exact ⟨s, hsink, List.mem_append_right _ hs⟩
  | retried ds ns es v o err n decoded failed hperm counted hn redelivered =>
      have hlaw := settlementLaw_handled (m := ⟨v, d.msg.headers⟩) decoded failed
        (by simpa using hperm) (redelivered.settles.of_quiet_append counted.quiet) ?_ ?_
      · simpa [evictEvents] using hlaw
      · intro m' o' hm
        rcases List.mem_append.mp hm with hm | hm
        · exact counted.local.handle_not_mem m' o' hm
        · exact redelivered.local.handle_not_mem m' o' hm
      · intro _ hacked
        rw [acks_append, (counted.quiet.counts d.tag).1, redelivered.acks_eq_zero] at hacked
        exact absurd rfl hacked

end Msgin
