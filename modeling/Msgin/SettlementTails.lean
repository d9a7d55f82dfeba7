import Msgin.DispatchEffects

/-!
# Quiet stretches and settling tails

`Settles` is what every way of settling a delivery shares: one Ack or Nack, a terminal
hook only beside an Ack, and a report of success only after an Ack that returned nil.
Calls that touch none of this are quiet, so each branch of a dispatch is a quiet stretch
followed by one of the settling tails.
-/

namespace Msgin

open Interaction Prog

variable {P T : Type}

def isAck (d : ℕ) (e : Event P T) : Bool :=
  match e.1 with
  | .ack n => n == d
  | _ => false

def isNack (d : ℕ) (e : Event P T) : Bool :=
  match e.1 with
  | .nack n _ _ => n == d
  | _ => false

def isTerminalHook (e : Event P T) : Bool :=
  match e.1 with
  | .fire .onAck _ _ => true
  | .fire .onInvalidMessage _ _ => true
  | .fire .onDeadLetter _ _ => true
  | _ => false

def isEvict (e : Event P T) : Bool :=
  match e.1 with
  | .evict _ => true
  | _ => false

def acks (d : ℕ) (es : List (Event P T)) : ℕ := es.countP (isAck d)
def nacks (d : ℕ) (es : List (Event P T)) : ℕ := es.countP (isNack d)
def terminalHooks (es : List (Event P T)) : ℕ := es.countP isTerminalHook
def evictions (es : List (Event P T)) : ℕ := es.countP isEvict

theorem acks_append (d : ℕ) (es fs : List (Event P T)) :
    acks d (es ++ fs) = acks d es + acks d fs := List.countP_append

theorem nacks_append (d : ℕ) (es fs : List (Event P T)) :
    nacks d (es ++ fs) = nacks d es + nacks d fs := List.countP_append

theorem terminalHooks_append (es fs : List (Event P T)) :
    terminalHooks (es ++ fs) = terminalHooks es + terminalHooks fs := List.countP_append

theorem evictions_append (es fs : List (Event P T)) :
    evictions (es ++ fs) = evictions es + evictions fs := List.countP_append

def isQuiet (e : Event P T) : Bool :=
  match e.1 with
  | .ack _ => false
  | .nack _ _ _ => false
  | .fire .onRetry _ _ => true
  | .fire _ _ _ => false
  | .evict _ => false
  | _ => true

def Quiet (es : List (Event P T)) : Prop := ∀ e ∈ es, isQuiet e = true

variable {es hs : List (Event P T)} {c : Consumer P T} {d : Delivery P}
  {sink : Option OutboundAdapter} {hook : Hook} {cause : Err} {r : Bool} {m : Message P}
  {o : Outcome (Option Err)} {n : ℤ}

theorem Quiet.append {fs : List (Event P T)} (he : Quiet es) (hf : Quiet fs) :
    Quiet (es ++ fs) := by
  intro e h
  rcases List.mem_append.mp h with h | h
  · exact he e h
  · exact hf e h

theorem Quiet.singleton {e : Event P T} (h : isQuiet e = true) : Quiet [e] := by
  intro e' he
  rwa [List.mem_singleton.mp he]

theorem Quiet.nil : Quiet ([] : List (Event P T)) := by
  intro e h
  cases h

theorem Quiet.counts (h : Quiet es) (d : ℕ) :
    acks d es = 0 ∧ nacks d es = 0 ∧ terminalHooks es = 0 ∧ evictions es = 0 := by
  unfold acks nacks terminalHooks evictions
  simp only [List.countP_eq_zero]
  refine ⟨?_, ?_, ?_, ?_⟩
  all_goals
    intro e he
    have hq := h e he
    obtain ⟨q, r⟩ := e
    cases q
    all_goals try (rename_i hook _ _; cases hook)
    all_goals simp_all [isQuiet, isAck, isNack, isTerminalHook, isEvict]

theorem Decoded.quiet {res : T ⊕ Err} (h : Decoded c res es) : Quiet es := by
  cases h with
  | asserted v => exact Quiet.nil
  | rejected e h => exact Quiet.nil
  | decoded b v => exact Quiet.singleton rfl
  | failed b o e h => exact Quiet.singleton rfl

theorem Counted.quiet (h : Counted d n es) : Quiet es := by
  cases h with
  | header h => exact Quiet.nil
  | tracker h => exact Quiet.singleton rfl

theorem FellBack.quiet {b : Bool} (h : FellBack b es) : Quiet es := by
  cases h with
  | no h => exact Quiet.nil
  | yes h first => exact Quiet.singleton rfl

theorem SendFailed.quiet (h : SendFailed sink m es) : Quiet es := by
  cases h with
  | unset h => exact Quiet.nil
  | failed s o set h => exact Quiet.singleton rfl

theorem releaseEvents_quiet (d : Delivery P) : Quiet (releaseEvents d : List (Event P T)) := by
  unfold releaseEvents
  split
  · exact Quiet.singleton rfl
  · exact Quiet.nil

theorem Fired.quiet_of_onRetry {cause : Option Err} (h : Fired c .onRetry m cause es) :
    Quiet es := by
  cases h with
  | unset h => exact Quiet.nil
  | called h o => exact Quiet.singleton rfl

/-- The calls `es` settle the delivery once and report `settled`. -/
structure Settles (d : Delivery P) (settled : Bool) (es : List (Event P T)) : Prop where
  once : acks d.tag es + nacks d.tag es = 1
  hooks_le : terminalHooks es ≤ acks d.tag es
  acked : settled = true → ⟨.ack d.tag, .returned none⟩ ∈ es
  kept : evictions es = 0

theorem Settles.of_quiet_append {settled : Bool} {qs : List (Event P T)} (hq : Quiet qs)
    (h : Settles d settled es) : Settles d settled (qs ++ es) := by
  obtain ⟨hacks, hnacks, hhooks, hevict⟩ := hq.counts d.tag
  obtain ⟨honce, hle, hacked, hkept⟩ := h
  refine ⟨?_, ?_, fun hs => List.mem_append_right qs (hacked hs), ?_⟩
  · rw [acks_append, nacks_append]
    omega
  · rw [acks_append, terminalHooks_append]
    omega
  · rw [evictions_append]
    omega

theorem Settles.of_quiet_cons {settled : Bool} {e : Event P T} (hq : isQuiet e = true)
    (h : Settles d settled es) : Settles d settled (e :: es) :=
  Settles.of_quiet_append (Quiet.singleton hq) h

theorem ackEvents_counts (d : Delivery P) (o : Outcome (Option Err)) :
    acks d.tag (ackEvents d o : List (Event P T)) = 1 ∧
      nacks d.tag (ackEvents d o : List (Event P T)) = 0 ∧
      terminalHooks (ackEvents d o : List (Event P T)) = 0 ∧
      evictions (ackEvents d o : List (Event P T)) = 0 := by
  obtain ⟨hacks, hnacks, hhooks, hevict⟩ := (releaseEvents_quiet (T := T) d).counts d.tag
  unfold ackEvents
  rw [acks_append, nacks_append, terminalHooks_append, evictions_append, hacks, hnacks, hhooks,
    hevict]
  simp [acks, nacks, terminalHooks, evictions, isAck, isNack, isTerminalHook, isEvict]

theorem ack_mem_ackEvents (h : o.succeeded = true) :
    ⟨.ack d.tag, .returned none⟩ ∈ (ackEvents d o : List (Event P T)) := by
  rw [Outcome.eq_returned_none h]
  exact List.mem_append_right _ (List.mem_singleton_self _)

theorem nackEvents_counts (d : Delivery P) (requeue : Bool) (delay : ℤ)
    (o : Outcome (Option Err)) :
    acks d.tag (nackEvents d requeue delay o : List (Event P T)) = 0 ∧
      nacks d.tag (nackEvents d requeue delay o : List (Event P T)) = 1 ∧
      terminalHooks (nackEvents d requeue delay o : List (Event P T)) = 0 ∧
      evictions (nackEvents d requeue delay o : List (Event P T)) = 0 := by
  obtain ⟨hacks, hnacks, hhooks, hevict⟩ := (releaseEvents_quiet (T := T) d).counts d.tag
  unfold nackEvents
  rw [acks_append, nacks_append, terminalHooks_append, evictions_append, hacks, hnacks, hhooks,
    hevict]
  simp [acks, nacks, terminalHooks, evictions, isAck, isNack, isTerminalHook, isEvict]

theorem settles_nackEvents (d : Delivery P) (requeue : Bool) (delay : ℤ)
    (o : Outcome (Option Err)) :
    Settles d false (nackEvents d requeue delay o : List (Event P T)) := by
  obtain ⟨hacks, hnacks, hhooks, hevict⟩ := nackEvents_counts (T := T) d requeue delay o
  exact ⟨by omega, by omega, nofun, hevict⟩

theorem Redelivered.acks_eq_zero (h : Redelivered c d cause n es) : acks d.tag es = 0 := by
  obtain ⟨hs, o, fired⟩ := h
  rw [acks_append, (fired.quiet_of_onRetry.counts d.tag).1, (nackEvents_counts d true _ o).1]

theorem Redelivered.settles (h : Redelivered c d cause n es) : Settles d false es := by
  obtain ⟨hs, o, fired⟩ := h
  exact Settles.of_quiet_append fired.quiet_of_onRetry (settles_nackEvents d true _ o)

theorem Fired.counts {cause : Option Err} (h : Fired c hook m cause hs) (d : ℕ) :
    acks d hs = 0 ∧ nacks d hs = 0 ∧ terminalHooks hs ≤ 1 ∧ evictions hs = 0 := by
  cases h with
  | unset h => exact ⟨rfl, rfl, Nat.zero_le 1, rfl⟩
  | called h o => exact ⟨rfl, rfl, List.countP_le_length, rfl⟩

theorem settles_fired_ack {cause : Option Err} (fired : Fired c hook d.msg cause hs)
    (o : Outcome (Option Err)) : Settles d o.succeeded (hs ++ ackEvents d o) := by
  obtain ⟨hacks, hnacks, hhooks, hevict⟩ := fired.counts d.tag
  obtain ⟨hacks', hnacks', hhooks', hevict'⟩ := ackEvents_counts (T := T) d o
  refine ⟨?_, ?_, fun hs => List.mem_append_right _ (ack_mem_ackEvents hs), ?_⟩
  · rw [acks_append, nacks_append]
    omega
  · rw [acks_append, terminalHooks_append]
    omega
  · rw [evictions_append]
    omega

theorem settles_ack_fired (fired : if o.succeeded then Fired c .onAck d.msg none hs else hs = []) :
    Settles d o.succeeded (ackEvents d o ++ hs) := by
  have hcounts : acks d.tag hs = 0 ∧ nacks d.tag hs = 0 ∧ terminalHooks hs ≤ 1 ∧
      evictions hs = 0 := by
    split at fired
    · exact fired.counts d.tag
    · subst fired
      exact ⟨rfl, rfl, Nat.zero_le 1, rfl⟩
  obtain ⟨hacks, hnacks, hhooks, hevict⟩ := hcounts
  obtain ⟨hacks', hnacks', hhooks', hevict'⟩ := ackEvents_counts (T := T) d o
  refine ⟨?_, ?_, fun hs => List.mem_append_left _ (ack_mem_ackEvents hs), ?_⟩
  · rw [acks_append, nacks_append]
    omega
  · rw [acks_append, terminalHooks_append]
    omega
  · rw [evictions_append]
    omega

theorem SettledTerminal.settles {e : Err} (h : SettledTerminal c d hook e r es) :
    Settles d r es := by
  obtain ⟨hs, o, fired⟩ := h
  exact settles_fired_ack fired o

theorem SettledTerminal.nacks_eq_zero {e : Err} (h : SettledTerminal c d hook e r es) :
    nacks d.tag es = 0 := by
  obtain ⟨hs, o, fired⟩ := h
  rw [nacks_append, (fired.counts d.tag).2.1, (ackEvents_counts d o).2.1]

theorem DivertedTerminal.settles (h : DivertedTerminal c sink d hook cause r es) :
    Settles d r es := by
  cases h with
  | discarded _ _ unset settled => exact settled.settles
  | accepted s _ es set settled => exact settled.settles.of_quiet_cons rfl
  | refused s o err _ es set failed settled =>
      exact (settled.settles.of_quiet_cons rfl).of_quiet_cons rfl
  | aborted s o o' set failed =>
      exact ((settles_nackEvents d true 0 o').of_quiet_cons rfl).of_quiet_cons rfl

theorem Diverted.settles (h : Diverted c sink d hook cause n r es) : Settles d r es := by
  cases h with
  | accepted s _ es set settled => exact settled.settles.of_quiet_cons rfl
  | retried ss es failed settled => exact settled.settles.of_quiet_append failed.quiet

/-- An invalid message is Nacked only when its divert was cut short by a shutdown. -/
theorem DivertedTerminal.aborted_of_nacked (h : DivertedTerminal c sink d hook cause r es)
    (hn : nacks d.tag es ≠ 0) :
    ∃ s o, sink = some s ∧ ⟨.send s d.msg, o⟩ ∈ es ∧ o.succeeded = false ∧
      ⟨.settleDone, true⟩ ∈ es := by
  cases h with
  | discarded _ _ unset settled => exact absurd settled.nacks_eq_zero hn
  | accepted s _ es set settled => exact absurd settled.nacks_eq_zero hn
  | refused s o err _ es set failed settled => exact absurd settled.nacks_eq_zero hn
  | aborted s o o' set failed =>
      refine ⟨s, o, set, List.mem_cons_self, failed, ?_⟩
      exact List.mem_cons_of_mem _ List.mem_cons_self

/-- An exhausted message is Acked only after the sink accepted it. -/
theorem Diverted.accepted_of_acked (h : Diverted c sink d hook cause n r es)
    (ha : acks d.tag es ≠ 0) : ∃ s, sink = some s ∧ ⟨.send s d.msg, .returned none⟩ ∈ es := by
  cases h with
  | accepted s _ es set settled => exact ⟨s, set, List.mem_cons_self⟩
  | retried ss es failed settled =>
      have hss := (failed.quiet.counts d.tag).1
      have hes := settled.acks_eq_zero
      rw [acks_append] at ha
      omega

end Msgin
