import Msgin.Producers
import Msgin.SettlementTails

/-!
# The effects of one pass of the poll loop

A pass that fetched a batch Nacks the rows it holds no credit for, returns the surplus
credits, and hands the rest to the workers row by row until the batch is through or a
hand-off is resolved to `ctx.Done`. Calls that fetch no batch, hand no delivery over and
Nack none are idle.
-/

namespace Msgin

open Interaction Prog

variable {P T : Type}

def isSent (d : ℕ) : Event P T → Bool
  | ⟨.handOff md, sent⟩ => md.tag == d && sent
  | _ => false

def sent (d : ℕ) (es : List (Event P T)) : ℕ := es.countP (isSent d)

theorem sent_append (d : ℕ) (es fs : List (Event P T)) :
    sent d (es ++ fs) = sent d es + sent d fs := List.countP_append

def isIdle (e : Event P T) : Bool :=
  match e.1 with
  | .handOff _ => false
  | .nack _ _ _ => false
  | .poll _ => false
  | _ => true

def Idle (es : List (Event P T)) : Prop := ∀ e ∈ es, isIdle e = true

theorem Idle.nil : Idle ([] : List (Event P T)) := by
  intro e h
  cases h

variable {es : List (Event P T)}

theorem Idle.cons {e : Event P T} (he : isIdle e = true) (hes : Idle es) : Idle (e :: es) := by
  intro e' h
  rcases List.mem_cons.mp h with rfl | h
  · exact he
  · exact hes e' h

theorem Idle.append {fs : List (Event P T)} (he : Idle es) (hf : Idle fs) : Idle (es ++ fs) := by
  intro e h
  rcases List.mem_append.mp h with h | h
  · exact he e h
  · exact hf e h

theorem Idle.counts (h : Idle es) (d : ℕ) : sent d es = 0 ∧ nacks d es = 0 := by
  unfold sent nacks
  simp only [List.countP_eq_zero]
  refine ⟨?_, ?_⟩
  all_goals
    intro e he
    have hi := h e he
    obtain ⟨q, r⟩ := e
    cases q <;> simp_all [isIdle, isSent, isNack]

theorem Idle.handOff_not_mem (h : Idle es) (md : Delivery P) (b : Bool) :
    ⟨.handOff md, b⟩ ∉ es := by
  intro hmem
  cases h _ hmem

theorem Idle.poll_not_mem (h : Idle es) (held : ℕ) (o : Outcome (List (Message P) × Option Err)) :
    ⟨.poll held, o⟩ ∉ es := by
  intro hmem
  cases h _ hmem

theorem effects_releaseN (n : ℕ) :
    Effects (fun _ es => Idle es) (releaseN n : Routine P T Unit) := by
  induction n with
  | zero => exact Idle.nil
  | succ n ih =>
      unfold releaseN
      rw [effects_perform_bind .release rfl]
      intro u
      exact ih.mono fun _ es hes => Idle.cons rfl hes

theorem effects_topUp (room held : ℕ) :
    Effects (fun _ es => Idle es) (topUp room held : Routine P T ℕ) := by
  induction room generalizing held with
  | zero => exact Idle.nil
  | succ room ih =>
      unfold topUp
      rw [effects_perform_bind .tryAcquire rfl]
      intro b
      cases b with
      | true => exact (ih (held + 1)).mono fun _ es hes => Idle.cons rfl hes
      | false => exact Idle.cons rfl Idle.nil

theorem effects_sleepCtx (d : ℤ) :
    Effects (fun _ es => Idle es) (sleepCtx d : Routine P T Bool) := by
  unfold sleepCtx
  split
  · exact Idle.nil
  · rw [effects_perform (.sleep d) rfl]
    intro b
    exact Idle.cons rfl Idle.nil

inductive NackedAll : List (Delivery P) → List (Event P T) → Prop
  | nil : NackedAll [] []
  | cons (d : Delivery P) (ds : List (Delivery P)) (o : Outcome (Option Err))
      (es : List (Event P T)) (rest : NackedAll ds es) :
      NackedAll (d :: ds) (nackEvents d true 0 o ++ es)

theorem effects_nackAll (ds : List (Delivery P)) :
    Effects (fun _ es => NackedAll ds es) (nackAll ds : Routine P T Unit) := by
  induction ds with
  | nil => exact NackedAll.nil
  | cons d ds ih =>
      unfold nackAll
      rw [effects_bind, effects_safeNack]
      intro o
      rw [effects_finish_bind]
      exact ih.mono fun _ es hes => NackedAll.cons d ds o es hes

variable (c : Consumer P T) (next held : ℕ) (rows : List (Delivery P))

theorem effects_creditedRows (held : ℕ) :
    Effects (fun kept es => kept = rows.take held ∧ NackedAll (rows.drop held) es)
      (creditedRows rows held : Routine P T (List (Delivery P))) := by
  unfold creditedRows
  split
  · unfold clampExcess
    rw [effects_logError_bind]
    refine Emits.bind (effects_nackAll (rows.drop held)) fun _ es hes => ?_
    rw [← Effects, effects_pure, List.append_nil]
    exact ⟨rfl, hes⟩
  · rename_i hle
    have hle' : rows.length ≤ held := Nat.le_of_not_lt hle
    rw [effects_pure, List.take_of_length_le hle', List.drop_eq_nil_of_le hle']
    exact ⟨rfl, NackedAll.nil⟩

/-- The hand-over of a batch: whether it ran to its end, and its calls. -/
inductive Handed : List (Delivery P) → Bool → List (Event P T) → Prop
  | nil : Handed [] true []
  | sent (d : Delivery P) (ds : List (Delivery P)) (r : Bool) (es : List (Event P T))
      (rest : Handed ds r es) :
      Handed (d :: ds) r
        (⟨.manage d.tag, ()⟩ :: ⟨.handOff { d with managed := true }, true⟩ :: es)
  | cut (d : Delivery P) (ds : List (Delivery P)) (o : Outcome (Option Err))
      (rs : List (Event P T)) (idle : Idle rs) :
      Handed (d :: ds) false
        (⟨.manage d.tag, ()⟩ :: ⟨.handOff { d with managed := true }, false⟩ ::
          (nackEvents { d with managed := true } true 0 o ++ rs))

theorem effects_handRows : Effects (Handed rows) (handRows rows : Routine P T Bool) := by
  induction rows with
  | nil => exact Handed.nil
  | cons d ds ih =>
      unfold handRows manage
      rw [effects_bind, effects_perform_bind (.manage d.tag) rfl]
      intro u
      rw [effects_pure, effects_perform_bind (.handOff { d with managed := true }) rfl]
      intro b
      cases b with
      | true => exact ih.mono fun r es hes => Handed.sent d ds r es hes
      | false =>
          rw [if_neg Bool.false_ne_true, effects_bind, effects_safeNack]
          intro o
          rw [effects_finish_bind]
          refine Emits.bind (effects_releaseN ds.length) fun _ rs hrs => ?_
          rw [← Effects, effects_pure, List.append_nil]
          exact Handed.cut d ds o rs hrs

theorem poll_not_mem_nackEvents (d : Delivery P) (requeue : Bool) (delay : ℤ)
    (o : Outcome (Option Err)) (held : ℕ) (o' : Outcome (List (Message P) × Option Err)) :
    ⟨.poll held, o'⟩ ∉ (nackEvents d requeue delay o : List (Event P T)) := by
  unfold nackEvents releaseEvents
  split <;> simp

theorem NackedAll.poll_not_mem {ds : List (Delivery P)} (h : NackedAll ds es) (held : ℕ)
    (o : Outcome (List (Message P) × Option Err)) : ⟨.poll held, o⟩ ∉ es := by
  induction h with
  | nil => exact List.not_mem_nil
  | cons d ds o' es rest ih =>
      intro hmem
      rcases List.mem_append.mp hmem with hmem | hmem
      · exact poll_not_mem_nackEvents d true 0 o' held o hmem
      · exact ih hmem

theorem Handed.poll_not_mem {rows : List (Delivery P)} {r : Bool} (h : Handed rows r es) (held : ℕ)
    (o : Outcome (List (Message P) × Option Err)) : ⟨.poll held, o⟩ ∉ es := by
  induction h with
  | nil => exact List.not_mem_nil
  | sent d ds r es rest ih => simpa using ih
  | cut d ds o' rs idle =>
      intro hmem
      simp only [List.mem_cons, List.mem_append] at hmem
      rcases hmem with hmem | hmem | hmem | hmem
      · cases hmem
      · cases hmem
      · exact poll_not_mem_nackEvents _ true 0 o' held o hmem
      · exact idle.poll_not_mem held o hmem

inductive Passed (next : ℕ) : List (Event P T) → Prop
  | idle (es : List (Event P T)) (h : Idle es) : Passed next es
  | failed (held : ℕ) (o : Outcome (List (Message P) × Option Err)) (qs rs : List (Event P T))
      (hq : Idle qs) (hr : Idle rs) (ho : ∀ ms, o ≠ .returned (ms, none)) :
      Passed next (qs ++ ⟨.poll held, o⟩ :: rs)
  | fetched (held : ℕ) (ms : List (Message P)) (r : Bool) (qs xs rs hs ss : List (Event P T))
      (hq : Idle qs) (hx : NackedAll ((number next ms).drop held) xs) (hr : Idle rs)
      (hh : Handed ((number next ms).take held) r hs) (hs' : Idle ss) :
      Passed next
        (qs ++ ⟨.poll held, .returned (ms, none)⟩ :: (xs ++ (rs ++ (hs ++ ss))))

theorem effects_safePoll {S : List (Message P) × Option Err → List (Event P T) → Prop}
    (max : ℕ) :
    Effects S (safePoll max) ↔
      (∀ res, S res [⟨.poll max, .returned res⟩]) ∧
      ∀ r, S ([], some (.new ("msgin: PollingSource.Poll panicked: " ++ r)))
        [⟨.poll max, .panicked r⟩] := by
  unfold safePoll
  rw [effects_perform_bind (.poll max) rfl]
  constructor
  · intro h
    exact ⟨fun res => h (.returned res), fun r => h (.panicked r)⟩
  · intro h o
    cases o with
    | returned res => exact h.1 res
    | panicked r => exact h.2 r

theorem effects_deliverRows :
    Effects (fun _ es => ∃ r rs hs ss, Idle rs ∧ Handed rows r hs ∧ Idle ss ∧
      es = rs ++ (hs ++ ss)) (deliverRows c next held rows) := by
  unfold deliverRows
  refine Emits.bind (effects_releaseN (held - rows.length)) fun _ rs hrs => ?_
  refine Emits.bind (effects_handRows rows) fun r hs hhs => ?_
  have hpure : ∀ ctl : Control P, Effects (fun _ fs => ∃ r rs' hs' ss, Idle rs' ∧
      Handed rows r hs' ∧ Idle ss ∧ rs ++ (hs ++ fs) = rs' ++ (hs' ++ ss))
      (pure ctl : Routine P T (Control P)) :=
    fun _ => ⟨r, rs, hs, [], hrs, hhs, Idle.nil, rfl⟩
  split
  · split
    · refine Emits.bind (effects_sleepCtx c.pollInterval) fun b ss hss => ?_
      cases b with
      | true => exact ⟨r, rs, hs, ss, hrs, hhs, hss, by rw [List.append_nil]⟩
      | false => exact ⟨r, rs, hs, ss, hrs, hhs, hss, by rw [List.append_nil]⟩
    · exact hpure _
  · exact hpure _

theorem effects_pollFailed (errN held : ℕ) (err : Err) :
    Effects (fun _ es => Idle es) (pollFailed c next errN held err) := by
  unfold pollFailed
  rw [effects_logError_bind]
  refine Emits.bind (effects_releaseN held) fun _ rs hrs => ?_
  refine Emits.bind (effects_sleepCtx _) fun b ss hss => ?_
  have hidle : Idle (rs ++ (ss ++ [])) := by
    rw [List.append_nil]
    exact hrs.append hss
  cases b with
  | true => exact hidle
  | false => exact hidle

theorem effects_pollLoop (errN : ℕ) :
    Effects (fun _ es => Passed next es) (pollLoop c next errN) := by
  unfold pollLoop
  rw [effects_perform_bind .acquire rfl]
  intro a
  cases a with
  | some err => exact .idle _ (Idle.cons rfl Idle.nil)
  | none =>
      refine Emits.bind (effects_topUp (c.pollMaxBatch - 1) 1) fun held ts hts => ?_
      have hq : Idle (⟨.acquire, none⟩ :: ts : List (Event P T)) := Idle.cons rfl hts
      have hfail : ∀ (err : Err) (o : Outcome (List (Message P) × Option Err)),
          (∀ ms, o ≠ .returned (ms, none)) →
          Effects (fun _ fs => Passed next (⟨.acquire, none⟩ :: (ts ++ ([⟨.poll held, o⟩] ++ fs))))
            (pollFailed c next errN held err) := by
        intro err o ho
        refine (effects_pollFailed c next errN held err).mono fun _ rs hrs => ?_
        simpa using Passed.failed held o _ rs hq hrs ho
      rw [← Effects, effects_bind, effects_safePoll]
      refine ⟨?_, fun r => hfail _ _ (by simp)⟩
      intro res
      obtain ⟨ms, err⟩ := res
      cases err with
      | some err => exact hfail err _ (by simp)
      | none =>
          refine Emits.bind (effects_creditedRows (number next ms) held) fun kept xs hk => ?_
          obtain ⟨rfl, hxs⟩ := hk
          refine (effects_deliverRows c (next + ms.length) held _).mono ?_
          rintro _ es ⟨r, rs, hs, ss, hrs, hhs, hss, rfl⟩
          simpa using Passed.fetched held ms r _ xs rs hs ss hq hxs hrs hhs hss

end Msgin
