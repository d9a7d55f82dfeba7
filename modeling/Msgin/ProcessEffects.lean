import Msgin.SettlementCalls
import Msgin.SettlementLaw

/-!
# The effects of processing one delivery

A worker either declines a delivery, when the drain deadline has passed or the breaker
denies it, or dispatches it and records the outcome.
-/

namespace Msgin

open Interaction Prog

variable {P T : Type}

def Governed (es : List (Event P T)) : Prop := ∀ e ∈ es, e.1.isGovernor = true

theorem Governed.append {es fs : List (Event P T)} (he : Governed es) (hf : Governed fs) :
    Governed (es ++ fs) :=
  List.forall_mem_append.mpr ⟨he, hf⟩

theorem effects_governed {α : Type} {p : Routine P T α}
    (h : Only (fun q => q.isGovernor = true) p) : Effects (fun _ es => Governed es) p :=
  Only.emits h

inductive Processed (c : Consumer P T) (d : Delivery P) : List (Event P T) → Prop
  | declined (gs : List (Event P T)) (o : Outcome (Option Err)) (governed : Governed gs) :
      Processed c d (gs ++ nackEvents d true 0 o)
  | dispatched (gs es rs : List (Event P T)) (err : Option Err) (governed : Governed gs)
      (dispatched : Dispatched c d err es) (recorded : Governed rs) :
      Processed c d (gs ++ (es ++ rs))

variable (c : Consumer P T) (d : Delivery P)

theorem effects_decline {gs : List (Event P T)} (hgs : Governed gs) :
    Effects (fun _ es => Processed c d (gs ++ es))
      (do finish (← safeNack d true 0) : Routine P T Unit) := by
  rw [effects_bind, effects_safeNack]
  intro o
  rw [effects_finish, List.append_nil]
  exact .declined gs o hgs

theorem effects_dispatch_record {gs : List (Event P T)} (hgs : Governed gs) :
    Effects (fun _ es => Processed c d (gs ++ es))
      (do
        let err ← dispatch c d
        if c.breaker then safeRecord d.msg.id (err.isNone || isPermanent err)) := by
  apply Emits.bind (dispatch_effects c d)
  intro err es hes
  have hrecord : Effects (fun _ rs => Governed rs)
      (if c.breaker then safeRecord d.msg.id (err.isNone || isPermanent err) else pure () :
        Routine P T Unit) := by
    apply effects_governed
    split
    · exact only_safeRecord (fun q hq => hq) _ _
    · exact only_pure ()
  exact hrecord.mono fun _ rs hrs => .dispatched gs es rs err hgs hes hrs

theorem effects_denied (id : String) :
    Effects (fun _ es => Governed es)
      (if c.breaker then return !(← dispatchAllowed c id) else return false :
        Routine P T Bool) := by
  apply effects_governed
  split
  · exact Only.bind (only_dispatchAllowed (fun q hq => hq) c id) fun ok => only_pure _
  · exact only_pure _

theorem effects_processUnreleased :
    Effects (fun _ es => Processed c d es) (processUnreleased c d) := by
  unfold processUnreleased
  rw [effects_perform_bind .drainDone rfl]
  intro done
  have hdone : Governed [(⟨.drainDone, done⟩ : Event P T)] := by simp [Governed, Call.isGovernor]
  cases done with
  | true => exact effects_decline c d hdone
  | false =>
      apply Emits.bind (effects_denied c d.msg.id)
      intro denied gs hgs
      have hgoverned := hdone.append hgs
      cases denied with
      | true => exact effects_decline c d hgoverned
      | false => exact effects_dispatch_record c d hgoverned

theorem effects_process :
    Effects (fun _ es => ∃ ps, Processed c d ps ∧ es = ps ++ [⟨.releaseOnce d.tag, ()⟩])
      (process c d) := by
  apply Emits.bind (effects_processUnreleased c d)
  intro _ ps hps
  rw [← Effects, effects_perform (.releaseOnce d.tag) rfl]
  intro _
  exact ⟨ps, hps, rfl⟩

def isTransientFailure : Event P T → Bool
  | ⟨.handle _, o⟩ => (handlerErr o).any fun err => !isPermanent (some err)
  | _ => false

section Sent

variable {c : Consumer P T} {d : Delivery P} {es : List (Event P T)} {s : OutboundAdapter} {n : ℤ}

theorem isTransientFailure_of_isLog (e : Event P T) (h : e.1.isLog = true) :
    isTransientFailure e = false := by
  obtain ⟨q, r⟩ := e
  cases q <;> simp_all [Call.isLog, isTransientFailure]

theorem handled_of_transientFailure (h : es.any isTransientFailure = true) :
    ∃ m o err, ⟨.handle m, o⟩ ∈ es ∧ handlerErr o = some err ∧ isPermanent (some err) = false := by
  rw [List.any_eq_true] at h
  obtain ⟨⟨q, o⟩, he, ht⟩ := h
  cases q with
  | handle m =>
      simp only [isTransientFailure, Option.any_eq_true] at ht
      obtain ⟨err, herr, hperm⟩ := ht
      exact ⟨m, o, err, he, herr, by simpa using hperm⟩
  | _ => simp [isTransientFailure] at ht

theorem Dispatched.exhausted_of_sent {r : Option Err} (h : Dispatched c d r es)
    (hint : d.msg.headers.int headerDeliveryCount = some n)
    (hfail : es.any isTransientFailure = true) (hsent : es.any (isSendTo s) = true) :
    Msgin.exhausted c n = true := by
  obtain ⟨m, o, err, hmem, herr, hperm⟩ := handled_of_transientFailure hfail
  have hr : r = some err := (h.settlementLaw.handlerError m o hmem).trans herr
  cases h with
  | undecodable ds es derr decoded invalid =>
      obtain rfl := Option.some.inj hr
      simp [decoded.isPermanent] at hperm
  | handled ds hs v o o' decoded ok fired => cases hr
  | permanent ds es v o err' decoded failed hperm' invalid =>
      obtain rfl := Option.some.inj hr
      simp [hperm'] at hperm
  | exhausted ds ns es v o err' n' r' decoded failed hperm' counted hn diverted =>
      cases counted with
      | header hint' =>
          obtain rfl : n' = n := by simpa [hint'] using hint
          exact hn
      | tracker hint' => simp [hint'] at hint
  | retried ds ns es v o err' n' decoded failed hperm' counted hn redelivered =>
      rw [List.any_append, List.any_cons, List.any_append, decoded.not_sendTo,
        counted.not_sendTo, redelivered.not_sendTo] at hsent
      simp [isSendTo] at hsent

theorem Governed.not_sendTo (h : Governed es) : es.any (isSendTo s) = false := by
  rw [List.any_eq_false]
  rintro ⟨q, r⟩ he
  have hq := h _ he
  cases q <;> simp_all [Call.isGovernor, isSendTo]

theorem Governed.not_transientFailure (h : Governed es) : es.any isTransientFailure = false := by
  rw [List.any_eq_false]
  rintro ⟨q, r⟩ he
  have hq := h _ he
  cases q <;> simp_all [Call.isGovernor, isTransientFailure]

theorem nackEvents_not_transientFailure (requeue : Bool) (delay : ℤ) (o : Outcome (Option Err)) :
    (nackEvents d requeue delay o : List (Event P T)).any isTransientFailure = false := by
  rw [List.any_eq_false]
  rintro ⟨q, r⟩ he
  rcases nackEvents_call he with hq | hq <;>
    · dsimp only at hq
      subst hq
      simp [isTransientFailure]

theorem Processed.exhausted_of_sent (h : Processed c d es)
    (hint : d.msg.headers.int headerDeliveryCount = some n)
    (hfail : es.any isTransientFailure = true) (hsent : es.any (isSendTo s) = true) :
    exhausted c n = true := by
  cases h with
  | declined gs o governed =>
      simp [governed.not_transientFailure, nackEvents_not_transientFailure] at hfail
  | dispatched gs es rs err governed dispatched recorded =>
      simp only [List.any_append, governed.not_transientFailure, recorded.not_transientFailure,
        Bool.false_or, Bool.or_false] at hfail
      simp only [List.any_append, governed.not_sendTo, recorded.not_sendTo, Bool.false_or,
        Bool.or_false] at hsent
      exact dispatched.exhausted_of_sent hint hfail hsent

theorem process_exhausted_of_sent (c : Consumer P T) (d : Delivery P) (env : Environment P T)
    (hint : d.msg.headers.int headerDeliveryCount = some n)
    (hfail : ((process c d).trace env).any isTransientFailure = true)
    (hsent : ((process c d).trace env).any (isSendTo s) = true) : exhausted c n = true := by
  obtain ⟨ps, hps, heq⟩ := (effects_process c d).effects env
  simp only [effects] at heq
  rw [← any_effects isTransientFailure_of_isLog, heq, List.any_append] at hfail
  rw [← any_effects (isSendTo_of_isLog s), heq, List.any_append] at hsent
  apply hps.exhausted_of_sent hint
  · simpa [isTransientFailure] using hfail
  · simpa [isSendTo] using hsent

end Sent

end Msgin
