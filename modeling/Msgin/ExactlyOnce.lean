import Msgin.InboxLaw
import Msgin.LeaseSafety

/-!
# A queue and an inbox

Workers claim messages from a queue table under the lease strategy, and handlers mark the ids in a
dedup table of the same database or another one. As on the settlement path, a delivery is acked only
after a handler has returned nil for its id or the message was diverted, being invalid or out of
attempts. Leases run out, claims are repeated, handlers fail and workers crash at will.
-/

namespace Msgin.Sql

/-- The queue, the business database, and the messages that were diverted. -/
structure PipelineState where
  queue : LeaseHistory
  inbox : InboxState
  diverted : List ℕ

/-- The databases, and the id header of each message. -/
structure Pipeline where
  queueEngine : Engine
  inboxEngine : Engine
  msgID : ℕ → String

namespace Pipeline

variable (p : Pipeline)

def new (now : ℤ) : PipelineState := ⟨.empty, .new now, []⟩

def Settled (s : PipelineState) (n : ℕ) : Prop := n ∈ s.diverted ∨ p.msgID n ∈ s.inbox.handled

inductive Step (s : PipelineState) : PipelineState → Prop
  | queue (call : LeaseCall) (q : LeaseHistory) (settled : ∀ n c, call = .ack n c → p.Settled s n)
      (stepped : leaseStep p.queueEngine s.queue call = some q) : Step s { s with queue := q }
  | handler (b : InboxState) (stepped : InboxStep p.inboxEngine none s.inbox b) :
      Step s { s with inbox := b }
  -- to the dead-letter or the invalid-message sink
  | divert (n : ℕ) : Step s { s with diverted := n :: s.diverted }

abbrev Reaches : PipelineState → PipelineState → Prop := Relation.ReflTransGen p.Step

variable {p} {s s' : PipelineState} {n m : ℕ} {c d : LeaseClaim} {logs : ℕ → MessageLog}
  {applied : Bool}

theorem acked_of_recordAck (hc : c ∈ (recordAck applied m d logs n).acked) :
    c ∈ (logs n).acked ∨ LeaseCall.ack m d = .ack n c := by
  cases applied with
  | false => exact .inl hc
  | true =>
      by_cases hn : n = m
      · subst hn
        rw [recordAck_self] at hc
        rcases List.mem_cons.mp hc with rfl | hc
        · exact .inr rfl
        · exact .inl hc
      · rw [recordAck_of_ne hn] at hc
        exact .inl hc

theorem acked_of_recordNack (hc : c ∈ (recordNack applied m d logs n).acked) :
    c ∈ (logs n).acked := by
  cases applied with
  | false => exact hc
  | true =>
      by_cases hn : n = m
      · subst hn
        rw [recordNack_self] at hc
        exact hc
      · rw [recordNack_of_ne hn] at hc
        exact hc

/-- The only call that adds to the acked claims of a message is an `Ack` of one of them. -/
theorem acked_of_leaseStep {e : Engine} {h h' : LeaseHistory} {call : LeaseCall}
    (hstep : leaseStep e h call = some h') (hc : c ∈ (h'.logs n).acked) :
    c ∈ (h.logs n).acked ∨ call = .ack n c := by
  cases call with
  | insert gap delay now =>
      cases hstep
      exact .inl hc
  | claim limit w leaseTTL now locked tie =>
      cases hstep
      rcases recordClaims_eq (selectClaimable e limit leaseTTL now locked tie h.table.rows) w now
        h.logs n with ⟨-, hsame⟩ | ⟨q, -, -, hpush⟩
      · exact .inl (hsame ▸ hc)
      · have hc' : c ∈ ((h.logs n).push ⟨q.id, w, q.leaseEpoch + 1, now⟩).acked := hpush ▸ hc
        exact .inl hc'
  | ack m d =>
      simp only [leaseStep, Option.ite_none_right_eq_some, Option.some.injEq] at hstep
      obtain ⟨-, rfl⟩ := hstep
      exact acked_of_recordAck hc
  | nack m d delay now =>
      simp only [leaseStep, Option.ite_none_right_eq_some, Option.some.injEq] at hstep
      obtain ⟨-, rfl⟩ := hstep
      exact .inl (acked_of_recordNack hc)

theorem handled_subset {e : Engine} {window : Option ℤ} {b b' : InboxState}
    (hstep : InboxStep e window b b') : b.handled ⊆ b'.handled := by
  cases hstep with
  | commit | skip => exact List.subset_append_left _ _
  | _ => exact List.Subset.refl _

structure Inv (p : Pipeline) (s : PipelineState) : Prop where
  history : HistoryOf s.queue
  issued : Issued s.queue
  inbox : InboxInv p.inboxEngine none s.inbox
  acked : ∀ n, ∀ c ∈ (s.queue.logs n).acked, p.Settled s n

theorem Inv.step (hi : Inv p s) (he : p.queueEngine.reusesIDs = false) (hstep : p.Step s s') :
    Inv p s' := by
  cases hstep with
  | queue call q settled stepped =>
      have htwin := callNoTwin_of_issued hi.history hi.issued stepped
      refine ⟨historyOf_step hi.history stepped htwin, issued_step he hi.history hi.issued stepped,
        hi.inbox, fun n c hc => ?_⟩
      exact (acked_of_leaseStep stepped hc).elim (hi.acked n c) (settled n c)
  | handler b stepped =>
      refine ⟨hi.history, hi.issued, hi.inbox.step stepped, fun n c hc => ?_⟩
      exact (hi.acked n c hc).imp id fun hhandled => handled_subset stepped hhandled
  | divert m =>
      exact ⟨hi.history, hi.issued, hi.inbox,
        fun n c hc => (hi.acked n c hc).imp (List.mem_cons_of_mem m) id⟩

theorem Inv.reaches (hi : Inv p s) (he : p.queueEngine.reusesIDs = false) (hr : p.Reaches s s') :
    Inv p s' :=
  TransitionRuns.reaches_invariant (fun _ _ h hstep => h.step he hstep) hi hr

end Pipeline

end Msgin.Sql
