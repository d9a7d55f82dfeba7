import Msgin.Exchange
import Msgin.KeyedMaps
import Msgin.RendezvousSteps

/-!
# The phases of an exchange

Where a call of `Exchange` and an invocation of the receiver stand, with what is left to do
in each phase. Seen through its phases an exchange is a rendezvous of its calls with its
receivers over the slots of the correlator, with the correlation id as the key.
-/

namespace Msgin

open Interaction Prog Rendezvous

variable {P : Type}

inductive CallPhase (P : Type)
  | absent
  | calling (req : Message P)
  | sending (req : Message P) (slot : ℕ)
  | waiting (req : Message P) (slot : ℕ)
  | unsettled (req : Message P) (slot : ℕ) (f : ExchangeFailure)
  | draining (req : Message P) (slot : ℕ) (f : ExchangeFailure)
  | routing (req : Message P) (slot : ℕ) (reply : Reply P) (f : ExchangeFailure)
  -- The sink failed.
  | warning (req : Message P) (slot : ℕ) (reply : Reply P) (err : Err) (f : ExchangeFailure)
  | routed (req : Message P) (slot : ℕ) (reply : Reply P) (f : ExchangeFailure)
  | returned (req : Message P) (slot : ℕ) (reply : Reply P)
  | failed (req : Message P) (f : ExchangeFailure)

inductive ReceiverPhase (P : Type)
  | absent
  | delivering (msg : Message P)
  | committed (slot : ℕ) (msg : Message P)
  | delivered (slot : ℕ) (msg : Message P)
  | routing (msg : Message P)
  | warning (msg : Message P) (err : Err)
  | routed (msg : Message P)

namespace CallPhase

def code (sink : Bool) : CallPhase P → Option (ExchangeRoutine P (ExchangeResult P))
  | absent => none
  | calling req => some (exchange sink req)
  | sending req slot => some (sendRequest sink req slot)
  | waiting req slot => some (awaitReply sink req.correlationID slot)
  | unsettled req slot f => some (Msgin.unsettled sink req.correlationID slot f)
  | draining _ slot f => some (drain sink slot >>= fun _ => return .failed f)
  | routing _ _ reply f => some (routeUnmatched sink reply >>= fun _ => return .failed f)
  | warning _ _ reply err f => some (issue (.warnSinkFailed reply err) >>= fun _ => return .failed f)
  | routed _ _ _ f => some (return .failed f)
  | returned _ _ reply => some (return .reply reply)
  | failed _ f => some (return .failed f)

def request : CallPhase P → Option (Message P)
  | absent => none
  | calling req | sending req _ | waiting req _ | unsettled req _ _ | draining req _ _
  | routing req _ _ _ | warning req _ _ _ _ | routed req _ _ _ | returned req _ _
  | failed req _ => some req

def view : CallPhase P → Holder String (Message P)
  | absent | calling _ | failed _ _ => .away
  | sending req slot | waiting req slot | unsettled req slot _ => .holding req.correlationID slot
  | draining req slot _ => .draining req.correlationID slot
  | routing req slot reply _ | warning req slot reply _ _ | routed req slot reply _
  | returned req slot reply => .taken req.correlationID slot reply.1 reply.2

def routedReply : CallPhase P → Option ℕ
  | warning _ _ reply _ _ | routed _ _ reply _ => some reply.1
  | _ => none

theorem view_of_routedReply {p : CallPhase P} {n : ℕ} (h : p.routedReply = some n) :
    ∃ id slot v, p.view = .taken id slot n v := by
  cases p <;> simp [routedReply] at h <;> subst h <;> exact ⟨_, _, _, rfl⟩

end CallPhase

variable {slot : ℕ}

namespace ReceiverPhase

def code (sink : Bool) (n : ℕ) : ReceiverPhase P → Option (ExchangeRoutine P Unit)
  | absent => none
  | delivering msg => some (receiver sink (n, msg))
  | committed slot msg => some (issue (.sendSlot slot (n, msg)))
  | delivered _ _ => some (return ())
  | routing msg => some (routeUnmatched sink (n, msg))
  | warning msg err => some (issue (.warnSinkFailed (n, msg) err))
  | routed _ => some (return ())

def message : ReceiverPhase P → Option (Message P)
  | absent => none
  | delivering msg | committed _ msg | delivered _ msg | routing msg | warning msg _
  | routed msg => some msg

def view : ReceiverPhase P → Deliverer (Message P)
  | committed slot msg => .committed slot msg
  | delivered slot msg => .delivered slot msg
  | _ => .away

theorem eq_of_view_committed {p : ReceiverPhase P} {msg : Message P}
    (h : p.view = .committed slot msg) : p = .committed slot msg := by
  cases p <;> simp_all [view]

theorem eq_of_view_delivered {p : ReceiverPhase P} {msg : Message P}
    (h : p.view = .delivered slot msg) : p = .delivered slot msg := by
  cases p <;> simp_all [view]

def isRouted : ReceiverPhase P → Bool
  | warning _ _ | routed _ => true
  | _ => false

end ReceiverPhase

namespace ReplyCorrelator

theorem closeSlots_eq (ws : List (Σ _ : String, ℕ)) (slots : ℕ → Chan (Reply P) 1)
    (hopen : ∀ w ∈ ws, slots w.2 = .make _ 1) (hnodup : (ws.map Sigma.snd).Nodup) :
    ∃ slots', closeSlots slots ws = some slots' ∧ (∀ w ∈ ws, slots' w.2 = .shut _ 1) ∧
      ∀ i, (∀ w ∈ ws, w.2 ≠ i) → slots' i = slots i := by
  induction ws generalizing slots with
  | nil => exact ⟨slots, rfl, by simp, fun _ _ => rfl⟩
  | cons w ws ih =>
      obtain ⟨hnew, hrest⟩ := List.nodup_cons.mp hnodup
      have hne : ∀ x ∈ ws, x.2 ≠ w.2 := fun x hx heq =>
        hnew (List.mem_map.mpr ⟨x, hx, heq⟩)
      obtain ⟨slots', hclose, hshut, hkept⟩ := ih (Function.update slots w.2 (.shut _ 1))
        (fun x hx => by
          rw [Function.update_of_ne (hne x hx)]
          exact hopen x (List.mem_cons_of_mem _ hx)) hrest
      refine ⟨slots', ?_, ?_, ?_⟩
      · simpa [closeSlots, hopen w List.mem_cons_self] using hclose
      · intro x hx
        rcases List.mem_cons.mp hx with rfl | hx
        · rw [hkept x.2 hne, Function.update_self]
        · exact hshut x hx
      · intro i hi
        rw [hkept i fun x hx => hi x (List.mem_cons_of_mem _ hx),
          Function.update_of_ne (hi w List.mem_cons_self).symm]

end ReplyCorrelator

structure Phases (P : Type) where
  -- The call that made a slot.
  owner : ℕ → ℕ
  calls : ℕ → CallPhase P
  receivers : ℕ → ReceiverPhase P

namespace Phases

def board (ph : Phases P) (c : ReplyCorrelator P) : Board String (Message P) where
  waiter := fun id => c.waiters.lookup id
  slot := c.slots
  made := c.made
  owner := ph.owner
  holder := fun c => (ph.calls c).view
  deliverer := fun n => (ph.receivers n).view

def setCall (ph : Phases P) (c : ℕ) (p : CallPhase P) : Phases P :=
  { ph with calls := Function.update ph.calls c p }

def setReceiver (ph : Phases P) (n : ℕ) (p : ReceiverPhase P) : Phases P :=
  { ph with receivers := Function.update ph.receivers n p }

/-- The reply of invocation `n` was routed to the unmatched path. -/
def Routed (ph : Phases P) (n : ℕ) : Prop :=
  (ph.receivers n).isRouted = true ∨ ∃ c, (ph.calls c).routedReply = some n

theorem board_setCall (ph : Phases P) (c : ℕ) (p : CallPhase P) (corr : ReplyCorrelator P) :
    (ph.setCall c p).board corr =
      { ph.board corr with holder := Function.update (ph.board corr).holder c p.view } := by
  simp only [board, setCall, Board.mk.injEq, true_and, and_true]
  funext d
  by_cases hd : d = c
  · subst hd
    simp
  · simp [hd]

theorem board_setReceiver (ph : Phases P) (n : ℕ) (p : ReceiverPhase P)
    (corr : ReplyCorrelator P) :
    (ph.setReceiver n p).board corr =
      { ph.board corr with deliverer := Function.update (ph.board corr).deliverer n p.view } := by
  simp only [board, setReceiver, Board.mk.injEq, true_and]
  funext m
  by_cases hm : m = n
  · subst hm
    simp
  · simp [hm]

variable {p : ReceiverPhase P} {ph : Phases P} {n m c : ℕ}

theorem board_setCall_of_view {p : CallPhase P} (h : p.view = (ph.calls c).view)
    (corr : ReplyCorrelator P) : (ph.setCall c p).board corr = ph.board corr := by
  rw [board_setCall, h]
  simp [board]

theorem board_setReceiver_of_view (h : p.view = (ph.receivers n).view) (corr : ReplyCorrelator P) :
    (ph.setReceiver n p).board corr = ph.board corr := by
  rw [board_setReceiver, h]
  simp [board]

theorem routed_setCall (ph : Phases P) {p : CallPhase P} (h : (ph.calls c).routedReply = none) :
    (ph.setCall c p).Routed m ↔ p.routedReply = some m ∨ ph.Routed m := by
  constructor
  · rintro (hm | ⟨d, hd⟩)
    · exact Or.inr (Or.inl hm)
    · by_cases hdc : d = c
      · subst hdc
        exact Or.inl (by simpa [setCall] using hd)
      · exact Or.inr (Or.inr ⟨d, by simpa [setCall, hdc] using hd⟩)
  · rintro (hp | hm | ⟨d, hd⟩)
    · exact Or.inr ⟨c, by simpa [setCall] using hp⟩
    · exact Or.inl hm
    · have hdc : d ≠ c := by
        rintro rfl
        simp [h] at hd
      exact Or.inr ⟨d, by simpa [setCall, hdc] using hd⟩

theorem routed_setCall_of_eq (ph : Phases P) {p : CallPhase P} {owner : ℕ → ℕ}
    (h : p.routedReply = (ph.calls c).routedReply) :
    ({ ph with owner }.setCall c p).Routed m ↔ ph.Routed m := by
  have hcalls : ∀ d, (Function.update ph.calls c p d).routedReply = (ph.calls d).routedReply := by
    intro d
    by_cases hd : d = c
    · subst hd
      simp [h]
    · simp [hd]
  simp only [Routed, setCall, hcalls]

theorem not_isRouted_of_delivered {corr : ReplyCorrelator P} {v : Message P}
    (h : (ph.board corr).deliverer n = .delivered slot v) : ¬ (ph.receivers n).isRouted = true := by
  rw [ReceiverPhase.eq_of_view_delivered h]
  exact Bool.false_ne_true

theorem routed_setReceiver (ph : Phases P) (h : (ph.receivers n).isRouted = false) :
    (ph.setReceiver n p).Routed m ↔ (p.isRouted = true ∧ m = n) ∨ ph.Routed m := by
  by_cases hm : m = n
  · subst hm
    simp [Routed, setReceiver, h]
  · simp [Routed, setReceiver, hm]

theorem routed_setReceiver_of_eq (ph : Phases P) (h : p.isRouted = (ph.receivers n).isRouted) :
    (ph.setReceiver n p).Routed m ↔ ph.Routed m := by
  by_cases hm : m = n
  · subst hm
    simp [Routed, setReceiver, h]
  · simp [Routed, setReceiver, hm]

end Phases

end Msgin
