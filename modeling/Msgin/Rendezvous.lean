import Mathlib.Logic.Function.Basic
import Mathlib.Tactic.Basic
import Msgin.BoundedChannel

/-!
# Rendezvous over one-place slots

Waiters register a fresh one-place slot under a key and deliverers match a value with the
slot that is registered under the value's key. A deliverer first takes the slot off the
board and then fills it, so between the two moments the slot is committed to its value. A
waiter that gives up takes its slot off the board itself, and if it comes too late it drains
the slot. Shutting the board closes every slot that is still on it.

The invariant gives each slot one owner and at most one deliverer, and says where a value
that was delivered is.
-/

namespace Rendezvous

variable {K V : Type*}

/-- What a waiter has to do with its slot. -/
inductive Holder (K V : Type*)
  | away
  | holding (key : K) (slot : ℕ)
  -- It came too late to take the slot off the board.
  | draining (key : K) (slot : ℕ)
  | taken (key : K) (slot : ℕ) (deliverer : ℕ) (v : V)

inductive Deliverer (V : Type*)
  | away
  | committed (slot : ℕ) (v : V)
  | delivered (slot : ℕ) (v : V)

@[grind =] def Holder.slot : Holder K V → Option ℕ
  | away => none
  | holding _ i | draining _ i | taken _ i _ _ => some i

@[grind =] def Deliverer.slot : Deliverer V → Option ℕ
  | away => none
  | committed i _ | delivered i _ => some i

structure Board (K V : Type*) where
  waiter : K → Option ℕ
  slot : ℕ → Chan (ℕ × V) 1
  made : ℕ
  -- The waiter that made a slot.
  owner : ℕ → ℕ
  holder : ℕ → Holder K V
  deliverer : ℕ → Deliverer V

def Board.empty : Board K V where
  waiter := fun _ => none
  slot := fun _ => .make _ 1
  made := 0
  owner := fun _ => 0
  holder := fun _ => .away
  deliverer := fun _ => .away

/-- The waiter has its slot and nothing was taken from it. -/
@[grind =] def Holder.Open (h : Holder K V) (key : K) (i : ℕ) : Prop :=
  h = .holding key i ∨ h = .draining key i

/-- The slot was closed, or a value of this key is committed to it. -/
@[grind =] def Board.Gone (b : Board K V) (key : V → K) (k : K) (i : ℕ) : Prop :=
  b.slot i = .shut _ 1 ∨ ∃ n v, key v = k ∧
    (b.deliverer n = .committed i v ∨
      b.deliverer n = .delivered i v ∧ b.slot i = .full (n, v))

structure Inv (key : V → K) (b : Board K V) : Prop where
  owner : ∀ c i, (b.holder c).slot = some i → i < b.made ∧ b.owner i = c
  delivererMade : ∀ n i, (b.deliverer n).slot = some i → i < b.made
  delivererInj : ∀ n m i, (b.deliverer n).slot = some i → (b.deliverer m).slot = some i → n = m
  waiting : ∀ k i, b.waiter k = some i → b.slot i = .make _ 1 ∧
    b.holder (b.owner i) = .holding k i ∧ ∀ n, (b.deliverer n).slot ≠ some i
  holding : ∀ c k i, b.holder c = .holding k i → b.waiter k = some i ∨ b.Gone key k i
  draining : ∀ c k i, b.holder c = .draining k i → b.Gone key k i
  committed : ∀ n i v, b.deliverer n = .committed i v → b.slot i = .make _ 1 ∧
    (b.holder (b.owner i)).Open (key v) i
  delivered : ∀ n i v, b.deliverer n = .delivered i v →
    (b.slot i = .full (n, v) ∧ (b.holder (b.owner i)).Open (key v) i) ∨
      (b.slot i = .make _ 1 ∧ b.holder (b.owner i) = .taken (key v) i n v)
  taken : ∀ c k i n v, b.holder c = .taken k i n v → key v = k ∧ b.deliverer n = .delivered i v

theorem inv_empty (key : V → K) : Inv key (Board.empty : Board K V) := by
  constructor <;> simp [Board.empty, Holder.slot, Deliverer.slot]

variable {key : V → K} {b : Board K V} {c n i : ℕ} {k : K} {v : V}

namespace Inv

variable (h : Inv key b)

include h

/-- A committed slot is empty, so it can be filled at once. -/
theorem send_committed (hn : b.deliverer n = .committed i v) :
    (b.slot i).send (n, v) = .sent (.full (n, v)) := by
  rw [(h.committed n i v hn).1]
  rfl

theorem slot_of_listed (hk : b.waiter k = some i) : b.slot i = .make _ 1 :=
  (h.waiting k i hk).1

theorem eq_of_listed {k' : K} (hk : b.waiter k = some i) (hk' : b.waiter k' = some i) : k' = k := by
  have hheld := (h.waiting k i hk).2.1
  rw [(h.waiting k' i hk').2.1] at hheld
  exact (Holder.holding.inj hheld).1

theorem gone_of_open (hc : (b.holder c).Open k i) (hslot : b.slot i ≠ .make _ 1) :
    b.Gone key k i := by
  rcases hc with hc | hc
  · exact (h.holding c k i hc).resolve_left fun hk => hslot (h.slot_of_listed hk)
  · exact h.draining c k i hc

/-- What a waiter finds in its slot was delivered to it, under its key. -/
theorem delivered_of_full (hc : (b.holder c).Open k i) (hfull : b.slot i = .full (n, v)) :
    key v = k ∧ b.deliverer n = .delivered i v := by
  have hgone := h.gone_of_open hc (by simp [hfull, Chan.make, Chan.full])
  rcases hgone with hshut | ⟨m, w, hw, hm | ⟨hm, hslot⟩⟩
  · simp [hfull, Chan.shut, Chan.full] at hshut
  · have hempty := (h.committed m i w hm).1
    simp [hfull, Chan.make, Chan.full] at hempty
  · obtain ⟨rfl, rfl⟩ : m = n ∧ w = v := by simpa [Chan.full, hfull] using hslot.symm
    exact ⟨hw, hm⟩

theorem slot_of_open (hc : (b.holder c).Open k i) :
    b.slot i = .make _ 1 ∨ b.slot i = .shut _ 1 ∨ ∃ n v, b.slot i = .full (n, v) := by
  by_cases hslot : b.slot i = .make _ 1
  · exact Or.inl hslot
  · rcases h.gone_of_open hc hslot with hshut | ⟨n, v, -, hn | ⟨-, hfull⟩⟩
    · exact Or.inr (Or.inl hshut)
    · exact absurd (h.committed n i v hn).1 hslot
    · exact Or.inr (Or.inr ⟨n, v, hfull⟩)

/-- A value is taken by one waiter. -/
theorem taken_unique {d j : ℕ} {k' : K} {w : V} (hc : b.holder c = .taken k i n v)
    (hd : b.holder d = .taken k' j n w) : c = d := by
  have hfrom := (h.taken c k i n v hc).2
  rw [(h.taken d k' j n w hd).2] at hfrom
  obtain ⟨rfl, rfl⟩ := Deliverer.delivered.inj hfrom
  rw [← (h.owner c j (by simp [hc, Holder.slot])).2, ← (h.owner d j (by simp [hd, Holder.slot])).2]

end Inv

end Rendezvous
