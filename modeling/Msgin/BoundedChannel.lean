import Mathlib.Data.List.Basic

/-!
# Buffered channels

A channel of a fixed capacity holds the values that were sent and not yet received, oldest
first, and may be closed. A send waits while the buffer is full and panics once the channel
is closed; a receive takes the oldest value, waits while there is none, and reports a closed
channel that is empty. A second close panics.
-/

structure Chan (α : Type*) (cap : ℕ) where
  buffer : List α
  closed : Bool
  within : buffer.length ≤ cap

namespace Chan

variable {α : Type*} {cap : ℕ}

def make (α : Type*) (cap : ℕ) : Chan α cap := ⟨[], false, Nat.zero_le cap⟩

inductive Sent (α : Type*) (cap : ℕ)
  | sent (c : Chan α cap)
  | blocks
  | panics

inductive Received (α : Type*) (cap : ℕ)
  | received (v : α) (c : Chan α cap)
  | closed
  | blocks

def send (v : α) (c : Chan α cap) : Sent α cap :=
  if c.closed then .panics
  else if h : c.buffer.length < cap then
    .sent ⟨c.buffer ++ [v], false, by rw [List.length_append]; exact h⟩
  else .blocks

def receive (c : Chan α cap) : Received α cap :=
  match hb : c.buffer with
  | v :: rest =>
    .received v ⟨rest, c.closed, by have := c.within; rw [hb] at this; exact Nat.le_of_succ_le this⟩
  | [] => if c.closed then .closed else .blocks

/-- `none` is a panic. -/
def close (c : Chan α cap) : Option (Chan α cap) :=
  if c.closed then none else some { c with closed := true }

/-- A one-place channel that holds a value. -/
def full (v : α) : Chan α 1 := ⟨[v], false, Nat.le_refl 1⟩

def shut (α : Type*) (cap : ℕ) : Chan α cap := ⟨[], true, Nat.zero_le cap⟩

variable {c : Chan α cap} {v : α}

theorem send_eq_sent {d : Chan α cap} (h : send v c = .sent d) :
    d.buffer = c.buffer ++ [v] ∧ c.closed = false ∧ d.closed = false := by
  unfold send at h
  split at h
  · cases h
  · next hopen =>
      split at h
      · cases h
        exact ⟨rfl, Bool.not_eq_true _ ▸ hopen, rfl⟩
      · cases h

theorem receive_eq_received {d : Chan α cap} (h : receive c = .received v d) :
    c.buffer = v :: d.buffer ∧ d.closed = c.closed := by
  unfold receive at h
  split at h
  · next hb =>
      cases h
      exact ⟨hb, rfl⟩
  · split at h <;> cases h

theorem exists_receive (h : 0 < c.buffer.length) : ∃ v d, receive c = .received v d := by
  unfold receive
  split
  · exact ⟨_, _, rfl⟩
  · next hb =>
      rw [hb] at h
      cases h

@[simp] theorem send_make (v : α) : send v (make α 1) = .sent (full v) := rfl

@[simp] theorem receive_make : receive (make α cap) = .blocks := rfl

@[simp] theorem receive_full (v : α) : receive (full v) = .received v (make α 1) := rfl

@[simp] theorem receive_shut : receive (shut α cap) = .closed := rfl

@[simp] theorem close_make : close (make α cap) = some (shut α cap) := rfl

@[grind =] theorem shut_eq_full : shut α 1 = full v ↔ False := by simp [shut, full]

@[grind =] theorem make_eq_shut : make α cap = shut α cap ↔ False := by simp [make, shut]

end Chan
