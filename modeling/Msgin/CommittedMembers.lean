import Msgin.GroupRecovery

/-!
# Members that were committed

A member is stored under its id as the engine cuts and compares it. Two ids that the engine does
not tell apart are one member to it, and of two such members only the first is stored.
-/

namespace Msgin.Sql

open TableRows TransitionRuns

variable {e : Engine} {groupKey : String} {s : GroupLives} {call : GroupCall}

/-- The calls add members with these ids only. -/
def AddsFrom (ids : Set String) (calls : List GroupCall) : Prop :=
  ∀ call ∈ calls, ∀ m ∈ call.member, m.msgID ∈ ids

/-- The engine tells the ids of members apart. -/
def TellsApart (e : Engine) (ids : Set String) : Prop :=
  ∀ a ∈ ids, ∀ b ∈ ids, a ≠ "" → b ≠ "" →
    e.collation.eq (e.storedID a) (e.storedID b) = true → a = b

variable {ids : Set String} {calls : List GroupCall}

theorem LifeInv.run {s' : GroupLives} (hinv : LifeInv s)
    (hsame : Along (GroupLives.step e groupKey) SameLife s calls)
    (hr : TransitionRuns.run (GroupLives.step e groupKey) s calls = some s') : LifeInv s' :=
  run_invariant_of_along (GroupLives.step e groupKey)
    (fun _ _ _ hinv hstep hp => hinv.step hstep hp) hinv hsame hr

def longID (last : Char) : String := String.ofList (List.replicate 255 'x' ++ [last])

theorem toList_longID (last : Char) : (longID last).toList = List.replicate 255 'x' ++ [last] :=
  String.toList_ofList

theorem longID_ne_empty (last : Char) : longID last ≠ "" := by
  intro h
  have hlist := congrArg String.toList h
  rw [toList_longID] at hlist
  exact List.append_ne_nil_of_right_ne_nil _ (List.cons_ne_nil last []) hlist

end Msgin.Sql
