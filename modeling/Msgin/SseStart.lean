import Msgin.SseSession

/-!
# Where a connection of the client starts

A connection that misses no event is due the events sent from some event on. This is the one after
the event whose id it was made with, if the ring holds it, and otherwise the next one to be sent.
-/

namespace Msgin.Http

open ReplayWindow

variable {cfg : ServerConfig} {sent frames : List SentFrame} {conn : SSEConn}

theorem Numbered.length_eq {before after : List SentFrame} {f : SentFrame}
    (h : Numbered (before ++ f :: after)) : before.length = f.number := by
  have hget := congrArg (fun l => l[before.length]?) h
  simp at hget
  exact hget.symm

theorem ringOf_suffix (cfg : ServerConfig) (h : DistinctIds sent) (j : ℕ) :
    ringOf cfg (sent.take j) <:+ sent.take j := by
  have hall : (sent.take j).filter (fun f => f.id ≠ []) = sent.take j :=
    List.filter_eq_self.mpr fun f hf => decide_eq_true (h.nonempty f (List.mem_of_mem_take hf))
  rw [ringOf, hall]
  exact List.drop_suffix _ _

theorem accepted_of_missed (h : conn.missed = []) : conn.accepted sent = sent.drop conn.joined := by
  unfold SSEConn.accepted
  rw [h]
  exact List.filter_eq_self.mpr fun _ _ => by simp

theorem due_of_not_mem (hmissed : conn.missed = [])
    (hid : ∀ x ∈ ringOf cfg (sent.take conn.joined), x.id ≠ conn.lastEventID) :
    conn.due cfg sent = sent.drop conn.joined := by
  have hresumed : conn.resumed cfg sent = [] :=
    afterLast_of_forall_not fun x hx => beq_false_of_ne (hid x hx)
  rw [SSEConn.due, hresumed, accepted_of_missed hmissed]
  rfl

theorem due_of_mem (hnum : Numbered sent) (hids : DistinctIds sent) (hmissed : conn.missed = [])
    {x : SentFrame} (hx : x ∈ ringOf cfg (sent.take conn.joined)) (hid : x.id = conn.lastEventID) :
    conn.due cfg sent = sent.drop (x.number + 1) := by
  obtain ⟨before, after, hring⟩ := List.append_of_mem hx
  obtain ⟨older, hold⟩ := ringOf_suffix cfg hids conn.joined
  have htake : sent.take conn.joined = (older ++ before) ++ x :: after := by
    rw [← hold, hring, List.append_assoc]
  have hsent : sent = (older ++ before) ++ x :: (after ++ sent.drop conn.joined) := by
    rw [← List.cons_append, ← List.append_assoc, ← htake, List.take_append_drop]
  have hnodup := hids.nodup
  have hnumber : (older ++ before).length = x.number := by
    rw [hsent] at hnum
    exact hnum.length_eq
  have hafter : ∀ y ∈ after, (y.id == conn.lastEventID) = false := by
    intro y hy
    refine beq_false_of_ne fun hyid => ?_
    rw [hsent, List.map_append, List.map_cons] at hnodup
    have hnot := (List.nodup_cons.mp (List.nodup_append.mp hnodup).2.1).1
    exact hnot (List.mem_map.mpr ⟨y, List.mem_append_left _ hy, hyid.trans hid.symm⟩)
  have hresumed : conn.resumed cfg sent = after := by
    rw [SSEConn.resumed, hring]
    exact afterLast_append_cons before (beq_iff_eq.mpr hid) hafter
  have hdrop : sent.drop (x.number + 1) = after ++ sent.drop conn.joined := by
    have happend : sent = (older ++ before ++ [x]) ++ (after ++ sent.drop conn.joined) := by
      rw [List.append_assoc _ [x]]
      exact hsent
    have hlength : (older ++ before ++ [x]).length = x.number + 1 := by
      rw [List.length_append, hnumber]
      rfl
    rw [← hlength]
    nth_rewrite 1 [happend]
    exact List.drop_left
  rw [SSEConn.due, hresumed, accepted_of_missed hmissed, hdrop]

theorem lastId_eq_nil_or (frames : List SentFrame) :
    frames = [] ∧ lastId frames = [] ∨ ∃ g ∈ frames.getLast?, lastId frames = g.id := by
  cases hlast : frames.getLast? with
  | none =>
      obtain rfl := List.getLast?_eq_none_iff.mp hlast
      exact .inl ⟨rfl, rfl⟩
  | some g =>
      refine .inr ⟨g, rfl, ?_⟩
      rw [lastId, List.getLast?_map, hlast]
      rfl

/-- The connection goes on after the event emitted last. -/
theorem ClientConn.due_append (h : ClientConn cfg sent frames conn) (hnum : Numbered sent)
    (hids : DistinctIds sent) {i : ℕ} (hframes : frames <+: sent.drop i) :
    ∃ j, frames ++ conn.due cfg sent = sent.drop j := by
  rcases lastId_eq_nil_or frames with ⟨rfl, hnil⟩ | ⟨g, hg, hlast⟩
  · refine ⟨conn.joined, due_of_not_mem h.missed fun x hx => ?_⟩
    rw [h.position, hnil]
    exact hids.nonempty x
      (List.mem_of_mem_take ((ringOf_suffix cfg hids conn.joined).subset hx))
  · obtain ⟨init, rfl⟩ := List.getLast?_eq_some_iff.mp hg
    obtain ⟨rest, hrest⟩ := hframes
    obtain ⟨before, hsplit⟩ : ∃ before, sent = before ++ g :: rest := by
      refine ⟨sent.take i ++ init, ?_⟩
      nth_rewrite 1 [← List.take_append_drop i sent, ← hrest]
      simp
    have hdrop : sent.drop (g.number + 1) = rest := by
      rw [hsplit] at hnum ⊢
      rw [← hnum.length_eq]
      simp
    refine ⟨i, ?_⟩
    rw [due_of_mem hnum hids h.missed (h.ring g hg) (hlast.symm.trans h.position.symm), hdrop, hrest]

end Msgin.Http
