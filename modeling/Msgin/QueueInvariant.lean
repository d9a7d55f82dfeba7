import Msgin.QueueClaims

/-!
# The invariant of the queue store

Every occupied place of the queue has its token in the semaphore: an entry that is ready or in
flight, an `Enqueue` that has acquired and not yet appended, and a settlement that has deleted its
entry and not yet received. Messages move between the queue, the claims and the two ends, and are
neither lost nor doubled.
-/

namespace Msgin.Memory

open QueueStore

variable {P : Type} {cap : ℕ}

/-- The calls under way that account for a token. -/
def slots (calls : AList fun _ : ℕ => QueueCall P) : ℕ :=
  calls.entries.countP fun c => c.2.hasSlot

variable {epoch : ℕ} {calls : AList fun _ : ℕ => QueueCall P}
  {inflight : AList fun _ : ℕ => Entry P}

theorem slots_insert {t : ℕ} (h : calls.lookup t = none) (c : QueueCall P) :
    slots (calls.insert t c) = slots calls + c.hasSlot.toNat := by
  rw [slots, AList.entries_insert_of_notMem (AList.lookup_eq_none.mp h), List.countP_cons]
  cases c.hasSlot <;> rfl

theorem slots_erase {t : ℕ} {c : QueueCall P} (h : calls.lookup t = some c) :
    slots calls = slots (calls.erase t) + c.hasSlot.toNat := by
  rw [slots, (KeyedMaps.perm_erase calls t h).countP_eq, List.countP_cons]
  cases c.hasSlot <;> rfl

def QueueLabel.settles : QueueLabel P → Option ℕ
  | ack _ epoch => some epoch
  | nack _ epoch _ _ _ => some epoch
  | enqueue _ _ | cancel _ | append _ _ | shed _ _ | claim _ _ | receive _ => none

inductive QueueStep (s : QueueState P cap) : QueueLabel P → QueueState P cap → Prop
  | acquires (t : ℕ) (msg : Message P) (sem : Chan Unit cap) (free : s.calls.lookup t = none)
      (sent : s.store.sem.send () = .sent sem) :
      QueueStep s (.enqueue t msg) ({ s with store.sem := sem }.begin t (.appending msg))
  | refuses (t : ℕ) (msg : Message P) (free : s.calls.lookup t = none) :
      QueueStep s (.enqueue t msg) (s.begin t (.shedding msg))
  | cancels (msg : Message P) : QueueStep s (.cancel msg) s
  | appends (t : ℕ) (now : ℤ) (msg : Message P) (found : s.calls.lookup t = some (.appending msg)) :
      QueueStep s (.append t now) ({ s with store := s.store.append msg now }.finish t)
  | sheds (t : ℕ) (now : ℤ) (msg : Message P) (found : s.calls.lookup t = some (.shedding msg)) :
      QueueStep s (.shed t now)
        ({ s with
          store := (s.store.shed msg now).2
          dropped := (s.store.shed msg now).1.2 :: s.dropped }.finish t)
  | claims (max now : ℤ) :
      QueueStep s (.claim max now) { s with store := (s.store.claim max now).2 }
  | misses {l : QueueLabel P} (epoch : ℕ) (settles : l.settles = some epoch)
      (given : epoch ≤ s.store.epoch) (missed : s.store.inflight.lookup epoch = none) :
      QueueStep s l { s with called := epoch :: s.called }
  | acks (t epoch : ℕ) (e : Entry P) (free : s.calls.lookup t = none)
      (given : epoch ≤ s.store.epoch) (found : s.store.inflight.lookup epoch = some e) :
      QueueStep s (.ack t epoch)
        ({ s.settle epoch with settled := e.number :: s.settled }.begin t .receiving)
  | requeues (t epoch : ℕ) (delay now : ℤ) (e : Entry P) (given : epoch ≤ s.store.epoch)
      (found : s.store.inflight.lookup epoch = some e) :
      QueueStep s (.nack t epoch true delay now)
        { s.settle epoch with store := (s.store.delete epoch).requeue e (now + delay) }
  | drops (t epoch : ℕ) (delay now : ℤ) (e : Entry P) (free : s.calls.lookup t = none)
      (given : epoch ≤ s.store.epoch) (found : s.store.inflight.lookup epoch = some e) :
      QueueStep s (.nack t epoch false delay now)
        ({ s.settle epoch with dropped := e.number :: s.dropped }.begin t .receiving)
  | receives (t : ℕ) (sem : Chan Unit cap) (found : s.calls.lookup t = some .receiving)
      (received : s.store.sem.receive = .received () sem) :
      QueueStep s (.receive t) ({ s with store.sem := sem }.finish t)

theorem queueStep_of_step {s s' : QueueState P cap} {l : QueueLabel P} (h : s.step l = some s') :
    QueueStep s l s' := by
  cases l with
  | enqueue t msg =>
      simp only [QueueState.step] at h
      split at h
      · cases h
      next hbusy =>
      rw [Bool.not_eq_true, Option.isSome_eq_false_iff, Option.isNone_iff_eq_none] at hbusy
      split at h
      · next sem hsent =>
          cases h
          exact .acquires t msg sem hbusy hsent
      · split_ifs at h
        cases h
        exact .refuses t msg hbusy
      · cases h
  | cancel msg =>
      simp only [QueueState.step] at h
      split_ifs at h
      cases h
      exact .cancels msg
  | append t now =>
      simp only [QueueState.step] at h
      split at h
      · next msg hfound =>
          cases h
          exact .appends t now msg hfound
      all_goals cases h
  | shed t now =>
      simp only [QueueState.step] at h
      split at h
      · next msg hfound =>
          cases h
          exact .sheds t now msg hfound
      all_goals cases h
  | claim max now =>
      cases h
      exact .claims max now
  | ack t epoch =>
      simp only [QueueState.step] at h
      split_ifs at h with hbusy
      rw [not_or, Bool.not_eq_true, Option.isSome_eq_false_iff, Option.isNone_iff_eq_none,
        Nat.not_lt] at hbusy
      obtain ⟨hfree, hgiven⟩ := hbusy
      split at h
      · next hmissed =>
          cases h
          exact .misses epoch rfl hgiven hmissed
      · next e hfound =>
          cases h
          exact .acks t epoch e hfree hgiven hfound
  | nack t epoch requeue delay now =>
      simp only [QueueState.step] at h
      split at h
      · cases h
      next hbusy =>
      rw [not_or, Bool.not_eq_true, Option.isSome_eq_false_iff, Option.isNone_iff_eq_none,
        Nat.not_lt] at hbusy
      obtain ⟨hfree, hgiven⟩ := hbusy
      split at h
      · next hmissed =>
          cases h
          exact .misses epoch rfl hgiven hmissed
      · next e hfound =>
          cases requeue with
          | true =>
              cases h
              exact .requeues t epoch delay now e hgiven hfound
          | false =>
              cases h
              exact .drops t epoch delay now e hfree hgiven hfound
  | receive t =>
      simp only [QueueState.step] at h
      split at h
      · next v sem hfound hreceived =>
          cases h
          exact .receives t sem hfound hreceived
      · cases h

def QueueState.places (s : QueueState P cap) : List ℕ :=
  (s.store.ready.map Entry.number ++ numbers s.store.inflight) ++ (s.settled ++ s.dropped)

structure Epochs (inflight : AList fun _ : ℕ => Entry P) (last : ℕ) (called : List ℕ) :
    Prop where
  given : ∀ k e, inflight.lookup k = some e → k ≤ last
  fenced : ∀ k ∈ called, inflight.lookup k = none ∧ k ≤ last
  live : ∀ k, 0 < k → k ≤ last → k ∉ called → (inflight.lookup k).isSome

structure QueueInv (s : QueueState P cap) : Prop where
  counted : s.store.sem.buffer.length =
    s.store.ready.length + s.store.inflight.entries.length + slots s.calls
  running : s.store.sem.closed = false
  conserved : s.places.Perm (List.range s.store.arrived)
  epochs : Epochs s.store.inflight s.store.epoch s.called

theorem queueInv_initial (overflow : OverflowPolicy) : QueueInv (.initial P cap overflow) := by
  refine ⟨rfl, rfl, List.Perm.refl _, ?_, ?_, ?_⟩
  · intro k e hk
    cases hk
  · intro epoch h
    cases h
  · intro epoch hpos hgiven
    exact absurd hgiven (Nat.not_le_of_lt hpos)

theorem numbers_erase {e : Entry P} (h : inflight.lookup epoch = some e) :
    (numbers inflight).Perm (e.number :: numbers (inflight.erase epoch)) :=
  (KeyedMaps.perm_erase inflight epoch h).map _

theorem length_erase {e : Entry P} (h : inflight.lookup epoch = some e) :
    inflight.entries.length = (inflight.erase epoch).entries.length + 1 :=
  (KeyedMaps.perm_erase inflight epoch h).length_eq

theorem shed_cases (msg : Message P) (now : ℤ) (st : QueueStore P cap) :
    (∃ e rest err, st.ready = e :: rest ∧
      st.shed msg now = ((err, e.number), { st with ready := rest }.append msg now)) ∨
    ∃ err, st.shed msg now = ((err, st.arrived), { st with arrived := st.arrived + 1 }) := by
  unfold QueueStore.shed
  split
  · next e rest _ hready => exact .inl ⟨e, rest, none, hready, rfl⟩
  · exact .inr ⟨_, rfl⟩
  · exact .inr ⟨_, rfl⟩
  · exact .inr ⟨_, rfl⟩
  · exact .inr ⟨_, rfl⟩
  · exact .inr ⟨_, rfl⟩

section Epochs

variable {st : QueueStore P cap} {called : List ℕ}
  (h : Epochs st.inflight st.epoch called)

include h

theorem Epochs.claim (max now : ℤ) :
    Epochs (st.claim max now).2.inflight (st.claim max now).2.epoch called := by
  obtain ⟨htaken, -, -⟩ := claims_claim h.given max now
  refine ⟨htaken.bounded, ?_, ?_⟩
  · intro k hk
    obtain ⟨hmissing, hold⟩ := h.fenced k hk
    exact ⟨(htaken.older k hold).trans hmissing, hold.trans htaken.epoch⟩
  · intro k hpos hk hcalled
    by_cases hold : k ≤ st.epoch
    · rw [htaken.older k hold]
      exact h.live k hpos hold hcalled
    · exact htaken.fresh k (Nat.lt_of_not_le hold) hk

theorem Epochs.delete (hgiven : epoch ≤ st.epoch) :
    Epochs (st.inflight.erase epoch) st.epoch (epoch :: called) := by
  refine ⟨?_, ?_, ?_⟩
  · intro k e hk
    by_cases hne : k = epoch
    · exact hne ▸ hgiven
    · exact h.given k e ((AList.lookup_erase_ne hne).symm.trans hk)
  · intro k hk
    by_cases hne : k = epoch
    · subst hne
      exact ⟨AList.lookup_erase _ _, hgiven⟩
    · have hcalled := h.fenced k ((List.mem_cons.mp hk).resolve_left hne)
      exact ⟨(AList.lookup_erase_ne hne).trans hcalled.1, hcalled.2⟩
  · intro k hpos hk hcalled
    rw [List.mem_cons, not_or] at hcalled
    obtain ⟨hne, hcalled⟩ := hcalled
    rw [AList.lookup_erase_ne hne]
    exact h.live k hpos hk hcalled

theorem Epochs.miss (hgiven : epoch ≤ st.epoch) (hmissed : st.inflight.lookup epoch = none) :
    Epochs st.inflight st.epoch (epoch :: called) := by
  refine ⟨h.given, ?_, ?_⟩
  · intro k hk
    rcases List.mem_cons.mp hk with rfl | hk
    · exact ⟨hmissed, hgiven⟩
    · exact h.fenced k hk
  · intro k hpos hk hcalled
    exact h.live k hpos hk (List.not_mem_of_not_mem_cons hcalled)

end Epochs

section Steps

variable {s : QueueState P cap} (h : QueueInv s)

include h

theorem QueueInv.count_places (n : ℕ) :
    (s.store.ready.map Entry.number).count n + (numbers s.store.inflight).count n +
      (s.settled.count n + s.dropped.count n) = (List.range s.store.arrived).count n := by
  have hcount := h.conserved.count_eq n
  simpa only [QueueState.places, List.count_append] using hcount

variable {msg : Message P} {t : ℕ} {e : Entry P}

theorem QueueInv.acquire {sem : Chan Unit cap} (free : s.calls.lookup t = none)
    (sent : s.store.sem.send () = .sent sem) :
    QueueInv ({ s with store.sem := sem }.begin t (.appending msg)) := by
  obtain ⟨hbuffer, -, hopen⟩ := Chan.send_eq_sent sent
  refine ⟨?_, hopen, h.conserved, h.epochs⟩
  have hcounted := h.counted
  have hslots : slots (s.calls.insert t (.appending msg)) = slots s.calls + 1 :=
    slots_insert free _
  change sem.buffer.length = s.store.ready.length + s.store.inflight.entries.length +
    slots (s.calls.insert t (.appending msg))
  rw [hbuffer, List.length_append, List.length_singleton]
  omega

theorem QueueInv.refuse (free : s.calls.lookup t = none) :
    QueueInv (s.begin t (.shedding msg)) := by
  refine ⟨?_, h.running, h.conserved, h.epochs⟩
  have hslots : slots (s.calls.insert t (.shedding msg)) = slots s.calls := slots_insert free _
  change s.store.sem.buffer.length = s.store.ready.length + s.store.inflight.entries.length +
    slots (s.calls.insert t (.shedding msg))
  rw [hslots]
  exact h.counted

theorem QueueInv.append (found : s.calls.lookup t = some (.appending msg)) (now : ℤ) :
    QueueInv ({ s with store := s.store.append msg now }.finish t) := by
  refine ⟨?_, h.running, ?_, h.epochs⟩
  · have hcounted := h.counted
    have hslots : slots s.calls = slots (s.calls.erase t) + 1 := slots_erase found
    change s.store.sem.buffer.length = (s.store.ready ++ [_]).length +
      s.store.inflight.entries.length + slots (s.calls.erase t)
    rw [List.length_append, List.length_singleton]
    omega
  · refine List.perm_iff_count.mpr fun n => ?_
    have hcount := h.count_places n
    simp only [QueueState.places, QueueState.finish, QueueStore.append, List.map_append,
      List.map_cons, List.map_nil, List.count_append, List.range_succ]
    omega

theorem QueueInv.evict {rest : List (Entry P)} (found : s.calls.lookup t = some (.shedding msg))
    (hready : s.store.ready = e :: rest) (now : ℤ) :
    QueueInv ({ s with
      store := { s.store with ready := rest }.append msg now
      dropped := e.number :: s.dropped }.finish t) := by
  refine ⟨?_, h.running, ?_, h.epochs⟩
  · have hcounted := h.counted
    have hslots : slots s.calls = slots (s.calls.erase t) := slots_erase found
    rw [hready, List.length_cons] at hcounted
    change s.store.sem.buffer.length = (rest ++ [_]).length +
      s.store.inflight.entries.length + slots (s.calls.erase t)
    rw [List.length_append, List.length_singleton]
    omega
  · refine List.perm_iff_count.mpr fun n => ?_
    have hcount := h.count_places n
    rw [hready, List.map_cons, List.count_cons] at hcount
    simp only [QueueState.places, QueueState.finish, QueueStore.append, List.map_append,
      List.map_cons, List.map_nil, List.count_append, List.count_cons, List.count_nil,
      List.range_succ]
    omega

theorem QueueInv.dropNewcomer (found : s.calls.lookup t = some (.shedding msg)) :
    QueueInv ({ s with
      store.arrived := s.store.arrived + 1
      dropped := s.store.arrived :: s.dropped }.finish t) := by
  refine ⟨?_, h.running, ?_, h.epochs⟩
  · have hslots : slots s.calls = slots (s.calls.erase t) := slots_erase found
    change s.store.sem.buffer.length = s.store.ready.length + s.store.inflight.entries.length +
      slots (s.calls.erase t)
    rw [← hslots]
    exact h.counted
  · refine List.perm_iff_count.mpr fun n => ?_
    have hcount := h.count_places n
    simp only [QueueState.places, QueueState.finish, List.count_append, List.count_cons,
      List.count_nil, List.range_succ]
    omega

theorem QueueInv.claim (max now : ℤ) : QueueInv { s with store := (s.store.claim max now).2 } := by
  obtain ⟨htaken, -, hsem, -, harrived⟩ := claims_claim h.epochs.given max now
  refine ⟨?_, ?_, ?_, h.epochs.claim max now⟩
  · have hcounted := h.counted
    have hlength := htaken.moved.length_eq
    simp only [List.length_append, List.length_map, numbers] at hlength
    change (s.store.claim max now).2.sem.buffer.length = (s.store.claim max now).2.ready.length +
      (s.store.claim max now).2.inflight.entries.length + slots s.calls
    rw [hsem]
    omega
  · change (s.store.claim max now).2.sem.closed = false
    rw [hsem]
    exact h.running
  · refine List.perm_iff_count.mpr fun n => ?_
    have hcount := h.count_places n
    have hmoved := htaken.moved.count_eq n
    simp only [QueueState.places, List.count_append, harrived] at hmoved ⊢
    omega

theorem QueueInv.free (free : s.calls.lookup t = none) (given : epoch ≤ s.store.epoch)
    (found : s.store.inflight.lookup epoch = some e) {settled dropped : List ℕ}
    (hends : (settled ++ dropped).Perm (e.number :: (s.settled ++ s.dropped))) :
    QueueInv ({ s.settle epoch with settled := settled, dropped := dropped }.begin t .receiving) := by
  refine ⟨?_, h.running, ?_, ?_⟩
  · have hcounted := h.counted
    have hlength := length_erase found
    have hslots : slots (s.calls.insert t .receiving) = slots s.calls + 1 := slots_insert free _
    change s.store.sem.buffer.length = s.store.ready.length +
      (s.store.inflight.erase epoch).entries.length + slots (s.calls.insert t .receiving)
    omega
  · refine List.perm_iff_count.mpr fun n => ?_
    have hcount := h.count_places n
    have hnumbers := (numbers_erase found).count_eq n
    have hendsCount := hends.count_eq n
    simp only [List.count_append, List.count_cons] at hnumbers hendsCount
    simp only [QueueState.places, QueueState.begin, QueueState.settle, QueueStore.delete,
      List.count_append]
    omega
  · exact h.epochs.delete given

theorem QueueInv.requeue (given : epoch ≤ s.store.epoch)
    (found : s.store.inflight.lookup epoch = some e) (visibleAt : ℤ) :
    QueueInv { s.settle epoch with store := (s.store.delete epoch).requeue e visibleAt } := by
  refine ⟨?_, h.running, ?_, ?_⟩
  · have hcounted := h.counted
    have hlength := length_erase found
    change s.store.sem.buffer.length = (s.store.ready ++ [_]).length +
      (s.store.inflight.erase epoch).entries.length + slots s.calls
    rw [List.length_append, List.length_singleton]
    omega
  · refine List.perm_iff_count.mpr fun n => ?_
    have hcount := h.count_places n
    have hnumbers := (numbers_erase found).count_eq n
    simp only [List.count_cons] at hnumbers
    simp only [QueueState.places, QueueState.settle, QueueStore.delete, QueueStore.requeue,
      List.map_append, List.map_cons, List.map_nil, List.count_append, List.count_cons,
      List.count_nil]
    omega
  · exact h.epochs.delete given

theorem QueueInv.receive {sem : Chan Unit cap} (found : s.calls.lookup t = some .receiving)
    (received : s.store.sem.receive = .received () sem) :
    QueueInv ({ s with store.sem := sem }.finish t) := by
  obtain ⟨hbuffer, hclosed⟩ := Chan.receive_eq_received received
  refine ⟨?_, hclosed.trans h.running, h.conserved, h.epochs⟩
  have hcounted := h.counted
  have hslots : slots s.calls = slots (s.calls.erase t) + 1 := slots_erase found
  rw [hbuffer, List.length_cons] at hcounted
  change sem.buffer.length = s.store.ready.length + s.store.inflight.entries.length +
    slots (s.calls.erase t)
  omega

theorem QueueInv.step {s' : QueueState P cap} {l : QueueLabel P} (hstep : QueueStep s l s') :
    QueueInv s' := by
  cases hstep with
  | acquires t msg sem free sent => exact h.acquire free sent
  | refuses t msg free => exact h.refuse free
  | cancels msg => exact h
  | appends t now msg found => exact h.append found now
  | sheds t now msg found =>
      rcases shed_cases msg now s.store with ⟨e, rest, err, hready, hshed⟩ | ⟨err, hshed⟩
      · rw [hshed]
        exact h.evict found hready now
      · rw [hshed]
        exact h.dropNewcomer found
  | claims max now => exact h.claim max now
  | misses epoch settles given missed =>
      exact ⟨h.counted, h.running, h.conserved, h.epochs.miss given missed⟩
  | acks t epoch e free given found => exact h.free free given found (List.Perm.refl _)
  | requeues t epoch delay now e given found => exact h.requeue given found _
  | drops t epoch delay now e free given found =>
      exact h.free free given found List.perm_middle
  | receives t sem found received => exact h.receive found received

end Steps

end Msgin.Memory
