import Msgin.QueueStore

/-!
# What a claim of the queue store takes

`Claim` runs over the queue in place. It gives out the first visible entries, up to the maximum,
with the epochs that follow the last one given out, and leaves the others in their order.
-/

namespace Msgin.Memory

open InPlaceFilter QueueStore

variable {P : Type} {cap : ℕ} {max now : ℤ} {l : ClaimLoop P} {e : Entry P}

def Entry.visible (now : ℤ) (e : Entry P) : Bool := e.visibleAt ≤ now

def room (max : ℤ) (l : ClaimLoop P) : ℕ := (max - l.out.length).toNat

def stamp : ℕ → List (Entry P) → List (Entry P)
  | _, [] => []
  | epoch, e :: es => { e with epoch := epoch + 1 } :: stamp (epoch + 1) es

def numbers (inflight : AList fun _ : ℕ => Entry P) : List ℕ :=
  inflight.entries.map fun c => c.2.number

/-- The loop once it has claimed `e`. -/
def ClaimLoop.take (l : ClaimLoop P) (e : Entry P) : ClaimLoop P :=
  ⟨l.epoch + 1, l.inflight.insert (l.epoch + 1) { e with epoch := l.epoch + 1 },
    l.out ++ [{ e with epoch := l.epoch + 1 }]⟩

theorem claimEntry_of_visible (hroom : room max l ≠ 0) (he : e.visible now = true) :
    claimEntry max now l e = some (ClaimLoop.take l e) := by
  have hlt : (l.out.length : ℤ) < max := by
    unfold room at hroom
    omega
  exact if_pos ⟨hlt, of_decide_eq_true he⟩

theorem claimEntry_of_hidden (he : e.visible now = false) : claimEntry max now l e = none :=
  if_neg fun h => of_decide_eq_false he h.2

theorem claimEntry_of_full (hroom : room max l = 0) : claimEntry max now l e = none := by
  refine if_neg fun h => ?_
  unfold room at hroom
  omega

theorem room_take (e : Entry P) (max : ℤ) : room max (ClaimLoop.take l e) = room max l - 1 := by
  simp only [room, ClaimLoop.take, List.length_append, List.length_singleton]
  omega

/-- What the loop makes of the queue `xs`. -/
structure Taken (now : ℤ) (n : ℕ) (l : ClaimLoop P) (xs kept : List (Entry P))
    (l' : ClaimLoop P) : Prop where
  out : l'.out = l.out ++ stamp l.epoch ((xs.filter (Entry.visible now)).take n)
  visible : kept.filter (Entry.visible now) = (xs.filter (Entry.visible now)).drop n
  hidden : kept.filter (fun e => !e.visible now) = xs.filter fun e => !e.visible now
  moved : (numbers l'.inflight ++ kept.map Entry.number).Perm
    (numbers l.inflight ++ xs.map Entry.number)
  epoch : l.epoch ≤ l'.epoch
  bounded : ∀ k e, l'.inflight.lookup k = some e → k ≤ l'.epoch
  older : ∀ k ≤ l.epoch, l'.inflight.lookup k = l.inflight.lookup k
  fresh : ∀ k, l.epoch < k → k ≤ l'.epoch → (l'.inflight.lookup k).isSome

variable {kept xs : List (Entry P)}

theorem Taken.keep {n : ℕ} {l' : ClaimLoop P} (h : Taken now n l xs kept l')
    (he : e.visible now = false ∨ n = 0) : Taken now n l (e :: xs) (e :: kept) l' := by
  refine ⟨?_, ?_, ?_, ?_, h.epoch, h.bounded, h.older, h.fresh⟩
  · rcases he with he | rfl
    · rw [h.out, List.filter_cons_of_neg (by rw [he]; decide)]
    · rw [h.out, List.take_zero, List.take_zero]
  · rcases he with he | rfl
    · rw [List.filter_cons_of_neg (by rw [he]; decide),
        List.filter_cons_of_neg (by rw [he]; decide), h.visible]
    · have hvisible := h.visible
      rw [List.drop_zero] at hvisible ⊢
      rw [List.filter_cons, List.filter_cons, hvisible]
  · rw [List.filter_cons, List.filter_cons, h.hidden]
  · rw [List.map_cons, List.map_cons]
    exact List.perm_middle.trans ((h.moved.cons e.number).trans List.perm_middle.symm)

theorem Taken.take {n : ℕ} {l' : ClaimLoop P} (h : Taken now n (ClaimLoop.take l e) xs kept l')
    (he : e.visible now = true) (hl : ∀ k e, l.inflight.lookup k = some e → k ≤ l.epoch) :
    Taken now (n + 1) l (e :: xs) kept l' := by
  have hepoch : l.epoch + 1 ≤ l'.epoch := h.epoch
  refine ⟨?_, ?_, ?_, ?_, Nat.le_of_succ_le hepoch, h.bounded, ?_, ?_⟩
  · rw [h.out, List.filter_cons_of_pos he, List.take_succ_cons, stamp]
    exact List.append_assoc _ _ _
  · rw [h.visible, List.filter_cons_of_pos he, List.drop_succ_cons]
  · rw [h.hidden, List.filter_cons_of_neg (by rw [he]; decide)]
  · have hfresh : l.epoch + 1 ∉ l.inflight := by
      rw [← AList.lookup_eq_none]
      cases hlookup : l.inflight.lookup (l.epoch + 1) with
      | none => rfl
      | some e' => exact absurd (hl _ e' hlookup) (Nat.not_succ_le_self _)
    have hnumbers : numbers (ClaimLoop.take l e).inflight = e.number :: numbers l.inflight := by
      rw [numbers, ClaimLoop.take, AList.entries_insert_of_notMem hfresh]
      rfl
    refine h.moved.trans ?_
    rw [hnumbers, List.map_cons]
    exact List.perm_middle.symm
  · intro k hk
    rw [h.older k (Nat.le_succ_of_le hk)]
    exact AList.lookup_insert_ne (Nat.ne_of_lt (Nat.lt_succ_of_le hk))
  · intro k hlow hk
    rcases Nat.eq_or_lt_of_le hlow with rfl | hlow
    · rw [h.older (l.epoch + 1) (Nat.le_refl _)]
      exact Option.isSome_iff_exists.mpr ⟨_, AList.lookup_insert _⟩
    · exact h.fresh k hlow hk

theorem taken_sift (max now : ℤ) (l : ClaimLoop P) (xs : List (Entry P))
    (hl : ∀ k e, l.inflight.lookup k = some e → k ≤ l.epoch) :
    Taken now (room max l) l xs (sift (claimEntry max now) l xs).1
      (sift (claimEntry max now) l xs).2 := by
  induction xs generalizing l with
  | nil =>
      refine ⟨?_, ?_, rfl, List.Perm.refl _, Nat.le_refl _, hl, fun _ _ => rfl, ?_⟩
      · simp [sift, stamp]
      · simp [sift]
      · intro k hlow hk
        exact absurd hk (Nat.not_le_of_lt hlow)
  | cons e xs ih =>
      rw [sift]
      cases he : e.visible now with
      | false =>
          rw [claimEntry_of_hidden he]
          exact (ih l hl).keep (.inl he)
      | true =>
          by_cases hroom : room max l = 0
          · rw [claimEntry_of_full hroom]
            exact (ih l hl).keep (.inr hroom)
          · rw [claimEntry_of_visible hroom he]
            have htake : ∀ k e', (ClaimLoop.take l e).inflight.lookup k = some e' →
                k ≤ (ClaimLoop.take l e).epoch := by
              intro k e' hk
              by_cases hkey : k = l.epoch + 1
              · exact Nat.le_of_eq hkey
              · have hother : l.inflight.lookup k = some e' :=
                  (AList.lookup_insert_ne hkey).symm.trans hk
                exact Nat.le_succ_of_le (hl k e' hother)
            have hrest := ih (ClaimLoop.take l e) htake
            rw [room_take] at hrest
            have hsucc := hrest.take he hl
            rwa [Nat.sub_add_cancel (Nat.pos_of_ne_zero hroom)] at hsucc

def EpochsGiven (st : QueueStore P cap) : Prop :=
  ∀ k e, st.inflight.lookup k = some e → k ≤ st.epoch

/-- What `Claim` returns and leaves behind. -/
structure Claims (max now : ℤ) (st : QueueStore P cap) (out : List (Entry P))
    (st' : QueueStore P cap) : Prop where
  taken : Taken now max.toNat ⟨st.epoch, st.inflight, []⟩ st.ready st'.ready
    ⟨st'.epoch, st'.inflight, out⟩
  ordered : st'.ready.Sublist st.ready
  frame : st'.sem = st.sem ∧ st'.overflow = st.overflow ∧ st'.arrived = st.arrived

theorem claims_claim {st : QueueStore P cap} (hst : EpochsGiven st) (max now : ℤ) :
    Claims max now st (st.claim max now).1 (st.claim max now).2 := by
  unfold QueueStore.claim
  split
  · next hmax =>
      have hzero : max.toNat = 0 := Int.toNat_of_nonpos hmax
      refine ⟨?_, List.Sublist.refl _, rfl, rfl, rfl⟩
      rw [hzero]
      exact ⟨rfl, rfl, rfl, List.Perm.refl _, Nat.le_refl _, hst, fun _ _ => rfl,
        fun k hlow hk => absurd hk (Nat.not_le_of_lt hlow)⟩
  · dsimp only
    rw [take_compact, state_compact]
    refine ⟨?_, sift_sublist _ _ _, rfl, rfl, rfl⟩
    have htaken := taken_sift max now ⟨st.epoch, st.inflight, []⟩ st.ready hst
    have hroom : room max (⟨st.epoch, st.inflight, []⟩ : ClaimLoop P) = max.toNat := by
      simp [room]
    rwa [hroom] at htaken

end Msgin.Memory
