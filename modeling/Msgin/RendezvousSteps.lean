import Msgin.RendezvousStages

/-!
# The steps of a rendezvous

Each step takes one slot from a stage to the next and leaves the other slots alone, except that
shutting the board closes all the slots that are on it.
-/

namespace Rendezvous

variable {K V : Type*} {key : V → K} {b : Board K V} {c n i : ℕ} {k : K} {v : V} {α : Type*}
  {new : α} {j : ℕ}

theorem update_iff {ι : Type*} [DecidableEq ι] {f : ι → α} {a a' : ι} {x : α} (hold : f a ≠ x)
    (hnew : new ≠ x) : Function.update f a new a' = x ↔ f a' = x := by
  by_cases ha : a' = a
  · subst ha
    rw [Function.update_self]
    exact iff_of_false hnew hold
  · rw [Function.update_of_ne ha]

theorem update_slot_iff (slot : α → Option ℕ) {f : ℕ → α} {a : ℕ} (hold : slot (f a) ≠ some j)
    (hnew : slot new ≠ some j) (a' : ℕ) (x : α) (hx : slot x = some j) :
    Function.update f a new a' = x ↔ f a' = x :=
  update_iff (fun he => hold (he ▸ hx)) (fun he => hnew (he ▸ hx))

theorem eq_of_update (slot : α → Option ℕ) {f : ℕ → α} {a : ℕ}
    (hone : ∀ a', slot (f a') = some j → a' = a) (a' : ℕ)
    (h : slot (Function.update f a new a') = some j) : a' = a := by
  by_contra hne
  rw [Function.update_of_ne hne] at h
  exact hne (hone a' h)

namespace Inv

/-- No waiter has the slot of one that lets go of it. -/
theorem unheld_update (h : Inv key b) (hc : (b.holder c).slot = some i) (d : ℕ) :
    (Function.update b.holder c .away d).slot ≠ some i := by
  intro hd
  rw [eq_of_update Holder.slot (h.owned hc).only d hd, Function.update_self] at hd
  cases hd

/-- A waiter that goes on with its slot is still the only one that has it. -/
theorem owned_update (h : Inv key b) (hc : (b.holder c).slot = some i) (new : Holder K V) :
    Owned { b with holder := Function.update b.holder c new } c i where
  made := (h.owned hc).made
  owner := (h.owned hc).owner
  only := eq_of_update Holder.slot (h.owned hc).only

/-- The slot of a deliverer is not on the board. -/
theorem unlisted_of_given (h : Inv key b) (hn : (b.deliverer n).slot = some i) (k : K) :
    b.waiter k ≠ some i :=
  fun hk => (h.waiting k i hk).2.2 n hn

section Waiter

variable [DecidableEq K]

/-- A slot is on the board once. -/
theorem unlisted_update (h : Inv key b) (hk : b.waiter k = some i) (k' : K) :
    Function.update b.waiter k none k' ≠ some i := by
  intro hk'
  by_cases hkk : k' = k
  · rw [hkk, Function.update_self] at hk'
    cases hk'
  · rw [Function.update_of_ne hkk] at hk'
    exact hkk (h.eq_of_listed hk hk')

theorem register (h : Inv key b) (haway : b.holder c = .away) (hfree : b.waiter k = none) :
    Inv key { b with
      waiter := Function.update b.waiter k (some b.made)
      slot := Function.update b.slot b.made (.make _ 1)
      made := b.made + 1
      owner := Function.update b.owner b.made c
      holder := Function.update b.holder c (.holding k b.made) } := by
  -- The new slot is none of those that the board speaks about.
  have hunheld : ∀ d, (b.holder d).slot ≠ some b.made :=
    fun d hd => Nat.lt_irrefl _ (h.owner d b.made hd).1
  have hunlisted : ∀ k', b.waiter k' ≠ some b.made := by
    intro k' hk'
    apply hunheld (b.owner b.made)
    rw [(h.waiting k' b.made hk').2.1]
    rfl
  refine h.move b.made (fun j hj => ?_) ?_
  · have hne : some b.made ≠ some j := fun he => hj (Option.some.inj he).symm
    exact
      { waiter := fun k' => update_iff (by simp [hfree]) hne
        slot := Function.update_of_ne hj ..
        made := Nat.lt_succ_of_lt
        owner := Function.update_of_ne hj ..
        holder := update_slot_iff Holder.slot (by simp [haway, Holder.slot]) hne
        deliverer := fun n x _ => Iff.rfl }
  · refine .listed c k ⟨Nat.lt_succ_self _, Function.update_self .., ?_⟩
      (Function.update_self ..) ?_ ?_ (Function.update_self ..)
    · exact eq_of_update Holder.slot fun d hd => absurd hd (hunheld d)
    · intro k'
      by_cases hk' : k' = k
      · simp [hk']
      · simp [hk', hunlisted k']
    · intro n hn
      exact Nat.lt_irrefl _ (h.delivererMade n b.made hn)

theorem withdraw (h : Inv key b) (hc : b.holder c = .holding k i) (hk : b.waiter k = some i) :
    Inv key { b with
      waiter := Function.update b.waiter k none
      holder := Function.update b.holder c .away } := by
  have hslot : (b.holder c).slot = some i := by
    rw [hc]
    rfl
  refine h.move i (fun j hj => ?_) ?_
  · have hne : some i ≠ some j := fun he => hj (Option.some.inj he).symm
    exact
      { waiter := fun k' => update_iff (by rw [hk]; exact hne) (Option.some_ne_none j).symm
        slot := rfl
        made := id
        owner := rfl
        holder := update_slot_iff Holder.slot (by rw [hslot]; exact hne) (Option.some_ne_none j).symm
        deliverer := fun n x _ => Iff.rfl }
  · exact .free (h.unheld_update hslot) (h.unlisted_update hk) (h.waiting k i hk).2.2

theorem commit (h : Inv key b) (haway : b.deliverer n = .away) (hk : b.waiter (key v) = some i) :
    Inv key { b with
      waiter := Function.update b.waiter (key v) none
      deliverer := Function.update b.deliverer n (.committed i v) } := by
  obtain ⟨hempty, hholds, hnone⟩ := h.waiting (key v) i hk
  have howned : Owned b (b.owner i) i := h.owned (by rw [hholds]; rfl)
  refine h.move i (fun j hj => ?_) ?_
  · have hne : some i ≠ some j := fun he => hj (Option.some.inj he).symm
    exact
      { waiter := fun k' => update_iff (by rw [hk]; exact hne) (Option.some_ne_none j).symm
        slot := rfl
        made := id
        owner := rfl
        holder := fun c x _ => Iff.rfl
        deliverer := update_slot_iff Deliverer.slot (by simp [haway, Deliverer.slot]) hne }
  · exact .committed (b.owner i) n v ⟨howned.made, howned.owner, howned.only⟩ (.inl hholds)
      (h.unlisted_update hk) (eq_of_update Deliverer.slot fun m hm => absurd hm (hnone m))
      (Function.update_self ..) hempty

end Waiter

/-- A waiter changes what it does with its slot, and the slot itself may change. -/
theorem same_of_holder {slot : ℕ → Chan (ℕ × V) 1} {new : Holder K V}
    (hc : (b.holder c).slot = some i) (hnew : new.slot ≠ some j) (hj : j ≠ i)
    (hslot : slot j = b.slot j) :
    Same b { b with slot := slot, holder := Function.update b.holder c new } j where
  waiter _ := Iff.rfl
  slot := hslot
  made := id
  owner := rfl
  holder := update_slot_iff Holder.slot
    (by rw [hc]; exact fun he => hj (Option.some.inj he).symm) hnew
  deliverer _ _ _ := Iff.rfl

variable (h : Inv key b)

include h

theorem miss (hc : b.holder c = .holding k i) (hk : b.waiter k ≠ some i) :
    Inv key { b with holder := Function.update b.holder c (.draining k i) } := by
  have hslot : (b.holder c).slot = some i := by
    rw [hc]
    rfl
  have howned := h.owned_update hslot (.draining k i)
  have hdrains : (Function.update b.holder c (.draining k i) c).Open k i :=
    .inr (Function.update_self ..)
  refine h.move i (fun j hj => same_of_holder hslot ?_ hj rfl) ?_
  · exact fun he => hj (Option.some.inj he).symm
  cases h.stage i with
  | free unheld => exact absurd hslot (unheld c)
  | listed d k' owned holds listed =>
      obtain rfl := owned.only c hslot
      obtain rfl := Holder.Open.key_eq (.inl hc) (.inl holds)
      exact absurd ((listed k).mpr rfl) hk
  | closed d k' owned holds unlisted ungiven shut =>
      exact .closed c k howned hdrains unlisted ungiven shut
  | committed d n v owned holds unlisted given gives empty =>
      obtain rfl := owned.only c hslot
      obtain rfl := holds.key_eq (.inl hc)
      exact .committed c n v howned hdrains unlisted given gives empty
  | filled d n v owned holds unlisted given gives full =>
      obtain rfl := owned.only c hslot
      obtain rfl := holds.key_eq (.inl hc)
      exact .filled c n v howned hdrains unlisted given gives full
  | taken d n v owned holds =>
      obtain rfl := owned.only c hslot
      rw [hc] at holds
      cases holds

theorem take (hc : (b.holder c).Open k i) (hfull : b.slot i = .full (n, v)) :
    Inv key { b with
      slot := Function.update b.slot i (.make _ 1)
      holder := Function.update b.holder c (.taken k i n v) } := by
  obtain ⟨rfl, hgives⟩ := h.delivered_of_full hc hfull
  have hgiven : (b.deliverer n).slot = some i := by
    rw [hgives]
    rfl
  have howned := h.owned_update hc.slot_eq (.taken (key v) i n v)
  refine h.move i (fun j hj => same_of_holder hc.slot_eq ?_ hj (Function.update_of_ne hj ..)) ?_
  · exact fun he => hj (Option.some.inj he).symm
  · exact .taken c n v ⟨howned.made, howned.owner, howned.only⟩ (Function.update_self ..)
      (h.unlisted_of_given hgiven) (fun m hm => h.delivererInj m n i hm hgiven) hgives
      (Function.update_self ..)

theorem leave (hc : (b.holder c).Open k i) (hshut : b.slot i = .shut _ 1) :
    Inv key { b with holder := Function.update b.holder c .away } := by
  have hunheld := h.unheld_update hc.slot_eq
  refine h.move i (fun j hj => same_of_holder hc.slot_eq (Option.some_ne_none j).symm hj rfl) ?_
  cases h.stage i with
  | free unheld unlisted ungiven => exact .free hunheld unlisted ungiven
  | closed d k' owned holds unlisted ungiven => exact .free hunheld unlisted ungiven
  | listed _ _ _ _ _ _ empty | committed _ _ _ _ _ _ _ _ empty | taken _ _ _ _ _ _ _ _ empty =>
      exact absurd (empty.symm.trans hshut) (by simp [Chan.make_eq_shut])
  | filled _ _ _ _ _ _ _ _ full =>
      exact absurd (hshut.symm.trans full) (by simp [Chan.shut_eq_full])

theorem fill (hn : b.deliverer n = .committed i v) :
    Inv key { b with
      slot := Function.update b.slot i (.full (n, v))
      deliverer := Function.update b.deliverer n (.delivered i v) } := by
  obtain ⟨-, hopen⟩ := h.committed n i v hn
  have hgiven : (b.deliverer n).slot = some i := by
    rw [hn]
    rfl
  have howned := h.owned hopen.slot_eq
  refine h.move i (fun j hj => ?_) ?_
  · have hne : some i ≠ some j := fun he => hj (Option.some.inj he).symm
    exact
      { waiter := fun _ => Iff.rfl
        slot := Function.update_of_ne hj ..
        made := id
        owner := rfl
        holder := fun _ _ _ => Iff.rfl
        deliverer := update_slot_iff Deliverer.slot (by rw [hgiven]; exact hne) hne }
  · exact .filled (b.owner i) n v ⟨howned.made, howned.owner, howned.only⟩ hopen
      (h.unlisted_of_given hgiven)
      (eq_of_update Deliverer.slot fun m hm => h.delivererInj m n i hm hgiven)
      (Function.update_self ..) (Function.update_self ..)

theorem shutAll {slots : ℕ → Chan (ℕ × V) 1}
    (hlisted : ∀ k i, b.waiter k = some i → slots i = .shut _ 1)
    (hunlisted : ∀ i, (∀ k, b.waiter k ≠ some i) → slots i = b.slot i) :
    Inv key { b with waiter := fun _ => none, slot := slots } := by
  refine inv_of_stages fun i => ?_
  by_cases hi : ∃ k, b.waiter k = some i
  · obtain ⟨k, hk⟩ := hi
    obtain ⟨-, hholds, hnone⟩ := h.waiting k i hk
    have howned : Owned b (b.owner i) i := h.owned (by rw [hholds]; rfl)
    exact .closed (b.owner i) k ⟨howned.made, howned.owner, howned.only⟩ (.inl hholds)
      (fun _ => (Option.some_ne_none i).symm) hnone (hlisted k i hk)
  · have hnone : ∀ k, b.waiter k ≠ some i := fun k hk => hi ⟨k, hk⟩
    refine (h.stage i).congr ⟨?_, hunlisted i hnone, id, rfl, fun _ _ _ => Iff.rfl,
      fun _ _ _ => Iff.rfl⟩
    intro k
    exact iff_of_false (Option.some_ne_none i).symm (hnone k)

end Inv

end Rendezvous
