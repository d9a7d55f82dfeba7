import Msgin.Rendezvous

/-!
# The life of a slot

A slot is registered, and then withdrawn, or taken off the board by a deliverer, filled and taken,
or closed. Every clause of the invariant speaks about one slot, so the invariant holds if every slot
is at one of its stages, and a step moves one slot on and leaves the others alone.
-/

namespace Rendezvous

variable {K V : Type*} {key : V → K} {b : Board K V} {c n i : ℕ} {k : K} {v : V}

theorem Holder.Open.slot_eq {x : Holder K V} (h : x.Open k i) : x.slot = some i := by
  rcases h with rfl | rfl
  · rfl
  · rfl

theorem Holder.Open.key_eq {x : Holder K V} {k' : K} (h : x.Open k i) (h' : x.Open k' i) :
    k = k' := by
  rcases h with rfl | rfl
  · rcases h' with h' | h'
    · exact (Holder.holding.inj h').1
    · cases h'
  · rcases h' with h' | h'
    · cases h'
    · exact (Holder.draining.inj h').1

/-- The slot was made by this waiter, and no other has it. -/
structure Owned (b : Board K V) (c i : ℕ) : Prop where
  made : i < b.made
  owner : b.owner i = c
  only : ∀ d, (b.holder d).slot = some i → d = c

inductive Stage (key : V → K) (b : Board K V) (i : ℕ) : Prop
  | free (unheld : ∀ c, (b.holder c).slot ≠ some i) (unlisted : ∀ k, b.waiter k ≠ some i)
      (ungiven : ∀ n, (b.deliverer n).slot ≠ some i)
  | listed (c : ℕ) (k : K) (owned : Owned b c i) (holds : b.holder c = .holding k i)
      (listed : ∀ k', b.waiter k' = some i ↔ k' = k)
      (ungiven : ∀ n, (b.deliverer n).slot ≠ some i) (empty : b.slot i = .make _ 1)
  | closed (c : ℕ) (k : K) (owned : Owned b c i) (holds : (b.holder c).Open k i)
      (unlisted : ∀ k', b.waiter k' ≠ some i) (ungiven : ∀ n, (b.deliverer n).slot ≠ some i)
      (shut : b.slot i = .shut _ 1)
  | committed (c n : ℕ) (v : V) (owned : Owned b c i) (holds : (b.holder c).Open (key v) i)
      (unlisted : ∀ k', b.waiter k' ≠ some i) (given : ∀ m, (b.deliverer m).slot = some i → m = n)
      (gives : b.deliverer n = .committed i v) (empty : b.slot i = .make _ 1)
  | filled (c n : ℕ) (v : V) (owned : Owned b c i) (holds : (b.holder c).Open (key v) i)
      (unlisted : ∀ k', b.waiter k' ≠ some i) (given : ∀ m, (b.deliverer m).slot = some i → m = n)
      (gives : b.deliverer n = .delivered i v) (full : b.slot i = .full (n, v))
  | taken (c n : ℕ) (v : V) (owned : Owned b c i) (holds : b.holder c = .taken (key v) i n v)
      (unlisted : ∀ k', b.waiter k' ≠ some i) (given : ∀ m, (b.deliverer m).slot = some i → m = n)
      (gives : b.deliverer n = .delivered i v) (empty : b.slot i = .make _ 1)

theorem Inv.owned (h : Inv key b) (hc : (b.holder c).slot = some i) : Owned b c i where
  made := (h.owner c i hc).1
  owner := (h.owner c i hc).2
  only d hd := (h.owner d i hd).2.symm.trans (h.owner c i hc).2

theorem Inv.stage (h : Inv key b) (i : ℕ) : Stage key b i := by
  by_cases hlisted : ∃ k, b.waiter k = some i
  · obtain ⟨k, hk⟩ := hlisted
    obtain ⟨hempty, hholds, hnone⟩ := h.waiting k i hk
    have howned : Owned b (b.owner i) i := h.owned (by rw [hholds]; rfl)
    refine .listed (b.owner i) k howned hholds (fun k' => ⟨h.eq_of_listed hk, ?_⟩) hnone hempty
    rintro rfl
    exact hk
  have hunlisted : ∀ k, b.waiter k ≠ some i := fun k hk => hlisted ⟨k, hk⟩
  by_cases hgiven : ∃ n, (b.deliverer n).slot = some i
  · obtain ⟨n, hn⟩ := hgiven
    have hone : ∀ m, (b.deliverer m).slot = some i → m = n :=
      fun m hm => h.delivererInj m n i hm hn
    cases hgives : b.deliverer n with
    | away =>
        rw [hgives] at hn
        cases hn
    | committed j v =>
        rw [hgives] at hn
        obtain rfl : j = i := Option.some.inj hn
        obtain ⟨hempty, hopen⟩ := h.committed n j v hgives
        exact .committed (b.owner j) n v (h.owned hopen.slot_eq) hopen hunlisted hone hgives hempty
    | delivered j v =>
        rw [hgives] at hn
        obtain rfl : j = i := Option.some.inj hn
        rcases h.delivered n j v hgives with ⟨hfull, hopen⟩ | ⟨hempty, htaken⟩
        · exact .filled (b.owner j) n v (h.owned hopen.slot_eq) hopen hunlisted hone hgives hfull
        · have howned : Owned b (b.owner j) j := h.owned (by rw [htaken]; rfl)
          exact .taken (b.owner j) n v howned htaken hunlisted hone hgives hempty
  have hungiven : ∀ n, (b.deliverer n).slot ≠ some i := fun n hn => hgiven ⟨n, hn⟩
  have hshut : ∀ k, b.Gone key k i → b.slot i = .shut _ 1 := by
    rintro k (hshut | ⟨n, v, -, hn | ⟨hn, -⟩⟩)
    · exact hshut
    · exact absurd (by rw [hn]; rfl) (hungiven n)
    · exact absurd (by rw [hn]; rfl) (hungiven n)
  by_cases hheld : ∃ c, (b.holder c).slot = some i
  · obtain ⟨c, hc⟩ := hheld
    have howned := h.owned hc
    cases hholds : b.holder c with
    | away =>
        rw [hholds] at hc
        cases hc
    | holding k j =>
        rw [hholds] at hc
        obtain rfl : j = i := Option.some.inj hc
        have hgone := (h.holding c k j hholds).resolve_left (hunlisted k)
        exact .closed c k howned (.inl hholds) hunlisted hungiven (hshut k hgone)
    | draining k j =>
        rw [hholds] at hc
        obtain rfl : j = i := Option.some.inj hc
        have hgone := h.draining c k j hholds
        exact .closed c k howned (.inr hholds) hunlisted hungiven (hshut k hgone)
    | taken k j n v =>
        rw [hholds] at hc
        obtain rfl : j = i := Option.some.inj hc
        have hgives := (h.taken c k j n v hholds).2
        exact absurd (by rw [hgives]; rfl) (hungiven n)
  · exact .free (fun c hc => hheld ⟨c, hc⟩) hunlisted hungiven

namespace Stage

variable (h : Stage key b i)

include h

theorem owned (hc : (b.holder c).slot = some i) : Owned b c i := by
  cases h with
  | free unheld => exact absurd hc (unheld c)
  | listed d k owned | closed d k owned | committed d n v owned | filled d n v owned
  | taken d n v owned =>
      obtain rfl := owned.only c hc
      exact owned

theorem deliverer_made (hn : (b.deliverer n).slot = some i) : i < b.made := by
  cases h with
  | free _ _ ungiven => exact absurd hn (ungiven n)
  | listed _ _ _ _ _ ungiven | closed _ _ _ _ _ ungiven => exact absurd hn (ungiven n)
  | committed d m v owned | filled d m v owned | taken d m v owned => exact owned.made

theorem deliverer_inj {m : ℕ} (hn : (b.deliverer n).slot = some i)
    (hm : (b.deliverer m).slot = some i) : n = m := by
  cases h with
  | free _ _ ungiven => exact absurd hn (ungiven n)
  | listed _ _ _ _ _ ungiven | closed _ _ _ _ _ ungiven => exact absurd hn (ungiven n)
  | committed d l v _ _ _ given | filled d l v _ _ _ given | taken d l v _ _ _ given =>
      exact (given n hn).trans (given m hm).symm

theorem waiting (hk : b.waiter k = some i) :
    b.slot i = .make _ 1 ∧ b.holder (b.owner i) = .holding k i ∧
      ∀ n, (b.deliverer n).slot ≠ some i := by
  cases h with
  | listed c k' owned holds listed ungiven empty =>
      obtain rfl := (listed k).mp hk
      obtain rfl := owned.owner
      exact ⟨empty, holds, ungiven⟩
  | free _ unlisted | closed _ _ _ _ unlisted | committed _ _ _ _ _ unlisted
  | filled _ _ _ _ _ unlisted | taken _ _ _ _ _ unlisted => exact absurd hk (unlisted k)

theorem of_open (hc : (b.holder c).Open k i) :
    b.waiter k = some i ∧ b.holder c = .holding k i ∨ b.Gone key k i := by
  have hslot := hc.slot_eq
  cases h with
  | free unheld => exact absurd hslot (unheld c)
  | listed d k' owned holds listed =>
      obtain rfl := owned.only c hslot
      obtain rfl := hc.key_eq (.inl holds)
      exact .inl ⟨(listed k).mpr rfl, holds⟩
  | closed d k' owned holds unlisted ungiven shut => exact .inr (.inl shut)
  | committed d n v owned holds unlisted given gives =>
      obtain rfl := owned.only c hslot
      exact .inr (.inr ⟨n, v, holds.key_eq hc, .inl gives⟩)
  | filled d n v owned holds unlisted given gives full =>
      obtain rfl := owned.only c hslot
      exact .inr (.inr ⟨n, v, holds.key_eq hc, .inr ⟨gives, full⟩⟩)
  | taken d n v owned holds =>
      obtain rfl := owned.only c hslot
      rw [holds] at hc
      rcases hc with hc | hc
      · cases hc
      · cases hc

theorem of_committed (hn : b.deliverer n = .committed i v) :
    b.slot i = .make _ 1 ∧ (b.holder (b.owner i)).Open (key v) i := by
  have hslot : (b.deliverer n).slot = some i := by
    rw [hn]
    rfl
  cases h with
  | free _ _ ungiven => exact absurd hslot (ungiven n)
  | listed _ _ _ _ _ ungiven | closed _ _ _ _ _ ungiven => exact absurd hslot (ungiven n)
  | committed c m w owned holds unlisted given gives empty =>
      obtain rfl := given n hslot
      rw [hn] at gives
      cases gives
      obtain rfl := owned.owner
      exact ⟨empty, holds⟩
  | filled c m w owned holds unlisted given gives
  | taken c m w owned holds unlisted given gives =>
      obtain rfl := given n hslot
      rw [hn] at gives
      cases gives

theorem of_delivered (hn : b.deliverer n = .delivered i v) :
    (b.slot i = .full (n, v) ∧ (b.holder (b.owner i)).Open (key v) i) ∨
      (b.slot i = .make _ 1 ∧ b.holder (b.owner i) = .taken (key v) i n v) := by
  have hslot : (b.deliverer n).slot = some i := by
    rw [hn]
    rfl
  cases h with
  | free _ _ ungiven => exact absurd hslot (ungiven n)
  | listed _ _ _ _ _ ungiven | closed _ _ _ _ _ ungiven => exact absurd hslot (ungiven n)
  | committed c m w owned holds unlisted given gives =>
      obtain rfl := given n hslot
      rw [hn] at gives
      cases gives
  | filled c m w owned holds unlisted given gives full =>
      obtain rfl := given n hslot
      rw [hn] at gives
      cases gives
      obtain rfl := owned.owner
      exact .inl ⟨full, holds⟩
  | taken c m w owned holds unlisted given gives empty =>
      obtain rfl := given n hslot
      rw [hn] at gives
      cases gives
      obtain rfl := owned.owner
      exact .inr ⟨empty, holds⟩

theorem of_taken (hc : b.holder c = .taken k i n v) :
    key v = k ∧ b.deliverer n = .delivered i v := by
  have hslot : (b.holder c).slot = some i := by
    rw [hc]
    rfl
  cases h with
  | free unheld => exact absurd hslot (unheld c)
  | listed d k' owned holds =>
      obtain rfl := owned.only c hslot
      rw [hc] at holds
      cases holds
  | closed d k' owned holds | committed d m w owned holds | filled d m w owned holds =>
      obtain rfl := owned.only c hslot
      rw [hc] at holds
      rcases holds with holds | holds
      · cases holds
      · cases holds
  | taken d m w owned holds unlisted given gives =>
      obtain rfl := owned.only c hslot
      rw [hc] at holds
      cases holds
      exact ⟨rfl, gives⟩

end Stage

theorem inv_of_stages (h : ∀ i, Stage key b i) : Inv key b where
  owner c i hc := ⟨((h i).owned hc).made, ((h i).owned hc).owner⟩
  delivererMade n i hn := (h i).deliverer_made hn
  delivererInj n m i hn hm := (h i).deliverer_inj hn hm
  waiting k i hk := (h i).waiting hk
  holding c k i hc := ((h i).of_open (.inl hc)).imp_left And.left
  draining c k i hc := by
    refine ((h i).of_open (.inr hc)).resolve_left ?_
    rintro ⟨-, hholds⟩
    rw [hc] at hholds
    cases hholds
  committed n i v hn := (h i).of_committed hn
  delivered n i v hn := (h i).of_delivered hn
  taken c k i n v hc := (h i).of_taken hc

/-- The boards do not differ in what they say about a slot. -/
structure Same (b b' : Board K V) (i : ℕ) : Prop where
  waiter : ∀ k, b'.waiter k = some i ↔ b.waiter k = some i
  slot : b'.slot i = b.slot i
  made : i < b.made → i < b'.made
  owner : b'.owner i = b.owner i
  holder : ∀ c x, x.slot = some i → (b'.holder c = x ↔ b.holder c = x)
  deliverer : ∀ n x, x.slot = some i → (b'.deliverer n = x ↔ b.deliverer n = x)

section Same

variable {b' : Board K V} (hsame : Same b b' i)

include hsame

theorem Same.held (c : ℕ) : (b'.holder c).slot = some i ↔ (b.holder c).slot = some i := by
  constructor
  · intro hc
    rw [(hsame.holder c _ hc).mp rfl]
    exact hc
  · intro hc
    rw [(hsame.holder c _ hc).mpr rfl]
    exact hc

theorem Same.given (n : ℕ) : (b'.deliverer n).slot = some i ↔ (b.deliverer n).slot = some i := by
  constructor
  · intro hn
    rw [(hsame.deliverer n _ hn).mp rfl]
    exact hn
  · intro hn
    rw [(hsame.deliverer n _ hn).mpr rfl]
    exact hn

theorem Same.opened (h : (b.holder c).Open k i) : (b'.holder c).Open k i :=
  h.imp (hsame.holder c _ rfl).mpr (hsame.holder c _ rfl).mpr

theorem Same.owned (h : Owned b c i) : Owned b' c i where
  made := hsame.made h.made
  owner := hsame.owner.trans h.owner
  only d hd := h.only d ((hsame.held d).mp hd)

theorem Stage.congr (h : Stage key b i) : Stage key b' i := by
  have hungiven (hnone : ∀ n, (b.deliverer n).slot ≠ some i) (n : ℕ) :
      (b'.deliverer n).slot ≠ some i := fun hn => hnone n ((hsame.given n).mp hn)
  have hunlisted (hnone : ∀ k, b.waiter k ≠ some i) (k : K) : b'.waiter k ≠ some i :=
    fun hk => hnone k ((hsame.waiter k).mp hk)
  have hgiven {n : ℕ} (hone : ∀ m, (b.deliverer m).slot = some i → m = n) (m : ℕ)
      (hm : (b'.deliverer m).slot = some i) : m = n := hone m ((hsame.given m).mp hm)
  cases h with
  | free unheld unlisted ungiven =>
      exact .free (fun c hc => unheld c ((hsame.held c).mp hc)) (hunlisted unlisted)
        (hungiven ungiven)
  | listed c k owned holds listed ungiven empty =>
      exact .listed c k (hsame.owned owned) ((hsame.holder c _ rfl).mpr holds)
        (fun k' => (hsame.waiter k').trans (listed k')) (hungiven ungiven) (hsame.slot.trans empty)
  | closed c k owned holds unlisted ungiven shut =>
      exact .closed c k (hsame.owned owned) (hsame.opened holds) (hunlisted unlisted)
        (hungiven ungiven) (hsame.slot.trans shut)
  | committed c n v owned holds unlisted given gives empty =>
      exact .committed c n v (hsame.owned owned) (hsame.opened holds) (hunlisted unlisted)
        (hgiven given) ((hsame.deliverer n _ rfl).mpr gives) (hsame.slot.trans empty)
  | filled c n v owned holds unlisted given gives full =>
      exact .filled c n v (hsame.owned owned) (hsame.opened holds) (hunlisted unlisted)
        (hgiven given) ((hsame.deliverer n _ rfl).mpr gives) (hsame.slot.trans full)
  | taken c n v owned holds unlisted given gives empty =>
      exact .taken c n v (hsame.owned owned) ((hsame.holder c _ rfl).mpr holds)
        (hunlisted unlisted) (hgiven given) ((hsame.deliverer n _ rfl).mpr gives)
        (hsame.slot.trans empty)

end Same

/-- A step that moves one slot on. -/
theorem Inv.move (h : Inv key b) {b' : Board K V} (i : ℕ) (hsame : ∀ j, j ≠ i → Same b b' j)
    (hi : Stage key b' i) : Inv key b' := by
  refine inv_of_stages fun j => ?_
  by_cases hj : j = i
  · rw [hj]
    exact hi
  · exact (h.stage j).congr (hsame j hj)

end Rendezvous
