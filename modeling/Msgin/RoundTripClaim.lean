import Msgin.RoundTripJob

/-!
# Releasing the group of one split message

The rest of the life of such a group: one of the calls that release it claims it, the others
are declined, and the claim goes through the aggregate function and the output channel to its
settlement.
-/

namespace Msgin.Routing

open Memory

variable {P : Type} {J : SplitJob P} {key : String} {foreign : ℕ → Option ℤ} {v : View P}
  {t : ℕ} {m : Message P} {p p' : Phase P}

/-- The call of `t`, in phase `p`, holds a claim of the group. -/
structure HeldBy (J : SplitJob P) (key : String) (v : View P) (t : ℕ) (p : Phase P)
    (g : GroupState P) (claim : ClaimGroup P) : Prop where
  group : v.group = some g
  leased : Leased g claim
  named : claim.key = key
  collected : Collected J claim.msgs
  complete : J.size ≤ claim.msgs.length
  unsettled : v.settled = false
  holding : p.Holding claim v.outputs
  early : ∀ t' m p, t' ≠ t → v.stage t' = some (m, p) → p.early = true
  sourced : Sourced v claim.msgs

namespace JobState

theorem exists_of_releasing {ms : List (Member P)} (hopen : Open v.group ms)
    (hsize : J.size ≤ ms.length) : ∃ g, v.group = some g ∧ Unleased g ∧ g.msgs = ms := by
  rcases hopen with ⟨-, rfl⟩ | h
  · exact absurd hsize (Nat.not_le.mpr J.size_pos)
  · exact h

variable (h : JobState J key foreign v)

include h

theorem declined {group : Snapshot P} (ht : v.stage t = some (m, .claiming group))
    (hgroup : ∀ g, v.group = some g → g.leased = true) :
    JobState J key foreign (v.set t m .done) := by
  have hsourced : ∀ ms, Sourced v ms → Sourced (v.set t m .done) ms := fun ms h =>
    h.set (Or.inr ⟨_, ht, fun _ => rfl⟩)
  cases h with
  | collecting ms group collected unsettled silent early added complete pending sourced =>
      obtain ⟨g, hg, hopen, -⟩ := exists_of_releasing group (complete t m _ ht rfl)
      have hleased := hgroup g hg
      simp [hopen.leased] at hleased
  | claimed g claim holder m₀ p₀ group leased named collected complete unsettled held holding
      early sourced =>
      have hne : holder ≠ t := by
        rintro rfl
        obtain ⟨-, rfl⟩ := Prod.mk.inj (Option.some.inj (ht.symm.trans held))
        cases holding
      refine .claimed g claim holder m₀ p₀ group leased named collected complete unsettled
        (View.stage_set.mpr (Or.inr ⟨hne, held⟩)) holding ?_ (hsourced _ sourced)
      intro t' m' p ht' hp
      exact View.forall_set (fun _ => rfl) (fun t' m' p _ hp ht' => early t' m' p ht' hp)
        t' m' p hp ht'
  | settled ms group settled outputs collected complete late sourced =>
      exact .settled ms group settled outputs collected complete
        (View.forall_set (Or.inl rfl) fun t' m' p _ hp => late t' m' p hp) (hsourced _ sourced)

theorem claim {group : Snapshot P} (ht : v.stage t = some (m, .claiming group)) {g : GroupState P}
    (hg : v.group = some g) (hfree : g.leased = false) :
    JobState J key foreign ({ v with group := some g.lease }.set t m
      (.aggregating ⟨⟨key, g.msgs, g.createdAt⟩, g.epoch + 1⟩)) := by
  cases h with
  | collecting ms group collected unsettled silent early added complete pending sourced =>
      obtain ⟨g', hg', hopen, hms⟩ := exists_of_releasing group (complete t m _ ht rfl)
      obtain rfl : g = g' := Option.some.inj (hg.symm.trans hg')
      subst hms
      refine .claimed _ ⟨⟨key, g.msgs, g.createdAt⟩, g.epoch + 1⟩ t m _ rfl
        ⟨rfl, rfl, rfl, rfl, hopen.ids⟩ rfl collected (complete t m _ ht rfl) unsettled
        (View.stage_set.mpr (Or.inl ⟨rfl, rfl⟩)) ?_ ?_ ?_
      · simp only [View.set, silent]
        exact .aggregating
      · intro t' m' p ht' hp
        rcases View.stage_set.mp hp with ⟨heq, -⟩ | ⟨-, hsame⟩
        · exact absurd heq ht'
        · exact early t' m' p hsame
      · exact sourced.set (Or.inr ⟨_, ht, fun _ => rfl⟩)
  | claimed g' claim holder m₀ p₀ group leased named collected complete unsettled held holding
      early sourced =>
      obtain rfl : g = g' := Option.some.inj (hg.symm.trans group)
      simp [leased.leased] at hfree
  | settled ms group settled outputs collected complete late sourced => simp [group] at hg

theorem heldBy_of_late (ht : v.stage t = some (m, p)) (hp : p.early = false)
    (hlate : p ≠ .drained ∧ p ≠ .draining) : ∃ g claim, HeldBy J key v t p g claim := by
  cases h with
  | collecting ms group collected unsettled silent early added complete pending sourced =>
      simp [early t m p ht] at hp
  | claimed g claim holder m₀ p₀ group leased named collected complete unsettled held holding
      early sourced =>
      obtain rfl : holder = t := by
        by_contra hne
        simp [early t m p (Ne.symm hne) ht] at hp
      obtain ⟨rfl, rfl⟩ := Prod.mk.inj (Option.some.inj (ht.symm.trans held))
      exact ⟨g, claim, group, leased, named, collected, complete, unsettled, holding, early,
        sourced⟩
  | settled ms group settled outputs collected complete late sourced =>
      rcases late t m p ht with hearly | hdrained | hdraining
      · simp [hearly] at hp
      · exact absurd hdrained hlate.1
      · exact absurd hdraining hlate.2

theorem hold {outputs : List (List (Member P))} (ht : v.stage t = some (m, p))
    (hp : p.early = false) (hlate : p ≠ .drained ∧ p ≠ .draining)
    (hnext : ∀ claim, p.Holding claim v.outputs → p'.Holding claim outputs) :
    JobState J key foreign ({ v with outputs := outputs }.set t m p') := by
  obtain ⟨g, claim, hheld⟩ := h.heldBy_of_late ht hp hlate
  have hholding := hnext claim hheld.holding
  refine .claimed g claim t m p' hheld.group hheld.leased hheld.named hheld.collected
    hheld.complete hheld.unsettled (View.stage_set.mpr (Or.inl ⟨rfl, rfl⟩)) hholding ?_ ?_
  · intro t' m' q ht' hq
    rcases View.stage_set.mp hq with ⟨heq, -⟩ | ⟨-, hsame⟩
    · exact absurd heq ht'
    · exact hheld.early t' m' q ht' hsame
  · exact hheld.sourced.set (Or.inr ⟨p, ht, fun _ => hholding.not_early.2⟩)

theorem aggregate {claim : ClaimGroup P} (ht : v.stage t = some (m, .aggregating claim))
    (out : Message P) : JobState J key foreign (v.set t m (.sending claim out)) := by
  refine h.hold ht rfl ⟨by simp, by simp⟩ fun claim' holding => ?_
  generalize v.outputs = outputs at holding ⊢
  cases holding
  exact .sending out

theorem send {claim : ClaimGroup P} {out : Message P}
    (ht : v.stage t = some (m, .sending claim out)) :
    JobState J key foreign
      ({ v with outputs := v.outputs ++ [claim.msgs] }.set t m (.settling claim)) := by
  refine h.hold ht rfl ⟨by simp, by simp⟩ fun claim' holding => ?_
  generalize v.outputs = outputs at holding ⊢
  cases holding
  exact .settling

theorem heldBy_of_settling {claim : ClaimGroup P} (ht : v.stage t = some (m, .settling claim)) :
    ∃ g, HeldBy J key v t (.settling claim) g claim ∧ v.outputs = [claim.msgs] := by
  obtain ⟨g, claim', hheld⟩ := h.heldBy_of_late ht rfl ⟨by simp, by simp⟩
  have hholding := hheld.holding
  generalize v.outputs = outputs at hholding
  cases hholding
  exact ⟨g, hheld, rfl⟩

theorem settle {claim : ClaimGroup P} (ht : v.stage t = some (m, .settling claim)) :
    JobState J key foreign ({ v with group := none, settled := true }.set t m .drained) := by
  obtain ⟨g, hheld, houtputs⟩ := h.heldBy_of_settling ht
  refine .settled claim.msgs rfl rfl houtputs hheld.collected hheld.complete ?_ ?_
  · exact View.forall_set (Or.inr (Or.inl rfl)) fun t' m' p hne hp =>
      Or.inl (hheld.early t' m' p hne hp)
  · exact hheld.sourced.set (Or.inr ⟨_, ht, fun _ => rfl⟩)

theorem drain (ht : v.stage t = some (m, p)) (hp : p = .drained ∨ p = .draining)
    (hp' : p'.early = true ∨ p' = .drained ∨ p' = .draining) (hadded : p'.added = true) :
    v.group = none ∧ JobState J key foreign (v.set t m p') := by
  have hearly : p.early = false := by rcases hp with rfl | rfl <;> rfl
  cases h with
  | collecting ms group collected unsettled silent early added complete pending sourced =>
      simp [early t m p ht] at hearly
  | claimed g claim holder m₀ p₀ group leased named collected complete unsettled held holding
      early sourced =>
      obtain rfl : holder = t := by
        by_contra hne
        simp [early t m p (Ne.symm hne) ht] at hearly
      obtain ⟨rfl, rfl⟩ := Prod.mk.inj (Option.some.inj (ht.symm.trans held))
      rcases hp with rfl | rfl <;> cases holding
  | settled ms group settled outputs collected complete late sourced =>
      exact ⟨group, .settled ms group settled outputs collected complete
        (View.forall_set hp' fun t' m' p _ hp => late t' m' p hp)
        (sourced.set (Or.inr ⟨p, ht, fun _ => hadded⟩))⟩

theorem finished (hdone : ∀ t m p, v.stage t = some (m, p) → p = .done)
    (hall : ∀ m ∈ J.stamped, ∃ t p, v.stage t = some (m, p)) :
    v.group = none ∧ v.settled = true ∧ ∃ ms, v.outputs = [ms] ∧
      (ms.map Member.msg).Perm J.stamped := by
  cases h with
  | collecting ms group collected unsettled silent early added complete pending sourced =>
      have hsub : J.stamped ⊆ ms.map Member.msg := by
        intro m hm
        obtain ⟨t, p, hp⟩ := hall m hm
        exact added t m p hp (by rw [hdone t m p hp]; rfl)
      have hsize : J.size ≤ ms.length := by
        have hle := (J.nodup_ids.of_map.subperm hsub).length_le
        rwa [J.length_stamped, List.length_map] at hle
      obtain ⟨t, m, p, hp, hrel⟩ := pending hsize
      rw [hdone t m p hp] at hrel
      simp [Phase.releasing] at hrel
  | claimed g claim holder m₀ p₀ group leased named collected complete unsettled held holding
      early sourced =>
      obtain rfl := hdone holder m₀ p₀ held
      cases holding
  | settled ms group settled outputs collected complete late sourced =>
      exact ⟨group, settled, ms, outputs, collected.perm complete⟩

end JobState

end Msgin.Routing
