import Msgin.AggregatorLeases
import Msgin.AggregatorSettlement

/-!
# Leases that outlive their call

Every lease of the in-memory store was taken by a goroutine of the aggregator, which still has its
claim. When a call of `Handle` or `reapGroup` has ended, a group is left leased by a claim of that
call exactly when the call ended in a panic outside `releaseOnce` while it had a claim.
-/

namespace Msgin.Routing

open Interaction Prog Memory TransitionRuns KeyedMaps

variable {P : Type}

def HasLease (st : GroupStore P) (key : String) : Prop :=
  ∃ g, st.groups.lookup key = some g ∧ g.leased = true

/-- The key of a `ClaimGroup` that succeeds. -/
def claimKey (st : GroupStore P) : AggregatorCall P → Option String
  | .claimGroup key => (st.claimGroup key).1.map fun _ => key
  | _ => none

def claimed (s : AggregatorState P) : AggregatorLabel P → Option (ℕ × String)
  | .proceed t _ =>
    match s.goroutines t with
    | some ⟨_, .ask q _, _⟩ => (claimKey s.store q).map fun key => (t, key)
    | _ => none
  | _ => none

def lastClaim (key : String) (os : List (ℕ × String)) : Option ℕ :=
  os.foldl (fun last o => if o.2 = key then some o.1 else last) none

theorem lastClaim_concat (key : String) (os : List (ℕ × String)) (t : ℕ) (k : String) :
    lastClaim key (os ++ [(t, k)]) = if k = key then some t else lastClaim key os := by
  simp [lastClaim]

/-- A group is leased, and the lease is from a claim of goroutine `t`. -/
def LeftLeased (s : AggregatorState P) (os : List (ℕ × String)) (t : ℕ) : Prop :=
  ∃ key, HasLease s.store key ∧ lastClaim key os = some t

/-- A call of `Handle` or of `reapGroup` ends here. -/
def Control.EndsCall : Control P → Prop
  | .handled _ | .swept _ | .reaping _ _ => True
  | .draining _ _ => False

section Store

variable {st st' : GroupStore P} {key k : String} {cl : ClaimGroup P}

theorem hasLease_of_holds (h : st.Holds cl) : HasLease st cl.key := by
  obtain ⟨g, hg, hleased, -⟩ := h
  exact ⟨g, hg, hleased⟩

theorem HasLease.of_writes {og : Option (GroupState P)} (hw : Writes st key og st')
    (hfree : ∀ g, og = some g → g.leased = false) (h : HasLease st' k) : k ≠ key ∧ HasLease st k := by
  obtain ⟨g, hg, hleased⟩ := h
  have hkey : k ≠ key := by
    rintro rfl
    rw [hw.self] at hg
    rw [hfree g hg] at hleased
    cases hleased
  exact ⟨hkey, g, (hw.other hkey).symm.trans hg, hleased⟩

theorem HasLease.of_add {msg : Message P} {err : Option Err} (ho : AddOutcome key msg st err st')
    (h : HasLease st' k) : HasLease st k := by
  cases ho with
  | refused err st' same =>
      rcases same with rfl | ⟨now, -, hw, -⟩
      · exact h
      · refine (h.of_writes hw ?_).2
        rintro g ⟨rfl⟩
        rfl
  | known g found nonempty seen => exact h
  | appended g st' found writes counted =>
      by_cases hg : g.leased = true
      · by_cases hk : k = key
        · subst hk
          rcases found with found | ⟨-, now, rfl⟩
          · exact ⟨g, found, hg⟩
          · cases hg
        · obtain ⟨g', hg', hleased⟩ := h
          exact ⟨g', (writes.other hk).symm.trans hg', hleased⟩
      · refine (h.of_writes writes ?_).2
        rintro g' ⟨rfl⟩
        exact Bool.eq_false_iff.mpr hg

theorem HasLease.of_claimGroup (hc : st.claimGroup key = (some cl, st')) (h : HasLease st' k) :
    k = key ∨ HasLease st k := by
  obtain ⟨g, -, -, -, hw, -⟩ := claimGroup_eq_some hc
  by_cases hk : k = key
  · exact Or.inl hk
  · obtain ⟨g', hg', hleased⟩ := h
    exact Or.inr ⟨g', (hw.other hk).symm.trans hg', hleased⟩

theorem HasLease.of_abandonGroup (hcl : st.Holds cl) (h : HasLease (st.abandonGroup cl) k) :
    k ≠ cl.key ∧ HasLease st k := by
  obtain ⟨g, hfenced, -⟩ := fenced_of_holds hcl
  have heq : st.abandonGroup cl = { st with groups := st.groups.insert cl.key g.abandoned } := by
    simp only [GroupStore.abandonGroup, hfenced]
  rw [heq] at h
  refine h.of_writes (writes_insert st cl.key g.abandoned (Nat.le_refl _)) ?_
  rintro g' ⟨rfl⟩
  rfl

theorem HasLease.of_settleGroup (hcl : st.Holds cl) {now : ℤ} (h : HasLease (st.settleGroup cl now) k) :
    k ≠ cl.key ∧ HasLease st k := by
  obtain ⟨g, -, -, hw, -⟩ := settleGroup_writes hcl now
  refine h.of_writes hw ?_
  intro g' hg'
  unfold GroupState.settled at hg'
  split at hg'
  · cases hg'
  · obtain rfl := Option.some.inj hg'
    rfl

end Store

structure LeaseInv (s : AggregatorState P) (os : List (ℕ × String)) : Prop where
  inv : AggregatorInv s
  freed : ∀ t g, s.goroutines t = some g → Obeys OneClaim Freed g.code g.events
  same : ∀ t g, s.goroutines t = some g → standing g.events = held g.events
  leased : ∀ key, HasLease s.store key →
    ∃ t g cl, s.goroutines t = some g ∧ held g.events = some cl ∧ cl.key = key
  last : ∀ t g cl, s.goroutines t = some g → held g.events = some cl → lastClaim cl.key os = some t

variable {store : GroupStore P}

theorem leaseInv_initial {maxGroups maxGroupMembers : ℤ}
    (h : newGroupStore maxGroups maxGroupMembers = .ok store) :
    LeaseInv (.initial store) [] where
  inv := aggregatorInv_initial h
  freed := by simp [AggregatorState.initial]
  same := by simp [AggregatorState.initial]
  leased := by
    rintro key ⟨g, hg, -⟩
    simp [AggregatorState.initial, groups_newGroupStore h] at hg
  last := by simp [AggregatorState.initial]

section Steps

variable {s : AggregatorState P} {os os' : List (ℕ × String)} {t : ℕ} {g g' : Goroutine P}

theorem LeaseInv.update (h : LeaseInv s os) {settled : List (Settlement P)}
    (hinv : AggregatorInv ⟨store, Function.update s.goroutines t (some g'), settled⟩)
    (hfreed : Obeys OneClaim Freed g'.code g'.events) (hsame : standing g'.events = held g'.events)
    (hleased : ∀ key, HasLease store key → (∃ cl, held g'.events = some cl ∧ cl.key = key) ∨
      HasLease s.store key ∧ ∀ g cl, s.goroutines t = some g → held g.events = some cl → cl.key ≠ key)
    (hlast : ∀ cl, held g'.events = some cl → lastClaim cl.key os' = some t)
    (hothers : ∀ t₁ g₁ cl, t₁ ≠ t → s.goroutines t₁ = some g₁ → held g₁.events = some cl →
      lastClaim cl.key os' = lastClaim cl.key os) :
    LeaseInv ⟨store, Function.update s.goroutines t (some g'), settled⟩ os' where
  inv := hinv
  freed := by
    intro t₁ g₁ hg₁
    rcases update_eq_some.mp hg₁ with ⟨-, rfl⟩ | ⟨-, hold⟩
    · exact hfreed
    · exact h.freed t₁ g₁ hold
  same := by
    intro t₁ g₁ hg₁
    rcases update_eq_some.mp hg₁ with ⟨-, rfl⟩ | ⟨-, hold⟩
    · exact hsame
    · exact h.same t₁ g₁ hold
  leased := by
    intro key hkey
    rcases hleased key hkey with ⟨cl, hcl, rfl⟩ | ⟨hold, hmine⟩
    · exact ⟨t, g', cl, Function.update_self .., hcl, rfl⟩
    · obtain ⟨t₁, g₁, cl, hg₁, hcl, rfl⟩ := h.leased key hold
      have ht : t₁ ≠ t := by
        rintro rfl
        exact hmine g₁ cl hg₁ hcl rfl
      exact ⟨t₁, g₁, cl, (Function.update_of_ne ht _ _).trans hg₁, hcl, rfl⟩
  last := by
    intro t₁ g₁ cl hg₁ hcl
    rcases update_eq_some.mp hg₁ with ⟨rfl, rfl⟩ | ⟨ht, hold⟩
    · exact hlast cl hcl
    · rw [hothers t₁ g₁ cl ht hold hcl]
      exact h.last t₁ g₁ cl hold hcl

variable {code : AggregatorRoutine P (Control P)} {es : List (AggregatorEvent P)}
  {s' : AggregatorState P} {q : AggregatorCall P}

theorem LeaseInv.start (h : LeaseInv s os) {given : Option (Message P)}
    (hcode : Obeys Allowed (Acked given) code []) (hfreed : Obeys OneClaim Freed code [])
    (hs' : s.start t given code = some s') : LeaseInv s' os := by
  have hinv := h.inv.start hcode hs'
  unfold AggregatorState.start at hs'
  split at hs'
  · next hnone =>
      obtain rfl := Option.some.inj hs'
      refine h.update hinv hfreed rfl ?_ (by simp [held, claimAfter]) fun _ _ _ _ _ _ => rfl
      intro key hkey
      refine Or.inr ⟨hkey, fun g cl hg => ?_⟩
      simp [hg] at hnone
  · cases hs'

theorem LeaseInv.resume (h : LeaseInv s os) (hg : s.goroutines t = some g) {c : Control P}
    (hret : g.code = .ret c) (hcode : c.code = some code) :
    LeaseInv { s with goroutines := Function.update s.goroutines t (some { g with code }) } os := by
  have hfreed := h.freed t g hg
  rw [hret] at hfreed
  refine h.update (h.inv.resume hg hret hcode) (obeys_code_freed hfreed hcode) (h.same t g hg) ?_
    (fun cl hcl => h.last t g cl hg hcl) fun _ _ _ _ _ _ => rfl
  intro key hkey
  by_cases hmine : ∃ cl, held g.events = some cl ∧ cl.key = key
  · exact Or.inl hmine
  · refine Or.inr ⟨hkey, fun g₁ cl hg₁ hcl heq => hmine ⟨cl, ?_, heq⟩⟩
    obtain rfl : g = g₁ := Option.some.inj (hg.symm.trans hg₁)
    exact hcl

/-- What a call of goroutine `t` does to the leases: it takes one, gives its own back, or leaves
them alone. -/
inductive LeaseEffect (st : GroupStore P) (es : List (AggregatorEvent P)) (e : AggregatorEvent P)
    (st' : GroupStore P) (o : Option String) : Prop
  | kept (same : held (e :: es) = held es) (leases : ∀ key, HasLease st' key → HasLease st key)
      (none : o = none)
  | taken (cl : ClaimGroup P) (free : held es = none) (mine : held (e :: es) = some cl)
      (leases : ∀ key, HasLease st' key → key = cl.key ∨ HasLease st key)
      (apart : ∀ other, st.Holds other → other.key ≠ cl.key) (claim : o = some cl.key)
  | given (cl : ClaimGroup P) (mine : held es = some cl) (gone : held (e :: es) = none)
      (leases : ∀ key, HasLease st' key → key ≠ cl.key ∧ HasLease st key) (none : o = none)

theorem serve_leaseEffect (choice : AggregatorChoice P) {st : GroupStore P}
    (hheld : ∀ cl, held es = some cl → st.Holds cl) (hsame : standing es = held es)
    (hq : Allowed es q) (hone : OneClaim es q) :
    LeaseEffect st es ⟨q, (serve choice st q).1⟩ (serve choice st q).2 (claimKey st q) := by
  cases q with
  | add key msg => exact .kept rfl (fun k hk => hk.of_add (add_outcome key msg choice.now st)) rfl
  | claimGroup key =>
      simp only [serve, claimKey]
      rcases hclaim : st.claimGroup key with ⟨_ | cl, st'⟩
      · obtain rfl := claimGroup_eq_none hclaim
        exact .kept rfl (fun k hk => hk) rfl
      · have hkey := claimGroup_key hclaim
        refine .taken cl (hsame.symm.trans hone) rfl (fun k hk => ?_) (fun other hother => ?_)
          (by simp [hkey])
        · rw [hkey]
          exact hk.of_claimGroup hclaim
        · rw [hkey]
          exact (claimGroup_other hclaim hother).1
  | settleGroup cl =>
      exact .given cl hq.1 rfl (fun k hk => hk.of_settleGroup (hheld cl hq.1)) rfl
  | abandonGroup cl =>
      exact .given cl hq rfl (fun k hk => hk.of_abandonGroup (hheld cl hq)) rfl
  | _ => exact .kept rfl (fun k hk => hk) rfl

theorem standing_serve (choice : AggregatorChoice P) (st : GroupStore P) (h : standing es = held es)
    (q : AggregatorCall P) :
    standing (⟨q, (serve choice st q).1⟩ :: es) = held (⟨q, (serve choice st q).1⟩ :: es) := by
  cases q with
  | claimGroup key =>
      simp only [serve]
      cases (st.claimGroup key).1 with
      | none => exact h
      | some cl => rfl
  | settleGroup cl => rfl
  | abandonGroup cl => rfl
  | _ => exact h

theorem LeaseInv.answer (h : LeaseInv s os) (hg : s.goroutines t = some g)
    {k : q.Answer → AggregatorRoutine P (Control P)} (hask : g.code = .ask q k)
    (choice : AggregatorChoice P) :
    LeaseInv
      { store := (serve choice s.store q).2
        goroutines := Function.update s.goroutines t
          (some ⟨g.given, k (serve choice s.store q).1, ⟨q, (serve choice s.store q).1⟩ :: g.events⟩)
        settled := (settlementOf s.store g.events q).toList ++ s.settled }
      (os ++ ((claimKey s.store q).map fun key => (t, key)).toList) := by
  have hobeys := h.inv.obeys t g hg
  have hfreed := h.freed t g hg
  rw [hask] at hobeys hfreed
  have hholds : ∀ cl, held g.events = some cl → s.store.Holds cl :=
    fun cl hcl => h.inv.holds t g cl hg hcl
  have hmine : ∀ g₁ cl, s.goroutines t = some g₁ → held g₁.events = some cl →
      held g.events = some cl := by
    intro g₁ cl hg₁ hcl
    obtain rfl : g = g₁ := Option.some.inj (hg.symm.trans hg₁)
    exact hcl
  have heffect := serve_leaseEffect choice hholds (h.same t g hg) hobeys.1 hfreed.1
  refine h.update (h.inv.answer hg hask choice) (hfreed.2 _)
    (standing_serve choice s.store (h.same t g hg) q) ?_ ?_ ?_
  · intro key hkey
    cases heffect with
    | kept same leases none =>
        by_cases hown : ∃ cl, held g.events = some cl ∧ cl.key = key
        · obtain ⟨cl, hcl, hclkey⟩ := hown
          exact Or.inl ⟨cl, same.trans hcl, hclkey⟩
        · exact Or.inr ⟨leases key hkey, fun g₁ cl hg₁ hcl heq =>
            hown ⟨cl, hmine g₁ cl hg₁ hcl, heq⟩⟩
    | taken cl free mine leases apart claim =>
        rcases leases key hkey with rfl | hold
        · exact Or.inl ⟨cl, mine, rfl⟩
        · refine Or.inr ⟨hold, fun g₁ cl₁ hg₁ hcl₁ => ?_⟩
          rw [hmine g₁ cl₁ hg₁ hcl₁] at free
          cases free
    | given cl mine gone leases none =>
        refine Or.inr ⟨(leases key hkey).2, fun g₁ cl₁ hg₁ hcl₁ heq => ?_⟩
        obtain rfl : cl = cl₁ := Option.some.inj (mine.symm.trans (hmine g₁ cl₁ hg₁ hcl₁))
        exact (leases key hkey).1 heq.symm
  · intro cl hcl
    cases heffect with
    | kept same leases none =>
        rw [none, Option.map_none, Option.toList_none, List.append_nil]
        exact h.last t g cl hg (same.symm.trans hcl)
    | taken cl₁ free mine leases apart claim =>
        obtain rfl : cl₁ = cl := Option.some.inj (mine.symm.trans hcl)
        rw [claim, Option.map_some, Option.toList_some, lastClaim_concat, if_pos rfl]
    | given cl₁ mine gone leases none =>
        rw [gone] at hcl
        cases hcl
  · intro t₁ g₁ cl ht hg₁ hcl
    cases heffect with
    | kept same leases none => rw [none, Option.map_none, Option.toList_none, List.append_nil]
    | taken cl₁ free mine leases apart claim =>
        have hne := apart cl (h.inv.holds t₁ g₁ cl hg₁ hcl)
        rw [claim, Option.map_some, Option.toList_some, lastClaim_concat, if_neg hne.symm]
    | given cl₁ mine gone leases none =>
        rw [none, Option.map_none, Option.toList_none, List.append_nil]

theorem leaseInv_step {timeout : ℤ} {l : AggregatorLabel P} (h : LeaseInv s os)
    (hstep : s.step timeout l = some s') : LeaseInv s' (os ++ (claimed s l).toList) := by
  have hclear : Clear ([] : List (AggregatorEvent P)) := ⟨rfl, rfl⟩
  have hnone : os ++ (none : Option (ℕ × String)).toList = os := List.append_nil os
  cases l with
  | handle t msg => exact hnone.symm ▸ h.start (obeys_handle msg) (obeys_handle_freed hclear msg) hstep
  | reap t =>
      exact hnone.symm ▸ h.start (obeys_reap timeout) (obeys_reap_freed hclear timeout) hstep
  | proceed t choice =>
      obtain ⟨g, hg, hproceed⟩ := Option.bind_eq_some_iff.mp hstep
      unfold AggregatorState.proceed at hproceed
      obtain ⟨given, code, events⟩ := g
      cases code with
      | ret c =>
          obtain ⟨code, hcode, rfl⟩ := Option.map_eq_some_iff.mp hproceed
          simp only [claimed, hg]
          exact hnone.symm ▸ h.resume hg rfl hcode
      | ask q k =>
          obtain rfl := Option.some.inj hproceed
          simp only [claimed, hg]
          exact h.answer hg rfl choice

end Steps

theorem LeaseInv.leftLeased_iff {s : AggregatorState P} {os : List (ℕ × String)} {t : ℕ}
    {g : Goroutine P} (h : LeaseInv s os) (hg : s.goroutines t = some g) :
    LeftLeased s os t ↔ (standing g.events).isSome = true := by
  rw [h.same t g hg]
  constructor
  · rintro ⟨key, hleased, hlast⟩
    obtain ⟨t₁, g₁, cl, hg₁, hcl, rfl⟩ := h.leased key hleased
    obtain rfl : t = t₁ := Option.some.inj (hlast.symm.trans (h.last t₁ g₁ cl hg₁ hcl))
    obtain rfl : g = g₁ := Option.some.inj (hg.symm.trans hg₁)
    rw [hcl]
    rfl
  · intro hsome
    obtain ⟨cl, hcl⟩ := Option.isSome_iff_exists.mp hsome
    exact ⟨cl.key, hasLease_of_holds (h.inv.holds t g cl hg hcl), h.last t g cl hg hcl⟩

/-- When a call of `Handle` or `reapGroup` has ended, no group is leased by a claim of its goroutine
if and only if the goroutine did not panic outside `releaseOnce` while it had a claim. -/
theorem run_not_leftLeased_iff {maxGroups maxGroupMembers timeout : ℤ} {store : GroupStore P}
    (hstore : newGroupStore maxGroups maxGroupMembers = .ok store)
    {ls : List (AggregatorLabel P)} {s : AggregatorState P}
    (hrun : run (AggregatorState.step timeout) (.initial store) ls = some s)
    {t : ℕ} {g : Goroutine P} {c : Control P} (hg : s.goroutines t = some g)
    (hret : g.code = .ret c) (hended : c.EndsCall) :
    ¬LeftLeased s (observe (AggregatorState.step timeout) claimed (.initial store) ls) t ↔
      strayPanic g.events = false := by
  have h : LeaseInv s ([] ++ observe (AggregatorState.step timeout) claimed (.initial store) ls) :=
    run_observe _ claimed (fun s l s' os hinv hstep => leaseInv_step hinv hstep)
      (leaseInv_initial hstore) hrun
  have hfreed := h.freed t g hg
  rw [hret] at hfreed
  have hend : (standing g.events).isSome = strayPanic g.events := by
    cases c with
    | handled o => exact hfreed
    | swept o => exact hfreed
    | draining key site => cases hended
    | reaping groups cutoff =>
        have hclear : Clear g.events := hfreed
        rw [hclear.unclaimed, hclear.calm]
        rfl
  rw [← List.nil_append (observe _ _ _ _), h.leftLeased_iff hg, hend, Bool.not_eq_true]

theorem run_not_leftLeased_releasedThenExpired :
    ∃ store s g, newGroupStore 1 1 = .ok store ∧
      run (AggregatorState.step 5) (.initial store) releasedThenExpired = some s ∧
      s.goroutines 2 = some g ∧ g.code = .ret (.swept (.returned ())) ∧
      ¬LeftLeased s (observe (AggregatorState.step 5) claimed (.initial store) releasedThenExpired)
        2 := by
  have hstore : newGroupStore 1 1 = .ok (⟨∅, 1, 1, 0⟩ : GroupStore Unit) := rfl
  obtain ⟨s, g, hrun, hg, hret, hcalm⟩ : ∃ s g, run (AggregatorState.step 5) (.initial ⟨∅, 1, 1, 0⟩)
      releasedThenExpired = some s ∧ s.goroutines 2 = some g ∧
      g.code = .ret (.swept (.returned ())) ∧ strayPanic g.events = false :=
    ⟨_, _, rfl, rfl, rfl, rfl⟩
  exact ⟨_, s, g, hstore, hrun, hg, hret,
    (run_not_leftLeased_iff hstore hrun hg hret trivial).mpr hcalm⟩

def panickingStrategy (now : ℤ) : AggregatorChoice Unit :=
  { smooth false now with
    answer := fun q =>
      match q with
      | .release _ => .panicked "strategy"
      | q => (smooth false now).answer q }

/-- A message is held, and the strategy panics on the claim of the sweep that finds it old. -/
def heldThenPanicked : List (AggregatorLabel Unit) :=
  .handle 0 blankMessage :: List.replicate 4 (.proceed 0 (smooth false 0)) ++
    .reap 1 :: List.replicate 5 (.proceed 1 (panickingStrategy 9))

/-- The claim that `reapGroup` took outlives it: the group stays leased. -/
theorem heldThenPanicked_leftLeased :
    ∃ store s g, newGroupStore 1 1 = .ok store ∧
      run (AggregatorState.step 5) (.initial store) heldThenPanicked = some s ∧
      s.goroutines 1 = some g ∧ g.code = .ret (.swept (.panicked "strategy")) ∧
      LeftLeased s (observe (AggregatorState.step 5) claimed (.initial store) heldThenPanicked) 1 :=
  ⟨⟨∅, 1, 1, 0⟩, _, _, rfl, rfl, rfl, rfl, "k", ⟨_, rfl, rfl⟩, rfl⟩

end Msgin.Routing
