import Msgin.RoundTrip

/-!
# Splitting twice

A stamped child keeps the correlation id that it inherits, so when the children of a message are
split again, the grandchildren of all of them have the id of the message as their key. Their
groups come back one by one if they are handed to the aggregator child by child, or under a
correlation strategy that tells them apart; in another order the default strategies mix them.
-/

namespace Msgin.Routing

open Interaction Prog Memory TransitionRuns KeyedMaps

variable {P : Type}

def handled (ls : List (AggregatorLabel P)) : List (Message P) :=
  ls.filterMap fun
    | .handle _ m => some m
    | _ => none

theorem mem_handled {ls : List (AggregatorLabel P)} {m : Message P} :
    m ∈ handled ls ↔ ∃ t, .handle t m ∈ ls := by
  rw [handled, List.mem_filterMap]
  constructor
  · rintro ⟨l, hl, hm⟩
    cases l with
    | handle t m' =>
        obtain rfl := Option.some.inj hm
        exact ⟨t, hl⟩
    | reap t => cases hm
    | proceed t choice => cases hm
  · rintro ⟨t, hl⟩
    exact ⟨_, hl, rfl⟩

/-- A run in which the children of `jobs` are delivered once each and every call returns. -/
structure Round (correlate : Message P → Except Err String) (foreign : ℕ → Option ℤ) (timeout : ℤ)
    (jobs : List (SplitJob P)) (s : AggregatorState P) (ls : List (AggregatorLabel P))
    (s' : AggregatorState P) : Prop where
  run : run (AggregatorState.step timeout) s ls = some s'
  undisturbed : Along (AggregatorState.step timeout)
    (fun s l _ => Undisturbed correlate foreign jobs s l) s ls
  delivered : (handled ls).Perm (jobs.flatMap SplitJob.stamped)
  returned : AllReturned s'

section Once

variable {s₀ s s' : AggregatorState P} {t : ℕ} {m : Message P} {timeout : ℤ}
  {ls : List (AggregatorLabel P)} {l : AggregatorLabel P}

/-- No call since `s₀` was given the message. -/
def FirstDelivery (s₀ s : AggregatorState P) : AggregatorLabel P → Prop
  | .handle _ m => ∀ t g, s₀.goroutines t = none → s.goroutines t = some g → g.given ≠ some m
  | _ => True

def GivenOnce (s₀ s : AggregatorState P) : Prop :=
  ∀ t t' g g' m, s₀.goroutines t = none → s₀.goroutines t' = none → s.goroutines t = some g →
    s.goroutines t' = some g' → g.given = some m → g'.given = some m → t = t'

theorem given_before_step {g' : Goroutine P} (hstep : s.step timeout l = some s')
    (hg' : s'.goroutines t = some g') (hgiven : g'.given = some m) :
    (∃ g, s.goroutines t = some g ∧ g.given = some m) ∨ l = .handle t m := by
  obtain ⟨t₁, g₁, hs', hcases⟩ := step_goroutines hstep
  rw [hs'] at hg'
  rcases update_eq_some.mp hg' with ⟨rfl, rfl⟩ | ⟨-, hold⟩
  · rcases hcases with ⟨g, hg, heq⟩ | ⟨-, hiff⟩
    · exact Or.inl ⟨g, hg, heq.symm.trans hgiven⟩
    · exact Or.inr ((hiff m).mp hgiven)
  · exact Or.inl ⟨g', hold, hgiven⟩

theorem GivenOnce.step (h : GivenOnce s₀ s) (hfirst : FirstDelivery s₀ s l)
    (hstep : s.step timeout l = some s') : GivenOnce s₀ s' := by
  intro t t' g g' m ht ht' hg hg' hm hm'
  rcases given_before_step hstep hg hm with ⟨g₁, hg₁, hm₁⟩ | hl <;>
    rcases given_before_step hstep hg' hm' with ⟨g₂, hg₂, hm₂⟩ | hl'
  · exact h t t' g₁ g₂ m ht ht' hg₁ hg₂ hm₁ hm₂
  · subst hl'
    exact absurd hm₁ (hfirst t g₁ ht hg₁)
  · subst hl
    exact absurd hm₂ (hfirst t' g₂ ht' hg₂)
  · exact (AggregatorLabel.handle.inj (hl.symm.trans hl')).1

theorem along_firstDelivery (hdistinct : (handled ls).Nodup)
    (hfresh : ∀ t g m, s₀.goroutines t = none → s.goroutines t = some g → g.given = some m →
      m ∉ handled ls) :
    Along (AggregatorState.step timeout) (fun s l _ => FirstDelivery s₀ s l) s ls := by
  induction ls generalizing s with
  | nil => trivial
  | cons l ls ih =>
      intro s₁ hstep
      have hkept : ∀ t g m, s₀.goroutines t = none → s₁.goroutines t = some g → g.given = some m →
          m ∉ handled (l :: ls) ∨ l = .handle t m := by
        intro t g m ht hg hm
        rcases given_before_step hstep hg hm with ⟨g₀, hg₀, hm₀⟩ | hl
        · exact .inl (hfresh t g₀ m ht hg₀ hm₀)
        · exact .inr hl
      cases l with
      | handle t₁ m₁ =>
          have hcons : handled (.handle t₁ m₁ :: ls) = m₁ :: handled ls := rfl
          rw [hcons, List.nodup_cons] at hdistinct
          refine ⟨fun t g ht hg hm => hfresh t g m₁ ht hg hm List.mem_cons_self, ?_⟩
          apply ih hdistinct.2
          intro t g m ht hg hm
          rcases hkept t g m ht hg hm with hnew | hl
          · exact fun hmem => hnew (List.mem_cons_of_mem _ hmem)
          · obtain ⟨-, rfl⟩ := AggregatorLabel.handle.inj hl
            exact hdistinct.1
      | reap t₁ | proceed t₁ choice =>
          refine ⟨trivial, ih hdistinct fun t g m ht hg hm => ?_⟩
          exact (hkept t g m ht hg hm).resolve_right nofun

end Once

section Round

variable {correlate : Message P → Except Err String} {B : Batch correlate} {foreign : ℕ → Option ℤ}
  {s₀ s s' : AggregatorState P} {os : List (List (Member P))} {V : String → View P}
  {J : SplitJob P} {t : ℕ} {m : Message P} {timeout : ℤ} {ls : List (AggregatorLabel P)}

/-- A group that was settled has all children, so a child that is still to be added is delivered
for the second time. -/
theorem JobState.unsettled_of_once {key : String} {v : View P} (h : JobState J key foreign v)
    (hm : m ∈ J.stamped) (ht : v.stage t = some (m, .adding))
    (honce : ∀ t' p, v.stage t' = some (m, p) → t' = t) : v.settled = false := by
  cases h with
  | collecting ms group collected unsettled silent early added complete pending sourced =>
      exact unsettled
  | claimed g claim holder m₀ p₀ group leased named collected complete unsettled held holding
      early sourced => exact unsettled
  | settled ms group settled outputs collected complete late sourced =>
      have hmem : m ∈ ms.map Member.msg := (collected.perm complete).mem_iff.mpr hm
      obtain ⟨m', hm', rfl⟩ := List.mem_map.mp hmem
      obtain ⟨t', p, hp, hadded⟩ := sourced m' hm'
      obtain rfl := honce t' p hp
      obtain ⟨-, rfl⟩ := Prod.mk.inj (Option.some.inj (ht.symm.trans hp))
      simp [Phase.added] at hadded

theorem batchInv_step_once {l : AggregatorLabel P}
    (h : (∃ V, BatchInv B foreign s₀ s os V) ∧ GivenOnce s₀ s)
    (hstep : s.step timeout l = some s')
    (hgood : Undisturbed correlate foreign B.jobs s l ∧ FirstDelivery s₀ s l) :
    (∃ V', BatchInv B foreign s₀ s' (os ++ (emitted s l).toList) V') ∧ GivenOnce s₀ s' := by
  obtain ⟨⟨V, h⟩, honce⟩ := h
  refine ⟨h.step hgood.1 ?_ hstep, honce.step hgood.2 hstep⟩
  intro t choice J m _ hJ hm ht
  apply (h.jobs J hJ).unsettled_of_once hm ht
  intro t' p ht'
  obtain ⟨g, hg, hfollows⟩ := h.follows _ t m _ ht
  obtain ⟨g', hg', hfollows'⟩ := h.follows _ t' m p ht'
  exact honce t' t g' g m (h.fresh _ t' _ ht') (h.fresh _ t _ ht) hg' hg hfollows'.given
    hfollows.given

theorem Batch.nodup_stamped (B : Batch correlate) : (B.jobs.flatMap SplitJob.stamped).Nodup := by
  rw [List.nodup_flatMap]
  refine ⟨fun J _ => J.nodup_ids.of_map, ?_⟩
  have hdistinct := List.pairwise_map.mp B.distinct
  refine hdistinct.imp_of_mem fun {J J'} hJ hJ' hne m hm hm' => hne ?_
  exact Except.ok.inj ((B.correlates J hJ m hm).symm.trans (B.correlates J' hJ' m hm'))

theorem Round.comesBack (h : Round correlate foreign timeout B.jobs s ls s')
    (hempty : ∀ k, s.store.groups.lookup k = none)
    (hended : ∀ t g, s.goroutines t = some g → g.Ended) :
    ComesBack B.jobs (observe (AggregatorState.step timeout) emitted s ls) ∧
      ∀ k, s'.store.groups.lookup k = none := by
  have hdistinct : (handled ls).Nodup := h.delivered.nodup_iff.mpr B.nodup_stamped
  have hfirst : Along (AggregatorState.step timeout) (fun u l _ => FirstDelivery s u l) s ls := by
    apply along_firstDelivery hdistinct
    intro t g m hnone hg
    simp [hnone] at hg
  have hstart : (∃ V, BatchInv B foreign s s [] V) ∧ GivenOnce s s := by
    refine ⟨⟨_, batchInv_start B foreign hempty hended⟩, ?_⟩
    intro t t' g g' m hnone _ hg
    simp [hnone] at hg
  obtain ⟨⟨V, hend⟩, -⟩ := run_observe_of_along (AggregatorState.step timeout) emitted
    (I := fun u os => (∃ V, BatchInv B foreign s u os V) ∧ GivenOnce s u)
    (fun _ _ _ _ => batchInv_step_once) hstart (h.undisturbed.and _ hfirst) h.run
  apply hend.finished h.returned
  intro J hJ m hm
  have hmem : m ∈ handled ls := h.delivered.mem_iff.mpr (List.mem_flatMap.mpr ⟨J, hJ, hm⟩)
  obtain ⟨t, ht⟩ := mem_handled.mp hmem
  obtain ⟨hnew, g, hg, hgiven⟩ := given_of_handle h.run ht
  exact ⟨t, g, hnew, hg, hgiven⟩

end Round

/-- A message whose children are split again, into messages that keep their headers. -/
structure NestedSplit (P : Type) where
  outer : SplitJob P
  uncorrelated : ∀ child ∈ outer.children, child.headers.m headerCorrelationID = none
  payloads : Message P → List P
  nonempty : ∀ child ∈ outer.stamped, payloads child ≠ []

namespace NestedSplit

variable (N : NestedSplit P)

def inner (child : Message P) (hchild : child ∈ N.outer.stamped) : SplitJob P where
  parent := child
  children := (N.payloads child).map child.withPayload
  identified := SplitJob.id_ne_empty hchild
  nonempty := by simpa using N.nonempty child hchild

def jobs : List (SplitJob P) := N.outer.stamped.attach.map fun child => N.inner child.1 child.2

theorem correlates_outer {J : SplitJob P} (hJ : J ∈ N.jobs) {m : Message P} (hm : m ∈ J.stamped) :
    defaultCorrelate m = .ok N.outer.parent.id := by
  obtain ⟨⟨child, hchild⟩, -, rfl⟩ := List.mem_map.mp hJ
  have houter : child.headers.m headerCorrelationID = some (.string N.outer.parent.id) := by
    obtain ⟨i, original, hi, rfl⟩ := mem_stampedChildren.mp hchild
    rw [correlation_stampSequence N.outer.identified,
      N.uncorrelated original (List.mem_of_getElem? hi), Option.getD_none]
  obtain ⟨j, grandchild, hj, rfl⟩ := mem_stampedChildren.mp hm
  obtain ⟨payload, -, rfl⟩ := List.mem_map.mp (List.mem_of_getElem? hj)
  apply defaultCorrelate_of_header _ N.outer.identified
  rw [correlation_stampSequence (N.inner child hchild).identified, Message.withPayload, houter,
    Option.getD_some]

end NestedSplit

/-- One round after the other, each with the children of one message. -/
inductive ChildByChild (foreign : ℕ → Option ℤ) (timeout : ℤ) :
    List (SplitJob P) → AggregatorState P → List (AggregatorLabel P) → AggregatorState P → Prop
  | nil (s : AggregatorState P) : ChildByChild foreign timeout [] s [] s
  | cons {J : SplitJob P} {jobs : List (SplitJob P)} {s s' s'' : AggregatorState P}
      {ls ls' : List (AggregatorLabel P)}
      (round : Round defaultCorrelate foreign timeout [J] s ls s')
      (rest : ChildByChild foreign timeout jobs s' ls' s'') :
      ChildByChild foreign timeout (J :: jobs) s (ls ++ ls') s''

section ChildByChild

variable {foreign : ℕ → Option ℤ} {timeout : ℤ} {jobs : List (SplitJob P)}
  {s s' : AggregatorState P} {ls : List (AggregatorLabel P)}

theorem ended_of_allReturned (h : AllReturned s) (t : ℕ) (g : Goroutine P)
    (hg : s.goroutines t = some g) : g.Ended := by
  obtain ⟨o, ho⟩ := h t g hg
  exact ⟨_, ho, rfl⟩

theorem ChildByChild.comesBack {key : String} (h : ChildByChild foreign timeout jobs s ls s')
    (hkey : ∀ J ∈ jobs, ∀ m ∈ J.stamped, defaultCorrelate m = .ok key)
    (hempty : ∀ k, s.store.groups.lookup k = none) (hreturned : AllReturned s) :
    List.Forall₂ (fun J ms => (ms.map Member.msg).Perm J.stamped) jobs
      (observe (AggregatorState.step timeout) emitted s ls) ∧
    (∀ k, s'.store.groups.lookup k = none) ∧ AllReturned s' := by
  induction h with
  | nil s => exact ⟨.nil, hempty, hreturned⟩
  | @cons J jobs s s₁ s' ls ls' round rest ih =>
      let B : Batch (defaultCorrelate (P := P)) :=
        { jobs := [J]
          key := fun _ => key
          correlates := fun J' hJ' =>
            hkey J' (List.mem_singleton.mp hJ' ▸ List.mem_cons_self)
          distinct := List.nodup_singleton _ }
      obtain ⟨⟨out, hperm, hout⟩, hempty₁⟩ :=
        Round.comesBack (B := B) round hempty (ended_of_allReturned hreturned)
      obtain ⟨hrest, hend⟩ :=
        ih (fun J' hJ' => hkey J' (List.mem_cons_of_mem _ hJ')) hempty₁ round.returned
      have hsingle : observe (AggregatorState.step timeout) emitted s ls = [out J] :=
        List.perm_singleton.mp hperm
      rw [observe_append _ _ round.run, hsingle]
      exact ⟨.cons (hout J List.mem_cons_self) hrest, hend⟩

end ChildByChild

/-- When the children of a message are split again, the grandchildren of each of them come back
in one output if they are delivered child by child, the children in any order. -/
theorem run_childByChild (N : NestedSplit P) {maxGroups maxGroupMembers timeout : ℤ}
    {store : GroupStore P} (hstore : newGroupStore maxGroups maxGroupMembers = .ok store)
    {foreign : ℕ → Option ℤ} {jobs : List (SplitJob P)} (hjobs : jobs.Perm N.jobs)
    {ls : List (AggregatorLabel P)} {s : AggregatorState P}
    (h : ChildByChild foreign timeout jobs (.initial store) ls s) :
    List.Forall₂ (fun J ms => (ms.map Member.msg).Perm J.stamped) jobs
      (observe (AggregatorState.step timeout) emitted (.initial store) ls) ∧
    ∀ k, s.store.groups.lookup k = none := by
  have hempty : ∀ k, (AggregatorState.initial store).store.groups.lookup k = none := by
    simp [AggregatorState.initial, groups_newGroupStore hstore]
  have hreturned : AllReturned (.initial store) := by simp [AllReturned, AggregatorState.initial]
  obtain ⟨hback, hend, -⟩ :=
    h.comesBack (fun J hJ m hm => N.correlates_outer (hjobs.mem_iff.mp hJ) hm) hempty hreturned
  exact ⟨hback, hend⟩

def oneAndTwo : NestedSplit Unit where
  outer := pair
  uncorrelated := by simp [pair, blankMessage]
  payloads m := if m.id = "p#1" then [()] else [(), ()]
  nonempty m _ := by split <;> simp

/-- The `num`-th message of child `i`. -/
def grandchild (i num size : ℕ) : Message Unit :=
  stampSequence ((child "p" i 2).withPayload ()) (child "p" i 2) num size

theorem round_of_test {jobs : List (SplitJob Unit)} {calls : List (ℕ × Message Unit)}
    {order : List ℕ} {s s' : AggregatorState Unit}
    (hrun : run (AggregatorState.step 0) s (schedule calls order) = some s')
    (htest : alongTest (AggregatorState.step 0) acceptedTest s (schedule calls order) = true)
    (hdelivered : (calls.map Prod.snd).Perm (jobs.flatMap SplitJob.stamped))
    (hreturned : AllReturned s') :
    Round defaultCorrelate (fun _ => none) 0 jobs s (schedule calls order) s' where
  run := hrun
  undisturbed := by
    refine undisturbed_of_test (fun c hc => ?_) htest
    exact List.mem_flatMap.mp (hdelivered.mem_iff.mp (List.mem_map_of_mem hc))
  delivered := by
    have hhandled : handled (schedule calls order) = calls.map Prod.snd := by
      simp [handled, schedule, List.filterMap_append, List.filterMap_map]
    rw [hhandled]
    exact hdelivered
  returned := hreturned

def mixedRun : List (AggregatorLabel Unit) :=
  schedule [(0, grandchild 2 1 2), (1, grandchild 1 1 1), (2, grandchild 2 2 2)]
    (List.replicate 4 0 ++ List.replicate 10 1 ++ List.replicate 4 2)

theorem mixedRun_not_comesBack :
    ∃ store s, newGroupStore 2 2 = .ok store ∧
      Round defaultCorrelate (fun _ => none) 0 oneAndTwo.jobs (.initial store) mixedRun s ∧
      (observe (AggregatorState.step 0) emitted (.initial store) mixedRun).map
        (fun ms => ms.map fun m => m.msg.id) = [["p#2#1", "p#1#1"]] ∧
      ¬ComesBack oneAndTwo.jobs
        (observe (AggregatorState.step 0) emitted (.initial store) mixedRun) := by
  have hdelivered : [grandchild 2 1 2, grandchild 1 1 1, grandchild 2 2 2].Perm
      (oneAndTwo.jobs.flatMap SplitJob.stamped) := List.Perm.swap _ _ _
  refine ⟨⟨∅, 2, 2, 0⟩, _, rfl, round_of_test rfl rfl hdelivered ?_, rfl, ?_⟩
  · intro t g hg
    rcases t with _ | _ | _ | t <;> cases hg <;> exact ⟨_, rfl⟩
  · rintro ⟨out, hperm, -⟩
    have hlength : 1 = 2 := hperm.length_eq
    cases hlength

/-- The second child is handled first. -/
def childByChildRun : List (AggregatorLabel Unit) :=
  schedule [(1, grandchild 2 2 2), (0, grandchild 2 1 2)]
      (List.replicate 4 1 ++ List.replicate 10 0) ++
    (schedule [(2, grandchild 1 1 1)] (List.replicate 10 2) ++ [])

theorem run_childByChild_oneAndTwo :
    ∃ store s, newGroupStore 2 2 = .ok store ∧
      ChildByChild (fun _ => none) 0 oneAndTwo.jobs.reverse (.initial store) childByChildRun s ∧
      List.Forall₂ (fun J ms => (ms.map Member.msg).Perm J.stamped) oneAndTwo.jobs.reverse
        (observe (AggregatorState.step 0) emitted (.initial store) childByChildRun) := by
  have hstore : newGroupStore 2 2 = .ok (⟨∅, 2, 2, 0⟩ : GroupStore Unit) := rfl
  obtain ⟨s, hchildren⟩ : ∃ s, ChildByChild (fun _ => none) 0 oneAndTwo.jobs.reverse
      (.initial ⟨∅, 2, 2, 0⟩) childByChildRun s := by
    refine ⟨_, .cons (round_of_test rfl rfl (List.Perm.swap _ _ _) ?_)
      (.cons (round_of_test rfl rfl (List.Perm.refl _) ?_) (.nil _))⟩
    · intro t g hg
      rcases t with _ | _ | t <;> cases hg <;> exact ⟨_, rfl⟩
    · intro t g hg
      rcases t with _ | _ | _ | t <;> cases hg <;> exact ⟨_, rfl⟩
  have hjobs := List.reverse_perm oneAndTwo.jobs
  exact ⟨_, s, hstore, hchildren, (run_childByChild oneAndTwo hstore hjobs hchildren).1⟩

end Msgin.Routing
