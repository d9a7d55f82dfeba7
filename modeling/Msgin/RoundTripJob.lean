import Msgin.AggregatorDefaults
import Msgin.GroupStoreClaims

/-!
# The group of one split message

What the goroutines that handle the children of one split message do to its group, seen from
that group alone: it collects the children, is claimed once all of them are there, and is
settled by the goroutine that claimed it. This module has the part up to the claim.
-/

namespace Msgin.Routing

open Memory

variable {P : Type}

/-- Where a `Handle` call is when nothing fails. -/
inductive Phase (P : Type)
  | asserting
  | correlating
  | adding
  | deciding (group : Snapshot P)
  | claiming (group : Snapshot P)
  | aggregating (claim : ClaimGroup P)
  | sending (claim : ClaimGroup P) (out : Message P)
  | settling (claim : ClaimGroup P)
  -- At the head of the loop in `release`, and in it.
  | drained
  | draining
  | done

namespace Phase

def added : Phase P → Bool
  | asserting | correlating | adding => false
  | _ => true

def early : Phase P → Bool
  | aggregating _ | sending _ _ | settling _ | drained | draining => false
  | _ => true

def releasing (foreign : ℕ → Option ℤ) : Phase P → Bool
  | deciding group => defaultRelease foreign group
  | claiming _ => true
  | _ => false

/-- The call holds the claim; `outputs` are the outputs of the group. -/
inductive Holding (claim : ClaimGroup P) : Phase P → List (List (Member P)) → Prop
  | aggregating : Holding claim (aggregating claim) []
  | sending (out : Message P) : Holding claim (sending claim out) []
  | settling : Holding claim (settling claim) [claim.msgs]

theorem Holding.not_early {claim : ClaimGroup P} {p : Phase P} {outputs : List (List (Member P))}
    (h : Holding claim p outputs) : p.early = false ∧ p.added = true := by
  cases h <;> exact ⟨rfl, rfl⟩

end Phase

structure View (P : Type) where
  group : Option (GroupState P)
  settled : Bool
  outputs : List (List (Member P))
  stage : ℕ → Option (Message P × Phase P)

def View.set (v : View P) (t : ℕ) (m : Message P) (p : Phase P) : View P :=
  { v with stage := Function.update v.stage t (some (m, p)) }

def IdsOf (g : GroupState P) : Prop :=
  ∀ id, id ∈ g.ids ↔ id ≠ "" ∧ ∃ m ∈ g.msgs, m.msg.id = id

structure Unleased (g : GroupState P) : Prop where
  leased : g.leased = false
  claimedLen : g.claimedLen = 0
  ids : IdsOf g

def Open (og : Option (GroupState P)) (ms : List (Member P)) : Prop :=
  og = none ∧ ms = [] ∨ ∃ g, og = some g ∧ Unleased g ∧ g.msgs = ms

structure Leased (g : GroupState P) (claim : ClaimGroup P) : Prop where
  leased : g.leased = true
  claimedLen : g.claimedLen = g.msgs.length
  epoch : g.epoch = claim.epoch
  members : g.msgs = claim.msgs
  ids : IdsOf g

def Sourced (v : View P) (ms : List (Member P)) : Prop :=
  ∀ m ∈ ms, ∃ t p, v.stage t = some (m.msg, p) ∧ p.added = true

inductive JobState (J : SplitJob P) (key : String) (foreign : ℕ → Option ℤ) (v : View P) : Prop
  | collecting (ms : List (Member P)) (group : Open v.group ms) (collected : Collected J ms)
      (unsettled : v.settled = false) (silent : v.outputs = [])
      (early : ∀ t m p, v.stage t = some (m, p) → p.early = true)
      (added : ∀ t m p, v.stage t = some (m, p) → p.added = true → m ∈ ms.map Member.msg)
      (complete : ∀ t m p, v.stage t = some (m, p) → p.releasing foreign = true →
        J.size ≤ ms.length)
      (pending : J.size ≤ ms.length → ∃ t m p, v.stage t = some (m, p) ∧ p.releasing foreign = true)
      (sourced : Sourced v ms)
  | claimed (g : GroupState P) (claim : ClaimGroup P) (holder : ℕ) (m₀ : Message P) (p₀ : Phase P)
      (group : v.group = some g) (leased : Leased g claim) (named : claim.key = key)
      (collected : Collected J claim.msgs) (complete : J.size ≤ claim.msgs.length)
      (unsettled : v.settled = false)
      (held : v.stage holder = some (m₀, p₀)) (holding : p₀.Holding claim v.outputs)
      (early : ∀ t m p, t ≠ holder → v.stage t = some (m, p) → p.early = true)
      (sourced : Sourced v claim.msgs)
  | settled (ms : List (Member P)) (group : v.group = none) (settled : v.settled = true)
      (outputs : v.outputs = [ms]) (collected : Collected J ms) (complete : J.size ≤ ms.length)
      (late : ∀ t m p, v.stage t = some (m, p) →
        p.early = true ∨ p = .drained ∨ p = .draining)
      (sourced : Sourced v ms)

section Steps

variable {J : SplitJob P} {key : String} {foreign : ℕ → Option ℤ} {v : View P} {t : ℕ}
  {m : Message P} {p p' : Phase P}

theorem View.stage_set {t' : ℕ} {x : Message P × Phase P} :
    (v.set t m p).stage t' = some x ↔ t' = t ∧ x = (m, p) ∨ t' ≠ t ∧ v.stage t' = some x :=
  KeyedMaps.update_eq_some

theorem View.forall_set {R : ℕ → Message P → Phase P → Prop} (hnew : R t m p')
    (hold : ∀ t' m' p, t' ≠ t → v.stage t' = some (m', p) → R t' m' p) :
    ∀ t' m' p, (v.set t m p').stage t' = some (m', p) → R t' m' p := by
  intro t' m' p hp
  rcases View.stage_set.mp hp with ⟨rfl, heq⟩ | ⟨ht, hsame⟩
  · obtain ⟨rfl, rfl⟩ := Prod.mk.inj heq
    exact hnew
  · exact hold t' m' p ht hsame

variable {ms : List (Member P)}

theorem Sourced.set (h : Sourced v ms)
    (ht : v.stage t = none ∨ ∃ p, v.stage t = some (m, p) ∧ (p.added = true → p'.added = true)) :
    Sourced (v.set t m p') ms := by
  intro m' hm'
  obtain ⟨t', q, hq, hadded⟩ := h m' hm'
  by_cases heq : t' = t
  · subst heq
    rcases ht with hnone | ⟨p, hp, hmono⟩
    · simp [hnone] at hq
    · obtain ⟨hmsg, rfl⟩ := Prod.mk.inj (Option.some.inj (hp.symm.trans hq))
      exact ⟨t', p', View.stage_set.mpr (Or.inl ⟨rfl, by rw [hmsg]⟩), hmono hadded⟩
  · exact ⟨t', q, View.stage_set.mpr (Or.inr ⟨heq, hq⟩), hadded⟩

namespace JobState

theorem start (h : JobState J key foreign v) (ht : v.stage t = none) :
    JobState J key foreign (v.set t m .asserting) := by
  cases h with
  | collecting ms group collected unsettled silent early added complete pending sourced =>
      refine .collecting ms group collected unsettled silent ?_ ?_ ?_ ?_ ?_
      · exact View.forall_set rfl fun t' m' p _ hp => early t' m' p hp
      · exact View.forall_set (by simp [Phase.added]) fun t' m' p _ hp => added t' m' p hp
      · exact View.forall_set (by simp [Phase.releasing]) fun t' m' p _ hp => complete t' m' p hp
      · intro hsize
        obtain ⟨t', m', p, hp, hrel⟩ := pending hsize
        have hne : t' ≠ t := by
          rintro rfl
          simp [ht] at hp
        exact ⟨t', m', p, View.stage_set.mpr (Or.inr ⟨hne, hp⟩), hrel⟩
      · exact sourced.set (Or.inl ht)
  | claimed g claim holder m₀ p₀ group leased named collected complete unsettled held holding
      early sourced =>
      have hne : holder ≠ t := by
        rintro rfl
        simp [ht] at held
      refine .claimed g claim holder m₀ p₀ group leased named collected complete unsettled
        (View.stage_set.mpr (Or.inr ⟨hne, held⟩)) holding ?_ ?_
      · intro t' m' p ht' hp
        exact View.forall_set (fun _ => rfl) (fun t' m' p _ hp ht' => early t' m' p ht' hp)
          t' m' p hp ht'
      · exact sourced.set (Or.inl ht)
  | settled ms group settled outputs collected complete late sourced =>
      refine .settled ms group settled outputs collected complete ?_ ?_
      · exact View.forall_set (Or.inl rfl) fun t' m' p _ hp => late t' m' p hp
      · exact sourced.set (Or.inl ht)

theorem quiet (h : JobState J key foreign v) (ht : v.stage t = some (m, p))
    (hp : p.early = true) (hp' : p'.early = true) (hadded : p'.added = p.added)
    (hrel : p'.releasing foreign = p.releasing foreign) :
    JobState J key foreign (v.set t m p') := by
  have hsourced : ∀ ms, Sourced v ms → Sourced (v.set t m p') ms := fun ms h =>
    h.set (Or.inr ⟨p, ht, fun hold => hadded.trans hold⟩)
  cases h with
  | collecting ms group collected unsettled silent early added complete pending sourced =>
      refine .collecting ms group collected unsettled silent ?_ ?_ ?_ ?_ ?_
      · exact View.forall_set hp' fun t' m' p _ hp => early t' m' p hp
      · exact View.forall_set (fun hnew => added t m p ht (hadded.symm.trans hnew))
          fun t' m' p _ hp => added t' m' p hp
      · exact View.forall_set (fun hnew => complete t m p ht (hrel.symm.trans hnew))
          fun t' m' p _ hp => complete t' m' p hp
      · intro hsize
        obtain ⟨t', m', p₁, hp₁, hrel₁⟩ := pending hsize
        by_cases heq : t' = t
        · subst heq
          obtain ⟨rfl, rfl⟩ := Prod.mk.inj (Option.some.inj (ht.symm.trans hp₁))
          exact ⟨t', m, p', View.stage_set.mpr (Or.inl ⟨rfl, rfl⟩), hrel.trans hrel₁⟩
        · exact ⟨t', m', p₁, View.stage_set.mpr (Or.inr ⟨heq, hp₁⟩), hrel₁⟩
      · exact hsourced ms sourced
  | claimed g claim holder m₀ p₀ group leased named collected complete unsettled held holding
      early sourced =>
      have hne : holder ≠ t := by
        rintro rfl
        obtain ⟨rfl, rfl⟩ := Prod.mk.inj (Option.some.inj (ht.symm.trans held))
        simp [holding.not_early.1] at hp
      refine .claimed g claim holder m₀ p₀ group leased named collected complete unsettled
        (View.stage_set.mpr (Or.inr ⟨hne, held⟩)) holding ?_ ?_
      · intro t' m' p ht' hp
        exact View.forall_set (fun _ => hp') (fun t' m' p _ hp ht' => early t' m' p ht' hp)
          t' m' p hp ht'
      · exact hsourced _ sourced
  | settled ms group settled outputs collected complete late sourced =>
      refine .settled ms group settled outputs collected complete ?_ ?_
      · exact View.forall_set (Or.inl hp') fun t' m' p _ hp => late t' m' p hp
      · exact hsourced ms sourced

variable {g : GroupState P}

theorem mem_of_id (hc : Collected J ms) (hids : IdsOf g) (hg : g.msgs = ms) (hm : m ∈ J.stamped)
    (hid : m.id ∈ g.ids) : m ∈ ms.map Member.msg := by
  obtain ⟨-, m', hm', heq⟩ := (hids m.id).mp hid
  rw [hg] at hm'
  exact List.mem_map.mpr ⟨m', hm', SplitJob.eq_of_id (hc.stamped m' hm') hm heq⟩

theorem id_of_mem (hids : IdsOf g) (hg : g.msgs = ms) (hm : m ∈ J.stamped)
    (hmem : m ∈ ms.map Member.msg) : m.id ∈ g.ids := by
  obtain ⟨m', hm', rfl⟩ := List.mem_map.mp hmem
  exact (hids _).mpr ⟨SplitJob.id_ne_empty hm, m', hg ▸ hm', rfl⟩

theorem live_of_unleased (hg : Unleased g) : g.live key = ⟨key, g.msgs, g.createdAt⟩ := by
  simp [GroupState.live, hg.claimedLen]

theorem addKnown (h : JobState J key foreign v) (ht : v.stage t = some (m, .adding))
    (hm : m ∈ J.stamped) (hg : v.group = some g) (hid : m.id ∈ g.ids) :
    JobState J key foreign (v.set t m (.deciding (g.live key))) := by
  have hsourced : ∀ ms, Sourced v ms → Sourced (v.set t m (.deciding (g.live key))) ms :=
    fun ms h => h.set (Or.inr ⟨_, ht, fun _ => rfl⟩)
  cases h with
  | collecting ms group collected unsettled silent early added complete pending sourced =>
      rcases group with ⟨hnone, -⟩ | ⟨g', hg', hopen, hms⟩
      · simp [hnone] at hg
      obtain rfl : g = g' := Option.some.inj (hg.symm.trans hg')
      have hmem := mem_of_id collected hopen.ids hms hm hid
      refine .collecting ms (Or.inr ⟨g, hg, hopen, hms⟩) collected unsettled silent ?_ ?_ ?_ ?_ ?_
      · exact View.forall_set rfl fun t' m' p _ hp => early t' m' p hp
      · exact View.forall_set (fun _ => hmem) fun t' m' p _ hp => added t' m' p hp
      · apply View.forall_set _ fun t' m' p _ hp => complete t' m' p hp
        intro hrel
        rw [Phase.releasing, live_of_unleased hopen, hms] at hrel
        exact (collected.release_iff foreign key _).mp hrel
      · intro hsize
        obtain ⟨t', m', p, hp, hrel⟩ := pending hsize
        have hne : t' ≠ t := by
          rintro rfl
          obtain ⟨-, rfl⟩ := Prod.mk.inj (Option.some.inj (ht.symm.trans hp))
          simp [Phase.releasing] at hrel
        exact ⟨t', m', p, View.stage_set.mpr (Or.inr ⟨hne, hp⟩), hrel⟩
      · exact hsourced ms sourced
  | claimed g' claim holder m₀ p₀ group leased named collected complete unsettled held holding
      early sourced =>
      have hne : holder ≠ t := by
        rintro rfl
        obtain ⟨-, rfl⟩ := Prod.mk.inj (Option.some.inj (ht.symm.trans held))
        cases holding
      refine .claimed g' claim holder m₀ p₀ group leased named collected complete unsettled
        (View.stage_set.mpr (Or.inr ⟨hne, held⟩)) holding ?_ ?_
      · intro t' m' p ht' hp
        exact View.forall_set (fun _ => rfl) (fun t' m' p _ hp ht' => early t' m' p ht' hp)
          t' m' p hp ht'
      · exact hsourced _ sourced
  | settled ms group settled outputs collected complete late sourced => simp [group] at hg

theorem addNew (h : JobState J key foreign v) (ht : v.stage t = some (m, .adding))
    (hm : m ∈ J.stamped) (hunsettled : v.settled = false) {now : ℤ}
    (hg : v.group = some g ∨ v.group = none ∧ g = .new now) (hid : m.id ∉ g.ids) (n : ℕ) :
    JobState J key foreign
      ({ v with group := some (g.append ⟨n, m⟩) }.set t m
        (.deciding ((g.append ⟨n, m⟩).live key))) := by
  cases h with
  | collecting ms group collected unsettled silent early added complete pending sourced =>
      obtain ⟨hopen, hms⟩ : Unleased g ∧ g.msgs = ms := by
        rcases group with ⟨hnone, rfl⟩ | ⟨g', hg', hopen, hms⟩
        · rcases hg with hg | ⟨-, rfl⟩
          · simp [hnone] at hg
          · exact ⟨⟨rfl, rfl, by simp [IdsOf, GroupState.new]⟩, rfl⟩
        · rcases hg with hg | ⟨hnone, -⟩
          · obtain rfl : g = g' := Option.some.inj (hg.symm.trans hg')
            exact ⟨hopen, hms⟩
          · simp [hnone] at hg'
      have hnew : m ∉ ms.map Member.msg := fun hmem => hid (id_of_mem hopen.ids hms hm hmem)
      have hcollected : Collected J (ms ++ [⟨n, m⟩]) := collected.append hm hnew
      have hopen' : Unleased (g.append ⟨n, m⟩) := by
        refine ⟨hopen.leased, hopen.claimedLen, fun id => ?_⟩
        have hne := SplitJob.id_ne_empty hm
        simp only [GroupState.append, if_pos hne, Finset.mem_insert, hopen.ids id,
          List.mem_append, List.mem_singleton]
        constructor
        · rintro (rfl | ⟨hid, m', hm', rfl⟩)
          · exact ⟨hne, ⟨n, m⟩, Or.inr rfl, rfl⟩
          · exact ⟨hid, m', Or.inl hm', rfl⟩
        · rintro ⟨hid, m', hm' | rfl, rfl⟩
          · exact Or.inr ⟨hid, m', hm', rfl⟩
          · exact Or.inl rfl
      have hmsgs : (g.append ⟨n, m⟩).msgs = ms ++ [⟨n, m⟩] := by rw [← hms]; rfl
      have hreleasing : (Phase.deciding ((g.append ⟨n, m⟩).live key)).releasing foreign = true ↔
          J.size ≤ (ms ++ [(⟨n, m⟩ : Member P)]).length := by
        rw [Phase.releasing, live_of_unleased hopen', hmsgs]
        exact hcollected.release_iff foreign key _
      refine .collecting _ (Or.inr ⟨_, rfl, hopen', hmsgs⟩) hcollected unsettled silent ?_ ?_ ?_ ?_ ?_
      · exact View.forall_set rfl fun t' m' p _ hp => early t' m' p hp
      · rw [List.map_append]
        exact View.forall_set (fun _ => List.mem_append_right _ List.mem_cons_self)
          fun t' m' p _ hp hadded => List.mem_append_left _ (added t' m' p hp hadded)
      · refine View.forall_set hreleasing.mp fun t' m' p _ hp hrel => ?_
        rw [List.length_append]
        exact (complete t' m' p hp hrel).trans (Nat.le_add_right _ _)
      · intro hsize
        exact ⟨t, m, _, View.stage_set.mpr (Or.inl ⟨rfl, rfl⟩), hreleasing.mpr hsize⟩
      · intro m' hm'
        rcases List.mem_append.mp hm' with hold | hlast
        · have hsourced : Sourced (v.set t m (.deciding ((g.append ⟨n, m⟩).live key))) ms :=
            sourced.set (Or.inr ⟨_, ht, fun _ => rfl⟩)
          exact hsourced m' hold
        · obtain rfl := List.mem_singleton.mp hlast
          exact ⟨t, _, View.stage_set.mpr (Or.inl ⟨rfl, rfl⟩), rfl⟩
  | claimed g' claim holder m₀ p₀ group leased named collected complete unsettled held holding
      early sourced =>
      obtain rfl : g = g' := by
        rcases hg with hg | ⟨hnone, -⟩
        · exact Option.some.inj (hg.symm.trans group)
        · simp [hnone] at group
      have hmem : m ∈ claim.msgs.map Member.msg := (collected.perm complete).mem_iff.mpr hm
      exact absurd (id_of_mem leased.ids leased.members hm hmem) hid
  | settled ms group settled outputs collected complete late sourced =>
      simp [settled] at hunsettled

end JobState

end Steps

end Msgin.Routing
