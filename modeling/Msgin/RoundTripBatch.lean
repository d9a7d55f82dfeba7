import Msgin.RoundTripClaim

/-!
# Batches of split messages

Any number of `Handle` calls for the children of a batch of split messages. Each call is in a
phase of its own group, and a step of a call changes that group only.
-/

namespace Msgin.Routing

open Interaction Prog Memory TransitionRuns KeyedMaps

variable {P : Type}

def resume (key : String) (out : Message P) :
    AggregatorRoutine P (Control P) → AggregatorRoutine P (Control P)
  | .ask (.assert _) k => k none
  | .ask (.correlate _) k => k (.returned (.ok key))
  | .ask (.release _) k => k (.returned (true, none))
  | .ask (.aggregate _) k => k (.returned (.ok out))
  | .ask (.send _) k => k (.returned none)
  | code => code

/-- What is left of a `Handle` call in this phase. -/
def Phase.code (key : String) (msg : Message P) : Phase P → AggregatorRoutine P (Control P)
  | asserting => handle msg
  | correlating => resume key msg (handle msg)
  | adding => resume key msg (resume key msg (handle msg))
  | deciding group => handleStored key group
  | claiming group => resume key msg (handleStored key group)
  | aggregating claim => release .member claim
  | sending claim out => resume key out (release .member claim)
  | settling claim => resume key msg (resume key msg (release .member claim))
  | drained => .ret (.draining key .member)
  | draining => drain key .member
  | done => .ret (.handled (.returned none))

structure Follows (p : Phase P) (key : String) (msg : Message P) (g : Goroutine P) : Prop where
  given : g.given = some msg
  code : g.code = p.code key msg
  aggregated : ∀ claim out, p = .sending claim out →
    ∃ r events, g.events = ⟨.aggregate claim.msgs, r⟩ :: events

def Goroutine.Ended (g : Goroutine P) : Prop := ∃ c, g.code = .ret c ∧ c.code = none

section Batch

variable {correlate : Message P → Except Err String}

/-- The groups of the batch, seen one by one. The run started at `s₀`, where every call had
returned, and `os` are the outputs since then. -/
structure BatchInv (B : Batch correlate) (foreign : ℕ → Option ℤ) (s₀ s : AggregatorState P)
    (os : List (List (Member P))) (V : String → View P) : Prop where
  groups : ∀ k, (V k).group = s.store.groups.lookup k
  settled : ∃ since, s.settled = since ++ s₀.settled ∧
    ∀ k, (V k).settled = true ↔ ∃ e ∈ since, e.claim.key = k
  outputs : os.Perm (B.jobs.flatMap fun J => (V (B.key J)).outputs)
  children : ∀ k t m p, (V k).stage t = some (m, p) → ∃ J ∈ B.jobs, B.key J = k ∧ m ∈ J.stamped
  follows : ∀ k t m p, (V k).stage t = some (m, p) →
    ∃ g, s.goroutines t = some g ∧ Follows p k m g
  alone : ∀ k k' t x x', (V k).stage t = some x → (V k').stage t = some x' → k = k'
  ended : ∀ t g, s.goroutines t = some g →
    s₀.goroutines t ≠ none ∧ g.Ended ∨ ∃ k x, (V k).stage t = some x
  since : ∀ t, s.goroutines t = none → s₀.goroutines t = none
  fresh : ∀ k t x, (V k).stage t = some x → s₀.goroutines t = none
  jobs : ∀ J ∈ B.jobs, JobState J (B.key J) foreign (V (B.key J))
  strangers : ∀ k, (∀ J ∈ B.jobs, B.key J ≠ k) → (V k).group = none

variable {B : Batch correlate} {foreign : ℕ → Option ℤ} {s₀ s s' : AggregatorState P}
  {os : List (List (Member P))} {V : String → View P}
  {J : SplitJob P} {t : ℕ} {m : Message P} {p p' : Phase P} {g g' : Goroutine P}

theorem batchInv_start (B : Batch correlate) (foreign : ℕ → Option ℤ)
    (hgroups : ∀ k, s.store.groups.lookup k = none)
    (hended : ∀ t g, s.goroutines t = some g → g.Ended) :
    BatchInv B foreign s s [] fun _ => ⟨none, false, [], fun _ => none⟩ where
  groups k := (hgroups k).symm
  settled := ⟨[], rfl, by simp⟩
  outputs := by simp
  children := by simp
  follows := by simp
  alone := by simp
  ended t g hg := Or.inl ⟨by simp [hg], hended t g hg⟩
  since _ hnone := hnone
  fresh := by simp
  jobs J _ := by
    refine .collecting [] (Or.inl ⟨rfl, rfl⟩) ⟨by simp, by simp⟩ rfl rfl (by simp) (by simp)
      (by simp) ?_ (by simp [Sourced])
    intro hsize
    exact absurd hsize (Nat.not_le.mpr J.size_pos)
  strangers _ _ := rfl

theorem stage_update {key k : String} (hothers : ∀ k, k ≠ key → (V k).stage t = none) {v : View P}
    (hstage : v.stage = (V key).stage) {t₁ : ℕ} {x : Message P × Phase P}
    (hx : (Function.update V key (v.set t m p') k).stage t₁ = some x) :
    k = key ∧ t₁ = t ∧ x = (m, p') ∨ t₁ ≠ t ∧ (V k).stage t₁ = some x := by
  by_cases hk : k = key
  · subst hk
    rw [Function.update_self] at hx
    rcases View.stage_set.mp hx with ⟨ht, heq⟩ | ⟨hne, hsame⟩
    · exact Or.inl ⟨rfl, ht, heq⟩
    · exact Or.inr ⟨hne, hstage ▸ hsame⟩
  · rw [Function.update_of_ne hk] at hx
    refine Or.inr ⟨?_, hx⟩
    rintro rfl
    simp [hothers k hk] at hx

theorem BatchInv.advance (h : BatchInv B foreign s₀ s os V) (hJ : J ∈ B.jobs)
    (hm : m ∈ J.stamped) (hfresh : s₀.goroutines t = none)
    (hothers : ∀ k, k ≠ B.key J → (V k).stage t = none)
    {v : View P} (hjob : JobState J (B.key J) foreign (v.set t m p'))
    (hstage : v.stage = (V (B.key J)).stage)
    (hgroup : (fun k => s'.store.groups.lookup k) =
      Function.update (fun k => s.store.groups.lookup k) (B.key J) v.group)
    (hgoroutines : s'.goroutines = Function.update s.goroutines t (some g'))
    (hfollows : Follows p' (B.key J) m g')
    {es : List (Settlement P)} (hsettled : s'.settled = es ++ s.settled)
    (hes : ∀ e ∈ es, e.claim.key = B.key J)
    (hflag : v.settled = true ↔ (V (B.key J)).settled = true ∨ es ≠ [])
    {new : List (List (Member P))} (hnew : v.outputs = (V (B.key J)).outputs ++ new) :
    BatchInv B foreign s₀ s' (os ++ new) (Function.update V (B.key J) (v.set t m p')) where
  groups k := by
    rw [congrFun hgroup k]
    by_cases hk : k = B.key J
    · subst hk
      rw [Function.update_self, Function.update_self]
      rfl
    · rw [Function.update_of_ne hk, Function.update_of_ne hk]
      exact h.groups k
  settled := by
    obtain ⟨since, hsince, hflags⟩ := h.settled
    refine ⟨es ++ since, by rw [hsettled, hsince, List.append_assoc], fun k => ?_⟩
    by_cases hk : k = B.key J
    · subst hk
      rw [Function.update_self]
      refine hflag.trans ?_
      rw [hflags]
      constructor
      · rintro (⟨e, he, hkey⟩ | hne)
        · exact ⟨e, List.mem_append_right _ he, hkey⟩
        · obtain ⟨e, he⟩ := List.exists_mem_of_ne_nil es hne
          exact ⟨e, List.mem_append_left _ he, hes e he⟩
      · rintro ⟨e, he, hkey⟩
        rcases List.mem_append.mp he with he | he
        · exact Or.inr (List.ne_nil_of_mem he)
        · exact Or.inl ⟨e, he, hkey⟩
    · rw [Function.update_of_ne hk, hflags]
      constructor
      · rintro ⟨e, he, hkey⟩
        exact ⟨e, List.mem_append_right _ he, hkey⟩
      · rintro ⟨e, he, hkey⟩
        rcases List.mem_append.mp he with he | he
        · exact absurd (hkey.symm.trans (hes e he)) hk
        · exact ⟨e, he, hkey⟩
  outputs := by
    refine (h.outputs.append_right new).trans (flatMap_perm_append B.distinct hJ
      (f := fun k => (V k).outputs)
      (g := fun k => (Function.update V (B.key J) (v.set t m p') k).outputs) ?_ ?_).symm
    · rw [Function.update_self]
      exact hnew
    · intro k hk
      rw [Function.update_of_ne hk]
  children k t₁ m₁ p₁ hp₁ := by
    rcases stage_update hothers hstage hp₁ with ⟨rfl, -, heq⟩ | ⟨-, hold⟩
    · obtain ⟨rfl, -⟩ := Prod.mk.inj heq
      exact ⟨J, hJ, rfl, hm⟩
    · exact h.children k t₁ m₁ p₁ hold
  follows k t₁ m₁ p₁ hp₁ := by
    rw [hgoroutines]
    rcases stage_update hothers hstage hp₁ with ⟨rfl, rfl, heq⟩ | ⟨hne, hold⟩
    · obtain ⟨rfl, rfl⟩ := Prod.mk.inj heq
      exact ⟨g', Function.update_self .., hfollows⟩
    · rw [Function.update_of_ne hne]
      exact h.follows k t₁ m₁ p₁ hold
  alone k k' t₁ x x' hx hx' := by
    rcases stage_update hothers hstage hx with ⟨hk, ht, -⟩ | ⟨hne, hold⟩ <;>
      rcases stage_update hothers hstage hx' with ⟨hk', ht', -⟩ | ⟨hne', hold'⟩
    · exact hk.trans hk'.symm
    · exact absurd ht hne'
    · exact absurd ht' hne
    · exact h.alone k k' t₁ x x' hold hold'
  ended t₁ g₁ hg₁ := by
    rw [hgoroutines] at hg₁
    rcases update_eq_some.mp hg₁ with ⟨rfl, -⟩ | ⟨hne, hold⟩
    · refine Or.inr ⟨B.key J, (m, p'), ?_⟩
      rw [Function.update_self]
      exact View.stage_set.mpr (Or.inl ⟨rfl, rfl⟩)
    · refine (h.ended t₁ g₁ hold).imp_right ?_
      rintro ⟨k, x, hx⟩
      refine ⟨k, x, ?_⟩
      by_cases hk : k = B.key J
      · subst hk
        rw [Function.update_self]
        exact View.stage_set.mpr (Or.inr ⟨hne, by rw [hstage]; exact hx⟩)
      · rw [Function.update_of_ne hk]
        exact hx
  since t₁ hnone := by
    rw [hgoroutines] at hnone
    by_cases ht : t₁ = t
    · rw [ht]
      exact hfresh
    · rw [Function.update_of_ne ht] at hnone
      exact h.since t₁ hnone
  fresh k t₁ x hx := by
    rcases stage_update hothers hstage hx with ⟨-, rfl, -⟩ | ⟨-, hold⟩
    · exact hfresh
    · exact h.fresh k t₁ x hold
  jobs J' hJ' := by
    by_cases hk : B.key J' = B.key J
    · obtain rfl := B.eq_of_key hJ' hJ hk
      rw [Function.update_self]
      exact hjob
    · rw [Function.update_of_ne hk]
      exact h.jobs J' hJ'
  strangers k hk := by
    rw [Function.update_of_ne (hk J hJ).symm]
    exact h.strangers k hk

end Batch

end Msgin.Routing
