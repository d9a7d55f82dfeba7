import Mathlib.Data.Option.Basic
import Mathlib.Data.List.Basic
import Mathlib.Logic.Relation

/-!
# Finite runs of labelled partial transitions

A system is a partial function `step : σ → ε → Option σ`. A label carries every
choice the environment makes at that step, so a run is determined by its start and
its list of labels. Invariants are proved one step at a time and lifted to runs here,
and `Along` states a property of every step that a run takes.
-/

namespace TransitionRuns

variable {σ ε : Type*} (step : σ → ε → Option σ)

/-- Fire the labels in order; `none` as soon as one of them is not enabled. -/
def run : σ → List ε → Option σ
  | s, [] => some s
  | s, e :: es => (step s e).bind fun t => run t es

@[simp] theorem run_nil (s : σ) : run step s [] = some s := rfl

theorem run_cons (s : σ) (e : ε) (es : List ε) :
    run step s (e :: es) = (step s e).bind fun t => run step t es := rfl

variable {es : List ε} {s t : σ} {I : σ → Prop} {e : ε}

theorem run_cons_eq_some {u : σ} :
    run step s (e :: es) = some u ↔ ∃ t, step s e = some t ∧ run step t es = some u := by
  rw [run_cons, Option.bind_eq_some_iff]

theorem run_append (s : σ) (es fs : List ε) :
    run step s (es ++ fs) = (run step s es).bind fun t => run step t fs := by
  induction es generalizing s with
  | nil => rfl
  | cons e es ih =>
      rw [List.cons_append, run_cons, run_cons, Option.bind_assoc]
      congr 1
      funext t
      exact ih t

/-- The last step of a run. -/
theorem run_concat_eq_some {u : σ} :
    run step s (es ++ [e]) = some u ↔ ∃ t, run step s es = some t ∧ step t e = some u := by
  rw [run_append, Option.bind_eq_some_iff]
  simp only [run_cons_eq_some, run_nil, Option.some.injEq, exists_eq_right]

/-- A property that every step preserves holds at the end of every run. -/
theorem run_invariant (hstep : ∀ s e t, I s → step s e = some t → I t) (hs : I s)
    (hr : run step s es = some t) : I t := by
  induction es generalizing s with
  | nil => rw [run_nil, Option.some.injEq] at hr; exact hr ▸ hs
  | cons e es ih =>
      obtain ⟨u, he, hu⟩ := (run_cons_eq_some step).mp hr
      exact ih (hstep s e u hs he) hu

/-- The same for a system that is given by a step relation. -/
theorem reaches_invariant {Step : σ → σ → Prop} (hstep : ∀ s t, I s → Step s t → I t) (hs : I s)
    (hr : Relation.ReflTransGen Step s t) : I t := by
  induction hr with
  | refl => exact hs
  | tail _ hlast ih => exact hstep _ _ ih hlast

/-- A rank that every step of one kind lowers and no other raises, steps of a second kind apart,
bounds the steps of the first kind in a run by those of the second. -/
theorem run_ranked {I : σ → ℕ → Prop} {spends gains : ε → Bool} {c : ℕ}
    (hstep : ∀ s e t n, I s n → step s e = some t →
      ∃ m, I t m ∧ m + (spends e).toNat ≤ n + c * (gains e).toNat) {n : ℕ} (hs : I s n)
    (hr : run step s es = some t) :
    ∃ m, I t m ∧ m + es.countP spends ≤ n + c * es.countP gains := by
  induction es generalizing s n with
  | nil =>
      rw [run_nil, Option.some.injEq] at hr
      exact ⟨n, hr ▸ hs, Nat.le_refl _⟩
  | cons e es ih =>
      obtain ⟨u, he, hu⟩ := (run_cons_eq_some step).mp hr
      obtain ⟨m, hm, hle⟩ := hstep s e u n hs he
      obtain ⟨m', hm', hle'⟩ := ih hm hu
      refine ⟨m', hm', ?_⟩
      rw [List.countP_cons, List.countP_cons, Nat.mul_add]
      cases hspends : spends e <;> cases hgains : gains e <;> simp [hspends, hgains] at hle ⊢ <;>
        omega

/-- Every step of the run that starts at `s` satisfies `P`. -/
def Along (P : σ → ε → σ → Prop) : σ → List ε → Prop
  | _, [] => True
  | s, e :: es => ∀ t, step s e = some t → P s e t ∧ Along P t es

variable {P Q : σ → ε → σ → Prop}

theorem along_cons_of_step (he : step s e = some t) :
    Along step P s (e :: es) ↔ P s e t ∧ Along step P t es := by
  constructor
  · intro h
    exact h t he
  · intro h u hu
    obtain rfl : t = u := Option.some.inj (he.symm.trans hu)
    exact h

instance decidableAlong [∀ s e t, Decidable (P s e t)] :
    ∀ (s : σ) (es : List ε), Decidable (Along step P s es)
  | _, [] => .isTrue trivial
  | s, e :: es =>
    match h : step s e with
    | none => .isTrue fun t ht => absurd (h.symm.trans ht) (Option.some_ne_none t).symm
    | some t =>
      have := decidableAlong t es
      decidable_of_iff (P s e t ∧ Along step P t es) (along_cons_of_step step h).symm

theorem Along.and (hP : Along step P s es) (hQ : Along step Q s es) :
    Along step (fun s e t => P s e t ∧ Q s e t) s es := by
  induction es generalizing s with
  | nil => trivial
  | cons e es ih =>
      intro t he
      exact ⟨⟨(hP t he).1, (hQ t he).1⟩, ih (hP t he).2 (hQ t he).2⟩

theorem Along.of_append {fs : List ε} (h : Along step P s (es ++ fs))
    (hr : run step s es = some t) : Along step P t fs := by
  induction es generalizing s with
  | nil =>
      rw [run_nil, Option.some.injEq] at hr
      exact hr ▸ h
  | cons e es ih =>
      obtain ⟨u, he, hu⟩ := (run_cons_eq_some step).mp hr
      exact ih (h u he).2 hu

theorem along_trivial (s : σ) (es : List ε) : Along step (fun _ _ _ => True) s es := by
  induction es generalizing s with
  | nil => trivial
  | cons e es ih => exact fun t _ => ⟨trivial, ih t⟩

theorem along_of_forall {L : ε → Prop} (h : ∀ e ∈ es, L e) :
    Along step (fun _ e _ => L e) s es := by
  induction es generalizing s with
  | nil => trivial
  | cons e es ih =>
      intro t _
      exact ⟨h e List.mem_cons_self, ih fun e' he' => h e' (List.mem_cons_of_mem e he')⟩

/-- A step property that follows from an invariant holds along every run. -/
theorem along_of_invariant (hstep : ∀ s e t, I s → step s e = some t → I t)
    (hP : ∀ s e t, I s → step s e = some t → P s e t) (hs : I s) (es : List ε) :
    Along step P s es := by
  induction es generalizing s with
  | nil => trivial
  | cons e es ih =>
      intro t he
      exact ⟨hP s e t hs he, ih (hstep s e t hs he)⟩

/-- An invariant that is preserved only by the steps that satisfy `P`. -/
theorem run_invariant_of_along (hstep : ∀ s e t, I s → step s e = some t → P s e t → I t) (hs : I s)
    (hP : Along step P s es) (hr : run step s es = some t) : I t := by
  induction es generalizing s with
  | nil => rw [run_nil, Option.some.injEq] at hr; exact hr ▸ hs
  | cons e es ih =>
      obtain ⟨u, he, hu⟩ := (run_cons_eq_some step).mp hr
      obtain ⟨hp, hrest⟩ := hP u he
      exact ih (hstep s e u hs he hp) hrest hu

/-- A step property that follows from an invariant which lasts as long as `P` holds. -/
theorem along_of_along_invariant (hstep : ∀ s e t, I s → step s e = some t → P s e t → I t)
    (hQ : ∀ s e t, I s → step s e = some t → P s e t → Q s e t) (hs : I s)
    (hP : Along step P s es) : Along step Q s es := by
  induction es generalizing s with
  | nil => trivial
  | cons e es ih =>
      intro t he
      obtain ⟨hp, hrest⟩ := hP t he
      exact ⟨hQ s e t hs he hp, ih (hstep s e t hs he hp) hrest⟩

/-- Two step properties that agree while the invariant lasts, where the invariant lasts
as long as the first one holds, are satisfied along the same runs. -/
theorem along_iff_along (hstep : ∀ s e t, I s → step s e = some t → P s e t → I t)
    (hPQ : ∀ s e t, I s → step s e = some t → (P s e t ↔ Q s e t)) (hs : I s) (es : List ε) :
    Along step P s es ↔ Along step Q s es := by
  induction es generalizing s with
  | nil => exact Iff.rfl
  | cons e es ih =>
      constructor
      · intro h t he
        obtain ⟨hp, hrest⟩ := h t he
        exact ⟨(hPQ s e t hs he).mp hp, (ih (hstep s e t hs he hp)).mp hrest⟩
      · intro h t he
        obtain ⟨hq, hrest⟩ := h t he
        have hp := (hPQ s e t hs he).mpr hq
        exact ⟨hp, (ih (hstep s e t hs he hp)).mpr hrest⟩

/-- A property that a step keeps exactly if it satisfies `P` holds at the end of a run exactly if
it held at the start and every step satisfies `P`. -/
theorem run_iff_along_of_along {J : σ → Prop}
    (hstep : ∀ s e t, I s → step s e = some t → Q s e t → I t)
    (hJ : ∀ s e t, I s → step s e = some t → Q s e t → (J t ↔ J s ∧ P s e t)) (hs : I s)
    (hQ : Along step Q s es) (hr : run step s es = some t) : J t ↔ J s ∧ Along step P s es := by
  induction es generalizing s with
  | nil =>
      rw [run_nil, Option.some.injEq] at hr
      rw [hr]
      exact (and_iff_left trivial).symm
  | cons e es ih =>
      obtain ⟨u, he, hu⟩ := (run_cons_eq_some step).mp hr
      obtain ⟨hq, hrest⟩ := hQ u he
      rw [ih (hstep s e u hs he hq) hrest hu, hJ s e u hs he hq, and_assoc,
        along_cons_of_step step he]

theorem run_iff_along {J : σ → Prop} (hstep : ∀ s e t, I s → step s e = some t → I t)
    (hJ : ∀ s e t, I s → step s e = some t → (J t ↔ J s ∧ P s e t)) (hs : I s)
    (hr : run step s es = some t) : J t ↔ J s ∧ Along step P s es :=
  run_iff_along_of_along step (fun s e t h he _ => hstep s e t h he)
    (fun s e t h he _ => hJ s e t h he) hs (along_trivial step s es) hr

/-- `Along` for a property that a test shows. -/
def alongTest (test : σ → ε → Bool) : σ → List ε → Bool
  | _, [] => true
  | s, e :: es => test s e && (step s e).all fun t => alongTest test t es

theorem along_of_alongTest {test : σ → ε → Bool}
    (htest : ∀ e ∈ es, ∀ s t, test s e = true → P s e t) (h : alongTest step test s es = true) :
    Along step P s es := by
  induction es generalizing s with
  | nil => trivial
  | cons e es ih =>
      intro t he
      simp only [alongTest, he, Option.all_some, Bool.and_eq_true] at h
      exact ⟨htest e List.mem_cons_self s t h.1,
        ih (fun e' he' => htest e' (List.mem_cons_of_mem e he')) h.2⟩

variable {ο : Type*} (obs : σ → ε → Option ο)

/-- What is observed of the steps of a run, in order. -/
def observe : σ → List ε → List ο
  | _, [] => []
  | s, e :: es => (obs s e).toList ++ (step s e).elim [] fun t => observe t es

theorem observe_cons_of_step (he : step s e = some t) :
    observe step obs s (e :: es) = (obs s e).toList ++ observe step obs t es := by
  rw [observe, he, Option.elim_some]

theorem observe_append {fs : List ε} (hr : run step s es = some t) :
    observe step obs s (es ++ fs) = observe step obs s es ++ observe step obs t fs := by
  induction es generalizing s with
  | nil =>
      rw [run_nil, Option.some.injEq] at hr
      rw [hr]
      rfl
  | cons e es ih =>
      obtain ⟨u, he, hu⟩ := (run_cons_eq_some step).mp hr
      rw [List.cons_append, observe_cons_of_step step obs he, observe_cons_of_step step obs he,
        ih hu, List.append_assoc]

/-- Every observation is made at a label of the run. -/
theorem exists_of_mem_observe {o : ο} (h : o ∈ observe step obs s es) :
    ∃ t, ∃ e ∈ es, obs t e = some o := by
  induction es generalizing s with
  | nil => cases h
  | cons e es ih =>
      rw [observe, List.mem_append] at h
      rcases h with ho | ho
      · exact ⟨s, e, List.mem_cons_self, Option.mem_toList.mp ho⟩
      · rcases he : step s e with _ | t
        · rw [he] at ho
          cases ho
        · rw [he] at ho
          obtain ⟨u, e', he', ho'⟩ := ih ho
          exact ⟨u, e', List.mem_cons_of_mem e he', ho'⟩

/-- An invariant that relates the state to what has been observed. -/
theorem run_observe_of_along {I : σ → List ο → Prop}
    (hstep : ∀ s e t os, I s os → step s e = some t → P s e t → I t (os ++ (obs s e).toList))
    {os : List ο} (hs : I s os) (hP : Along step P s es) (hr : run step s es = some t) :
    I t (os ++ observe step obs s es) := by
  induction es generalizing s os with
  | nil =>
      rw [run_nil, Option.some.injEq] at hr
      rw [← hr, observe, List.append_nil]
      exact hs
  | cons e es ih =>
      obtain ⟨u, he, hu⟩ := (run_cons_eq_some step).mp hr
      obtain ⟨hp, hrest⟩ := hP u he
      rw [observe_cons_of_step step obs he, ← List.append_assoc]
      exact ih (hstep s e u os hs he hp) hrest hu

theorem run_observe {I : σ → List ο → Prop}
    (hstep : ∀ s e t os, I s os → step s e = some t → I t (os ++ (obs s e).toList)) {os : List ο}
    (hs : I s os) (hr : run step s es = some t) : I t (os ++ observe step obs s es) :=
  run_observe_of_along step obs (fun s e t os h he _ => hstep s e t os h he) hs
    (along_trivial step s es) hr

end TransitionRuns
