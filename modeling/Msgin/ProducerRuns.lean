import Msgin.PushSettlement

/-!
# The calls of the producer in a run

What a step of a running consumer does to its producer. A monitor that every pass of the producer
meets accepts the calls that the producer makes in a run, whatever the workers do in between.
-/

namespace Msgin

open Interaction Prog TransitionRuns

variable {P T M : Type} {c : Consumer P T} {s t : RunState P T}

def produced (s : RunState P T) : RunLabel P T → Option (Event P T)
  | .produce answer =>
    match s.producer with
    | some (.ask q _) => some ⟨q, answer q⟩
    | _ => none
  | _ => none

def producerEvents (c : Consumer P T) (s : RunState P T) (ls : List (RunLabel P T)) :
    List (Event P T) :=
  observe (RunState.step c) produced s ls

inductive ProducerStep (c : Consumer P T) (s : RunState P T) (l : RunLabel P T) (t : RunState P T) :
    Prop
  | idle (same : t.producer = s.producer) (seen : produced s l = none)
  | exits (between : s.producer = some (.ret .stopped)) (gone : t.producer = none)
      (seen : produced s l = none)
  | enters (ctl : Control P) (between : s.producer = some (.ret ctl))
      (next : t.producer = some (producer c ctl)) (seen : produced s l = none)
  | calls (q : Call P T) (k : q.Answer → Routine P T (Control P)) (r : q.Answer)
      (asks : s.producer = some (.ask q k)) (enabled : s.enabled c q r = true)
      (next : t.producer = some (k r)) (seen : produced s l = some ⟨q, r⟩)

theorem producerStep_of_step {l : RunLabel P T} (h : s.step c l = some t) :
    ProducerStep c s l t := by
  cases l with
  | cancel =>
      obtain rfl := Option.some.inj h
      exact .idle rfl rfl
  | produce answer =>
      rcases hp : s.producer with _ | _ | ⟨q, k⟩
      · simp [RunState.step, hp] at h
      · simp [RunState.step, hp] at h
      · simp only [RunState.step, hp, Option.ite_none_right_eq_some, Option.some.injEq] at h
        obtain ⟨henabled, rfl⟩ := h
        exact .calls q k (answer q) hp henabled rfl (by simp only [produced, hp])
  | nextPass =>
      rcases hp : s.producer with _ | ctl | ⟨q, k⟩
      · simp [RunState.step, hp] at h
      · cases ctl with
        | stopped =>
            simp only [RunState.step, hp, Option.some.injEq] at h
            obtain rfl := h
            exact .exits hp rfl rfl
        | _ =>
            simp only [RunState.step, hp, Option.some.injEq] at h
            obtain rfl := h
            exact .enters _ hp rfl rfl
      · simp [RunState.step, hp] at h
  | take i =>
      rcases hw : s.workers i with _ | w
      · rcases hch : s.workerCh with _ | ⟨md, rest⟩
        · simp [RunState.step, hw, hch] at h
        · simp only [RunState.step, hw, hch, Option.ite_none_right_eq_some, Option.some.injEq] at h
          obtain ⟨-, rfl⟩ := h
          exact .idle rfl rfl
      · simp [RunState.step, hw] at h
  | work i answer =>
      rcases hw : s.workers i with _ | ⟨md, _ | ⟨q, k⟩⟩
      · simp [RunState.step, hw] at h
      · simp [RunState.step, hw] at h
      · simp only [RunState.step, hw, Option.ite_none_right_eq_some, Option.some.injEq] at h
        obtain ⟨-, rfl⟩ := h
        exact .idle (effect_producer s q _) rfl
  | finish i =>
      rcases hw : s.workers i with _ | ⟨md, _ | ⟨q, k⟩⟩
      · simp [RunState.step, hw] at h
      · simp only [RunState.step, hw, Option.some.injEq] at h
        obtain rfl := h
        exact .idle rfl rfl
      · simp [RunState.step, hw] at h

theorem effect_ctxDone (s : RunState P T) (q : Call P T) (r : q.Answer) :
    (s.effect q r).ctxDone = s.ctxDone := by
  cases q <;> first | rfl | (simp only [RunState.effect]; split <;> rfl) | (cases r <;> rfl)

theorem ctxDone_of_step {l : RunLabel P T} (h : s.step c l = some t) (hs : s.ctxDone = true) :
    t.ctxDone = true := by
  cases l with
  | cancel =>
      obtain rfl := Option.some.inj h
      rfl
  | produce answer | work i answer =>
      simp only [RunState.step] at h
      split at h
      · simp only [Option.ite_none_right_eq_some, Option.some.injEq] at h
        obtain ⟨-, rfl⟩ := h
        exact (effect_ctxDone s _ _).trans hs
      · cases h
  | nextPass | finish i =>
      simp only [RunState.step] at h
      split at h <;> cases h
      all_goals exact hs
  | take i =>
      simp only [RunState.step] at h
      split at h
      · simp only [Option.ite_none_right_eq_some, Option.some.injEq] at h
        obtain ⟨-, rfl⟩ := h
        exact hs
      · cases h

section Monitored

variable {δ : M → (q : Call P T) → q.Answer → Option M} {ready : Control P → M → Prop}
  (hpass : ∀ ctl m, ready ctl m → Meets δ ready (producer c ctl) m) {kind : SourceKind} {m₀ : M}
  (h₀ : ready (startOf kind) m₀) {ls : List (RunLabel P T)}
  (hr : run (RunState.step c) (.initial c kind) ls = some s)

include hpass h₀ hr

/-- A monitor that every pass of the producer meets accepts the calls of the producer in every run,
and what remains of the pass at the end of the run meets it too. -/
theorem run_producer_monitored :
    ∃ m, (producerEvents c (.initial c kind) ls).foldlM (fun m e => δ m e.1 e.2) m₀ = some m ∧
      (s.producer = none → ready .stopped m) ∧ ∀ p, s.producer = some p → Meets δ ready p m := by
  have hstart : ∃ m, ([] : List (Event P T)).foldlM (fun m e => δ m e.1 e.2) m₀ = some m ∧
      ((RunState.initial c kind).producer = none → ready .stopped m) ∧
      ∀ p, (RunState.initial c kind).producer = some p → Meets δ ready p m := by
    refine ⟨m₀, rfl, fun h => (by cases h), fun p h => ?_⟩
    obtain rfl := Option.some.inj h
    exact hpass _ m₀ h₀
  refine run_observe (RunState.step c) produced
    (I := fun s es => ∃ m, es.foldlM (fun m e => δ m e.1 e.2) m₀ = some m ∧
      (s.producer = none → ready .stopped m) ∧
      ∀ p, s.producer = some p → Meets δ ready p m) ?_ hstart hr
  rintro s l t es ⟨m, hm, hnone, hp⟩ hstep
  cases producerStep_of_step hstep with
  | idle same seen =>
      rw [seen, Option.toList_none, List.append_nil, same]
      exact ⟨m, hm, hnone, hp⟩
  | exits between gone seen =>
      rw [seen, Option.toList_none, List.append_nil, gone]
      exact ⟨m, hm, fun _ => hp _ between, fun p h => by cases h⟩
  | enters ctl between next seen =>
      rw [seen, Option.toList_none, List.append_nil, next]
      refine ⟨m, hm, fun h => (by cases h), fun p h => ?_⟩
      obtain rfl := Option.some.inj h
      exact hpass ctl m (hp _ between)
  | calls q k r asks enabled next seen =>
      obtain ⟨m', hδ, hk⟩ := hp _ asks r
      rw [seen, next]
      refine ⟨m', ?_, fun h => (by cases h), fun p h => ?_⟩
      · rw [Option.toList_some, List.foldlM_append, hm]
        simpa using hδ
      · obtain rfl := Option.some.inj h
        exact hk

theorem run_producer_accepted :
    ∃ m, (producerEvents c (.initial c kind) ls).foldlM (fun m e => δ m e.1 e.2) m₀ = some m := by
  obtain ⟨m, hm, -⟩ := run_producer_monitored hpass h₀ hr
  exact ⟨m, hm⟩

end Monitored

open Classical in
theorem exists_produce {q : Call P T} {k : q.Answer → Routine P T (Control P)}
    (hp : s.producer = some (.ask q k)) {r : q.Answer} (he : s.enabled c q r = true) :
    ∃ l t, s.step c l = some t ∧ produced s l = some ⟨q, r⟩ ∧ t.producer = some (k r) ∧
      t.workerCh = (s.effect q r).workerCh := by
  refine ⟨.produce (Function.update (fun q => Classical.choice inferInstance) q r),
    { s.effect q r with producer := some (k r) }, ?_, ?_, rfl, rfl⟩
  · simp only [RunState.step, hp, Function.update_self, he, if_true]
  · simp only [produced, hp, Function.update_self]

end Msgin
