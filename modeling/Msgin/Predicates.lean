import Msgin.Settlement

/-!
# Predicates and their combinators

`And`, `Or` and `Not` check their operands for nil when they are applied, and what they return fails
where it is evaluated. A nil operand therefore surfaces exactly where the evaluation reaches the
combinator that has it: no short-circuit of that combinator hides it, but one further out does.
-/

namespace Msgin.Routing

variable {C A : Type}

/-- A value of the func type `Predicate[A]`, which may be nil. -/
def Predicate (C A : Type) : Type := Option (C → Message A → Outcome (Bool × Option Err))

def Predicate.call (p : Predicate C A) (ctx : C) (m : Message A) : Outcome (Bool × Option Err) :=
  match p with
  | none => .panicked nilDereference
  | some f => f ctx m

def nilPredicate (position : String) : Predicate C A :=
  some fun _ _ =>
    .returned (false, some (.wrapped "" (": " ++ position) (.permanent (.sentinel .errNilFunc))))

inductive Junction
  | and
  | or
  deriving DecidableEq

def Junction.name : Junction → String
  | and => "And"
  | or => "Or"

def Junction.stop : Junction → Bool
  | and => false
  | or => true

/-- The common body of `And` and `Or`. -/
def Junction.apply (j : Junction) : Predicate C A → Predicate C A → Predicate C A
  | none, _ => nilPredicate ("routing.Predicate." ++ j.name ++ ": nil receiver")
  | some _, none => nilPredicate ("routing.Predicate." ++ j.name ++ ": nil argument")
  | some p, some q => some fun ctx m =>
    match p ctx m with
    | .panicked r => .panicked r
    | .returned (_, some err) => .returned (false, some err)
    | .returned (ok, none) =>
      if ok = j.stop then .returned (j.stop, none)
      else
        match q ctx m with
        | .panicked r => .panicked r
        | .returned (_, some err) => .returned (false, some err)
        | .returned (ok, none) => .returned (ok, none)

def Predicate.and (p q : Predicate C A) : Predicate C A := Junction.and.apply p q

def Predicate.or (p q : Predicate C A) : Predicate C A := Junction.or.apply p q

def Predicate.not : Predicate C A → Predicate C A
  | none => nilPredicate "routing.Predicate.Not: nil receiver"
  | some p => some fun ctx m =>
    match p ctx m with
    | .panicked r => .panicked r
    | .returned (_, some err) => .returned (false, some err)
    | .returned (ok, none) => .returned (!ok, none)

inductive PredicateTree (C A : Type)
  | leaf (p : Predicate C A)
  -- `l.And(r)` or `l.Or(r)`
  | junction (j : Junction) (l r : PredicateTree C A)
  | not (t : PredicateTree C A)

namespace PredicateTree

def build : PredicateTree C A → Predicate C A
  | leaf p => p
  | junction .and l r => l.build.and r.build
  | junction .or l r => l.build.or r.build
  | not t => t.build.not

def hasNil : PredicateTree C A → Bool
  | leaf p => p.isNone
  | junction _ l r => l.hasNil || r.hasNil
  | not t => t.hasNil

/-- The leaves that are not nil return truth values. -/
def Answers (ctx : C) (m : Message A) : PredicateTree C A → Prop
  | leaf none => True
  | leaf (some f) => ∃ b, f ctx m = .returned (b, none)
  | junction _ l r => l.Answers ctx m ∧ r.Answers ctx m
  | not t => t.Answers ctx m

def Surfaces (ctx : C) (m : Message A) (t : PredicateTree C A) : Prop :=
  ∃ err, t.build.call ctx m = .returned (false, some err) ∧ err.is .errNilFunc = true

/-- The evaluation reaches a combinator with a nil operand. -/
def Reached (ctx : C) (m : Message A) : PredicateTree C A → Prop
  | leaf _ => False
  | junction j l r => l.build = none ∨ r.build = none ∨ l.Reached ctx m ∨
      l.build.call ctx m = .returned (!j.stop, none) ∧ r.Reached ctx m
  | not t => t.build = none ∨ t.Reached ctx m

end PredicateTree

variable {ctx : C} {m : Message A} {p q : Predicate C A} {j : Junction} {b : Bool} {err : Err}

theorem Predicate.exists_of_call {r : Bool × Option Err} (h : p.call ctx m = .returned r) :
    ∃ f, p = some f ∧ f ctx m = .returned r := by
  cases p with
  | none => cases h
  | some f => exact ⟨f, rfl, h⟩

theorem Predicate.isSome_of_call {r : Bool × Option Err} (h : p.call ctx m = .returned r) :
    p.isSome = true := by
  obtain ⟨f, rfl, -⟩ := Predicate.exists_of_call h
  rfl

theorem isSome_junction (j : Junction) (p q : Predicate C A) : (j.apply p q).isSome = true := by
  cases p <;> cases q <;> rfl

theorem isSome_not (p : Predicate C A) : p.not.isSome = true := by
  cases p <;> rfl

theorem call_junction_of_stop (hp : p.call ctx m = .returned (j.stop, none))
    (hq : q.isSome = true) : (j.apply p q).call ctx m = .returned (j.stop, none) := by
  obtain ⟨f, rfl, hf⟩ := Predicate.exists_of_call hp
  obtain ⟨g, rfl⟩ := Option.isSome_iff_exists.mp hq
  simp only [Predicate.call, Junction.apply, hf, if_pos]

theorem call_junction_of_pass (hp : p.call ctx m = .returned (!j.stop, none))
    (hq : q.call ctx m = .returned (b, none)) : (j.apply p q).call ctx m = .returned (b, none) := by
  obtain ⟨f, rfl, hf⟩ := Predicate.exists_of_call hp
  obtain ⟨g, rfl, hg⟩ := Predicate.exists_of_call hq
  simp [Predicate.call, Junction.apply, hf, hg]

theorem call_junction_of_left_error (hp : p.call ctx m = .returned (b, some err))
    (hq : q.isSome = true) : (j.apply p q).call ctx m = .returned (false, some err) := by
  obtain ⟨f, rfl, hf⟩ := Predicate.exists_of_call hp
  obtain ⟨g, rfl⟩ := Option.isSome_iff_exists.mp hq
  simp only [Predicate.call, Junction.apply, hf]

theorem call_junction_of_right_error (hp : p.call ctx m = .returned (!j.stop, none))
    (hq : q.call ctx m = .returned (b, some err)) :
    (j.apply p q).call ctx m = .returned (false, some err) := by
  obtain ⟨f, rfl, hf⟩ := Predicate.exists_of_call hp
  obtain ⟨g, rfl, hg⟩ := Predicate.exists_of_call hq
  simp [Predicate.call, Junction.apply, hf, hg]

theorem call_not (hp : p.call ctx m = .returned (b, none)) :
    p.not.call ctx m = .returned (!b, none) := by
  obtain ⟨f, rfl, hf⟩ := Predicate.exists_of_call hp
  simp only [Predicate.call, Predicate.not, hf]

theorem call_not_of_error (hp : p.call ctx m = .returned (b, some err)) :
    p.not.call ctx m = .returned (false, some err) := by
  obtain ⟨f, rfl, hf⟩ := Predicate.exists_of_call hp
  simp only [Predicate.call, Predicate.not, hf]

theorem operands_of_junction (h : (j.apply p q).call ctx m = .returned (b, none)) :
    p.isSome = true ∧ q.isSome = true ∧
      (b = j.stop ∧ p.call ctx m = .returned (j.stop, none) ∨
        p.call ctx m = .returned (!j.stop, none) ∧ q.call ctx m = .returned (b, none)) := by
  cases p with
  | none => cases h
  | some f =>
      cases q with
      | none => cases h
      | some g =>
          refine ⟨rfl, rfl, ?_⟩
          simp only [Predicate.call, Junction.apply] at h ⊢
          rcases hf : f ctx m with ⟨ok, _ | err⟩ | r
          · by_cases hstop : ok = j.stop
            · simp only [hf, if_pos hstop, Outcome.returned.injEq, Prod.mk.injEq] at h
              exact .inl ⟨h.1.symm, by rw [hstop]⟩
            · simp only [hf, if_neg hstop] at h
              refine .inr ⟨by rw [Bool.eq_not.mpr hstop], ?_⟩
              rcases hg : g ctx m with ⟨ok', _ | err⟩ | r
              · simpa only [hg] using h
              · simp [hg] at h
              · simp [hg] at h
          · simp [hf] at h
          · simp [hf] at h

theorem operand_of_not (h : p.not.call ctx m = .returned (b, none)) :
    p.call ctx m = .returned (!b, none) := by
  cases p with
  | none => cases h
  | some f =>
      simp only [Predicate.call, Predicate.not] at h ⊢
      rcases hf : f ctx m with ⟨ok, _ | err⟩ | r
      · simp only [hf, Outcome.returned.injEq, Prod.mk.injEq] at h
        rw [← h.1, Bool.not_not]
      · simp [hf] at h
      · simp [hf] at h

variable {R S : Prop}

/-- How a predicate evaluates whose evaluation reaches a nil operand if `R`. -/
inductive Evaluated (ctx : C) (m : Message A) (p : Predicate C A) (R : Prop) : Prop
  | isNil (built : p = none) (unreached : ¬R)
  | truth (b : Bool) (returned : p.call ctx m = .returned (b, none)) (unreached : ¬R)
  | fault (err : Err) (returned : p.call ctx m = .returned (false, some err))
      (nilFunc : err.is .errNilFunc = true) (reached : R)

theorem evaluated_nilPredicate (position : String) (h : R) :
    Evaluated ctx m (nilPredicate position) R :=
  .fault _ rfl rfl h

theorem evaluated_junction (j : Junction) (hp : Evaluated ctx m p R) (hq : Evaluated ctx m q S) :
    Evaluated ctx m (j.apply p q)
      (p = none ∨ q = none ∨ R ∨ p.call ctx m = .returned (!j.stop, none) ∧ S) := by
  cases hp with
  | isNil built unreached =>
      subst built
      exact evaluated_nilPredicate _ (.inl rfl)
  | fault err returned nilFunc reached =>
      cases q with
      | none =>
          obtain ⟨f, rfl, -⟩ := Predicate.exists_of_call returned
          exact evaluated_nilPredicate _ (.inr (.inl rfl))
      | some g =>
          exact .fault err (call_junction_of_left_error returned rfl) nilFunc
            (.inr (.inr (.inl reached)))
  | truth b returned unreached =>
      have hp := Predicate.isSome_of_call returned
      cases hq with
      | isNil built unreached' =>
          subst built
          obtain ⟨f, rfl, -⟩ := Predicate.exists_of_call returned
          exact evaluated_nilPredicate _ (.inr (.inl rfl))
      | truth b' returned' unreached' =>
          have hq := Predicate.isSome_of_call returned'
          have hunreached : ¬(p = none ∨ q = none ∨ R ∨
              p.call ctx m = .returned (!j.stop, none) ∧ S) := by
            rintro (rfl | rfl | hleft | ⟨-, hright⟩)
            · cases hp
            · cases hq
            · exact unreached hleft
            · exact unreached' hright
          by_cases hstop : b = j.stop
          · subst hstop
            exact .truth j.stop (call_junction_of_stop returned hq) hunreached
          · rw [Bool.eq_not.mpr hstop] at returned
            exact .truth b' (call_junction_of_pass returned returned') hunreached
      | fault err returned' nilFunc reached =>
          have hq := Predicate.isSome_of_call returned'
          by_cases hstop : b = j.stop
          · subst hstop
            refine .truth j.stop (call_junction_of_stop returned hq) ?_
            rintro (rfl | rfl | hleft | ⟨hpassed, -⟩)
            · cases hp
            · cases hq
            · exact unreached hleft
            · simp [returned] at hpassed
          · rw [Bool.eq_not.mpr hstop] at returned
            exact .fault err (call_junction_of_right_error returned returned') nilFunc
              (.inr (.inr (.inr ⟨returned, reached⟩)))

theorem evaluated_not (hp : Evaluated ctx m p R) : Evaluated ctx m p.not (p = none ∨ R) := by
  cases hp with
  | isNil built unreached =>
      subst built
      exact evaluated_nilPredicate _ (.inl rfl)
  | truth b returned unreached =>
      refine .truth (!b) (call_not returned) ?_
      rintro (rfl | hinside)
      · cases returned
      · exact unreached hinside
  | fault err returned nilFunc reached =>
      exact .fault err (call_not_of_error returned) nilFunc (.inr reached)

namespace PredicateTree

variable {t : PredicateTree C A}

theorem build_junction (j : Junction) (l r : PredicateTree C A) :
    (junction j l r).build = j.apply l.build r.build := by
  cases j <;> rfl

theorem evaluated (h : t.Answers ctx m) : Evaluated ctx m t.build (t.Reached ctx m) := by
  induction t with
  | leaf p =>
      cases p with
      | none => exact .isNil rfl id
      | some f =>
          obtain ⟨b, hb⟩ := h
          exact .truth b hb id
  | junction j l r ihl ihr =>
      rw [build_junction]
      exact evaluated_junction j (ihl h.1) (ihr h.2)
  | not t ih => exact evaluated_not (ih h)

theorem surfaces_iff_reached (h : t.Answers ctx m) : t.Surfaces ctx m ↔ t.Reached ctx m := by
  unfold Surfaces
  cases evaluated h with
  | isNil built unreached =>
      refine iff_of_false ?_ unreached
      rintro ⟨err, hcall, -⟩
      rw [built] at hcall
      cases hcall
  | truth b returned unreached =>
      refine iff_of_false ?_ unreached
      rintro ⟨err, hcall, -⟩
      cases returned.symm.trans hcall
  | fault err returned nilFunc reached => exact iff_of_true ⟨err, returned, nilFunc⟩ reached

end PredicateTree

end Msgin.Routing
