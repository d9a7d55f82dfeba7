import Msgin.Predicates

/-!
# Compositions that report a nil operand

Which trees of combinators report a nil operand whatever their other operands return, and two that
hide it.
-/

namespace Msgin.Routing

variable {C A : Type} {ctx : C} {m : Message A}

namespace PredicateTree

variable {t t' : PredicateTree C A} {b : Bool}

inductive Alike : PredicateTree C A → PredicateTree C A → Prop
  | leaf {p q : Predicate C A} (same : p.isSome = q.isSome) : Alike (.leaf p) (.leaf q)
  | junction (j : Junction) {l l' r r' : PredicateTree C A} (left : Alike l l')
      (right : Alike r r') : Alike (.junction j l r) (.junction j l' r')
  | not {t t' : PredicateTree C A} (operand : Alike t t') : Alike (.not t) (.not t')

/-- Whether the tree can return `b` without an error, for some values of its leaves. -/
def canReturn : PredicateTree C A → Bool → Bool
  | leaf p, _ => p.isSome
  | junction j l r, b => l.build.isSome && r.build.isSome &&
      (decide (b = j.stop) && l.canReturn j.stop || l.canReturn (!j.stop) && r.canReturn b)
  | not t, b => t.build.isSome && t.canReturn (!b)

theorem isSome_build_of_alike (h : Alike t t') : t.build.isSome = t'.build.isSome := by
  cases h with
  | leaf same => exact same
  | junction j left right => rw [build_junction, build_junction, isSome_junction, isSome_junction]
  | not operand => rw [build, build, isSome_not, isSome_not]

theorem canReturn_of_alike (h : Alike t t') (b : Bool) : t.canReturn b = t'.canReturn b := by
  induction h generalizing b with
  | leaf same => exact same
  | junction j left right ihl ihr =>
      rw [canReturn, canReturn, isSome_build_of_alike left, isSome_build_of_alike right, ihl, ihl,
        ihr]
  | not operand ih => rw [canReturn, canReturn, isSome_build_of_alike operand, ih]

theorem canReturn_of_call (h : t.build.call ctx m = .returned (b, none)) :
    t.canReturn b = true := by
  induction t generalizing b with
  | leaf p => exact Predicate.isSome_of_call h
  | junction j l r ihl ihr =>
      rw [build_junction] at h
      obtain ⟨hl, hr, ⟨hb, hstop⟩ | ⟨hpass, hright⟩⟩ := operands_of_junction h
      · simp [canReturn, hl, hr, hb, ihl hstop]
      · simp [canReturn, hl, hr, ihl hpass, ihr hright]
  | not t ih =>
      have hoperand := operand_of_not h
      simp [canReturn, Predicate.isSome_of_call hoperand, ih hoperand]

theorem exists_answers (ctx : C) (m : Message A) (t : PredicateTree C A) :
    ∃ t', Alike t t' ∧ t'.Answers ctx m := by
  induction t with
  | leaf p =>
      cases p with
      | none => exact ⟨.leaf none, .leaf rfl, trivial⟩
      | some f => exact ⟨.leaf (some fun _ _ => .returned (true, none)), .leaf rfl, true, rfl⟩
  | junction j l r ihl ihr =>
      obtain ⟨l', hl, hlanswers⟩ := ihl
      obtain ⟨r', hr, hranswers⟩ := ihr
      exact ⟨.junction j l' r', .junction j hl hr, hlanswers, hranswers⟩
  | not t ih =>
      obtain ⟨t', ht, hanswers⟩ := ih
      exact ⟨.not t', .not ht, hanswers⟩

theorem exists_call_of_canReturn (ctx : C) (m : Message A) (h : t.canReturn b = true) :
    ∃ t', Alike t t' ∧ t'.Answers ctx m ∧ t'.build.call ctx m = .returned (b, none) := by
  induction t generalizing b with
  | leaf p =>
      cases p with
      | none => cases h
      | some f =>
          exact ⟨.leaf (some fun _ _ => .returned (b, none)), .leaf rfl, ⟨b, rfl⟩, rfl⟩
  | junction j l r ihl ihr =>
      simp only [canReturn, Bool.and_eq_true, Bool.or_eq_true, decide_eq_true_eq] at h
      obtain ⟨⟨hl, hr⟩, ⟨rfl, hstop⟩ | ⟨hpass, hright⟩⟩ := h
      · obtain ⟨l', hlike, hanswers, hcall⟩ := ihl hstop
        obtain ⟨r', hlike', hanswers'⟩ := exists_answers ctx m r
        refine ⟨.junction j l' r', .junction j hlike hlike', ⟨hanswers, hanswers'⟩, ?_⟩
        rw [build_junction]
        exact call_junction_of_stop hcall ((isSome_build_of_alike hlike').symm.trans hr)
      · obtain ⟨l', hlike, hanswers, hcall⟩ := ihl hpass
        obtain ⟨r', hlike', hanswers', hcall'⟩ := ihr hright
        refine ⟨.junction j l' r', .junction j hlike hlike', ⟨hanswers, hanswers'⟩, ?_⟩
        rw [build_junction]
        exact call_junction_of_pass hcall hcall'
  | not t ih =>
      simp only [canReturn, Bool.and_eq_true] at h
      obtain ⟨t', hlike, hanswers, hcall⟩ := ih h.2
      have hnot := call_not hcall
      rw [Bool.not_not] at hnot
      exact ⟨.not t', .not hlike, hanswers, hnot⟩

theorem always_surfaces_iff (ctx : C) (m : Message A) (t : PredicateTree C A) :
    (∀ t', Alike t t' → t'.Answers ctx m → t'.Surfaces ctx m) ↔
      t.build.isSome = true ∧ ∀ b, t.canReturn b = false := by
  constructor
  · intro h
    constructor
    · obtain ⟨t', hlike, hanswers⟩ := exists_answers ctx m t
      obtain ⟨err, hcall, -⟩ := h t' hlike hanswers
      rw [isSome_build_of_alike hlike]
      exact Predicate.isSome_of_call hcall
    · intro b
      by_contra hcan
      rw [Bool.not_eq_false] at hcan
      obtain ⟨t', hlike, hanswers, hcall⟩ := exists_call_of_canReturn ctx m hcan
      obtain ⟨err, hcall', -⟩ := h t' hlike hanswers
      cases hcall.symm.trans hcall'
  · rintro ⟨hsome, hnever⟩ t' hlike hanswers
    cases evaluated hanswers with
    | isNil built unreached =>
        rw [isSome_build_of_alike hlike, built] at hsome
        cases hsome
    | truth b returned unreached =>
        have hcan := canReturn_of_call returned
        rw [← canReturn_of_alike hlike, hnever b] at hcan
        cases hcan
    | fault err returned nilFunc reached => exact ⟨err, returned, nilFunc⟩

/-- Where the leaves return truth values, the evaluation of a tree returns false and `ErrNilFunc`
exactly if it reaches a combinator with a nil operand. The trees for which it does so whatever the
values are those that can return neither of them. -/
theorem nil_surfaces_iff (ctx : C) (m : Message A) (t : PredicateTree C A) :
    (t.Answers ctx m → (t.Surfaces ctx m ↔ t.Reached ctx m)) ∧
      ((∀ t', Alike t t' → t'.Answers ctx m → t'.Surfaces ctx m) ↔
        t.build.isSome = true ∧ ∀ b, t.canReturn b = false) :=
  ⟨surfaces_iff_reached, always_surfaces_iff ctx m t⟩

/-- A predicate that returns `b`. -/
def constant (b : Bool) : PredicateTree C A := .leaf (some fun _ _ => .returned (b, none))

/-- `no.And(yes.And(nil))` returns false and `yes.Or(no.Or(nil))` true, both without an error. -/
theorem nested_nil_hidden :
    ∃ t t' : PredicateTree Unit Unit,
      (t.hasNil = true ∧ t.Answers () blankMessage ∧
        t.build.call () blankMessage = .returned (false, none)) ∧
      (t'.hasNil = true ∧ t'.Answers () blankMessage ∧
        t'.build.call () blankMessage = .returned (true, none)) := by
  refine ⟨.junction .and (constant false) (.junction .and (constant true) (.leaf none)),
    .junction .or (constant true) (.junction .or (constant false) (.leaf none)), ?_, ?_⟩
  · exact ⟨rfl, ⟨⟨false, rfl⟩, ⟨true, rfl⟩, trivial⟩, rfl⟩
  · exact ⟨rfl, ⟨⟨true, rfl⟩, ⟨false, rfl⟩, trivial⟩, rfl⟩

end PredicateTree

end Msgin.Routing
