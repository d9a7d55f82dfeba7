import Mathlib.Data.List.Basic

/-!
# Programs that call an environment

A program either returns or issues a call `q : Q` and continues with the answer in
`A q`. The environment is not part of the program: `exec` runs it against one that
may answer from the whole history, and a concurrent system keeps the residual program
of each of its threads and answers one call at a time.

Properties of all executions are stated through monitors. A monitor `δ` reads one call
with its answer and either moves on or rejects. `Meets δ post p m` is the weakest
precondition: whatever the answers, the monitor started in `m` never rejects, and the
result and the final monitor state satisfy `post`. `Emits` is the special case of a
monitor that only writes down what it reads.
-/

namespace Interaction

inductive Prog (Q : Type) (A : Q → Type) (α : Type) : Type
  | ret (a : α)
  | ask (q : Q) (k : A q → Prog Q A α)

namespace Prog

variable {Q : Type} {A : Q → Type} {α β γ M : Type}

def bind : Prog Q A α → (α → Prog Q A β) → Prog Q A β
  | ret a, f => f a
  | ask q k, f => ask q fun r => (k r).bind f

instance : Monad (Prog Q A) where
  pure := ret
  bind := bind

/-- Issue one call and return its answer. -/
def call (q : Q) : Prog Q A (A q) := ask q ret

@[simp] theorem pure_eq_ret (a : α) : (Pure.pure a : Prog Q A α) = ret a := rfl

@[simp] theorem ret_bind (a : α) (f : α → Prog Q A β) : (ret a >>= f) = f a := rfl

@[simp] theorem ask_bind (q : Q) (k : A q → Prog Q A α) (f : α → Prog Q A β) :
    (ask q k >>= f) = ask q fun r => k r >>= f := rfl

@[simp] theorem call_bind (q : Q) (f : A q → Prog Q A β) :
    (call q >>= f) = ask q f := rfl

theorem bind_ret (p : Prog Q A α) : (p >>= ret) = p := by
  induction p with
  | ret a => rfl
  | ask q k ih =>
      rw [ask_bind]
      congr 1
      funext r
      exact ih r

protected theorem bind_assoc (p : Prog Q A α) (f : α → Prog Q A β) (g : β → Prog Q A γ) :
    (p >>= f >>= g) = p >>= fun a => f a >>= g := by
  induction p with
  | ret a => rfl
  | ask q k ih =>
      simp only [ask_bind]
      congr 1
      funext r
      exact ih r

/-- Run a program against an environment that answers from the history so far. -/
def exec (env : List (Σ q, A q) → (q : Q) → A q) :
    List (Σ q, A q) → Prog Q A α → α × List (Σ q, A q)
  | t, ret a => (a, t)
  | t, ask q k => exec env (t ++ [⟨q, env t q⟩]) (k (env t q))

theorem exec_bind (env : List (Σ q, A q) → (q : Q) → A q) (t : List (Σ q, A q))
    (p : Prog Q A α) (f : α → Prog Q A β) :
    exec env t (p >>= f) = exec env (exec env t p).2 (f (exec env t p).1) := by
  induction p generalizing t with
  | ret a => rfl
  | ask q k ih => exact ih (env t q) (t ++ [⟨q, env t q⟩])

/-- An execution appends to the history, and each answer is the environment's at that point. -/
theorem exec_extends (env : List (Σ q, A q) → (q : Q) → A q) (t : List (Σ q, A q))
    (p : Prog Q A α) :
    ∃ es, (exec env t p).2 = t ++ es ∧
      ∀ pre e post, es = pre ++ e :: post → e.2 = env (t ++ pre) e.1 := by
  induction p generalizing t with
  | ret a =>
      refine ⟨[], (List.append_nil t).symm, ?_⟩
      intro pre e post h
      simp at h
  | ask q k ih =>
      obtain ⟨es, ht, hes⟩ := ih (env t q) (t ++ [⟨q, env t q⟩])
      refine ⟨⟨q, env t q⟩ :: es, by rw [List.append_cons]; exact ht, ?_⟩
      intro pre e post h
      cases pre with
      | nil =>
          obtain ⟨rfl, -⟩ := List.cons.inj h
          rw [List.append_nil]
      | cons f pre =>
          obtain ⟨rfl, hrest⟩ := List.cons.inj h
          rw [List.append_cons]
          exact hes pre e post hrest

/-- The calls a program issues from an empty history, each with its answer. -/
def trace (env : List (Σ q, A q) → (q : Q) → A q) (p : Prog Q A α) : List (Σ q, A q) :=
  (exec env [] p).2

theorem trace_answer {env : List (Σ q, A q) → (q : Q) → A q} {p : Prog Q A α}
    {pre post : List (Σ q, A q)} {e : Σ q, A q} (h : p.trace env = pre ++ e :: post) :
    e.2 = env pre e.1 := by
  obtain ⟨es, ht, hes⟩ := exec_extends env [] p
  rw [List.nil_append] at ht
  exact hes pre e post (ht ▸ h)

def Meets (δ : M → (q : Q) → A q → Option M) (post : α → M → Prop) :
    Prog Q A α → M → Prop
  | ret a, m => post a m
  | ask q k, m => ∀ r, ∃ m', δ m q r = some m' ∧ Meets δ post (k r) m'

variable {q : Q} {k : A q → Prog Q A α} {a : α}

section Meets

variable {δ : M → (q : Q) → A q → Option M} {post : α → M → Prop} {m : M}

@[simp] theorem meets_ret :
    Meets δ post (ret a) m ↔ post a m := Iff.rfl

@[simp] theorem meets_pure :
    Meets δ post (Pure.pure a) m ↔ post a m := Iff.rfl

@[simp] theorem meets_ask :
    Meets δ post (ask q k) m ↔ ∀ r, ∃ m', δ m q r = some m' ∧ Meets δ post (k r) m' := Iff.rfl

/-- The sequencing rule. -/
theorem meets_bind {post : β → M → Prop} (p : Prog Q A α) (f : α → Prog Q A β) (m : M) :
    Meets δ post (p >>= f) m ↔ Meets δ (fun a m' => Meets δ post (f a) m') p m := by
  induction p generalizing m with
  | ret a => exact Iff.rfl
  | ask q k ih =>
      rw [ask_bind, meets_ask, meets_ask]
      refine forall_congr' fun r => exists_congr fun m' => and_congr_right fun _ => ?_
      exact ih r m'

/-- The rule of consequence. -/
theorem Meets.mono {post' : α → M → Prop} {p : Prog Q A α} (h : Meets δ post p m)
    (himp : ∀ a m', post a m' → post' a m') : Meets δ post' p m := by
  induction p generalizing m with
  | ret a => exact himp a m h
  | ask q k ih =>
      intro r
      obtain ⟨m', hm, hk⟩ := h r
      exact ⟨m', hm, ih r hk⟩

/-- The monitor of calls of one kind of which a program may make one. -/
def onceNext (tick : Q → Bool) (b : Bool) (q : Q) (_ : A q) : Option Bool :=
  if tick q then if b then none else some true else some b

/-- Every execution of a program that meets its postcondition is accepted by the monitor
and ends in the postcondition. -/
theorem Meets.exec {p : Prog Q A α} (h : Meets δ post p m) (env : List (Σ q, A q) → (q : Q) → A q)
    (t : List (Σ q, A q)) :
    ∃ es m', (p.exec env t).2 = t ++ es ∧ es.foldlM (fun m e => δ m e.1 e.2) m = some m' ∧
      post (p.exec env t).1 m' := by
  induction p generalizing m t with
  | ret a => exact ⟨[], m, (List.append_nil t).symm, rfl, h⟩
  | ask q k ih =>
      obtain ⟨m₁, hδ, hk⟩ := h (env t q)
      obtain ⟨es, m', ht, hes, hpost⟩ := ih (env t q) hk (t ++ [⟨q, env t q⟩])
      refine ⟨⟨q, env t q⟩ :: es, m', ?_, ?_, hpost⟩
      · rw [List.append_cons]
        exact ht
      · rw [List.foldlM_cons, hδ]
        exact hes

end Meets

/-- Whatever the answers, the program only makes calls that satisfy `φ`. -/
def Only (φ : Q → Prop) : Prog Q A α → Prop
  | ret _ => True
  | ask q k => φ q ∧ ∀ r, Only φ (k r)

section Only

variable {φ : Q → Prop}

theorem only_pure (a : α) : Only φ (Pure.pure a : Prog Q A α) := trivial

theorem only_call (h : φ q) : Only φ (call q : Prog Q A (A q)) := ⟨h, fun _ => trivial⟩

variable {δ : M → (q : Q) → A q → Option M} {p : Prog Q A α}

theorem Only.bind {f : α → Prog Q A β} (hp : Only φ p) (hf : ∀ a, Only φ (f a)) :
    Only φ (p >>= f) := by
  induction p with
  | ret a => exact hf a
  | ask q k ih => exact ⟨hp.1, fun r => ih r (hp.2 r)⟩

/-- A monitor that keeps `I` on every call of a program keeps it through the program. -/
theorem Only.meets {I : M → Prop} (hp : Only φ p)
    (hδ : ∀ m q r, φ q → I m → ∃ m', δ m q r = some m' ∧ I m') {m : M} (hm : I m) :
    Meets δ (fun _ m' => I m') p m := by
  induction p generalizing m with
  | ret a => exact hm
  | ask q k ih =>
      intro r
      obtain ⟨m', hδm, hm'⟩ := hδ m q r hp.1 hm
      exact ⟨m', hδm, ih r (hp.2 r) hm'⟩

/-- A program whose calls leave the monitor where it is. -/
theorem Only.meets_bind {post : β → M → Prop} {f : α → Prog Q A β} {m : M} (hp : Only φ p)
    (hδ : ∀ q r, φ q → δ m q r = some m) (hf : ∀ a, Meets δ post (f a) m) :
    Meets δ post (p >>= f) m := by
  induction p with
  | ret a => exact hf a
  | ask q k ih =>
      intro r
      exact ⟨m, hδ q r hp.1, ih r (hp.2 r)⟩

end Only

/-- In every execution the result together with the calls that `keep` selects is one of
the pairs of `S`. -/
def Emits (keep : Q → Bool) : (α → List (Σ q, A q) → Prop) → Prog Q A α → Prop
  | S, ret a => S a []
  | S, ask q k => ∀ r, Emits keep (fun a es => S a (if keep q then ⟨q, r⟩ :: es else es)) (k r)

section Emits

variable {keep : Q → Bool} {S S' : α → List (Σ q, A q) → Prop} {p : Prog Q A α} {f : α → Prog Q A β}

@[simp] theorem emits_ret :
    Emits keep S (ret a) ↔ S a [] := Iff.rfl

@[simp] theorem emits_ask :
    Emits keep S (ask q k) ↔
      ∀ r, Emits keep (fun a es => S a (if keep q then ⟨q, r⟩ :: es else es)) (k r) := Iff.rfl

theorem Emits.mono (h : Emits keep S p) (himp : ∀ a es, S a es → S' a es) : Emits keep S' p := by
  induction p generalizing S S' with
  | ret a => exact himp a [] h
  | ask q k ih =>
      intro r
      exact ih r (h r) fun a es hS => himp a _ hS

theorem emits_bind {S : β → List (Σ q, A q) → Prop} :
    Emits keep S (p >>= f) ↔
      Emits keep (fun a es => Emits keep (fun b fs => S b (es ++ fs)) (f a)) p := by
  induction p generalizing S with
  | ret a => simp only [ret_bind, emits_ret, List.nil_append]
  | ask q k ih =>
      rw [ask_bind, emits_ask, emits_ask]
      refine forall_congr' fun r => ?_
      rw [ih r]
      split <;> rfl

/-- A program emits only calls it can make. -/
theorem Only.emits {φ : Q → Prop} (hp : Only φ p) : Emits keep (fun _ es => ∀ e ∈ es, φ e.1) p := by
  induction p with
  | ret a => simp
  | ask q k ih =>
      intro r
      apply (ih r (hp.2 r)).mono
      intro a es hes
      split
      · simpa using ⟨hp.1, hes⟩
      · exact hes

/-- Sequencing two programs whose emissions are known. -/
theorem Emits.bind {R : α → List (Σ q, A q) → Prop} {S : β → List (Σ q, A q) → Prop}
    (hp : Emits keep R p) (hf : ∀ a es, R a es → Emits keep (fun b fs => S b (es ++ fs)) (f a)) :
    Emits keep S (p >>= f) :=
  emits_bind.mpr (hp.mono hf)

theorem emits_of_forall (h : ∀ a es, S a es) (p : Prog Q A α) : Emits keep S p := by
  induction p generalizing S with
  | ret a => exact h a []
  | ask q k ih => exact fun r => ih r fun a es => h a _

/-- What holds of the result whatever a first program returns. -/
theorem emits_bind_of_forall {S : β → Prop} (hf : ∀ a, Emits keep (fun b _ => S b) (f a)) :
    Emits keep (fun b _ => S b) (p >>= f) := by
  induction p with
  | ret a => exact hf a
  | ask q k ih => exact fun r => ih r

theorem Emits.exec (h : Emits keep S p) (env : List (Σ q, A q) → (q : Q) → A q)
    (t : List (Σ q, A q)) :
    ∃ es, (p.exec env t).2 = t ++ es ∧ S (p.exec env t).1 (es.filter fun e => keep e.1) := by
  induction p generalizing S t with
  | ret a => exact ⟨[], (List.append_nil t).symm, h⟩
  | ask q k ih =>
      obtain ⟨es, ht, hS⟩ := ih (env t q) (h (env t q)) (t ++ [⟨q, env t q⟩])
      refine ⟨⟨q, env t q⟩ :: es, ?_, ?_⟩
      · rw [List.append_cons]
        exact ht
      · rw [List.filter_cons]
        exact hS

theorem Emits.and (h : Emits keep S p) (h' : Emits keep S' p) :
    Emits keep (fun a es => S a es ∧ S' a es) p := by
  induction p generalizing S S' with
  | ret a => exact ⟨h, h'⟩
  | ask q k ih => exact fun r => ih r (h r) (h' r)

theorem Emits.exists [∀ q, Nonempty (A q)] (h : Emits keep S p) : ∃ a es, S a es := by
  induction p generalizing S with
  | ret a => exact ⟨a, [], h⟩
  | ask q k ih =>
      obtain ⟨r⟩ := (inferInstance : Nonempty (A q))
      obtain ⟨a, es, hS⟩ := ih r (h r)
      exact ⟨a, _, hS⟩

/-- A program that emits one call of a kind in every execution meets the monitor that allows
one. -/
theorem Emits.meets_once [∀ q, Nonempty (A q)] {tick : Q → Bool}
    (hkeep : ∀ q, tick q = true → keep q = true) {b : Bool}
    (h : Emits keep (fun _ es => es.countP (fun e => tick e.1) + b.toNat = 1) p) :
    Meets (onceNext tick) (fun _ b => b = true) p b := by
  induction p generalizing b with
  | ret a =>
      have hb : ([] : List (Σ q, A q)).countP (fun e => tick e.1) + b.toNat = 1 := h
      cases b with
      | true => rfl
      | false => simp at hb
  | ask q k ih =>
      intro r
      have hr := h r
      by_cases hq : tick q = true
      · have hcount : Emits keep
            (fun _ es => es.countP (fun e => tick e.1) + 1 + b.toNat = 1) (k r) := by
          apply hr.mono
          intro a es hes
          simpa [hkeep q hq, hq] using hes
        cases b with
        | true =>
            obtain ⟨a, es, hes⟩ := hcount.exists
            simp at hes
        | false =>
            refine ⟨true, by simp [onceNext, hq], ih r ?_⟩
            simpa using hcount
      · refine ⟨b, by simp [onceNext, hq], ih r (hr.mono fun a es hes => ?_)⟩
        cases hkq : keep q <;> simpa [hkq, hq] using hes

/-- A property of the emissions holds of the trace of every execution. -/
theorem Emits.trace (h : Emits keep S p) (env : List (Σ q, A q) → (q : Q) → A q) :
    S (p.exec env []).1 ((p.trace env).filter fun e => keep e.1) := by
  obtain ⟨es, ht, hS⟩ := h.exec env []
  rw [Prog.trace, ht, List.nil_append]
  exact hS

end Emits

/-- `allowed es q` says which calls are in order after the calls `es`, the latest first.
Whatever the answers, the program started after `es` only makes calls that are in order,
and the result and the calls at its end satisfy `post`. -/
def Obeys (allowed : List (Σ q, A q) → Q → Prop) (post : α → List (Σ q, A q) → Prop) :
    Prog Q A α → List (Σ q, A q) → Prop
  | ret a, es => post a es
  | ask q k, es => allowed es q ∧ ∀ r, Obeys allowed post (k r) (⟨q, r⟩ :: es)

section Obeys

variable {allowed : List (Σ q, A q) → Q → Prop} {es : List (Σ q, A q)}
  {post : α → List (Σ q, A q) → Prop}

@[simp] theorem obeys_ret :
    Obeys allowed post (ret a) es ↔ post a es := Iff.rfl

@[simp] theorem obeys_ask :
    Obeys allowed post (ask q k) es ↔
      allowed es q ∧ ∀ r, Obeys allowed post (k r) (⟨q, r⟩ :: es) := Iff.rfl

theorem obeys_bind {post : β → List (Σ q, A q) → Prop} (p : Prog Q A α) (f : α → Prog Q A β)
    (es : List (Σ q, A q)) :
    Obeys allowed post (p >>= f) es ↔
      Obeys allowed (fun a es' => Obeys allowed post (f a) es') p es := by
  induction p generalizing es with
  | ret a => exact Iff.rfl
  | ask q k ih =>
      rw [ask_bind, obeys_ask, obeys_ask]
      exact and_congr_right fun _ => forall_congr' fun r => ih r (⟨q, r⟩ :: es)

theorem Obeys.mono {post' : α → List (Σ q, A q) → Prop} {p : Prog Q A α}
    (h : Obeys allowed post p es) (himp : ∀ a es', post a es' → post' a es') :
    Obeys allowed post' p es := by
  induction p generalizing es with
  | ret a => exact himp a es h
  | ask q k ih => exact ⟨h.1, fun r => ih r (h.2 r)⟩

/-- Calls are only added to those made so far. -/
theorem Obeys.extends {p : Prog Q A α} (h : Obeys allowed post p es) :
    Obeys allowed (fun a es' => post a es' ∧ es <:+ es') p es := by
  induction p generalizing es with
  | ret a => exact ⟨h, List.suffix_rfl⟩
  | ask q k ih =>
      refine ⟨h.1, fun r => (ih r (h.2 r)).mono fun a es' ⟨hpost, hsuffix⟩ => ⟨hpost, ?_⟩⟩
      exact (List.suffix_cons _ _).trans hsuffix

end Obeys

section Interpret

variable {R : Type} {B : R → Type}

/-- Each call is carried out by a program over other calls. -/
def interpret (h : (q : Q) → Prog R B (A q)) : Prog Q A α → Prog R B α
  | ret a => ret a
  | ask q k => (h q).bind fun r => (k r).interpret h

variable {h : (q : Q) → Prog R B (A q)}

@[simp] theorem interpret_ret (a : α) : (ret a : Prog Q A α).interpret h = ret a := rfl

@[simp] theorem interpret_ask (q : Q) (k : A q → Prog Q A α) :
    (ask q k).interpret h = h q >>= fun r => (k r).interpret h := rfl

theorem interpret_call (q : Q) : (call q : Prog Q A (A q)).interpret h = h q :=
  bind_ret (h q)

theorem interpret_bind (p : Prog Q A α) (f : α → Prog Q A β) :
    (p >>= f).interpret h = p.interpret h >>= fun a => (f a).interpret h := by
  induction p with
  | ret a => rfl
  | ask q k ih =>
      rw [ask_bind, interpret_ask, interpret_ask, Prog.bind_assoc]
      congr 1
      funext r
      exact ih r

/-- A program whose calls are carried out by themselves. -/
theorem interpret_interpret_eq_self {g : (r : R) → Prog Q A (B r)}
    (hg : ∀ q, (h q).interpret g = call q) (p : Prog Q A α) : (p.interpret h).interpret g = p := by
  induction p with
  | ret a => rfl
  | ask q k ih =>
      rw [interpret_ask, interpret_bind, hg, call_bind]
      congr 1
      funext r
      exact ih r

theorem Only.interpret {φ : Q → Prop} {ψ : R → Prop} {p : Prog Q A α} (hp : Only φ p)
    (hh : ∀ q, φ q → Only ψ (h q)) : Only ψ (p.interpret h) := by
  induction p with
  | ret a => trivial
  | ask q k ih => exact (hh q hp.1).bind fun r => ih r (hp.2 r)

end Interpret

end Prog

end Interaction
