import Mathlib.Logic.Function.Basic
import Msgin.DispatchEffects

/-!
# The attempt tracker

The in-memory count of delivery attempts per message id, which a consumer falls back to
when a delivery carries no delivery-count header, and how the calls of a routine change it.
-/

namespace Msgin

open Interaction Prog

variable {P T : Type}

structure AttemptEntry where
  count : ℕ
  lastSeen : ℤ
  deriving DecidableEq

structure AttemptTracker where
  m : String → Option AttemptEntry

namespace AttemptTracker

def new : AttemptTracker := ⟨fun _ => none⟩

def count (t : AttemptTracker) (id : String) : ℕ := ((t.m id).map AttemptEntry.count).getD 0

def observe (t : AttemptTracker) (now : ℤ) (id : String) : ℕ × AttemptTracker :=
  (t.count id + 1, ⟨Function.update t.m id (some ⟨t.count id + 1, now⟩)⟩)

def evict (t : AttemptTracker) (id : String) : AttemptTracker :=
  ⟨Function.update t.m id none⟩

theorem count_observe_self (t : AttemptTracker) (now : ℤ) (id : String) :
    (t.observe now id).2.count id = t.count id + 1 := by
  simp [observe, count]

variable {id' id : String} {es : List (Event P T)}

theorem count_observe_of_ne (t : AttemptTracker) (now : ℤ) (h : id' ≠ id) :
    (t.observe now id).2.count id' = t.count id' := by
  simp [observe, count, h]

theorem count_evict_of_ne (t : AttemptTracker) (h : id' ≠ id) :
    (t.evict id).count id' = t.count id' := by
  simp [evict, count, h]

/-- What one returned call does to the tracker. -/
def apply (now : ℤ) (t : AttemptTracker) (e : Event P T) : AttemptTracker :=
  match e.1 with
  | .observe id => (t.observe now id).2
  | .evict id => t.evict id
  | _ => t

def after (now : ℤ) (t : AttemptTracker) (es : List (Event P T)) : AttemptTracker :=
  es.foldl (apply now) t

variable {now : ℤ} {t : AttemptTracker}

theorem after_append (es fs : List (Event P T)) :
    t.after now (es ++ fs) = (t.after now es).after now fs :=
  List.foldl_append

theorem after_eq_self (h : ∀ e ∈ es, ∀ t, apply now t e = t) : t.after now es = t := by
  induction es with
  | nil => rfl
  | cons e es ih =>
      simp only [after, List.foldl_cons, h e List.mem_cons_self]
      exact ih fun e' he' => h e' (List.mem_cons_of_mem e he')

theorem apply_of_isLog {e : Event P T} (h : e.1.isLog = true) : apply now t e = t := by
  obtain ⟨q, r⟩ := e
  cases q <;> simp_all [Call.isLog, apply]

theorem after_effects (es : List (Event P T)) :
    t.after now (es.filter fun e => !e.1.isLog) = t.after now es := by
  induction es generalizing t with
  | nil => rfl
  | cons e es ih =>
      by_cases hlog : e.1.isLog = true
      · simp only [List.filter_cons, hlog, Bool.not_true, Bool.false_eq_true, if_false, after,
          List.foldl_cons, apply_of_isLog hlog]
        exact ih
      · simp only [List.filter_cons, hlog, after, List.foldl_cons]
        exact ih

theorem count_after_of_ne (h : ∀ e ∈ es, ∀ i, e.1 = .observe i ∨ e.1 = .evict i → i = id)
    (hne : id' ≠ id) : (t.after now es).count id' = t.count id' := by
  induction es generalizing t with
  | nil => rfl
  | cons e es ih =>
      have htail := ih (t := apply now t e) fun e' he' => h e' (List.mem_cons_of_mem e he')
      have hhead : (apply now t e).count id' = t.count id' := by
        have hid := h e List.mem_cons_self
        unfold apply
        split
        · next i hi =>
            obtain rfl := hid i (Or.inl hi)
            exact count_observe_of_ne t now hne
        · next i hi =>
            obtain rfl := hid i (Or.inr hi)
            exact count_evict_of_ne t hne
        · rfl
      exact htail.trans hhead

end AttemptTracker

end Msgin
