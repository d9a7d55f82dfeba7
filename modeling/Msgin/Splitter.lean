import Msgin.DecimalSuffix
import Msgin.Errors
import Msgin.Interaction
import Msgin.Message

/-!
# The splitter

`forwardSplit` stamps the children of a message for reassembly and hands them on in order.
The id of a child is made of its parent's id and its position, and tells both.
-/

namespace Msgin

def headerSequenceNumber : String := "msgin.sequence-number"
def headerSequenceSize : String := "msgin.sequence-size"

namespace Message

variable {α β : Type*}

/-- A message with the headers of `m`. -/
def withPayload (m : Message α) (payload : β) : Message β := ⟨payload, m.headers⟩

theorem header_withHeader (m : Message α) (key k : String) (v : HeaderValue) :
    (m.withHeader key v).headers.m k = if k = key then some v else m.headers.m k := rfl

theorem id_of_header {m : Message α} {s : String} (h : m.headers.m headerMessageID = some (.string s)) :
    m.id = s := by
  simp [id, Headers.string, h]

end Message

namespace Routing

open Interaction Prog

variable {α β : Type}

def childID (pid : String) (num : ℕ) : String := pid ++ "#" ++ toString num

def stampSequence (child : Message β) (parent : Message α) (num size : ℕ) : Message β :=
  let out := (child.withHeader headerSequenceNumber (.int num)).withHeader headerSequenceSize
    (.int size)
  let pid := parent.id
  if pid ≠ "" then
    let out := out.withHeader headerMessageID (.string (childID pid num))
    match out.headers.m headerCorrelationID with
    | none => out.withHeader headerCorrelationID (.string pid)
    | some _ => out
  else out

/-- The loop of `forwardSplit` from position `i`. -/
def forwardFrom (parent : Message α) (n i : ℕ) :
    List (Message β) → Prog (Message β) (fun _ => Option Err) (Option Err)
  | [] => return none
  | child :: rest => do
    match ← Prog.call (stampSequence child parent (i + 1) n) with
    | some err => return some err
    | none => forwardFrom parent n (i + 1) rest

/-- The calls are those of `next.Handle`. -/
def forwardSplit (parent : Message α) (children : List (Message β)) :
    Prog (Message β) (fun _ => Option Err) (Option Err) :=
  forwardFrom parent children.length 0 children

def stampedFrom (parent : Message α) (n i : ℕ) : List (Message β) → List (Message β)
  | [] => []
  | child :: rest => stampSequence child parent (i + 1) n :: stampedFrom parent n (i + 1) rest

def stampedChildren (parent : Message α) (children : List (Message β)) : List (Message β) :=
  stampedFrom parent children.length 0 children

theorem childID_inj {p q : String} {m n : ℕ} (h : childID p m = childID q n) : p = q ∧ m = n :=
  DecimalSuffix.append_toString_inj (c := '#') (by decide) h

theorem childID_injective : Function.Injective fun p : String × ℕ => childID p.1 p.2 := by
  rintro ⟨p, m⟩ ⟨q, n⟩ h
  obtain ⟨rfl, rfl⟩ := childID_inj h
  rfl

theorem emits_forwardFrom (parent : Message α) (n i : ℕ) (children : List (Message β)) :
    Emits (fun _ => true) (fun r es => es.map Sigma.fst <+: stampedFrom parent n i children ∧
      (r = none → es.map Sigma.fst = stampedFrom parent n i children))
      (forwardFrom parent n i children) := by
  induction children generalizing i with
  | nil => exact ⟨List.nil_prefix, fun _ => rfl⟩
  | cons child rest ih =>
      simp only [forwardFrom, call_bind]
      intro r
      cases r with
      | some err =>
          refine ⟨?_, by simp⟩
          exact List.prefix_append_right_inj [stampSequence child parent (i + 1) n] |>.mpr
            List.nil_prefix
      | none =>
          apply (ih (i + 1)).mono
          intro r es hes
          constructor
          · exact (List.prefix_cons_inj _).mpr hes.1
          · intro hr
            exact congrArg (List.cons _) (hes.2 hr)

theorem emits_forwardSplit (parent : Message α) (children : List (Message β)) :
    Emits (fun _ => true) (fun r es => es.map Sigma.fst <+: stampedChildren parent children ∧
      (r = none → es.map Sigma.fst = stampedChildren parent children))
      (forwardSplit parent children) :=
  emits_forwardFrom parent children.length 0 children

section Stamped

variable {parent : Message α} {child : Message β} {num size : ℕ}

theorem id_stampSequence (hpid : parent.id ≠ "") :
    (stampSequence child parent num size).id = childID parent.id num := by
  apply Message.id_of_header
  simp only [stampSequence, if_pos hpid]
  split <;> simp [Message.header_withHeader, headerMessageID, headerCorrelationID]

theorem size_stampSequence (child : Message β) (parent : Message α) (num size : ℕ) :
    (stampSequence child parent num size).headers.m headerSequenceSize = some (.int size) := by
  simp only [stampSequence]
  split
  · split <;>
      simp [Message.header_withHeader, headerMessageID, headerCorrelationID, headerSequenceSize]
  · simp [Message.header_withHeader]

theorem correlation_stampSequence (hpid : parent.id ≠ "") :
    (stampSequence child parent num size).headers.m headerCorrelationID =
      some ((child.headers.m headerCorrelationID).getD (.string parent.id)) := by
  have hkept : (((child.withHeader headerSequenceNumber (.int num)).withHeader headerSequenceSize
      (.int size)).withHeader headerMessageID (.string (childID parent.id num))).headers.m
        headerCorrelationID = child.headers.m headerCorrelationID := by
    simp [Message.header_withHeader, headerMessageID, headerCorrelationID, headerSequenceSize,
      headerSequenceNumber]
  simp only [stampSequence, if_pos hpid]
  split
  · next hnone => rw [Message.header_withHeader, if_pos rfl, ← hkept, hnone, Option.getD_none]
  · next v hv => rw [hv, ← hkept, hv, Option.getD_some]

theorem mem_stampedFrom {n i : ℕ} {children : List (Message β)} {m : Message β} :
    m ∈ stampedFrom parent n i children ↔
      ∃ j child, children[j]? = some child ∧ m = stampSequence child parent (i + j + 1) n := by
  induction children generalizing i with
  | nil => simp [stampedFrom]
  | cons c rest ih =>
      rw [stampedFrom, List.mem_cons, ih]
      constructor
      · rintro (rfl | ⟨j, child, hj, rfl⟩)
        · exact ⟨0, c, rfl, rfl⟩
        · exact ⟨j + 1, child, hj, by rw [Nat.add_right_comm i 1 j, Nat.add_assoc i j 1]⟩
      · rintro ⟨j, child, hj, rfl⟩
        cases j with
        | zero =>
            obtain rfl : c = child := by simpa using hj
            exact Or.inl rfl
        | succ j => exact Or.inr ⟨j, child, hj, by rw [Nat.add_right_comm i 1 j, Nat.add_assoc i j 1]⟩

theorem length_stampedFrom (parent : Message α) (n i : ℕ) (children : List (Message β)) :
    (stampedFrom parent n i children).length = children.length := by
  induction children generalizing i with
  | nil => rfl
  | cons child rest ih => simp [stampedFrom, ih]

theorem mem_stampedChildren {children : List (Message β)} {m : Message β} :
    m ∈ stampedChildren parent children ↔ ∃ j child, children[j]? = some child ∧
      m = stampSequence child parent (j + 1) children.length := by
  simp [stampedChildren, mem_stampedFrom]

theorem length_stampedChildren (parent : Message α) (children : List (Message β)) :
    (stampedChildren parent children).length = children.length :=
  length_stampedFrom _ _ _ _

theorem nodup_ids_stampedFrom (hpid : parent.id ≠ "") (n i : ℕ) (children : List (Message β)) :
    ((stampedFrom parent n i children).map Message.id).Nodup := by
  induction children generalizing i with
  | nil => exact List.nodup_nil
  | cons child rest ih =>
      rw [stampedFrom, List.map_cons, List.nodup_cons]
      refine ⟨?_, ih (i + 1)⟩
      intro hmem
      obtain ⟨m, hm, hid⟩ := List.mem_map.mp hmem
      obtain ⟨j, c, -, rfl⟩ := mem_stampedFrom.mp hm
      rw [id_stampSequence hpid, id_stampSequence hpid] at hid
      have hnum := (childID_inj hid).2
      omega

end Stamped

end Routing

end Msgin
