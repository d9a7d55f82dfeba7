import Msgin.Aggregator
import Msgin.Splitter

/-!
# The aggregator with its default strategies

`defaultCorrelate` and `defaultRelease`, what they say of the children of one split message,
and the runs in which no collaborator of the aggregator fails.
-/

namespace Msgin.Routing

open Interaction Prog Memory

variable {P : Type}

def defaultCorrelate (m : Message P) : Except Err String :=
  match m.headers.string headerCorrelationID with
  | some s => if s ≠ "" then .ok s else .error (.permanent (.sentinel .errNoCorrelation))
  | none => .error (.permanent (.sentinel .errNoCorrelation))

theorem defaultCorrelate_of_header {m : Message P} {s : String}
    (h : m.headers.m headerCorrelationID = some (.string s)) (hs : s ≠ "") :
    defaultCorrelate m = .ok s := by
  simp [defaultCorrelate, Headers.string, h, hs]

/-- `foreign` is the int value of a header that holds an `int64` or a `float64`. -/
def asInt (foreign : ℕ → Option ℤ) : Option HeaderValue → Option ℤ
  | some (.int n) => some n
  | some (.other tag) => foreign tag
  | _ => none

def firstHeader (m : Member P) (key : String) : Option HeaderValue := m.msg.headers.m key

/-- Its error is always nil. -/
def defaultRelease (foreign : ℕ → Option ℤ) (g : Snapshot P) : Bool :=
  match g.msgs with
  | [] => false
  | m :: _ => (asInt foreign (firstHeader m headerSequenceSize)).any fun size =>
      size ≤ (g.msgs.length : ℤ)

structure SplitJob (P : Type) where
  parent : Message P
  children : List (Message P)
  identified : parent.id ≠ ""
  nonempty : children ≠ []

namespace SplitJob

variable (J : SplitJob P)

def size : ℕ := J.children.length

def stamped : List (Message P) := stampedChildren J.parent J.children

theorem size_pos : 0 < J.size := List.length_pos_of_ne_nil J.nonempty

theorem length_stamped : J.stamped.length = J.size := length_stampedChildren _ _

theorem nodup_ids : (J.stamped.map Message.id).Nodup :=
  nodup_ids_stampedFrom J.identified _ _ _

variable {J} {m m' : Message P}

theorem eq_of_id (hm : m ∈ J.stamped) (hm' : m' ∈ J.stamped) (hid : m.id = m'.id) : m = m' :=
  List.inj_on_of_nodup_map J.nodup_ids hm hm' hid

theorem id_ne_empty (hm : m ∈ J.stamped) : m.id ≠ "" := by
  obtain ⟨j, child, -, rfl⟩ := mem_stampedChildren.mp hm
  rw [id_stampSequence J.identified]
  intro hempty
  have hlength := congrArg String.length hempty
  simp [childID] at hlength

theorem sequenceSize (hm : m ∈ J.stamped) : m.headers.m headerSequenceSize = some (.int J.size) := by
  obtain ⟨j, child, -, rfl⟩ := mem_stampedChildren.mp hm
  exact size_stampSequence _ _ _ _

end SplitJob

/-- All members are stamped children of `J`, and no child is a member twice. -/
structure Collected (J : SplitJob P) (ms : List (Member P)) : Prop where
  stamped : ∀ m ∈ ms, m.msg ∈ J.stamped
  nodup : (ms.map Member.msg).Nodup

section Collected

variable {J : SplitJob P} {ms : List (Member P)}

theorem Collected.perm (h : Collected J ms) (hsize : J.size ≤ ms.length) :
    (ms.map Member.msg).Perm J.stamped := by
  have hsub : ms.map Member.msg ⊆ J.stamped := by
    intro msg hmsg
    obtain ⟨m, hm, rfl⟩ := List.mem_map.mp hmsg
    exact h.stamped m hm
  apply (h.nodup.subperm hsub).perm_of_length_le
  simpa [SplitJob.length_stamped] using hsize

theorem Collected.append (h : Collected J ms) {m : Member P} (hm : m.msg ∈ J.stamped)
    (hnew : m.msg ∉ ms.map Member.msg) : Collected J (ms ++ [m]) where
  stamped m' hm' := by
    rcases List.mem_append.mp hm' with hold | hlast
    · exact h.stamped m' hold
    · obtain rfl := List.mem_singleton.mp hlast
      exact hm
  nodup := by
    rw [List.map_append, List.map_singleton, ← List.concat_eq_append]
    exact h.nodup.concat hnew

theorem Collected.release_iff (h : Collected J ms) (foreign : ℕ → Option ℤ) (key : String)
    (createdAt : ℤ) : defaultRelease foreign ⟨key, ms, createdAt⟩ = true ↔ J.size ≤ ms.length := by
  cases ms with
  | nil => simpa [defaultRelease] using J.size_pos.ne'
  | cons m ms =>
      have hfirst := SplitJob.sequenceSize (h.stamped m List.mem_cons_self)
      simp only [defaultRelease, firstHeader, hfirst, asInt, Option.any_some, decide_eq_true_eq,
        Nat.cast_le]

end Collected

/-- Split messages whose children are correlated under distinct keys. -/
structure Batch (correlate : Message P → Except Err String) where
  jobs : List (SplitJob P)
  key : SplitJob P → String
  correlates : ∀ J ∈ jobs, ∀ m ∈ J.stamped, correlate m = .ok (key J)
  distinct : (jobs.map key).Nodup

theorem Batch.eq_of_key {correlate : Message P → Except Err String} (B : Batch correlate)
    {J J' : SplitJob P} (hJ : J ∈ B.jobs) (hJ' : J' ∈ B.jobs)
    (hkey : B.key J = B.key J') : J = J' :=
  List.inj_on_of_nodup_map B.distinct hJ hJ' hkey

/-- The correlation strategy is `correlate`, the release strategy is the default, and nothing
fails. -/
structure Smooth (correlate : Message P → Except Err String) (foreign : ℕ → Option ℤ)
    (choice : AggregatorChoice P) : Prop where
  assert : ∀ msg, choice.answer (.assert msg) = none
  correlate : ∀ msg, choice.answer (.correlate msg) = .returned (correlate msg)
  release : ∀ group, choice.answer (.release group) = .returned (defaultRelease foreign group, none)
  aggregate : ∀ msgs, ∃ out, choice.answer (.aggregate msgs) = .returned (.ok out)
  send : ∀ out, choice.answer (.send out) = .returned none

/-- The members that were aggregated into an output, at the step in which the output channel
accepts it. -/
def emitted (s : AggregatorState P) : AggregatorLabel P → Option (List (Member P))
  | .proceed t choice =>
    match s.goroutines t with
    | some ⟨_, .ask (.send out) _, ⟨.aggregate msgs, _⟩ :: _⟩ =>
      match choice.answer (.send out) with
      | .returned none => some msgs
      | _ => none
    | _ => none
  | _ => none

end Msgin.Routing
