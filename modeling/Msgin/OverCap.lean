import Msgin.Aggregator

/-!
# A member over the cap

`Handle` for a member that the store refuses with `ErrOverflowDropped`. The member is not stored,
so `Handle` must not return nil; and once the group was claimed the error must not be permanent,
whatever the release ran into. The store, the strategy, the aggregate function and the output
channel answer as they like here.
-/

namespace Msgin.Routing

open Interaction Prog Memory

variable {P : Type}

/-- A goroutine that goes on from the head of a loop up to `n` times. -/
def complete : ℕ → AggregatorRoutine P (Control P) → AggregatorRoutine P (Control P)
  | 0, p => p
  | n + 1, p => do
    let c ← p
    match c.code with
    | none => return c
    | some code => complete n code

def isAdd : AggregatorEvent P → Bool
  | ⟨.add _ _, _⟩ => true
  | _ => false

def isDecision : AggregatorEvent P → Bool
  | ⟨.release _, _⟩ => true
  | _ => false

/-- What `Handle` may return for a member that the store refused with `err`, after the calls
`es`. -/
structure OverCapLaw (err e : Err) (es : List (AggregatorEvent P)) : Prop where
  dropped : e.is .errOverflowDropped = true ∨ ∃ key, ⟨.claimGroup key, .error e⟩ ∈ es
  transient : (∃ key claim, ⟨.claimGroup key, .ok claim⟩ ∈ es) → isPermanent (some e) = false
  declined : ∀ group, es.find? isDecision = some ⟨.release group, .returned (false, none)⟩ →
    e = err

theorem is_overflowRetryable (key reason : String) :
    (overflowRetryable key reason).is .errOverflowDropped = true := rfl

theorem isPermanent_overflowRetryable (key reason : String) :
    isPermanent (some (overflowRetryable key reason)) = false := rfl

theorem emits_issue_bind {α : Type} {q : AggregatorCall P}
    {f : q.Answer → AggregatorRoutine P α} {S : α → List (AggregatorEvent P) → Prop} :
    Emits (fun _ => true) S (issue q >>= f) ↔
      ∀ r, Emits (fun _ => true) (fun a es => S a (⟨q, r⟩ :: es)) (f r) := by
  simp only [issue, call_bind, emits_ask, if_true]

/-- Where the release of a claim can lead that `Handle` took for a refused member. -/
inductive RetriesLater (key : String) : Control P → Prop
  | returns (reason : String) :
      RetriesLater key (.handled (.returned (some (overflowRetryable key reason))))
  | unwinds (r : String) : RetriesLater key (.handled (.panicked r))
  | drains (k : String) : RetriesLater key (.draining k (.refused key))

theorem retriesLater_returned (key : String) (err : Option Err) :
    RetriesLater key ((ReleaseSite.refused key).returned err : Control P) := by
  cases err with
  | none => exact .returns _
  | some relErr => exact .returns _

theorem emits_release (site : ReleaseSite P) (claim : ClaimGroup P) :
    Emits (fun _ => true)
      (fun c _ => (∃ err, c = site.returned (some err)) ∨ (∃ r, c = site.panicked r) ∨
        c = .draining claim.key site) (release site claim) := by
  apply emits_bind_of_forall
  intro o
  rcases o with (_ | err) | r
  · exact .inr (.inr rfl)
  · exact .inl ⟨err, rfl⟩
  · exact .inr (.inl ⟨r, rfl⟩)

theorem emits_drain_refused (k key : String) :
    Emits (fun _ => true) (fun c _ => RetriesLater key c)
      (drain k (.refused key) : AggregatorRoutine P (Control P)) := by
  apply emits_bind_of_forall
  intro claimed
  rcases claimed with cerr | _ | next
  · exact retriesLater_returned key none
  · exact retriesLater_returned key none
  · apply emits_bind_of_forall
    intro decided
    have habandoned : Emits (fun _ => true) (fun (c : Control P) _ => RetriesLater key c)
        (issue (.abandonGroup next) >>= fun _ => return (ReleaseSite.refused key).returned none) :=
      emits_bind_of_forall fun _ => retriesLater_returned key none
    rcases decided with ⟨ok, rerr⟩ | r
    · rcases ok with _ | _
      · exact habandoned
      · rcases rerr with _ | rerr
        · apply emits_bind_of_forall
          intro o
          rcases o with (_ | err) | r
          · exact .drains k
          · exact retriesLater_returned key none
          · exact .unwinds r
        · exact habandoned
    · exact .unwinds r

theorem emits_complete {key : String} (n : ℕ) {p : AggregatorRoutine P (Control P)}
    (hp : Emits (fun _ => true) (fun c _ => RetriesLater key c) p) :
    Emits (fun _ => true) (fun c _ => RetriesLater key c) (complete n p) := by
  induction n generalizing p with
  | zero => exact hp
  | succ n ih =>
      refine hp.bind fun c _ hc => ?_
      cases hc with
      | returns reason => exact .returns reason
      | unwinds r => exact .unwinds r
      | drains k => exact ih (emits_drain_refused k key)

/-- `Handle` is answered as the law says, if its message was refused over the cap. -/
def AnsweredOverCap (msg : Message P) (c : Control P) (es : List (AggregatorEvent P)) : Prop :=
  ∀ key group err o, es.find? isAdd = some ⟨.add key msg, (group, some err)⟩ →
    err.is .errOverflowDropped = true → c = .handled (.returned o) →
    ∃ e, o = some e ∧ OverCapLaw err e es

/-- Where `handle` stops for the first time. At the head of the drain loop the store has
answered, and for a refused member the strategy has accepted the group. -/
inductive HandleStops (msg : Message P) : Control P → List (AggregatorEvent P) → Prop
  | answered {o : Outcome (Option Err)} {es : List (AggregatorEvent P)}
      (h : AnsweredOverCap msg (.handled o) es) : HandleStops msg (.handled o) es
  | stored (k : String) {key : String} {group : Option (Snapshot P)}
      {es : List (AggregatorEvent P)}
      (hadd : es.find? isAdd = some ⟨.add key msg, (group, none)⟩) :
      HandleStops msg (.draining k .member) es
  | refused (k key : String) {a : Option (Snapshot P) × Option Err} {group : Snapshot P}
      {es : List (AggregatorEvent P)} (hadd : es.find? isAdd = some ⟨.add key msg, a⟩)
      (hok : es.find? isDecision = some ⟨.release group, .returned (true, none)⟩) :
      HandleStops msg (.draining k (.refused key)) es

variable {msg : Message P} {key : String} {err e : Err} {es : List (AggregatorEvent P)}

theorem answeredOverCap_panicked (r : String) :
    AnsweredOverCap msg (.handled (.panicked r)) es := by
  rintro key group err o - - ⟨⟩

theorem answeredOverCap_of_find? {o : Outcome (Option Err)}
    (hadd : ∀ a, es.find? isAdd = some a → ∃ key group, a = ⟨.add key msg, (group, none)⟩) :
    AnsweredOverCap msg (.handled o) es := by
  intro key group err o' hfound
  obtain ⟨key', group', heq⟩ := hadd _ hfound
  cases heq

theorem answeredOverCap_of_law {group : Option (Snapshot P)}
    (hadd : es.find? isAdd = some ⟨.add key msg, (group, some err)⟩)
    (hlaw : err.is .errOverflowDropped = true → OverCapLaw err e es) :
    AnsweredOverCap msg (.handled (.returned (some e))) es := by
  intro key' group' err' o hfound hover ho
  rw [hadd] at hfound
  cases hfound
  cases ho
  exact ⟨e, rfl, hlaw hover⟩

theorem overCapLaw_overflowRetryable (reason : String) {group : Snapshot P}
    (hok : es.find? isDecision = some ⟨.release group, .returned (true, none)⟩) :
    OverCapLaw err (overflowRetryable key reason) es := by
  refine ⟨.inl (is_overflowRetryable key reason),
    fun _ => isPermanent_overflowRetryable key reason, fun group' hdeclined => ?_⟩
  rw [hok] at hdeclined
  cases hdeclined

/-- The calls of `handle` up to the answer of the store. -/
def addedCalls (msg : Message P) (key : String) (a : Option (Snapshot P) × Option Err) :
    List (AggregatorEvent P) :=
  [⟨.assert msg, none⟩, ⟨.correlate msg, .returned (.ok key)⟩, ⟨.add key msg, a⟩]

theorem overCapLaw_self (hover : err.is .errOverflowDropped = true)
    (hclaim : ∀ key claim, ⟨.claimGroup key, .ok claim⟩ ∉ es) : OverCapLaw err err es :=
  ⟨.inl hover, fun ⟨key, claim, h⟩ => absurd h (hclaim key claim), fun _ _ => rfl⟩

theorem emits_handleRefused (group : Snapshot P) :
    Emits (fun _ => true)
      (fun c es => HandleStops msg c (addedCalls msg key (some group, some err) ++ es))
      (handleRefused key group err) := by
  rw [handleRefused, emits_issue_bind]
  intro decided
  rcases decided with ⟨ok, rerr⟩ | r
  · rcases rerr with _ | rerr
    · rcases ok with _ | _
      · refine .answered (answeredOverCap_of_law rfl fun hover => overCapLaw_self hover ?_)
        simp [addedCalls]
      · rw [emits_issue_bind]
        intro claimed
        rcases claimed with cerr | _ | claim
        · refine .answered (answeredOverCap_of_law rfl fun _ => ⟨.inr ⟨key, ?_⟩, ?_, ?_⟩)
          · simp [addedCalls]
          · rintro ⟨k, claim, hmem⟩
            simp [addedCalls] at hmem
          · rintro group' ⟨⟩
        · exact .answered (answeredOverCap_of_law rfl fun _ =>
            overCapLaw_overflowRetryable _ rfl)
        · refine (emits_release _ claim).mono fun c es hc => ?_
          rcases hc with ⟨relErr, rfl⟩ | ⟨r, rfl⟩ | rfl
          · exact .answered (answeredOverCap_of_law rfl fun _ =>
              overCapLaw_overflowRetryable _ rfl)
          · exact .answered (answeredOverCap_panicked r)
          · exact .refused claim.key key rfl rfl
    · refine .answered (answeredOverCap_of_law rfl fun hover => ⟨.inl ?_, ?_, ?_⟩)
      · rw [Err.is, hover]
        rfl
      · rintro ⟨k, claim, hmem⟩
        simp [addedCalls] at hmem
      · rintro group' ⟨⟩
  · exact .answered (answeredOverCap_panicked r)

theorem emits_handleStored (group : Snapshot P) :
    Emits (fun _ => true)
      (fun c es => HandleStops msg c (addedCalls msg key (some group, none) ++ es))
      (handleStored key group) := by
  have hanswered : ∀ (o : Outcome (Option Err)) (es : List (AggregatorEvent P)),
      HandleStops msg (.handled o) (addedCalls msg key (some group, none) ++ es) := by
    intro o es
    refine .answered (answeredOverCap_of_find? ?_)
    rintro a ⟨⟩
    exact ⟨key, some group, rfl⟩
  rw [handleStored, emits_issue_bind]
  intro decided
  rcases decided with ⟨ok, err⟩ | r
  · rcases err with _ | err
    · rcases ok with _ | _
      · exact hanswered _ _
      · rw [emits_issue_bind]
        intro claimed
        rcases claimed with err | _ | claim
        · exact hanswered _ _
        · exact hanswered _ _
        · refine (emits_release .member claim).mono fun c es hc => ?_
          rcases hc with ⟨relErr, rfl⟩ | ⟨r, rfl⟩ | rfl
          · exact hanswered _ _
          · exact hanswered _ _
          · exact .stored claim.key rfl
    · exact hanswered _ _
  · exact hanswered _ _

theorem emits_handle (msg : Message P) : Emits (fun _ => true) (HandleStops msg) (handle msg) := by
  have hunasked : ∀ (o : Outcome (Option Err)) (es : List (AggregatorEvent P)),
      es.find? isAdd = none → HandleStops msg (.handled o) es := by
    intro o es hnone
    refine .answered (answeredOverCap_of_find? ?_)
    intro a ha
    rw [hnone] at ha
    cases ha
  rw [handle, emits_issue_bind]
  intro asserted
  rcases asserted with _ | err
  · rw [emits_issue_bind]
    intro correlated
    rcases correlated with (err | key) | r
    · exact hunasked _ _ rfl
    · rw [emits_issue_bind]
      intro added
      rcases added with ⟨_ | group, _ | err⟩
      · refine .answered (answeredOverCap_of_find? ?_)
        rintro a ⟨⟩
        exact ⟨key, none, rfl⟩
      · refine .answered (answeredOverCap_of_law rfl fun hover => overCapLaw_self hover ?_)
        simp
      · exact emits_handleStored group
      · dsimp only
        split
        · refine .answered (answeredOverCap_of_law rfl fun hover => overCapLaw_self hover ?_)
          simp
        · exact emits_handleRefused group
    · exact hunasked _ _ rfl
  · exact hunasked _ _ rfl

theorem find?_append_of_eq_some {α : Type} {p : α → Bool} {xs : List α} {x : α}
    (h : xs.find? p = some x) (ys : List α) : (xs ++ ys).find? p = some x := by
  rw [List.find?_append, h, Option.some_or]

theorem emits_complete_handle (msg : Message P) (n : ℕ) :
    Emits (fun _ => true) (AnsweredOverCap msg) (complete n (handle msg)) := by
  cases n with
  | zero =>
      refine (emits_handle msg).mono fun c es hc => ?_
      cases hc with
      | answered h => exact h
      | stored k hadd => rintro key group err o - - ⟨⟩
      | refused k key hadd hok => rintro key' group err o - - ⟨⟩
  | succ n =>
      refine (emits_handle msg).bind fun c es hc => ?_
      cases hc with
      | answered h =>
          refine emits_ret.mpr ?_
          rwa [List.append_nil]
      | stored k hadd =>
          refine emits_of_forall (fun c fs => ?_) _
          intro key' group' err' o hfound
          rw [find?_append_of_eq_some hadd] at hfound
          cases hfound
      | @refused k key a group es hadd hok =>
          refine (emits_complete n (emits_drain_refused k key)).mono fun c fs hc => ?_
          intro key' group' err' o hfound hover ho
          cases hc with
          | returns reason =>
              cases ho
              exact ⟨_, rfl, overCapLaw_overflowRetryable reason (find?_append_of_eq_some hok fs)⟩
          | unwinds r => cases ho
          | drains k' => cases ho

/-- A `Handle` whose message the store refuses over the cap. -/
theorem handle_overCap (msg : Message P)
    (env : List (AggregatorEvent P) → (q : AggregatorCall P) → q.Answer) (n : ℕ) {key : String}
    {group : Option (Snapshot P)} {err : Err} {o : Option Err}
    (hadd : ((complete n (handle msg)).trace env).find? isAdd =
      some ⟨.add key msg, (group, some err)⟩)
    (hover : err.is .errOverflowDropped = true)
    (hret : ((complete n (handle msg)).exec env []).1 = .handled (.returned o)) :
    ∃ e, o = some e ∧ OverCapLaw err e ((complete n (handle msg)).trace env) := by
  have hanswered := (emits_complete_handle msg n).trace env
  rw [List.filter_true] at hanswered
  exact hanswered key group err o hadd hover hret

def fullStore : List (AggregatorEvent Unit) → (q : AggregatorCall Unit) → q.Answer
  | _, .assert _ => none
  | _, .correlate _ => .returned (.ok "orders")
  | _, .add key msg =>
      (some ⟨key, [⟨0, msg⟩], 0⟩, some (.permanent (.sentinel .errOverflowDropped)))
  | _, .release _ => .returned (true, none)
  | _, .claimGroup key => .ok (some ⟨⟨key, [⟨0, blankMessage⟩], 0⟩, 1⟩)
  | _, .aggregate _ => .returned (.error (.sentinel .errPayloadTooLarge))
  | _, .send _ => .returned none
  | _, .settleGroup _ => none
  | _, .abandonGroup _ => none
  | _, .now => 0
  | _, .expired _ => .ok []
  | _, .sendExpired _ => .returned none

theorem handle_overCap_fullStore :
    ∃ o e, ((complete 3 (handle blankMessage)).exec fullStore []).1 = .handled (.returned o) ∧
      o = some e ∧ OverCapLaw (.permanent (.sentinel .errOverflowDropped)) e
        ((complete 3 (handle blankMessage)).trace fullStore) := by
  obtain ⟨o, ho⟩ : ∃ o, ((complete 3 (handle blankMessage)).exec fullStore []).1 =
      .handled (.returned o) := ⟨_, rfl⟩
  obtain ⟨e, he, hlaw⟩ := handle_overCap blankMessage fullStore 3 rfl rfl ho
  exact ⟨o, e, ho, he, hlaw⟩

end Msgin.Routing
