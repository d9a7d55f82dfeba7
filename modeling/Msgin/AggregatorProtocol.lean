import Msgin.AggregatorLeases

/-!
# The claim protocol of the aggregator

What every goroutine of the aggregator observes, whatever it is answered. It settles or
abandons only the claim it holds, and settles that only once the claim's members were
aggregated and the output channel took the result, or the expired channel took each of them.
A `Handle` call returns nil only after the store accepted its message.
-/

namespace Msgin.Routing

open Interaction Prog Memory

variable {P : Type}

/-- The claim that a goroutine holds after the calls `es`: a settle that failed leaves it. -/
def held : List (AggregatorEvent P) → Option (ClaimGroup P) := claimAfter Option.isNone

theorem held_cons (e : AggregatorEvent P) (es : List (AggregatorEvent P)) :
    held (e :: es) = e.hold Option.isNone (held es) := rfl

def expiredSends (ms : List (Member P)) : List (AggregatorEvent P) :=
  ms.map fun m => ⟨.sendExpired m, .returned none⟩

/-- The last of the calls `es` delivered all members of the claim. -/
inductive Delivered (claim : ClaimGroup P) : List (AggregatorEvent P) → Prop
  | aggregated (out : Message P) (es : List (AggregatorEvent P)) :
      Delivered claim (⟨.send out, .returned none⟩ ::
        ⟨.aggregate claim.msgs, .returned (.ok out)⟩ :: es)
  | expired (es : List (AggregatorEvent P)) :
      Delivered claim (expiredSends claim.msgs.reverse ++ es)

def Allowed (es : List (AggregatorEvent P)) : AggregatorCall P → Prop
  | .settleGroup claim => held es = some claim ∧ Delivered claim es
  | .abandonGroup claim => held es = some claim
  | _ => True

def Added (msg : Message P) (es : List (AggregatorEvent P)) : Prop :=
  ∃ key group, ⟨.add key msg, (group, none)⟩ ∈ es

/-- A goroutine that returns nil, or can only do so, had its message accepted. -/
def Acked (given : Option (Message P)) : Control P → List (AggregatorEvent P) → Prop
  | .handled (.returned none), es | .draining _ .member, es => ∀ msg ∈ given, Added msg es
  | _, _ => True

section Protocol

variable {given : Option (Message P)} {es es' : List (AggregatorEvent P)} {claim : ClaimGroup P}
  {c : Control P} {key : String} {site : ReleaseSite P}

theorem Acked.mono (h : Acked given c es) (hes : es <:+ es') : Acked given c es' := by
  have hadded : (∀ msg ∈ given, Added msg es) → ∀ msg ∈ given, Added msg es' := by
    intro hadd msg hmsg
    obtain ⟨key, group, hmem⟩ := hadd msg hmsg
    exact ⟨key, group, hes.subset hmem⟩
  unfold Acked at h ⊢
  split at h
  · exact hadded h
  · exact hadded h
  · trivial

theorem Acked.returned_none (h : Acked given (.draining key site) es) :
    Acked given (site.returned none) es := by
  cases site with
  | member => exact h
  | refused k => trivial
  | sweep rest cutoff => trivial

theorem acked_returned_some (err : Err) : Acked given (site.returned (some err)) es := by
  cases site <;> trivial

theorem acked_panicked (r : String) : Acked given (site.panicked r) es := by
  cases site <;> trivial

theorem obeys_settleReleased (h : held es = some claim) :
    Obeys Allowed (fun o es' => o = .returned none ∨ held es' = some claim)
      (settleReleased claim) es := by
  simp only [settleReleased, issue, call_bind]
  refine ⟨trivial, fun agg => ?_⟩
  rcases agg with (aggErr | out) | r
  · exact Or.inr h
  · refine ⟨trivial, fun sent => ?_⟩
    rcases sent with (_ | sendErr) | r
    · refine ⟨⟨h, .aggregated out es⟩, fun settled => ?_⟩
      cases settled with
      | none => exact Or.inl rfl
      | some err => exact Or.inr h
    · exact Or.inr h
    · exact Or.inr h
  · exact Or.inr h

theorem obeys_releaseOnce (h : held es = some claim) :
    Obeys Allowed (fun _ es' => es <:+ es') (releaseOnce claim) es := by
  have hobeys : Obeys Allowed (fun _ _ => True) (releaseOnce claim) es := by
    rw [releaseOnce, obeys_bind]
    apply (obeys_settleReleased h).mono
    intro o es' ho
    split
    · trivial
    · next hfailed => exact ⟨ho.resolve_left hfailed, fun _ => trivial⟩
  exact hobeys.extends.mono fun _ _ hsuffix => hsuffix.2

theorem obeys_release (h : held es = some claim) (hacked : Acked given (.draining claim.key site) es) :
    Obeys Allowed (Acked given) (release site claim) es := by
  rw [release, obeys_bind]
  apply (obeys_releaseOnce h).mono
  intro o es' hes
  rcases o with (_ | err) | r
  · exact hacked.mono hes
  · exact acked_returned_some err
  · exact acked_panicked r

theorem obeys_drain (hacked : Acked given (.draining key site) es) :
    Obeys Allowed (Acked given) (drain key site) es := by
  have hreturned {es' : List (AggregatorEvent P)} (hes : es <:+ es') :
      Acked given (site.returned none) es' :=
    (hacked.mono hes).returned_none
  simp only [drain, issue, call_bind]
  refine ⟨trivial, fun claimed => ?_⟩
  rcases claimed with cerr | _ | next
  · exact hreturned (List.suffix_cons _ _)
  · exact hreturned (List.suffix_cons _ _)
  · refine ⟨trivial, fun decided => ?_⟩
    have hes : es <:+ ⟨.release next.toSnapshot, decided⟩ ::
        ⟨.claimGroup key, .ok (some next)⟩ :: es :=
      (List.suffix_cons _ _).trans (List.suffix_cons _ _)
    have hheld : held (⟨.release next.toSnapshot, decided⟩ ::
        ⟨.claimGroup key, .ok (some next)⟩ :: es) = some next := rfl
    have habandoned : Obeys Allowed (Acked given)
        (.ask (.abandonGroup next) fun _ => .ret (site.returned none)) _ :=
      ⟨hheld, fun _ => hreturned (hes.trans (List.suffix_cons _ _))⟩
    rcases decided with ⟨ok, rerr⟩ | r
    · cases ok with
      | false => exact habandoned
      | true =>
          cases rerr with
          | some rerr => exact habandoned
          | none =>
              refine (obeys_bind _ _ _).mpr ((obeys_releaseOnce hheld).mono ?_)
              intro o es' hes'
              rcases o with (_ | err) | r
              · exact hacked.mono (hes.trans hes')
              · exact hreturned (hes.trans hes')
              · exact acked_panicked r
    · exact acked_panicked r

theorem obeys_handleRefused (key : String) (group : Snapshot P) (err : Err) :
    Obeys Allowed (Acked given) (handleRefused key group err) es := by
  simp only [handleRefused, issue, call_bind]
  refine ⟨trivial, fun decided => ?_⟩
  rcases decided with ⟨ok, _ | rerr⟩ | r
  · cases ok with
    | false => trivial
    | true =>
        refine ⟨trivial, fun claimed => ?_⟩
        rcases claimed with cerr | _ | claim
        · trivial
        · trivial
        · exact obeys_release rfl trivial
  · cases ok <;> trivial
  · trivial

theorem obeys_handleStored (hadded : ∀ msg ∈ given, Added msg es) (key : String)
    (group : Snapshot P) : Obeys Allowed (Acked given) (handleStored key group) es := by
  have hacked : Acked given (.handled (.returned none)) es := hadded
  simp only [handleStored, issue, call_bind]
  refine ⟨trivial, fun decided => ?_⟩
  rcases decided with ⟨ok, _ | err⟩ | r
  · cases ok with
    | false => exact hacked.mono (List.suffix_cons _ _)
    | true =>
        refine ⟨trivial, fun claimed => ?_⟩
        have hlater : ∀ e e' : AggregatorEvent P,
            Acked given (.handled (.returned none)) (e :: e' :: es) := fun e e' =>
          hacked.mono ((List.suffix_cons _ _).trans (List.suffix_cons _ _))
        rcases claimed with err | _ | claim
        · trivial
        · exact hlater _ _
        · exact obeys_release rfl (hlater _ _)
  · cases ok <;> trivial
  · trivial

theorem obeys_handle (msg : Message P) : Obeys Allowed (Acked (some msg)) (handle msg) es := by
  simp only [handle, issue, call_bind]
  refine ⟨trivial, fun asserted => ?_⟩
  cases asserted with
  | some err => trivial
  | none =>
      refine ⟨trivial, fun correlated => ?_⟩
      rcases correlated with (err | key) | r
      · trivial
      · refine ⟨trivial, fun added => ?_⟩
        rcases added with ⟨_ | group, _ | err⟩
        · trivial
        · trivial
        · apply obeys_handleStored
          rintro _ ⟨rfl⟩
          exact ⟨key, some group, List.mem_cons_self⟩
        · dsimp only
          split
          · trivial
          · exact obeys_handleRefused key group err
      · trivial

theorem obeys_expireMembers (h : held es = some claim) (sent ms : List (Member P))
    (hsent : claim.msgs = sent.reverse ++ ms) {before : List (AggregatorEvent P)}
    (hes : es = expiredSends sent ++ before) :
    Obeys Allowed (fun _ _ => True) (expireMembers claim ms) es := by
  induction ms generalizing sent es with
  | nil =>
      have hdelivered : Delivered claim es := by
        have hall : sent = claim.msgs.reverse := by simp [hsent]
        rw [hes, hall]
        exact .expired before
      exact ⟨⟨h, hdelivered⟩, fun _ => trivial⟩
  | cons m ms ih =>
      simp only [expireMembers, issue, call_bind]
      refine ⟨trivial, fun taken => ?_⟩
      rcases taken with (_ | err) | r
      · have hheld : held (⟨.sendExpired m, .returned none⟩ :: es) = some claim := h
        exact ih hheld (m :: sent) (by simpa using hsent) (congrArg (List.cons _) hes)
      · exact ⟨h, fun _ => trivial⟩
      · trivial

theorem obeys_incomplete (h : held es = some claim) (rest : List (Snapshot P)) (cutoff : ℤ) :
    Obeys Allowed (Acked given)
      (if cutoff ≠ zeroTime ∧ claim.createdAt < cutoff then
        expireMembers claim claim.msgs >>= fun
          | .panicked r => .ret (.swept (.panicked r))
          | .returned () => .ret (.reaping rest cutoff)
      else .ask (.abandonGroup claim) fun _ => .ret (.reaping rest cutoff)) es := by
  split
  · rw [obeys_bind]
    apply (obeys_expireMembers h [] claim.msgs rfl rfl).mono
    rintro (_ | r) _ -
    · trivial
    · trivial
  · exact ⟨h, fun _ => trivial⟩

theorem obeys_reapGroup (g : Snapshot P) (rest : List (Snapshot P)) (cutoff : ℤ) :
    Obeys Allowed (Acked given) (reapGroup g rest cutoff) es := by
  simp only [reapGroup, issue, call_bind]
  refine ⟨trivial, fun claimed => ?_⟩
  rcases claimed with err | _ | claim
  · trivial
  · trivial
  · refine ⟨trivial, fun decided => ?_⟩
    have hheld : held (⟨.release claim.toSnapshot, decided⟩ ::
        ⟨.claimGroup g.key, .ok (some claim)⟩ :: es) = some claim := rfl
    rcases decided with ⟨ok, rerr⟩ | r
    · cases ok with
      | false => exact obeys_incomplete hheld rest cutoff
      | true =>
          cases rerr with
          | some rerr => exact obeys_incomplete hheld rest cutoff
          | none => exact obeys_release hheld trivial
    · trivial

theorem obeys_reap (timeout : ℤ) : Obeys Allowed (Acked given) (reap timeout) es := by
  unfold reap
  split
  · refine ⟨trivial, fun now => ⟨trivial, fun found => ?_⟩⟩
    cases found <;> trivial
  · refine ⟨trivial, fun found => ?_⟩
    cases found <;> trivial

theorem obeys_code {p : AggregatorRoutine P (Control P)} (hacked : Acked given c es)
    (hc : c.code = some p) : Obeys Allowed (Acked given) p es := by
  cases c with
  | handled o => cases hc
  | swept o => cases hc
  | draining key site =>
      obtain rfl := Option.some.inj hc
      exact obeys_drain hacked
  | reaping groups cutoff =>
      cases groups with
      | nil =>
          obtain rfl := Option.some.inj hc
          trivial
      | cons g rest =>
          obtain rfl := Option.some.inj hc
          exact obeys_reapGroup g rest cutoff

end Protocol

end Msgin.Routing
