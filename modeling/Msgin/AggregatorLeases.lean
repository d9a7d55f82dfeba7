import Msgin.Aggregator

/-!
# The lease protocol of the aggregator

Which claim a goroutine of the aggregator has taken and not given back, whatever it is answered.
It takes a claim only when it has none, and every way out of a call gives the claim back, except
one: a panic of the release strategy on a claim, in the loop of `release` or in `reapGroup`, or a
panic of the expired channel. Only `releaseOnce` defers the abandon.
-/

namespace Msgin.Routing

open Interaction Prog Memory

variable {P : Type}

/-- The claim after one more call, where `settles` says which answers of `SettleGroup` end it. -/
def AggregatorEvent.hold (settles : Option Err → Bool) (before : Option (ClaimGroup P)) :
    AggregatorEvent P → Option (ClaimGroup P)
  | ⟨.claimGroup _, .ok (some claim)⟩ => some claim
  | ⟨.settleGroup _, err⟩ => if settles err then none else before
  | ⟨.abandonGroup _, _⟩ => none
  | _ => before

def claimAfter (settles : Option Err → Bool) :
    List (AggregatorEvent P) → Option (ClaimGroup P)
  | [] => none
  | e :: es => e.hold settles (claimAfter settles es)

/-- The claim that a goroutine has not given back after the calls `es`. -/
def standing : List (AggregatorEvent P) → Option (ClaimGroup P) := claimAfter fun _ => true

theorem standing_cons (e : AggregatorEvent P) (es : List (AggregatorEvent P)) :
    standing (e :: es) = e.hold (fun _ => true) (standing es) := rfl

/-- A panic outside `releaseOnce` of a goroutine that has a claim. -/
def isStrayPanic (es : List (AggregatorEvent P)) : AggregatorEvent P → Bool
  | ⟨.release _, .panicked _⟩ => (standing es).isSome
  | ⟨.sendExpired _, .panicked _⟩ => (standing es).isSome
  | _ => false

def strayPanic : List (AggregatorEvent P) → Bool
  | [] => false
  | e :: es => isStrayPanic es e || strayPanic es

structure Holding (claim : ClaimGroup P) (es : List (AggregatorEvent P)) : Prop where
  claimed : standing es = some claim
  calm : strayPanic es = false

structure Clear (es : List (AggregatorEvent P)) : Prop where
  unclaimed : standing es = none
  calm : strayPanic es = false

/-- At the end of a call a claim is left behind exactly when a stray panic ended the call. -/
def Freed : Control P → List (AggregatorEvent P) → Prop
  | .handled _, es | .swept _, es => (standing es).isSome = strayPanic es
  | .draining _ _, es | .reaping _ _, es => Clear es

def OneClaim (es : List (AggregatorEvent P)) : AggregatorCall P → Prop
  | .claimGroup _ => standing es = none
  | _ => True

section Protocol

variable {es : List (AggregatorEvent P)} {claim : ClaimGroup P} {site : ReleaseSite P}
  {c : Control P}

theorem Clear.freed (h : Clear es) (c : Control P) : Freed c es := by
  have hend : (standing es).isSome = strayPanic es := by
    rw [h.unclaimed, h.calm]
    rfl
  cases c with
  | handled o => exact hend
  | swept o => exact hend
  | draining key site => exact h
  | reaping groups cutoff => exact h

theorem Clear.obeys_ret (h : Clear es) : Obeys OneClaim Freed (.ret c) es := h.freed c

theorem freed_panicked (h : Holding claim es) (group : Snapshot P) (r : String) :
    Freed (site.panicked r) (⟨.release group, .panicked r⟩ :: es) := by
  have hend : (standing (⟨.release group, .panicked r⟩ :: es)).isSome =
      strayPanic (⟨.release group, .panicked r⟩ :: es) := by
    simp [standing_cons, AggregatorEvent.hold, strayPanic, isStrayPanic, h.claimed]
  cases site with
  | member => exact hend
  | refused key => exact hend
  | sweep rest cutoff => exact hend

theorem obeys_settleReleased_standing (h : Holding claim es) :
    Obeys OneClaim (fun o es' => strayPanic es' = false ∧ (o = .returned none → standing es' = none))
      (settleReleased claim) es := by
  simp only [settleReleased, issue, call_bind]
  refine ⟨trivial, fun agg => ?_⟩
  rcases agg with (aggErr | out) | r
  · exact ⟨h.calm, by simp⟩
  · refine ⟨trivial, fun sent => ?_⟩
    rcases sent with (_ | sendErr) | r
    · exact ⟨trivial, fun settled => ⟨h.calm, fun _ => rfl⟩⟩
    · exact ⟨h.calm, by simp⟩
    · exact ⟨h.calm, by simp⟩
  · exact ⟨h.calm, by simp⟩

theorem obeys_releaseOnce_clear (h : Holding claim es) :
    Obeys OneClaim (fun _ es' => Clear es') (releaseOnce claim) es := by
  rw [releaseOnce, obeys_bind]
  apply (obeys_settleReleased_standing h).mono
  rintro o es' ⟨hcalm, hsettled⟩
  split
  · exact ⟨hsettled rfl, hcalm⟩
  · exact ⟨trivial, fun _ => ⟨rfl, hcalm⟩⟩

theorem obeys_release_freed (h : Holding claim es) :
    Obeys OneClaim Freed (release site claim) es := by
  rw [release, obeys_bind]
  apply (obeys_releaseOnce_clear h).mono
  intro o es' hes'
  rcases o with (_ | err) | r
  · exact hes'
  · exact hes'.freed _
  · exact hes'.freed _

theorem obeys_drain_freed (h : Clear es) (key : String) (site : ReleaseSite P) :
    Obeys OneClaim Freed (drain key site) es := by
  simp only [drain, issue, call_bind]
  refine ⟨h.unclaimed, fun claimed => ?_⟩
  rcases claimed with cerr | _ | next
  · exact Clear.obeys_ret ⟨h.unclaimed, h.calm⟩
  · exact Clear.obeys_ret ⟨h.unclaimed, h.calm⟩
  · have hholding : Holding next (⟨.claimGroup key, .ok (some next)⟩ :: es) := ⟨rfl, h.calm⟩
    refine ⟨trivial, fun decided => ?_⟩
    rcases decided with ⟨ok, rerr⟩ | r
    · have habandoned : Obeys OneClaim Freed
          (.ask (.abandonGroup next) fun _ => .ret (site.returned none))
          (⟨.release next.toSnapshot, .returned (ok, rerr)⟩ ::
            ⟨.claimGroup key, .ok (some next)⟩ :: es) :=
        ⟨trivial, fun _ => Clear.obeys_ret ⟨rfl, h.calm⟩⟩
      cases ok with
      | false => exact habandoned
      | true =>
          cases rerr with
          | some rerr => exact habandoned
          | none =>
              have hreleasing : Holding next (⟨.release next.toSnapshot, .returned (true, none)⟩ ::
                  ⟨.claimGroup key, .ok (some next)⟩ :: es) := ⟨rfl, h.calm⟩
              refine (obeys_bind _ _ _).mpr ((obeys_releaseOnce_clear hreleasing).mono ?_)
              intro o es' hes'
              rcases o with (_ | err) | r
              · exact hes'
              · exact hes'.freed _
              · exact hes'.freed _
    · exact freed_panicked hholding next.toSnapshot r

theorem obeys_handleRefused_freed (h : Clear es) (key : String) (group : Snapshot P) (err : Err) :
    Obeys OneClaim Freed (handleRefused key group err) es := by
  simp only [handleRefused, issue, call_bind]
  refine ⟨trivial, fun decided => ?_⟩
  rcases decided with ⟨ok, _ | rerr⟩ | r
  · cases ok with
    | false => exact Clear.obeys_ret ⟨h.unclaimed, h.calm⟩
    | true =>
        refine ⟨h.unclaimed, fun claimed => ?_⟩
        rcases claimed with cerr | _ | claim
        · exact Clear.obeys_ret ⟨h.unclaimed, h.calm⟩
        · exact Clear.obeys_ret ⟨h.unclaimed, h.calm⟩
        · exact obeys_release_freed ⟨rfl, h.calm⟩
  · cases ok <;> exact Clear.obeys_ret ⟨h.unclaimed, h.calm⟩
  · refine Clear.obeys_ret ⟨h.unclaimed, ?_⟩
    simp [strayPanic, isStrayPanic, h.unclaimed, h.calm]

theorem obeys_handleStored_freed (h : Clear es) (key : String) (group : Snapshot P) :
    Obeys OneClaim Freed (handleStored key group) es := by
  simp only [handleStored, issue, call_bind]
  refine ⟨trivial, fun decided => ?_⟩
  rcases decided with ⟨ok, _ | err⟩ | r
  · cases ok with
    | false => exact Clear.obeys_ret ⟨h.unclaimed, h.calm⟩
    | true =>
        refine ⟨h.unclaimed, fun claimed => ?_⟩
        rcases claimed with err | _ | claim
        · exact Clear.obeys_ret ⟨h.unclaimed, h.calm⟩
        · exact Clear.obeys_ret ⟨h.unclaimed, h.calm⟩
        · exact obeys_release_freed ⟨rfl, h.calm⟩
  · cases ok <;> exact Clear.obeys_ret ⟨h.unclaimed, h.calm⟩
  · refine Clear.obeys_ret ⟨h.unclaimed, ?_⟩
    simp [strayPanic, isStrayPanic, h.unclaimed, h.calm]

theorem obeys_handle_freed (h : Clear es) (msg : Message P) :
    Obeys OneClaim Freed (handle msg) es := by
  simp only [handle, issue, call_bind]
  refine ⟨trivial, fun asserted => ?_⟩
  cases asserted with
  | some err => exact Clear.obeys_ret ⟨h.unclaimed, h.calm⟩
  | none =>
      refine ⟨trivial, fun correlated => ?_⟩
      rcases correlated with (err | key) | r
      · exact Clear.obeys_ret ⟨h.unclaimed, h.calm⟩
      · refine ⟨trivial, fun added => ?_⟩
        rcases added with ⟨_ | group, _ | err⟩
        · exact Clear.obeys_ret ⟨h.unclaimed, h.calm⟩
        · exact Clear.obeys_ret ⟨h.unclaimed, h.calm⟩
        · refine obeys_handleStored_freed ?_ key group
          exact ⟨h.unclaimed, h.calm⟩
        · dsimp only
          split
          · exact Clear.obeys_ret ⟨h.unclaimed, h.calm⟩
          · refine obeys_handleRefused_freed ?_ key group err
            exact ⟨h.unclaimed, h.calm⟩
      · exact Clear.obeys_ret ⟨h.unclaimed, h.calm⟩

theorem obeys_expireMembers_freed (h : Holding claim es) (ms : List (Member P)) :
    Obeys OneClaim (fun o es' => match o with
      | .returned _ => Clear es'
      | .panicked _ => (standing es').isSome = strayPanic es') (expireMembers claim ms) es := by
  induction ms generalizing es with
  | nil => exact ⟨trivial, fun _ => ⟨rfl, h.calm⟩⟩
  | cons m ms ih =>
      simp only [expireMembers, issue, call_bind]
      refine ⟨trivial, fun taken => ?_⟩
      rcases taken with (_ | err) | r
      · exact ih ⟨h.claimed, h.calm⟩
      · exact ⟨trivial, fun _ => ⟨rfl, h.calm⟩⟩
      · simp [standing_cons, AggregatorEvent.hold, strayPanic, isStrayPanic, h.claimed]

theorem obeys_incomplete_freed (h : Holding claim es) (rest : List (Snapshot P)) (cutoff : ℤ) :
    Obeys OneClaim Freed
      (if cutoff ≠ zeroTime ∧ claim.createdAt < cutoff then
        expireMembers claim claim.msgs >>= fun
          | .panicked r => .ret (.swept (.panicked r))
          | .returned () => .ret (.reaping rest cutoff)
      else .ask (.abandonGroup claim) fun _ => .ret (.reaping rest cutoff)) es := by
  split
  · rw [obeys_bind]
    apply (obeys_expireMembers_freed h claim.msgs).mono
    rintro (_ | r) es' hes'
    · exact hes'
    · exact hes'
  · exact ⟨trivial, fun _ => ⟨rfl, h.calm⟩⟩

theorem obeys_reapGroup_freed (h : Clear es) (g : Snapshot P) (rest : List (Snapshot P))
    (cutoff : ℤ) : Obeys OneClaim Freed (reapGroup g rest cutoff) es := by
  simp only [reapGroup, issue, call_bind]
  refine ⟨h.unclaimed, fun claimed => ?_⟩
  rcases claimed with err | _ | claim
  · exact Clear.obeys_ret ⟨h.unclaimed, h.calm⟩
  · exact Clear.obeys_ret ⟨h.unclaimed, h.calm⟩
  · refine ⟨trivial, fun decided => ?_⟩
    rcases decided with ⟨ok, rerr⟩ | r
    · have hholding : Holding claim (⟨.release claim.toSnapshot, .returned (ok, rerr)⟩ ::
          ⟨.claimGroup g.key, .ok (some claim)⟩ :: es) := ⟨rfl, h.calm⟩
      cases ok with
      | false => exact obeys_incomplete_freed hholding rest cutoff
      | true =>
          cases rerr with
          | some rerr => exact obeys_incomplete_freed hholding rest cutoff
          | none => exact obeys_release_freed hholding
    · simp [Freed, standing_cons, AggregatorEvent.hold, strayPanic, isStrayPanic]

theorem obeys_reap_freed (h : Clear es) (timeout : ℤ) : Obeys OneClaim Freed (reap timeout) es := by
  unfold reap
  split
  · refine ⟨trivial, fun now => ⟨trivial, fun found => ?_⟩⟩
    cases found <;> exact Clear.obeys_ret ⟨h.unclaimed, h.calm⟩
  · refine ⟨trivial, fun found => ?_⟩
    cases found <;> exact Clear.obeys_ret ⟨h.unclaimed, h.calm⟩

theorem obeys_code_freed {p : AggregatorRoutine P (Control P)} (h : Freed c es)
    (hc : c.code = some p) : Obeys OneClaim Freed p es := by
  cases c with
  | handled o => cases hc
  | swept o => cases hc
  | draining key site =>
      obtain rfl := Option.some.inj hc
      exact obeys_drain_freed h key site
  | reaping groups cutoff =>
      cases groups with
      | nil =>
          obtain rfl := Option.some.inj hc
          exact Clear.freed h _
      | cons g rest =>
          obtain rfl := Option.some.inj hc
          exact obeys_reapGroup_freed h g rest cutoff

end Protocol

end Msgin.Routing
