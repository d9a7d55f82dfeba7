import Msgin.RoundTripSteps

/-!
# Splitting and aggregating

The runs that hand the children of split messages to one aggregator, each child at least once,
by any number of calls and in any interleaving. Every message comes back as one output that
holds each of its children once, and the store is empty in the end.
-/

namespace Msgin.Routing

open Interaction Prog Memory TransitionRuns KeyedMaps

variable {P : Type}

/-- The member that goroutine `t` is about to add. -/
def pendingAdd (s : AggregatorState P) (t : ℕ) : Option (String × Message P) :=
  match s.goroutines t with
  | some ⟨_, .ask (.add key msg) _, _⟩ => some (key, msg)
  | _ => none

/-- The calls are for children of `jobs`, nothing fails and the store has room. -/
def Undisturbed (correlate : Message P → Except Err String) (foreign : ℕ → Option ℤ)
    (jobs : List (SplitJob P)) (s : AggregatorState P) : AggregatorLabel P → Prop
  | .handle _ msg => ∃ J ∈ jobs, msg ∈ J.stamped
  | .reap _ => False
  | .proceed t choice => Smooth correlate foreign choice ∧
    ∀ key msg, pendingAdd s t = some (key, msg) → (s.store.add key msg choice.now).1.2 = none

/-- A child is added before a claim on its group is settled. -/
def AddsInTime (s : AggregatorState P) : AggregatorLabel P → Prop
  | .proceed t _ => ∀ key msg, pendingAdd s t = some (key, msg) → ∀ e ∈ s.settled, e.claim.key ≠ key
  | _ => True

/-- Every `Handle` call has returned, and there is no sweep. -/
def AllReturned (s : AggregatorState P) : Prop :=
  ∀ t g, s.goroutines t = some g → ∃ o, g.code = .ret (.handled o)

section Runs

variable {correlate : Message P → Except Err String} {B : Batch correlate} {foreign : ℕ → Option ℤ}
  {s₀ s s' : AggregatorState P} {os : List (List (Member P))} {V : String → View P} {J : SplitJob P}
  {t : ℕ} {m : Message P} {timeout : ℤ} {ls : List (AggregatorLabel P)} {l : AggregatorLabel P}
  {g : Goroutine P}

theorem pendingAdd_of_follows {key : String} (hg : s.goroutines t = some g)
    (hfollows : Follows .adding key m g) : pendingAdd s t = some (key, m) := by
  obtain ⟨given, code, events⟩ := g
  obtain rfl : code = _ := hfollows.code
  simp [pendingAdd, hg, Phase.code, resume, handle, issue, call_bind]

theorem BatchInv.handle (h : BatchInv B foreign s₀ s os V) (hJ : J ∈ B.jobs) (hm : m ∈ J.stamped)
    (hstep : s.start t (some m) (Routing.handle m) = some s') :
    ∃ V', BatchInv B foreign s₀ s' os V' := by
  unfold AggregatorState.start at hstep
  split at hstep
  · next hfresh =>
      have hnone : ∀ k, (V k).stage t = none := by
        intro k
        cases hx : (V k).stage t with
        | none => rfl
        | some x =>
            obtain ⟨g, hg, -⟩ := h.follows k t x.1 x.2 hx
            simp [hg] at hfresh
      have hfollows : Follows .asserting (B.key J) m ⟨some m, Routing.handle m, []⟩ :=
        ⟨rfl, rfl, by simp⟩
      have hs' := (Option.some.inj hstep).symm
      have hsettled : s'.settled = [] ++ s.settled := by
        rw [hs']
        rfl
      refine ⟨_, (List.append_nil os) ▸ h.advance hJ hm
        (h.since t (Option.isNone_iff_eq_none.mp hfresh)) (fun k _ => hnone k)
        ((h.jobs J hJ).start (hnone _)) rfl ?_ ?_ hfollows hsettled (by simp) (by simp)
        (List.append_nil _).symm⟩
      · rw [h.groups, Function.update_eq_self, hs']
      · rw [hs']
  · cases hstep

theorem BatchInv.step (h : BatchInv B foreign s₀ s os V)
    (hundisturbed : Undisturbed correlate foreign B.jobs s l)
    (hintime : ∀ t choice J m, l = .proceed t choice → J ∈ B.jobs → m ∈ J.stamped →
      (V (B.key J)).stage t = some (m, .adding) → (V (B.key J)).settled = false)
    (hstep : s.step timeout l = some s') :
    ∃ V', BatchInv B foreign s₀ s' (os ++ (emitted s l).toList) V' := by
  cases l with
  | handle t msg =>
      obtain ⟨J, hJ, hm⟩ := hundisturbed
      have hnone : emitted s (.handle t msg) = none := rfl
      rw [hnone, Option.toList_none, List.append_nil]
      exact h.handle hJ hm hstep
  | reap t => exact absurd hundisturbed id
  | proceed t choice =>
      obtain ⟨hsmooth, haccepted⟩ := hundisturbed
      obtain ⟨g, hg, hproceed⟩ := Option.bind_eq_some_iff.mp hstep
      rcases h.ended t g hg with ⟨-, c, hcode, hend⟩ | ⟨k, ⟨m, p⟩, ht⟩
      · simp [AggregatorState.proceed, hcode, hend] at hproceed
      · obtain ⟨J, hJ, rfl, hm⟩ := h.children k t m p ht
        obtain ⟨g', hg', hfollows⟩ := h.follows _ t m p ht
        obtain rfl : g = g' := Option.some.inj (hg.symm.trans hg')
        cases p with
        | asserting => exact h.asserting hJ hm hg hsmooth hproceed ht hfollows
        | correlating => exact h.correlating hJ hm hg hsmooth hproceed ht hfollows
        | adding =>
            exact h.adding hJ hm hg hproceed ht hfollows
              (haccepted _ _ (pendingAdd_of_follows hg hfollows)) (hintime t choice J m rfl hJ hm ht)
        | deciding group => exact h.deciding hJ hm hg hsmooth hproceed ht hfollows
        | claiming group => exact h.claiming hJ hm hg hproceed ht hfollows
        | aggregating claim => exact h.aggregating hJ hm hg hsmooth hproceed ht hfollows
        | sending claim out => exact h.sending hJ hm hg hsmooth hproceed ht hfollows
        | settling claim => exact h.settling hJ hm hg hproceed ht hfollows
        | drained => exact h.drained hJ hm hg hproceed ht hfollows
        | draining => exact h.draining hJ hm hg hproceed ht hfollows
        | done =>
            have hcode : g.code = .ret (.handled (.returned none)) := hfollows.code
            simp [AggregatorState.proceed, hcode, Control.code] at hproceed

theorem BatchInv.unsettled_of_inTime {store : GroupStore P}
    (h : BatchInv B foreign (.initial store) s os V) {choice : AggregatorChoice P}
    (hl : l = .proceed t choice) (ht : (V (B.key J)).stage t = some (m, .adding))
    (hintime : AddsInTime s l) : (V (B.key J)).settled = false := by
  subst hl
  obtain ⟨g, hg, hfollows⟩ := h.follows _ t m _ ht
  obtain ⟨since, hsince, hflags⟩ := h.settled
  rw [← Bool.not_eq_true, hflags]
  rintro ⟨e, he, hkey⟩
  have hmem : e ∈ s.settled := hsince ▸ List.mem_append_left _ he
  exact hintime _ _ (pendingAdd_of_follows hg hfollows) e hmem hkey

theorem batchInv_step_inTime {store : GroupStore P}
    (h : ∃ V, BatchInv B foreign (.initial store) s os V) (hstep : s.step timeout l = some s')
    (hgood : Undisturbed correlate foreign B.jobs s l ∧ AddsInTime s l) :
    ∃ V', BatchInv B foreign (.initial store) s' (os ++ (emitted s l).toList) V' := by
  obtain ⟨V, h⟩ := h
  apply h.step hgood.1 _ hstep
  intro t choice J m hl _ _ ht
  exact h.unsettled_of_inTime hl ht hgood.2

theorem step_goroutines (hstep : s.step timeout l = some s') :
    ∃ t g', s'.goroutines = Function.update s.goroutines t (some g') ∧
      ((∃ g, s.goroutines t = some g ∧ g'.given = g.given) ∨
        s.goroutines t = none ∧ ∀ m, g'.given = some m ↔ l = .handle t m) := by
  have hstart : ∀ t given code, s.start t given code = some s' →
      s.goroutines t = none ∧
        s'.goroutines = Function.update s.goroutines t (some ⟨given, code, []⟩) := by
    intro t given code hstart
    unfold AggregatorState.start at hstart
    split at hstart
    · next hfresh =>
        obtain rfl := Option.some.inj hstart
        exact ⟨Option.isNone_iff_eq_none.mp hfresh, rfl⟩
    · cases hstart
  cases l with
  | handle t msg =>
      obtain ⟨hnone, hs'⟩ := hstart t _ _ hstep
      exact ⟨t, _, hs', Or.inr ⟨hnone, by simp⟩⟩
  | reap t =>
      obtain ⟨hnone, hs'⟩ := hstart t _ _ hstep
      exact ⟨t, _, hs', Or.inr ⟨hnone, by simp⟩⟩
  | proceed t choice =>
      obtain ⟨g, hg, hproceed⟩ := Option.bind_eq_some_iff.mp hstep
      unfold AggregatorState.proceed at hproceed
      split at hproceed
      · obtain ⟨code, -, rfl⟩ := Option.map_eq_some_iff.mp hproceed
        exact ⟨t, _, rfl, Or.inl ⟨g, hg, rfl⟩⟩
      · obtain rfl := Option.some.inj hproceed
        exact ⟨t, _, rfl, Or.inl ⟨g, hg, rfl⟩⟩

theorem given_of_step (hstep : s.step timeout l = some s') (hg : s.goroutines t = some g) :
    ∃ g', s'.goroutines t = some g' ∧ g'.given = g.given := by
  obtain ⟨t₁, g₁, hs', hgiven⟩ := step_goroutines hstep
  by_cases ht : t = t₁
  · subst ht
    rcases hgiven with ⟨g₀, hg₀, hgiven⟩ | ⟨hnone, -⟩
    · obtain rfl := Option.some.inj (hg.symm.trans hg₀)
      exact ⟨g₁, by rw [hs', Function.update_self], hgiven⟩
    · simp [hg] at hnone
  · exact ⟨g, by rw [hs', Function.update_of_ne ht, hg], rfl⟩

theorem given_of_run (hrun : run (AggregatorState.step timeout) s ls = some s')
    (hg : s.goroutines t = some g) : ∃ g', s'.goroutines t = some g' ∧ g'.given = g.given := by
  refine run_invariant (AggregatorState.step timeout)
    (I := fun s : AggregatorState P => ∃ g', s.goroutines t = some g' ∧ g'.given = g.given)
    ?_ ⟨g, hg, rfl⟩ hrun
  rintro s₁ l s₂ ⟨g₁, hg₁, hgiven⟩ hstep
  obtain ⟨g₂, hg₂, hgiven₂⟩ := given_of_step hstep hg₁
  exact ⟨g₂, hg₂, hgiven₂.trans hgiven⟩

theorem given_of_handle (hrun : run (AggregatorState.step timeout) s ls = some s')
    (hl : .handle t m ∈ ls) :
    s.goroutines t = none ∧ ∃ g, s'.goroutines t = some g ∧ g.given = some m := by
  induction ls generalizing s with
  | nil => cases hl
  | cons l ls ih =>
      obtain ⟨u, hstep, hrest⟩ := (run_cons_eq_some _).mp hrun
      rcases List.mem_cons.mp hl with rfl | hl
      · have hstart : s.start t (some m) (Routing.handle m) = some u := hstep
        unfold AggregatorState.start at hstart
        split at hstart
        · next hfresh =>
            obtain rfl := Option.some.inj hstart
            exact ⟨Option.isNone_iff_eq_none.mp hfresh, given_of_run hrest (Function.update_self ..)⟩
        · cases hstart
      · obtain ⟨hnone, hg⟩ := ih hrest hl
        refine ⟨?_, hg⟩
        cases hold : s.goroutines t with
        | none => rfl
        | some g₀ =>
            obtain ⟨g₁, hg₁, -⟩ := given_of_step hstep hold
            simp [hg₁] at hnone

theorem BatchInv.finished (h : BatchInv B foreign s₀ s os V) (hreturned : AllReturned s)
    (hall : ∀ J ∈ B.jobs, ∀ m ∈ J.stamped, ∃ t g, s₀.goroutines t = none ∧
      s.goroutines t = some g ∧ g.given = some m) :
    (∃ out : SplitJob P → List (Member P), os.Perm (B.jobs.map out) ∧
      ∀ J ∈ B.jobs, ((out J).map Member.msg).Perm J.stamped) ∧
    ∀ k, s.store.groups.lookup k = none := by
  have hdone : ∀ k t m p, (V k).stage t = some (m, p) → p = .done := by
    intro k t m p hp
    obtain ⟨g, hg, hfollows⟩ := h.follows k t m p hp
    obtain ⟨o, ho⟩ := hreturned t g hg
    have hcode : p.code k m = .ret (.handled o) := hfollows.code.symm.trans ho
    cases p <;> first | rfl | cases hcode
  have hjobs : ∀ J ∈ B.jobs, (V (B.key J)).group = none ∧ (V (B.key J)).settled = true ∧
      ∃ ms, (V (B.key J)).outputs = [ms] ∧ (ms.map Member.msg).Perm J.stamped := by
    intro J hJ
    apply (h.jobs J hJ).finished (hdone _)
    intro m hm
    obtain ⟨t, g, hnew, hg, hgiven⟩ := hall J hJ m hm
    rcases h.ended t g hg with ⟨hold, -⟩ | ⟨k, ⟨m', p⟩, ht⟩
    · exact absurd hnew hold
    · obtain ⟨J', hJ', rfl, hm'⟩ := h.children k t m' p ht
      obtain ⟨g', hg', hfollows⟩ := h.follows _ t m' p ht
      obtain rfl := Option.some.inj (hg.symm.trans hg')
      obtain rfl : m' = m := Option.some.inj (hfollows.given.symm.trans hgiven)
      have hkey : B.key J' = B.key J :=
        Except.ok.inj ((B.correlates J' hJ' m' hm').symm.trans (B.correlates J hJ m' hm))
      exact ⟨t, p, hkey ▸ ht⟩
  constructor
  · refine ⟨fun J => (V (B.key J)).outputs.headD [], ?_, ?_⟩
    · refine h.outputs.trans (List.Perm.of_eq ?_)
      rw [List.map_eq_flatMap]
      apply List.flatMap_congr
      intro J hJ
      obtain ⟨-, -, ms, houtputs, -⟩ := hjobs J hJ
      rw [houtputs]
      rfl
    · intro J hJ
      obtain ⟨-, -, ms, houtputs, hperm⟩ := hjobs J hJ
      simpa only [houtputs, List.headD_cons] using hperm
  · intro k
    rw [← h.groups]
    by_cases hk : ∃ J ∈ B.jobs, B.key J = k
    · obtain ⟨J, hJ, rfl⟩ := hk
      exact (hjobs J hJ).1
    · apply h.strangers
      intro J hJ hkey
      exact hk ⟨J, hJ, hkey⟩

end Runs

theorem correlates_parent {J : SplitJob P}
    (hchildren : ∀ child ∈ J.children, child.headers.m headerCorrelationID = none)
    {m : Message P} (hm : m ∈ J.stamped) : defaultCorrelate m = .ok J.parent.id := by
  obtain ⟨j, child, hj, rfl⟩ := mem_stampedChildren.mp hm
  apply defaultCorrelate_of_header _ J.identified
  rw [correlation_stampSequence J.identified, hchildren child (List.mem_of_getElem? hj),
    Option.getD_none]

def parentBatch (jobs : List (SplitJob P)) (hids : (jobs.map fun J => J.parent.id).Nodup)
    (hchildren : ∀ J ∈ jobs, ∀ child ∈ J.children, child.headers.m headerCorrelationID = none) :
    Batch (defaultCorrelate (P := P)) where
  jobs := jobs
  key J := J.parent.id
  correlates J hJ _ hm := correlates_parent (hchildren J hJ) hm
  distinct := hids

/-- What comes back of the split messages `jobs`: one output for each, with its children. -/
def ComesBack (jobs : List (SplitJob P)) (os : List (List (Member P))) : Prop :=
  ∃ out : SplitJob P → List (Member P), os.Perm (jobs.map out) ∧
    ∀ J ∈ jobs, ((out J).map Member.msg).Perm J.stamped

/-- Whatever the interleaving and however often the children are delivered. -/
theorem run_comesBack {jobs : List (SplitJob P)} (hids : (jobs.map fun J => J.parent.id).Nodup)
    (hchildren : ∀ J ∈ jobs, ∀ child ∈ J.children, child.headers.m headerCorrelationID = none)
    {maxGroups maxGroupMembers timeout : ℤ} {store : GroupStore P}
    (hstore : newGroupStore maxGroups maxGroupMembers = .ok store) {foreign : ℕ → Option ℤ}
    {ls : List (AggregatorLabel P)} {s : AggregatorState P}
    (hrun : run (AggregatorState.step timeout) (.initial store) ls = some s)
    (hundisturbed : Along (AggregatorState.step timeout)
      (fun s l _ => Undisturbed defaultCorrelate foreign jobs s l ∧ AddsInTime s l)
      (.initial store) ls)
    (hdelivered : ∀ J ∈ jobs, ∀ m ∈ J.stamped, ∃ t, .handle t m ∈ ls) (hreturned : AllReturned s) :
    (∀ J ∈ jobs, Emits (fun _ => true) (fun r es => r = none → es.map Sigma.fst = J.stamped)
      (forwardSplit J.parent J.children)) ∧
    ComesBack jobs (observe (AggregatorState.step timeout) emitted (.initial store) ls) ∧
    (∀ k, s.store.groups.lookup k = none) ∧
    Function.Injective fun p : String × ℕ => childID p.1 p.2 := by
  let B := parentBatch jobs hids hchildren
  have hstart : ∃ V, BatchInv B foreign (.initial store) (.initial store) [] V := by
    refine ⟨_, batchInv_start B foreign (fun k => ?_) (by simp [AggregatorState.initial])⟩
    simp [AggregatorState.initial, groups_newGroupStore hstore]
  obtain ⟨V, hend⟩ := run_observe_of_along (AggregatorState.step timeout) emitted
    (I := fun s os => ∃ V, BatchInv B foreign (.initial store) s os V)
    (fun _ _ _ _ => batchInv_step_inTime) hstart hundisturbed hrun
  obtain ⟨hout, hempty⟩ := hend.finished hreturned fun J hJ m hm => by
    obtain ⟨t, ht⟩ := hdelivered J hJ m hm
    obtain ⟨hnew, g, hg, hgiven⟩ := given_of_handle hrun ht
    exact ⟨t, g, hnew, hg, hgiven⟩
  refine ⟨fun J _ => ?_, hout, hempty, childID_injective⟩
  exact (emits_forwardSplit J.parent J.children).mono fun r es hes => hes.2

/-- The default strategies, and nothing fails. -/
def defaults : AggregatorChoice Unit where
  now := 0
  order := fun _ => 0
  answer
    | .assert _ => none
    | .correlate msg => .returned (defaultCorrelate msg)
    | .add _ _ => (none, none)
    | .release group => .returned (defaultRelease (fun _ => none) group, none)
    | .claimGroup _ => .ok none
    | .aggregate _ => .returned (.ok blankMessage)
    | .send _ | .sendExpired _ => .returned none
    | .settleGroup _ | .abandonGroup _ => none
    | .now => 0
    | .expired _ => .ok []

def pair : SplitJob Unit := ⟨messageWithID "p", [blankMessage, blankMessage], by decide, by simp⟩

def single : SplitJob Unit := ⟨messageWithID "p#1", [blankMessage], by decide, by simp⟩

def schedule (calls : List (ℕ × Message Unit)) (order : List ℕ) : List (AggregatorLabel Unit) :=
  calls.map (fun c => .handle c.1 c.2) ++ order.map fun t => .proceed t defaults

variable {calls : List (ℕ × Message Unit)}

theorem handle_mem_schedule {t : ℕ} {m : Message Unit} (h : (t, m) ∈ calls) (order : List ℕ) :
    .handle t m ∈ schedule calls order :=
  List.mem_append_left _ (List.mem_map.mpr ⟨_, h, rfl⟩)

def child (parent : String) (num size : ℕ) : Message Unit :=
  stampSequence blankMessage (messageWithID parent) num size

/-- The first child of `pair` is delivered twice; three of the calls find their group complete. -/
def roundTripRun : List (AggregatorLabel Unit) :=
  schedule [(0, child "p" 1 2), (1, child "p" 2 2), (2, child "p" 1 2), (3, child "p#1" 1 1)]
    [0, 1, 2, 3, 0, 1, 2, 3, 0, 1, 2, 3, 0, 1, 2, 3, 1, 2, 3, 1, 3, 1, 3, 1, 3, 1, 3, 1, 3]

def acceptedTest (s : AggregatorState Unit) : AggregatorLabel Unit → Bool
  | .proceed t choice => (pendingAdd s t).all fun p => (s.store.add p.1 p.2 choice.now).1.2.isNone
  | _ => true

def inTimeTest (s : AggregatorState Unit) : AggregatorLabel Unit → Bool
  | .proceed t _ => (pendingAdd s t).all fun p => s.settled.all fun e => e.claim.key != p.1
  | _ => true

theorem smooth_defaults : Smooth defaultCorrelate (fun _ => none) defaults :=
  ⟨fun _ => rfl, fun _ => rfl, fun _ => rfl, fun _ => ⟨_, rfl⟩, fun _ => rfl⟩

theorem undisturbed_of_test {jobs : List (SplitJob Unit)} {order : List ℕ}
    (hcalls : ∀ c ∈ calls, ∃ J ∈ jobs, c.2 ∈ J.stamped) {s : AggregatorState Unit}
    (h : alongTest (AggregatorState.step 0) acceptedTest s (schedule calls order) = true) :
    Along (AggregatorState.step 0)
      (fun s l _ => Undisturbed defaultCorrelate (fun _ => none) jobs s l) s
      (schedule calls order) := by
  refine along_of_alongTest _ ?_ h
  intro l hl s _ htest
  rcases List.mem_append.mp hl with hl | hl
  · obtain ⟨c, hc, rfl⟩ := List.mem_map.mp hl
    exact hcalls c hc
  · obtain ⟨t, -, rfl⟩ := List.mem_map.mp hl
    refine ⟨smooth_defaults, fun key msg hpending => ?_⟩
    simpa [acceptedTest, hpending] using htest

theorem addsInTime_of_test {ls : List (AggregatorLabel Unit)} {s : AggregatorState Unit}
    (h : alongTest (AggregatorState.step 0) inTimeTest s ls = true) :
    Along (AggregatorState.step 0) (fun s l _ => AddsInTime s l) s ls := by
  refine along_of_alongTest _ ?_ h
  intro l _ s _ htest
  cases l with
  | handle t m => trivial
  | reap t => trivial
  | proceed t choice =>
      intro key msg hpending
      simpa [inTimeTest, hpending] using htest

theorem run_comesBack_roundTripRun :
    ∃ store s, newGroupStore 2 2 = .ok store ∧
      run (AggregatorState.step 0) (.initial store) roundTripRun = some s ∧
      (observe (AggregatorState.step 0) emitted (.initial store) roundTripRun).map
        (fun ms => ms.map fun m => m.msg.id) = [["p#1", "p#2"], ["p#1#1"]] ∧
      ComesBack [pair, single]
        (observe (AggregatorState.step 0) emitted (.initial store) roundTripRun) := by
  have hstore : newGroupStore 2 2 = .ok (⟨∅, 2, 2, 0⟩ : GroupStore Unit) := rfl
  have hpair : pair.stamped = [child "p" 1 2, child "p" 2 2] := rfl
  have hsingle : single.stamped = [child "p#1" 1 1] := rfl
  obtain ⟨s, hrun, hreturned⟩ : ∃ s, run (AggregatorState.step 0) (.initial ⟨∅, 2, 2, 0⟩)
      roundTripRun = some s ∧ AllReturned s := by
    refine ⟨_, rfl, ?_⟩
    intro t g hg
    rcases t with _ | _ | _ | _ | t <;> cases hg <;> exact ⟨_, rfl⟩
  have hundisturbed : Along (AggregatorState.step 0)
      (fun s l _ => Undisturbed defaultCorrelate (fun _ => none) [pair, single] s l)
      (.initial ⟨∅, 2, 2, 0⟩) roundTripRun := undisturbed_of_test (by simp [hpair, hsingle]) rfl
  have hintime : Along (AggregatorState.step 0) (fun s l _ => AddsInTime s l)
      (.initial ⟨∅, 2, 2, 0⟩) roundTripRun := addsInTime_of_test rfl
  refine ⟨_, s, hstore, hrun, rfl, ?_⟩
  refine (run_comesBack (by decide) ?_ hstore hrun (hundisturbed.and _ hintime) ?_
    hreturned).2.1
  · simp [pair, single, blankMessage]
  · have hcall : ∀ t m, (t, m) ∈ [(0, child "p" 1 2), (1, child "p" 2 2), (2, child "p" 1 2),
        (3, child "p#1" 1 1)] → .handle t m ∈ roundTripRun := fun t m h => handle_mem_schedule h _
    simp only [List.forall_mem_cons, hpair, hsingle, List.not_mem_nil, false_imp_iff, implies_true,
      and_true]
    exact ⟨⟨⟨0, hcall _ _ (by simp)⟩, ⟨1, hcall _ _ (by simp)⟩⟩, ⟨3, hcall _ _ (by simp)⟩⟩

end Msgin.Routing
