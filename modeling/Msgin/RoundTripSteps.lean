import Msgin.RoundTripBatch

/-!
# The steps of a `Handle` call in a batch

One lemma for each phase: the call that is answered next, and the step of its group.
-/

namespace Msgin.Routing

open Interaction Prog Memory KeyedMaps

variable {P : Type} {correlate : Message P → Except Err String} {B : Batch correlate}
  {foreign : ℕ → Option ℤ} {s₀ s s' : AggregatorState P} {os : List (List (Member P))}
  {V : String → View P} {J : SplitJob P} {t : ℕ} {m : Message P} {p p' : Phase P} {g : Goroutine P}
  {q : AggregatorCall P} {k : q.Answer → AggregatorRoutine P (Control P)}

section Emitted

variable {choice : AggregatorChoice P}

theorem emitted_of_ret (hg : s.goroutines t = some g) {c : Control P} (hcode : g.code = .ret c) :
    emitted s (.proceed t choice) = none := by
  obtain ⟨given, code, events⟩ := g
  subst hcode
  simp [emitted, hg]

theorem emitted_of_ask (hg : s.goroutines t = some g) (hcode : g.code = .ask q k)
    (hq : ∀ out, q ≠ .send out) : emitted s (.proceed t choice) = none := by
  obtain ⟨given, code, events⟩ := g
  subst hcode
  cases q with
  | send out => exact absurd rfl (hq out)
  | _ => simp only [emitted, hg]

theorem emitted_of_send (hg : s.goroutines t = some g) {out : Message P}
    {k : Outcome (Option Err) → AggregatorRoutine P (Control P)}
    (hcode : g.code = .ask (.send out) k) {msgs : List (Member P)}
    {r : Outcome (Except Err (Message P))} {events : List (AggregatorEvent P)}
    (hevents : g.events = ⟨.aggregate msgs, r⟩ :: events)
    (hsend : choice.answer (.send out) = .returned none) :
    emitted s (.proceed t choice) = some msgs := by
  obtain ⟨given, code, events'⟩ := g
  subst hcode hevents
  simp [emitted, hg, hsend]

end Emitted

theorem proceed_of_ask {choice : AggregatorChoice P} (hcode : g.code = .ask q k)
    (hstep : s.proceed t choice g = some s') :
    s' = { store := (serve choice s.store q).2
           goroutines := Function.update s.goroutines t
             (some ⟨g.given, k (serve choice s.store q).1,
               ⟨q, (serve choice s.store q).1⟩ :: g.events⟩)
           settled := (settlementOf s.store g.events q).toList ++ s.settled } := by
  unfold AggregatorState.proceed at hstep
  rw [hcode] at hstep
  exact (Option.some.inj hstep).symm

theorem BatchInv.others_none (h : BatchInv B foreign s₀ s os V) {key : String}
    {x : Message P × Phase P} (ht : (V key).stage t = some x) (k : String) (hk : k ≠ key) :
    (V k).stage t = none := by
  cases hx : (V k).stage t with
  | none => rfl
  | some x' => exact absurd (h.alone k key t x' x hx ht) hk

theorem BatchInv.answer (h : BatchInv B foreign s₀ s os V) (hJ : J ∈ B.jobs)
    (ht : (V (B.key J)).stage t = some (m, p)) (hm : m ∈ J.stamped) {choice : AggregatorChoice P}
    (hstep : s.proceed t choice g = some s') (hfollows : Follows p (B.key J) m g) {v : View P}
    (hjob : JobState J (B.key J) foreign (v.set t m p')) (hstage : v.stage = (V (B.key J)).stage)
    (hflag : v.settled = (V (B.key J)).settled) {store : GroupStore P}
    (hgroup : (fun k => store.groups.lookup k) =
      Function.update (fun k => s.store.groups.lookup k) (B.key J) v.group)
    {new : List (List (Member P))} (hnew : v.outputs = (V (B.key J)).outputs ++ new)
    (hcode : p.code (B.key J) m = .ask q k) {r : q.Answer}
    (hserve : serve choice s.store q = (r, store)) (hnext : k r = p'.code (B.key J) m)
    (hsettle : settlementOf s.store g.events q = none)
    (haggregated : ∀ claim out, p' = .sending claim out →
      ∃ r', (⟨q, r⟩ : AggregatorEvent P) = ⟨.aggregate claim.msgs, r'⟩) :
    BatchInv B foreign s₀ s' (os ++ new) (Function.update V (B.key J) (v.set t m p')) := by
  have hs' := proceed_of_ask (hfollows.code.trans hcode) hstep
  rw [hserve, hsettle] at hs'
  have hfollows' : Follows p' (B.key J) m ⟨g.given, k r, ⟨q, r⟩ :: g.events⟩ := by
    refine ⟨hfollows.given, hnext, fun claim out hp' => ?_⟩
    obtain ⟨r', heq⟩ := haggregated claim out hp'
    exact ⟨r', g.events, by rw [heq]⟩
  have hsettled : s'.settled = [] ++ s.settled := by
    rw [hs']
    rfl
  refine h.advance hJ hm (h.fresh _ t _ ht) (h.others_none ht) hjob hstage ?_ ?_ hfollows'
    hsettled ?_ ?_ hnew
  · rw [hs']
    exact hgroup
  · rw [hs']
  · simp
  · simp [hflag]

section Turn

variable {choice : AggregatorChoice P} (h : BatchInv B foreign s₀ s os V) (hJ : J ∈ B.jobs)
  (hm : m ∈ J.stamped) (hg : s.goroutines t = some g) (hsmooth : Smooth correlate foreign choice)
  (hstep : s.proceed t choice g = some s')

include h hJ hm hg hstep in
theorem BatchInv.quiet (ht : (V (B.key J)).stage t = some (m, p))
    (hfollows : Follows p (B.key J) m g)
    (hjob : JobState J (B.key J) foreign ((V (B.key J)).set t m p'))
    (hcode : p.code (B.key J) m = .ask q k) {r : q.Answer}
    (hserve : serve choice s.store q = (r, s.store)) (hnext : k r = p'.code (B.key J) m)
    (hsettle : settlementOf s.store g.events q = none)
    (haggregated : ∀ claim out, p' = .sending claim out →
      ∃ r', (⟨q, r⟩ : AggregatorEvent P) = ⟨.aggregate claim.msgs, r'⟩)
    (hq : ∀ out, q ≠ .send out) :
    ∃ V', BatchInv B foreign s₀ s' (os ++ (emitted s (.proceed t choice)).toList) V' := by
  rw [emitted_of_ask hg (hfollows.code.trans hcode) hq]
  refine ⟨_, h.answer hJ ht hm hstep hfollows hjob rfl rfl ?_ (List.append_nil _).symm hcode hserve
    hnext hsettle haggregated⟩
  rw [h.groups, Function.update_eq_self]

include h hJ hm hg hsmooth hstep in
theorem BatchInv.asserting (ht : (V (B.key J)).stage t = some (m, .asserting))
    (hfollows : Follows .asserting (B.key J) m g) :
    ∃ V', BatchInv B foreign s₀ s' (os ++ (emitted s (.proceed t choice)).toList) V' := by
  have hjob : JobState J (B.key J) foreign ((V (B.key J)).set t m .correlating) :=
    (h.jobs J hJ).quiet ht rfl rfl rfl rfl
  have hserve : serve choice s.store (.assert m) = (none, s.store) := by
    rw [serve, hsmooth.assert]
  exact h.quiet hJ hm hg hstep ht hfollows hjob rfl hserve rfl rfl (by simp) (by simp)

include h hJ hm hg hsmooth hstep in
theorem BatchInv.correlating (ht : (V (B.key J)).stage t = some (m, .correlating))
    (hfollows : Follows .correlating (B.key J) m g) :
    ∃ V', BatchInv B foreign s₀ s' (os ++ (emitted s (.proceed t choice)).toList) V' := by
  have hjob : JobState J (B.key J) foreign ((V (B.key J)).set t m .adding) :=
    (h.jobs J hJ).quiet ht rfl rfl rfl rfl
  have hserve : serve choice s.store (.correlate m) = (.returned (.ok (B.key J)), s.store) := by
    rw [serve, hsmooth.correlate, B.correlates J hJ m hm]
  exact h.quiet hJ hm hg hstep ht hfollows hjob rfl hserve rfl rfl (by simp) (by simp)

include h hJ hm hg hstep in
theorem BatchInv.adding (ht : (V (B.key J)).stage t = some (m, .adding))
    (hfollows : Follows .adding (B.key J) m g)
    (haccepted : (s.store.add (B.key J) m choice.now).1.2 = none)
    (hunsettled : (V (B.key J)).settled = false) :
    ∃ V', BatchInv B foreign s₀ s' (os ++ (emitted s (.proceed t choice)).toList) V' := by
  have hcode : Phase.adding.code (B.key J) m = .ask (.add (B.key J) m) _ := rfl
  have hgroup := h.groups (B.key J)
  rw [emitted_of_ask hg (hfollows.code.trans hcode) (by simp)]
  rcases add_accepted haccepted with ⟨g₀, hg₀, -, hid, hadd⟩ | ⟨g₀, st', hg₀, hid, hw, hadd⟩
  · have hjob := (h.jobs J hJ).addKnown ht hm (hgroup.trans hg₀) hid
    refine ⟨_, h.answer hJ ht hm hstep hfollows hjob rfl rfl ?_ (List.append_nil _).symm hcode hadd
      rfl rfl (by simp)⟩
    rw [h.groups, Function.update_eq_self]
  · have hnew : m.id ∉ g₀.ids := fun hmem => hid ⟨SplitJob.id_ne_empty hm, hmem⟩
    rw [← hgroup] at hg₀
    have hjob := (h.jobs J hJ).addNew ht hm hunsettled hg₀ hnew s.store.appended
    exact ⟨_, h.answer hJ ht hm hstep hfollows hjob rfl rfl hw.lookup (List.append_nil _).symm hcode
      hadd rfl rfl (by simp)⟩

include h hJ hm hg hsmooth hstep in
theorem BatchInv.deciding {group : Snapshot P}
    (ht : (V (B.key J)).stage t = some (m, .deciding group))
    (hfollows : Follows (.deciding group) (B.key J) m g) :
    ∃ V', BatchInv B foreign s₀ s' (os ++ (emitted s (.proceed t choice)).toList) V' := by
  have hserve : serve choice s.store (.release group) =
      (.returned (defaultRelease foreign group, none), s.store) := by
    rw [serve, hsmooth.release]
  cases hrelease : defaultRelease foreign group with
  | false =>
      rw [hrelease] at hserve
      have hjob : JobState J (B.key J) foreign ((V (B.key J)).set t m .done) :=
        (h.jobs J hJ).quiet ht rfl rfl rfl hrelease.symm
      exact h.quiet hJ hm hg hstep ht hfollows hjob rfl hserve rfl rfl (by simp) (by simp)
  | true =>
      rw [hrelease] at hserve
      have hjob : JobState J (B.key J) foreign ((V (B.key J)).set t m (.claiming group)) :=
        (h.jobs J hJ).quiet ht rfl rfl rfl hrelease.symm
      exact h.quiet hJ hm hg hstep ht hfollows hjob rfl hserve rfl rfl (by simp) (by simp)

include h hJ hm hg hstep in
theorem BatchInv.claiming {group : Snapshot P}
    (ht : (V (B.key J)).stage t = some (m, .claiming group))
    (hfollows : Follows (.claiming group) (B.key J) m g) :
    ∃ V', BatchInv B foreign s₀ s' (os ++ (emitted s (.proceed t choice)).toList) V' := by
  have hcode : (Phase.claiming group).code (B.key J) m = .ask (.claimGroup (B.key J)) _ := rfl
  have hgroup := h.groups (B.key J)
  obtain ⟨claim, st', hclaim⟩ : ∃ claim st', s.store.claimGroup (B.key J) = (claim, st') :=
    ⟨_, _, rfl⟩
  have hserve : serve choice s.store (.claimGroup (B.key J)) = (.ok claim, st') := by
    rw [serve, hclaim]
  cases claim with
  | none =>
      obtain rfl := claimGroup_eq_none hclaim
      have hjob : JobState J (B.key J) foreign ((V (B.key J)).set t m .done) := by
        apply (h.jobs J hJ).declined ht
        intro g₀ hg₀
        rw [hgroup] at hg₀
        cases hleased : g₀.leased with
        | true => rfl
        | false => simp [GroupStore.claimGroup, hg₀, hleased] at hclaim
      exact h.quiet hJ hm hg hstep ht hfollows hjob hcode hserve rfl rfl (by simp) (by simp)
  | some claim =>
      obtain ⟨g₀, hg₀, hfree, rfl, hw, -⟩ := claimGroup_eq_some hclaim
      have hjob := (h.jobs J hJ).claim ht (hgroup.trans hg₀) hfree
      rw [emitted_of_ask hg (hfollows.code.trans hcode) (by simp)]
      exact ⟨_, h.answer hJ ht hm hstep hfollows hjob rfl rfl hw.lookup (List.append_nil _).symm
        hcode hserve rfl rfl (by simp)⟩

include h hJ hm hg hsmooth hstep in
theorem BatchInv.aggregating {claim : ClaimGroup P}
    (ht : (V (B.key J)).stage t = some (m, .aggregating claim))
    (hfollows : Follows (.aggregating claim) (B.key J) m g) :
    ∃ V', BatchInv B foreign s₀ s' (os ++ (emitted s (.proceed t choice)).toList) V' := by
  obtain ⟨out, hout⟩ := hsmooth.aggregate claim.msgs
  have hjob := (h.jobs J hJ).aggregate ht out
  have hserve : serve choice s.store (.aggregate claim.msgs) = (.returned (.ok out), s.store) := by
    rw [serve, hout]
  refine h.quiet hJ hm hg hstep ht hfollows hjob rfl hserve rfl rfl ?_ (by simp)
  intro claim' out' heq
  obtain ⟨rfl, -⟩ := Phase.sending.inj heq
  exact ⟨_, rfl⟩

include h hJ hm hg hsmooth hstep in
theorem BatchInv.sending {claim : ClaimGroup P} {out : Message P}
    (ht : (V (B.key J)).stage t = some (m, .sending claim out))
    (hfollows : Follows (.sending claim out) (B.key J) m g) :
    ∃ V', BatchInv B foreign s₀ s' (os ++ (emitted s (.proceed t choice)).toList) V' := by
  have hcode : (Phase.sending claim out).code (B.key J) m = .ask (.send out) _ := rfl
  obtain ⟨r, events, hevents⟩ := hfollows.aggregated claim out rfl
  have hserve : serve choice s.store (.send out) = (.returned none, s.store) := by
    rw [serve, hsmooth.send]
  rw [emitted_of_send hg (hfollows.code.trans hcode) hevents (hsmooth.send out)]
  refine ⟨_, h.answer hJ ht hm hstep hfollows ((h.jobs J hJ).send ht) rfl rfl ?_ rfl hcode hserve rfl
    rfl (by simp)⟩
  rw [h.groups, Function.update_eq_self]

include h hJ hm hg hstep in
theorem BatchInv.settling {claim : ClaimGroup P}
    (ht : (V (B.key J)).stage t = some (m, .settling claim))
    (hfollows : Follows (.settling claim) (B.key J) m g) :
    ∃ V', BatchInv B foreign s₀ s' (os ++ (emitted s (.proceed t choice)).toList) V' := by
  have hcode : (Phase.settling claim).code (B.key J) m = .ask (.settleGroup claim) _ := rfl
  obtain ⟨g₀, hheld, -⟩ := (h.jobs J hJ).heldBy_of_settling ht
  have hkey := hheld.named
  have hg₀ := hheld.group
  have hleased := hheld.leased
  rw [h.groups, ← hkey] at hg₀
  have hfenced : s.store.fenced claim = some g₀ := by
    simp [GroupStore.fenced, hg₀, Option.filter, hleased.leased, hleased.epoch]
  -- The claim has all members of the group, so nothing stays.
  have hempty : g₀.settled choice.now = none := by
    simp [GroupState.settled, hleased.claimedLen]
  have hstore : s.store.settleGroup claim choice.now =
      { s.store with groups := s.store.groups.erase claim.key } := by
    simp only [GroupStore.settleGroup, hfenced, hempty]
  have hs' := proceed_of_ask (hfollows.code.trans hcode) hstep
  rw [emitted_of_ask hg (hfollows.code.trans hcode) (by simp)]
  have hsettled : s'.settled = [⟨claim, g.events⟩] ++ s.settled := by
    rw [hs', settlementOf, hfenced]
    rfl
  have hfollows' : Follows .drained (B.key J) m
      ⟨g.given, .ret (.draining claim.key .member), ⟨.settleGroup claim, none⟩ :: g.events⟩ :=
    ⟨hfollows.given, by rw [hkey]; rfl, by simp⟩
  refine ⟨_, h.advance hJ hm (h.fresh _ t _ ht) (h.others_none ht) ((h.jobs J hJ).settle ht)
    rfl ?_ ?_ hfollows' hsettled ?_ ?_ (List.append_nil _).symm⟩
  · rw [hs', ← hkey]
    simp only [serve, hstore]
    exact lookup_erase_eq _ _
  · rw [hs']
    rfl
  · simpa using hkey
  · simp

include h hJ hm hg hstep in
theorem BatchInv.drained (ht : (V (B.key J)).stage t = some (m, .drained))
    (hfollows : Follows .drained (B.key J) m g) :
    ∃ V', BatchInv B foreign s₀ s' (os ++ (emitted s (.proceed t choice)).toList) V' := by
  have hcode : g.code = .ret (.draining (B.key J) .member) := hfollows.code
  have hjob : JobState J (B.key J) foreign ((V (B.key J)).set t m .draining) :=
    ((h.jobs J hJ).drain ht (Or.inl rfl) (Or.inr (Or.inr rfl)) rfl).2
  have hfollows' : Follows .draining (B.key J) m
      { g with code := drain (B.key J) .member } := ⟨hfollows.given, rfl, by simp⟩
  rw [emitted_of_ret hg hcode]
  simp only [AggregatorState.proceed, hcode, Control.code, Option.map_some, Option.some.injEq]
    at hstep
  have hsettled : s'.settled = [] ++ s.settled := by
    rw [← hstep]
    rfl
  refine ⟨_, h.advance hJ hm (h.fresh _ t _ ht) (h.others_none ht) hjob rfl ?_ ?_ hfollows'
    hsettled (by simp) (by simp) (List.append_nil _).symm⟩
  · rw [h.groups, Function.update_eq_self, ← hstep]
  · rw [← hstep]

include h hJ hm hg hstep in
theorem BatchInv.draining (ht : (V (B.key J)).stage t = some (m, .draining))
    (hfollows : Follows .draining (B.key J) m g) :
    ∃ V', BatchInv B foreign s₀ s' (os ++ (emitted s (.proceed t choice)).toList) V' := by
  obtain ⟨hgroup, hjob⟩ : _ ∧ JobState J (B.key J) foreign ((V (B.key J)).set t m .done) :=
    (h.jobs J hJ).drain ht (Or.inr rfl) (Or.inl rfl) rfl
  rw [h.groups] at hgroup
  have hserve : serve choice s.store (.claimGroup (B.key J)) = (.ok none, s.store) := by
    simp only [serve, GroupStore.claimGroup, hgroup]
  exact h.quiet hJ hm hg hstep ht hfollows hjob rfl hserve rfl rfl (by simp) (by simp)

end Turn

end Msgin.Routing
