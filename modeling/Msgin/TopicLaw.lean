import Msgin.TopicPublications

/-!
# Whole runs of the topic registry

What subscribers, publishers and the registry's owner may rely on, from the start of a registry
and under every interleaving of the calls.
-/

namespace Msgin.Channel

variable {P H : Type} {s s' : TopicState P H}

theorem cfg_of_step {l : TopicLabel P H} (hstep : TopicStep s l s') :
    s'.pubSub.cfg = s.pubSub.cfg := by
  cases hstep with
  | opens t topic h idle free =>
      change (s.pubSub.openTopic t topic).2.cfg = s.pubSub.cfg
      unfold PubSub.openTopic
      split <;> rfl
  | removes t c sub idle given =>
      unfold TopicState.cancelOnce
      split <;> rfl
  | declines | rejects | registers | skips | finds | faults | snapshots | handles | joins | locks
  | passes | drops | keeps => rfl

structure TopicInv (opts : List (Option PubSubOption)) (s : TopicState P H) : Prop where
  registry : RegistryInv s
  handled : HandledInv s
  cfg : s.pubSub.cfg = (newPubSub H opts).cfg

theorem topicInv_initial (opts : List (Option PubSubOption)) : TopicInv opts (.initial P H opts) :=
  ⟨registryInv_initial opts, fun _ _ => rfl, rfl⟩

section Runs

variable {opts : List (Option PubSubOption)} {ls : List (TopicLabel P H)}

theorem TopicInv.run (h : TopicInv opts s)
    (hrun : TransitionRuns.run TopicState.step s ls = some s') : TopicInv opts s' := by
  refine TransitionRuns.run_invariant TopicState.step ?_ h hrun
  intro s l s' h hstep
  have hcases := topicStep_of_step hstep
  exact ⟨h.registry.step hcases, h.handled.step hcases, (cfg_of_step hcases).trans h.cfg⟩

variable {sub : TopicSubscription H} {c : ℕ}

theorem once_of_run (hc : c ∈ s.once) (hrun : TransitionRuns.run TopicState.step s ls = some s') :
    c ∈ s'.once := by
  refine TransitionRuns.run_invariant (I := fun s => c ∈ s.once) TopicState.step ?_ hc hrun
  intro s l s' hc hstep
  exact once_of_step (topicStep_of_step hstep) hc

theorem TopicInv.registered (h : TopicInv opts s) (hc : s.calls c = .subscribed sub)
    (hlive : c ∉ s.once) :
    s.pubSub.topics.lookup sub.topic = some sub.ch ∧
      ((s.pubSub.chans sub.ch).subs.filter fun x => x.id = c) = [sub.inner] := by
  have hgives : s.gives c = some sub := TopicCall.gives_eq_some.mpr hc
  exact ⟨h.registry.routed.mapped c sub hgives hlive, h.registry.listed.filter_eq hgives hlive⟩

theorem TopicInv.single (h : TopicInv opts s) (hsingle : (newPubSub H opts).cfg.single = true)
    {d : ℕ} {sub' : TopicSubscription H} (hc : s.calls c = .subscribed sub)
    (hd : s.calls d = .subscribed sub') (hlivec : c ∉ s.once) (hlived : d ∉ s.once)
    (htopic : sub.topic = sub'.topic) : c = d := by
  obtain ⟨hlookup, hfilter⟩ := h.registered hc hlivec
  obtain ⟨hlookup', hfilter'⟩ := h.registered hd hlived
  have hch : sub.ch = sub'.ch := by
    rw [htopic, hlookup', Option.some.injEq] at hlookup
    exact hlookup.symm
  rw [← hch] at hfilter'
  have halone := h.registry.uniform.alone (h.cfg ▸ hsingle) sub.ch
  have hmem : ∀ {e : ℕ} {x : Subscription H}, ((s.pubSub.chans sub.ch).subs.filter
      fun y => y.id = e) = [x] → x ∈ (s.pubSub.chans sub.ch).subs ∧ x.id = e := by
    intro e x hx
    have hx' : x ∈ (s.pubSub.chans sub.ch).subs.filter fun y => y.id = e := by
      rw [hx]
      exact List.mem_singleton_self x
    exact ⟨(List.mem_filter.mp hx').1, of_decide_eq_true (List.mem_filter.mp hx').2⟩
  obtain ⟨hin, rfl⟩ := hmem hfilter
  obtain ⟨hin', rfl⟩ := hmem hfilter'
  generalize (s.pubSub.chans sub.ch).subs = xs at halone hin hin'
  cases xs with
  | nil => cases hin
  | cons x xs =>
      have hlen : xs.length ≤ 0 := Nat.le_of_succ_le_succ halone
      obtain rfl : xs = [] := List.length_eq_zero_iff.mp (Nat.le_zero.mp hlen)
      rw [List.mem_singleton.mp hin, List.mem_singleton.mp hin']

def TopicCall.underWay : TopicCall P H → Bool
  | registering _ _ _ | sending _ _ | fanning _ _ _ _ | dropping _ | checking _ => true
  | idle | subscribed _ | cancelled _ | returned _ => false

theorem TopicInv.emptied (h : TopicInv opts s) (hdone : ∀ t, (s.calls t).underWay = false)
    (hcancelled : ∀ c sub, s.calls c = .subscribed sub → ∃ t, s.calls t = .cancelled sub) :
    s.pubSub.topics.entries = [] := by
  refine List.eq_nil_iff_forall_not_mem.mpr ?_
  rintro ⟨topic, ch⟩ hmem
  have hlookup : s.pubSub.topics.lookup topic = some ch := AList.mem_lookup_iff.mpr hmem
  cases hsubs : s.pubSub.subs ch with
  | nil =>
      obtain ⟨t, ht⟩ := h.registry.routed.pending topic ch hlookup hsubs
      have hidle := hdone t
      change (s.calls t).pends = _ at ht
      generalize s.calls t = c at ht hidle
      cases c with
      | registering | sending | fanning | dropping | checking => cases hidle
      | idle | subscribed | cancelled | returned => cases ht
  | cons x xs =>
      have hx : x ∈ s.pubSub.subs ch := hsubs ▸ List.mem_cons_self
      obtain ⟨sub, hgives, rfl, -, hlive⟩ := (h.registry.listed.members ch x).mp hx
      obtain ⟨t, ht⟩ := hcancelled _ sub (TopicCall.gives_eq_some.mp hgives)
      exact hlive (h.registry.listed.cancelled t sub (congrArg TopicCall.cancels ht))

theorem TopicInv.published (h : TopicInv opts s) {t : ℕ} {msg : Message P}
    {ls' : List (TopicLabel P H)} {s₂ s₃ : TopicState P H} (hc : s.calls c = .subscribed sub)
    (hlookup : TransitionRuns.run TopicState.step s (.publish t sub.topic msg :: ls) = some s₂)
    (hlive : c ∉ s₂.once)
    (hsnapshot : TransitionRuns.run TopicState.step s₂ (.snapshot t :: ls') = some s₃) :
    CallsOnce t sub.inner msg s₃ := by
  have hlive₁ : c ∉ s.once := fun hmem => hlive (once_of_run hmem hlookup)
  have h₂ := h.run hlookup
  obtain ⟨s₁, hpublish, hwait⟩ := (TransitionRuns.run_cons_eq_some _).mp hlookup
  obtain ⟨s₂', htake, hrest⟩ := (TransitionRuns.run_cons_eq_some _).mp hsnapshot
  obtain ⟨hmapped, -⟩ := h.registered hc hlive₁
  have hsending₁ : s₁.calls t = .sending sub.ch msg ∨ (s₁.calls t).fanned = true := by
    cases topicStep_of_step hpublish with
    | skips _ _ _ err idle =>
        refine .inr ?_
        rw [show (s.put t (.returned err)).calls t = .returned err from Function.update_self ..]
        rfl
    | finds _ _ _ ch idle found =>
        rw [hmapped, Option.some.injEq] at found
        exact .inl (found ▸ Function.update_self ..)
  have hsending₂ : s₂.calls t = .sending sub.ch msg ∨ (s₂.calls t).fanned = true := by
    refine TransitionRuns.run_invariant
      (I := fun s => s.calls t = .sending sub.ch msg ∨ (s.calls t).fanned = true)
      TopicState.step ?_ hsending₁ hwait
    intro s l s' h hstep
    exact sending_of_step (topicStep_of_step hstep) h
  have hgiven₂ : s₂.calls c = .subscribed sub := by
    refine TransitionRuns.run_invariant (I := fun s => s.calls c = .subscribed sub)
      TopicState.step ?_ hc hlookup
    intro s l s' hc hstep
    exact subscribed_of_step (topicStep_of_step hstep) hc
  have hfans : FansOut t msg (s₂.pubSub.subs sub.ch) s₂' := by
    cases topicStep_of_step htake with
    | faults _ ch msg' err here latched =>
        rw [(h₂.registry.uniform.plain ch).1] at latched
        cases latched
    | snapshots _ ch msg' here =>
        rw [here] at hsending₂
        rcases hsending₂ with hsame | hfanned
        · cases hsame
          refine .inl ⟨_, [], _, _, rfl, Function.update_self .., ?_⟩
          exact h₂.handled t (by rw [here]; rfl)
        · cases hfanned
  have hfans₃ : FansOut t msg (s₂.pubSub.subs sub.ch) s₃ := by
    refine TransitionRuns.run_invariant TopicState.step ?_ hfans hrest
    intro s l s' h hstep
    exact h.step (topicStep_of_step hstep)
  refine hfans₃.callsOnce ?_
  rw [h₂.registry.listed.named c sub (TopicCall.gives_eq_some.mpr hgiven₂)]
  exact (h₂.registered hgiven₂ hlive).2

theorem TopicInv.silent (h : TopicInv opts s) {t u : ℕ} (hcancelled : s.calls u = .cancelled sub)
    (hidle : s.calls t = .idle) (hrun : TransitionRuns.run TopicState.step s ls = some s') :
    ∀ k ∈ s'.handledBy t, k.sub.id ≠ sub.inner.id := by
  have hstart : Silent sub.inner.id t s := by
    refine ⟨h.registry.listed.cancelled u sub (congrArg TopicCall.cancels hcancelled), ?_, ?_⟩
    · intro policy msg rest errs hfanning
      rw [hidle] at hfanning
      cases hfanning
    · intro k hk
      rw [h.handled t (by rw [hidle]; rfl)] at hk
      cases hk
  have hend : TopicInv opts s' ∧ Silent sub.inner.id t s' := by
    refine TransitionRuns.run_invariant
      (I := fun s => TopicInv opts s ∧ Silent sub.inner.id t s) TopicState.step ?_ ⟨h, hstart⟩ hrun
    rintro s l s' ⟨h, hsilent⟩ hstep
    have hone : TransitionRuns.run TopicState.step s [l] = some s' := by
      rw [TransitionRuns.run_cons, hstep]
      rfl
    exact ⟨h.run hone, hsilent.step h.registry (topicStep_of_step hstep)⟩
  exact hend.2.behind

/-- What the registry owes its users in the state `s`. A subscription is live from its `Subscribe`
until a `Cancel` removes it. -/
structure RegistryLaw (opts : List (Option PubSubOption)) (s : TopicState P H) : Prop where
  registered : ∀ c sub, s.calls c = .subscribed sub → c ∉ s.once →
    s.pubSub.topics.lookup sub.topic = some sub.ch ∧
      ((s.pubSub.chans sub.ch).subs.filter fun x => x.id = c) = [sub.inner]
  published : ∀ c sub t msg ls₂ s₂ ls₃ s₃, s.calls c = .subscribed sub →
    TransitionRuns.run TopicState.step s (.publish t sub.topic msg :: ls₂) = some s₂ →
    c ∉ s₂.once →
    TransitionRuns.run TopicState.step s₂ (.snapshot t :: ls₃) = some s₃ →
    CallsOnce t sub.inner msg s₃
  silent : ∀ u sub t ls₂ s₂, s.calls u = .cancelled sub → s.calls t = .idle →
    TransitionRuns.run TopicState.step s ls₂ = some s₂ →
    ∀ k ∈ s₂.handledBy t, k.sub.id ≠ sub.inner.id
  single : (newPubSub H opts).cfg.single = true → ∀ c d sub sub', s.calls c = .subscribed sub →
    s.calls d = .subscribed sub' → c ∉ s.once → d ∉ s.once → sub.topic = sub'.topic → c = d
  emptied : (∀ t, (s.calls t).underWay = false) →
    (∀ c sub, s.calls c = .subscribed sub → ∃ t, s.calls t = .cancelled sub) →
    s.pubSub.topics.entries = []

theorem registry_law (opts : List (Option PubSubOption)) (ls : List (TopicLabel P H))
    (hrun : TransitionRuns.run TopicState.step (.initial P H opts) ls = some s) :
    RegistryLaw opts s := by
  have h := (topicInv_initial opts).run hrun
  refine ⟨?_, ?_, ?_, ?_, h.emptied⟩
  · intro c sub hc hlive
    exact h.registered hc hlive
  · intro c sub t msg ls₂ s₂ ls₃ s₃ hc hlookup hlive hsnapshot
    exact h.published hc hlookup hlive hsnapshot
  · intro u sub t ls₂ s₂ hcancelled hidle hrun₂
    exact h.silent hcancelled hidle hrun₂
  · intro hsingle c d sub sub' hc hd hlivec hlived htopic
    exact h.single hsingle hc hd hlivec hlived htopic

end Runs

def panicLabels : List (TopicLabel Unit ℕ) :=
  [.subscribe 0 "orders" (some 7), .register 0, .subscribe 1 "orders" (some 8), .register 1,
    .cancel 2 0, .publish 3 "orders" blankMessage, .lock 2, .snapshot 3, .drop 2,
    .handle 3 (.panicked "boom"), .join 3, .cancel 4 1, .lock 4, .drop 4]

theorem registry_law_panics :
    ∃ s, TransitionRuns.run TopicState.step (.initial Unit ℕ []) panicLabels = some s ∧
      RegistryLaw [] s := by
  obtain ⟨s, hs⟩ : ∃ s, TransitionRuns.run TopicState.step (.initial Unit ℕ []) panicLabels =
      some s := ⟨_, rfl⟩
  exact ⟨s, hs, registry_law [] panicLabels hs⟩

end Msgin.Channel
