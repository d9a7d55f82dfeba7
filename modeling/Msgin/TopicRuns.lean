import Msgin.TopicInvariant

/-!
# Runs of the topic registry

The invariant holds in every state that the calls reach, under every interleaving.
-/

namespace Msgin.Channel

variable {P H : Type} {s s' : TopicState P H}

structure Uniform (chans : ℕ → PublishSubscribeChannel H) (cfg : PubSubConfig) : Prop where
  plain : ∀ ch, (chans ch).err = none ∧ (chans ch).cfg = cfg
  alone : cfg.single = true → ∀ ch, (chans ch).subs.length ≤ 1

variable {handled : List (HandlerCall P H)} {c : PublishSubscribeChannel H} {ch : ℕ}

theorem Uniform.update {chans : ℕ → PublishSubscribeChannel H} {cfg : PubSubConfig}
    (h : Uniform chans cfg) (hc : c.err = none ∧ c.cfg = cfg)
    (halone : cfg.single = true → c.subs.length ≤ 1) :
    Uniform (Function.update chans ch c) cfg := by
  constructor
  · intro k
    by_cases hk : k = ch
    · subst hk
      rw [Function.update_self]
      exact hc
    · rw [Function.update_of_ne hk]
      exact h.plain k
  · intro hsingle k
    by_cases hk : k = ch
    · subst hk
      rw [Function.update_self]
      exact halone hsingle
    · rw [Function.update_of_ne hk]
      exact h.alone hsingle k

structure RegistryInv (s : TopicState P H) : Prop where
  locked : Locked s.pubSub.mu s.pubSub.topics s.holds
  listed : Listed s.pubSub.subs s.gives s.cancels s.once
  routed : Routed s.pubSub.topics s.pubSub.made s.pubSub.subs s.gives s.pends s.once
  uniform : Uniform s.pubSub.chans s.pubSub.cfg

theorem registryInv_initial (opts : List (Option PubSubOption)) :
    RegistryInv (.initial P H opts) := by
  refine ⟨⟨?_, ?_⟩, ⟨?_, ?_, ?_, ?_, ?_⟩, ⟨?_, ?_, ?_, ?_⟩, ⟨?_, ?_⟩⟩
  · intro t
    constructor <;> intro h <;> cases h
  · intro t k h
    cases h
  · intro c sub h
    cases h
  · intro c h
    cases h
  · intro t sub h
    cases h
  · intro ch x
    constructor
    · intro h
      cases h
    · rintro ⟨sub, h, -⟩
      cases h
  · intro ch
    exact List.nodup_nil
  · intro topic ch h
    cases h
  · intro a b ch h
    cases h
  · intro c sub h
    cases h
  · intro topic ch h
    cases h
  · intro ch
    exact ⟨rfl, rfl⟩
  · intro _ ch
    exact Nat.zero_le _

theorem subs_setChannel (p : PubSub H) (ch : ℕ) (c : PublishSubscribeChannel H) :
    (p.setChannel ch c).subs = Function.update p.subs ch c.subs :=
  funext (Function.apply_update (fun _ => PublishSubscribeChannel.subs) p.chans ch c)

theorem registryInv_put {t : ℕ} {c : TopicCall P H} {p : PubSub H} {once : List ℕ}
    (hgives : s.gives t = none) (hc : c.gives = none)
    (locked : Locked p.mu p.topics (Function.update s.holds t c.holds))
    (listed : Listed p.subs s.gives (Function.update s.cancels t c.cancels) once)
    (routed : Routed p.topics p.made p.subs s.gives (Function.update s.pends t c.pends) once)
    (uniform : Uniform p.chans p.cfg) :
    RegistryInv (TopicState.put ⟨p, s.calls, once, handled⟩ t c) := by
  have hsame : (TopicState.put ⟨p, s.calls, once, handled⟩ t c).gives = s.gives :=
    (TopicState.gives_put _ t c).trans (KeyedMaps.update_eq_self_of (hgives.trans hc.symm))
  refine ⟨?_, ?_, ?_, uniform⟩
  · rw [TopicState.holds_put]
    exact locked
  · rw [hsame, TopicState.cancels_put]
    exact listed
  · rw [hsame, TopicState.pends_put]
    exact routed

/-- A call that means nothing to the others. -/
def TopicCall.Quiet (c : TopicCall P H) : Prop :=
  c.holds = none ∧ c.pends = none ∧ c.cancels = none ∧ c.gives = none

theorem quiet_idle : (TopicCall.idle : TopicCall P H).Quiet := ⟨rfl, rfl, rfl, rfl⟩

theorem quiet_sending (ch : ℕ) (msg : Message P) :
    (TopicCall.sending ch msg : TopicCall P H).Quiet := ⟨rfl, rfl, rfl, rfl⟩

theorem quiet_fanning (policy : FanOutPolicy) (msg : Message P) (rest : List (Subscription H))
    (errs : List Err) : (TopicCall.fanning policy msg rest errs).Quiet := ⟨rfl, rfl, rfl, rfl⟩

theorem quiet_returned (err : Option Err) : (TopicCall.returned err : TopicCall P H).Quiet :=
  ⟨rfl, rfl, rfl, rfl⟩

section Steps

variable (h : RegistryInv s) {t : ℕ} {sub : TopicSubscription H}

include h

theorem RegistryInv.listed_put {c₀ : TopicCall P H} (c : TopicCall P H) (here : s.calls t = c₀)
    (hc : c₀.cancels = c.cancels) :
    Listed s.pubSub.subs s.gives (Function.update s.cancels t c.cancels) s.once := by
  have hsame : s.cancels t = c.cancels := (congrArg TopicCall.cancels here).trans hc
  rw [KeyedMaps.update_eq_self_of hsame]
  exact h.listed

theorem RegistryInv.quiet {c : TopicCall P H} (here : (s.calls t).Quiet) (hc : c.Quiet) :
    RegistryInv (TopicState.put ⟨s.pubSub, s.calls, s.once, handled⟩ t c) := by
  obtain ⟨hholds, hpends, hcancels, hgives⟩ := here
  have hholds : Function.update s.holds t c.holds = s.holds :=
    KeyedMaps.update_eq_self_of (hholds.trans hc.1.symm)
  have hpends : Function.update s.pends t c.pends = s.pends :=
    KeyedMaps.update_eq_self_of (hpends.trans hc.2.1.symm)
  exact registryInv_put hgives hc.2.2.2 (hholds.symm ▸ h.locked)
    (h.listed_put c rfl (hcancels.trans hc.2.2.1.symm)) (hpends.symm ▸ h.routed) h.uniform

theorem RegistryInv.subs_made : s.pubSub.subs s.pubSub.made = [] := by
  refine List.eq_nil_iff_forall_not_mem.mpr fun x hx => ?_
  obtain ⟨y, hy, -, hch, hlive⟩ := (h.listed.members _ x).mp hx
  have hlookup := h.routed.mapped x.id y hy hlive
  rw [hch] at hlookup
  exact Nat.lt_irrefl _ (h.routed.bounded _ _ hlookup)

theorem RegistryInv.opens (topic : String) (handler : H) (idle : s.calls t = .idle)
    (free : s.pubSub.mu = none) :
    RegistryInv ({ s with pubSub := (s.pubSub.openTopic t topic).2 }.put t
      (.registering topic (s.pubSub.openTopic t topic).1 handler)) := by
  have hgives : s.gives t = none := congrArg TopicCall.gives idle
  have hpends : s.pends t = none := congrArg TopicCall.pends idle
  have hlisted := h.listed_put .idle idle rfl
  unfold PubSub.openTopic
  split
  · next ch hfound =>
      exact registryInv_put hgives rfl (h.locked.acquire free hfound) hlisted
        (h.routed.enter hpends _) h.uniform
  · next hnew =>
      have hsubs : (s.pubSub.setChannel s.pubSub.made (topicChannel H s.pubSub.cfg)).subs =
          s.pubSub.subs := (subs_setChannel _ _ _).trans (KeyedMaps.update_eq_self_of h.subs_made)
      have hrouted := h.routed.create hpends hnew
      rw [← hsubs] at hlisted hrouted
      refine registryInv_put hgives rfl (h.locked.acquire free (AList.lookup_insert _)) hlisted
        hrouted ?_
      exact h.uniform.update ⟨rfl, rfl⟩ fun _ => Nat.zero_le _

theorem RegistryInv.rejects {topic : String} {handler : H} {err : Err}
    (here : s.calls t = .registering topic ch handler)
    (refused : (s.pubSub.chans ch).subscribe t (some handler) = .error err) :
    RegistryInv ({ s with pubSub := s.pubSub.unlock }.put t (.returned (some err))) := by
  have hgives : s.gives t = none := congrArg TopicCall.gives here
  have hholds : s.holds t = some (topic, ch) := congrArg TopicCall.holds here
  have hpends : s.pends t = some (topic, ch) := congrArg TopicCall.pends here
  have hoccupied := subs_ne_nil_of_refused (h.uniform.plain ch).1 refused
  refine registryInv_put hgives rfl ?_ ?_ ?_ h.uniform
  · exact h.locked.release (by rw [hholds]; rfl)
  · exact h.listed_put _ here rfl
  · exact h.routed.leave hpends fun _ => hoccupied

theorem RegistryInv.registers {topic : String} {handler : H} {inner : Subscription H}
    (here : s.calls t = .registering topic ch handler)
    (accepted : (s.pubSub.chans ch).subscribe t (some handler) = .ok (inner, c)) :
    RegistryInv ({ s with pubSub := (s.pubSub.setChannel ch c).unlock }.put t
      (.subscribed ⟨topic, ch, inner⟩)) := by
  obtain ⟨rfl, rfl, hfirst⟩ := subscribe_eq_ok accepted
  have hgives : s.gives t = none := congrArg TopicCall.gives here
  have hholds : s.holds t = some (topic, ch) := congrArg TopicCall.holds here
  have hpends : s.pends t = some (topic, ch) := congrArg TopicCall.pends here
  have hcancels : Function.update s.cancels t none = s.cancels :=
    KeyedMaps.update_eq_self_of (congrArg TopicCall.cancels here)
  have hsubs := subs_setChannel s.pubSub ch
    { s.pubSub.chans ch with subs := (s.pubSub.chans ch).subs ++ [⟨t, handler⟩] }
  have hlisted := h.listed.register ⟨topic, ch, ⟨t, handler⟩⟩ hgives rfl
  have hrouted := h.routed.register ⟨topic, ch, ⟨t, handler⟩⟩ hpends
    (h.locked.entered t _ hholds) ⟨t, handler⟩
  refine ⟨?_, ?_, ?_, ?_⟩
  · rw [TopicState.holds_put]
    exact h.locked.release (by rw [hholds]; rfl)
  · rw [TopicState.gives_put, TopicState.cancels_put]
    rw [← hcancels] at hlisted
    exact hsubs.symm ▸ hlisted
  · rw [TopicState.gives_put, TopicState.pends_put]
    exact hsubs.symm ▸ hrouted
  · refine h.uniform.update (h.uniform.plain ch) fun hsingle => ?_
    rw [hfirst ((h.uniform.plain ch).2.symm ▸ hsingle)]
    exact Nat.le_refl _

theorem RegistryInv.removes {c : ℕ} (idle : s.calls t = .idle)
    (given : s.calls c = .subscribed sub) :
    RegistryInv ((s.cancelOnce sub).put t (.dropping sub)) := by
  have hgives : s.gives t = none := congrArg TopicCall.gives idle
  have hpends : s.pends t = none := congrArg TopicCall.pends idle
  have hholds : Function.update s.holds t none = s.holds :=
    KeyedMaps.update_eq_self_of (congrArg TopicCall.holds idle)
  have hc : s.gives c = some sub := TopicCall.gives_eq_some.mpr given
  obtain rfl := h.listed.named c sub hc
  unfold TopicState.cancelOnce
  split
  · next hfired =>
      exact registryInv_put hgives rfl (hholds.symm ▸ h.locked) (h.listed.cancel hfired)
        (h.routed.enter hpends _) h.uniform
  · next hlive =>
      have hsubs := subs_setChannel s.pubSub sub.ch ((s.pubSub.chans sub.ch).remove sub.inner)
      have hlisted := (h.listed.remove hc).cancel (t := t) List.mem_cons_self
      have hrouted := h.routed.remove hpends hc hlive
        ((s.pubSub.subs sub.ch).eraseP fun y => y.id == sub.inner.id)
      refine registryInv_put hgives rfl (hholds.symm ▸ h.locked) (hsubs.symm ▸ hlisted)
        (hsubs.symm ▸ hrouted) ?_
      refine h.uniform.update (h.uniform.plain sub.ch) fun hsingle => ?_
      exact Nat.le_trans (List.Sublist.length_le List.eraseP_sublist)
        (h.uniform.alone hsingle sub.ch)

theorem RegistryInv.locks (here : s.calls t = .dropping sub) (free : s.pubSub.mu = none)
    (found : s.pubSub.topics.lookup sub.topic = some sub.ch) :
    RegistryInv ({ s with pubSub.mu := some t }.put t (.checking sub)) := by
  have hgives : s.gives t = none := congrArg TopicCall.gives here
  have hpends : Function.update s.pends t (some (sub.topic, sub.ch)) = s.pends :=
    KeyedMaps.update_eq_self_of (congrArg TopicCall.pends here)
  exact registryInv_put hgives rfl (h.locked.acquire free found)
    (h.listed_put _ here rfl) (hpends.symm ▸ h.routed) h.uniform

theorem RegistryInv.passes (here : s.calls t = .dropping sub)
    (gone : s.pubSub.topics.lookup sub.topic ≠ some sub.ch) :
    RegistryInv (s.put t (.cancelled sub)) := by
  have hgives : s.gives t = none := congrArg TopicCall.gives here
  have hholds : Function.update s.holds t none = s.holds :=
    KeyedMaps.update_eq_self_of (congrArg TopicCall.holds here)
  have hpends : s.pends t = some (sub.topic, sub.ch) := congrArg TopicCall.pends here
  exact registryInv_put hgives rfl (hholds.symm ▸ h.locked)
    (h.listed_put _ here rfl)
    (h.routed.leave hpends fun hfound => absurd hfound gone) h.uniform

theorem RegistryInv.drops (here : s.calls t = .checking sub)
    (empty : (s.pubSub.chans sub.ch).subs = []) :
    RegistryInv ({ s with pubSub := (s.pubSub.dropTopic sub.topic).unlock }.put t
      (.cancelled sub)) := by
  have hgives : s.gives t = none := congrArg TopicCall.gives here
  have hholds : s.holds t = some (sub.topic, sub.ch) := congrArg TopicCall.holds here
  have hunused : ∀ c x, s.gives c = some x → c ∉ s.once → x.ch ≠ sub.ch := by
    intro c x hx hlive hch
    have hfilter := h.listed.filter_eq hx hlive
    have hempty : s.pubSub.subs x.ch = [] := hch ▸ empty
    rw [hempty] at hfilter
    cases hfilter
  refine registryInv_put hgives rfl ?_ ?_ ?_ h.uniform
  · exact h.locked.release (by rw [hholds]; rfl)
  · exact h.listed_put _ here rfl
  · exact h.routed.drop (congrArg TopicCall.pends here) (h.locked.entered t _ hholds) hunused

theorem RegistryInv.keeps (here : s.calls t = .checking sub)
    (occupied : (s.pubSub.chans sub.ch).subs ≠ []) :
    RegistryInv ({ s with pubSub := s.pubSub.unlock }.put t (.cancelled sub)) := by
  have hgives : s.gives t = none := congrArg TopicCall.gives here
  have hholds : s.holds t = some (sub.topic, sub.ch) := congrArg TopicCall.holds here
  have hpends : s.pends t = some (sub.topic, sub.ch) := congrArg TopicCall.pends here
  refine registryInv_put hgives rfl ?_ ?_ ?_ h.uniform
  · exact h.locked.release (by rw [hholds]; rfl)
  · exact h.listed_put _ here rfl
  · exact h.routed.leave hpends fun _ => occupied

theorem RegistryInv.step {l : TopicLabel P H} (hstep : TopicStep s l s') : RegistryInv s' := by
  cases hstep with
  | declines t topic handler err idle => exact h.quiet (idle ▸ quiet_idle) (quiet_returned _)
  | opens t topic handler idle free => exact h.opens topic handler idle free
  | rejects t topic ch handler err here refused => exact h.rejects here refused
  | registers t topic ch handler inner c here accepted => exact h.registers here accepted
  | skips t topic msg err idle => exact h.quiet (idle ▸ quiet_idle) (quiet_returned err)
  | finds t topic msg ch idle found => exact h.quiet (idle ▸ quiet_idle) (quiet_sending ch msg)
  | faults t ch msg err here latched =>
      exact h.quiet (here ▸ quiet_sending ch msg) (quiet_returned _)
  | snapshots t ch msg here =>
      exact h.quiet (here ▸ quiet_sending ch msg) (quiet_fanning _ _ _ _)
  | handles t o policy msg sub rest errs here =>
      exact h.quiet (here ▸ quiet_fanning _ _ _ _) (quiet_fanning _ _ _ _)
  | joins t policy msg errs here =>
      exact h.quiet (here ▸ quiet_fanning _ _ _ _) (quiet_returned _)
  | removes t c sub idle given => exact h.removes idle given
  | locks t sub here free found => exact h.locks here free found
  | passes t sub here gone => exact h.passes here gone
  | drops t sub here empty => exact h.drops here empty
  | keeps t sub here occupied => exact h.keeps here occupied

end Steps

end Msgin.Channel
