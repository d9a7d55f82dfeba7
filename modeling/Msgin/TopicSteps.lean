import Msgin.KeyedMaps
import Msgin.TopicRegistry

/-!
# The steps of the topic registry

What each step of a call does, with the conditions under which it is taken.
-/

namespace Msgin.Channel

variable {P H : Type} {s s' : TopicState P H}

inductive TopicStep (s : TopicState P H) : TopicLabel P H → TopicState P H → Prop
  | declines (t : ℕ) (topic : String) (h : Option H) (err : Err) (idle : s.calls t = .idle) :
      TopicStep s (.subscribe t topic h) (s.put t (.returned (some err)))
  | opens (t : ℕ) (topic : String) (h : H) (idle : s.calls t = .idle)
      (free : s.pubSub.mu = none) :
      TopicStep s (.subscribe t topic (some h))
        ({ s with pubSub := (s.pubSub.openTopic t topic).2 }.put t
          (.registering topic (s.pubSub.openTopic t topic).1 h))
  | rejects (t : ℕ) (topic : String) (ch : ℕ) (h : H) (err : Err)
      (here : s.calls t = .registering topic ch h)
      (refused : (s.pubSub.chans ch).subscribe t (some h) = .error err) :
      TopicStep s (.register t) ({ s with pubSub := s.pubSub.unlock }.put t (.returned (some err)))
  | registers (t : ℕ) (topic : String) (ch : ℕ) (h : H) (inner : Subscription H)
      (c : PublishSubscribeChannel H) (here : s.calls t = .registering topic ch h)
      (accepted : (s.pubSub.chans ch).subscribe t (some h) = .ok (inner, c)) :
      TopicStep s (.register t)
        ({ s with pubSub := (s.pubSub.setChannel ch c).unlock }.put t
          (.subscribed ⟨topic, ch, inner⟩))
  | skips (t : ℕ) (topic : String) (msg : Message P) (err : Option Err) (idle : s.calls t = .idle) :
      TopicStep s (.publish t topic msg) (s.put t (.returned err))
  | finds (t : ℕ) (topic : String) (msg : Message P) (ch : ℕ) (idle : s.calls t = .idle)
      (found : s.pubSub.topics.lookup topic = some ch) :
      TopicStep s (.publish t topic msg) (s.put t (.sending ch msg))
  | faults (t ch : ℕ) (msg : Message P) (err : Err) (here : s.calls t = .sending ch msg)
      (latched : (s.pubSub.chans ch).err = some err) :
      TopicStep s (.snapshot t) (s.put t (.returned (some err)))
  | snapshots (t ch : ℕ) (msg : Message P) (here : s.calls t = .sending ch msg) :
      TopicStep s (.snapshot t)
        (s.put t (.fanning (s.pubSub.chans ch).cfg.policy msg (s.pubSub.chans ch).subs []))
  | handles (t : ℕ) (o : Outcome (Option Err)) (policy : FanOutPolicy) (msg : Message P)
      (sub : Subscription H) (rest : List (Subscription H)) (errs : List Err)
      (here : s.calls t = .fanning policy msg (sub :: rest) errs) :
      TopicStep s (.handle t o)
        ((s.record ⟨t, sub, msg⟩).put t
          (.fanning policy msg rest (collect policy errs (safeFanOut o))))
  | joins (t : ℕ) (policy : FanOutPolicy) (msg : Message P) (errs : List Err)
      (here : s.calls t = .fanning policy msg [] errs) :
      TopicStep s (.join t) (s.put t (.returned (Err.joinAll errs)))
  | removes (t c : ℕ) (sub : TopicSubscription H) (idle : s.calls t = .idle)
      (given : s.calls c = .subscribed sub) :
      TopicStep s (.cancel t c) ((s.cancelOnce sub).put t (.dropping sub))
  | locks (t : ℕ) (sub : TopicSubscription H) (here : s.calls t = .dropping sub)
      (free : s.pubSub.mu = none) (found : s.pubSub.topics.lookup sub.topic = some sub.ch) :
      TopicStep s (.lock t) ({ s with pubSub.mu := some t }.put t (.checking sub))
  | passes (t : ℕ) (sub : TopicSubscription H) (here : s.calls t = .dropping sub)
      (gone : s.pubSub.topics.lookup sub.topic ≠ some sub.ch) :
      TopicStep s (.lock t) (s.put t (.cancelled sub))
  | drops (t : ℕ) (sub : TopicSubscription H) (here : s.calls t = .checking sub)
      (empty : (s.pubSub.chans sub.ch).subs = []) :
      TopicStep s (.drop t)
        ({ s with pubSub := (s.pubSub.dropTopic sub.topic).unlock }.put t (.cancelled sub))
  | keeps (t : ℕ) (sub : TopicSubscription H) (here : s.calls t = .checking sub)
      (occupied : (s.pubSub.chans sub.ch).subs ≠ []) :
      TopicStep s (.drop t) ({ s with pubSub := s.pubSub.unlock }.put t (.cancelled sub))

theorem eq_idle_of_isIdle {c : TopicCall P H} (h : ¬(!c.isIdle) = true) : c = .idle := by
  cases c with
  | idle => rfl
  | registering | subscribed | sending | fanning | dropping | checking | cancelled | returned =>
      exact absurd rfl h

theorem eq_none_of_isSome {α : Type} {o : Option α} (h : ¬o.isSome = true) : o = none := by
  rwa [Bool.not_eq_true, Option.isSome_eq_false_iff, Option.isNone_iff_eq_none] at h

theorem topicStep_of_step {l : TopicLabel P H} (h : s.step l = some s') : TopicStep s l s' := by
  cases l with
  | subscribe t topic handler =>
      simp only [TopicState.step] at h
      split at h
      · cases h
      next hidle =>
      replace hidle := eq_idle_of_isIdle hidle
      split at h
      · cases h
        exact .declines t topic _ _ hidle
      · cases h
        exact .declines t topic _ _ hidle
      · next handler _ =>
          split at h
          · cases h
          next hfree =>
          cases h
          exact .opens t topic handler hidle (eq_none_of_isSome hfree)
  | register t =>
      simp only [TopicState.step] at h
      split at h
      · next topic ch handler hat =>
          split at h
          · next err hrefused =>
              cases h
              exact .rejects t topic ch handler err hat hrefused
          · next inner c haccepted =>
              cases h
              exact .registers t topic ch handler inner c hat haccepted
      · cases h
  | publish t topic msg =>
      simp only [TopicState.step] at h
      split at h
      · cases h
      next hidle =>
      replace hidle := eq_idle_of_isIdle hidle
      split at h
      · cases h
        exact .skips t topic msg _ hidle
      · split at h
        · cases h
        split at h
        · cases h
          exact .skips t topic msg _ hidle
        · next ch hfound =>
            cases h
            exact .finds t topic msg ch hidle hfound
  | snapshot t =>
      simp only [TopicState.step] at h
      split at h
      · next ch msg hat =>
          split at h
          · next err hlatched =>
              cases h
              exact .faults t ch msg err hat hlatched
          · cases h
            exact .snapshots t ch msg hat
      · cases h
  | handle t o =>
      simp only [TopicState.step] at h
      split at h
      · next policy msg sub rest errs hat =>
          cases h
          exact .handles t o policy msg sub rest errs hat
      · cases h
  | join t =>
      simp only [TopicState.step] at h
      split at h
      · next policy msg errs hat =>
          cases h
          exact .joins t policy msg errs hat
      · cases h
  | cancel t c =>
      simp only [TopicState.step] at h
      split at h
      · cases h
      next hidle =>
      replace hidle := eq_idle_of_isIdle hidle
      split at h
      · next sub hgiven =>
          cases h
          exact .removes t c sub hidle hgiven
      · cases h
  | lock t =>
      simp only [TopicState.step] at h
      split at h
      · next sub hat =>
          split at h
          · cases h
          next hfree =>
          split at h
          · next hfound =>
              cases h
              exact .locks t sub hat (eq_none_of_isSome hfree) hfound
          · next hgone =>
              cases h
              exact .passes t sub hat hgone
      · cases h
  | drop t =>
      simp only [TopicState.step] at h
      split at h
      · next sub hat =>
          split at h
          · next hempty =>
              cases h
              exact .drops t sub hat (List.isEmpty_iff.mp hempty)
          · next hoccupied =>
              cases h
              refine .keeps t sub hat fun hempty => hoccupied ?_
              exact List.isEmpty_iff.mpr hempty
      · cases h

theorem subscribe_eq_ok {c c' : PublishSubscribeChannel H} {id : ℕ} {h : H}
    {inner : Subscription H} (hok : c.subscribe id (some h) = .ok (inner, c')) :
    inner = ⟨id, h⟩ ∧ c' = { c with subs := c.subs ++ [⟨id, h⟩] } ∧
      (c.cfg.single = true → c.subs = []) := by
  unfold PublishSubscribeChannel.subscribe at hok
  split at hok
  · cases hok
  · next hnil => cases hnil
  · next hsome =>
      cases hsome
      split at hok
      · cases hok
      · next hguard =>
          cases hok
          refine ⟨rfl, rfl, fun hsingle => ?_⟩
          simpa [hsingle] using hguard

theorem subs_ne_nil_of_refused {c : PublishSubscribeChannel H} {id : ℕ} {h : H} {err : Err}
    (herr : c.err = none) (hrefused : c.subscribe id (some h) = .error err) : c.subs ≠ [] := by
  intro hempty
  simp [PublishSubscribeChannel.subscribe, herr, hempty] at hrefused

end Msgin.Channel
