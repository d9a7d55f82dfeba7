import Msgin.TopicSteps

/-!
# The invariant of the topic registry

The mutex is held by the one call that is between two steps under it. A channel's subscribers are
the subscriptions that were given out for it and not cancelled, and their topic leads to it. A
topic whose channel is empty has a call that will fill or drop it.
-/

namespace Msgin.Channel

variable {P H : Type}

/-- The topic and channel of a call that holds the registry's mutex. -/
def TopicCall.holds : TopicCall P H → Option (String × ℕ)
  | registering topic ch _ => some (topic, ch)
  | checking sub => some (sub.topic, sub.ch)
  | idle | subscribed _ | sending _ _ | fanning _ _ _ _ | dropping _ | cancelled _
  | returned _ => none

/-- The topic and channel that a call is to fill or drop. -/
def TopicCall.pends : TopicCall P H → Option (String × ℕ)
  | registering topic ch _ => some (topic, ch)
  | dropping sub | checking sub => some (sub.topic, sub.ch)
  | idle | subscribed _ | sending _ _ | fanning _ _ _ _ | cancelled _ | returned _ => none

def TopicCall.cancels : TopicCall P H → Option (TopicSubscription H)
  | dropping sub | checking sub | cancelled sub => some sub
  | idle | registering _ _ _ | subscribed _ | sending _ _ | fanning _ _ _ _ | returned _ => none

def TopicCall.gives : TopicCall P H → Option (TopicSubscription H)
  | subscribed sub => some sub
  | idle | registering _ _ _ | sending _ _ | fanning _ _ _ _ | dropping _ | checking _
  | cancelled _ | returned _ => none

theorem TopicCall.gives_eq_some {c : TopicCall P H} {sub : TopicSubscription H} :
    c.gives = some sub ↔ c = .subscribed sub := by
  cases c <;> simp [TopicCall.gives]

namespace TopicState

variable (s : TopicState P H) (t : ℕ) (c : TopicCall P H)

def holds : ℕ → Option (String × ℕ) := fun u => (s.calls u).holds

def pends : ℕ → Option (String × ℕ) := fun u => (s.calls u).pends

def cancels : ℕ → Option (TopicSubscription H) := fun u => (s.calls u).cancels

def gives : ℕ → Option (TopicSubscription H) := fun u => (s.calls u).gives

theorem holds_put : (s.put t c).holds = Function.update s.holds t c.holds :=
  funext (Function.apply_update (fun _ => TopicCall.holds) s.calls t c)

theorem pends_put : (s.put t c).pends = Function.update s.pends t c.pends :=
  funext (Function.apply_update (fun _ => TopicCall.pends) s.calls t c)

theorem cancels_put : (s.put t c).cancels = Function.update s.cancels t c.cancels :=
  funext (Function.apply_update (fun _ => TopicCall.cancels) s.calls t c)

theorem gives_put : (s.put t c).gives = Function.update s.gives t c.gives :=
  funext (Function.apply_update (fun _ => TopicCall.gives) s.calls t c)

end TopicState

def PubSub.subs (p : PubSub H) : ℕ → List (Subscription H) := fun ch => (p.chans ch).subs

structure Locked (mu : Option ℕ) (topics : AList fun _ : String => ℕ)
    (holds : ℕ → Option (String × ℕ)) : Prop where
  held : ∀ t, mu = some t ↔ (holds t).isSome = true
  entered : ∀ t k, holds t = some k → topics.lookup k.1 = some k.2

section Locked

variable {mu : Option ℕ} {topics topics' : AList fun _ : String => ℕ}
  {holds : ℕ → Option (String × ℕ)} (h : Locked mu topics holds) {t : ℕ}

include h

theorem Locked.acquire (free : mu = none) {k : String × ℕ} (hk : topics'.lookup k.1 = some k.2) :
    Locked (some t) topics' (Function.update holds t (some k)) := by
  have hnone : ∀ u, holds u = none := by
    intro u
    cases hu : holds u with
    | none => rfl
    | some j =>
        have hmu := (h.held u).mpr (by rw [hu]; rfl)
        rw [free] at hmu
        cases hmu
  constructor
  · intro u
    by_cases hu : u = t
    · subst hu
      simp
    · rw [Function.update_of_ne hu, hnone u]
      simp [Ne.symm hu]
  · intro u j hj
    rcases KeyedMaps.update_eq_some.mp hj with ⟨-, rfl⟩ | ⟨-, hj⟩
    · exact hk
    · rw [hnone u] at hj
      cases hj

theorem Locked.release (here : (holds t).isSome = true) :
    Locked none topics' (Function.update holds t none) := by
  have hnone : ∀ u, Function.update holds t none u = none := by
    intro u
    by_cases hu : u = t
    · subst hu
      exact Function.update_self ..
    · rw [Function.update_of_ne hu]
      cases hheld : holds u with
      | none => rfl
      | some j =>
          have hmu := (h.held u).mpr (by rw [hheld]; rfl)
          exact absurd (Option.some.inj (hmu.symm.trans ((h.held t).mpr here))) hu
  constructor
  · intro u
    rw [hnone u]
    simp
  · intro u j hj
    rw [hnone u] at hj
    cases hj

end Locked

structure Listed (subs : ℕ → List (Subscription H))
    (gives cancels : ℕ → Option (TopicSubscription H)) (once : List ℕ) : Prop where
  named : ∀ c sub, gives c = some sub → sub.inner.id = c
  fired : ∀ c ∈ once, ∃ sub, gives c = some sub
  cancelled : ∀ t sub, cancels t = some sub → sub.inner.id ∈ once
  members : ∀ ch x, x ∈ subs ch ↔
    ∃ sub, gives x.id = some sub ∧ sub.inner = x ∧ sub.ch = ch ∧ x.id ∉ once
  distinct : ∀ ch, ((subs ch).map Subscription.id).Nodup

section Listed

variable {subs : ℕ → List (Subscription H)} {gives cancels : ℕ → Option (TopicSubscription H)}
  {once : List ℕ} (h : Listed subs gives cancels once) {t ch : ℕ} {sub : TopicSubscription H}

include h

theorem Listed.cancel (hsub : sub.inner.id ∈ once) :
    Listed subs gives (Function.update cancels t (some sub)) once := by
  refine ⟨h.named, h.fired, ?_, h.members, h.distinct⟩
  intro u x hx
  rcases KeyedMaps.update_eq_some.mp hx with ⟨-, rfl⟩ | ⟨-, hx⟩
  · exact hsub
  · exact h.cancelled u x hx

theorem Listed.fresh (hfree : gives t = none) : t ∉ once := by
  intro hmem
  obtain ⟨x, hx⟩ := h.fired t hmem
  rw [hfree] at hx
  cases hx

theorem Listed.register (sub : TopicSubscription H) (hfree : gives t = none)
    (hid : sub.inner.id = t) :
    Listed (Function.update subs sub.ch (subs sub.ch ++ [sub.inner]))
      (Function.update gives t (some sub)) cancels once := by
  have hgives : ∀ u x, gives u = some x → Function.update gives t (some sub) u = some x := by
    intro u x hx
    refine KeyedMaps.update_eq_some.mpr (.inr ⟨?_, hx⟩)
    rintro rfl
    rw [hfree] at hx
    cases hx
  refine ⟨?_, ?_, h.cancelled, ?_, ?_⟩
  · intro c x hx
    rcases KeyedMaps.update_eq_some.mp hx with ⟨rfl, rfl⟩ | ⟨-, hx⟩
    · exact hid
    · exact h.named c x hx
  · intro c hc
    obtain ⟨x, hx⟩ := h.fired c hc
    exact ⟨x, hgives c x hx⟩
  · intro ch x
    have hmem : x ∈ Function.update subs sub.ch (subs sub.ch ++ [sub.inner]) ch ↔
        x ∈ subs ch ∨ ch = sub.ch ∧ x = sub.inner := by
      by_cases hch : ch = sub.ch
      · subst hch
        simp
      · simp [hch]
    rw [hmem, h.members ch x]
    constructor
    · rintro (⟨y, hy, hrest⟩ | ⟨rfl, rfl⟩)
      · exact ⟨y, hgives _ y hy, hrest⟩
      · refine ⟨sub, ?_, rfl, rfl, ?_⟩
        · rw [hid]
          exact Function.update_self ..
        · rw [hid]
          exact h.fresh hfree
    · rintro ⟨y, hy, hinner, hch, honce⟩
      rcases KeyedMaps.update_eq_some.mp hy with ⟨-, rfl⟩ | ⟨-, hy⟩
      · exact .inr ⟨hch.symm, hinner.symm⟩
      · exact .inl ⟨y, hy, hinner, hch, honce⟩
  · intro ch
    by_cases hch : ch = sub.ch
    · subst hch
      rw [Function.update_self, List.map_append, List.map_singleton]
      rw [← List.concat_eq_append]
      refine (h.distinct _).concat ?_
      intro hmem
      obtain ⟨x, hx, hxid⟩ := List.mem_map.mp hmem
      obtain ⟨y, hy, -⟩ := (h.members _ x).mp hx
      rw [hxid, hid, hfree] at hy
      cases hy
    · rw [Function.update_of_ne hch]
      exact h.distinct ch

theorem Listed.mem_remove (ch : ℕ) (x : Subscription H) (id : ℕ) :
    x ∈ (subs ch).eraseP (fun y => y.id == id) ↔ x ∈ subs ch ∧ x.id ≠ id := by
  rw [KeyedMaps.eraseP_key_eq_filter (h.distinct ch), List.mem_filter]
  simp

theorem Listed.remove (hgiven : gives sub.inner.id = some sub) :
    Listed (Function.update subs sub.ch ((subs sub.ch).eraseP fun y => y.id == sub.inner.id))
      gives cancels (sub.inner.id :: once) := by
  refine ⟨h.named, ?_, ?_, ?_, ?_⟩
  · intro c hc
    rcases List.mem_cons.mp hc with rfl | hc
    · exact ⟨sub, hgiven⟩
    · exact h.fired c hc
  · intro u x hx
    exact List.mem_cons_of_mem _ (h.cancelled u x hx)
  · intro ch x
    rw [List.mem_cons, not_or]
    by_cases hch : ch = sub.ch
    · subst hch
      rw [Function.update_self, h.mem_remove, h.members]
      constructor
      · rintro ⟨⟨y, hy, hinner, hych, honce⟩, hne⟩
        exact ⟨y, hy, hinner, hych, hne, honce⟩
      · rintro ⟨y, hy, hinner, hych, hne, honce⟩
        exact ⟨⟨y, hy, hinner, hych, honce⟩, hne⟩
    · rw [Function.update_of_ne hch, h.members]
      constructor
      · rintro ⟨y, hy, hinner, hych, honce⟩
        refine ⟨y, hy, hinner, hych, ?_, honce⟩
        intro hid
        rw [hid] at hy
        obtain rfl : y = sub := Option.some.inj (hy.symm.trans hgiven)
        exact hch hych.symm
      · rintro ⟨y, hy, hinner, hych, -, honce⟩
        exact ⟨y, hy, hinner, hych, honce⟩
  · intro ch
    by_cases hch : ch = sub.ch
    · subst hch
      rw [Function.update_self]
      exact (h.distinct _).sublist ((List.eraseP_sublist ..).map _)
    · rw [Function.update_of_ne hch]
      exact h.distinct ch

theorem Listed.filter_eq {c : ℕ} (hgiven : gives c = some sub) (hlive : c ∉ once) :
    (subs sub.ch).filter (fun x => x.id = c) = [sub.inner] := by
  have hid := h.named c sub hgiven
  subst hid
  have hmem : sub.inner ∈ subs sub.ch := (h.members _ _).mpr ⟨sub, hgiven, rfl, rfl, hlive⟩
  exact KeyedMaps.filter_key_eq_singleton (h.distinct sub.ch) hmem

end Listed

structure Routed (topics : AList fun _ : String => ℕ) (made : ℕ)
    (subs : ℕ → List (Subscription H)) (gives : ℕ → Option (TopicSubscription H))
    (pends : ℕ → Option (String × ℕ)) (once : List ℕ) : Prop where
  bounded : ∀ topic ch, topics.lookup topic = some ch → ch < made
  apart : ∀ a b ch, topics.lookup a = some ch → topics.lookup b = some ch → a = b
  mapped : ∀ c sub, gives c = some sub → c ∉ once → topics.lookup sub.topic = some sub.ch
  pending : ∀ topic ch, topics.lookup topic = some ch → subs ch = [] →
    ∃ t, pends t = some (topic, ch)

section Routed

variable {topics : AList fun _ : String => ℕ} {made : ℕ} {subs : ℕ → List (Subscription H)}
  {gives : ℕ → Option (TopicSubscription H)} {pends : ℕ → Option (String × ℕ)} {once : List ℕ}
  (h : Routed topics made subs gives pends once) {t : ℕ} {sub : TopicSubscription H}

include h

theorem Routed.enter (free : pends t = none) (k : String × ℕ) :
    Routed topics made subs gives (Function.update pends t (some k)) once := by
  refine ⟨h.bounded, h.apart, h.mapped, ?_⟩
  intro topic ch hlookup hempty
  obtain ⟨u, hu⟩ := h.pending topic ch hlookup hempty
  refine ⟨u, KeyedMaps.update_eq_some.mpr (.inr ⟨?_, hu⟩)⟩
  rintro rfl
  rw [free] at hu
  cases hu

theorem Routed.create {topic : String} (free : pends t = none)
    (hnew : topics.lookup topic = none) :
    Routed (topics.insert topic made) (made + 1) subs gives
      (Function.update pends t (some (topic, made))) once := by
  have hlookup : ∀ a ch, (topics.insert topic made).lookup a = some ch →
      a = topic ∧ ch = made ∨ a ≠ topic ∧ topics.lookup a = some ch := by
    intro a ch ha
    exact KeyedMaps.update_eq_some.mp
      ((congrFun (KeyedMaps.lookup_insert_eq topics topic made) a).symm.trans ha)
  refine ⟨?_, ?_, ?_, ?_⟩
  · intro a ch ha
    rcases hlookup a ch ha with ⟨-, rfl⟩ | ⟨-, ha⟩
    · exact Nat.lt_succ_self _
    · exact Nat.lt_succ_of_lt (h.bounded a ch ha)
  · intro a b ch ha hb
    rcases hlookup a ch ha with ⟨hatopic, hamade⟩ | ⟨-, haold⟩ <;>
      rcases hlookup b ch hb with ⟨hbtopic, hbmade⟩ | ⟨-, hbold⟩
    · exact hatopic.trans hbtopic.symm
    · exact absurd (hamade ▸ h.bounded b ch hbold) (Nat.lt_irrefl _)
    · exact absurd (hbmade ▸ h.bounded a ch haold) (Nat.lt_irrefl _)
    · exact h.apart a b ch haold hbold
  · intro c x hx hlive
    have hold := h.mapped c x hx hlive
    rw [AList.lookup_insert_ne]
    · exact hold
    · rintro rfl
      rw [hnew] at hold
      cases hold
  · intro a ch ha hempty
    rcases hlookup a ch ha with ⟨rfl, rfl⟩ | ⟨-, ha⟩
    · exact ⟨t, Function.update_self ..⟩
    · exact (h.enter free _).pending a ch ha hempty

theorem Routed.leave {k : String × ℕ} (here : pends t = some k)
    (hk : topics.lookup k.1 = some k.2 → subs k.2 ≠ []) :
    Routed topics made subs gives (Function.update pends t none) once := by
  refine ⟨h.bounded, h.apart, h.mapped, ?_⟩
  intro topic ch hlookup hempty
  obtain ⟨u, hu⟩ := h.pending topic ch hlookup hempty
  refine ⟨u, ?_⟩
  rw [Function.update_of_ne]
  · exact hu
  · rintro rfl
    obtain rfl : k = (topic, ch) := Option.some.inj (here.symm.trans hu)
    exact hk hlookup hempty

theorem Routed.register (sub : TopicSubscription H) (here : pends t = some (sub.topic, sub.ch))
    (hlookup : topics.lookup sub.topic = some sub.ch) (x : Subscription H) :
    Routed topics made (Function.update subs sub.ch (subs sub.ch ++ [x]))
      (Function.update gives t (some sub)) (Function.update pends t none) once := by
  refine ⟨h.bounded, h.apart, ?_, ?_⟩
  · intro c y hy hlive
    rcases KeyedMaps.update_eq_some.mp hy with ⟨-, rfl⟩ | ⟨-, hy⟩
    · exact hlookup
    · exact h.mapped c y hy hlive
  · intro topic ch hch hempty
    have hne : ch ≠ sub.ch := by
      rintro rfl
      rw [Function.update_self] at hempty
      exact List.append_ne_nil_of_right_ne_nil _ (List.cons_ne_nil _ _) hempty
    rw [Function.update_of_ne hne] at hempty
    obtain ⟨u, hu⟩ := h.pending topic ch hch hempty
    refine ⟨u, ?_⟩
    rw [Function.update_of_ne]
    · exact hu
    · rintro rfl
      rw [here, Option.some.injEq, Prod.mk.injEq] at hu
      exact hne hu.2.symm

theorem Routed.remove (free : pends t = none) {c : ℕ} (hgiven : gives c = some sub)
    (hlive : c ∉ once) (xs : List (Subscription H)) :
    Routed topics made (Function.update subs sub.ch xs) gives
      (Function.update pends t (some (sub.topic, sub.ch))) (c :: once) := by
  refine ⟨h.bounded, h.apart, ?_, ?_⟩
  · intro d x hx hd
    exact h.mapped d x hx (List.not_mem_of_not_mem_cons hd)
  · intro topic ch hlookup hempty
    by_cases hch : ch = sub.ch
    · subst hch
      obtain rfl := h.apart _ _ _ (h.mapped c sub hgiven hlive) hlookup
      exact ⟨t, Function.update_self ..⟩
    · rw [Function.update_of_ne hch] at hempty
      exact (h.enter free _).pending topic ch hlookup hempty

theorem Routed.drop (here : pends t = some (sub.topic, sub.ch))
    (hlookup : topics.lookup sub.topic = some sub.ch)
    (hunused : ∀ c x, gives c = some x → c ∉ once → x.ch ≠ sub.ch) :
    Routed (topics.erase sub.topic) made subs gives (Function.update pends t none) once := by
  have hold : ∀ a ch, (topics.erase sub.topic).lookup a = some ch →
      a ≠ sub.topic ∧ topics.lookup a = some ch := by
    intro a ch ha
    by_cases hne : a = sub.topic
    · subst hne
      rw [AList.lookup_erase] at ha
      cases ha
    · exact ⟨hne, (AList.lookup_erase_ne hne).symm.trans ha⟩
  refine ⟨?_, ?_, ?_, ?_⟩
  · intro a ch ha
    exact h.bounded a ch (hold a ch ha).2
  · intro a b ch ha hb
    exact h.apart a b ch (hold a ch ha).2 (hold b ch hb).2
  · intro c x hx hlive
    have hx' := h.mapped c x hx hlive
    rw [AList.lookup_erase_ne]
    · exact hx'
    · intro htopic
      rw [htopic, hlookup, Option.some.injEq] at hx'
      exact hunused c x hx hlive hx'.symm
  · intro a ch ha hempty
    obtain ⟨hne, ha⟩ := hold a ch ha
    obtain ⟨u, hu⟩ := h.pending a ch ha hempty
    refine ⟨u, ?_⟩
    rw [Function.update_of_ne]
    · exact hu
    · rintro rfl
      rw [here, Option.some.injEq, Prod.mk.injEq] at hu
      exact hne hu.1.symm

end Routed

end Msgin.Channel
