import Msgin.TopicRuns

/-!
# Publications and cancellations

A publication calls the handlers of its snapshot, one after the other, whatever they return. So
it calls the handler of a subscription that is live from its lookup to its snapshot once, and
that of a subscription cancelled before it starts never.
-/

namespace Msgin.Channel

variable {P H : Type} {s s' : TopicState P H}

/-- The handlers that the call `t` has called. -/
def TopicState.handledBy (s : TopicState P H) (t : ℕ) : List (HandlerCall P H) :=
  s.handled.filter fun k => k.publish = t

def TopicCall.fanned : TopicCall P H → Bool
  | fanning _ _ _ _ | returned _ => true
  | idle | registering _ _ _ | subscribed _ | sending _ _ | dropping _ | checking _
  | cancelled _ => false

def TopicCall.isFanning : TopicCall P H → Bool
  | fanning _ _ _ _ => true
  | idle | registering _ _ _ | subscribed _ | sending _ _ | dropping _ | checking _
  | cancelled _ | returned _ => false

/-- How a step moves the call `t`, and the handlers that the call calls in it. -/
inductive Advances (p : PubSub H) (t : ℕ) :
    TopicCall P H → List (HandlerCall P H) → TopicCall P H → Prop
  | stays (c : TopicCall P H) : Advances p t c [] c
  | starts (c : TopicCall P H) (silent : c.isFanning = false) : Advances p t .idle [] c
  | registers (topic : String) (ch : ℕ) (h : H) (c : TopicCall P H) (silent : c.isFanning = false) :
      Advances p t (.registering topic ch h) [] c
  | faults (ch : ℕ) (msg : Message P) (err : Err) (latched : (p.chans ch).err = some err) :
      Advances p t (.sending ch msg) [] (.returned (some err))
  | sends (ch : ℕ) (msg : Message P) :
      Advances p t (.sending ch msg) [] (.fanning (p.chans ch).cfg.policy msg (p.subs ch) [])
  | handles (policy : FanOutPolicy) (msg : Message P) (x : Subscription H)
      (rest : List (Subscription H)) (errs errs' : List Err) :
      Advances p t (.fanning policy msg (x :: rest) errs) [⟨t, x, msg⟩]
        (.fanning policy msg rest errs')
  | joins (policy : FanOutPolicy) (msg : Message P) (errs : List Err) (err : Option Err) :
      Advances p t (.fanning policy msg [] errs) [] (.returned err)
  | locks (sub : TopicSubscription H) : Advances p t (.dropping sub) [] (.checking sub)
  | passes (sub : TopicSubscription H) : Advances p t (.dropping sub) [] (.cancelled sub)
  | checks (sub : TopicSubscription H) : Advances p t (.checking sub) [] (.cancelled sub)

variable {l : TopicLabel P H} {msg : Message P} {xs : List (Subscription H)} {t : ℕ}

theorem advances_put {p : PubSub H} {once : List ℕ} {u : ℕ} {c : TopicCall P H}
    (h : Advances s.pubSub t (s.calls t) [] c) :
    ∃ ks, Advances s.pubSub u (s.calls u) ks
        ((TopicState.put ⟨p, s.calls, once, s.handled⟩ t c).calls u) ∧
      (TopicState.put ⟨p, s.calls, once, s.handled⟩ t c).handledBy u = s.handledBy u ++ ks := by
  refine ⟨[], ?_, (List.append_nil _).symm⟩
  change Advances s.pubSub u (s.calls u) [] (Function.update s.calls t c u)
  by_cases hu : u = t
  · subst hu
    rw [Function.update_self]
    exact h
  · rw [Function.update_of_ne hu]
    exact .stays _

theorem advances_of_step (hstep : TopicStep s l s') (u : ℕ) :
    ∃ ks, Advances s.pubSub u (s.calls u) ks (s'.calls u) ∧
      s'.handledBy u = s.handledBy u ++ ks := by
  cases hstep with
  | declines t topic h err idle => exact advances_put (idle ▸ .starts _ rfl)
  | opens t topic h idle free => exact advances_put (idle ▸ .starts _ rfl)
  | rejects t topic ch h err here refused => exact advances_put (here ▸ .registers topic ch h _ rfl)
  | registers t topic ch h inner c here accepted =>
      exact advances_put (here ▸ .registers topic ch h _ rfl)
  | skips t topic msg err idle => exact advances_put (idle ▸ .starts _ rfl)
  | finds t topic msg ch idle found => exact advances_put (idle ▸ .starts _ rfl)
  | faults t ch msg err here latched => exact advances_put (here ▸ .faults ch msg err latched)
  | snapshots t ch msg here => exact advances_put (here ▸ .sends ch msg)
  | handles t o policy msg x rest errs here =>
      by_cases hu : u = t
      · subst hu
        refine ⟨[⟨u, x, msg⟩], ?_, ?_⟩
        · have hcalls : ((s.record ⟨u, x, msg⟩).put u
              (.fanning policy msg rest (collect policy errs (safeFanOut o)))).calls u =
              .fanning policy msg rest (collect policy errs (safeFanOut o)) :=
            Function.update_self ..
          rw [here, hcalls]
          exact .handles policy msg x rest errs _
        · change (s.handled ++ [_]).filter _ = _
          rw [List.filter_append]
          simp [TopicState.handledBy]
      · refine ⟨[], ?_, ?_⟩
        · have hcalls : ((s.record ⟨t, x, msg⟩).put t
              (.fanning policy msg rest (collect policy errs (safeFanOut o)))).calls u =
              s.calls u := Function.update_of_ne hu ..
          rw [hcalls]
          exact .stays _
        · change (s.handled ++ [_]).filter _ = _
          rw [List.filter_append]
          simp [TopicState.handledBy, Ne.symm hu]
  | joins t policy msg errs here => exact advances_put (here ▸ .joins policy msg errs _)
  | removes t c sub idle given =>
      unfold TopicState.cancelOnce
      split
      · exact advances_put (idle ▸ .starts _ rfl)
      · exact advances_put (idle ▸ .starts _ rfl)
  | locks t sub here free found => exact advances_put (here ▸ .locks sub)
  | passes t sub here gone => exact advances_put (here ▸ .passes sub)
  | drops t sub here empty => exact advances_put (here ▸ .checks sub)
  | keeps t sub here occupied => exact advances_put (here ▸ .checks sub)

/-- Only a publication past its snapshot has called handlers. -/
def HandledInv (s : TopicState P H) : Prop :=
  ∀ t, (s.calls t).fanned = false → s.handledBy t = []

theorem HandledInv.step (h : HandledInv s) (hstep : TopicStep s l s') : HandledInv s' := by
  intro u hu
  obtain ⟨ks, hadvances, hhandled⟩ := advances_of_step hstep u
  have hold : (s.calls u).fanned = false ∧ ks = [] := by
    generalize s.calls u = c at hadvances
    generalize s'.calls u = c' at hadvances hu
    cases hadvances with
    | stays => exact ⟨hu, rfl⟩
    | starts | registers | locks | passes | checks => exact ⟨rfl, rfl⟩
    | faults | sends | handles | joins => cases hu
  rw [hhandled, h u hold.1, hold.2]
  rfl

theorem subscribed_of_step (hstep : TopicStep s l s') {c : ℕ} {sub : TopicSubscription H}
    (hc : s.calls c = .subscribed sub) : s'.calls c = .subscribed sub := by
  obtain ⟨ks, hadvances, -⟩ := advances_of_step hstep c
  rw [hc] at hadvances
  generalize s'.calls c = d at hadvances
  cases hadvances with
  | stays => rfl

theorem once_of_step (hstep : TopicStep s l s') {c : ℕ} (hc : c ∈ s.once) : c ∈ s'.once := by
  cases hstep with
  | removes t d sub idle given =>
      unfold TopicState.cancelOnce
      split
      · exact hc
      · exact List.mem_cons_of_mem _ hc
  | declines | opens | rejects | registers | skips | finds | faults | snapshots | handles | joins
  | locks | passes | drops | keeps => exact hc

/-- The publication `t` has called the first of the handlers `xs`, or all of them. -/
def FansOut (t : ℕ) (msg : Message P) (xs : List (Subscription H)) (s : TopicState P H) : Prop :=
  (∃ policy front rest errs, xs = front ++ rest ∧ s.calls t = .fanning policy msg rest errs ∧
    s.handledBy t = front.map fun x => ⟨t, x, msg⟩) ∨
  ((∃ err, s.calls t = .returned err) ∧ s.handledBy t = xs.map fun x => ⟨t, x, msg⟩)

theorem FansOut.step (h : FansOut t msg xs s) (hstep : TopicStep s l s') : FansOut t msg xs s' := by
  obtain ⟨ks, hadvances, hhandled⟩ := advances_of_step hstep t
  unfold FansOut
  generalize s'.calls t = c at hadvances
  rcases h with ⟨policy, front, rest, errs, rfl, hc, hfront⟩ | ⟨⟨err, hc⟩, hall⟩
  · rw [hc] at hadvances
    rw [hfront] at hhandled
    cases hadvances with
    | stays => exact .inl ⟨policy, front, rest, errs, rfl, rfl, by simpa using hhandled⟩
    | handles _ _ x rest _ errs' =>
        refine .inl ⟨policy, front ++ [x], rest, errs', ?_, rfl, ?_⟩
        · rw [List.append_assoc, List.singleton_append]
        · rw [hhandled, List.map_append]
          rfl
    | joins _ _ _ err =>
        refine .inr ⟨⟨err, rfl⟩, ?_⟩
        rw [hhandled, List.append_nil, List.append_nil]
  · rw [hc] at hadvances
    rw [hall] at hhandled
    cases hadvances with
    | stays => exact .inr ⟨⟨err, rfl⟩, by simpa using hhandled⟩

theorem sending_of_step (hstep : TopicStep s l s') {ch : ℕ}
    (h : s.calls t = .sending ch msg ∨ (s.calls t).fanned = true) :
    s'.calls t = .sending ch msg ∨ (s'.calls t).fanned = true := by
  obtain ⟨ks, hadvances, -⟩ := advances_of_step hstep t
  generalize s'.calls t = c at hadvances
  generalize s.calls t = d at hadvances h
  cases hadvances with
  | stays => exact h
  | faults | sends | handles | joins => exact .inr rfl
  | starts | registers | locks | passes | checks => rcases h with h | h <;> cases h

/-- The handler of `x` is called once by the publication `t`. Where it has not returned, it goes
on, whatever the next handler does. -/
def CallsOnce (t : ℕ) (x : Subscription H) (msg : Message P) (s : TopicState P H) : Prop :=
  ((∃ err, s.calls t = .returned err) ∧
    (s.handledBy t).filter (fun k => k.sub.id = x.id) = [⟨t, x, msg⟩]) ∨
  ∃ policy rest errs, s.calls t = .fanning policy msg rest errs ∧
    (s.handledBy t).filter (fun k => k.sub.id = x.id) ++
      (rest.filter fun y => y.id = x.id).map (fun y => ⟨t, y, msg⟩) = [⟨t, x, msg⟩] ∧
    ∀ o, ∃ s', s.step (if rest.isEmpty then .join t else .handle t o) = some s'

theorem filter_map_call (t : ℕ) (msg : Message P) (xs : List (Subscription H)) (id : ℕ) :
    (xs.map fun x => (⟨t, x, msg⟩ : HandlerCall P H)).filter (fun k => k.sub.id = id) =
      (xs.filter fun x => x.id = id).map fun x => ⟨t, x, msg⟩ := by
  rw [List.filter_map]
  rfl

theorem FansOut.callsOnce (h : FansOut t msg xs s) {x : Subscription H}
    (hx : (xs.filter fun y => y.id = x.id) = [x]) : CallsOnce t x msg s := by
  rcases h with ⟨policy, front, rest, errs, rfl, hc, hfront⟩ | ⟨hreturned, hall⟩
  · refine .inr ⟨policy, rest, errs, hc, ?_, ?_⟩
    · rw [hfront, filter_map_call, ← List.map_append, ← List.filter_append, hx]
      rfl
    · intro o
      cases rest with
      | nil =>
          refine ⟨s.put t (.returned (Err.joinAll errs)), ?_⟩
          simp only [List.isEmpty_nil, if_true, TopicState.step, hc]
      | cons y rest =>
          refine ⟨(s.record ⟨t, y, msg⟩).put t
            (.fanning policy msg rest (collect policy errs (safeFanOut o))), ?_⟩
          simp only [List.isEmpty_cons, Bool.false_eq_true, if_false, TopicState.step, hc]
  · refine .inl ⟨hreturned, ?_⟩
    rw [hall, filter_map_call, hx]
    rfl

/-- The publication `t` does not call the handler of the subscription `id`. -/
structure Silent (id t : ℕ) (s : TopicState P H) : Prop where
  cancelled : id ∈ s.once
  ahead : ∀ policy msg rest errs, s.calls t = .fanning policy msg rest errs → ∀ x ∈ rest, x.id ≠ id
  behind : ∀ k ∈ s.handledBy t, k.sub.id ≠ id

theorem Silent.step {id : ℕ} (h : Silent id t s) (hinv : RegistryInv s) (hstep : TopicStep s l s') :
    Silent id t s' := by
  obtain ⟨ks, hadvances, hhandled⟩ := advances_of_step hstep t
  have hnew : (∀ k ∈ ks, k.sub.id ≠ id) ∧ ∀ policy msg rest errs,
      s'.calls t = .fanning policy msg rest errs → ∀ x ∈ rest, x.id ≠ id := by
    have hahead := h.ahead
    generalize s.calls t = c at hadvances hahead
    generalize s'.calls t = c' at hadvances
    cases hadvances with
    | stays => exact ⟨fun k hk => absurd hk List.not_mem_nil, hahead⟩
    | starts c silent | registers _ _ _ c silent =>
        refine ⟨fun k hk => absurd hk List.not_mem_nil, ?_⟩
        rintro policy msg rest errs rfl
        cases silent
    | sends ch msg =>
        refine ⟨fun k hk => absurd hk List.not_mem_nil, ?_⟩
        rintro _ _ _ _ ⟨⟩ x hx hid
        obtain ⟨-, -, -, -, hlive⟩ := (hinv.listed.members ch x).mp hx
        exact hlive (hid ▸ h.cancelled)
    | handles policy msg x rest errs errs' =>
        have hrest := hahead policy msg (x :: rest) errs rfl
        refine ⟨?_, ?_⟩
        · intro k hk
          rw [List.mem_singleton.mp hk]
          exact hrest x List.mem_cons_self
        · rintro _ _ _ _ ⟨⟩ y hy
          exact hrest y (List.mem_cons_of_mem _ hy)
    | faults | joins | locks | passes | checks =>
        refine ⟨fun k hk => absurd hk List.not_mem_nil, ?_⟩
        rintro _ _ _ _ ⟨⟩
  refine ⟨once_of_step hstep h.cancelled, hnew.2, ?_⟩
  intro k hk
  rw [hhandled] at hk
  rcases List.mem_append.mp hk with hk | hk
  · exact h.behind k hk
  · exact hnew.1 k hk

end Msgin.Channel
