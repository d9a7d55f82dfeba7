import Msgin.CreditInvariant

/-!
# Credit accounting over whole runs

Every step of every goroutine keeps the credit invariant, so it holds in every reachable
state. What the gate promises is read off the invariant: the token count, a release that
always finds a token, one credit back for each managed delivery, and room in the worker
channel for every hand-off.
-/

namespace Msgin

open Interaction Prog TransitionRuns

variable {P T : Type} {c : Consumer P T} {s s' : RunState P T} {place : ℕ → Place} {m : Ledger}
  {q : Call P T}

theorem effect_of_neutral (s : RunState P T) (hq : q.isCredit = false) (r : q.Answer) :
    s.effect q r = s := by
  cases q <;> first | rfl | cases hq

theorem creditInv_produce (hb : Balanced c s) (h : Tracked s m place)
    {k : q.Answer → Routine P T (Control P)} (hp : s.producer = some (.ask q k)) (r : q.Answer)
    (hen : s.enabled c q r = true) : CreditInv c { s.effect q r with producer := some (k r) } := by
  obtain ⟨m', hm', hk⟩ := h.ledger_of_call hp r
  have hmeets : ∀ p, some (k r) = some p → Meets Ledger.next Ledger.Ready p m' := by
    intro p hp'
    rwa [← Option.some.inj hp']
  have hsame : m' = m → s.effect q r = s →
      CreditInv c { s.effect q r with producer := some (k r) } := by
    intro hmm heff
    rw [heff]
    refine ⟨⟨hb.balance, hb.bound, hb.released_sub, hb.given_eq⟩, m', place, ?_⟩
    exact h.keep rfl rfl rfl rfl (by rw [hmm]) (by rw [hmm]) (by rw [hmm]; exact h.held_eq)
      hmeets nofun
  have htaken : m' = { m with held := m.held + 1 } → s.tokens < c.maxInFlight →
      CreditInv c { s with tokens := s.tokens + 1, held := s.held + 1, producer := some (k r) } := by
    intro hmm hroom
    have hheld := h.held_eq
    refine ⟨hb.counters (by dsimp only; omega) (by dsimp only; omega) rfl rfl rfl, m', place, ?_⟩
    exact h.keep rfl rfl rfl rfl (by rw [hmm]) (by rw [hmm]) (by rw [hmm]; dsimp only; omega)
      hmeets nofun
  by_cases hq : q.isCredit = false
  · rw [Ledger.next_of_neutral m hq r] at hm'
    exact hsame (Option.some.inj hm').symm (effect_of_neutral s hq r)
  · cases q with
    | acquire =>
        cases r with
        | none => exact htaken (Option.some.inj hm').symm (of_decide_eq_true hen)
        | some err => exact hsame (Option.some.inj hm').symm rfl
    | tryAcquire =>
        cases r with
        | true =>
            have hroom : s.tokens < c.maxInFlight := by
              simpa [RunState.enabled] using hen
            exact htaken (Option.some.inj hm').symm hroom
        | false => exact hsame (Option.some.inj hm').symm rfl
    | release =>
        obtain ⟨hpos, hmm⟩ := Ledger.next_release hm'
        have hheld := h.held_eq
        have hbal := hb.balance
        have hbound := hb.bound
        refine ⟨hb.counters ?_ ?_ rfl rfl rfl, m', place, ?_⟩
        · change s.tokens - 1 + s.held = s.tokens + (s.held - 1)
          omega
        · change s.tokens - 1 ≤ c.maxInFlight
          omega
        · refine h.keep rfl rfl rfl rfl (by rw [hmm]) (by rw [hmm]) ?_ hmeets nofun
          rw [hmm]
          change m.held - 1 = s.held - 1
          omega
    | manage d =>
        obtain ⟨⟨hpos, hhand, hfresh⟩, hmm⟩ := Ledger.next_manage hm'
        have hheld := h.held_eq
        have hunmanaged : d ∉ s.managed := fun hmem => Nat.lt_irrefl d
          (Nat.lt_of_lt_of_le (h.managed_lt d hmem) hfresh)
        rw [hmm] at hk
        exact ⟨hb.manage hunmanaged (by omega) rfl rfl rfl rfl rfl, _, _,
          h.manage hb hfresh hhand hk⟩
    | releaseOnce d =>
        obtain ⟨hhand, hmm⟩ := Ledger.next_releaseOnce hm'
        obtain ⟨hmanaged, hunreleased⟩ := h.hand_unreleased hhand
        rw [hmm] at hk
        unfold RunState.effect
        dsimp only
        rw [if_neg hunreleased]
        exact ⟨hb.releaseOnce hmanaged hunreleased rfl rfl rfl rfl rfl, _, _,
          h.releaseHand hhand hk⟩
    | handOff md =>
        obtain ⟨hhand, hmm⟩ := Ledger.next_handOff hm'
        cases r with
        | true =>
            rw [if_pos rfl] at hmm
            rw [hmm] at hk
            exact ⟨⟨hb.balance, hb.bound, hb.released_sub, hb.given_eq⟩, _, _,
              h.handOver hhand hk⟩
        | false =>
            rw [if_neg Bool.false_ne_true] at hmm
            exact hsame hmm rfl
    | _ => exact absurd rfl hq

theorem creditInv_work (hb : Balanced c s) (h : Tracked s m place) {i : ℕ} {md : Delivery P}
    {k : q.Answer → Routine P T Unit} (hw : s.workers i = some (md, .ask q k)) (r : q.Answer) :
    CreditInv c { s.effect q r with
      workers := Function.update s.workers i (some (md, k r)) } := by
  obtain ⟨b, hbr, hmeets⟩ := h.worker_meets i md _ hw
  obtain ⟨b', hb', hk⟩ := hmeets r
  have hmanaged : md.tag ∈ s.managed := by
    apply h.managed_of_placed
    rw [(h.worker_iff md.tag i).mp ⟨md, _, hw, rfl⟩]
    exact nofun
  by_cases hq : q.isCredit = false
  · rw [effect_of_neutral s hq r]
    have hbb : b' = b := by
      cases q <;> first | exact (Option.some.inj hb').symm | cases hq
    rw [hbb] at hk
    exact ⟨⟨hb.balance, hb.bound, hb.released_sub, hb.given_eq⟩, m, place,
      h.work hw (Or.inl rfl) hbr hk⟩
  · cases q with
    | releaseOnce d =>
        unfold workerNext at hb'
        dsimp only at hb'
        split at hb'
        · rename_i hd
          subst hd
          unfold RunState.effect
          dsimp only
          split
          · rename_i hrel
            exact ⟨⟨hb.balance, hb.bound, hb.released_sub, hb.given_eq⟩, m, place,
              h.work hw (Or.inl rfl) (fun _ => hrel) hk⟩
          · rename_i hrel
            exact ⟨hb.releaseOnce hmanaged hrel rfl rfl rfl rfl rfl, m, place,
              h.work hw (Or.inr rfl) (fun _ => Finset.mem_insert_self _ _) hk⟩
        · cases hb'
    | acquire => cases hb'
    | tryAcquire => cases hb'
    | release => cases hb'
    | manage d => cases hb'
    | handOff d => cases hb'
    | _ => exact absurd rfl hq

theorem creditInv_step (l : RunLabel P T) (h : CreditInv c s) (hs : s.step c l = some s') :
    CreditInv c s' := by
  obtain ⟨hb, m, place, ht⟩ := h
  have hbal : ∀ {t : RunState P T}, t.tokens = s.tokens → t.held = s.held →
      t.managed = s.managed → t.released = s.released → t.given = s.given → Balanced c t := by
    intro t htok hheld hman hrel hgiv
    exact hb.counters (by omega) (by rw [htok]; exact hb.bound) hman hrel hgiv
  cases l with
  | cancel =>
      cases Option.some.inj hs
      exact ⟨hbal rfl rfl rfl rfl rfl, m, place,
        ht.keep rfl rfl rfl rfl rfl rfl ht.held_eq ht.producer_meets ht.exited⟩
  | produce answer =>
      unfold RunState.step at hs
      dsimp only at hs
      split at hs
      · rename_i q k hp
        split at hs
        · rename_i hen
          cases Option.some.inj hs
          exact creditInv_produce hb ht hp (answer q) hen
        · cases hs
      · cases hs
  | nextPass =>
      unfold RunState.step at hs
      dsimp only at hs
      split at hs
      · rename_i hp
        have hready : Ledger.Ready (.stopped : Control P) m := ht.producer_meets _ hp
        cases Option.some.inj hs
        exact ⟨hbal rfl rfl rfl rfl rfl, m, place,
          ht.keep rfl rfl rfl rfl rfl rfl ht.held_eq nofun (fun _ => hready.2.1)⟩
      · rename_i ctl _ hp
        have hready : Ledger.Ready ctl m := ht.producer_meets _ hp
        cases Option.some.inj hs
        refine ⟨hbal rfl rfl rfl rfl rfl, m, place,
          ht.keep rfl rfl rfl rfl rfl rfl ht.held_eq ?_ nofun⟩
        intro p hp'
        rw [← Option.some.inj hp']
        exact Ledger.meets_producer c hready
      · cases hs
  | take i =>
      unfold RunState.step at hs
      dsimp only at hs
      split at hs
      · rename_i md rest hidle hch
        split at hs
        · cases Option.some.inj hs
          exact ⟨hbal rfl rfl rfl rfl rfl, m, _, ht.take c hidle hch⟩
        · cases hs
      · cases hs
  | work i answer =>
      unfold RunState.step at hs
      dsimp only at hs
      split at hs
      · rename_i md q k hw
        split at hs
        · cases Option.some.inj hs
          exact creditInv_work hb ht hw (answer q)
        · cases hs
      · cases hs
  | finish i =>
      unfold RunState.step at hs
      dsimp only at hs
      split at hs
      · rename_i md u hw
        cases Option.some.inj hs
        exact ⟨hbal rfl rfl rfl rfl rfl, m, _, ht.finish hw⟩
      · cases hs

structure CreditAccounting (c : Consumer P T) (s : RunState P T) : Prop where
  tokens_eq : s.tokens = s.held + (s.managed \ s.released).card
  tokens_le : s.tokens ≤ c.maxInFlight
  given_eq : ∀ d ∈ s.managed, s.given d = if d ∈ s.released then 1 else 0
  given_of_processed : ∀ i md u, s.workers i = some (md, .ret u) → s.given md.tag = 1
  given_of_left : ∀ d ∈ s.managed, s.betweenPasses → d ∉ s.workerCh.map Delivery.tag →
    (∀ i, ¬ s.inProcess i d) → s.given d = 1
  release_ready : s.producerCall = some .release → 0 < s.tokens
  worker_releases_own : ∀ i, s.workerCall i ≠ some .release
  releaseOnce_ready : ∀ d, s.producerCall = some (.releaseOnce d) ∨
    (∃ i, s.workerCall i = some (.releaseOnce d)) → d ∈ s.managed ∧ (d ∈ s.released ∨ 0 < s.tokens)
  handOff_room : ∀ md, s.producerCall = some (.handOff md) → s.workerCh.length < c.maxInFlight

theorem producerCall_eq_some (h : s.producerCall = some q) : ∃ k, s.producer = some (.ask q k) := by
  unfold RunState.producerCall at h
  split at h
  · rename_i q' k hp
    cases h
    exact ⟨k, hp⟩
  · cases h

theorem workerCall_eq_some {i : ℕ} (h : s.workerCall i = some q) :
    ∃ md k, s.workers i = some (md, .ask q k) := by
  unfold RunState.workerCall at h
  split at h
  · rename_i md q' k hw
    cases h
    exact ⟨md, k, hw⟩
  · cases h

theorem Tracked.held_pos_of_release (h : Tracked s m place) (hq : s.producerCall = some .release) :
    0 < s.held := by
  obtain ⟨k, hp⟩ := producerCall_eq_some hq
  obtain ⟨m', hm', _⟩ := h.ledger_of_call hp ()
  rw [← h.held_eq]
  exact (Ledger.next_release hm').1

theorem Tracked.hand_of_releaseOnce (h : Tracked s m place) {d : ℕ}
    (hq : s.producerCall = some (.releaseOnce d)) : m.hand = some d := by
  obtain ⟨k, hp⟩ := producerCall_eq_some hq
  obtain ⟨m', hm', _⟩ := h.ledger_of_call hp ()
  exact (Ledger.next_releaseOnce hm').1

theorem Tracked.hand_of_handOff (h : Tracked s m place) {md : Delivery P}
    (hq : s.producerCall = some (.handOff md)) : m.hand = some md.tag := by
  obtain ⟨k, hp⟩ := producerCall_eq_some hq
  obtain ⟨m', hm', _⟩ := h.ledger_of_call hp true
  exact (Ledger.next_handOff hm').1

theorem Tracked.channel_lt_of_hand (h : Tracked s m place) {d : ℕ} (hd : m.hand = some d) :
    s.workerCh.length < (s.managed \ s.released).card := by
  obtain ⟨hmanaged, hunreleased⟩ := h.hand_unreleased hd
  have hsub : insert d (s.workerCh.map Delivery.tag).toFinset ⊆ s.managed \ s.released := by
    intro x hx
    rcases Finset.mem_insert.mp hx with rfl | hx
    · exact Finset.mem_sdiff.mpr ⟨hmanaged, hunreleased⟩
    · have hplace := (h.channel_iff x).mp (List.mem_toFinset.mp hx)
      have hxm := h.managed_of_placed x (by rw [hplace]; exact nofun)
      exact Finset.mem_sdiff.mpr ⟨hxm, h.unreleased x (Or.inr hplace)⟩
  have hnot : d ∉ (s.workerCh.map Delivery.tag).toFinset := by
    intro hmem
    have hplace := (h.channel_iff d).mp (List.mem_toFinset.mp hmem)
    rw [(h.hand_iff d).mp hd] at hplace
    cases hplace
  have hcard := Finset.card_le_card hsub
  rw [Finset.card_insert_of_notMem hnot, List.toFinset_card_of_nodup h.channel_nodup,
    List.length_map] at hcard
  exact hcard

theorem Tracked.hand_of_betweenPasses (h : Tracked s m place) (hbetween : s.betweenPasses) :
    m.hand = none := by
  rcases hbetween with hnone | ⟨ctl, hret⟩
  · exact h.exited hnone
  · have hready : Ledger.Ready ctl m := h.producer_meets _ hret
    exact hready.2.1

theorem CreditInv.accounting (h : CreditInv c s) : CreditAccounting c s := by
  obtain ⟨hb, m, place, ht⟩ := h
  have hbal := hb.balance
  have hbound := hb.bound
  constructor
  · exact hbal
  · exact hbound
  · intro d _
    exact hb.given_eq d
  · intro i md u hw
    obtain ⟨b, hreleased, hmeets⟩ := ht.worker_meets i md _ hw
    rw [hb.given_eq, if_pos (hreleased hmeets)]
  · intro d hd hbetween hch hin
    have hgone : place d = .gone := by
      cases hplace : place d with
      | hand =>
          have hhand := (ht.hand_iff d).mpr hplace
          rw [ht.hand_of_betweenPasses hbetween] at hhand
          cases hhand
      | channel => exact absurd ((ht.channel_iff d).mpr hplace) hch
      | worker i => exact absurd ((ht.worker_iff d i).mpr hplace) (hin i)
      | gone => rfl
    rw [hb.given_eq, if_pos (ht.released_of_gone d hd hgone)]
  · intro hq
    have hpos := ht.held_pos_of_release hq
    omega
  · intro i hq
    obtain ⟨md, k, hw⟩ := workerCall_eq_some hq
    obtain ⟨b, _, hmeets⟩ := ht.worker_meets i md _ hw
    obtain ⟨b', hb', _⟩ := hmeets ()
    cases hb'
  · intro d hq
    have hmanaged : d ∈ s.managed := by
      rcases hq with hq | ⟨i, hq⟩
      · exact (ht.hand_unreleased (ht.hand_of_releaseOnce hq)).1
      · obtain ⟨md, k, hw⟩ := workerCall_eq_some hq
        obtain ⟨b, _, hmeets⟩ := ht.worker_meets i md _ hw
        obtain ⟨b', hb', _⟩ := hmeets ()
        unfold workerNext at hb'
        dsimp only at hb'
        split at hb'
        · rename_i hd
          rw [hd]
          apply ht.managed_of_placed
          rw [(ht.worker_iff md.tag i).mp ⟨md, _, hw, rfl⟩]
          exact nofun
        · cases hb'
    refine ⟨hmanaged, ?_⟩
    by_cases hr : d ∈ s.released
    · exact Or.inl hr
    · exact Or.inr (hb.tokens_pos_of_unreleased hmanaged hr)
  · intro md hq
    have hlt := ht.channel_lt_of_hand (ht.hand_of_handOff hq)
    omega

/-- The credit accounting holds in every state of every run: for either kind of source,
every configuration, and any interleaving of the producer, the workers and cancellation. -/
theorem run_creditAccounting (c : Consumer P T) (kind : SourceKind) (ls : List (RunLabel P T))
    {s : RunState P T} (hr : run (RunState.step c) (RunState.initial c kind) ls = some s) :
    CreditAccounting c s := by
  apply CreditInv.accounting
  apply run_invariant (RunState.step c) ?_ (creditInv_initial c kind) hr
  intro t l u ht hstep
  exact creditInv_step l ht hstep

def blankStream (q : Call Unit Unit) : q.Answer :=
  match q with
  | .receive => .delivery blankMessage
  | q => q.calm

/-- One message from the stream through a worker to its Ack, with both of its releases. -/
def oneMessage : List (RunLabel Unit Unit) :=
  [.produce blankStream, .nextPass, .produce blankStream, .produce blankStream,
    .produce blankStream, .take 0, .work 0 blankStream, .work 0 blankStream,
    .work 0 blankStream, .work 0 blankStream, .work 0 blankStream, .work 0 blankStream,
    .finish 0]

theorem run_creditAccounting_oneMessage :
    ∃ s, run (RunState.step pairConsumer) (RunState.initial pairConsumer .streaming)
        oneMessage = some s ∧ CreditAccounting pairConsumer s := by
  obtain ⟨s, hs⟩ : ∃ s, run (RunState.step pairConsumer)
      (RunState.initial pairConsumer .streaming) oneMessage = some s := ⟨_, rfl⟩
  exact ⟨s, hs, run_creditAccounting pairConsumer .streaming oneMessage hs⟩

end Msgin
