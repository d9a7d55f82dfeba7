import Msgin.IngressPasses

/-!
# The ingress governors

A consumer with a rate limiter and a circuit breaker has two producer stages. `ingest` asks the
limiter and the breaker before it forwards a delivery, so that no delivery reaches the worker
channel ungoverned and an open breaker stops it after at most one more. `pollLoop` asks neither: it
hands over whatever the poll returned as long as there is credit.
-/

namespace Msgin

open Interaction Prog TransitionRuns

variable {P T : Type} {c : Consumer P T} {s t : RunState P T}

theorem notOpen_of_breakerOpen {l : RunLabel P T} (hl : l.BreakerOpen) {e : Event P T}
    (h : produced s l = some e) : e.notOpen = false := by
  cases l with
  | produce answer =>
      rcases hp : s.producer with _ | _ | ⟨q, k⟩
      · simp [produced, hp] at h
      · simp [produced, hp] at h
      · simp only [produced, hp, Option.some.injEq] at h
        obtain rfl := h
        obtain ⟨hallow, -, hhalf⟩ := hl
        cases q with
        | allow => simp [Event.notOpen, hallow]
        | halfOpen => simp [Event.notOpen, hhalf]
        | _ => rfl
  | _ => cases h

theorem ingressGovernance_streaming (hl : c.rateLimiter = true) (hb : c.breaker = true) :
    IngressGovernance c .streaming := by
  intro ls s hr
  have haccepted : ∀ ls s, run (RunState.step c) (.initial c .streaming) ls = some s →
      ∃ m, (producerEvents c (.initial c .streaming) ls).foldlM
        (fun m e => Passes.next m e.1 e.2) (⟨false, false⟩ : Passes) = some m := by
    intro ls s hr
    have hready : Passes.Ready (startOf .streaming : Control P) ⟨false, false⟩ := trivial
    exact run_producer_accepted (Passes.meets_producer hl hb) hready hr
  obtain ⟨m, hm⟩ := haccepted ls s hr
  refine ⟨Passes.governedPlacements hm, fun ls' t hr' hopen => ?_⟩
  obtain ⟨m', hm'⟩ := haccepted (ls ++ ls') t (by rw [run_append, hr]; exact hr')
  rw [producerEvents, observe_append _ _ hr, List.foldlM_append] at hm'
  change (producerEvents c _ ls).foldlM _ _ >>= _ = _ at hm'
  rw [hm] at hm'
  refine (Passes.countP_placed_le (m := m) hm' fun e he => ?_).trans (Bool.toNat_le m.notOpen)
  obtain ⟨u, l, hl', he'⟩ := exists_of_mem_observe _ _ he
  exact notOpen_of_breakerOpen (hopen l hl') he'

def Unpaced (c : Consumer P T) (s t : RunState P T) : Prop :=
  ∃ ls, run (RunState.step c) s ls = some t ∧ ∀ e ∈ producerEvents c s ls, e.waited = false

namespace Unpaced

theorem refl (s : RunState P T) : Unpaced c s s := ⟨[], rfl, fun e he => by cases he⟩

theorem trans {u : RunState P T} (h : Unpaced c s t) (h' : Unpaced c t u) : Unpaced c s u := by
  obtain ⟨ls, hr, hes⟩ := h
  obtain ⟨ls', hr', hes'⟩ := h'
  refine ⟨ls ++ ls', by rw [run_append, hr]; exact hr', fun e he => ?_⟩
  rw [producerEvents, observe_append _ _ hr, List.mem_append] at he
  rcases he with he | he
  · exact hes e he
  · exact hes' e he

theorem of_call {q : Call P T} {k : q.Answer → Routine P T (Control P)}
    (hp : s.producer = some (.ask q k)) {r : q.Answer} (he : s.enabled c q r = true)
    (hq : Event.waited ⟨q, r⟩ = false) (hh : ∀ md, q ≠ .handOff md) :
    ∃ t, Unpaced c s t ∧ t.producer = some (k r) ∧ t.workerCh = s.workerCh := by
  obtain ⟨l, t, hstep, hseen, hk, hch⟩ := exists_produce hp he
  refine ⟨t, ⟨[l], by rw [run_cons, hstep]; rfl, fun e he => ?_⟩, hk,
    hch.trans (effect_workerCh s r hh)⟩
  rw [producerEvents, observe_cons_of_step _ _ hstep, hseen] at he
  obtain rfl : e = ⟨q, r⟩ := by simpa [observe] using he
  exact hq

theorem topUp {f : ℕ → Routine P T (Control P)} (room held : ℕ) (hheld : 0 < held)
    (hp : s.producer = some (topUp room held >>= f)) :
    ∃ t held', Unpaced c s t ∧ 0 < held' ∧ t.producer = some (f held') ∧
      t.workerCh = s.workerCh := by
  induction room generalizing s held with
  | zero => exact ⟨s, held, refl s, hheld, hp, rfl⟩
  | succ room ih =>
      have hask : s.producer = some (.ask .tryAcquire fun taken =>
          (if taken then Msgin.topUp room (held + 1) else return held) >>= f) := hp
      have he : s.enabled c .tryAcquire (decide (s.tokens < c.maxInFlight)) = true := by
        simp [RunState.enabled]
      obtain ⟨u, hu, hup, huch⟩ := of_call hask he rfl fun md h => by cases h
      cases htaken : decide (s.tokens < c.maxInFlight) with
      | false =>
          rw [htaken] at hup
          exact ⟨u, held, hu, hheld, hup, huch⟩
      | true =>
          rw [htaken] at hup
          obtain ⟨t, held', ht, hheld', hp', hch⟩ := ih (held + 1) (Nat.succ_pos _) hup
          exact ⟨t, held', hu.trans ht, hheld', hp', hch.trans huch⟩

theorem handOff (hcredit : 0 < c.maxInFlight) (msg : Message P) :
    ∃ t md k, Unpaced c (.initial c .polling) t ∧ t.producer = some (.ask (.handOff md) k) ∧
      t.workerCh = [] := by
  have hacquire : (RunState.initial c .polling).enabled c .acquire none = true :=
    decide_eq_true hcredit
  obtain ⟨s₁, h₁, hp₁, hch₁⟩ := of_call rfl hacquire rfl fun md h => by cases h
  obtain ⟨s₂, held, h₂, hheld, hp₂, hch₂⟩ := topUp (c := c) (c.pollMaxBatch - 1) 1 Nat.one_pos hp₁
  obtain ⟨s₃, h₃, hp₃, hch₃⟩ := of_call (c := c) (s := s₂) (q := .poll held) hp₂
    (r := .returned (List.replicate held msg, none)) rfl rfl fun md h => by cases h
  obtain ⟨n, rfl⟩ : ∃ n, held = n + 1 := ⟨held - 1, by omega⟩
  have hrows : s₃.producer = some (creditedRows (number 0 (List.replicate (n + 1) msg)) (n + 1) >>=
      fun rows => deliverRows c (0 + (List.replicate (n + 1) msg).length) (n + 1) rows) := hp₃
  rw [creditedRows, if_neg (by simp), pure_eq_ret, ret_bind, deliverRows, length_number,
    List.length_replicate, Nat.sub_self] at hrows
  obtain ⟨s₄, h₄, hp₄, hch₄⟩ := of_call (c := c) (s := s₃) (q := .manage 0) hrows (r := ()) rfl rfl
    fun md h => by cases h
  exact ⟨s₄, ⟨0, msg, true⟩, _, ((h₁.trans h₂).trans h₃).trans h₄, hp₄,
    hch₄.trans (hch₃.trans (hch₂.trans hch₁))⟩

end Unpaced

theorem not_ingressGovernance_polling [Nonempty P] (hcredit : 0 < c.maxInFlight) :
    ¬IngressGovernance c .polling := by
  intro hlaw
  have msg : Message P := ⟨Classical.arbitrary P, ⟨fun _ => none⟩⟩
  obtain ⟨s, md, k, ⟨ls, hr, hunpaced⟩, hp, hch⟩ := Unpaced.handOff (c := c) hcredit msg
  have he : s.enabled c (.handOff md) true = true := by
    simpa [RunState.enabled, hch] using hcredit
  obtain ⟨l, t, hstep, hseen, -, -⟩ := exists_produce hp he
  have hevents : producerEvents c (.initial c .polling) (ls ++ [l]) =
      producerEvents c (.initial c .polling) ls ++ ⟨.handOff md, true⟩ :: [] := by
    rw [producerEvents, observe_append _ _ hr, observe_cons_of_step _ _ hstep, hseen]
    rfl
  obtain ⟨hgoverned, -⟩ := hlaw (ls ++ [l]) t ((run_concat_eq_some _).mpr ⟨s, hr, hstep⟩)
  obtain ⟨⟨w, hw, hwaited⟩, -⟩ := hgoverned _ _ _ hevents rfl
  have hmem := (List.rtakeWhile_suffix _ _).subset hw
  rw [hunpaced w hmem] at hwaited
  cases hwaited

theorem ingressGovernance_of_noCredit {kind : SourceKind} (hcredit : c.maxInFlight = 0) :
    IngressGovernance c kind := by
  have hnone : ∀ {s t : RunState P T} {ls}, run (RunState.step c) s ls = some t →
      ∀ e ∈ producerEvents c s ls, e.placed = false := by
    intro s t ls hr
    have hstart : ∀ e ∈ ([] : List (Event P T)), e.placed = false := fun e he => by cases he
    refine run_observe (RunState.step c) produced (I := fun _ es => ∀ e ∈ es, e.placed = false) ?_
      hstart hr
    intro s l t es hes hstep e he
    rcases List.mem_append.mp he with he | he
    · exact hes e he
    · cases producerStep_of_step hstep with
      | calls q k r asks enabled next seen =>
          obtain rfl : e = ⟨q, r⟩ := by simpa [seen] using he
          cases q with
          | handOff md =>
              cases r with
              | false => rfl
              | true => simp [RunState.enabled, hcredit] at enabled
          | _ => rfl
      | _ => simp_all
  intro ls s hr
  refine ⟨?_, fun ls' t hr' _ => ?_⟩
  · intro pre e post hes he
    have hplaced := hnone hr e (by simp [hes])
    rw [he] at hplaced
    cases hplaced
  · rw [List.countP_eq_zero.mpr fun e he => by simp [hnone hr' e he]]
    exact Nat.zero_le 1

/-- With both governors set, the law holds for a streaming source and fails for every polling source
that can place a delivery at all. -/
theorem ingressGovernance_iff [Nonempty P] (hl : c.rateLimiter = true) (hb : c.breaker = true)
    (kind : SourceKind) : IngressGovernance c kind ↔ kind = .streaming ∨ c.maxInFlight = 0 := by
  constructor
  · intro hlaw
    cases kind with
    | streaming => exact .inl rfl
    | polling =>
        refine .inr (Nat.eq_zero_of_not_pos fun hcredit => ?_)
        exact not_ingressGovernance_polling hcredit hlaw
  · rintro (rfl | hcredit)
    · exact ingressGovernance_streaming hl hb
    · exact ingressGovernance_of_noCredit hcredit

def governedConsumer : Consumer Unit Unit :=
  { pairConsumer with rateLimiter := true, breaker := true }

theorem ingressGovernance_iff_streaming : IngressGovernance governedConsumer .streaming :=
  (ingressGovernance_iff rfl rfl .streaming).mpr (.inl rfl)

/-- The breaker reports open and a poll returns two messages. -/
def polledWhileOpen : (q : Call Unit Unit) → q.Answer
  | .poll _ => .returned ([blankMessage, blankMessage], none)
  | .allow => .returned false
  | .tryProbe => .returned false
  | q => q.calm

theorem polled_ungoverned :
    ¬IngressGovernance governedConsumer .polling ∧
    ∃ s, run (RunState.step governedConsumer) (.initial governedConsumer .polling)
        (List.replicate 7 (.produce polledWhileOpen)) = some s ∧
      (∀ l ∈ List.replicate 7 (RunLabel.produce polledWhileOpen), l.BreakerOpen) ∧
      (producerEvents governedConsumer (.initial governedConsumer .polling)
        (List.replicate 7 (.produce polledWhileOpen))).countP Event.placed = 2 ∧
      ∀ e ∈ producerEvents governedConsumer (.initial governedConsumer .polling)
        (List.replicate 7 (.produce polledWhileOpen)), e.waited = false ∧ e.notOpen = false := by
  have hopen : ∀ l ∈ List.replicate 7 (RunLabel.produce polledWhileOpen), l.BreakerOpen := by
    intro l hl
    rw [List.eq_of_mem_replicate hl]
    exact ⟨rfl, rfl, rfl⟩
  obtain ⟨s, hr, hcount⟩ : ∃ s, run (RunState.step governedConsumer)
      (.initial governedConsumer .polling) (List.replicate 7 (.produce polledWhileOpen)) = some s ∧
      (producerEvents governedConsumer (.initial governedConsumer .polling)
        (List.replicate 7 (.produce polledWhileOpen))).countP Event.placed = 2 := ⟨_, rfl, rfl⟩
  refine ⟨fun hlaw => ?_, s, hr, hopen, hcount, ?_⟩
  · have hone := (hlaw [] _ rfl).2 _ s hr hopen
    omega
  · decide

end Msgin
