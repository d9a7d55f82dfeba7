import Msgin.IngressPark

/-!
# No wake-up is missed

Every interleaving of the ingress goroutine with the breaker. The channel that the goroutine holds
after it has subscribed is the current one or an earlier one, and once it has checked the breaker
again the channel is closed or the breaker is open and will close it.
-/

namespace Msgin

open Interaction Prog TransitionRuns Resilience

variable {P T : Type}

namespace ParkWatch

def Holds (s : Ingress P T) : ParkWatch → Prop
  | .idle => True
  | .subscribed => ∃ ch, s.wake = some ch ∧ ch ≤ s.breaker.wake
  | .rechecked => ∃ ch, s.wake = some ch ∧
      (ch < s.breaker.wake ∨ ch = s.breaker.wake ∧ s.breaker.state = .breakerOpen)

end ParkWatch

variable {cfg : BreakerConfig} {c : Consumer P T} {s t : Ingress P T}

structure IngressInv (cfg : BreakerConfig) (s : Ingress P T) : Prop where
  breaker : BreakerInv cfg s.breaker
  made : ∀ ch, s.wake = some ch → ch ≤ s.breaker.wake
  watch : ∃ m : ParkWatch, Meets ParkWatch.next (fun _ _ => True) s.goroutine m ∧ m.Holds s

theorem ingressInv_start (cfg : BreakerConfig) (c : Consumer P T) (ctl : Control P) (now : ℤ) :
    IngressInv cfg (.start c ctl now) where
  breaker := breakerInv_new cfg now
  made ch h := by cases h
  watch := ⟨.idle, ParkWatch.meets_producer c ctl, trivial⟩

/-- A step of the breaker leaves its wake channel in place or closes it for the next one, and the
breaker leaves the open state only in the second way. -/
theorem Resilience.BreakerInv.wake_or_open {b b' : Breaker} {op : BreakerOp}
    (hinv : BreakerInv cfg b) (h : BreakerStep cfg b op b') :
    b'.wake = b.wake + 1 ∨
      b'.wake = b.wake ∧ (b.state = .breakerOpen → b'.state = .breakerOpen) := by
  cases h with
  | idle now _ _ => exact .inr ⟨rfl, id⟩
  | probes _ _ => exact .inr ⟨rfl, id⟩
  | resets _ => exact .inr ⟨rfl, id⟩
  | closes state => exact .inr ⟨rfl, fun h => absurd (state.symm.trans h) (by decide)⟩
  | counts _ _ => exact .inr ⟨rfl, id⟩
  | opens _ _ _ => exact .inr ⟨rfl, fun _ => rfl⟩
  | expires _ _ => exact .inr ⟨rfl, id⟩
  | late _ _ => exact .inr ⟨rfl, id⟩
  | wakes _ _ _ => exact .inl hinv.chans

variable {l : IngressLabel P T} {ls : List (IngressLabel P T)}

theorem Ingress.breakerStep_of_step (h : s.step cfg c l = some t) :
    t.breaker = s.breaker ∨ ∃ op, BreakerStep cfg s.breaker op t.breaker := by
  cases l with
  | breaker op =>
      obtain ⟨b, hb, rfl⟩ := Option.map_eq_some_iff.mp h
      exact .inr ⟨op, Resilience.breakerStep_of_step hb⟩
  | call answer =>
      rcases hg : s.goroutine with ctl | ⟨q, k⟩
      · simp [Ingress.step, hg] at h
      · simp only [Ingress.step, hg, Option.ite_none_right_eq_some, Option.some.injEq] at h
        exact .inl (h.2 ▸ rfl)
  | nextPass =>
      rcases hg : s.goroutine with ctl | ⟨q, k⟩
      · simp only [Ingress.step, hg, Option.some.injEq] at h
        exact .inl (h ▸ rfl)
      · simp [Ingress.step, hg] at h
  | cancel => exact .inl (Option.some.inj h ▸ rfl)

theorem IngressInv.wake_or_open (hinv : IngressInv cfg s) (h : s.step cfg c l = some t) :
    s.breaker.wake < t.breaker.wake ∨ t.breaker.wake = s.breaker.wake ∧
      (s.breaker.state = .breakerOpen → t.breaker.state = .breakerOpen) := by
  rcases Ingress.breakerStep_of_step h with hb | ⟨op, hb⟩
  · rw [hb]
    exact .inr ⟨rfl, id⟩
  · rcases hinv.breaker.wake_or_open hb with hw | hw
    · exact .inl (by omega)
    · exact .inr hw

theorem ParkWatch.Holds.breaker {m : ParkWatch} (h : m.Holds s) {b : Breaker}
    (hb : s.breaker.wake < b.wake ∨
      b.wake = s.breaker.wake ∧ (s.breaker.state = .breakerOpen → b.state = .breakerOpen)) :
    m.Holds { s with breaker := b } := by
  cases m with
  | idle => trivial
  | subscribed =>
      obtain ⟨ch, hch, hle⟩ := h
      exact ⟨ch, hch, by show ch ≤ b.wake; omega⟩
  | rechecked =>
      obtain ⟨ch, hch, hlt⟩ := h
      refine ⟨ch, hch, ?_⟩
      show ch < b.wake ∨ ch = b.wake ∧ b.state = .breakerOpen
      rcases hb with hb | ⟨hb, hopen⟩
      · exact .inl (by omega)
      · rcases hlt with hlt | ⟨heq, hs⟩
        · exact .inl (by omega)
        · exact .inr ⟨by omega, hopen hs⟩

theorem ParkWatch.Holds.answer {m m' : ParkWatch} (hm : m.Holds s) {q : Call P T} {r : q.Answer}
    (hr : s.answers q r = true) (hnext : m.next q r = some m') (p : Routine P T (Control P)) :
    m'.Holds { s with goroutine := p, wake := s.subscribe q } := by
  cases q with
  | halfOpen =>
      have hret : r = .returned () := of_decide_eq_true hr
      subst hret
      obtain rfl := Option.some.inj hnext
      exact ⟨s.breaker.wake, rfl, le_rfl⟩
  | allow =>
      have hret : r = .returned s.breaker.allow := of_decide_eq_true hr
      subst hret
      rcases hs : s.breaker.allow with _ | _
      · rw [hs] at hnext
        have hopen : s.breaker.state = .breakerOpen := by simpa [Breaker.allow] using hs
        cases m with
        | idle =>
            obtain rfl := Option.some.inj hnext
            trivial
        | subscribed =>
            obtain rfl := Option.some.inj hnext
            obtain ⟨ch, hch, hle⟩ := hm
            refine ⟨ch, hch, ?_⟩
            rcases Nat.lt_or_eq_of_le hle with hlt | heq
            · exact .inl hlt
            · exact .inr ⟨heq, hopen⟩
        | rechecked =>
            obtain rfl := Option.some.inj hnext
            exact hm
      · rw [hs] at hnext
        obtain rfl := Option.some.inj hnext
        cases m <;> exact hm
  | park =>
      cases m with
      | idle => cases hnext
      | subscribed => cases hnext
      | rechecked =>
          obtain rfl := Option.some.inj hnext
          trivial
  | _ =>
      obtain rfl := Option.some.inj hnext
      cases m <;> exact hm

theorem IngressInv.step (hinv : IngressInv cfg s) (h : s.step cfg c l = some t) :
    IngressInv cfg t := by
  obtain ⟨m, hmeets, hholds⟩ := hinv.watch
  have hwake := hinv.wake_or_open h
  cases l with
  | breaker op =>
      obtain ⟨b, hb, rfl⟩ := Option.map_eq_some_iff.mp h
      refine ⟨hinv.breaker.step (Resilience.breakerStep_of_step hb), fun ch hch => ?_,
        m, hmeets, hholds.breaker hwake⟩
      have hle := hinv.made ch hch
      show ch ≤ b.wake
      rcases hwake with hlt | ⟨heq, -⟩
      · exact hle.trans (Nat.le_of_lt hlt)
      · exact hle.trans (Nat.le_of_eq heq.symm)
  | call answer =>
      rcases hg : s.goroutine with ctl | ⟨q, k⟩
      · simp [Ingress.step, hg] at h
      · simp only [Ingress.step, hg, Option.ite_none_right_eq_some, Option.some.injEq] at h
        obtain ⟨hanswers, rfl⟩ := h
        rw [hg] at hmeets
        obtain ⟨m', hnext, hk⟩ := hmeets (answer q)
        refine ⟨hinv.breaker, fun ch hch => ?_, m', hk, hholds.answer hanswers hnext _⟩
        cases q with
        | halfOpen => exact (Option.some.inj hch).symm.le
        | _ => exact hinv.made ch hch
  | nextPass =>
      rcases hg : s.goroutine with ctl | ⟨q, k⟩
      · simp only [Ingress.step, hg, Option.some.injEq] at h
        obtain rfl := h
        exact ⟨hinv.breaker, hinv.made, .idle, ParkWatch.meets_producer c ctl, trivial⟩
      · simp [Ingress.step, hg] at h
  | cancel =>
      obtain rfl := Option.some.inj h
      refine ⟨hinv.breaker, hinv.made, m, hmeets, ?_⟩
      cases m <;> exact hholds

def LeavesOpen (cfg : BreakerConfig) (c : Consumer P T) (s : Ingress P T)
    (ls : List (IngressLabel P T)) : Prop :=
  ¬Along (Ingress.step cfg c)
    (fun s _ t => s.breaker.state = .breakerOpen → t.breaker.state = .breakerOpen) s ls

theorem IngressInv.wake_lt (hinv : IngressInv cfg s) (hr : run (Ingress.step cfg c) s ls = some t)
    (hleaves : LeavesOpen cfg c s ls) : s.breaker.wake < t.breaker.wake := by
  have hstep : ∀ u l v, (IngressInv cfg u ∧ s.breaker.wake ≤ u.breaker.wake) →
      u.step cfg c l = some v → IngressInv cfg v ∧ s.breaker.wake ≤ v.breaker.wake := by
    rintro u l v ⟨hu, hle⟩ huv
    refine ⟨hu.step huv, ?_⟩
    rcases hu.wake_or_open huv with hlt | ⟨heq, -⟩ <;> omega
  have hsame : t.breaker.wake = s.breaker.wake ↔ s.breaker.wake = s.breaker.wake ∧
      Along (Ingress.step cfg c) (fun u _ v => v.breaker.wake = u.breaker.wake) s ls := by
    refine run_iff_along (Ingress.step cfg c) (J := fun u => u.breaker.wake = s.breaker.wake)
      hstep ?_ ⟨hinv, le_rfl⟩ hr
    rintro u l v ⟨hu, hle⟩ huv
    rcases hu.wake_or_open huv with hlt | ⟨heq, -⟩ <;> omega
  have hle := (run_invariant (Ingress.step cfg c) hstep ⟨hinv, le_rfl⟩ hr).2
  rcases Nat.lt_or_eq_of_le hle with hlt | heq
  · exact hlt
  · refine absurd ?_ hleaves
    refine along_of_along_invariant (Ingress.step cfg c) (fun u l v h he _ => hstep u l v h he) ?_
      ⟨hinv, le_rfl⟩ (hsame.mp heq.symm).2
    rintro u l v ⟨hu, -⟩ huv hwake
    rcases hu.wake_or_open huv with hlt | ⟨-, hopen⟩
    · omega
    · exact hopen

theorem IngressInv.parked (hinv : IngressInv cfg s) (h : s.parked = true) :
    ∃ ch, s.wake = some ch ∧
      (ch < s.breaker.wake ∨ ch = s.breaker.wake ∧ s.breaker.state = .breakerOpen) := by
  obtain ⟨m, hmeets, hholds⟩ := hinv.watch
  rcases hg : s.goroutine with ctl | ⟨q, k⟩
  · simp [Ingress.parked, hg] at h
  · rw [hg] at hmeets
    cases q with
    | park =>
        obtain ⟨m', hnext, -⟩ := hmeets true
        cases m with
        | idle => cases hnext
        | subscribed => cases hnext
        | rechecked => exact hholds
    | _ => simp [Ingress.parked, hg] at h

theorem Ingress.wakes (cfg : BreakerConfig) (c : Consumer P T) {ch : ℕ} (hp : s.parked = true)
    (hw : s.wake = some ch) (hclosed : ch ∈ s.breaker.closedChans)
    {answer : (q : Call P T) → q.Answer} (hanswer : answer .park = true) :
    ∃ t, s.step cfg c (.call answer) = some t := by
  rcases hg : s.goroutine with ctl | ⟨q, k⟩
  · simp [Ingress.parked, hg] at hp
  · cases q with
    | park =>
        refine ⟨{ s with goroutine := k true, wake := s.wake }, ?_⟩
        simp [Ingress.step, hg, hanswer, Ingress.answers, hw, hclosed, Ingress.subscribe]
    | _ => simp [Ingress.parked, hg] at hp

theorem ingressInv_run {ctl : Control P} {now : ℤ}
    (hr : run (Ingress.step cfg c) (.start c ctl now) ls = some s) : IngressInv cfg s :=
  run_invariant (Ingress.step cfg c) (fun _ _ _ h hstep => h.step hstep)
    (ingressInv_start cfg c ctl now) hr

/-- Whatever the workers and the timer do in between, the channel the goroutine is parked on is
closed or is the one that the breaker closes when it leaves the open state; once the breaker has
done so after the subscription, the park returns. -/
theorem run_park_wakes {ctl : Control P} {now : ℤ} {ls : List (IngressLabel P T)}
    (hr : run (Ingress.step cfg c) (.start c ctl now) ls = some s) :
    (s.parked = true → ∃ ch, s.wake = some ch ∧
      (ch ∈ s.breaker.closedChans ∨
        s.breaker.state = .breakerOpen ∧ s.breaker.halfOpen = ch ∧
          s.breaker.armed.length + s.breaker.waiting.length = 1 ∧
          ∀ op b, s.breaker.step cfg op = some b → b.state ≠ .breakerOpen → ch ∈ b.closedChans)) ∧
    ∀ ch ls' t, s.wake = some ch → run (Ingress.step cfg c) s ls' = some t →
      LeavesOpen cfg c s ls' → ch ∈ t.breaker.closedChans ∧
        (t.parked = true → t.wake = some ch → ∀ answer : (q : Call P T) → q.Answer,
          answer .park = true → ∃ u, t.step cfg c (.call answer) = some u) := by
  have hinv := ingressInv_run hr
  constructor
  · intro hp
    obtain ⟨ch, hw, hlt | ⟨rfl, hopen⟩⟩ := hinv.parked hp
    · exact ⟨ch, hw, .inl ((hinv.breaker.closed ch).mpr hlt)⟩
    · refine ⟨_, hw, .inr ⟨hopen, rfl, hinv.breaker.cooling hopen, fun op b hb hleft => ?_⟩⟩
      have hstep := Resilience.breakerStep_of_step hb
      rw [(hinv.breaker.step hstep).closed]
      rcases hinv.breaker.wake_or_open hstep with hwake | ⟨-, hstays⟩
      · omega
      · exact absurd (hstays hopen) hleft
  · intro ch ls' t hw hr' hleaves
    have hle := hinv.made ch hw
    have hlt := hinv.wake_lt hr' hleaves
    have hinv' : IngressInv cfg t :=
      run_invariant (Ingress.step cfg c) (fun _ _ _ h hstep => h.step hstep) hinv hr'
    have hclosed : ch ∈ t.breaker.closedChans := (hinv'.breaker.closed ch).mpr (by omega)
    exact ⟨hclosed, fun hp hw' _ hanswer => Ingress.wakes cfg c hp hw' hclosed hanswer⟩

def gatedConsumer : Consumer Unit Unit := { pairConsumer with breaker := true }

def arrivesWhileOpen : (q : Call Unit Unit) → q.Answer
  | .receive => .delivery blankMessage
  | .allow => .returned false
  | q => q.calm

def parking : List (IngressLabel Unit Unit) :=
  [.breaker (.record false), .call arrivesWhileOpen, .nextPass, .call arrivesWhileOpen,
    .call arrivesWhileOpen, .call arrivesWhileOpen]

def cooldown : List (IngressLabel Unit Unit) :=
  [.breaker (.tick 30), .breaker (.expire 0), .breaker (.callback 0)]

theorem run_park_wakes_cooldown :
    ∃ s t, run (Ingress.step oneFailure gatedConsumer) (.start gatedConsumer (.ingest 0) 0)
        parking = some s ∧
      run (Ingress.step oneFailure gatedConsumer) s cooldown = some t ∧ s.parked = true ∧
      t.parked = true ∧
      ∃ u, t.step oneFailure gatedConsumer (.call arrivesWhileOpen) = some u := by
  obtain ⟨s, t, hs, ht, hparked, hw, hparked', hw', hopen, hhalf⟩ :
      ∃ s t, run (Ingress.step oneFailure gatedConsumer) (.start gatedConsumer (.ingest 0) 0)
          parking = some s ∧
        run (Ingress.step oneFailure gatedConsumer) s cooldown = some t ∧ s.parked = true ∧
        s.wake = some 0 ∧ t.parked = true ∧ t.wake = some 0 ∧ s.breaker.state = .breakerOpen ∧
        t.breaker.state = .breakerHalfOpen :=
    ⟨_, _, rfl, rfl, rfl, rfl, rfl, rfl, rfl, rfl⟩
  have hleaves : LeavesOpen oneFailure gatedConsumer s cooldown := by
    intro halong
    have hstays := run_invariant_of_along (Ingress.step oneFailure gatedConsumer)
      (I := fun u => u.breaker.state = .breakerOpen) (fun u l v hu _ hkeeps => hkeeps hu) hopen
      halong ht
    exact absurd (hhalf.symm.trans hstays) (by decide)
  refine ⟨s, t, hs, ht, hparked, hparked', ?_⟩
  exact ((run_park_wakes hs).2 0 cooldown t hw ht hleaves).2 hparked' hw' arrivesWhileOpen rfl

end Msgin
