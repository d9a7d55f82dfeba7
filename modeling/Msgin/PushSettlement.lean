import Msgin.CreditAccounting
import Msgin.KeyedMaps
import Msgin.PushHand

/-!
# The push path settles every delivery once

A received delivery is in the producer's hands, in the worker channel or with a worker, until one
of them calls its Ack or its Nack. When `Run` returns the producer has stopped, the channel is
empty and no worker is busy, so every delivery has been settled.
-/

namespace Msgin

open Interaction Prog TransitionRuns KeyedMaps

variable {P T : Type} {c : Consumer P T} {s s' : RunState P T}

/-- What a run shows of the deliveries: one is received, or an original Ack or Nack closure is
called. -/
inductive Seen
  | received
  | settled (d : ℕ)
  deriving DecidableEq

def seenOf (q : Call P T) (r : q.Answer) : Option Seen :=
  match q, r with
  | .receive, .delivery _ => some .received
  | .ack d, _ => some (.settled d)
  | .nack d _ _, _ => some (.settled d)
  | _, _ => none

def seen (s : RunState P T) : RunLabel P T → Option Seen
  | .produce answer =>
    match s.producer with
    | some (.ask q _) => seenOf q (answer q)
    | _ => none
  | .work i answer =>
    match s.workers i with
    | some (_, .ask q _) => seenOf q (answer q)
    | _ => none
  | _ => none

/-- What `Run` waits for before it returns. -/
def RunState.Returned (s : RunState P T) : Prop :=
  s.producer = none ∧ s.workerCh = [] ∧ ∀ i, s.workers i = none

inductive Stand
  | ahead
  | hand
  | channel
  | worker (i : ℕ)
  | settled
  deriving DecidableEq

structure PushInv (s : RunState P T) (os : List Seen) (m : Hand) (stand : ℕ → Stand) : Prop where
  received : os.count .received = m.fresh
  counted : ∀ d, os.count (.settled d) = if stand d = .settled then 1 else 0
  producer : ∀ p, s.producer = some p → Meets Hand.next Hand.Ready p m
  exited : s.producer = none → m.hand = none
  hand : ∀ d, m.hand = some d ↔ stand d = .hand
  channel : ∀ d, d ∈ s.workerCh.map Delivery.tag ↔ stand d = .channel
  distinct : (s.workerCh.map Delivery.tag).Nodup
  worker : ∀ i md p, s.workers i = some (md, p) → ∃ b, Meets settleNext (fun _ b => b = true) p b ∧
    Only (ProcessCall md.tag) p ∧ stand md.tag = if b then .settled else .worker i
  working : ∀ d i, stand d = .worker i → ∃ md p, s.workers i = some (md, p) ∧ md.tag = d
  ahead : ∀ d, stand d = .ahead ↔ m.fresh ≤ d

theorem pushInv_initial (c : Consumer P T) :
    PushInv (RunState.initial c .streaming) [] ⟨none, 0⟩ fun _ => .ahead where
  received := rfl
  counted _ := rfl
  producer p hp := by
    obtain rfl := Option.some.inj hp
    exact Hand.meets_producer c rfl
  exited h := by cases h
  hand := by simp
  channel := by simp [RunState.initial]
  distinct := List.nodup_nil
  worker i md p h := by cases h
  working := by simp
  ahead := by simp

section Steps

variable {os : List Seen} {m m' : Hand} {stand : ℕ → Stand}

theorem effect_workers (s : RunState P T) (q : Call P T) (r : q.Answer) :
    (s.effect q r).workers = s.workers := by
  cases q <;> first | rfl | (simp only [RunState.effect]; split <;> rfl) | (cases r <;> rfl)

variable {md : Delivery P} {p : Routine P T (Control P)} {q : Call P T} {d i : ℕ} {new : Stand}

theorem effect_workerCh (s : RunState P T) (r : q.Answer) (hq : ∀ md, q ≠ .handOff md) :
    (s.effect q r).workerCh = s.workerCh := by
  cases q with
  | handOff md => exact absurd rfl (hq md)
  | _ => first | rfl | (simp only [RunState.effect]; split <;> rfl) | (cases r <;> rfl)

theorem PushInv.stand_of_worker (h : PushInv s os m stand) {p : Routine P T Unit}
    (hw : s.workers i = some (md, p)) : stand md.tag = .settled ∨ stand md.tag = .worker i := by
  obtain ⟨b, -, -, hb⟩ := h.worker i md p hw
  cases b with
  | true => exact Or.inl hb
  | false => exact Or.inr hb

theorem count_settled (os : List Seen) (d x : ℕ) :
    (os ++ [Seen.settled d]).count (Seen.settled x) =
      os.count (Seen.settled x) + if x = d then 1 else 0 := by
  rw [List.count_append]
  congr 1
  by_cases hx : x = d
  · subst hx
    simp
  · rw [if_neg hx, List.count_eq_zero]
    simpa using hx

theorem PushInv.keep (h : PushInv s os m stand) (hchannel : s'.workerCh = s.workerCh)
    (hworkers : s'.workers = s.workers)
    (hproducer : ∀ p, s'.producer = some p → Meets Hand.next Hand.Ready p m)
    (hexited : s'.producer = none → m.hand = none) : PushInv s' os m stand where
  received := h.received
  counted := h.counted
  producer := hproducer
  exited := hexited
  hand := h.hand
  channel := by rw [hchannel]; exact h.channel
  distinct := by rw [hchannel]; exact h.distinct
  worker := by rw [hworkers]; exact h.worker
  working := by rw [hworkers]; exact h.working
  ahead := h.ahead

theorem PushInv.move (h : PushInv s os m stand) (hold : stand d ≠ .settled) (hnew : new ≠ .ahead)
    {os' : List Seen} (hreceived : os'.count .received = m'.fresh)
    (hcounted : ∀ x, os'.count (.settled x) =
      os.count (.settled x) + if x = d ∧ new = .settled then 1 else 0)
    (hproducer : ∀ p, s'.producer = some p → Meets Hand.next Hand.Ready p m')
    (hexited : s'.producer = none → m'.hand = none)
    (hhand : ∀ x, m'.hand = some x ↔ x ≠ d ∧ m.hand = some x ∨ x = d ∧ new = .hand)
    (hchannel : ∀ x, x ∈ s'.workerCh.map Delivery.tag ↔
      x ≠ d ∧ x ∈ s.workerCh.map Delivery.tag ∨ x = d ∧ new = .channel)
    (hdistinct : (s'.workerCh.map Delivery.tag).Nodup)
    (hworker : ∀ i md p, s'.workers i = some (md, p) →
      md.tag ≠ d ∧ s.workers i = some (md, p) ∨ md.tag = d ∧
        ∃ b, Meets settleNext (fun _ b => b = true) p b ∧ Only (ProcessCall md.tag) p ∧
          new = if b then .settled else .worker i)
    (hworking : ∀ x i, x ≠ d ∧ stand x = .worker i ∨ x = d ∧ new = .worker i →
      ∃ md p, s'.workers i = some (md, p) ∧ md.tag = x)
    (hahead : ∀ x, m'.fresh ≤ x ↔ x ≠ d ∧ m.fresh ≤ x) :
    PushInv s' os' m' (Function.update stand d new) := by
  have hstand : ∀ x y, Function.update stand d new x = y ↔
      x ≠ d ∧ stand x = y ∨ x = d ∧ new = y := by
    intro x y
    by_cases hx : x = d
    · subst hx
      simp
    · simp [hx]
  exact
    { received := hreceived
      counted := by
        intro x
        rw [hcounted, h.counted]
        by_cases hx : x = d
        · subst hx
          simp [hold]
        · simp [hx]
      producer := hproducer
      exited := hexited
      hand := fun x => by rw [hhand, hstand, h.hand]
      channel := fun x => by rw [hchannel, hstand, h.channel]
      distinct := hdistinct
      worker := by
        intro i md p hw
        rcases hworker i md p hw with ⟨hne, hsame⟩ | ⟨heq, b, hmeets, honly, hb⟩
        · obtain ⟨b, hmeets, honly, hb⟩ := h.worker i md p hsame
          exact ⟨b, hmeets, honly, (hstand _ _).mpr (Or.inl ⟨hne, hb⟩)⟩
        · exact ⟨b, hmeets, honly, (hstand _ _).mpr (Or.inr ⟨heq, hb⟩)⟩
      working := fun x i hx => hworking x i ((hstand x _).mp hx)
      ahead := by
        intro x
        rw [hstand, hahead, h.ahead]
        simp [hnew] }

theorem PushInv.workers_of_elsewhere (h : PushInv s os m stand) (hd : stand d ≠ .settled)
    (hd' : ∀ i, stand d ≠ .worker i) {p : Routine P T Unit} (hw : s.workers i = some (md, p)) :
    md.tag ≠ d := by
  rintro rfl
  rcases h.stand_of_worker hw with hstand | hstand
  · exact hd hstand
  · exact hd' i hstand

theorem iff_of_elsewhere (there : ℕ → Prop) {arrives : Prop} (hd : ¬there d) (harrives : ¬arrives)
    (x : ℕ) : there x ↔ x ≠ d ∧ there x ∨ x = d ∧ arrives := by
  by_cases hx : x = d
  · subst hx
    simp [hd, harrives]
  · simp [hx]

theorem PushInv.hand_of_elsewhere (h : PushInv s os m stand) (hd : stand d ≠ .hand)
    (hnew : new ≠ .hand) (x : ℕ) :
    m.hand = some x ↔ x ≠ d ∧ m.hand = some x ∨ x = d ∧ new = .hand :=
  iff_of_elsewhere (m.hand = some ·) (fun hhand => hd ((h.hand d).mp hhand)) hnew x

theorem PushInv.channel_of_elsewhere (h : PushInv s os m stand) (hd : stand d ≠ .channel)
    (hnew : new ≠ .channel) (x : ℕ) :
    x ∈ s.workerCh.map Delivery.tag ↔
      x ≠ d ∧ x ∈ s.workerCh.map Delivery.tag ∨ x = d ∧ new = .channel :=
  iff_of_elsewhere (· ∈ s.workerCh.map Delivery.tag)
    (fun hchannel => hd ((h.channel d).mp hchannel)) hnew x

theorem PushInv.ahead_of_elsewhere (h : PushInv s os m stand) (hd : stand d ≠ .ahead) (x : ℕ) :
    m.fresh ≤ x ↔ x ≠ d ∧ m.fresh ≤ x := by
  refine ⟨fun hx => ⟨?_, hx⟩, And.right⟩
  rintro rfl
  exact hd ((h.ahead x).mpr hx)

theorem PushInv.moveOut (h : PushInv s os m stand) (hold : stand d = .ahead ∨ stand d = .hand)
    (hnew : new ≠ .ahead) (hidle : ∀ i, new ≠ .worker i) {os' : List Seen}
    (hreceived : os'.count .received = m'.fresh)
    (hcounted : ∀ x, os'.count (.settled x) =
      os.count (.settled x) + if x = d ∧ new = .settled then 1 else 0)
    (hp : Meets Hand.next Hand.Ready p m')
    (hhand : ∀ x, m'.hand = some x ↔ x ≠ d ∧ m.hand = some x ∨ x = d ∧ new = .hand)
    {ch : List (Delivery P)}
    (hchannel : ∀ x, x ∈ ch.map Delivery.tag ↔
      x ≠ d ∧ x ∈ s.workerCh.map Delivery.tag ∨ x = d ∧ new = .channel)
    (hdistinct : (ch.map Delivery.tag).Nodup) (hahead : ∀ x, m'.fresh ≤ x ↔ x ≠ d ∧ m.fresh ≤ x) :
    PushInv { s with workerCh := ch, producer := some p } os' m' (Function.update stand d new) := by
  have hsettled : stand d ≠ .settled := by
    rcases hold with hold | hold <;> simp [hold]
  have hworker : ∀ i, stand d ≠ .worker i := by
    rcases hold with hold | hold <;> simp [hold]
  refine h.move hsettled hnew hreceived hcounted ?_ nofun hhand hchannel hdistinct ?_ ?_ hahead
  · rintro p' ⟨rfl⟩
    exact hp
  · intro i md p' hw
    exact Or.inl ⟨h.workers_of_elsewhere hsettled hworker hw, hw⟩
  · rintro x i (⟨-, hx⟩ | ⟨-, hx⟩)
    · exact h.working x i hx
    · exact absurd hx (hidle i)

theorem PushInv.receive (h : PushInv s os m stand) (hhand : m.hand = none)
    (hp : Meets Hand.next Hand.Ready p ⟨some m.fresh, m.fresh + 1⟩) :
    PushInv { s with producer := some p } (os ++ [.received]) ⟨some m.fresh, m.fresh + 1⟩
      (Function.update stand m.fresh .hand) := by
  have hstand : stand m.fresh = .ahead := (h.ahead _).mpr (Nat.le_refl _)
  apply h.moveOut (.inl hstand)
  · simp
  · simp
  · simp [h.received]
  · simp
  · exact hp
  · simp [hhand, eq_comm]
  · exact h.channel_of_elsewhere (by simp [hstand]) (by simp)
  · exact h.distinct
  · intro x
    dsimp only
    omega

theorem PushInv.nackHand (h : PushInv s os m stand) (hhand : m.hand = some d)
    (hp : Meets Hand.next Hand.Ready p { m with hand := none }) :
    PushInv { s with producer := some p } (os ++ [.settled d]) { m with hand := none }
      (Function.update stand d .settled) := by
  have hstand : stand d = .hand := (h.hand d).mp hhand
  apply h.moveOut (.inr hstand)
  · simp
  · simp
  · simp [h.received]
  · simpa using count_settled os d
  · exact hp
  · simp [hhand, eq_comm]
  · exact h.channel_of_elsewhere (by simp [hstand]) (by simp)
  · exact h.distinct
  · exact h.ahead_of_elsewhere (by simp [hstand])

theorem PushInv.handOff (h : PushInv s os m stand) (hhand : m.hand = some md.tag)
    (hp : Meets Hand.next Hand.Ready p { m with hand := none }) :
    PushInv { s with workerCh := s.workerCh ++ [md], producer := some p } os
      { m with hand := none } (Function.update stand md.tag .channel) := by
  have hstand : stand md.tag = .hand := (h.hand _).mp hhand
  have hnot : md.tag ∉ s.workerCh.map Delivery.tag := by
    rw [h.channel, hstand]
    simp
  apply h.moveOut (.inr hstand)
  · simp
  · simp
  · exact h.received
  · simp
  · exact hp
  · simp [hhand, eq_comm]
  · intro x
    rw [List.map_append, List.mem_append, List.map_singleton, List.mem_singleton]
    constructor
    · rintro (hx | rfl)
      · exact Or.inl ⟨fun heq => hnot (heq ▸ hx), hx⟩
      · exact Or.inr ⟨rfl, rfl⟩
    · rintro (⟨-, hx⟩ | ⟨rfl, -⟩)
      · exact Or.inl hx
      · exact Or.inr rfl
  · rw [List.map_append, List.map_singleton, ← List.concat_eq_append]
    exact h.distinct.concat hnot
  · exact h.ahead_of_elsewhere (by simp [hstand])

theorem PushInv.take (h : PushInv s os m stand) {rest : List (Delivery P)}
    (hidle : s.workers i = none) (hch : s.workerCh = md :: rest) (c : Consumer P T) :
    PushInv { s with workerCh := rest
                     workers := Function.update s.workers i (some (md, process c md)) } os m
      (Function.update stand md.tag (.worker i)) := by
  have hdistinct := h.distinct
  rw [hch, List.map_cons, List.nodup_cons] at hdistinct
  have hstand : stand md.tag = .channel := by
    rw [← h.channel, hch]
    exact List.mem_cons_self
  apply h.move
  · simp [hstand]
  · simp
  · exact h.received
  · simp
  · exact h.producer
  · exact h.exited
  · exact h.hand_of_elsewhere (by simp [hstand]) (by simp)
  · intro x
    rw [hch, List.map_cons, List.mem_cons]
    constructor
    · intro hx
      exact Or.inl ⟨fun heq => hdistinct.1 (heq ▸ hx), Or.inr hx⟩
    · rintro (⟨hne, rfl | hx⟩ | ⟨-, hx⟩)
      · exact absurd rfl hne
      · exact hx
      · cases hx
  · exact hdistinct.2
  · intro j md' p hw
    rcases update_eq_some.mp hw with ⟨rfl, heq⟩ | ⟨-, hold⟩
    · obtain ⟨rfl, rfl⟩ := Prod.mk.inj heq
      exact Or.inr ⟨rfl, false, meets_process_settles c md', only_process c md', rfl⟩
    · exact Or.inl ⟨h.workers_of_elsewhere (by simp [hstand]) (by simp [hstand]) hold, hold⟩
  · rintro x j (⟨hne, hx⟩ | ⟨rfl, hx⟩)
    · obtain ⟨md', p, hw, htag⟩ := h.working x j hx
      have hj : j ≠ i := by
        rintro rfl
        simp [hidle] at hw
      exact ⟨md', p, (Function.update_of_ne hj _ _).trans hw, htag⟩
    · cases hx
      exact ⟨md, _, Function.update_self .., rfl⟩
  · exact h.ahead_of_elsewhere (by simp [hstand])

theorem PushInv.settle (h : PushInv s os m stand) {p p' : Routine P T Unit}
    (hw : s.workers i = some (md, p)) (hstand : stand md.tag = .worker i)
    (hmeets : Meets settleNext (fun _ b => b = true) p' true)
    (honly : Only (ProcessCall md.tag) p') :
    PushInv { s with workers := Function.update s.workers i (some (md, p')) }
      (os ++ [.settled md.tag]) m (Function.update stand md.tag .settled) := by
  apply h.move
  · simp [hstand]
  · simp
  · simp [h.received]
  · simpa using count_settled os md.tag
  · exact h.producer
  · exact h.exited
  · exact h.hand_of_elsewhere (by simp [hstand]) (by simp)
  · exact h.channel_of_elsewhere (by simp [hstand]) (by simp)
  · exact h.distinct
  · intro j md' p₁ hw'
    rcases update_eq_some.mp hw' with ⟨rfl, heq⟩ | ⟨hj, hold⟩
    · obtain ⟨rfl, rfl⟩ := Prod.mk.inj heq
      exact Or.inr ⟨rfl, true, hmeets, honly, rfl⟩
    · refine Or.inl ⟨?_, hold⟩
      intro htag
      rcases h.stand_of_worker hold with hother | hother
      · rw [htag, hstand] at hother
        cases hother
      · rw [htag, hstand] at hother
        exact hj (Stand.worker.inj hother).symm
  · rintro x j (⟨hne, hx⟩ | ⟨-, hx⟩)
    · obtain ⟨md', p₁, hw', htag⟩ := h.working x j hx
      have hj : j ≠ i := by
        rintro rfl
        obtain ⟨rfl, -⟩ := Prod.mk.inj (Option.some.inj (hw.symm.trans hw'))
        exact hne htag.symm
      exact ⟨md', p₁, (Function.update_of_ne hj _ _).trans hw', htag⟩
    · cases hx
  · exact h.ahead_of_elsewhere (by simp [hstand])

theorem PushInv.workOn (h : PushInv s os m stand) {p p' : Routine P T Unit} {b : Bool}
    (hw : s.workers i = some (md, p)) (hmeets : Meets settleNext (fun _ b => b = true) p' b)
    (honly : Only (ProcessCall md.tag) p') (hb : stand md.tag = if b then .settled else .worker i) :
    PushInv { s with workers := Function.update s.workers i (some (md, p')) } os m stand where
  received := h.received
  counted := h.counted
  producer := h.producer
  exited := h.exited
  hand := h.hand
  channel := h.channel
  distinct := h.distinct
  worker j md' p₁ hw' := by
    rcases update_eq_some.mp hw' with ⟨rfl, heq⟩ | ⟨-, hold⟩
    · obtain ⟨rfl, rfl⟩ := Prod.mk.inj heq
      exact ⟨b, hmeets, honly, hb⟩
    · exact h.worker j md' p₁ hold
  working x j hx := by
    obtain ⟨md', p₁, hw', htag⟩ := h.working x j hx
    by_cases hj : j = i
    · subst hj
      obtain ⟨rfl, -⟩ := Prod.mk.inj (Option.some.inj (hw.symm.trans hw'))
      exact ⟨md, p', Function.update_self .., htag⟩
    · exact ⟨md', p₁, (Function.update_of_ne hj _ _).trans hw', htag⟩
  ahead := h.ahead

theorem PushInv.finish (h : PushInv s os m stand) {u : Unit}
    (hw : s.workers i = some (md, .ret u)) :
    PushInv { s with workers := Function.update s.workers i none } os m stand where
  received := h.received
  counted := h.counted
  producer := h.producer
  exited := h.exited
  hand := h.hand
  channel := h.channel
  distinct := h.distinct
  worker j md' p hw' := by
    by_cases hj : j = i
    · subst hj
      simp at hw'
    · exact h.worker j md' p ((Function.update_of_ne hj _ _).symm.trans hw')
  working x j hx := by
    obtain ⟨md', p, hw', htag⟩ := h.working x j hx
    have hj : j ≠ i := by
      rintro rfl
      obtain ⟨rfl, rfl⟩ := Prod.mk.inj (Option.some.inj (hw.symm.trans hw'))
      obtain ⟨b, hb, -, hstand⟩ := h.worker j md _ hw
      obtain rfl : b = true := hb
      rw [htag, hx] at hstand
      cases hstand
    exact ⟨md', p, (Function.update_of_ne hj _ _).trans hw', htag⟩
  ahead := h.ahead

theorem PushInv.congr (h : PushInv s os m stand) (hchannel : s'.workerCh = s.workerCh)
    (hworkers : s'.workers = s.workers) (hproducer : s'.producer = s.producer) :
    PushInv s' os m stand :=
  h.keep hchannel hworkers (hproducer ▸ h.producer) (hproducer ▸ h.exited)

theorem PushInv.produce (h : PushInv s os m stand) {k : q.Answer → Routine P T (Control P)}
    (hp : s.producer = some (.ask q k)) (r : q.Answer) :
    ∃ m' stand', PushInv { s.effect q r with producer := some (k r) }
      (os ++ (seenOf q r).toList) m' stand' := by
  obtain ⟨m', hm', hk⟩ := h.producer _ hp r
  have hsame : m' = m → seenOf q r = none → (∀ md, q ≠ .handOff md) →
      ∃ m' stand', PushInv { s.effect q r with producer := some (k r) }
        (os ++ (seenOf q r).toList) m' stand' := by
    intro hmm hseen hq
    rw [hseen, Option.toList_none, List.append_nil]
    refine ⟨m, stand, h.keep (effect_workerCh s r hq) (effect_workers s q r) ?_ (by simp)⟩
    rintro p ⟨rfl⟩
    exact hmm ▸ hk
  cases q with
  | receive =>
      cases r with
      | ctxDone => exact hsame (Option.some.inj hm').symm rfl (by simp)
      | closed => exact hsame (Option.some.inj hm').symm rfl (by simp)
      | delivery msg =>
          simp only [Hand.next, Option.ite_none_right_eq_some, Option.some.injEq] at hm'
          obtain ⟨hhand, rfl⟩ := hm'
          exact ⟨_, _, h.receive hhand hk⟩
  | handOff md =>
      cases r with
      | true =>
          simp only [Hand.next, Option.ite_none_right_eq_some, Option.some.injEq] at hm'
          obtain ⟨hhand, rfl⟩ := hm'
          have hseen : os ++ (seenOf (.handOff md : Call P T) true).toList = os := List.append_nil os
          exact ⟨_, _, hseen.symm ▸ h.handOff hhand hk⟩
      | false =>
          obtain rfl := Option.some.inj hm'
          have hseen : os ++ (seenOf (.handOff md : Call P T) false).toList = os := List.append_nil os
          refine ⟨m, stand, hseen.symm ▸ h.keep rfl rfl ?_ (by simp)⟩
          rintro p ⟨rfl⟩
          exact hk
  | ack d =>
      simp only [Hand.next, Option.ite_none_right_eq_some, Option.some.injEq] at hm'
      obtain ⟨hhand, rfl⟩ := hm'
      exact ⟨_, _, h.nackHand hhand hk⟩
  | nack d requeue delay =>
      simp only [Hand.next, Option.ite_none_right_eq_some, Option.some.injEq] at hm'
      obtain ⟨hhand, rfl⟩ := hm'
      exact ⟨_, _, h.nackHand hhand hk⟩
  | _ => exact hsame (Option.some.inj hm').symm rfl (by simp)

theorem seenOf_of_isPlain (hq : q.isPlain = true) (r : q.Answer) : seenOf q r = none := by
  cases q <;> first | rfl | cases hq

theorem seenOf_of_settles (hq : q.settles = some d) (r : q.Answer) :
    seenOf q r = some (.settled d) := by
  cases q <;> first | (cases hq; rfl) | cases hq

theorem not_handOff_of_processCall (h : ProcessCall d q) (md : Delivery P) : q ≠ .handOff md := by
  rintro rfl
  rcases h with hplain | hsettles | heq
  · cases hplain
  · cases hsettles
  · cases heq

theorem effect_producer (s : RunState P T) (q : Call P T) (r : q.Answer) :
    (s.effect q r).producer = s.producer := by
  cases q <;> first | rfl | (simp only [RunState.effect]; split <;> rfl) | (cases r <;> rfl)

theorem PushInv.work (h : PushInv s os m stand) {k : q.Answer → Routine P T Unit}
    (hw : s.workers i = some (md, .ask q k)) (r : q.Answer) :
    ∃ m' stand', PushInv
      { s.effect q r with workers := Function.update s.workers i (some (md, k r)) }
      (os ++ (seenOf q r).toList) m' stand' := by
  obtain ⟨b, hmeets, honly, hb⟩ := h.worker i md _ hw
  obtain ⟨b', hb', hk⟩ := hmeets r
  have hcall : ProcessCall md.tag q := honly.1
  have hchannel : (s.effect q r).workerCh = s.workerCh :=
    effect_workerCh s r (not_handOff_of_processCall hcall)
  have hquiet : q.settles = none → seenOf q r = none →
      ∃ m' stand', PushInv
        { s.effect q r with workers := Function.update s.workers i (some (md, k r)) }
        (os ++ (seenOf q r).toList) m' stand' := by
    intro hsettles hseen
    rw [hseen, Option.toList_none, List.append_nil]
    simp only [settleNext, onceNext, hsettles, Option.isSome_none, Bool.false_eq_true, if_false,
      Option.some.injEq] at hb'
    exact ⟨m, stand, (h.workOn hw (hb' ▸ hk) (honly.2 r) hb).congr hchannel rfl
      (effect_producer s q r)⟩
  rcases hcall with hplain | hsettles | rfl
  · exact hquiet (settles_of_isPlain hplain) (seenOf_of_isPlain hplain r)
  · rw [seenOf_of_settles hsettles r]
    simp only [settleNext, onceNext, hsettles, Option.isSome_some, if_true,
      Option.ite_none_left_eq_some, Option.some.injEq] at hb'
    obtain ⟨hfalse, rfl⟩ := hb'
    rw [if_neg hfalse] at hb
    exact ⟨m, _, (h.settle hw hb hk (honly.2 r)).congr hchannel rfl (effect_producer s q r)⟩
  · exact hquiet rfl rfl

theorem pushInv_step {l : RunLabel P T} (h : ∃ m stand, PushInv s os m stand)
    (hstep : s.step c l = some s') : ∃ m stand, PushInv s' (os ++ (seen s l).toList) m stand := by
  obtain ⟨m, stand, h⟩ := h
  have hnone : ∀ os : List Seen, os ++ (none : Option Seen).toList = os := by simp
  unfold RunState.step at hstep
  cases l with
  | cancel =>
      obtain rfl := Option.some.inj hstep
      exact ⟨m, stand, (hnone os).symm ▸ h.congr rfl rfl rfl⟩
  | produce answer =>
      dsimp only at hstep
      split at hstep
      · next q k hp =>
          split at hstep
          · obtain rfl := Option.some.inj hstep
            simp only [seen, hp]
            exact h.produce hp (answer q)
          · cases hstep
      · cases hstep
  | nextPass =>
      dsimp only at hstep
      split at hstep
      · next hp =>
          obtain rfl := Option.some.inj hstep
          have hready : m.hand = none := h.producer _ hp
          exact ⟨m, stand, (hnone os).symm ▸ h.keep rfl rfl (by simp) fun _ => hready⟩
      · next ctl _ hp =>
          obtain rfl := Option.some.inj hstep
          have hready : Hand.Ready ctl m := h.producer _ hp
          refine ⟨m, stand, (hnone os).symm ▸ h.keep rfl rfl ?_ (by simp)⟩
          rintro p ⟨rfl⟩
          exact Hand.meets_producer c hready
      · cases hstep
  | take i =>
      dsimp only at hstep
      split at hstep
      · next md rest hidle hch =>
          split at hstep
          · obtain rfl := Option.some.inj hstep
            exact ⟨m, _, (hnone os).symm ▸ h.take hidle hch c⟩
          · cases hstep
      · cases hstep
  | work i answer =>
      dsimp only at hstep
      split at hstep
      · next md q k hw =>
          split at hstep
          · obtain rfl := Option.some.inj hstep
            simp only [seen, hw]
            exact h.work hw (answer q)
          · cases hstep
      · cases hstep
  | finish i =>
      dsimp only at hstep
      split at hstep
      · next md u hw =>
          obtain rfl := Option.some.inj hstep
          exact ⟨m, stand, (hnone os).symm ▸ h.finish hw⟩
      · cases hstep

/-- When `Run` has returned, what was received has been settled. -/
theorem PushInv.settled_of_returned (h : PushInv s os m stand) (hreturned : s.Returned) (d : ℕ) :
    os.count (.settled d) = if d < os.count .received then 1 else 0 := by
  obtain ⟨hproducer, hchannel, hworkers⟩ := hreturned
  rw [h.counted, h.received]
  cases hstand : stand d with
  | ahead =>
      have hle : m.fresh ≤ d := (h.ahead d).mp hstand
      rw [if_neg (by simp), if_neg (by omega)]
  | hand =>
      have hhand := (h.hand d).mpr hstand
      rw [h.exited hproducer] at hhand
      cases hhand
  | channel =>
      have hmem := (h.channel d).mpr hstand
      rw [hchannel] at hmem
      cases hmem
  | worker i =>
      obtain ⟨md, p, hw, -⟩ := h.working d i hstand
      rw [hworkers] at hw
      cases hw
  | settled =>
      have hlt : ¬m.fresh ≤ d := by
        rw [← h.ahead, hstand]
        simp
      rw [if_pos rfl, if_pos (by omega)]

end Steps

/-- Every delivery that the stream has given is settled exactly once by the time `Run` returns. -/
theorem run_settled_once (c : Consumer P T) (ls : List (RunLabel P T)) {s : RunState P T}
    (hr : run (RunState.step c) (RunState.initial c .streaming) ls = some s)
    (hreturned : s.Returned) (d : ℕ) :
    (observe (RunState.step c) seen (RunState.initial c .streaming) ls).count (.settled d) =
      if d < (observe (RunState.step c) seen (RunState.initial c .streaming) ls).count .received
      then 1 else 0 := by
  have hinv := run_observe (RunState.step c) seen (I := fun s os => ∃ m stand, PushInv s os m stand)
    (fun s l t os h hstep => pushInv_step h hstep) ⟨_, _, pushInv_initial c⟩ hr
  obtain ⟨m, stand, h⟩ := hinv
  exact h.settled_of_returned hreturned d

def noCredit : (q : Call Unit Unit) → q.Answer
  | .acquire => some (.new "context canceled")
  | q => q.calm

/-- One message is processed and acknowledged; a second one is received and given back because
the context ends before it has a credit. -/
def ackAndGiveBack : List (RunLabel Unit Unit) :=
  oneMessage ++ [.nextPass, .produce blankStream, .nextPass, .cancel, .produce noCredit,
    .produce noCredit, .nextPass]

theorem run_settled_once_ackAndGiveBack :
    ∃ s, run (RunState.step pairConsumer) (RunState.initial pairConsumer .streaming)
        ackAndGiveBack = some s ∧ s.Returned ∧ ∀ d,
      (observe (RunState.step pairConsumer) seen (RunState.initial pairConsumer .streaming)
        ackAndGiveBack).count (.settled d) = if d < 2 then 1 else 0 := by
  obtain ⟨s, hs, hreturned⟩ : ∃ s, run (RunState.step pairConsumer)
      (RunState.initial pairConsumer .streaming) ackAndGiveBack = some s ∧ s.Returned := by
    refine ⟨_, rfl, rfl, rfl, ?_⟩
    intro i
    cases i <;> rfl
  exact ⟨s, hs, hreturned, run_settled_once pairConsumer ackAndGiveBack hs hreturned⟩

end Msgin
