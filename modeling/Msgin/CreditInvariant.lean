import Msgin.ConsumerRun
import Msgin.CreditLedger
import Msgin.KeyedMaps

/-!
# The credit invariant of a running consumer

The tokens in the gate are the credits the producer holds plus one for each managed
delivery whose release has not run. The invariant follows each managed delivery through
the places it can be in: the producer's hand, the worker channel, one worker, and then
gone. A delivery is never released while it is in the channel, which bounds the channel
by the gate.
-/

namespace Msgin

open Interaction Prog KeyedMaps

variable {P T : Type}

/-- The monitor of a worker that processes delivery `d`: it may only call the release of
`d`, and the flag says whether it has. -/
def workerNext (d : ℕ) (b : Bool) (q : Call P T) (_ : q.Answer) : Option Bool :=
  match q with
  | .releaseOnce x => if x = d then some true else none
  | .acquire => none
  | .tryAcquire => none
  | .release => none
  | .manage _ => none
  | .handOff _ => none
  | _ => some b

/-- A call that is neutral or the release of `d`. -/
def WorkerCall (d : ℕ) (q : Call P T) : Prop := q.isCredit = false ∨ q = .releaseOnce d

theorem workerNext_of_workerCall {d : ℕ} (b : Bool) {q : Call P T} (hq : WorkerCall d q)
    (r : q.Answer) : ∃ b', workerNext d b q r = some b' := by
  rcases hq with hq | rfl
  · refine ⟨b, ?_⟩
    cases q <;> first | rfl | cases hq
  · exact ⟨true, if_pos rfl⟩

/-- Whatever happens to a delivery on a worker, its release has been called at the end. -/
theorem meets_process (c : Consumer P T) (md : Delivery P) :
    Meets (workerNext md.tag) (fun _ b => b = true) (process c md) false := by
  unfold process
  rw [meets_bind]
  have honly : Only (WorkerCall md.tag) (processUnreleased c md) := by
    apply only_processUnreleased
    · exact fun q hq => Or.inl (isCredit_of_isDispatch q hq)
    · exact fun q hq => Or.inl (isCredit_of_settles q hq)
    · exact fun _ => Or.inr rfl
    · exact fun q hq => Or.inl (isCredit_of_isGovernor hq)
  have hany : Meets (workerNext md.tag) (fun _ _ => True) (processUnreleased c md) false := by
    refine honly.meets (fun b q r hq _ => ?_) trivial
    obtain ⟨b', hb'⟩ := workerNext_of_workerCall b hq r
    exact ⟨b', hb', trivial⟩
  refine hany.mono fun _ b _ r => ?_
  exact ⟨true, if_pos rfl, rfl⟩

inductive Place
  | hand
  | channel
  | worker (i : ℕ)
  | gone
  deriving DecidableEq

structure Balanced (c : Consumer P T) (s : RunState P T) : Prop where
  balance : s.tokens = s.held + (s.managed \ s.released).card
  bound : s.tokens ≤ c.maxInFlight
  released_sub : s.released ⊆ s.managed
  given_eq : ∀ d, s.given d = if d ∈ s.released then 1 else 0

/-- Where each managed delivery is, and what the goroutines may still do with it. -/
structure Tracked (s : RunState P T) (m : Ledger) (place : ℕ → Place) : Prop where
  held_eq : m.held = s.held
  producer_meets : ∀ p, s.producer = some p → Meets Ledger.next Ledger.Ready p m
  exited : s.producer = none → m.hand = none
  managed_lt : ∀ d ∈ s.managed, d < m.fresh
  hand_iff : ∀ d, m.hand = some d ↔ place d = .hand
  channel_iff : ∀ d, d ∈ s.workerCh.map Delivery.tag ↔ place d = .channel
  channel_nodup : (s.workerCh.map Delivery.tag).Nodup
  worker_iff : ∀ d i, s.inProcess i d ↔ place d = .worker i
  worker_meets : ∀ i md p, s.workers i = some (md, p) → ∃ b, (b = true → md.tag ∈ s.released) ∧
    Meets (workerNext md.tag) (fun _ b => b = true) p b
  managed_of_placed : ∀ d, place d ≠ .gone → d ∈ s.managed
  unreleased : ∀ d, place d = .hand ∨ place d = .channel → d ∉ s.released
  released_of_gone : ∀ d ∈ s.managed, place d = .gone → d ∈ s.released

def CreditInv (c : Consumer P T) (s : RunState P T) : Prop :=
  Balanced c s ∧ ∃ m place, Tracked s m place

theorem creditInv_initial (c : Consumer P T) (kind : SourceKind) :
    CreditInv c (RunState.initial c kind) := by
  refine ⟨⟨rfl, Nat.zero_le _, Finset.Subset.refl _, fun d => rfl⟩, ⟨0, none, 0⟩,
    fun _ => .gone, ?_⟩
  constructor
  · rfl
  · intro p hp
    have hready : Ledger.Ready (startOf kind : Control P) ⟨0, none, 0⟩ := by
      cases kind with
      | streaming => exact ⟨rfl, rfl, Nat.zero_le 0⟩
      | polling => exact ⟨rfl, rfl, Nat.zero_le 0⟩
    have hstart := Ledger.meets_producer c hready
    rwa [← Option.some.inj hp]
  · intro hp
    cases hp
  · intro d hd
    simp [RunState.initial] at hd
  · simp
  · simp [RunState.initial]
  · exact List.nodup_nil
  · simp [RunState.initial, RunState.inProcess]
  · intro i md p hw
    cases hw
  · intro d hd
    exact absurd rfl hd
  · intro d hd
    simp at hd
  · intro d hd
    simp [RunState.initial] at hd

section Pending

variable {c : Consumer P T} {s : RunState P T} {m : Ledger} {place : ℕ → Place}

theorem Tracked.ledger_of_call (h : Tracked s m place) {q : Call P T}
    {k : q.Answer → Routine P T (Control P)} (hp : s.producer = some (.ask q k)) (r : q.Answer) :
    ∃ m', m.next q r = some m' ∧ Meets Ledger.next Ledger.Ready (k r) m' :=
  h.producer_meets _ hp r

variable {d : ℕ}

theorem Balanced.tokens_pos_of_unreleased (hb : Balanced c s) (hd : d ∈ s.managed)
    (hr : d ∉ s.released) : 0 < s.tokens := by
  have hmem : d ∈ s.managed \ s.released := Finset.mem_sdiff.mpr ⟨hd, hr⟩
  have hpos := Finset.card_pos.mpr ⟨d, hmem⟩
  have hbal := hb.balance
  omega

theorem Tracked.place_of_unmanaged (h : Tracked s m place) (hd : d ∉ s.managed) :
    place d = .gone := by
  by_contra hplace
  exact hd (h.managed_of_placed d hplace)

theorem Tracked.hand_unreleased (h : Tracked s m place) (hd : m.hand = some d) :
    d ∈ s.managed ∧ d ∉ s.released := by
  have hplace := (h.hand_iff d).mp hd
  exact ⟨h.managed_of_placed d (by rw [hplace]; exact nofun), h.unreleased d (Or.inl hplace)⟩

end Pending

section Step

variable {c : Consumer P T} {s s' : RunState P T} {m m' : Ledger} {place : ℕ → Place}

theorem Tracked.keep (h : Tracked s m place) (hmanaged : s'.managed = s.managed)
    (hreleased : s'.released = s.released) (hch : s'.workerCh = s.workerCh)
    (hworkers : s'.workers = s.workers) (hhand : m'.hand = m.hand) (hfresh : m'.fresh = m.fresh)
    (hheld : m'.held = s'.held)
    (hmeets : ∀ p, s'.producer = some p → Meets Ledger.next Ledger.Ready p m')
    (hexited : s'.producer = none → m'.hand = none) : Tracked s' m' place := by
  constructor
  · exact hheld
  · exact hmeets
  · exact hexited
  · rw [hmanaged, hfresh]
    exact h.managed_lt
  · rw [hhand]
    exact h.hand_iff
  · rw [hch]
    exact h.channel_iff
  · rw [hch]
    exact h.channel_nodup
  · intro d i
    rw [← h.worker_iff d i, RunState.inProcess, RunState.inProcess, hworkers]
  · intro i md p hw
    rw [hworkers] at hw
    rw [hreleased]
    exact h.worker_meets i md p hw
  · rw [hmanaged]
    exact h.managed_of_placed
  · rw [hreleased]
    exact h.unreleased
  · rw [hmanaged, hreleased]
    exact h.released_of_gone

theorem Tracked.move (h : Tracked s m place) (d : ℕ) (new : Place)
    (hheld : m'.held = s'.held)
    (hmeets : ∀ p, s'.producer = some p → Meets Ledger.next Ledger.Ready p m')
    (hexited : s'.producer = none → m'.hand = none)
    (hlt : ∀ x ∈ s'.managed, x < m'.fresh)
    (hnodup : (s'.workerCh.map Delivery.tag).Nodup)
    (hworker : ∀ i md p, s'.workers i = some (md, p) →
      ∃ b, (b = true → md.tag ∈ s'.released) ∧
        Meets (workerNext md.tag) (fun _ b => b = true) p b)
    (hothers : ∀ x, x ≠ d → (m'.hand = some x ↔ m.hand = some x) ∧
      (x ∈ s'.workerCh.map Delivery.tag ↔ x ∈ s.workerCh.map Delivery.tag) ∧
      (∀ i, s'.inProcess i x ↔ s.inProcess i x) ∧ (x ∈ s'.managed ↔ x ∈ s.managed) ∧
      (x ∈ s'.released ↔ x ∈ s.released))
    (hhand : m'.hand = some d ↔ new = .hand)
    (hchannel : d ∈ s'.workerCh.map Delivery.tag ↔ new = .channel)
    (hin : ∀ i, s'.inProcess i d ↔ new = .worker i) (hmanaged : d ∈ s'.managed)
    (hunreleased : new = .hand ∨ new = .channel → d ∉ s'.released)
    (hgone : new = .gone → d ∈ s'.released) : Tracked s' m' (Function.update place d new) := by
  have hplace : ∀ x, x ≠ d → Function.update place d new x = place x :=
    fun x hx => Function.update_of_ne hx _ _
  have hself : Function.update place d new d = new := Function.update_self _ _ _
  refine ⟨hheld, hmeets, hexited, hlt, ?_, ?_, hnodup, ?_, hworker, ?_, ?_, ?_⟩
  · intro x
    by_cases hx : x = d
    · rw [hx, hself]
      exact hhand
    · rw [hplace x hx, (hothers x hx).1]
      exact h.hand_iff x
  · intro x
    by_cases hx : x = d
    · rw [hx, hself]
      exact hchannel
    · rw [hplace x hx, (hothers x hx).2.1]
      exact h.channel_iff x
  · intro x i
    by_cases hx : x = d
    · rw [hx, hself]
      exact hin i
    · rw [hplace x hx, (hothers x hx).2.2.1 i]
      exact h.worker_iff x i
  · intro x hne
    by_cases hx : x = d
    · rw [hx]
      exact hmanaged
    · rw [hplace x hx] at hne
      exact (hothers x hx).2.2.2.1.mpr (h.managed_of_placed x hne)
  · intro x hnew
    by_cases hx : x = d
    · rw [hx, hself] at hnew
      rw [hx]
      exact hunreleased hnew
    · rw [hplace x hx] at hnew
      rw [(hothers x hx).2.2.2.2]
      exact h.unreleased x hnew
  · intro x hxm hg
    by_cases hx : x = d
    · rw [hx, hself] at hg
      rw [hx]
      exact hgone hg
    · rw [hplace x hx] at hg
      exact (hothers x hx).2.2.2.2.mpr
        (h.released_of_gone x ((hothers x hx).2.2.2.1.mp hxm) hg)

variable {p : Routine P T (Control P)} {md : Delivery P} {d i : ℕ}

theorem Tracked.not_inProcess (h : Tracked s m place)
    (hd : place d = .gone ∨ place d = .hand ∨ place d = .channel) (i : ℕ) : ¬ s.inProcess i d := by
  intro hin
  have hplace := (h.worker_iff d i).mp hin
  rw [hplace] at hd
  rcases hd with hd | hd | hd <;> cases hd

theorem Tracked.hand_ne (h : Tracked s m place) (hd : place d ≠ .hand) : m.hand ≠ some d := by
  intro hhand
  exact hd ((h.hand_iff d).mp hhand)

theorem Tracked.not_mem_channel (h : Tracked s m place) (hd : place d ≠ .channel) :
    d ∉ s.workerCh.map Delivery.tag := by
  intro hmem
  exact hd ((h.channel_iff d).mp hmem)

theorem Tracked.manage (h : Tracked s m place) (hb : Balanced c s) (hd : m.fresh ≤ d)
    (hhand : m.hand = none) (hp : Meets Ledger.next Ledger.Ready p ⟨m.held - 1, some d, d + 1⟩) :
    Tracked { s with held := s.held - 1, managed := insert d s.managed, producer := some p }
      ⟨m.held - 1, some d, d + 1⟩ (Function.update place d .hand) := by
  have hunmanaged : d ∉ s.managed := fun hmem => Nat.lt_irrefl d
    (Nat.lt_of_lt_of_le (h.managed_lt d hmem) hd)
  have hgone := h.place_of_unmanaged hunmanaged
  have hheld := h.held_eq
  apply h.move d .hand
  · dsimp only
    omega
  · intro p' hp'
    rwa [← Option.some.inj hp']
  · intro hnone
    cases hnone
  · intro x hx
    rcases Finset.mem_insert.mp hx with rfl | hx
    · exact Nat.lt_succ_self x
    · have hlt := h.managed_lt x hx
      dsimp only
      omega
  · exact h.channel_nodup
  · exact h.worker_meets
  · intro x hx
    refine ⟨?_, Iff.rfl, fun _ => Iff.rfl, ?_, Iff.rfl⟩
    · simp [hhand, Ne.symm hx]
    · simp [hx]
  · simp
  · simp only [reduceCtorEq, iff_false]
    exact h.not_mem_channel (by rw [hgone]; exact nofun)
  · intro i
    simp only [reduceCtorEq, iff_false]
    exact h.not_inProcess (Or.inl hgone) i
  · exact Finset.mem_insert_self d _
  · intro _ hr
    exact hunmanaged (hb.released_sub hr)
  · intro hnew
    cases hnew

theorem Tracked.handOver (h : Tracked s m place) (hhand : m.hand = some md.tag)
    (hp : Meets Ledger.next Ledger.Ready p { m with hand := none }) :
    Tracked { s with workerCh := s.workerCh ++ [md], producer := some p }
      { m with hand := none } (Function.update place md.tag .channel) := by
  have hplace := (h.hand_iff md.tag).mp hhand
  have hfresh : md.tag ∉ s.workerCh.map Delivery.tag :=
    h.not_mem_channel (by rw [hplace]; exact nofun)
  apply h.move md.tag .channel
  · exact h.held_eq
  · intro p' hp'
    rwa [← Option.some.inj hp']
  · intro hnone
    cases hnone
  · exact h.managed_lt
  · rw [List.map_append, List.map_singleton, List.nodup_append]
    refine ⟨h.channel_nodup, List.nodup_singleton _, ?_⟩
    intro a ha b hb hab
    rw [List.mem_singleton.mp hb] at hab
    exact hfresh (hab ▸ ha)
  · exact h.worker_meets
  · intro x hx
    refine ⟨?_, ?_, fun _ => Iff.rfl, Iff.rfl, Iff.rfl⟩
    · simp [hhand, Ne.symm hx]
    · simp [hx]
  · simp
  · simp
  · intro i
    simp only [reduceCtorEq, iff_false]
    exact h.not_inProcess (Or.inr (Or.inl hplace)) i
  · exact (h.hand_unreleased hhand).1
  · intro _
    exact (h.hand_unreleased hhand).2
  · intro hnew
    cases hnew

theorem Tracked.releaseHand (h : Tracked s m place) {tokens : ℕ} {given : ℕ → ℕ}
    (hhand : m.hand = some d) (hp : Meets Ledger.next Ledger.Ready p { m with hand := none }) :
    Tracked { s with tokens := tokens, released := insert d s.released, given := given,
                     producer := some p }
      { m with hand := none } (Function.update place d .gone) := by
  have hplace := (h.hand_iff d).mp hhand
  apply h.move d .gone
  · exact h.held_eq
  · intro p' hp'
    rwa [← Option.some.inj hp']
  · intro hnone
    cases hnone
  · exact h.managed_lt
  · exact h.channel_nodup
  · intro i md p' hw
    obtain ⟨b, hb, hmeets⟩ := h.worker_meets i md p' hw
    exact ⟨b, fun hbt => Finset.mem_insert_of_mem (hb hbt), hmeets⟩
  · intro x hx
    refine ⟨?_, Iff.rfl, fun _ => Iff.rfl, Iff.rfl, ?_⟩
    · simp [hhand, Ne.symm hx]
    · simp [hx]
  · simp
  · simp only [reduceCtorEq, iff_false]
    exact h.not_mem_channel (by rw [hplace]; exact nofun)
  · intro i
    simp only [reduceCtorEq, iff_false]
    exact h.not_inProcess (Or.inr (Or.inl hplace)) i
  · exact (h.hand_unreleased hhand).1
  · intro hnew
    rcases hnew with hnew | hnew <;> cases hnew
  · intro _
    exact Finset.mem_insert_self d _

theorem inProcess_update_of_ne {j : ℕ} {w : Option (Delivery P × Routine P T Unit)}
    (hw : ∀ md p, w = some (md, p) → md.tag ≠ d) (hi : ¬ s.inProcess i d) :
    RunState.inProcess { s with workers := Function.update s.workers i w } j d ↔
      s.inProcess j d := by
  unfold RunState.inProcess
  by_cases hj : j = i
  · subst hj
    constructor
    · rintro ⟨md, p, hmd, htag⟩
      dsimp only at hmd
      rw [Function.update_self] at hmd
      exact absurd htag (hw md p hmd)
    · intro hin
      exact absurd hin hi
  · simp only [Function.update_of_ne hj]

theorem Tracked.take (h : Tracked s m place) {rest : List (Delivery P)} (c : Consumer P T)
    (hidle : s.workers i = none) (hch : s.workerCh = md :: rest) :
    Tracked { s with workerCh := rest,
                     workers := Function.update s.workers i (some (md, process c md)) }
      m (Function.update place md.tag (.worker i)) := by
  have hnodup := h.channel_nodup
  rw [hch, List.map_cons, List.nodup_cons] at hnodup
  have hplace : place md.tag = .channel := by
    rw [← h.channel_iff md.tag, hch]
    exact List.mem_cons_self
  have hnot : ∀ d, ¬ s.inProcess i d := by
    rintro d ⟨md', p, hw, _⟩
    rw [hidle] at hw
    cases hw
  apply h.move md.tag (.worker i)
  · exact h.held_eq
  · exact h.producer_meets
  · exact h.exited
  · exact h.managed_lt
  · exact hnodup.2
  · intro j md' p hw
    rcases update_eq_some.mp hw with ⟨rfl, heq⟩ | ⟨-, hold⟩
    · cases heq
      exact ⟨false, nofun, meets_process c md⟩
    · exact h.worker_meets j md' p hold
  · intro x hx
    refine ⟨Iff.rfl, ?_, ?_, Iff.rfl, Iff.rfl⟩
    · rw [hch, List.map_cons, List.mem_cons]
      simp [hx]
    · intro j
      apply inProcess_update_of_ne
      · intro md' p hw
        cases hw
        exact Ne.symm hx
      · exact hnot x
  · simp only [reduceCtorEq, iff_false]
    exact h.hand_ne (by rw [hplace]; exact nofun)
  · simp only [reduceCtorEq, iff_false]
    exact hnodup.1
  · intro j
    unfold RunState.inProcess
    by_cases hj : j = i
    · subst hj
      simp
    · simp only [Function.update_of_ne hj]
      constructor
      · intro hin
        exact absurd hin (h.not_inProcess (Or.inr (Or.inr hplace)) j)
      · intro hnew
        injection hnew with hnew
        exact absurd hnew.symm hj
  · exact h.managed_of_placed _ (by rw [hplace]; exact nofun)
  · intro hnew
    rcases hnew with hnew | hnew <;> cases hnew
  · intro hnew
    cases hnew

theorem Tracked.finish (h : Tracked s m place) {u : Unit} (hw : s.workers i = some (md, .ret u)) :
    Tracked { s with workers := Function.update s.workers i none }
      m (Function.update place md.tag .gone) := by
  have hplace : place md.tag = .worker i := (h.worker_iff md.tag i).mp ⟨md, _, hw, rfl⟩
  obtain ⟨b, hb, hmeets⟩ := h.worker_meets i md _ hw
  have hreleased : md.tag ∈ s.released := hb hmeets
  apply h.move md.tag .gone
  · exact h.held_eq
  · exact h.producer_meets
  · exact h.exited
  · exact h.managed_lt
  · exact h.channel_nodup
  · intro j md' p hw'
    exact h.worker_meets j md' p (of_update_ne (Option.some_ne_none _).symm hw').2
  · intro x hx
    refine ⟨Iff.rfl, Iff.rfl, ?_, Iff.rfl, Iff.rfl⟩
    intro j
    apply inProcess_update_of_ne
    · intro md' p hnone
      cases hnone
    · rintro ⟨md', p, hw', htag⟩
      rw [hw] at hw'
      cases hw'
      exact hx htag.symm
  · simp only [reduceCtorEq, iff_false]
    exact h.hand_ne (by rw [hplace]; exact nofun)
  · simp only [reduceCtorEq, iff_false]
    exact h.not_mem_channel (by rw [hplace]; exact nofun)
  · intro j
    simp only [reduceCtorEq, iff_false]
    rintro ⟨md', p, hw', htag⟩
    obtain ⟨hj, hold⟩ := of_update_ne (Option.some_ne_none _).symm hw'
    have hp := (h.worker_iff md.tag j).mp ⟨md', p, hold, htag⟩
    rw [hplace] at hp
    injection hp with hp
    exact hj hp.symm
  · exact h.managed_of_placed _ (by rw [hplace]; exact nofun)
  · intro hnew
    rcases hnew with hnew | hnew <;> cases hnew
  · intro _
    exact hreleased

theorem Tracked.work (h : Tracked s m place) {p p' : Routine P T Unit} {tokens : ℕ} {given : ℕ → ℕ}
    {released : Finset ℕ} {b : Bool} (hw : s.workers i = some (md, p))
    (hreleased : released = s.released ∨ released = insert md.tag s.released)
    (hb : b = true → md.tag ∈ released)
    (hmeets : Meets (workerNext md.tag) (fun _ b => b = true) p' b) :
    Tracked { s with tokens := tokens, released := released, given := given,
                     workers := Function.update s.workers i (some (md, p')) } m place := by
  have hplace : place md.tag = .worker i := (h.worker_iff md.tag i).mp ⟨md, p, hw, rfl⟩
  have hsub : s.released ⊆ released := by
    rcases hreleased with rfl | rfl
    · exact Finset.Subset.refl _
    · exact Finset.subset_insert _ _
  constructor
  · exact h.held_eq
  · exact h.producer_meets
  · exact h.exited
  · exact h.managed_lt
  · exact h.hand_iff
  · exact h.channel_iff
  · exact h.channel_nodup
  · intro d j
    rw [← h.worker_iff d j]
    unfold RunState.inProcess
    by_cases hj : j = i
    · subst hj
      simp [hw]
    · simp only [Function.update_of_ne hj]
  · intro j md' q hw'
    rcases update_eq_some.mp hw' with ⟨rfl, heq⟩ | ⟨-, hold⟩
    · cases heq
      exact ⟨b, hb, hmeets⟩
    · obtain ⟨b', hb', hm'⟩ := h.worker_meets j md' q hold
      exact ⟨b', fun ht => hsub (hb' ht), hm'⟩
  · exact h.managed_of_placed
  · intro d hd hmem
    rcases hreleased with rfl | rfl
    · exact h.unreleased d hd hmem
    · rcases Finset.mem_insert.mp hmem with rfl | hmem
      · rw [hplace] at hd
        rcases hd with hd | hd <;> cases hd
      · exact h.unreleased d hd hmem
  · intro d hd hg
    exact hsub (h.released_of_gone d hd hg)

theorem Balanced.releaseOnce (hb : Balanced c s) (hd : d ∈ s.managed) (hr : d ∉ s.released)
    (htokens : s'.tokens = s.tokens - 1) (hheld : s'.held = s.held)
    (hmanaged : s'.managed = s.managed) (hreleased : s'.released = insert d s.released)
    (hgiven : s'.given = Function.update s.given d (s.given d + 1)) : Balanced c s' := by
  have hbal := hb.balance
  have hbound := hb.bound
  have hmem : d ∈ s.managed \ s.released := Finset.mem_sdiff.mpr ⟨hd, hr⟩
  have hcard : (s.managed \ insert d s.released).card + 1 = (s.managed \ s.released).card := by
    rw [Finset.sdiff_insert, Finset.card_erase_add_one hmem]
  constructor
  · rw [htokens, hheld, hmanaged, hreleased]
    omega
  · omega
  · rw [hreleased, hmanaged]
    exact Finset.insert_subset hd hb.released_sub
  · intro x
    rw [hgiven, hreleased]
    by_cases hx : x = d
    · subst hx
      rw [Function.update_self, hb.given_eq x, if_neg hr, if_pos (Finset.mem_insert_self x _)]
    · rw [Function.update_of_ne hx, hb.given_eq x]
      simp [hx]

theorem Balanced.manage (hb : Balanced c s) (hd : d ∉ s.managed) (hpos : 0 < s.held)
    (htokens : s'.tokens = s.tokens) (hheld : s'.held = s.held - 1)
    (hmanaged : s'.managed = insert d s.managed) (hreleased : s'.released = s.released)
    (hgiven : s'.given = s.given) : Balanced c s' := by
  have hbal := hb.balance
  have hr : d ∉ s.released := fun h => hd (hb.released_sub h)
  have hcard : (insert d s.managed \ s.released).card = (s.managed \ s.released).card + 1 := by
    rw [Finset.insert_sdiff_of_notMem _ hr, Finset.card_insert_of_notMem]
    intro hmem
    exact hd (Finset.mem_sdiff.mp hmem).1
  constructor
  · rw [htokens, hheld, hmanaged, hreleased]
    omega
  · rw [htokens]
    exact hb.bound
  · rw [hreleased, hmanaged]
    exact hb.released_sub.trans (Finset.subset_insert d _)
  · rw [hgiven, hreleased]
    exact hb.given_eq

theorem Balanced.counters (hb : Balanced c s) (hbal : s'.tokens + s.held = s.tokens + s'.held)
    (hbound : s'.tokens ≤ c.maxInFlight) (hmanaged : s'.managed = s.managed)
    (hreleased : s'.released = s.released) (hgiven : s'.given = s.given) : Balanced c s' := by
  have hold := hb.balance
  constructor
  · rw [hmanaged, hreleased]
    omega
  · exact hbound
  · rw [hmanaged, hreleased]
    exact hb.released_sub
  · rw [hgiven, hreleased]
    exact hb.given_eq

end Step

end Msgin
