import Msgin.ProducerCalls

/-!
# The producer's credit ledger

The ledger follows the producer's credits: how many it holds, which delivery it has
managed and not yet handed over or released, and the number from which on deliveries are
unused. A call that would release a credit the producer does not hold is rejected, so a
producer that meets the ledger never over-releases. Every pass of either producer starts
and ends with no credit in the producer's hands.
-/

namespace Msgin

open Interaction Prog

variable {P T : Type}

structure Ledger where
  held : ℕ
  hand : Option ℕ
  fresh : ℕ

namespace Ledger

def next (m : Ledger) (q : Call P T) (r : q.Answer) : Option Ledger :=
  match q, r with
  | .acquire, none => some { m with held := m.held + 1 }
  | .acquire, some _ => some m
  | .tryAcquire, b => some (if b then { m with held := m.held + 1 } else m)
  | .release, _ => if 0 < m.held then some { m with held := m.held - 1 } else none
  | .manage d, _ =>
      if 0 < m.held ∧ m.hand = none ∧ m.fresh ≤ d then some ⟨m.held - 1, some d, d + 1⟩ else none
  | .releaseOnce d, _ => if m.hand = some d then some { m with hand := none } else none
  | .handOff md, sent =>
      if m.hand = some md.tag then some (if sent then { m with hand := none } else m) else none
  | _, _ => some m

theorem next_of_neutral (m : Ledger) {q : Call P T} (hq : q.isCredit = false) (r : q.Answer) :
    m.next q r = some m := by
  cases q <;> first | rfl | cases hq

variable {α β : Type} {m m' : Ledger}

theorem next_release (h : m.next (.release : Call P T) () = some m') :
    0 < m.held ∧ m' = { m with held := m.held - 1 } := by
  obtain ⟨hpos, heq⟩ := Option.ite_none_right_eq_some.mp h
  exact ⟨hpos, (Option.some.inj heq).symm⟩

theorem next_manage {d : ℕ} (h : m.next (.manage d : Call P T) () = some m') :
    (0 < m.held ∧ m.hand = none ∧ m.fresh ≤ d) ∧ m' = ⟨m.held - 1, some d, d + 1⟩ := by
  obtain ⟨hfree, heq⟩ := Option.ite_none_right_eq_some.mp h
  exact ⟨hfree, (Option.some.inj heq).symm⟩

theorem next_releaseOnce {d : ℕ} (h : m.next (.releaseOnce d : Call P T) () = some m') :
    m.hand = some d ∧ m' = { m with hand := none } := by
  obtain ⟨hhand, heq⟩ := Option.ite_none_right_eq_some.mp h
  exact ⟨hhand, (Option.some.inj heq).symm⟩

theorem next_handOff {md : Delivery P} {sent : Bool}
    (h : m.next (.handOff md : Call P T) sent = some m') :
    m.hand = some md.tag ∧ m' = if sent then { m with hand := none } else m := by
  obtain ⟨hhand, heq⟩ := Option.ite_none_right_eq_some.mp h
  exact ⟨hhand, (Option.some.inj heq).symm⟩

variable {post : β → Ledger → Prop} {d : Delivery P} {N : ℕ}

theorem meets_neutral_bind {p : Routine P T α} {f : α → Routine P T β}
    (hp : Only (fun q => q.isCredit = false) p) (hf : ∀ a, Meets next post (f a) m) :
    Meets next post (p >>= f) m :=
  hp.meets_bind (fun _ r hq => next_of_neutral m hq r) hf

theorem meets_perform_bind (q : Call P T) {f : q.Answer → Routine P T β} (m : Ledger) :
    Meets next post (perform q >>= f) m ↔
      ∀ r, ∃ m', m.next q r = some m' ∧ Meets next post (f r) m' := Iff.rfl

variable (c : Consumer P T) (n : ℕ)

theorem meets_releaseN {post : Unit → Ledger → Prop} (hn : n ≤ m.held)
    (hpost : post () { m with held := m.held - n }) :
    Meets next post (releaseN n : Routine P T Unit) m := by
  induction n generalizing m with
  | zero => exact hpost
  | succ n ih =>
      unfold releaseN
      rw [meets_perform_bind .release]
      intro r
      refine ⟨{ m with held := m.held - 1 }, if_pos (by omega), ?_⟩
      apply ih
      · dsimp only
        omega
      · have hsub : m.held - 1 - n = m.held - (n + 1) := by omega
        dsimp only
        rw [hsub]
        exact hpost

theorem meets_topUp {post : ℕ → Ledger → Prop} (room held : ℕ)
    (hpost : ∀ k, post (held + k) { m with held := m.held + k }) :
    Meets next post (topUp room held : Routine P T ℕ) m := by
  induction room generalizing m held with
  | zero => exact hpost 0
  | succ room ih =>
      unfold topUp
      rw [meets_perform_bind .tryAcquire]
      intro b
      cases b with
      | true =>
          refine ⟨_, rfl, ?_⟩
          apply ih
          intro k
          have h := hpost (k + 1)
          have hheld : held + 1 + k = held + (k + 1) := by omega
          have hcount : m.held + 1 + k = m.held + (k + 1) := by omega
          simp only [if_true]
          rw [hheld, hcount]
          exact h
      | false => exact ⟨m, rfl, hpost 0⟩

theorem meets_sleepCtx_bind (d : ℤ) {f : Bool → Routine P T β} (hf : ∀ b, Meets next post (f b) m) :
    Meets next post (sleepCtx d >>= f) m := by
  refine meets_neutral_bind ?_ hf
  unfold sleepCtx
  split
  · exact only_pure true
  · exact only_perform rfl

theorem neutral_safeNack (hd : d.managed = false) (requeue : Bool) (delay : ℤ) :
    Only (fun q => q.isCredit = false)
      (do finish (← safeNack d requeue delay) : Routine P T Unit) := by
  refine only_finish_safeNack isCredit_of_isDispatch isCredit_of_settles (fun hm => ?_) requeue
    delay
  rw [hd] at hm
  cases hm

theorem neutral_nackAll {ds : List (Delivery P)} (hds : ∀ d ∈ ds, d.managed = false) :
    Only (fun q => q.isCredit = false) (nackAll ds : Routine P T Unit) := by
  induction ds with
  | nil => exact only_pure ()
  | cons d ds ih =>
      unfold nackAll
      rw [← Prog.bind_assoc]
      refine (neutral_safeNack (hds d List.mem_cons_self) true 0).bind fun _ => ?_
      exact ih fun d' hd' => hds d' (List.mem_cons_of_mem d hd')

theorem meets_safeNack_hand_bind (md : Delivery P) (hmd : md.managed = true)
    (hhand : m.hand = some md.tag) {p : Routine P T β}
    (hp : Meets next post p { m with hand := none }) :
    Meets next post (do
      finish (← safeNack md true 0)
      p) m := by
  unfold safeNack Delivery.nack
  rw [meets_bind, meets_bind]
  simp only [hmd, if_true]
  rw [meets_perform_bind (.releaseOnce md.tag)]
  intro r
  refine ⟨{ m with hand := none }, if_pos hhand, ?_⟩
  intro o
  refine ⟨_, next_of_neutral _ rfl o, ?_⟩
  rw [meets_ret, ← meets_bind]
  refine meets_neutral_bind ?_ fun err => ?_
  · cases o with
    | returned err => exact only_pure _
    | panicked r => exact (only_logError isCredit_of_isDispatch _ _).bind fun _ => only_pure _
  · exact meets_neutral_bind (only_finish isCredit_of_isDispatch err) fun _ => hp

theorem managed_number {next : ℕ} {ms : List (Message P)} (hd : d ∈ number next ms) :
    d.managed = false := by
  induction ms generalizing next with
  | nil => cases hd
  | cons m ms ih =>
      rcases List.mem_cons.mp hd with rfl | hd
      · rfl
      · exact ih hd

theorem meets_creditedRows_bind {rows : List (Delivery P)} (hrows : ∀ d ∈ rows, d.managed = false)
    (held : ℕ) {f : List (Delivery P) → Routine P T β}
    (hf : Meets next post (f (rows.take held)) m) :
    Meets next post (creditedRows rows held >>= f) m := by
  unfold creditedRows
  split
  · unfold clampExcess
    rw [meets_bind]
    refine meets_neutral_bind (only_logError isCredit_of_isDispatch _ _) fun _ => ?_
    refine meets_neutral_bind (neutral_nackAll fun d hd => ?_) fun _ => hf
    exact hrows d (List.mem_of_mem_drop hd)
  · rename_i hle
    rw [List.take_of_length_le (Nat.le_of_not_lt hle)] at hf
    exact hf

/-- Every credit of a batch leaves the producer's hands, with its delivery or without. -/
theorem meets_handRows {post : Bool → Ledger → Prop} (ms : List (Message P))
    (hheld : m.held = ms.length) (hhand : m.hand = none) (hfresh : m.fresh ≤ n)
    (hpost : ∀ b m', m'.held = 0 → m'.hand = none → m'.fresh ≤ n + ms.length → post b m') :
    Meets next post (handRows (number n ms) : Routine P T Bool) m := by
  induction ms generalizing n m with
  | nil => exact hpost true m hheld hhand hfresh
  | cons msg ms ih =>
      rw [List.length_cons] at hheld hpost
      unfold number handRows manage
      rw [meets_bind, meets_perform_bind (.manage n)]
      intro u
      refine ⟨⟨m.held - 1, some n, n + 1⟩, if_pos ⟨by omega, hhand, hfresh⟩, ?_⟩
      rw [meets_pure, meets_perform_bind (.handOff ⟨n, msg, true⟩)]
      intro b
      cases b with
      | true =>
          refine ⟨⟨m.held - 1, none, n + 1⟩, if_pos rfl, ?_⟩
          apply ih
          · dsimp only
            omega
          · rfl
          · exact Nat.le_refl (n + 1)
          · intro b' m' hheld' hhand' hfresh'
            exact hpost b' m' hheld' hhand' (by omega)
      | false =>
          refine ⟨⟨m.held - 1, some n, n + 1⟩, if_pos rfl, ?_⟩
          rw [if_neg Bool.false_ne_true]
          apply meets_safeNack_hand_bind ⟨n, msg, true⟩ rfl rfl
          rw [meets_bind]
          apply meets_releaseN
          · rw [length_number]
            dsimp only
            omega
          · apply hpost
            · rw [length_number]
              dsimp only
              omega
            · rfl
            · dsimp only
              omega

/-- The producer is between two passes: no credit in its hands, and the numbers it will
give out unused. -/
def Ready (ctl : Control P) (m : Ledger) : Prop :=
  m.held = 0 ∧ m.hand = none ∧
    match ctl with
    | .pollLoop next _ => m.fresh ≤ next
    | .ingest next => m.fresh ≤ next
    | .admitBreaker next d => m.fresh ≤ d.tag ∧ d.tag < next ∧ d.managed = false
    | .stopped => True

theorem meets_deliverRows (held : ℕ) (ms : List (Message P)) (hheld : m.held = held)
    (hle : ms.length ≤ held) (hhand : m.hand = none) (hfresh : m.fresh ≤ n)
    (hN : n + ms.length ≤ N) : Meets next Ready (deliverRows c N held (number n ms)) m := by
  unfold deliverRows
  rw [meets_bind]
  apply meets_releaseN
  · omega
  rw [length_number, meets_bind]
  apply meets_handRows n ms
  · dsimp only
    omega
  · exact hhand
  · exact hfresh
  intro b m' hheld' hhand' hfresh'
  have hready : ∀ e, Ready (.pollLoop N e : Control P) m' :=
    fun _ => ⟨hheld', hhand', by dsimp only; omega⟩
  have hstopped : Ready (.stopped : Control P) m' := ⟨hheld', hhand', trivial⟩
  split
  · split
    · refine meets_sleepCtx_bind c.pollInterval fun awake => ?_
      cases awake with
      | true => exact hready 0
      | false => exact hstopped
    · exact hready 0
  · exact hstopped

theorem meets_pollLoop (errN : ℕ) (h : Ready (.pollLoop n errN : Control P) m) :
    Meets next Ready (pollLoop c n errN) m := by
  obtain ⟨hheld, hhand, hfresh⟩ := h
  unfold pollLoop
  rw [meets_perform_bind .acquire]
  intro a
  cases a with
  | some err => exact ⟨m, rfl, hheld, hhand, trivial⟩
  | none =>
      refine ⟨{ m with held := m.held + 1 }, rfl, ?_⟩
      rw [meets_bind]
      apply meets_topUp
      intro k
      rw [meets_bind]
      unfold safePoll
      intro o
      refine ⟨_, next_of_neutral _ rfl o, ?_⟩
      have hfail : ∀ err, Meets next Ready (pollFailed c n errN (1 + k) err)
          { m with held := m.held + 1 + k } := by
        intro err
        unfold pollFailed
        refine meets_neutral_bind (only_logError isCredit_of_isDispatch _ _) fun _ => ?_
        rw [meets_bind]
        apply meets_releaseN
        · dsimp only
          omega
        refine meets_sleepCtx_bind _ fun awake => ?_
        have hzero : m.held + 1 + k - (1 + k) = 0 := by omega
        cases awake with
        | true => exact ⟨hzero, hhand, hfresh⟩
        | false => exact ⟨hzero, hhand, trivial⟩
      match o with
      | .panicked r => exact hfail _
      | .returned (ms, some err) => exact hfail err
      | .returned (ms, none) =>
          refine meets_creditedRows_bind (fun d hd => managed_number hd) (1 + k) ?_
          rw [number_take]
          refine meets_deliverRows c n (1 + k) (ms.take (1 + k)) ?_ ?_ hhand hfresh ?_
          · dsimp only
            omega
          · rw [List.length_take]
            omega
          · rw [List.length_take]
            omega

def Holding (N : ℕ) (d : Delivery P) (m : Ledger) : Prop :=
  m.hand = none ∧ m.fresh ≤ d.tag ∧ d.tag < N ∧ d.managed = false

theorem meets_forward (h : Holding N d m) (hheld : m.held = 1) :
    Meets next Ready (forward N d : Routine P T (Control P)) m := by
  obtain ⟨hhand, hfresh, hlt, hmanaged⟩ := h
  unfold forward manage
  rw [meets_bind, meets_perform_bind (.manage d.tag)]
  intro u
  refine ⟨⟨m.held - 1, some d.tag, d.tag + 1⟩, if_pos ⟨by omega, hhand, hfresh⟩, ?_⟩
  rw [meets_pure, meets_perform_bind (.handOff { d with managed := true })]
  have hzero : m.held - 1 = 0 := by omega
  intro b
  cases b with
  | true => exact ⟨⟨m.held - 1, none, d.tag + 1⟩, if_pos rfl, hzero, rfl, hlt⟩
  | false =>
      refine ⟨⟨m.held - 1, some d.tag, d.tag + 1⟩, if_pos rfl, ?_⟩
      rw [if_neg Bool.false_ne_true]
      apply meets_safeNack_hand_bind { d with managed := true } rfl rfl
      exact ⟨hzero, rfl, trivial⟩

theorem meets_nack_unmanaged (hd : d.managed = false) (requeue : Bool) {ctl : Control P}
    (h : Ready ctl m) :
    Meets next Ready (do
      finish (← safeNack d requeue 0)
      return ctl : Routine P T (Control P)) m := by
  rw [← Prog.bind_assoc]
  exact meets_neutral_bind (neutral_safeNack hd requeue 0) fun _ => h

theorem meets_admitCredit (h : Holding N d m) (hheld : m.held = 0) :
    Meets next Ready (admitCredit c N d) m := by
  have hone : ({ m with held := m.held + 1 } : Ledger).held = 1 := by
    dsimp only
    omega
  have hdropped : Ready (.ingest N : Control P) m :=
    ⟨hheld, h.1, Nat.le_of_lt (Nat.lt_of_le_of_lt h.2.1 h.2.2.1)⟩
  refine meets_admitCredit_of c (fun m _ r hq => next_of_neutral m (isCredit_of_isDispatch _ hq) r)
    ⟨_, rfl, meets_forward h hone⟩ ⟨m, rfl, meets_nack_unmanaged h.2.2.2 false hdropped⟩
    ⟨_, rfl, meets_forward h hone⟩ ?_
  intro err
  exact ⟨m, rfl, meets_nack_unmanaged h.2.2.2 true ⟨hheld, h.1, trivial⟩⟩

theorem next_of_isGovernor (m : Ledger) (q : Call P T) (r : q.Answer) (hq : q.isGovernor = true) :
    m.next q r = some m :=
  next_of_neutral m (isCredit_of_isGovernor hq) r

theorem meets_admitBreaker (h : Holding N d m) (hheld : m.held = 0) :
    Meets next Ready (admitBreaker c N d) m :=
  meets_admitBreaker_of c (next_of_isGovernor m) (fun _ => rfl) (meets_admitCredit c h hheld)
    ⟨m, rfl, hheld, h.1, h.2⟩
    ⟨m, rfl, meets_nack_unmanaged h.2.2.2 true ⟨hheld, h.1, trivial⟩⟩

theorem meets_ingest (h : Ready (.ingest N : Control P) m) : Meets next Ready (ingest c N) m := by
  obtain ⟨hheld, hhand, hfresh⟩ := h
  unfold ingest
  rw [meets_perform_bind .receive]
  intro received
  refine ⟨m, rfl, ?_⟩
  cases received with
  | ctxDone => exact ⟨hheld, hhand, trivial⟩
  | closed => exact ⟨hheld, hhand, trivial⟩
  | delivery msg =>
      have hready : Ready (.admitBreaker (N + 1) ⟨N, msg, false⟩ : Control P) m :=
        ⟨hheld, hhand, hfresh, Nat.lt_succ_self N, rfl⟩
      exact meets_admitDelivery_of c (next_of_isGovernor m) (fun _ => rfl) hready
        (meets_nack_unmanaged rfl true ⟨hheld, hhand, trivial⟩)

/-- Every pass of the producer stage keeps the ledger and ends ready for the next one. -/
theorem meets_producer {ctl : Control P} (h : Ready ctl m) :
    Meets next Ready (producer c ctl) m := by
  cases ctl with
  | pollLoop n errN => exact meets_pollLoop c n errN h
  | ingest n => exact meets_ingest c h
  | admitBreaker n d => exact meets_admitBreaker c h.2 h.1
  | stopped => exact h

end Ledger

end Msgin
