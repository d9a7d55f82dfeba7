import Msgin.AggregatorSettlement
import Msgin.DrainGroup

/-!
# The drain loop ends and leaves nothing to release

The invariant of the goroutine in `release` speaks of the group at its key: free at the head of
the loop, leased to the loop's claim inside a turn, and then, as long as nobody adds a member, with
exactly the claimed members. A rank that falls with every step of the goroutine and rises only
with an `Add` at the key bounds the loop.
-/

namespace Msgin.Routing

open Interaction Prog Memory

variable {P : Type} {strategy : Strategy P} {k : String} {og og' : Option (GroupState P)}
  {st : GroupStore P} {cl : ClaimGroup P} {late : ℕ}

def settles : AggregatorEvent P → Bool
  | ⟨.settleGroup _, none⟩ => true
  | _ => false

def panics : AggregatorEvent P → Bool
  | ⟨.aggregate _, .panicked _⟩ => true
  | ⟨.send _, .panicked _⟩ => true
  | _ => false

def fails : AggregatorEvent P → Bool
  | ⟨.aggregate _, .returned (.ok _)⟩ => false
  | ⟨.aggregate _, _⟩ => true
  | ⟨.send _, .returned none⟩ => false
  | ⟨.send _, _⟩ => true
  | _ => false

namespace DrainPhase

def rank (og : Option (GroupState P)) : DrainPhase P → ℕ
  | ended _ => 0
  | head => 2 + 6 * present og
  | turn => 1 + 6 * present og
  | deciding _ => 6 + 6 * residual false og
  | declining _ => 1
  | aggregating first _ => 5 + 6 * residual first og
  | sending first _ _ => 4 + 6 * residual first og
  | settling first _ => 3 + 6 * residual first og
  | failing _ _ _ => 1

theorem rank_le (ph : DrainPhase P) (og og' : Option (GroupState P)) :
    ph.rank og' ≤ ph.rank og + 6 := by
  have hpresent := present_le og'
  cases ph with
  | ended o => exact Nat.zero_le _
  | head => simp only [rank]; omega
  | turn => simp only [rank]; omega
  | deciding next =>
      have hres := residual_le false og'
      simp only [rank]
      omega
  | declining next => exact Nat.le_add_right _ _
  | aggregating first cl =>
      have hres := residual_le first og'
      simp only [rank]
      omega
  | sending first cl out =>
      have hres := residual_le first og'
      simp only [rank]
      omega
  | settling first cl =>
      have hres := residual_le first og'
      simp only [rank]
      omega
  | failing first cl o => exact Nat.le_add_right _ _

/-- What holds at a point of the program after the calls `es`, with `late` calls of `Add` at the
key since the last claim. -/
def Holds (strategy : Strategy P) (k : String) (og : Option (GroupState P)) (late : ℕ)
    (es : List (AggregatorEvent P)) : DrainPhase P → Prop
  | ended o => (o = .returned none ∨ es.any panics = true ∨ es.any settles = false) ∧
      (es.any fails = false → late = 0 → Drained strategy k og)
  | head => Free og
  | turn => Free og
  | deciding next => next.key = k ∧ ClaimedGroup false next late og
  | declining next => next.key = k ∧ ClaimedGroup false next late og ∧
      strategy next.toSnapshot ≠ (true, none)
  | aggregating first cl => cl.key = k ∧ ClaimedGroup first cl late og ∧
      (first = true → es.any settles = false)
  | sending first cl _ => cl.key = k ∧ ClaimedGroup first cl late og ∧
      (first = true → es.any settles = false)
  | settling first cl => cl.key = k ∧ ClaimedGroup first cl late og
  | failing first _ o => o ≠ .returned none ∧ es.any fails = true ∧
      (∀ r, o = .panicked r → es.any panics = true) ∧ (first = true → es.any settles = false)

theorem Holds.grows {es : List (AggregatorEvent P)} {ph : DrainPhase P}
    (h : ph.Holds strategy k og late es) (hg : Grows og og') :
    ph.Holds strategy k og' (late + 1) es := by
  cases ph with
  | ended o => exact ⟨h.1, fun _ hlate => by cases hlate⟩
  | head => exact Free.grows h hg
  | turn => exact Free.grows h hg
  | deciding next => exact ⟨h.1, h.2.grows hg⟩
  | declining next => exact ⟨h.1, h.2.1.grows hg, h.2.2⟩
  | aggregating first cl => exact ⟨h.1, h.2.1.grows hg, h.2.2⟩
  | sending first cl out => exact ⟨h.1, h.2.1.grows hg, h.2.2⟩
  | settling first cl => exact ⟨h.1, h.2.grows hg⟩
  | failing first cl o => exact h

end DrainPhase

/-- The goroutine is at a point of the program where the invariant holds, with rank `n`. -/
def DrainInv (strategy : Strategy P) (k : String) (s : DrainState P) (n : ℕ) : Prop :=
  ∃ ph : DrainPhase P, ph.Runs k s.code ∧
    ph.Holds strategy k (s.store.groups.lookup k) s.late s.events ∧
    ph.rank (s.store.groups.lookup k) = n

theorem drainInv_start (h : SoleLease cl.epoch (st.groups.lookup cl.key)) :
    DrainInv strategy cl.key (.start st cl) 11 :=
  ⟨.aggregating true cl, DrainPhase.runs_release cl, ⟨rfl, h, fun _ => rfl⟩, rfl⟩

section Points

open DrainPhase

variable {first : Bool} {es : List (AggregatorEvent P)}

theorem holds_claimed (h : (turn : DrainPhase P).Holds strategy k (st.groups.lookup k) late es) :
    (DrainPhase.claimed (.ok (st.claimGroup k).1)).Holds strategy k
        ((st.claimGroup k).2.groups.lookup k) 0 (⟨.claimGroup k, .ok (st.claimGroup k).1⟩ :: es) ∧
      (DrainPhase.claimed (.ok (st.claimGroup k).1)).rank ((st.claimGroup k).2.groups.lookup k) <
        (turn : DrainPhase P).rank (st.groups.lookup k) := by
  rcases claimGroup_of_free h with ⟨hnone, hclaim⟩ | ⟨g, next, hg, hnext, hkey, hlease, hleased⟩
  · rw [hclaim, hnone]
    exact ⟨⟨.inl rfl, fun _ _ => by rintro g ⟨⟩⟩, Nat.succ_pos _⟩
  · rw [hnext, hlease, hg]
    refine ⟨⟨hkey, g.lease, rfl, hleased⟩, ?_⟩
    have hpresent : present (some g) = 1 := rfl
    simp only [DrainPhase.claimed, rank, residual_lease, hpresent]
    omega

variable {next : ClaimGroup P}

theorem holds_decided (h : (deciding next).Holds strategy k og late es) :
    (decided next (.returned (strategy next.toSnapshot))).Holds strategy k og late
        (⟨.release next.toSnapshot, .returned (strategy next.toSnapshot)⟩ :: es) ∧
      (decided next (.returned (strategy next.toSnapshot))).rank og < (deciding next).rank og := by
  obtain ⟨hkey, hclaimed⟩ := h
  have hdeclining : (declining next).rank og < (deciding next).rank og := by
    simp only [rank]
    omega
  generalize hd : strategy next.toSnapshot = d
  rcases d with ⟨_ | _, _ | rerr⟩
  · exact ⟨⟨hkey, hclaimed, by rw [hd]; rintro ⟨⟩⟩, hdeclining⟩
  · exact ⟨⟨hkey, hclaimed, by rw [hd]; rintro ⟨⟩⟩, hdeclining⟩
  · refine ⟨⟨hkey, hclaimed, by rintro ⟨⟩⟩, ?_⟩
    simp only [decided, rank]
    omega
  · exact ⟨⟨hkey, hclaimed, by rw [hd]; rintro ⟨⟩⟩, hdeclining⟩

theorem holds_declined (h : (declining next).Holds strategy k (st.groups.lookup k) late es) :
    (ended (.returned none)).Holds strategy k ((st.abandonGroup next).groups.lookup k) late
      (⟨.abandonGroup next, none⟩ :: es) := by
  obtain ⟨rfl, hclaimed, hdeclined⟩ := h
  refine ⟨.inl rfl, fun _ hlate => ?_⟩
  subst hlate
  exact drained_abandonGroup hclaimed hdeclined

theorem holds_aggregated (h : (aggregating first cl).Holds strategy k og late es)
    (a : Outcome (Except Err (Message P))) :
    (aggregated first cl a).Holds strategy k og late (⟨.aggregate cl.msgs, a⟩ :: es) ∧
      (aggregated first cl a).rank og < (aggregating first cl).rank og := by
  obtain ⟨hkey, hclaimed, hfirst⟩ := h
  rcases a with (aggErr | out) | r
  · refine ⟨⟨by rintro ⟨⟩, rfl, by rintro r ⟨⟩, hfirst⟩, ?_⟩
    simp only [aggregated, rank]
    omega
  · refine ⟨⟨hkey, hclaimed, hfirst⟩, ?_⟩
    simp only [aggregated, rank]
    omega
  · refine ⟨⟨by rintro ⟨⟩, rfl, fun _ _ => rfl, hfirst⟩, ?_⟩
    simp only [aggregated, rank]
    omega

theorem holds_sent {out : Message P} (h : (sending first cl out).Holds strategy k og late es)
    (a : Outcome (Option Err)) :
    (DrainPhase.sent first cl a).Holds strategy k og late (⟨.send out, a⟩ :: es) ∧
      (DrainPhase.sent first cl a).rank og < (sending first cl out).rank og := by
  obtain ⟨hkey, hclaimed, hfirst⟩ := h
  rcases a with (_ | sendErr) | r
  · refine ⟨⟨hkey, hclaimed⟩, ?_⟩
    simp only [DrainPhase.sent, rank]
    omega
  · refine ⟨⟨by rintro ⟨⟩, rfl, by rintro r ⟨⟩, hfirst⟩, ?_⟩
    simp only [DrainPhase.sent, rank]
    omega
  · refine ⟨⟨by rintro ⟨⟩, rfl, fun _ _ => rfl, hfirst⟩, ?_⟩
    simp only [DrainPhase.sent, rank]
    omega

theorem holds_settled (h : (settling first cl).Holds strategy k (st.groups.lookup k) late es)
    (now : ℤ) :
    (head : DrainPhase P).Holds strategy k ((st.settleGroup cl now).groups.lookup k) late
        (⟨.settleGroup cl, none⟩ :: es) ∧
      (head : DrainPhase P).rank ((st.settleGroup cl now).groups.lookup k) <
        (settling first cl).rank (st.groups.lookup k) := by
  obtain ⟨rfl, hclaimed⟩ := h
  refine ⟨free_settleGroup hclaimed.soleLease now, ?_⟩
  have hpresent := present_settleGroup hclaimed now
  simp only [rank]
  omega

theorem holds_failed {o : Outcome (Option Err)}
    (h : (failing first cl o).Holds strategy k og late es) :
    (resume first o : DrainPhase P).Holds strategy k og' late (⟨.abandonGroup cl, none⟩ :: es) ∧
      (resume first o : DrainPhase P).rank og' < (failing first cl o).rank og := by
  obtain ⟨hne, hfails, hpanics, hfirst⟩ := h
  have hvacuous : (⟨.abandonGroup cl, none⟩ :: es).any fails = false → late = 0 →
      Drained strategy k og' := by
    intro hnone
    rw [List.any_cons, hfails] at hnone
    cases hnone
  rcases o with (_ | err) | r
  · exact absurd rfl hne
  · cases first with
    | true => exact ⟨⟨.inr (.inr (hfirst rfl)), hvacuous⟩, Nat.one_pos⟩
    | false => exact ⟨⟨.inl rfl, hvacuous⟩, Nat.one_pos⟩
  · exact ⟨⟨.inr (.inl (hpanics r rfl)), hvacuous⟩, Nat.one_pos⟩

end Points

variable {s : DrainState P} {n : ℕ}

theorem DrainInv.proceed {t : DrainState P} (h : DrainInv strategy k s n)
    {choice : AggregatorChoice P} (hstep : s.step strategy k (.proceed choice) = some t) :
    ∃ m, DrainInv strategy k t m ∧ m < n := by
  obtain ⟨ph, hruns, hholds, rfl⟩ := h
  obtain ⟨st, code, es, late⟩ := s
  cases hruns with
  | ended o => cases hstep
  | head =>
      cases hstep
      refine ⟨_, ⟨.turn, DrainPhase.runs_drain k, hholds, rfl⟩, ?_⟩
      simp only [DrainPhase.rank]
      omega
  | turn hf =>
      cases hstep
      obtain ⟨hnext, hlt⟩ := holds_claimed hholds
      exact ⟨_, ⟨_, hf _, hnext, rfl⟩, hlt⟩
  | deciding hf =>
      cases hstep
      obtain ⟨hnext, hlt⟩ := holds_decided hholds
      exact ⟨_, ⟨_, hf _, hnext, rfl⟩, hlt⟩
  | declining hf =>
      cases hstep
      exact ⟨_, ⟨_, hf _, holds_declined hholds, rfl⟩, Nat.one_pos⟩
  | aggregating hf =>
      cases hstep
      obtain ⟨hnext, hlt⟩ := holds_aggregated hholds _
      exact ⟨_, ⟨_, hf _, hnext, rfl⟩, hlt⟩
  | sending hf =>
      cases hstep
      obtain ⟨hnext, hlt⟩ := holds_sent hholds _
      exact ⟨_, ⟨_, hf _, hnext, rfl⟩, hlt⟩
  | settling hf =>
      cases hstep
      obtain ⟨hnext, hlt⟩ := holds_settled hholds choice.now
      exact ⟨_, ⟨_, hf _, hnext, rfl⟩, hlt⟩
  | failing hf =>
      cases hstep
      obtain ⟨hnext, hlt⟩ := holds_failed hholds
      exact ⟨_, ⟨_, hf _, hnext, rfl⟩, hlt⟩

theorem DrainInv.frame (h : DrainInv strategy k s n) {st' : GroupStore P}
    (hst : st'.groups.lookup k = s.store.groups.lookup k) :
    DrainInv strategy k { s with store := st' } n := by
  obtain ⟨ph, hruns, hholds, hrank⟩ := h
  refine ⟨ph, hruns, ?_, ?_⟩
  · change ph.Holds strategy k (st'.groups.lookup k) s.late s.events
    rwa [hst]
  · change ph.rank (st'.groups.lookup k) = n
    rwa [hst]

theorem DrainInv.step {t : DrainState P} {e : DrainLabel P} (h : DrainInv strategy k s n)
    (hstep : s.step strategy k e = some t) :
    ∃ m, DrainInv strategy k t m ∧ m + e.isProceed.toNat ≤ n + 6 * (e.addsTo k).toNat := by
  cases e with
  | proceed choice =>
      obtain ⟨m, hm, hlt⟩ := h.proceed hstep
      exact ⟨m, hm, hlt⟩
  | add key msg now =>
      cases hstep
      by_cases hkey : key = k
      · subst hkey
        obtain ⟨ph, hruns, hholds, rfl⟩ := h
        refine ⟨_, ⟨ph, hruns, ?_, rfl⟩, ?_⟩
        · rw [if_pos rfl]
          exact hholds.grows (grows_add s.store key msg now)
        · have hle := ph.rank_le (s.store.groups.lookup key)
            ((s.store.add key msg now).2.groups.lookup key)
          simpa [DrainLabel.isProceed, DrainLabel.addsTo] using hle
      · rw [if_neg hkey]
        exact ⟨n, h.frame (lookup_add_of_ne s.store (Ne.symm hkey) msg now), Nat.le_add_right _ _⟩
  | claimGroup key =>
      simp only [DrainState.step] at hstep
      split_ifs at hstep with hkey
      cases hstep
      exact ⟨n, h.frame (lookup_claimGroup_of_ne s.store (Ne.symm hkey)), Nat.le_refl _⟩
  | settleGroup claim now =>
      simp only [DrainState.step] at hstep
      split_ifs at hstep with hlive
      cases hstep
      exact ⟨n, h.frame (lookup_settleGroup_of_missed s.store now hlive), Nat.le_refl _⟩
  | abandonGroup claim =>
      simp only [DrainState.step] at hstep
      split_ifs at hstep with hlive
      cases hstep
      exact ⟨n, h.frame (lookup_abandonGroup_of_missed s.store hlive), Nat.le_refl _⟩

theorem DrainInv.enabled (h : DrainInv strategy k s n) :
    (∃ o, s.code = .ret (.handled o)) ∨
      ∀ choice, ∃ t, s.step strategy k (.proceed choice) = some t := by
  obtain ⟨ph, hruns, -, -⟩ := h
  obtain ⟨st, code, es, late⟩ := s
  cases hruns with
  | ended o => exact .inl ⟨o, rfl⟩
  | _ => exact .inr fun choice => ⟨_, rfl⟩

/-- What holds of `release` for the claim `cl` after the steps `ls`. -/
structure DrainLaw (strategy : Strategy P) (cl : ClaimGroup P) (ls : List (DrainLabel P))
    (s : DrainState P) : Prop where
  bounded : ls.countP DrainLabel.isProceed ≤ 11 + 6 * ls.countP (DrainLabel.addsTo cl.key)
  enabled : (∃ o, s.code = .ret (.handled o)) ∨
    ∀ choice, ∃ t, s.step strategy cl.key (.proceed choice) = some t
  returns : ∀ o, s.code = .ret (.handled o) → ⟨.settleGroup cl, none⟩ ∈ s.events →
    s.events.any panics = false → o = .returned none
  drained : (∃ o, s.code = .ret (.handled o)) → s.events.any fails = false → s.late = 0 →
    Drained strategy cl.key (s.store.groups.lookup cl.key)

/-- `release` takes a bounded number of steps, returns nil once its claim is settled, and leaves no
group behind that it could have released. -/
theorem release_drains (strategy : Strategy P) (st : GroupStore P) (cl : ClaimGroup P)
    (hsole : SoleLease cl.epoch (st.groups.lookup cl.key)) {ls : List (DrainLabel P)}
    {s : DrainState P}
    (hrun : TransitionRuns.run (DrainState.step strategy cl.key) (.start st cl) ls = some s) :
    DrainLaw strategy cl ls s := by
  obtain ⟨n, hinv, hle⟩ := TransitionRuns.run_ranked (DrainState.step strategy cl.key)
    (fun _ _ _ _ h hstep => h.step hstep) (drainInv_start hsole) hrun
  have hended : ∀ o, s.code = .ret (.handled o) →
      (DrainPhase.ended o).Holds strategy cl.key (s.store.groups.lookup cl.key) s.late s.events := by
    intro o ho
    obtain ⟨ph, hruns, hholds, -⟩ := hinv
    rw [ho] at hruns
    cases hruns
    exact hholds
  have hbounded : n + ls.countP DrainLabel.isProceed ≤
      11 + 6 * ls.countP (DrainLabel.addsTo cl.key) := hle
  refine ⟨by omega, hinv.enabled, ?_, ?_⟩
  · intro o ho hsettled hpanics
    rcases (hended o ho).1 with hnil | hpanic | hnone
    · exact hnil
    · rw [hpanics] at hpanic
      cases hpanic
    · have hany : s.events.any settles = true := List.any_eq_true.mpr ⟨_, hsettled, rfl⟩
      rw [hnone] at hany
      cases hany
  · rintro ⟨o, ho⟩ hfails hlate
    exact (hended o ho).2 hfails hlate

/-- A store with one claimed group of one member, to which another member is then added. -/
def claimedStore : GroupStore Unit :=
  ((GroupStore.add "orders" blankMessage 0 ⟨∅, 2, 2, 0⟩).2.claimGroup "orders").2

def claimedOrders : ClaimGroup Unit := ⟨⟨"orders", [⟨0, blankMessage⟩], 0⟩, 1⟩

theorem release_drains_orders :
    ∃ s, TransitionRuns.run (DrainState.step (fun _ => (true, none)) "orders")
        (.start claimedStore claimedOrders)
        (.add "orders" blankMessage 1 :: List.replicate 11 (.proceed (smooth true 2))) = some s ∧
      DrainLaw (fun _ => (true, none)) claimedOrders
        (.add "orders" blankMessage 1 :: List.replicate 11 (.proceed (smooth true 2))) s := by
  obtain ⟨s, hs⟩ : ∃ s, TransitionRuns.run (DrainState.step (fun _ => (true, none)) "orders")
      (.start claimedStore claimedOrders)
      (.add "orders" blankMessage 1 :: List.replicate 11 (.proceed (smooth true 2))) = some s :=
    ⟨_, rfl⟩
  refine ⟨s, hs, release_drains _ claimedStore claimedOrders ?_ hs⟩
  rintro g ⟨⟩ -
  rfl

end Msgin.Routing
