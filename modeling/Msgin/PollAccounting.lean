import Msgin.PollEffects

/-!
# Accounting of a polled batch

Every delivery of a fetched batch should leave the pass that fetched it in one of two
ways: sent to the worker channel once, or Nacked once by the loop. The pass keeps this
account except for one case. When a hand-off is resolved to `ctx.Done`, the row in hand
is Nacked and the credits of the rows after it are returned, but those rows are neither
sent nor Nacked, so the account is kept exactly when only the last credited row is cut.
-/

namespace Msgin

open Interaction Prog

variable {P T : Type}

/-- How often a delivery was sent to the worker channel or Nacked. -/
def accounted (d : ℕ) (es : List (Event P T)) : ℕ := sent d es + nacks d es

theorem accounted_append (d : ℕ) (es fs : List (Event P T)) :
    accounted d (es ++ fs) = accounted d es + accounted d fs := by
  unfold accounted
  rw [sent_append, nacks_append]
  omega

variable {es rs : List (Event P T)} {ms : List (Message P)} {n next held : ℕ} {r : Bool}

theorem Idle.accounted_eq_zero (h : Idle es) (d : ℕ) : accounted d es = 0 := by
  unfold accounted
  rw [(h.counts d).1, (h.counts d).2]

theorem accounted_cons_of_idle {e : Event P T} (he : isIdle e = true) (d : ℕ)
    (es : List (Event P T)) : accounted d (e :: es) = accounted d es := by
  rw [← List.singleton_append, accounted_append,
    (Idle.cons he Idle.nil).accounted_eq_zero d, Nat.zero_add]

theorem accounted_handOff (d : ℕ) (md : Delivery P) (b : Bool) (es : List (Event P T)) :
    accounted d (⟨.handOff md, b⟩ :: es) =
      (if md.tag = d ∧ b = true then 1 else 0) + accounted d es := by
  unfold accounted sent nacks
  rw [List.countP_cons, List.countP_cons]
  by_cases h : md.tag = d ∧ b = true
  · simp [isSent, isNack, h]
    omega
  · simp [isSent, isNack, h]

theorem accounted_nackEvents (x : ℕ) (d : Delivery P) (requeue : Bool) (delay : ℤ)
    (o : Outcome (Option Err)) :
    accounted x (nackEvents d requeue delay o : List (Event P T)) =
      if d.tag = x then 1 else 0 := by
  unfold nackEvents releaseEvents accounted sent nacks
  by_cases hm : d.managed = true
  · by_cases h : d.tag = x
    · simp [hm, isSent, isNack, h]
    · simp [hm, isSent, isNack, h]
  · by_cases h : d.tag = x
    · simp [hm, isSent, isNack, h]
    · simp [hm, isSent, isNack, h]

theorem NackedAll.accounted_number (h : NackedAll (number n ms) es) (x : ℕ) :
    accounted x es = if n ≤ x ∧ x < n + ms.length then 1 else 0 := by
  induction ms generalizing n es with
  | nil =>
      cases h with
      | nil =>
          rw [if_neg (by simp)]
          rfl
  | cons m ms ih =>
      cases h with
      | cons _ _ o es rest =>
          rw [accounted_append, accounted_nackEvents, ih rest, List.length_cons]
          dsimp only
          split_ifs <;> omega

theorem NackedAll.handOff_not_mem {ds : List (Delivery P)} (h : NackedAll ds es) (md : Delivery P)
    (b : Bool) : ⟨.handOff md, b⟩ ∉ es := by
  induction h with
  | nil => exact List.not_mem_nil
  | cons d ds o es rest ih =>
      intro hmem
      rcases List.mem_append.mp hmem with hmem | hmem
      · unfold nackEvents releaseEvents at hmem
        split at hmem <;> simp at hmem
      · exact ih hmem

theorem Handed.accounted_outside (h : Handed (number n ms) r es) {x : ℕ}
    (hx : x < n ∨ n + ms.length ≤ x) : accounted x es = 0 := by
  induction ms generalizing n es with
  | nil =>
      cases h with
      | nil => rfl
  | cons m ms ih =>
      rw [List.length_cons] at hx
      have hne : ¬ n = x := by omega
      cases h with
      | sent _ _ _ es rest =>
          rw [accounted_cons_of_idle rfl, accounted_handOff, if_neg (fun h => hne h.1),
            ih rest (by omega)]
      | cut _ _ o rs idle =>
          rw [accounted_cons_of_idle rfl, accounted_handOff, if_neg (fun h => hne h.1),
            accounted_append, accounted_nackEvents, if_neg hne, idle.accounted_eq_zero]

theorem Handed.mem_handOff_cut {m : Message P} {o : Outcome (Option Err)} (idle : Idle rs)
    {md : Delivery P}
    (h : (⟨.handOff md, false⟩ : Event P T) ∈
      ⟨.manage n, ()⟩ :: ⟨.handOff ⟨n, m, true⟩, false⟩ ::
        (nackEvents ⟨n, m, true⟩ true 0 o ++ rs)) : md.tag = n := by
  simp only [List.mem_cons, List.mem_append] at h
  rcases h with h | h | h | h
  · cases h
  · cases h
    rfl
  · unfold nackEvents releaseEvents at h
    simp at h
  · exact absurd h (idle.handOff_not_mem md false)

theorem Handed.accounted_iff (h : Handed (number n ms) r es) :
    (∀ i < ms.length, accounted (n + i) es = 1) ↔
      ∀ md, ⟨.handOff md, false⟩ ∈ es → md.tag + 1 = n + ms.length := by
  induction ms generalizing n es with
  | nil =>
      cases h with
      | nil => simp
  | cons m ms ih =>
      cases h with
      | sent _ _ _ es rest =>
          have hmem : ∀ md, (⟨.handOff md, false⟩ : Event P T) ∈
              ⟨.manage n, ()⟩ :: ⟨.handOff ⟨n, m, true⟩, true⟩ :: es ↔ ⟨.handOff md, false⟩ ∈ es := by
            intro md
            simp
          have hcount : ∀ x, accounted x (⟨.manage n, ()⟩ ::
              ⟨.handOff ⟨n, m, true⟩, true⟩ :: es) = (if n = x then 1 else 0) + accounted x es := by
            intro x
            rw [accounted_cons_of_idle rfl, accounted_handOff]
            simp only [and_true]
          have htail : ∀ i, accounted (n + (i + 1)) (⟨.manage n, ()⟩ ::
              ⟨.handOff ⟨n, m, true⟩, true⟩ :: es) = accounted (n + 1 + i) es := by
            intro i
            rw [hcount, if_neg (by omega), Nat.zero_add]
            congr 1
            omega
          have hhead : accounted n (⟨.manage n, ()⟩ ::
              ⟨.handOff ⟨n, m, true⟩, true⟩ :: es) = 1 := by
            rw [hcount, if_pos rfl, rest.accounted_outside (Or.inl (Nat.lt_succ_self n))]
          have hih := ih rest
          constructor
          · intro hall md hmd
            have hrest := hih.mp fun i hi => by
              have hi' := hall (i + 1) (by rw [List.length_cons]; omega)
              rwa [htail] at hi'
            have htag := hrest md ((hmem md).mp hmd)
            rw [List.length_cons]
            omega
          · intro hcut i hi
            cases i with
            | zero => exact hhead
            | succ i =>
                rw [htail]
                refine hih.mpr (fun md hmd => ?_) i (by rw [List.length_cons] at hi; omega)
                have htag := hcut md ((hmem md).mpr hmd)
                rw [List.length_cons] at htag
                omega
      | cut _ _ o rs idle =>
          have hcount : ∀ x, accounted x (⟨.manage n, ()⟩ ::
              ⟨.handOff ⟨n, m, true⟩, false⟩ :: (nackEvents ⟨n, m, true⟩ true 0 o ++ rs)) =
                if n = x then 1 else 0 := by
            intro x
            rw [accounted_cons_of_idle rfl, accounted_handOff, if_neg (by simp), Nat.zero_add,
              accounted_append, accounted_nackEvents, idle.accounted_eq_zero]
            rfl
          constructor
          · intro hall md hmd
            have htag : md.tag = n := Handed.mem_handOff_cut idle hmd
            by_contra hlen
            rw [htag, List.length_cons] at hlen
            have hnext := hall 1 (by rw [List.length_cons]; omega)
            rw [hcount, if_neg (by omega)] at hnext
            cases hnext
          · intro hcut i hi
            have htag := hcut ⟨n, m, true⟩ (List.mem_cons_of_mem _ List.mem_cons_self)
            dsimp only at htag
            rw [hcount, if_pos (by omega)]

/-- Each delivery of the batch fetched from `next` on is sent once or Nacked once. -/
def BatchAccounted (next : ℕ) (ms : List (Message P)) (es : List (Event P T)) : Prop :=
  ∀ i < ms.length, accounted (next + i) es = 1

/-- No hand-off select is resolved to `ctx.Done` at a row that has rows after it: a cut
row is the last of the rows a credit is held for. -/
def CutOnlyAtEnd (next held : ℕ) (ms : List (Message P)) (es : List (Event P T)) : Prop :=
  ∀ md, ⟨.handOff md, false⟩ ∈ es → md.tag + 1 = next + min held ms.length

theorem accounted_fetched {qs xs hs ss : List (Event P T)} (hq : Idle qs)
    (hx : NackedAll ((number next ms).drop held) xs) (hr : Idle rs)
    (hh : Handed ((number next ms).take held) r hs) (hs' : Idle ss) {i : ℕ} (hi : i < ms.length) :
    accounted (next + i)
        (qs ++ ⟨.poll held, .returned (ms, none)⟩ :: (xs ++ (rs ++ (hs ++ ss)))) =
      if i < held then accounted (next + i) hs else 1 := by
  have hpoll : accounted (next + i) [(⟨.poll held, .returned (ms, none)⟩ : Event P T)] = 0 := rfl
  have hexcess : accounted (next + i) xs = if i < held then 0 else 1 := by
    rw [number_drop] at hx
    rw [hx.accounted_number, List.length_drop]
    split_ifs <;> omega
  have hsplit : accounted (next + i)
      (qs ++ ⟨.poll held, .returned (ms, none)⟩ :: (xs ++ (rs ++ (hs ++ ss)))) =
        accounted (next + i) xs + accounted (next + i) hs := by
    rw [accounted_append, ← List.singleton_append, accounted_append, accounted_append,
      accounted_append, accounted_append, hq.accounted_eq_zero, hr.accounted_eq_zero,
      hs'.accounted_eq_zero, hpoll]
    omega
  rw [hsplit, hexcess]
  split_ifs with hheld
  · rw [Nat.zero_add]
  · rw [number_take] at hh
    rw [hh.accounted_outside (Or.inr (by rw [List.length_take]; omega))]

theorem cutOnlyAtEnd_fetched {qs xs hs ss : List (Event P T)} (hq : Idle qs)
    (hx : NackedAll ((number next ms).drop held) xs) (hr : Idle rs) (hs' : Idle ss) :
    CutOnlyAtEnd next held ms
        (qs ++ ⟨.poll held, .returned (ms, none)⟩ :: (xs ++ (rs ++ (hs ++ ss)))) ↔
      ∀ md, ⟨.handOff md, false⟩ ∈ hs → md.tag + 1 = next + min held ms.length := by
  refine forall_congr' fun md => ?_
  have hmem : (⟨.handOff md, false⟩ : Event P T) ∈
      qs ++ ⟨.poll held, .returned (ms, none)⟩ :: (xs ++ (rs ++ (hs ++ ss))) ↔
        ⟨.handOff md, false⟩ ∈ hs := by
    simp [hq.handOff_not_mem md false, hx.handOff_not_mem md false, hr.handOff_not_mem md false,
      hs'.handOff_not_mem md false]
  rw [hmem]

theorem Passed.batchAccounted_iff (h : Passed next es)
    (hpoll : ⟨.poll held, .returned (ms, none)⟩ ∈ es) :
    BatchAccounted next ms es ↔ CutOnlyAtEnd next held ms es := by
  cases h with
  | idle _ h => exact absurd hpoll (h.poll_not_mem held _)
  | failed held' o qs rs hq hr ho =>
      rcases List.mem_append.mp hpoll with hpoll | hpoll
      · exact absurd hpoll (hq.poll_not_mem held _)
      rcases List.mem_cons.mp hpoll with heq | hpoll
      · cases heq
        exact absurd rfl (ho ms)
      · exact absurd hpoll (hr.poll_not_mem held _)
  | fetched held' ms' r qs xs rs hs ss hq hx hr hh hs' =>
      have heq : held = held' ∧ ms = ms' := by
        simp only [List.mem_append, List.mem_cons] at hpoll
        rcases hpoll with hpoll | heq | hpoll | hpoll | hpoll | hpoll
        · exact absurd hpoll (hq.poll_not_mem held _)
        · cases heq
          exact ⟨rfl, rfl⟩
        · exact absurd hpoll (hx.poll_not_mem held _)
        · exact absurd hpoll (hr.poll_not_mem held _)
        · exact absurd hpoll (hh.poll_not_mem held _)
        · exact absurd hpoll (hs'.poll_not_mem held _)
      obtain ⟨rfl, rfl⟩ := heq
      have hrows := hh
      rw [number_take] at hrows
      have hiff := hrows.accounted_iff
      rw [List.length_take] at hiff
      rw [cutOnlyAtEnd_fetched hq hx hr hs', ← hiff]
      constructor
      · intro hall i hi
        have h := hall i (by omega)
        rwa [accounted_fetched hq hx hr hh hs' (by omega), if_pos (by omega)] at h
      · intro hall i hi
        rw [accounted_fetched hq hx hr hh hs' hi]
        split_ifs with hheld
        · exact hall i (by omega)
        · rfl

/-- For every consumer, source and resolution of the selects, a pass of the poll loop
keeps the account of the batch it fetched exactly when no row before the last credited
one is cut. -/
theorem pollLoop_batchAccounted_iff (c : Consumer P T) (next errN : ℕ) (env : Environment P T)
    (held : ℕ) (ms : List (Message P))
    (hpoll : ⟨.poll held, .returned (ms, none)⟩ ∈ effects env (pollLoop c next errN)) :
    BatchAccounted next ms (effects env (pollLoop c next errN)) ↔
      CutOnlyAtEnd next held ms (effects env (pollLoop c next errN)) :=
  ((effects_pollLoop c next errN).effects env).batchAccounted_iff hpoll

/-- A source with two rows, and hand-offs that `handOff` resolves. -/
def pairSource (handOff : Bool) : Environment Unit Unit := fun _ q =>
  match q with
  | .poll _ => .returned ([blankMessage, blankMessage], none)
  | .handOff _ => handOff
  | q => q.calm

theorem pair_polled (handOff : Bool) : ⟨.poll 2, .returned ([blankMessage, blankMessage], none)⟩ ∈
    effects (pairSource handOff) (pollLoop pairConsumer 0 0) := by
  cases handOff with
  | true => exact List.Mem.tail _ (List.Mem.tail _ (List.Mem.head _))
  | false => exact List.Mem.tail _ (List.Mem.tail _ (List.Mem.head _))

/-- The context is done at the first of two rows: the second is neither sent nor Nacked. -/
theorem pollLoop_loses_uncut_row :
    ⟨.poll 2, .returned ([blankMessage, blankMessage], none)⟩ ∈
        effects (pairSource false) (pollLoop pairConsumer 0 0) ∧
      accounted 1 (effects (pairSource false) (pollLoop pairConsumer 0 0)) = 0 ∧
      ¬ BatchAccounted 0 [blankMessage, blankMessage]
        (effects (pairSource false) (pollLoop pairConsumer 0 0)) := by
  have hlost : accounted 1 (effects (pairSource false) (pollLoop pairConsumer 0 0)) = 0 := rfl
  refine ⟨pair_polled false, hlost, fun hall => ?_⟩
  have hone := hall 1 (by decide)
  rw [Nat.zero_add, hlost] at hone
  cases hone

theorem pollLoop_batchAccounted_pair :
    BatchAccounted 0 [blankMessage, blankMessage]
        (effects (pairSource true) (pollLoop pairConsumer 0 0)) ↔
      CutOnlyAtEnd 0 2 [blankMessage, blankMessage]
        (effects (pairSource true) (pollLoop pairConsumer 0 0)) :=
  pollLoop_batchAccounted_iff pairConsumer 0 0 (pairSource true) 2 [blankMessage, blankMessage]
    (pair_polled true)

end Msgin
