import Mathlib.Algebra.Order.Ring.Int
import Msgin.CronFleet

/-!
# The fires of a fleet

The lease alone decides which loop fires. A loop takes an expired lease over whenever its next
instant comes, so the fires of a fleet are a period apart exactly if no lease can expire between the
instants of two loops.
-/

namespace Msgin.Cron

open TransitionRuns
open Msgin.Sql (microseconds)

variable {f : Fleet}

/-- Two fires, the first one before the second: they are of one loop, or the lease of the first one
had expired. -/
structure Apart (f : Fleet) (x y : Emission f.size) : Prop where
  order : x.asked ≤ y.asked
  same : x.loop = y.loop → x.fire + f.period ≤ y.fire
  other : x.loop ≠ y.loop → x.asked + microseconds f.leaseTTL < y.asked

/-- The instants of a loop. -/
structure OnGrid (f : Fleet) (i : Fin f.size) (t : ℤ) : Prop where
  scheduled : ∃ u, t = f.scheduleNext u
  phase : f.period ∣ t - f.first i

structure Timely (f : Fleet) (s : FleetState f.size) (x : Emission f.size) : Prop where
  after : x.fire ≤ x.asked
  before : x.asked ≤ x.fire + f.latency
  past : x.asked ≤ s.now
  grid : OnGrid f x.loop x.fire
  next : x.fire + f.period ≤ s.next x.loop

structure FleetInv (f : Fleet) (s : FleetState f.size) : Prop where
  grid : ∀ i, OnGrid f i (s.next i)
  timely : ∀ x ∈ s.emitted, Timely f s x
  row : s.row = s.emitted.getLast?.map fun x => newLease (f.holder x.loop) f.leaseTTL x.asked
  apart : s.emitted.Pairwise (Apart f)

theorem onGrid_first (f : Fleet) (i : Fin f.size) : OnGrid f i (f.first i) :=
  ⟨⟨f.start i, rfl⟩, by rw [sub_self]; exact Int.dvd_zero _⟩

variable {s : FleetState f.size} {i : Fin f.size} {x : Emission f.size}

theorem OnGrid.scheduleNext_eq {t : ℤ} (h : OnGrid f i t) : f.scheduleNext t = t + f.period := by
  obtain ⟨u, rfl⟩ := h.scheduled
  exact f.every u

theorem OnGrid.add_period {t : ℤ} (h : OnGrid f i t) : OnGrid f i (t + f.period) := by
  refine ⟨⟨t, h.scheduleNext_eq.symm⟩, ?_⟩
  rw [add_sub_right_comm]
  exact Int.dvd_add h.phase (Int.dvd_refl _)

theorem OnGrid.advance_eq (h : OnGrid f i (s.next i)) :
    f.advance s i = Function.update s.next i (s.next i + f.period) := by
  rw [Fleet.advance, h.scheduleNext_eq]

theorem fleetInv_new (f : Fleet) (now : ℤ) : FleetInv f (f.new now) where
  grid := onGrid_first f
  timely x hx := by cases hx
  row := rfl
  apart := .nil

theorem Timely.mono {t : FleetState f.size} (h : Timely f s x) (hnow : s.now ≤ t.now)
    (hnext : s.next x.loop ≤ t.next x.loop) : Timely f t x :=
  ⟨h.after, h.before, h.past.trans hnow, h.grid, h.next.trans hnext⟩

theorem OnGrid.le_advance (h : OnGrid f i (s.next i)) (j : Fin f.size) :
    s.next j ≤ f.advance s i j := by
  rw [h.advance_eq]
  by_cases hj : j = i
  · subst hj
    rw [Function.update_self]
    exact le_add_of_nonneg_right f.period_pos.le
  · rw [Function.update_of_ne hj]

theorem advance_grid (h : ∀ i, OnGrid f i (s.next i)) (i j : Fin f.size) :
    OnGrid f j (f.advance s i j) := by
  rw [(h i).advance_eq]
  by_cases hj : j = i
  · subst hj
    rw [Function.update_self]
    exact (h j).add_period
  · rw [Function.update_of_ne hj]
    exact h j

theorem FleetInv.apart_fire (hinv : FleetInv f s)
    (hids : ∀ i j, i ≠ j → f.engine.collation.eq (f.holder i) (f.holder j) = false)
    (hfree : s.row.all (Lease.free f.engine (f.holder i) s.now) = true) (hx : x ∈ s.emitted) :
    Apart f x ⟨i, s.next i, s.now⟩ := by
  have htimely := hinv.timely x hx
  refine ⟨htimely.past, ?_, fun hne => ?_⟩
  · rintro rfl
    exact htimely.next
  · rcases List.eq_nil_or_concat' s.emitted with hnil | ⟨before, last, hlast⟩
    · rw [hnil] at hx
      cases hx
    · have hmem : last ∈ s.emitted := by
        rw [hlast]
        exact List.mem_append_right _ List.mem_cons_self
      have hpairs := hinv.apart
      rw [hlast, List.pairwise_append] at hpairs
      rw [hlast, List.mem_append, List.mem_singleton] at hx
      by_cases hself : last.loop = i
      · rcases hx with hbefore | rfl
        · have hxlast := (hpairs.2.2 x hbefore last List.mem_cons_self).other (hself ▸ hne)
          exact hxlast.trans_le (hinv.timely last hmem).past
        · exact absurd hself hne
      · rw [hinv.row, hlast, List.getLast?_concat, Option.map_some, Option.all_some, Lease.free,
          Bool.or_eq_true] at hfree
        have hexpired : last.asked + microseconds f.leaseTTL < s.now := by
          rcases hfree with htwin | hexpired
          · exact absurd ((hids last.loop i hself).symm.trans htwin) (by decide)
          · exact of_decide_eq_true hexpired
        rcases hx with hbefore | rfl
        · have horder := (hpairs.2.2 x hbefore last List.mem_cons_self).order
          show x.asked + microseconds f.leaseTTL < s.now
          omega
        · exact hexpired

theorem FleetInv.step {t : FleetState f.size} (hinv : FleetInv f s)
    (hids : ∀ i j, i ≠ j → f.engine.collation.eq (f.holder i) (f.holder j) = false)
    (h : FleetStep f s t) : FleetInv f t := by
  cases h with
  | tick d =>
      refine ⟨hinv.grid, fun x hx => (hinv.timely x hx).mono ?_ le_rfl, hinv.row, hinv.apart⟩
      exact le_add_of_nonneg_right (Int.natCast_nonneg d)
  | pass i =>
      exact ⟨advance_grid hinv.grid i,
        fun x hx => (hinv.timely x hx).mono le_rfl ((hinv.grid i).le_advance x.loop), hinv.row,
        hinv.apart⟩
  | fire i due timely free =>
      refine ⟨advance_grid hinv.grid i, fun x hx => ?_, ?_, ?_⟩
      · rcases List.mem_append.mp hx with hx | hx
        · exact (hinv.timely x hx).mono le_rfl ((hinv.grid i).le_advance x.loop)
        · obtain rfl := List.mem_singleton.mp hx
          refine ⟨due, timely, le_rfl, hinv.grid i, ?_⟩
          show s.next i + f.period ≤ f.advance s i i
          rw [(hinv.grid i).advance_eq, Function.update_self]
      · rw [List.getLast?_concat]
        rfl
      · rw [List.pairwise_append]
        refine ⟨hinv.apart, List.pairwise_singleton _ _, fun x hx y hy => ?_⟩
        obtain rfl := List.mem_singleton.mp hy
        exact hinv.apart_fire hids free hx

theorem Timely.fire_eq (h : Timely f s x) : ∃ n, x.fire = f.first x.loop + f.period * n := by
  obtain ⟨n, hn⟩ := h.grid.phase
  exact ⟨n, by omega⟩

theorem Apart.period_le (hcovers : f.LeaseCoversPhases) {y : Emission f.size} (h : Apart f x y)
    (hx : Timely f s x) (hy : Timely f s y) : x.fire + f.period ≤ y.fire := by
  by_cases hloop : x.loop = y.loop
  · exact h.same hloop
  · have hexpired := h.other hloop
    obtain ⟨-, hcover⟩ := hcovers x.loop y.loop hloop
    have hx' := hx.after
    have hy' := hy.before
    obtain ⟨m, hm⟩ := hx.fire_eq
    obtain ⟨n, hn⟩ := hy.fire_eq
    have hphase := Int.emod_add_mul_ediv (f.first y.loop - f.first x.loop) f.period
    have hnonneg := Int.emod_nonneg (f.first y.loop - f.first x.loop) f.period_pos.ne'
    generalize (f.first y.loop - f.first x.loop) % f.period = d at *
    generalize (f.first y.loop - f.first x.loop) / f.period = q at *
    have hdist : y.fire - x.fire = d + f.period * (q + n - m) := by
      rw [hm, hn, Int.mul_sub, Int.mul_add]
      omega
    have hpos : 0 < f.period * (q + n - m) := by omega
    have hk : 1 ≤ q + n - m := (mul_pos_iff_of_pos_left f.period_pos).mp hpos
    have hle : f.period * 1 ≤ f.period * (q + n - m) :=
      Int.mul_le_mul_of_nonneg_left hk f.period_pos.le
    omega

theorem singleFire_of_apart {emitted : List (Emission f.size)}
    (h : emitted.Pairwise fun x y => x.fire + f.period ≤ y.fire) (a : ℤ) :
    (emitted.filter fun x => a ≤ x.fire ∧ x.fire < a + f.period).length ≤ 1 := by
  have hfilter := h.filter fun x => decide (a ≤ x.fire ∧ x.fire < a + f.period)
  have hmem : ∀ x ∈ emitted.filter (fun x => decide (a ≤ x.fire ∧ x.fire < a + f.period)),
      a ≤ x.fire ∧ x.fire < a + f.period := fun x hx => of_decide_eq_true (List.mem_filter.mp hx).2
  rcases hl : emitted.filter (fun x => decide (a ≤ x.fire ∧ x.fire < a + f.period)) with
    _ | ⟨x, _ | ⟨y, rest⟩⟩
  · rw [hl]
    exact Nat.zero_le 1
  · rw [hl]
    exact le_rfl
  · rw [hl] at hfilter hmem
    have hxy := (List.pairwise_cons.mp hfilter).1 y List.mem_cons_self
    have hx := hmem x List.mem_cons_self
    have hy := hmem y (List.mem_cons_of_mem x List.mem_cons_self)
    omega

theorem singleFire_of_covers (hcovers : f.LeaseCoversPhases) {now : ℤ}
    {ls : List (FleetLabel f.size)} (hr : run f.step (f.new now) ls = some s) : f.SingleFire s := by
  have hinv : FleetInv f s := run_invariant f.step
    (fun _ _ _ h hstep => h.step (fun i j hij => (hcovers i j hij).1) (fleetStep_of_step hstep))
    (fleetInv_new f now) hr
  refine singleFire_of_apart (hinv.apart.imp_of_mem fun {x y} hx hy h => ?_)
  exact h.period_le hcovers (hinv.timely x hx) (hinv.timely y hy)

theorem OnGrid.run_skips (hgrid : OnGrid f i (s.next i)) (n : ℕ)
    (h : s.next i + f.period * n ≤ s.now) :
    run f.step s (List.replicate n (.skip i)) =
      some { s with next := Function.update s.next i (s.next i + f.period * n) } := by
  induction n generalizing s with
  | zero =>
      rw [List.replicate_zero, run_nil, Int.natCast_zero, Int.mul_zero, Int.add_zero,
        Function.update_eq_self]
  | succ n ih =>
      have hcast : f.period * ((n + 1 : ℕ) : ℤ) = f.period + f.period * n := by
        rw [Int.natCast_succ, Int.mul_add, Int.mul_one, Int.add_comm]
      rw [hcast] at h ⊢
      have hperiod := f.period_pos
      have hn : 0 ≤ f.period * n := Int.mul_nonneg hperiod.le (Int.natCast_nonneg n)
      have hdue : s.next i ≤ s.now := by omega
      have hself : f.advance s i i = s.next i + f.period := by
        rw [hgrid.advance_eq, Function.update_self]
      have hnext : Function.update (f.advance s i) i (f.advance s i i + f.period * n) =
          Function.update s.next i (s.next i + (f.period + f.period * n)) := by
        rw [hself, Fleet.advance, Function.update_idem, Int.add_assoc]
      rw [List.replicate_succ, run_cons, Fleet.step, if_pos hdue, Option.bind_some, ih]
      · exact congrArg (fun next => some { s with next }) hnext
      · show OnGrid f i (f.advance s i i)
        rw [hself]
        exact hgrid.add_period
      · show f.advance s i i + _ ≤ s.now
        rw [hself]
        omega

theorem step_fire (hdue : s.next i ≤ s.now) (htimely : s.now ≤ s.next i + f.latency)
    (hfree : s.row.all (Lease.free f.engine (f.holder i) s.now) = true) :
    f.step s (.fire i) =
      some ⟨s.now, some (newLease (f.holder i) f.leaseTTL s.now), f.advance s i,
        s.emitted ++ [⟨i, s.next i, s.now⟩]⟩ := by
  have hask : f.ask s i = (.ok true, some (newLease (f.holder i) f.leaseTTL s.now)) := by
    rw [Fleet.ask, isLeader_eq (f.fits i), if_pos hfree]
  rw [Fleet.step, if_pos ⟨hdue, htimely⟩, hask]
  rfl

theorem run_skips_fire {n : ℕ} {b : ℤ} (hgrid : OnGrid f i (s.next i))
    (hb : s.next i + f.period * n = b) (hdue : b ≤ s.now) (htimely : s.now ≤ b + f.latency)
    (hfree : s.row.all (Lease.free f.engine (f.holder i) s.now) = true) :
    ∃ t, run f.step s (List.replicate n (.skip i) ++ [.fire i]) = some t ∧ t.now = s.now ∧
      t.row = some (newLease (f.holder i) f.leaseTTL s.now) ∧
      (∀ j, j ≠ i → t.next j = s.next j) ∧ t.emitted = s.emitted ++ [⟨i, b, s.now⟩] := by
  obtain ⟨u, hru, hnow, hrow, hself, hother, hemitted⟩ : ∃ u,
      run f.step s (List.replicate n (.skip i)) = some u ∧ u.now = s.now ∧ u.row = s.row ∧
        u.next i = b ∧ (∀ j, j ≠ i → u.next j = s.next j) ∧ u.emitted = s.emitted :=
    ⟨_, hgrid.run_skips n (hb ▸ hdue), rfl, rfl, (Function.update_self i _ s.next).trans hb,
      fun j hj => Function.update_of_ne hj _ _, rfl⟩
  rw [← hnow, ← hself] at hdue htimely
  rw [← hnow, ← hrow] at hfree
  have hrun : run f.step s (List.replicate n (.skip i) ++ [.fire i]) =
      some ⟨u.now, some (newLease (f.holder i) f.leaseTTL u.now), f.advance u i,
        u.emitted ++ [⟨i, u.next i, u.now⟩]⟩ := by
    rw [run_append, hru, Option.bind_some, run_cons, step_fire hdue htimely hfree]
    rfl
  refine ⟨_, hrun, hnow, by rw [hnow], fun j hj => ?_, by rw [hemitted, hself, hnow]⟩
  rw [← hother j hj]
  exact Function.update_of_ne hj _ _

theorem exists_two_fires {j : Fin f.size} (hij : i ≠ j)
    (h : f.engine.collation.eq (f.holder i) (f.holder j) = true ∨
      microseconds f.leaseTTL < (f.first j - f.first i) % f.period + f.latency) :
    ∃ now ls s, run f.step (f.new now) ls = some s ∧ s.emitted =
      [⟨i, now, now⟩, ⟨j, now + (f.first j - f.first i) % f.period,
        now + ((f.first j - f.first i) % f.period + f.latency)⟩] := by
  have hperiod := f.period_pos
  have hphase := Int.emod_add_mul_ediv (f.first j - f.first i) f.period
  have hnonneg := Int.emod_nonneg (f.first j - f.first i) hperiod.ne'
  generalize (f.first j - f.first i) % f.period = d at *
  generalize (f.first j - f.first i) / f.period = q at *
  obtain ⟨m, hm⟩ : ∃ m : ℕ, (m : ℤ) = q.natAbs := ⟨q.natAbs, rfl⟩
  obtain ⟨n, hn⟩ : ∃ n : ℕ, (n : ℤ) = m - q := ⟨(m - q).toNat, by omega⟩
  obtain ⟨w, hw⟩ : ∃ w : ℕ, (w : ℤ) = d + f.latency := ⟨(d + f.latency).toNat, by omega⟩
  obtain ⟨now, hnow⟩ : ∃ now, f.first i + f.period * m = now := ⟨_, rfl⟩
  have hmul : f.period * n = f.period * m - f.period * q := by rw [hn, Int.mul_sub]
  have hfirst : (f.new now).next i + f.period * m = now := hnow
  obtain ⟨s, hrs, hsnow, hsrow, hsnext, hsemitted⟩ :=
    run_skips_fire (onGrid_first f i) hfirst le_rfl (le_add_of_nonneg_right (Int.natCast_nonneg _)) rfl
  have hsecond : s.next j + f.period * n = now + d := by
    rw [hsnext j hij.symm]
    show f.first j + f.period * n = now + d
    omega
  have hfree : s.row.all (Lease.free f.engine (f.holder j) (s.now + w)) = true := by
    rw [hsrow, Option.all_some, Lease.free, Bool.or_eq_true]
    refine h.imp id fun hlt => decide_eq_true ?_
    show now + microseconds f.leaseTTL < s.now + w
    rw [hsnow]
    show now + microseconds f.leaseTTL < now + w
    omega
  have hlate : s.now + w = now + (d + f.latency) := by rw [hsnow, hw]; rfl
  obtain ⟨t, hrt, -, -, -, htemitted⟩ :=
    run_skips_fire (s := { s with now := s.now + w })
      (by show OnGrid f j (s.next j); rw [hsnext j hij.symm]; exact onGrid_first f j) hsecond
      (by show _ ≤ s.now + w; omega) (by show s.now + w ≤ _; omega) hfree
  refine ⟨now, (List.replicate m (.skip i) ++ [.fire i]) ++
    .tick w :: (List.replicate n (.skip j) ++ [.fire j]), t, ?_, ?_⟩
  · rw [run_append, hrs, Option.bind_some, run_cons]
    exact hrt
  · rw [htemitted, hsemitted, hlate]
    rfl

theorem covers_of_singleFire
    (h : ∀ now ls s, run f.step (f.new now) ls = some s → f.SingleFire s) :
    f.LeaseCoversPhases := by
  intro i j hij
  by_contra hnot
  have hcase : f.engine.collation.eq (f.holder i) (f.holder j) = true ∨
      microseconds f.leaseTTL < (f.first j - f.first i) % f.period + f.latency := by
    rcases Bool.eq_false_or_eq_true (f.engine.collation.eq (f.holder i) (f.holder j)) with
      htwin | hdiffer
    · exact .inl htwin
    · exact .inr (lt_of_not_ge fun hle => hnot ⟨hdiffer, hle⟩)
  obtain ⟨now, ls, s, hr, hemitted⟩ := exists_two_fires hij hcase
  have hone := h now ls s hr now
  have hnonneg := Int.emod_nonneg (f.first j - f.first i) f.period_pos.ne'
  have hlt := Int.emod_lt_of_pos (f.first j - f.first i) f.period_pos
  have hall : ∀ x ∈ s.emitted, decide (now ≤ x.fire ∧ x.fire < now + f.period) = true := by
    rw [hemitted]
    intro x hx
    have hperiod := f.period_pos
    rcases List.mem_cons.mp hx with rfl | hx
    · exact decide_eq_true ⟨le_rfl, by show now < now + f.period; omega⟩
    · obtain rfl := List.mem_singleton.mp hx
      exact decide_eq_true ⟨by show now ≤ now + _; omega, by show now + _ < now + _; omega⟩
  rw [List.filter_eq_self.mpr hall, hemitted] at hone
  exact Nat.not_succ_le_self 1 hone

/-- A fleet never fires twice within a period exactly if the lease covers the phases of its
loops. -/
theorem singleFire_iff_covers (f : Fleet) :
    (∀ now ls s, run f.step (f.new now) ls = some s → f.SingleFire s) ↔ f.LeaseCoversPhases :=
  ⟨covers_of_singleFire, fun hcovers _ _ _ hr => singleFire_of_covers hcovers hr⟩

/-- Two loops half a period of ten seconds apart, with a lease of one second. The schedule rounds to
the second. -/
def shortLease : Fleet where
  engine := .postgres
  scope := "@every 10s"
  size := 2
  holder i := if i = 0 then "a" else "b"
  distinct := by unfold Function.Injective; decide
  fits := by decide
  scheduleNext t := t + 10000000 - t % 1000000
  period := 10000000
  period_pos := by decide
  every t := by omega
  start i := if i = 0 then 300000 else 5000000
  leaseTTL := ⟨1000000000, by decide⟩
  latency := 0

theorem shortLease_fires_twice :
    ∃ s, run shortLease.step (shortLease.new 0)
        [.tick 10000000, .fire (0 : Fin 2), .tick 5000000, .fire (1 : Fin 2)] = some s ∧
      s.emitted = [⟨(0 : Fin 2), 10000000, 10000000⟩, ⟨(1 : Fin 2), 15000000, 15000000⟩] ∧
      ¬shortLease.SingleFire s := by
  refine ⟨_, rfl, rfl, fun h => ?_⟩
  exact absurd (h 10000000) (by decide)

end Msgin.Cron
