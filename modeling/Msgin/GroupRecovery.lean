import Msgin.GroupLives
import Msgin.KeyedMaps

/-!
# Recovery of groups

Within one life of the group row the epochs of its claims are distinct, so that a claim that was
superseded is without effect. Hence the two tables agree with each other at any time, and a stored
row leaves only with an applied `SettleGroup` of a claim that was given out with it.
-/

namespace Msgin.Sql

open TableRows TransitionRuns

variable {e : Engine} {groupKey : String} {t' : GroupTables} {c : Claim}

structure LifeInv (s : GroupLives) : Prop where
  history : HistoryInv s.history
  matched : s.grants.length = s.history.claims.length
  lives : ∀ gr ∈ s.grants, gr.life ≤ s.life
  epochs : ∀ i c gr g, s.history.claims[i]? = some c → s.grants[i]? = some gr →
    gr.life = s.life → s.history.tables.group = some g →
      c.epoch ≤ g.epoch ∧ (s.history.current ≠ some i → g.lockedBy.isSome → g.epoch ≠ c.epoch)
  rows : ∀ i gr g, s.history.current = some i → s.grants[i]? = some gr →
    s.history.tables.group = some g → ∀ m ∈ s.history.tables.members,
      m.claimedEpoch = some g.epoch → m.row ∈ gr.rows

variable {s : GroupLives} {call : GroupCall}

variable {s' : GroupLives} {h : ClaimHistory} {i : ℕ}

/-- The claims of one life of the group row have different epochs. -/
theorem LifeInv.epochNotRevived (hinv : LifeInv s) (hsame : SameLife s call s') :
    EpochNotRevived s.history call s'.history := by
  have hstale : ∀ i, call.claim = some i → s.history.current ≠ some i →
      ∀ c, s.history.claims[i]? = some c → ¬ s.history.tables.leasedAt c.epoch := by
    rintro i hi hcur c hc ⟨g, hg, hleased, hepoch⟩
    obtain ⟨gr, hgr⟩ : ∃ gr, s.grants[i]? = some gr := by
      have hlt := (List.getElem?_eq_some_iff.mp hc).1
      rw [← hinv.matched] at hlt
      exact ⟨_, List.getElem?_eq_getElem hlt⟩
    exact (hinv.epochs i c gr g hc hgr (hsame i hi gr hgr) hg).2 hcur hleased hepoch
  cases call with
  | addMember => trivial
  | claimGroup => trivial
  | settleGroup i now => exact hstale i rfl
  | abandonGroup i => exact hstale i rfl

theorem next_of_some (hg : s.history.tables.group.isSome) :
    s.next groupKey call h = ⟨h, s.life, s.grants ++ (s.grant groupKey call).toList⟩ := by
  rw [GroupLives.next, ← Option.not_isSome, hg]
  rfl

theorem next_self (hgrant : s.grant groupKey call = none) : s.next groupKey call s.history = s := by
  rw [GroupLives.next, hgrant, Option.toList_none, List.append_nil, ← Option.not_isSome,
    Bool.not_and_self]
  rfl

theorem next_life (groupKey : String) (call : GroupCall) {g : GroupRow}
    (hg : h.tables.group = some g) :
    s.history.tables.group.isSome ∧ (s.next groupKey call h).life = s.life ∨
      s.history.tables.group = none ∧ (s.next groupKey call h).life = s.life + 1 := by
  rw [GroupLives.next, hg]
  rcases s.history.tables.group with _ | g₀
  · exact .inr ⟨rfl, rfl⟩
  · exact .inl ⟨rfl, rfl⟩

theorem le_next_life (h : ClaimHistory) : s.life ≤ (s.next groupKey call h).life := by
  simp only [GroupLives.next]
  split
  · exact Nat.le_succ _
  · exact Nat.le_refl _

theorem LifeInv.addMember (hinv : LifeInv s) (m : MemberRow) (maxMembers leaseTTL now : ℤ)
    (hh : HistoryInv { s.history with
      tables := (Sql.addMember e groupKey m maxMembers leaseTTL now s.history.tables).2 }) :
    LifeInv (s.next groupKey (.addMember m maxMembers leaseTTL now) { s.history with
      tables := (Sql.addMember e groupKey m maxMembers leaseTTL now s.history.tables).2 }) := by
  have hadds := addsMember (e := e) (t := s.history.tables) groupKey m maxMembers leaseTTL now
  generalize (Sql.addMember e groupKey m maxMembers leaseTTL now s.history.tables).2 = t' at *
  have hgrants : (s.next groupKey (.addMember m maxMembers leaseTTL now)
      { s.history with tables := t' }).grants = s.grants := List.append_nil _
  refine ⟨hh, ?_, fun gr hgr => ?_, fun i c gr g hc hgr hlast hg => ?_,
    fun i gr g hi hgr hg q hq htag => ?_⟩
  · rw [hgrants]
    exact hinv.matched
  · rw [hgrants] at hgr
    exact (hinv.lives gr hgr).trans (le_next_life _)
  · rw [hgrants] at hgr
    rcases next_life (s := s) (h := { s.history with tables := t' }) groupKey
        (.addMember m maxMembers leaseTTL now) hg with ⟨hsome, hlife⟩ | ⟨-, hlife⟩
    · rw [hlife] at hlast
      exact hinv.epochs i c gr g hc hgr hlast (hadds.of_group hg hsome)
    · have hbefore := hinv.lives gr (List.mem_of_getElem? hgr)
      omega
  · rw [hgrants] at hgr
    have hmem : q ∈ s.history.tables.members := by
      refine (hadds.of_mem hq).resolve_right ?_
      rintro ⟨-, rfl⟩
      cases htag
    have hsome := hinv.history.held.recoverable.present.mpr (List.ne_nil_of_mem hmem)
    exact hinv.rows i gr g hi hgr (hadds.of_group hg hsome) q hmem htag

theorem LifeInv.claimGroup (hinv : LifeInv s) {w : String} {leaseTTL now : ℤ} {r : ClaimedGroup}
    (hc : Sql.claimGroup groupKey w leaseTTL now s.history.tables = (some r, t'))
    (hh : HistoryInv
      ⟨t', s.history.claims ++ [⟨w, r.epoch⟩], some s.history.claims.length⟩) :
    LifeInv (s.next groupKey (.claimGroup w leaseTTL now)
      ⟨t', s.history.claims ++ [⟨w, r.epoch⟩], some s.history.claims.length⟩) := by
  have hclaims := hinv.history.held.claims hc
  obtain ⟨g, hg, hr, g', hg', hepoch, -⟩ := hclaims.group
  have hgrant : s.grant groupKey (.claimGroup w leaseTTL now) =
      some ⟨r.rows.members, s.life⟩ := by
    rw [GroupLives.grant, hc]
    rfl
  rw [next_of_some (by rw [hg]; rfl), hgrant, Option.toList_some]
  refine ⟨hh, ?_, fun gr hgr => ?_, fun i c gr g'' hci hgr hlast hg'' => ?_,
    fun i gr g'' hi hgr hg'' q hq _ => ?_⟩
  · rw [List.length_append, List.length_append, hinv.matched]
    rfl
  · rcases List.mem_append.mp hgr with hold | hnew
    · exact hinv.lives gr hold
    · rw [List.mem_singleton.mp hnew]
  · obtain rfl := Option.some.inj (hg'.symm.trans hg'')
    rcases KeyedMaps.getElem?_concat hci with hci | ⟨rfl, rfl⟩
    · have hlt := (List.getElem?_eq_some_iff.mp hci).1
      rcases KeyedMaps.getElem?_concat hgr with hgr | ⟨rfl, -⟩
      · have hle := (hinv.epochs i c gr g hci hgr hlast hg).1
        exact ⟨by omega, fun _ _ => by omega⟩
      · rw [hinv.matched] at hlt
        omega
    · exact ⟨(hr.trans hepoch.symm).le, fun hne => absurd rfl hne⟩
  · obtain rfl := Option.some.inj hi
    rcases KeyedMaps.getElem?_concat hgr with hgr | ⟨-, rfl⟩
    · have hlt := (List.getElem?_eq_some_iff.mp hgr).1
      rw [hinv.matched] at hlt
      omega
    · rw [hclaims.rows.mem_iff, ← hclaims.kept]
      exact List.mem_map_of_mem hq

theorem LifeInv.release (hinv : LifeInv s) (hcur : s.history.current = some i)
    (hgrant : s.grant groupKey call = none) (hfrees : Frees s.history.tables t')
    (hh : HistoryInv (s.history.release i t')) :
    LifeInv (s.next groupKey call (s.history.release i t')) := by
  have hnone : (s.history.release i t').current = none := if_pos hcur
  rw [next_of_some hfrees.was, hgrant, Option.toList_none, List.append_nil]
  refine ⟨hh, hinv.matched, hinv.lives, fun j c gr g' hc hgr hlast hg' => ?_,
    fun j gr g' hj => ?_⟩
  · obtain ⟨hfree, g, hg, hepoch⟩ := hfrees.free g' hg'
    have hle := (hinv.epochs j c gr g hc hgr hlast hg).1
    refine ⟨hepoch ▸ hle, fun _ hleased => ?_⟩
    rw [hfree] at hleased
    cases hleased
  · rw [hnone] at hj
    cases hj

theorem next_stale (hcur : s.history.current ≠ some i) (hgrant : s.grant groupKey call = none)
    (hsame : t' = s.history.tables) : s.next groupKey call (s.history.release i t') = s := by
  have hrelease : s.history.release i t' = s.history := by
    rw [ClaimHistory.release, if_neg hcur, hsame]
  rw [hrelease, next_self hgrant]

inductive LifeStep (e : Engine) (groupKey : String) (s : GroupLives) :
    GroupCall → GroupLives → Prop
  | adds (m : MemberRow) (maxMembers leaseTTL now : ℤ) :
      LifeStep e groupKey s (.addMember m maxMembers leaseTTL now)
        (s.next groupKey (.addMember m maxMembers leaseTTL now) { s.history with
          tables := (addMember e groupKey m maxMembers leaseTTL now s.history.tables).2 })
  | declines (lockedBy : String) (leaseTTL now : ℤ) :
      LifeStep e groupKey s (.claimGroup lockedBy leaseTTL now) s
  | claims (lockedBy : String) (leaseTTL now : ℤ) (r : ClaimedGroup) (t : GroupTables)
      (given : claimGroup groupKey lockedBy leaseTTL now s.history.tables = (some r, t)) :
      LifeStep e groupKey s (.claimGroup lockedBy leaseTTL now)
        (s.next groupKey (.claimGroup lockedBy leaseTTL now)
          ⟨t, s.history.claims ++ [⟨lockedBy, r.epoch⟩], some s.history.claims.length⟩)
  | stale {call : GroupCall} (quiet : s.settled e call = none) : LifeStep e groupKey s call s
  | settles (i : ℕ) (now : ℤ) (c : Claim) (found : s.history.claims[i]? = some c)
      (current : s.history.current = some i) (held : Held s.history.tables (some c)) :
      LifeStep e groupKey s (.settleGroup i now)
        (s.next groupKey (.settleGroup i now)
          (s.history.release i (settleGroup e c.lockedBy c.epoch now s.history.tables).2))
  | abandons (i : ℕ) (c : Claim) (found : s.history.claims[i]? = some c)
      (current : s.history.current = some i) (held : Held s.history.tables (some c)) :
      LifeStep e groupKey s (.abandonGroup i)
        (s.next groupKey (.abandonGroup i)
          (s.history.release i (abandonGroup e c.lockedBy c.epoch s.history.tables).2))

theorem HistoryInv.held_of_current (hinv : HistoryInv h) (hcur : h.current = some i)
    (hi : h.claims[i]? = some c) : Held h.tables (some c) := by
  have hheld := hinv.held
  rwa [hcur, Option.bind_some, hi] at hheld

theorem LifeInv.lifeStep (hinv : LifeInv s) (hstep : s.step e groupKey call = some s')
    (hsame : SameLife s call s') : LifeStep e groupKey s call s' := by
  obtain ⟨h', hcall, rfl⟩ := Option.map_eq_some_iff.mp hstep
  have hrev := hinv.epochNotRevived hsame
  cases call with
  | addMember m maxMembers leaseTTL now =>
      obtain rfl := Option.some.inj hcall
      exact .adds m maxMembers leaseTTL now
  | claimGroup w leaseTTL now =>
      rcases hc : Sql.claimGroup groupKey w leaseTTL now s.history.tables with ⟨_ | r, t'⟩
      · simp only [callStep, hc, Option.some.injEq] at hcall
        obtain rfl := claimGroup_none hc
        obtain rfl := hcall
        have hgrant : s.grant groupKey (.claimGroup w leaseTTL now) = none := by
          rw [GroupLives.grant, hc]
          rfl
        rw [next_self hgrant]
        exact .declines w leaseTTL now
      · simp only [callStep, hc, Option.some.injEq] at hcall
        obtain rfl := hcall
        exact .claims w leaseTTL now r t' hc
  | settleGroup i now =>
      obtain ⟨c, hi, rfl⟩ := Option.map_eq_some_iff.mp hcall
      by_cases hcur : s.history.current = some i
      · exact .settles i now c hi hcur (hinv.history.held_of_current hcur hi)
      · have hnoop : Sql.settleGroup e c.lockedBy c.epoch now s.history.tables =
            (false, s.history.tables) :=
          hinv.history.held.settleGroup_eq_iff.mpr (hrev hcur c hi)
        rw [next_stale hcur rfl (by rw [hnoop])]
        refine .stale ?_
        rw [GroupLives.settled, hi, Option.bind_some, hnoop]
        rfl
  | abandonGroup i =>
      obtain ⟨c, hi, rfl⟩ := Option.map_eq_some_iff.mp hcall
      by_cases hcur : s.history.current = some i
      · exact .abandons i c hi hcur (hinv.history.held_of_current hcur hi)
      · have hnoop := (hinv.history.held.abandonGroup_eq_iff (e := e) (w := c.lockedBy)).mpr
          (hrev hcur c hi)
        rw [next_stale hcur rfl (by rw [hnoop])]
        exact .stale rfl

theorem LifeInv.step (hinv : LifeInv s) (hstep : s.step e groupKey call = some s')
    (hsame : SameLife s call s') : LifeInv s' := by
  have hh : HistoryInv s'.history := by
    obtain ⟨h', hcall, rfl⟩ := Option.map_eq_some_iff.mp hstep
    exact historyInv_step hinv.history hcall (hinv.epochNotRevived hsame)
  cases hinv.lifeStep hstep hsame with
  | adds m maxMembers leaseTTL now => exact hinv.addMember m maxMembers leaseTTL now hh
  | declines w leaseTTL now => exact hinv
  | claims w leaseTTL now r t given => exact hinv.claimGroup given hh
  | stale quiet => exact hinv
  | settles i now c found current held =>
      exact hinv.release current rfl (held.settleGroup_frees now).2 hh
  | abandons i c found current held => exact hinv.release current rfl held.abandonGroup_frees hh

/-- A row stays, or leaves with an applied `SettleGroup` of a claim that was given out with it. -/
theorem LifeInv.kept (hinv : LifeInv s) (hstep : s.step e groupKey call = some s')
    (hsame : SameLife s call s') {row : MemberRow}
    (hrow : row ∈ s.history.tables.members.map StoredMember.row) :
    row ∈ s'.history.tables.members.map StoredMember.row ∨
      ∃ rows ∈ s.settled e call, row ∈ rows := by
  cases hinv.lifeStep hstep hsame with
  | adds m maxMembers leaseTTL now =>
      obtain ⟨q, hq, rfl⟩ := List.mem_map.mp hrow
      exact .inl (List.mem_map_of_mem ((addsMember groupKey m maxMembers leaseTTL now).mem hq))
  | declines w leaseTTL now => exact .inl hrow
  | claims w leaseTTL now r t given =>
      refine .inl ?_
      show row ∈ t.members.map StoredMember.row
      rwa [(hinv.history.held.claims given).kept]
  | stale quiet => exact .inl hrow
  | settles i now c found current held =>
      obtain ⟨g, hg⟩ := Option.isSome_iff_exists.mp (held.settleGroup_frees (e := e) now).2.was
      obtain ⟨q, hq, rfl⟩ := List.mem_map.mp hrow
      by_cases htag : q.claimedIn c.epoch
      · obtain ⟨gr, hgr⟩ : ∃ gr, s.grants[i]? = some gr := by
          have hlt := (List.getElem?_eq_some_iff.mp found).1
          rw [← hinv.matched] at hlt
          exact ⟨_, List.getElem?_eq_getElem hlt⟩
        have hepoch : c.epoch = g.epoch := by
          cases held with
          | leased g' w hg' hl hm htags =>
              obtain rfl := Option.some.inj (hg'.symm.trans hg)
              rfl
        refine .inr ⟨gr.rows, ?_, hinv.rows i gr g current hgr hg q hq ?_⟩
        · rw [GroupLives.settled, found, Option.bind_some,
            if_pos (held.settleGroup_frees (e := e) now).1, hgr]
          rfl
        · rw [← hepoch]
          exact beq_iff_eq.mp htag
      · refine .inl ?_
        show q.row ∈ (settleGroup e c.lockedBy c.epoch now s.history.tables).2.members.map _
        rw [settleGroup_members hg]
        exact List.mem_map_of_mem (mem_deleteWhere.mpr ⟨hq, by simpa using htag⟩)
  | abandons i c found current held =>
      obtain ⟨g, hg⟩ := Option.isSome_iff_exists.mp (held.abandonGroup_frees (e := e)).was
      refine .inl ?_
      show row ∈ (abandonGroup e c.lockedBy c.epoch s.history.tables).2.members.map _
      rwa [abandonGroup_members hg, map_row_updateWhere]

structure Follows (row : MemberRow) (s : GroupLives) (out : List (List MemberRow)) : Prop where
  inv : LifeInv s
  kept : row ∈ s.history.tables.members.map StoredMember.row ∨ ∃ rows ∈ out, row ∈ rows

theorem Follows.step {row : MemberRow} {out : List (List MemberRow)} (h : Follows row s out)
    (hstep : s.step e groupKey call = some s') (hsame : SameLife s call s') :
    Follows row s' (out ++ (s.settled e call).toList) := by
  refine ⟨h.inv.step hstep hsame, ?_⟩
  rcases h.kept with hrow | ⟨rows, hrows, hmem⟩
  · rcases h.inv.kept hstep hsame hrow with hrow | ⟨rows, hrows, hmem⟩
    · exact .inl hrow
    · exact .inr ⟨rows, List.mem_append_right _ (Option.mem_toList.mpr hrows), hmem⟩
  · exact .inr ⟨rows, List.mem_append_left _ hrows, hmem⟩

end Msgin.Sql
