import Mathlib.Algebra.Order.Ring.Int
import Mathlib.Data.List.Basic
import Msgin.SseClient

/-!
# Reconnect pacing

`Stream` waits after every connection that does not end it. The wait is what the server asked for,
the least wait after a connection with events, and otherwise it doubles from one connection to the
next. All of it is int64 arithmetic on nanoseconds, which wraps around.
-/

namespace Msgin.Http

variable {cfg : ClientConfig}

/-- A connection with neither an event nor a retry field. -/
def ConnResult.plain (res : ConnResult) : Bool := res.retry.isNone && !res.gotEvent

namespace StreamState

/-- The state of the loop after a connection. -/
def after (cfg : ClientConfig) (st : StreamState) (res : ConnResult) : StreamState :=
  ⟨st.nextDelay cfg res, res.lastEventID⟩

/-- The waits of `Stream`, one after each connection. -/
def waits (cfg : ClientConfig) : StreamState → List ConnResult → List ℤ
  | _, [] => []
  | st, res :: rest => st.wait cfg res :: waits cfg (st.after cfg res) rest

/-- The connections of a call of `Stream` up to one that ends it, each with the wait after it. -/
def connections (cfg : ClientConfig) : StreamState → List Attempt → List (ConnResult × ℤ)
  | _, [] => []
  | st, a :: rest =>
    let res := (connect cfg st.lastEventID a).2
    if res.terminal.isSome then []
    else
      (res, st.wait cfg res) ::
        match st.turn cfg a with
        | .returned _ => []
        | .goOn st' => connections cfg st' rest

theorem turn_goOn {st st' : StreamState} {a : Attempt} (h : st.turn cfg a = .goOn st') :
    st' = st.after cfg (connect cfg st.lastEventID a).2 := by
  simp only [turn] at h
  split at h
  · cases h
  · split at h
    · cases h
    · exact (TurnEnd.goOn.inj h).symm

/-- The waits of a call are those of its connections. -/
theorem connections_waits (st : StreamState) (attempts : List Attempt) :
    (st.connections cfg attempts).map Prod.snd =
      st.waits cfg ((st.connections cfg attempts).map Prod.fst) := by
  induction attempts generalizing st with
  | nil => rfl
  | cons a rest ih =>
      simp only [connections]
      split
      · rfl
      · cases hturn : st.turn cfg a with
        | returned err => rfl
        | goOn st' =>
            rw [List.map_cons, List.map_cons, waits, ih st', turn_goOn hturn]

theorem length_waits (st : StreamState) (outcomes : List ConnResult) :
    (st.waits cfg outcomes).length = outcomes.length := by
  induction outcomes generalizing st with
  | nil => rfl
  | cons res rest ih => rw [waits, List.length_cons, List.length_cons, ih]

theorem waits_append (st : StreamState) (l₁ l₂ : List ConnResult) :
    st.waits cfg (l₁ ++ l₂) = st.waits cfg l₁ ++ (l₁.foldl (after cfg) st).waits cfg l₂ := by
  induction l₁ generalizing st with
  | nil => rfl
  | cons res l₁ ih => rw [List.cons_append, waits, ih, waits, List.cons_append, List.foldl_cons]

end StreamState

structure ClientConfig.Paces (cfg : ClientConfig) : Prop where
  pos : 0 < cfg.reconnectMin
  le : cfg.reconnectMin ≤ cfg.reconnectMax
  int64 : cfg.reconnectMax ≤ 9223372036854775807

variable {maxD : ℤ}

theorem clampDelay_eq (d : ℤ) {minD : ℤ} (h : minD ≤ maxD) :
    clampDelay d minD maxD = max minD (min maxD d) := by
  unfold clampDelay
  split
  · omega
  · split
    · omega
    · omega

/-- Doubling stops at the greatest delay, also where it wraps around. -/
theorem doubleDelay_eq {d : ℤ} (hpos : 0 < d) (hle : d ≤ maxD) (hmax : maxD ≤ 9223372036854775807) :
    doubleDelay d maxD = min maxD (d * 2) := by
  simp only [doubleDelay, Int.bmod]
  split
  · split
    · omega
    · omega
  · split
    · omega
    · omega

theorem min_doubled {d : ℤ} (hmax : 0 < maxD) (j : ℕ) :
    min maxD (min maxD (d * 2) * 2 ^ j) = min maxD (d * 2 ^ (j + 1)) := by
  have hpow : (1 : ℤ) ≤ 2 ^ j := one_le_pow₀ (by decide)
  rw [pow_succ', ← mul_assoc]
  by_cases hle : d * 2 ≤ maxD
  · rw [min_eq_right hle]
  · have hlt : maxD ≤ d * 2 := by omega
    have hself : maxD ≤ maxD * 2 ^ j := le_mul_of_one_le_right hmax.le hpow
    have hdouble : maxD * 2 ^ j ≤ d * 2 * 2 ^ j := mul_le_mul_of_nonneg_right hlt (by omega)
    rw [min_eq_left hlt, min_eq_left hself, min_eq_left (hself.trans hdouble)]

namespace StreamState

variable {st : StreamState} {res : ConnResult}

theorem wait_of_retry (hcfg : cfg.Paces) {retry : ℤ} (h : res.retry = some retry) :
    st.wait cfg res = max cfg.reconnectMin (min cfg.reconnectMax retry) := by
  rw [wait, h]
  exact clampDelay_eq retry hcfg.le

theorem wait_of_event (h : res.retry = none) (hev : res.gotEvent = true) :
    st.wait cfg res = cfg.reconnectMin := by
  rw [wait, h]
  exact if_pos hev

theorem wait_of_plain (h : res.plain = true) : st.wait cfg res = st.delay := by
  obtain ⟨hretry, hev⟩ : res.retry = none ∧ res.gotEvent = false := by simpa [ConnResult.plain] using h
  rw [wait, hretry]
  exact if_neg (by simp [hev])

/-- The delay that the next connection doubles is within the bounds. -/
structure Bounded (cfg : ClientConfig) (st : StreamState) : Prop where
  ge : cfg.reconnectMin ≤ st.delay
  le : st.delay ≤ cfg.reconnectMax

theorem initial_bounded (hcfg : cfg.Paces) : (initial cfg).Bounded cfg := ⟨le_rfl, hcfg.le⟩

theorem Bounded.wait (hcfg : cfg.Paces) (h : st.Bounded cfg) (res : ConnResult) :
    cfg.reconnectMin ≤ st.wait cfg res ∧ st.wait cfg res ≤ cfg.reconnectMax := by
  have hle := hcfg.le
  cases hretry : res.retry with
  | some retry =>
      rw [wait_of_retry hcfg hretry]
      omega
  | none =>
      rw [StreamState.wait, hretry]
      show cfg.reconnectMin ≤ (if res.gotEvent then cfg.reconnectMin else st.delay) ∧
        (if res.gotEvent then cfg.reconnectMin else st.delay) ≤ cfg.reconnectMax
      split
      · exact ⟨le_rfl, hle⟩
      · exact ⟨h.ge, h.le⟩

theorem nextDelay_of_plain (hcfg : cfg.Paces) (h : st.Bounded cfg) (hres : res.plain = true) :
    st.nextDelay cfg res = min cfg.reconnectMax (st.delay * 2) := by
  have hwait : st.wait cfg res = st.delay := wait_of_plain hres
  obtain ⟨hretry, hev⟩ : res.retry = none ∧ res.gotEvent = false := by
    simpa [ConnResult.plain] using hres
  have hpos : 0 < st.delay := lt_of_lt_of_le hcfg.pos h.ge
  rw [nextDelay, hretry]
  show (if res.gotEvent then cfg.reconnectMin else doubleDelay (st.wait cfg res) cfg.reconnectMax) = _
  rw [if_neg (by simp [hev]), hwait]
  exact doubleDelay_eq hpos h.le hcfg.int64

/-- After a connection with an event or a retry field, doubling starts at its wait. -/
theorem nextDelay_of_not_plain (hres : res.plain = false) :
    st.nextDelay cfg res = st.wait cfg res := by
  cases hretry : res.retry with
  | some retry => rw [nextDelay, hretry]
  | none =>
      have hev : res.gotEvent = true := by simpa [ConnResult.plain, hretry] using hres
      rw [wait_of_event hretry hev, nextDelay, hretry]
      exact if_pos hev

theorem Bounded.after (hcfg : cfg.Paces) (h : st.Bounded cfg) (res : ConnResult) :
    (st.after cfg res).Bounded cfg := by
  have hpos := hcfg.pos
  have hle := hcfg.le
  have hge := h.ge
  cases hres : res.plain with
  | true =>
      have hdelay : (st.after cfg res).delay = min cfg.reconnectMax (st.delay * 2) :=
        nextDelay_of_plain hcfg h hres
      constructor
      · rw [hdelay]
        omega
      · rw [hdelay]
        omega
  | false =>
      have hdelay : (st.after cfg res).delay = st.wait cfg res := nextDelay_of_not_plain hres
      constructor
      · rw [hdelay]
        exact (h.wait hcfg res).1
      · rw [hdelay]
        exact (h.wait hcfg res).2

theorem Bounded.foldl (hcfg : cfg.Paces) (h : st.Bounded cfg) (outcomes : List ConnResult) :
    (outcomes.foldl (StreamState.after cfg) st).Bounded cfg := by
  induction outcomes generalizing st with
  | nil => exact h
  | cons res rest ih => exact ih (h.after hcfg res)

/-- A run of plain connections doubles the delay that it starts with. -/
theorem waits_of_plain (hcfg : cfg.Paces) (h : st.Bounded cfg) {plains : List ConnResult}
    (hplain : ∀ res ∈ plains, res.plain = true) :
    st.waits cfg plains =
      (List.range plains.length).map fun j => min cfg.reconnectMax (st.delay * 2 ^ j) := by
  induction plains generalizing st with
  | nil => rfl
  | cons res rest ih =>
      have hres := hplain res List.mem_cons_self
      have hrest := fun r hr => hplain r (List.mem_cons_of_mem res hr)
      have hdelay : (st.after cfg res).delay = min cfg.reconnectMax (st.delay * 2) :=
        nextDelay_of_plain hcfg h hres
      rw [waits, ih (h.after hcfg res) hrest, List.length_cons, List.range_succ_eq_map, List.map_cons,
        List.map_map, wait_of_plain hres, pow_zero, mul_one, min_eq_right h.le, hdelay]
      congr 1
      apply List.map_congr_left
      intro j _
      exact min_doubled (lt_of_lt_of_le hcfg.pos hcfg.le) j

/-- The delay that a run of plain connections starts with: the wait before it where the server asked
for it, and the least wait otherwise. -/
def runBase (cfg : ClientConfig) (st : StreamState) (before : List ConnResult) : ℤ :=
  if (before.getLast?.bind ConnResult.retry).isSome then
    (st.waits cfg before).getLast?.getD cfg.reconnectMin
  else cfg.reconnectMin

theorem foldl_delay {before : List ConnResult} (hlast : ∀ res ∈ before.getLast?, res.plain = false) :
    (before.foldl (after cfg) (initial cfg)).delay = runBase cfg (initial cfg) before := by
  rcases List.eq_nil_or_concat before with rfl | ⟨front, res, rfl⟩
  · rfl
  · have hres : res.plain = false := hlast res (by simp)
    rw [List.concat_eq_append, List.foldl_append, runBase, waits_append]
    show nextDelay cfg _ res = _
    rw [nextDelay_of_not_plain hres]
    simp only [List.getLast?_append, List.getLast?_singleton, Option.some_or, Option.bind_some, waits]
    cases hretry : res.retry with
    | some retry => rfl
    | none =>
        have hev : res.gotEvent = true := by simpa [ConnResult.plain, hretry] using hres
        exact wait_of_event hretry hev

theorem exists_of_mem_zip_waits (hcfg : cfg.Paces) (h : st.Bounded cfg) {outcomes : List ConnResult}
    {w : ℤ} (hmem : (res, w) ∈ outcomes.zip (st.waits cfg outcomes)) :
    ∃ st' : StreamState, st'.Bounded cfg ∧ w = st'.wait cfg res := by
  induction outcomes generalizing st with
  | nil => cases hmem
  | cons first rest ih =>
      rw [waits, List.zip_cons_cons] at hmem
      rcases List.mem_cons.mp hmem with heq | hrest
      · obtain ⟨rfl, rfl⟩ := Prod.mk.inj heq
        exact ⟨st, h, rfl⟩
      · exact ih (h.after hcfg first) hrest

/-- Every wait is within the bounds; a retry field and an event set it, and in a run of connections
with neither it doubles from the first one on, up to the greatest delay. The waits of every call of
`Stream` are such waits. -/
theorem reconnect_pacing (hcfg : cfg.Paces) (outcomes : List ConnResult) :
    ((initial cfg).waits cfg outcomes).length = outcomes.length ∧
      (∀ res w, (res, w) ∈ outcomes.zip ((initial cfg).waits cfg outcomes) →
        (cfg.reconnectMin ≤ w ∧ w ≤ cfg.reconnectMax) ∧
        (∀ retry, res.retry = some retry →
          w = max cfg.reconnectMin (min cfg.reconnectMax retry)) ∧
        (res.retry = none → res.gotEvent = true → w = cfg.reconnectMin)) ∧
      (∀ before plains rest, outcomes = before ++ plains ++ rest →
        (∀ res ∈ plains, res.plain = true) → (∀ res ∈ before.getLast?, res.plain = false) →
          (((initial cfg).waits cfg outcomes).drop before.length).take plains.length =
            (List.range plains.length).map fun j =>
              min cfg.reconnectMax (runBase cfg (initial cfg) before * 2 ^ j)) ∧
      ∀ attempts, ((initial cfg).connections cfg attempts).map Prod.snd =
        (initial cfg).waits cfg (((initial cfg).connections cfg attempts).map Prod.fst) := by
  have hinit := initial_bounded hcfg
  refine ⟨length_waits _ outcomes, fun res w hmem => ?_,
    fun before plains rest hsplit hplain hlast => ?_, connections_waits (initial cfg)⟩
  · obtain ⟨st, hst, rfl⟩ := exists_of_mem_zip_waits hcfg hinit hmem
    exact ⟨hst.wait hcfg res, fun retry hretry => wait_of_retry hcfg hretry, wait_of_event⟩
  · have hrun := waits_of_plain hcfg (hinit.foldl hcfg before) hplain
    rw [foldl_delay hlast] at hrun
    rw [hsplit, waits_append, waits_append, List.append_assoc, ← hrun,
      List.drop_left' (length_waits _ before), List.take_left' (length_waits _ plains)]

/-- The greatest retry value wraps around to a negative delay, and the connections after it start
again at the least wait. -/
theorem reconnect_pacing_wrapped :
    millis 9223372036854775807 = -1000000 ∧
      (((initial ⟨1048576, 500, 3000⟩).waits ⟨1048576, 500, 3000⟩
          [⟨none, false, some (millis 9223372036854775807), []⟩, keepPosition [], keepPosition [],
            keepPosition []]).drop 1).take 3 =
        (List.range 3).map fun j => min 3000 (500 * 2 ^ j) :=
  ⟨rfl, (@reconnect_pacing ⟨1048576, 500, 3000⟩ ⟨by decide, by decide, by decide⟩ _).2.2.1
    [⟨none, false, some (millis 9223372036854775807), []⟩]
    [keepPosition [], keepPosition [], keepPosition []] [] rfl (by decide) (by simp [ConnResult.plain])⟩

end StreamState

end Msgin.Http
