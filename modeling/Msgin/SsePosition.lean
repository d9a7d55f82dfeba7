import Msgin.SseClient

/-!
# The resume position across reconnects

The parser of a connection starts with an empty id buffer, and the resume position after a
connection is what its parser ends with. So the requests carry the last id that was received exactly
if no stream without an id field comes between it and the next attempt.
-/

namespace Msgin.Http

open StreamState

variable {cfg : ClientConfig}

theorem readLoop_room {maxEventBytes turns : ℕ} {room : Option ℕ} {p : SSEParser}
    (h : (readLoop maxEventBytes turns room p).1.2 = false) :
    readLoop maxEventBytes turns room p = readLoop maxEventBytes turns none p := by
  induction turns generalizing room p with
  | zero => rfl
  | succ turns ih =>
      unfold readLoop at h ⊢
      cases hr : next maxEventBytes p with
      | mk res p' =>
          rw [hr] at h
          cases res with
          | error err => rfl
          | ok ev =>
              by_cases hroom : room = some 0
              · simp only [if_pos hroom] at h
                cases h
              · simp only [if_neg hroom] at h
                simp only [if_neg hroom, reduceCtorEq, if_false, Option.map_none, ih h]

variable {a : Attempt} {past : List Bytes} {st st' : StreamState} {attempts : List Attempt}
  {headers : List (Option Bytes)}

theorem readEvents_position {body : Bytes} (readErr : ReadErr)
    (hcap : Buffers.empty.withinCap cfg.maxEventBytes (streamLines body) = true)
    (h : (readEvents cfg a body readErr).2.terminal = none) :
    (readEvents cfg a body readErr).2.lastEventID =
      ((streamLines body).filterMap idOf).getLast?.getD [] := by
  have hloop : (readAll cfg.maxEventBytes a.room (newSSEParserWithCap body readErr)).1.2 = false := by
    rw [← Bool.not_eq_true]
    intro hdone
    simp only [readEvents, hdone, if_true, reduceCtorEq] at h
  obtain ⟨p, hp, hid, -⟩ :=
    readLoop_spec (p := newSSEParserWithCap body readErr) (Nat.lt_succ_self _) hcap
  have hall : readAll cfg.maxEventBytes a.room (newSSEParserWithCap body readErr) = _ :=
    (readLoop_room hloop).trans hp
  simp only [readEvents, hall, Bool.false_eq_true, if_false]
  exact hid.trans (Buffers.feedAll_id _ _)

theorem connect_position {lastEventID : Bytes} (hcap : a.withinCap cfg = true)
    (h : (connect cfg lastEventID a).2.terminal = none) :
    (connect cfg lastEventID a).2.lastEventID =
      a.stream.elim lastEventID fun _ => a.ids.getLast?.getD [] := by
  unfold connect at h ⊢
  unfold Attempt.withinCap at hcap
  unfold Attempt.ids
  unfold Attempt.stream at hcap ⊢
  cases hreply : a.reply with
  | failed => rfl
  | response status mediaType body readErr =>
      simp only [hreply] at h hcap ⊢
      cases hclass : classifySSEResponse status mediaType with
      | stream =>
          simp only [hclass] at h hcap
          exact readEvents_position readErr hcap h
      | done =>
          simp only [hclass] at h
          cases h
      | wrongType =>
          simp only [hclass] at h
          cases h
      | reconnect => rfl

theorem turn_position (hcap : a.withinCap cfg = true) (h : st.turn cfg a = .goOn st') :
    st'.lastEventID = a.stream.elim st.lastEventID fun _ => a.ids.getLast?.getD [] := by
  unfold StreamState.turn at h
  cases hterm : (connect cfg st.lastEventID a).2.terminal with
  | some err =>
      simp only [hterm] at h
      cases h
  | none =>
      simp only [hterm] at h
      split at h
      · cases h
      · obtain rfl := TurnEnd.goOn.inj h
        exact connect_position hcap hterm

theorem resumeHeader_append {ids : List Bytes} (h : ids ≠ []) :
    resumeHeader (past ++ ids) = resumeHeader ids := by
  unfold resumeHeader
  rw [List.getLast?_append_of_ne_nil past h]

theorem lastEventIDHeader_getLast (ids : List Bytes) :
    lastEventIDHeader (ids.getLast?.getD []) = resumeHeader ids := by
  unfold lastEventIDHeader resumeHeader
  cases ids.getLast? with
  | none => rfl
  | some id =>
      by_cases hid : id = []
      · subst hid
        rfl
      · simp [hid, Option.filter]

theorem header_after_bare (hcap : a.withinCap cfg = true) (h : st.turn cfg a = .goOn st')
    (hbare : a.stream.isSome = true ∧ a.ids = []) : lastEventIDHeader st'.lastEventID = none := by
  obtain ⟨body, hbody⟩ := Option.isSome_iff_exists.mp hbare.1
  rw [turn_position hcap h, hbody, hbare.2]
  rfl

theorem header_after_turn (hcap : a.withinCap cfg = true) (h : st.turn cfg a = .goOn st')
    (hst : lastEventIDHeader st.lastEventID = resumeHeader past)
    (hbare : ¬(a.stream.isSome = true ∧ a.ids = [])) :
    lastEventIDHeader st'.lastEventID = resumeHeader (past ++ a.ids) := by
  rw [turn_position hcap h]
  cases hstream : a.stream with
  | none =>
      have hids : a.ids = [] := by rw [Attempt.ids, hstream]; rfl
      rw [hids, List.append_nil]
      exact hst
  | some body =>
      have hids : a.ids ≠ [] := fun hids => hbare ⟨by rw [hstream]; rfl, hids⟩
      rw [resumeHeader_append hids]
      exact lastEventIDHeader_getLast a.ids

/-- Every request carries the header that the ids received before it call for. -/
def FollowsIds (past : List Bytes) (headers : List (Option Bytes)) (attempts : List Attempt) : Prop :=
  ∀ k h, headers[k]? = some h → h = resumeHeader (past ++ (attempts.take k).flatMap Attempt.ids)

/-- A stream that is followed by another request brings an id, unless no id is held. -/
def StreamsBringIds (past : List Bytes) (headers : List (Option Bytes)) (attempts : List Attempt) :
    Prop :=
  ∀ k a, attempts[k]? = some a → k + 1 < headers.length → a.stream.isSome = true → a.ids = [] →
    resumeHeader (past ++ (attempts.take k).flatMap Attempt.ids) = none

theorem followsIds_cons {h : Option Bytes} (hh : h = resumeHeader past) :
    FollowsIds past (h :: headers) (a :: attempts) ↔ FollowsIds (past ++ a.ids) headers attempts := by
  constructor
  · intro hall k h' hk
    have hlaw := hall (k + 1) h' hk
    rwa [List.take_succ_cons, List.flatMap_cons, ← List.append_assoc] at hlaw
  · intro hall k h' hk
    cases k with
    | zero =>
        obtain rfl : h = h' := Option.some.inj hk
        rw [List.take_zero, List.flatMap_nil, List.append_nil]
        exact hh
    | succ k =>
        rw [List.take_succ_cons, List.flatMap_cons, ← List.append_assoc]
        exact hall k h' hk

theorem streamsBringIds_cons {h : Option Bytes} :
    StreamsBringIds past (h :: headers) (a :: attempts) ↔
      (headers ≠ [] → a.stream.isSome = true → a.ids = [] → resumeHeader past = none) ∧
        StreamsBringIds (past ++ a.ids) headers attempts := by
  constructor
  · intro hall
    refine ⟨fun hne hstream hids => ?_, fun k a' hk hlen hstream hids => ?_⟩
    · have hlen : 0 + 1 < (h :: headers).length := by
        rw [List.length_cons]
        exact Nat.succ_lt_succ (List.length_pos_of_ne_nil hne)
      have hlaw := hall 0 a rfl hlen hstream hids
      rwa [List.take_zero, List.flatMap_nil, List.append_nil] at hlaw
    · have hlaw := hall (k + 1) a' hk (by rw [List.length_cons]; omega) hstream hids
      rwa [List.take_succ_cons, List.flatMap_cons, ← List.append_assoc] at hlaw
  · rintro ⟨hfirst, hall⟩ k a' hk hlen hstream hids
    cases k with
    | zero =>
        obtain rfl : a = a' := Option.some.inj hk
        have hne : headers ≠ [] := by
          rintro rfl
          simp at hlen
        rw [List.take_zero, List.flatMap_nil, List.append_nil]
        exact hfirst hne hstream hids
    | succ k =>
        rw [List.take_succ_cons, List.flatMap_cons, ← List.append_assoc]
        exact hall k a' hk (by rw [List.length_cons] at hlen; omega) hstream hids

theorem followsIds_nil (past : List Bytes) (attempts : List Attempt) :
    FollowsIds past [] attempts := fun _ _ hk => by simp at hk

theorem streamsBringIds_nil (past : List Bytes) (attempts : List Attempt) :
    StreamsBringIds past [] attempts := fun _ _ _ hlen => by simp at hlen

theorem followsIds_iff_streamsBringIds (past : List Bytes)
    (hcap : ∀ a ∈ attempts, a.withinCap cfg = true)
    (hst : lastEventIDHeader st.lastEventID = resumeHeader past) :
    FollowsIds past (requests cfg st attempts) attempts ↔
      StreamsBringIds past (requests cfg st attempts) attempts := by
  induction attempts generalizing past st with
  | nil => exact ⟨fun _ => streamsBringIds_nil past [], fun _ => followsIds_nil past []⟩
  | cons a attempts ih =>
      rw [requests, followsIds_cons hst, streamsBringIds_cons]
      cases hturn : st.turn cfg a with
      | returned err =>
          simp only [followsIds_nil, streamsBringIds_nil, ne_eq, not_true_eq_false, false_imp_iff,
            and_self]
      | goOn st' =>
          have hfirst := hcap a List.mem_cons_self
          have hrest : ∀ a ∈ attempts, a.withinCap cfg = true := fun a ha =>
            hcap a (List.mem_cons_of_mem _ ha)
          simp only
          by_cases hbare : a.stream.isSome = true ∧ a.ids = []
          · have hnone := header_after_bare hfirst hturn hbare
            rw [hbare.2, List.append_nil]
            by_cases hpast : resumeHeader past = none
            · rw [ih past hrest (hnone.trans hpast.symm), and_iff_right fun _ _ _ => hpast]
            · cases attempts with
              | nil =>
                  simp only [requests, followsIds_nil, streamsBringIds_nil, ne_eq,
                    not_true_eq_false, false_imp_iff, and_self]
              | cons a' attempts =>
                  constructor
                  · intro hall
                    have hlaw := hall 0 _ rfl
                    rw [List.take_zero, List.flatMap_nil, List.append_nil, hnone] at hlaw
                    exact absurd hlaw.symm hpast
                  · intro hall
                    exact absurd (hall.1 (List.cons_ne_nil _ _) hbare.1 rfl) hpast
          · rw [ih _ hrest (header_after_turn hfirst hturn hst hbare),
              and_iff_right fun _ hstream hids => absurd ⟨hstream, hids⟩ hbare]

/-- Over every sequence of attempts: each request carries the value of the last id field received
before it, and no header if there was none or it was empty, exactly if no stream without an id field
that is followed by another attempt comes while an id is held. -/
theorem requests_follow_ids_iff {attempts : List Attempt}
    (hcap : ∀ a ∈ attempts, a.withinCap cfg = true) :
    (∀ k h, (requests cfg (initial cfg) attempts)[k]? = some h →
        h = resumeHeader ((attempts.take k).flatMap Attempt.ids)) ↔
      ∀ k a, attempts[k]? = some a → k + 1 < (requests cfg (initial cfg) attempts).length →
        a.stream.isSome = true → a.ids = [] →
        resumeHeader ((attempts.take k).flatMap Attempt.ids) = none :=
  followsIds_iff_streamsBringIds [] hcap rfl

def defaultClient : ClientConfig := ⟨1048576, 500000000, 30000000000⟩

def streamed (body : Bytes) : Attempt := replied (.response 200 (some "text/event-stream") body .eof)

def oneEvent (b : UInt8) : Bytes := frameBytes ⟨[b], [], [b]⟩

def reconnected : List Attempt :=
  [streamed (oneEvent 49), replied .failed, replied (.response 503 none [] .eof),
    streamed (oneEvent 50), replied .failed]

theorem requests_follow_ids_iff_reconnected :
    (∀ a ∈ reconnected, a.withinCap defaultClient = true) ∧
      ((∀ k h, (requests defaultClient (initial defaultClient) reconnected)[k]? = some h →
          h = resumeHeader ((reconnected.take k).flatMap Attempt.ids)) ↔
        ∀ k a, reconnected[k]? = some a →
          k + 1 < (requests defaultClient (initial defaultClient) reconnected).length →
          a.stream.isSome = true → a.ids = [] →
          resumeHeader ((reconnected.take k).flatMap Attempt.ids) = none) :=
  have hcap : ∀ a ∈ reconnected, a.withinCap defaultClient = true := by decide
  ⟨hcap, requests_follow_ids_iff hcap⟩

def heartbeatOnly : List Attempt :=
  [streamed (oneEvent 49), streamed [58, 32, 112, 105, 110, 103, 10, 10], replied .failed]

theorem heartbeatOnly_loses_position :
    (∀ a ∈ heartbeatOnly, a.withinCap defaultClient = true) ∧
      requests defaultClient (initial defaultClient) heartbeatOnly = [none, some [49], none] ∧
      resumeHeader ((heartbeatOnly.take 2).flatMap Attempt.ids) = some [49] ∧
      ¬∀ k h, (requests defaultClient (initial defaultClient) heartbeatOnly)[k]? = some h →
        h = resumeHeader ((heartbeatOnly.take k).flatMap Attempt.ids) := by
  refine ⟨by decide, rfl, rfl, fun hall => ?_⟩
  have hlaw : (none : Option Bytes) = some [49] := hall 2 none rfl
  cases hlaw

end Msgin.Http
