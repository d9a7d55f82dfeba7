import Msgin.SseStart

/-!
# The connections of a session

What the steps of the hub keep of the connection of the client, and what the client is left with
when it is cut: the first of the events that the connection was due, and where the cut is clean, as
its position the id of the last of them.
-/

namespace Msgin.Http

open TransitionRuns ReplayWindow

variable {cfg : ServerConfig} {ccfg : ClientConfig} {sent frames : List SentFrame} {conn : SSEConn}
  {s : SSEServer} {sent' : List SentFrame} {c : ℕ}

theorem HubStep.sent_grows {t : SSEServer} {l : HubLabel} (h : HubStep cfg s l t) :
    s.sent <+: t.sent := by
  cases h with
  | sends hl hf hopen => exact List.prefix_append _ _
  | idle => exact List.prefix_rfl
  | joins hc hr => exact List.prefix_rfl
  | advances hc hadv => exact List.prefix_rfl
  | cancels c closing => exact List.prefix_rfl
  | leaves hc hret => exact List.prefix_rfl
  | closes => exact List.prefix_rfl

theorem offer_joined (f : SentFrame) :
    (conn.offer cfg f).joined = conn.joined ∧ (conn.offer cfg f).lastEventID = conn.lastEventID := by
  unfold SSEConn.offer
  split
  · exact ⟨rfl, rfl⟩
  · cases cfg.slowClientPolicy <;> exact ⟨rfl, rfl⟩

theorem cancelConn_joined {d : ℕ} (h : s.conns d = some conn) :
    ∃ conn', (s.cancelConn c).conns d = some conn' ∧ conn'.joined = conn.joined ∧
      conn'.lastEventID = conn.lastEventID := by
  by_cases hd : d = c
  · subst hd
    refine ⟨{ conn with cancelled := true }, ?_, rfl, rfl⟩
    simp [SSEServer.cancelConn, h]
  · refine ⟨conn, ?_, rfl, rfl⟩
    simp [SSEServer.cancelConn, hd, h]

theorem HubStep.conn_kept {t : SSEServer} {l : HubLabel} (h : HubStep cfg s l t)
    (hc : s.conns c = some conn) :
    ∃ conn', t.conns c = some conn' ∧ conn'.joined = conn.joined ∧
      conn'.lastEventID = conn.lastEventID := by
  cases h with
  | idle => exact ⟨conn, hc, rfl, rfl⟩
  | @joins d r hd hr =>
      refine ⟨conn, KeyedMaps.update_eq_some.mpr (.inr ⟨?_, hc⟩), rfl, rfl⟩
      rintro rfl
      rw [hd] at hc
      cases hc
  | @sends f hl hf hopen =>
      by_cases hreg : c ∈ s.registered
      · refine ⟨conn.offer cfg f, ?_, offer_joined f⟩
        simp [SSEServer.broadcast, hreg, hc]
      · refine ⟨conn, ?_, rfl, rfl⟩
        simp [SSEServer.broadcast, hreg, hc]
  | @advances d conn₀ conn' hd hadv =>
      by_cases hcd : c = d
      · subst hcd
        obtain rfl : conn₀ = conn := Option.some.inj (hd.symm.trans hc)
        exact ⟨conn', KeyedMaps.update_eq_some.mpr (.inl ⟨rfl, rfl⟩), hadv.joined, hadv.lastEventID⟩
      · exact ⟨conn, KeyedMaps.update_eq_some.mpr (.inr ⟨hcd, hc⟩), rfl, rfl⟩
  | cancels d closing => exact cancelConn_joined hc
  | leaves hd hret => exact cancelConn_joined hc
  | closes => exact ⟨conn, hc, rfl, rfl⟩

theorem take_of_prefix {j : ℕ} (h : sent <+: sent') (hj : j ≤ sent.length) :
    sent'.take j = sent.take j := by
  obtain ⟨rest, rfl⟩ := h
  exact List.take_append_of_le_length hj

theorem ClientConn.grow {conn' : SSEConn} (h : ClientConn cfg sent frames conn)
    (hgrow : sent <+: sent') (hj : conn.joined ≤ sent.length) (hjoined : conn'.joined = conn.joined)
    (hlast : conn'.lastEventID = conn.lastEventID) (hmissed : conn'.missed = []) :
    ClientConn cfg sent' frames conn' where
  missed := hmissed
  position := hlast.trans h.position
  ring := by
    rw [hjoined, take_of_prefix hgrow hj]
    exact h.ring

theorem SSEConn.events_writes (conn : SSEConn) :
    conn.writes.filterMap Written.sent = conn.events ++ conn.stage.inFlight := by
  unfold SSEConn.writes
  rw [List.filterMap_append]
  cases conn.stage with
  | ready => rfl
  | writing w => cases w <;> rfl
  | returned failed =>
      cases failed with
      | none => rfl
      | some write =>
          obtain ⟨w, n⟩ := write
          cases w <;> rfl

theorem SSEConn.bytes_writes (conn : SSEConn) : conn.bytes <+: conn.writes.flatMap Written.bytes := by
  unfold SSEConn.bytes SSEConn.writes
  rw [List.flatMap_append]
  refine (List.prefix_append_right_inj _).mpr ?_
  cases conn.stage with
  | ready => exact List.prefix_rfl
  | writing w =>
      rw [List.flatMap_singleton]
  | returned failed =>
      cases failed with
      | none => exact List.prefix_rfl
      | some write =>
          obtain ⟨w, n⟩ := write
          rw [List.flatMap_singleton]
          exact List.take_prefix n w.bytes

theorem Session.attempt_replied (s : Session) (reply : Reply) (events : List SentFrame)
    (hterm : (connect ccfg s.st.lastEventID (replied reply)).2.terminal = none) :
    ∃ delay, s.attempt ccfg (replied reply) events =
      some
        { s with
          st := ⟨delay, (connect ccfg s.st.lastEventID (replied reply)).2.lastEventID⟩
          conn := none
          emitted := s.emitted ++ (connect ccfg s.st.lastEventID (replied reply)).1
          frames := s.frames ++
            events.take (connect ccfg s.st.lastEventID (replied reply)).1.length } := by
  have hturn : s.st.turn ccfg (replied reply) =
      .goOn ⟨s.st.nextDelay ccfg (connect ccfg s.st.lastEventID (replied reply)).2,
        (connect ccfg s.st.lastEventID (replied reply)).2.lastEventID⟩ := by
    simp only [StreamState.turn, hterm]
    rfl
  refine ⟨s.st.nextDelay ccfg (connect ccfg s.st.lastEventID (replied reply)).2, ?_⟩
  unfold Session.attempt
  rw [hturn]

/-- Of a clean cut the client keeps the id of the last whole event. -/
theorem CutPosition.eq_lastId {written : List Written} {n : ℕ} {position : Bytes}
    (h : CutPosition written n position)
    (hclean : ∀ f ∈ written[(wholeWrites written n).1.length]?.bind Written.sent,
      (wholeWrites written n).2 ≤ (idLabel ++ f.id).length) :
    position = lastId ((wholeWrites written n).1.filterMap Written.sent) := by
  rcases h with hlast | ⟨f, ⟨rest, hnext⟩, hlt, -⟩
  · exact hlast
  · refine absurd (hclean f ?_) (Nat.not_le.mpr hlt)
    rw [List.append_assoc, List.singleton_append] at hnext
    have hget : written[(wholeWrites written n).1.length]? = some (.event f) := by
      nth_rewrite 1 [← hnext]
      simp
    rw [hget]
    rfl

theorem lastId_append (hlast : sent ≠ [] ∨ frames = []) : lastId sent = lastId (frames ++ sent) := by
  rcases hlast with hsent | rfl
  · have hmap : sent.map SentFrame.id ≠ [] := fun h => hsent (List.map_eq_nil_iff.mp h)
    rw [lastId, lastId, List.map_append, List.getLast?_append_of_ne_nil _ hmap]
  · rfl

theorem SessionInv.cut {s t : Session} (hinv : SessionInv cfg s)
    (hfits : ∀ f ∈ s.hub.sent, f.fits ccfg.maxEventBytes = true) (hc : s.conn = some c)
    (hconn : s.hub.conns c = some conn) {n : ℕ} {readErr : ReadErr}
    (h : s.step cfg ccfg (.cut n readErr) = some t) (hclean : s.CleanCut (.cut n readErr)) :
    SessionInv cfg t := by
  obtain ⟨conn', hconn', hclient⟩ := hinv.conn c hc
  obtain rfl : conn' = conn := Option.some.inj (hconn'.symm.trans hconn)
  obtain ⟨i, hframes⟩ := hinv.frames
  obtain ⟨j, hdue⟩ := hclient.due_append hinv.hub.numbered hinv.ids hframes
  have hwrites : s.frames ++ conn'.writes.filterMap Written.sent <+: s.hub.sent.drop j := by
    rw [conn'.events_writes, ← hdue]
    exact (List.prefix_append_right_inj _).mpr (hinv.hub.conn c conn' hconn).written
  have hsent : ∀ f ∈ conn'.writes.filterMap Written.sent, f ∈ s.hub.sent := fun f hf =>
    List.mem_of_mem_drop (hwrites.subset (List.mem_append_right _ hf))
  have hbody := (List.take_prefix n conn'.bytes).trans conn'.bytes_writes
  obtain ⟨hterm, hevents, hposition⟩ :=
    connect_cut (fun f hf => hinv.ids.nonempty f (hsent f hf)) (fun f hf => hfits f (hsent f hf))
      hbody s.st.lastEventID readErr
  obtain ⟨-, -, -, hpre, -⟩ := bodyLines_cut hbody
  have hwhole := hpre.filterMap Written.sent
  have htake := (List.prefix_iff_eq_take.mp hwhole).symm
  obtain ⟨hid, hsome⟩ := hclean conn' (Option.bind_eq_some_iff.mpr ⟨c, hc, hconn⟩)
  obtain ⟨delay, hattempt⟩ := s.attempt_replied _ (conn'.writes.filterMap Written.sent) hterm
  rw [hevents, List.length_map, htake] at hattempt
  simp only [Session.step, hc, Option.bind_some, hconn] at h
  obtain rfl := Option.some.inj (hattempt.symm.trans h)
  refine ⟨hinv.hub, hinv.ids, ?_, ⟨j, ?_⟩, ?_, fun _ hc => by cases hc⟩
  · rw [List.map_append, ← hinv.emitted]
  · exact ((List.prefix_append_right_inj _).mpr hwhole).trans hwrites
  · refine (hposition.eq_lastId hid).trans (lastId_append (hsome.imp_right fun hnone => ?_))
    rw [hinv.emitted] at hnone
    exact List.map_eq_nil_iff.mp hnone

end Msgin.Http
