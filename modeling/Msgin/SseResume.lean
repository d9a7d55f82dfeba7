import Msgin.SsePosition
import Msgin.SseSessionCut

/-!
# Resuming a stream

Over the runs of a session the client presents the id of the event that it emitted last, as long as
the transport leaves the ids as they are and every cut is clean. Each connection then goes on where
the one before it was cut, so that the client misses no event and repeats none.
-/

namespace Msgin.Http

open TransitionRuns ReplayWindow

variable {cfg : ServerConfig} {ccfg : ClientConfig} {sent frames : List SentFrame} {conn : SSEConn}

inductive SessionStep (cfg : ServerConfig) (ccfg : ClientConfig) (s : Session) :
    SessionLabel → Session → Prop
  | hub {l : HubLabel} {hub' : SSEServer} (h : HubStep cfg s.hub l hub') :
      SessionStep cfg ccfg s (.hub l) { s with hub := hub' }
  | joins {c : ℕ} (hc : s.hub.conns c = none) (hr : s.hub.refusal cfg s.request = none) :
      SessionStep cfg ccfg s (.connect c)
        { s with
          hub :=
            { s.hub with
              conns := Function.update s.hub.conns c (some (s.hub.newConn cfg s.request))
              registered := insert c s.hub.registered }
          conn := some c }
  | waits {l : SessionLabel} {delay : ℤ} :
      SessionStep cfg ccfg s l { s with st := ⟨delay, s.st.lastEventID⟩, conn := none }
  | cuts {n : ℕ} {readErr : ReadErr} {c : ℕ} {conn : SSEConn} {t : Session} (hc : s.conn = some c)
      (hconn : s.hub.conns c = some conn) (h : s.step cfg ccfg (.cut n readErr) = some t) :
      SessionStep cfg ccfg s (.cut n readErr) t

theorem classify_of_refusal {s : SSEServer} {r : StreamRequest} {resp : Refusal}
    (h : s.refusal cfg r = some resp) : classifySSEResponse resp.status none = .reconnect := by
  unfold SSEServer.refusal at h
  split at h
  · obtain rfl := Option.some.inj h
    rfl
  · split at h
    · obtain rfl := Option.some.inj h
      rfl
    · split at h
      · obtain rfl := Option.some.inj h
        rfl
      · split at h
        · obtain rfl := Option.some.inj h
          rfl
        · cases h

variable {s t : Session} {l : SessionLabel}

theorem sessionStep_attempt {reply : Reply}
    (hconnect : connect ccfg s.st.lastEventID (replied reply) = ([], keepPosition s.st.lastEventID))
    (h : s.attempt ccfg (replied reply) [] = some t) : SessionStep cfg ccfg s l t := by
  obtain ⟨delay, hattempt⟩ := s.attempt_replied reply [] (by rw [hconnect]; rfl)
  rw [hconnect, List.append_nil, List.take_nil, List.append_nil] at hattempt
  obtain rfl := Option.some.inj (hattempt.symm.trans h)
  exact .waits

theorem sessionStep_of_step (h : s.step cfg ccfg l = some t) : SessionStep cfg ccfg s l t := by
  cases l with
  | hub l =>
      obtain ⟨hub', hhub, rfl⟩ := Option.map_eq_some_iff.mp h
      exact .hub (hubStep_of_step hhub)
  | connect c =>
      obtain ⟨⟨-, hc⟩, h⟩ := Option.ite_none_right_eq_some.mp h
      split at h
      · exact sessionStep_attempt rfl h
      · cases hr : s.hub.refusal cfg s.request with
        | some resp =>
            rw [hr] at h
            refine sessionStep_attempt ?_ h
            simp only [connect, replied, classify_of_refusal hr]
        | none =>
            rw [hr] at h
            obtain rfl := Option.some.inj h
            rw [SSEServer.serveHTTP, hr]
            exact .joins (Option.isNone_iff_eq_none.mp hc) hr
  | fail =>
      obtain ⟨-, h⟩ := Option.ite_none_right_eq_some.mp h
      exact sessionStep_attempt rfl h
  | cut n readErr =>
      have hbind := h
      obtain ⟨conn, hconn, -⟩ := Option.bind_eq_some_iff.mp hbind
      obtain ⟨c, hc, hconn⟩ := Option.bind_eq_some_iff.mp hconn
      exact .cuts hc hconn h

theorem sessionInv_new (cfg : ServerConfig) (ccfg : ClientConfig) : SessionInv cfg (.new ccfg) where
  hub := hubInv_new cfg
  ids := ⟨List.nodup_nil, fun _ hf => by cases hf⟩
  emitted := rfl
  frames := ⟨0, List.nil_prefix⟩
  position := rfl
  conn := fun _ hc => by cases hc

theorem SessionInv.mem_sent (hinv : SessionInv cfg s) {g : SentFrame} (hg : g ∈ s.frames.getLast?) :
    g ∈ s.hub.sent := by
  obtain ⟨i, hframes⟩ := hinv.frames
  exact List.mem_of_mem_drop (hframes.subset (List.mem_of_getLast? hg))

theorem request_lastEventID (hinv : SessionInv cfg s)
    (hids : ∀ f ∈ s.hub.sent, trimBlanks f.id = f.id) :
    s.request.lastEventID = lastId s.frames := by
  rw [Session.request, hinv.position]
  rcases lastId_eq_nil_or s.frames with ⟨-, hnil⟩ | ⟨g, hg, hlast⟩
  · rw [hnil]
    rfl
  · have hne : g.id ≠ [] := hinv.ids.nonempty g (hinv.mem_sent hg)
    rw [hlast, lastEventIDHeader, if_pos hne]
    exact hids g (hinv.mem_sent hg)

theorem clientConn_new (hinv : SessionInv cfg s) (hring : RingHolds s)
    (hids : ∀ f ∈ s.hub.sent, trimBlanks f.id = f.id) :
    ClientConn cfg s.hub.sent s.frames (s.hub.newConn cfg s.request) := by
  refine ⟨rfl, request_lastEventID hinv hids, fun g hg => ?_⟩
  have hlast : g.event.received ∈ s.emitted.getLast? := by
    have hlast : s.frames.getLast? = some g := hg
    rw [hinv.emitted, List.getLast?_map, hlast]
    rfl
  have htake : s.hub.sent.take (s.hub.newConn cfg s.request).joined = s.hub.sent :=
    List.take_length
  rw [htake, ← hinv.hub.ring]
  exact hring _ hlast g (hinv.mem_sent hg) rfl g (hinv.mem_sent hg) le_rfl

theorem attempt_hub {a : Attempt} {events : List SentFrame} (h : s.attempt ccfg a events = some t) :
    t.hub = s.hub := by
  unfold Session.attempt at h
  split at h
  · cases h
  · obtain rfl := Option.some.inj h
    rfl

theorem SessionInv.step (hinv : SessionInv cfg s) (h : SessionStep cfg ccfg s l t)
    (hh : Healthy ccfg s l t) (hresumable : Resumable s l t) : SessionInv cfg t := by
  cases h with
  | @hub l hub' hstep =>
      obtain ⟨i, hframes⟩ := hinv.frames
      refine ⟨hinv.hub.step hstep, hh.ids, hinv.emitted,
        ⟨i, hframes.trans (hstep.sent_grows.drop i)⟩, hinv.position, ?_⟩
      intro c hc
      obtain ⟨conn, hconn, hclient⟩ := hinv.conn c hc
      obtain ⟨conn', hconn', hjoined, hlast⟩ := hstep.conn_kept hconn
      have hopen : conn' ∈ s.conn.bind hub'.conns :=
        Option.bind_eq_some_iff.mpr ⟨c, hc, hconn'⟩
      exact ⟨conn', hconn', hclient.grow hstep.sent_grows (hinv.hub.conn c conn hconn).joined hjoined
        hlast (hh.kept conn' hopen)⟩
  | @joins c hc hr =>
      refine ⟨hinv.hub.step (l := .serve c s.request) (.joins hc hr), hinv.ids, hinv.emitted, hinv.frames,
        hinv.position, ?_⟩
      intro d hd
      obtain rfl : c = d := Option.some.inj hd
      have hclient := clientConn_new hinv (hh.ring rfl) hresumable.ids
      exact ⟨_, KeyedMaps.update_eq_some.mpr (.inl ⟨rfl, rfl⟩), hclient⟩
  | waits => exact ⟨hinv.hub, hinv.ids, hinv.emitted, hinv.frames, hinv.position,
      fun _ hc => by cases hc⟩
  | cuts hc hconn hcut =>
      have hhub : t.hub = s.hub := by
        have hattempt := hcut
        simp only [Session.step, hc, Option.bind_some, hconn] at hattempt
        exact attempt_hub hattempt
      exact hinv.cut (hhub ▸ hh.fits) hc hconn hcut hresumable.cut

/-- Where the ids have no outer blanks and every cut is clean, the events that the client emits are
the events sent from the first of them on. -/
theorem run_resumes {s : Session} {ls : List SessionLabel}
    (hr : run (Session.step cfg ccfg) (.new ccfg) ls = some s)
    (hh : Along (Session.step cfg ccfg) (Healthy ccfg) (.new ccfg) ls)
    (hresumable : Along (Session.step cfg ccfg) Resumable (.new ccfg) ls) : s.Contiguous := by
  have hinv : SessionInv cfg s := run_invariant_of_along (Session.step cfg ccfg)
    (fun _ _ _ h hstep hboth => h.step (sessionStep_of_step hstep) hboth.1 hboth.2)
    (sessionInv_new cfg ccfg) (Along.and (Session.step cfg ccfg) hh hresumable) hr
  obtain ⟨i, hframes⟩ := hinv.frames
  refine ⟨i, ?_⟩
  rw [hinv.emitted]
  exact hframes.map _

def roomyServer : ServerConfig := ⟨4, 4, 4, false, .drop, [], by decide⟩

def cutAfterEvent : List SessionLabel :=
  [.connect 0, .hub (.send (oneByte 65)), .hub (.take 0), .hub (.write 0 none), .cut 20 .eof,
    .connect 1, .hub (.send (oneByte 66)), .hub (.take 1), .hub (.write 1 none), .cut 20 .eof]

theorem run_resumes_cutAfterEvent :
    ∃ s, run (Session.step roomyServer defaultClient) (.new defaultClient) cutAfterEvent = some s ∧
      s.emitted.map SSEEvent.id = [[65], [66]] ∧ s.Contiguous := by
  obtain ⟨s, hr, hemitted⟩ : ∃ s, run (Session.step roomyServer defaultClient) (.new defaultClient)
      cutAfterEvent = some s ∧ s.emitted.map SSEEvent.id = [[65], [66]] := ⟨_, rfl, rfl⟩
  exact ⟨s, hr, hemitted, run_resumes hr (by decide +kernel) (by decide +kernel)⟩

theorem Session.Contiguous.ids (h : s.Contiguous) :
    ∃ i, s.emitted.map SSEEvent.id <+: (s.hub.sent.map SentFrame.id).drop i := by
  obtain ⟨i, hi⟩ := h
  have hmap := hi.map SSEEvent.id
  have hids : (s.hub.sent.map SentFrame.id).drop i =
      ((s.hub.sent.drop i).map fun f => f.event.received).map SSEEvent.id := by
    rw [← List.map_drop, List.map_map]
    rfl
  exact ⟨i, hids ▸ hmap⟩

def cutAfterId : List SessionLabel :=
  [.connect 0, .hub (.send (oneByte 65)), .hub (.take 0), .hub (.write 0 none),
    .hub (.send (oneByte 66)), .hub (.take 0), .cut 21 .eof, .connect 1,
    .hub (.send (oneByte 67)), .hub (.take 1), .hub (.write 1 none), .cut 20 .eof]

theorem cutAfterId_skips :
    ∃ s, run (Session.step roomyServer defaultClient) (.new defaultClient) cutAfterId = some s ∧
      Along (Session.step roomyServer defaultClient) (Healthy defaultClient) (.new defaultClient)
        cutAfterId ∧
      s.hub.sent.map SentFrame.id = [[65], [66], [67]] ∧
      s.emitted.map SSEEvent.id = [[65], [67]] ∧ ¬s.Contiguous := by
  have hh : Along (Session.step roomyServer defaultClient) (Healthy defaultClient)
      (.new defaultClient) cutAfterId := by decide +kernel
  obtain ⟨s, hr, hsent, hemitted⟩ : ∃ s, run (Session.step roomyServer defaultClient)
      (.new defaultClient) cutAfterId = some s ∧
      s.hub.sent.map SentFrame.id = [[65], [66], [67]] ∧
      s.emitted.map SSEEvent.id = [[65], [67]] := ⟨_, rfl, rfl, rfl⟩
  refine ⟨s, hr, hh, hsent, hemitted, fun h => ?_⟩
  obtain ⟨i, hi⟩ := h.ids
  rw [hsent, hemitted] at hi
  rcases i with _ | _ | i
  · exact absurd hi (by decide)
  · exact absurd hi (by decide)
  · have hlength := hi.length_le
    simp only [List.length_drop, List.length_cons, List.length_nil] at hlength
    omega

end Msgin.Http
