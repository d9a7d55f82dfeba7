import Msgin.SseHubInvariant

/-!
# Delivery of the hub

Over every run: the cap holds, the ring is exact, a connection writes a prefix of what it is due and
misses exactly the events whose `Send` found its buffer full, and nothing is enqueued once the server
is closed. A stream has no hole as long as no `Send` finds room on a connection that has missed an
event; cancelling the connection does not ensure this, as its writer may select another arm.
-/

namespace Msgin.Http

open ReplayWindow TransitionRuns

variable {cfg : ServerConfig} {sent : List SentFrame} {conn conn' : SSEConn} {s t : SSEServer}

theorem Numbered.pairwise (h : Numbered sent) : sent.Pairwise fun f g => f.number < g.number := by
  have hrange : (sent.map SentFrame.number).Pairwise (· < ·) := by
    rw [h]
    exact List.pairwise_lt_range
  exact List.pairwise_map.mp hrange

theorem resumed_sublist : (conn.resumed cfg sent).Sublist (sent.take conn.joined) := by
  have hring : (ringOf cfg (sent.take conn.joined)).Sublist (sent.take conn.joined) :=
    (List.drop_sublist _ _).trans List.filter_sublist
  exact (afterLast_suffix _ _).sublist.trans hring

theorem due_sublist : (conn.due cfg sent).Sublist sent := by
  have happend : (conn.due cfg sent).Sublist (sent.take conn.joined ++ sent.drop conn.joined) :=
    resumed_sublist.append List.filter_sublist
  rwa [List.take_append_drop] at happend

/-- A step of a closed server registers no connection and puts nothing in a buffer. -/
def NothingEnqueued (s : SSEServer) (_ : HubLabel) (t : SSEServer) : Prop :=
  s.closed = true →
    t.closed = true ∧ t.sent = s.sent ∧
      ∀ c conn', t.conns c = some conn' →
        ∃ conn, s.conns c = some conn ∧ conn'.frames <:+ conn.frames

theorem refusal_of_closed (h : s.closed = true) (r : StreamRequest) : s.refusal cfg r ≠ none := by
  intro hr
  unfold SSEServer.refusal at hr
  rw [if_pos h] at hr
  split at hr <;> cases hr

variable {l : HubLabel} {P : Prop} {c d : ℕ}

theorem frames_cancelConn (h : (s.cancelConn c).conns d = some conn') :
    ∃ conn, s.conns d = some conn ∧ conn'.frames <:+ conn.frames := by
  obtain ⟨conn, hconn, rfl | rfl⟩ := cancelConn_eq_some h
  · exact ⟨_, hconn, List.suffix_rfl⟩
  · exact ⟨conn, hconn, List.suffix_rfl⟩

theorem nothingEnqueued_of_hubStep (h : HubStep cfg s l t) : NothingEnqueued s l t := by
  intro hclosed
  cases h with
  | idle => exact ⟨hclosed, rfl, fun _ conn hc => ⟨conn, hc, List.suffix_rfl⟩⟩
  | joins hc hr => exact absurd hr (refusal_of_closed hclosed _)
  | sends hl hf hopen =>
      rw [hclosed] at hopen
      cases hopen
  | advances hc hadv =>
      refine ⟨hclosed, rfl, fun d conn' hd => ?_⟩
      rcases KeyedMaps.update_eq_some.mp hd with ⟨rfl, rfl⟩ | ⟨-, hd⟩
      · exact ⟨_, hc, hadv.frames⟩
      · exact ⟨conn', hd, List.suffix_rfl⟩
  | cancels c closing => exact ⟨hclosed, rfl, fun _ _ => frames_cancelConn⟩
  | leaves hc hret => exact ⟨hclosed, rfl, fun _ _ => frames_cancelConn⟩
  | closes => exact ⟨rfl, rfl, fun _ conn hc => ⟨conn, hc, List.suffix_rfl⟩⟩

/-- A connection misses an event exactly if it is registered and its buffer is full when the event
is sent. -/
def MissedIffFull (cfg : ServerConfig) (s : SSEServer) (_ : HubLabel) (t : SSEServer) : Prop :=
  ∀ c conn', t.conns c = some conn' →
    (s.conns c = none → conn'.missed = []) ∧
      ∀ conn, s.conns c = some conn → ∀ m, m ∈ conn'.missed ↔ m ∈ conn.missed ∨
        c ∈ s.registered ∧ conn.frames.length = cfg.connectionBuffer ∧
          ∃ f, t.sent = s.sent ++ [f] ∧ f.number = m

theorem missedIffFull_of_kept (hsent : t.sent = s.sent)
    (hkept : ∀ c conn', t.conns c = some conn' → s.conns c = none ∧ conn'.missed = [] ∨
      ∃ conn, s.conns c = some conn ∧ conn'.missed = conn.missed) : MissedIffFull cfg s l t := by
  intro c conn' hc'
  rcases hkept c conn' hc' with ⟨hnone, hmissed⟩ | ⟨conn, hc, hmissed⟩
  · refine ⟨fun _ => hmissed, fun conn hc => ?_⟩
    rw [hnone] at hc
    cases hc
  · refine ⟨fun hnone => ?_, fun conn₁ hc₁ m => ?_⟩
    · rw [hc] at hnone
      cases hnone
    · obtain rfl : conn = conn₁ := Option.some.inj (hc.symm.trans hc₁)
      simp [hsent, hmissed]

theorem cancelConn_missed (h : (s.cancelConn c).conns d = some conn') :
    s.conns d = none ∧ conn'.missed = [] ∨ ∃ conn, s.conns d = some conn ∧
      conn'.missed = conn.missed := by
  obtain ⟨conn, hconn, rfl | rfl⟩ := cancelConn_eq_some h
  · exact .inr ⟨_, hconn, rfl⟩
  · exact .inr ⟨conn, hconn, rfl⟩

theorem mem_missed_offer (h : conn.frames.length ≤ cfg.connectionBuffer) (f : SentFrame) (m : ℕ) :
    m ∈ (conn.offer cfg f).missed ↔
      m ∈ conn.missed ∨ conn.frames.length = cfg.connectionBuffer ∧ f.number = m := by
  unfold SSEConn.offer
  split
  · next hroom => simp [hroom.ne]
  · next hfull =>
      have heq : conn.frames.length = cfg.connectionBuffer := by omega
      cases cfg.slowClientPolicy <;> simp [heq, eq_comm]

theorem missedIffFull_broadcast (hinv : HubInv cfg s) (f : SentFrame) :
    MissedIffFull cfg s l (s.broadcast cfg f) := by
  intro c conn' hc'
  refine ⟨fun hnone => ?_, fun conn hc m => ?_⟩
  · simp [SSEServer.broadcast, hnone] at hc'
  · have hsent : (∃ g, (s.broadcast cfg f).sent = s.sent ++ [g] ∧ g.number = m) ↔ f.number = m := by
      simp [SSEServer.broadcast]
    rw [hsent]
    by_cases hreg : c ∈ s.registered
    · obtain rfl : conn.offer cfg f = conn' := by simpa [SSEServer.broadcast, hreg, hc] using hc'
      simpa [hreg] using mem_missed_offer (hinv.conn c conn hc).buffered f m
    · obtain rfl : conn = conn' := by simpa [SSEServer.broadcast, hreg, hc] using hc'
      simp [hreg]

theorem missedIffFull_of_hubStep (hinv : HubInv cfg s) (h : HubStep cfg s l t) :
    MissedIffFull cfg s l t := by
  cases h with
  | sends hl hf hopen => exact missedIffFull_broadcast hinv _
  | idle => exact missedIffFull_of_kept rfl fun c conn hc => .inr ⟨conn, hc, rfl⟩
  | joins hc hr =>
      refine missedIffFull_of_kept rfl fun d conn' hd => ?_
      rcases KeyedMaps.update_eq_some.mp hd with ⟨rfl, rfl⟩ | ⟨-, hd⟩
      · exact .inl ⟨hc, rfl⟩
      · exact .inr ⟨conn', hd, rfl⟩
  | advances hc hadv =>
      refine missedIffFull_of_kept rfl fun d conn' hd => ?_
      rcases KeyedMaps.update_eq_some.mp hd with ⟨rfl, rfl⟩ | ⟨-, hd⟩
      · exact .inr ⟨_, hc, hadv.missed⟩
      · exact .inr ⟨conn', hd, rfl⟩
  | cancels c closing => exact missedIffFull_of_kept rfl fun _ _ => cancelConn_missed
  | leaves hc hret => exact missedIffFull_of_kept rfl fun _ _ => cancelConn_missed
  | closes => exact missedIffFull_of_kept rfl fun c conn hc => .inr ⟨conn, hc, rfl⟩

theorem run_hub_delivers {ls : List HubLabel}
    (hr : run (SSEServer.step cfg) newSSEServer ls = some s) :
    s.registered.card ≤ cfg.maxConnections ∧
      s.ring = ringOf cfg s.sent ∧
      (∀ c conn, s.conns c = some conn →
        conn.events <+: conn.resumed cfg s.sent ++ conn.accepted s.sent ∧
          (conn.resumed cfg s.sent ++ conn.accepted s.sent).Pairwise
            fun f g => f.number < g.number) ∧
      Along (SSEServer.step cfg) (MissedIffFull cfg) newSSEServer ls ∧
      Along (SSEServer.step cfg) NothingEnqueued newSSEServer ls := by
  have hinv := hubInv_run hr
  refine ⟨hinv.capacity, hinv.ring, ?_, ?_, ?_⟩
  · intro c conn hc
    exact ⟨(hinv.conn c conn hc).events_due, hinv.numbered.pairwise.sublist due_sublist⟩
  · exact along_of_invariant (SSEServer.step cfg) (I := HubInv cfg)
      (fun _ _ _ h hstep => h.step (hubStep_of_step hstep))
      (fun _ _ _ h hstep => missedIffFull_of_hubStep h (hubStep_of_step hstep)) (hubInv_new cfg) ls
  · exact along_of_invariant (SSEServer.step cfg) (I := fun _ => True) (fun _ _ _ _ _ => trivial)
      (fun _ _ _ _ hstep => nothingEnqueued_of_hubStep (hubStep_of_step hstep)) trivial ls

def smallServer (policy : SlowClientPolicy) : ServerConfig :=
  ⟨1, 1, 1, false, policy, [], Nat.one_pos⟩

def getEvents (lastEventID : Bytes) : StreamRequest := ⟨true, true, lastEventID⟩

def oneByte (b : UInt8) : SSEMessage := ⟨.bytes [b], [b], none⟩

def resumedAndDropped : List HubLabel :=
  [.send (oneByte 65), .send (oneByte 66), .serve 0 (getEvents [66]), .serve 1 (getEvents []),
    .send (oneByte 67), .send (oneByte 68), .take 0, .write 0 none, .close, .cancel 0,
    .send (oneByte 69), .done 0, .leave 0]

theorem run_hub_delivers_resumedAndDropped :
    ∃ s, run (SSEServer.step (smallServer .drop)) newSSEServer resumedAndDropped = some s ∧
      (s.conns 0).map (fun conn => (conn.events.map SentFrame.number, conn.missed)) =
        some ([2], [3]) ∧
      (s.registered.card ≤ (smallServer .drop).maxConnections ∧
        s.ring = ringOf (smallServer .drop) s.sent ∧
        (∀ c conn, s.conns c = some conn →
          conn.events <+: conn.resumed (smallServer .drop) s.sent ++ conn.accepted s.sent ∧
            (conn.resumed (smallServer .drop) s.sent ++ conn.accepted s.sent).Pairwise
              fun f g => f.number < g.number) ∧
        Along (SSEServer.step (smallServer .drop)) (MissedIffFull (smallServer .drop)) newSSEServer
          resumedAndDropped ∧
        Along (SSEServer.step (smallServer .drop)) NothingEnqueued newSSEServer
          resumedAndDropped) :=
  ⟨_, rfl, rfl, run_hub_delivers rfl⟩

/-- The events written after the replay are the first ones sent since the registration. -/
def SSEConn.Contiguous (cfg : ServerConfig) (sent : List SentFrame) (conn : SSEConn) : Prop :=
  conn.events.drop (conn.resumed cfg sent).length <+: sent.drop conn.joined

/-- The step is no `Send` that finds room on a connection which has missed an event. -/
def NoRoomAfterMiss (cfg : ServerConfig) (s : SSEServer) (l : HubLabel) : Prop :=
  l.isSend = true → ∀ c ∈ s.registered, ∀ conn ∈ s.conns c,
    conn.missed ≠ [] → conn.frames.length = cfg.connectionBuffer

instance (l : HubLabel) : Decidable (NoRoomAfterMiss cfg s l) :=
  inferInstanceAs (Decidable (l.isSend = true → ∀ c ∈ s.registered, ∀ conn ∈ s.conns c,
    conn.missed ≠ [] → conn.frames.length = cfg.connectionBuffer))

/-- What has been written and what is still to be written was sent before any missed event. -/
structure SSEConn.Early (conn : SSEConn) : Prop where
  events : ∀ f ∈ conn.events, ∀ m ∈ conn.missed, f.number < m
  pending : conn.stage.isReturned = false → ∀ f ∈ conn.pending, ∀ m ∈ conn.missed, f.number < m

theorem SSEConn.early_of_missed (h : conn.missed = []) : conn.Early := by
  constructor <;> simp [h]

theorem SSEConn.Early.advance (h : conn.Early) (hadv : Advance conn conn') : conn'.Early := by
  have hpending := h.pending hadv.before
  refine ⟨fun f hf => ?_, fun hl => ?_⟩
  · rw [hadv.missed]
    rcases hadv.events with he | he
    · exact h.events f (he ▸ hf)
    · refine hpending f ?_
      rw [SSEConn.pending, ← List.append_assoc, ← he]
      exact List.mem_append_left _ hf
  · rw [hadv.pending hl, hadv.missed]
    exact hpending

theorem SSEConn.Early.miss (h : conn.Early) (hinv : ConnInv cfg sent P conn) (hnum : Numbered sent)
    {f : SentFrame} (hf : f.number = sent.length) (cancelled warned : Bool) (dropped : ℕ) :
    SSEConn.Early { conn with
      cancelled := cancelled, warned := warned, dropped := dropped
      missed := conn.missed ++ [f.number] } := by
  have hlast : ∀ g ∈ conn.due cfg sent, g.number < f.number := fun g hg =>
    hf ▸ hnum.lt (due_sublist.subset hg)
  refine ⟨fun g hg m hm => ?_, fun hl g hg m hm => ?_⟩
  · rcases List.mem_append.mp hm with hm | hm
    · exact h.events g hg m hm
    · rw [List.mem_singleton.mp hm]
      exact hlast g (hinv.events_due.subset hg)
  · rcases List.mem_append.mp hm with hm | hm
    · exact h.pending hl g hg m hm
    · rw [List.mem_singleton.mp hm]
      exact hlast g (hinv.live hl ▸ hg)

theorem SSEConn.Early.offer (h : conn.Early) (hinv : ConnInv cfg sent P conn) (hnum : Numbered sent)
    {f : SentFrame} (hf : f.number = sent.length)
    (hroom : conn.missed ≠ [] → conn.frames.length = cfg.connectionBuffer) :
    (conn.offer cfg f).Early := by
  unfold SSEConn.offer
  split
  · next hlt =>
      apply SSEConn.early_of_missed
      by_contra hmissed
      exact hlt.ne (hroom hmissed)
  · cases cfg.slowClientPolicy with
    | disconnect => exact h.miss hinv hnum hf true conn.warned conn.dropped
    | drop => exact h.miss hinv hnum hf conn.cancelled true (conn.dropped + 1)

def AllEarly (s : SSEServer) : Prop := ∀ c conn, s.conns c = some conn → conn.Early

theorem AllEarly.cancelConn (h : AllEarly s) (hd : (s.cancelConn c).conns d = some conn') :
    conn'.Early := by
  obtain ⟨conn, hconn, rfl | rfl⟩ := cancelConn_eq_some hd
  · exact h d _ hconn
  · exact ⟨(h d conn hconn).events, (h d conn hconn).pending⟩

theorem AllEarly.step (hinv : HubInv cfg s) (h : AllEarly s) (hstep : HubStep cfg s l t)
    (hroom : NoRoomAfterMiss cfg s l) : AllEarly t := by
  cases hstep with
  | idle => exact h
  | joins hc hr =>
      intro d conn hd
      rcases KeyedMaps.update_eq_some.mp hd with ⟨rfl, rfl⟩ | ⟨-, hd⟩
      · exact SSEConn.early_of_missed rfl
      · exact h d conn hd
  | @sends f hl hf hopen =>
      intro c conn' hc'
      by_cases hreg : c ∈ s.registered
      · have hmap : (s.conns c).map (SSEConn.offer cfg f) = some conn' := by
          rw [← hc']
          exact (if_pos hreg).symm
        obtain ⟨conn, hconn, rfl⟩ := Option.map_eq_some_iff.mp hmap
        exact (h c conn hconn).offer (hinv.conn c conn hconn) hinv.numbered hf
          (hroom hl c hreg conn hconn)
      · refine h c conn' ?_
        rw [← hc']
        exact (if_neg hreg).symm
  | advances hc hadv =>
      intro d conn hd
      rcases KeyedMaps.update_eq_some.mp hd with ⟨rfl, rfl⟩ | ⟨-, hd⟩
      · exact (h d _ hc).advance hadv
      · exact h d conn hd
  | cancels c closing => exact fun _ _ => h.cancelConn
  | leaves hc hret => exact fun _ _ => h.cancelConn
  | closes => exact h

theorem SSEConn.Early.contiguous (h : conn.Early) (hinv : ConnInv cfg sent P conn)
    (hnum : Numbered sent) : conn.Contiguous cfg sent := by
  have hlive : conn.events.drop (conn.resumed cfg sent).length <+: conn.accepted sent := by
    have hdrop := hinv.events_due.drop (conn.resumed cfg sent).length
    rwa [SSEConn.due, List.drop_left] at hdrop
  have hsorted := hnum.pairwise.sublist (List.drop_sublist conn.joined sent)
  rw [SSEConn.Contiguous,
    prefix_iff_of_prefix_filter (fun _ _ hlt => Nat.lt_asymm hlt) hsorted hlive]
  intro f hf g _ hmissed hlt
  exact Nat.lt_asymm hlt (h.events f (List.mem_of_mem_drop hf) g.number (by simpa using hmissed))

theorem run_contiguous {ls : List HubLabel}
    (hr : run (SSEServer.step cfg) newSSEServer ls = some s)
    (hroom : Along (SSEServer.step cfg) (fun s l _ => NoRoomAfterMiss cfg s l) newSSEServer ls) :
    ∀ c conn, s.conns c = some conn → conn.Contiguous cfg s.sent := by
  have hinv : HubInv cfg s ∧ AllEarly s := run_invariant_of_along (SSEServer.step cfg)
    (I := fun s => HubInv cfg s ∧ AllEarly s)
    (fun _ _ _ h hstep hroom => ⟨h.1.step (hubStep_of_step hstep),
      h.2.step h.1 (hubStep_of_step hstep) hroom⟩)
    ⟨hubInv_new cfg, fun _ _ hc => by cases hc⟩ hroom hr
  exact fun c conn hc => (hinv.2 c conn hc).contiguous (hinv.1.conn c conn hc) hinv.1.numbered

def leftAfterCancel : List HubLabel :=
  [.serve 0 (getEvents []), .send (oneByte 65), .send (oneByte 66), .take 0, .write 0 none,
    .done 0, .leave 0, .send (oneByte 67)]

theorem run_contiguous_leftAfterCancel :
    ∃ s, run (SSEServer.step (smallServer .disconnect)) newSSEServer leftAfterCancel = some s ∧
      ∀ c conn, s.conns c = some conn → conn.Contiguous (smallServer .disconnect) s.sent := by
  obtain ⟨s, hr⟩ : ∃ s, run (SSEServer.step (smallServer .disconnect)) newSSEServer
      leftAfterCancel = some s := ⟨_, rfl⟩
  exact ⟨s, hr, run_contiguous hr (by decide)⟩

/-- The second event finds the buffer full and cancels the connection; the third one finds room,
since the writer has taken the first. -/
def sentAfterCancel : List HubLabel :=
  [.serve 0 (getEvents []), .send (oneByte 65), .send (oneByte 66), .take 0, .write 0 none,
    .send (oneByte 67), .take 0, .write 0 none]

theorem sentAfterCancel_not_contiguous :
    (smallServer .disconnect).slowClientPolicy = .disconnect ∧
      ∃ s conn, run (SSEServer.step (smallServer .disconnect)) newSSEServer sentAfterCancel =
          some s ∧
        s.conns 0 = some conn ∧ conn.events.map SentFrame.number = [0, 2] ∧ conn.missed = [1] ∧
        ¬conn.Contiguous (smallServer .disconnect) s.sent := by
  refine ⟨rfl, _, _, rfl, rfl, rfl, rfl, fun h => ?_⟩
  have hnumbers : [0, 2] <+: [0, 1, 2] := h.map SentFrame.number
  exact absurd hnumbers (by decide)

end Msgin.Http
