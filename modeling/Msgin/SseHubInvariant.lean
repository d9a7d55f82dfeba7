import Msgin.KeyedMaps
import Msgin.SseHub

/-!
# What the hub writes on a connection

A connection is due the ring events after its `Last-Event-ID`, as the ring stood when it was
registered, and then the events sent since, without those that found its buffer full. While its
writer runs, what it has written, what it is writing, the rest of its replay and its buffer are
together exactly what it is due.
-/

namespace Msgin.Http

open ReplayWindow

def SSEConn.events (conn : SSEConn) : List SentFrame := conn.wire.filterMap Written.sent

def Stage.inFlight : Stage → List SentFrame
  | .writing w => w.sent.toList
  | .returned (some (w, _)) => w.sent.toList
  | _ => []

def Stage.isReturned : Stage → Bool
  | .returned _ => true
  | _ => false

/-- The last `replayBuffer` of the events that carry an id. -/
def ringOf (cfg : ServerConfig) (sent : List SentFrame) : List SentFrame :=
  (sent.filter fun f => f.id ≠ []).rtake cfg.replayBuffer

namespace SSEConn

variable (cfg : ServerConfig) (sent : List SentFrame) (conn : SSEConn)

/-- The events that the ring held after the last one with the `Last-Event-ID`. -/
def resumed : List SentFrame :=
  afterLast (fun f => f.id == conn.lastEventID) (ringOf cfg (sent.take conn.joined))

/-- The events sent since the registration, without those that found the buffer full. -/
def accepted : List SentFrame :=
  (sent.drop conn.joined).filter fun f => f.number ∉ conn.missed

def due : List SentFrame := conn.resumed cfg sent ++ conn.accepted sent

def pending : List SentFrame := conn.events ++ (conn.stage.inFlight ++ (conn.replay ++ conn.frames))

end SSEConn

/-- Frames are numbered in the order of their `Send`. -/
def Numbered (sent : List SentFrame) : Prop := sent.map SentFrame.number = List.range sent.length

structure ConnInv (cfg : ServerConfig) (sent : List SentFrame) (isRegistered : Prop) (conn : SSEConn) :
    Prop where
  joined : conn.joined ≤ sent.length
  buffered : conn.frames.length ≤ cfg.connectionBuffer
  missed : ∀ m ∈ conn.missed, conn.joined ≤ m ∧ m < sent.length
  registered : conn.stage.isReturned = false → isRegistered
  live : conn.stage.isReturned = false → conn.pending = conn.due cfg sent
  written : conn.events ++ conn.stage.inFlight <+: conn.due cfg sent

structure HubInv (cfg : ServerConfig) (s : SSEServer) : Prop where
  capacity : s.registered.card ≤ cfg.maxConnections
  numbered : Numbered s.sent
  ring : s.ring = ringOf cfg s.sent
  conn : ∀ c conn, s.conns c = some conn → ConnInv cfg s.sent (c ∈ s.registered) conn

/-- What a step of its handler does to a connection. -/
structure Advance (conn conn' : SSEConn) : Prop where
  before : conn.stage.isReturned = false
  joined : conn'.joined = conn.joined
  lastEventID : conn'.lastEventID = conn.lastEventID
  missed : conn'.missed = conn.missed
  frames : conn'.frames <:+ conn.frames
  events : conn'.events = conn.events ∨ conn'.events = conn.events ++ conn.stage.inFlight
  pending : conn'.stage.isReturned = false → conn'.pending = conn.pending
  returned : conn'.stage.isReturned = true →
    conn'.events ++ conn'.stage.inFlight <+: conn.events ++ conn.stage.inFlight

theorem SSEConn.events_write (conn : SSEConn) (w : Written) :
    (conn.wire ++ [w]).filterMap Written.sent = conn.events ++ w.sent.toList := by
  rw [List.filterMap_append]
  cases w <;> rfl

variable {l : HubLabel} {c : ℕ}

theorem advance_of_step {cfg : ServerConfig} {conn conn' : SSEConn}
    (h : conn.step cfg l = some conn') : Advance conn conn' := by
  unfold SSEConn.step at h
  split at h
  · split at h
    · next f rest hs hr =>
        obtain rfl := Option.some.inj h
        refine ⟨by rw [hs]; rfl, rfl, rfl, rfl, List.suffix_rfl, .inl rfl, fun _ => ?_,
          fun hret => by cases hret⟩
        simp only [SSEConn.pending, hs, hr]
        rfl
    · cases h
  · split at h
    · next hs hr =>
        split at h
        · obtain rfl := Option.some.inj h
          refine ⟨by rw [hs]; rfl, rfl, rfl, rfl, List.suffix_rfl, .inl rfl,
            fun hl => (by cases hl), fun _ => ?_⟩
          rw [hs]
          exact List.prefix_rfl
        · cases h
    · cases h
  · split at h
    · next f rest hs hr hf =>
        obtain rfl := Option.some.inj h
        refine ⟨by rw [hs]; rfl, rfl, rfl, rfl, ⟨[f], by rw [hf]; rfl⟩, .inl rfl, fun _ => ?_,
          fun hret => by cases hret⟩
        simp only [SSEConn.pending, hs, hr, hf]
        rfl
    · cases h
  · split at h
    · next hs hr =>
        split at h
        · obtain rfl := Option.some.inj h
          refine ⟨by rw [hs]; rfl, rfl, rfl, rfl, List.suffix_rfl, .inl rfl, fun _ => ?_,
            fun hret => by cases hret⟩
          simp only [SSEConn.pending, hs]
          rfl
        · cases h
    · cases h
  · split at h
    · next w hs =>
        obtain rfl := Option.some.inj h
        have hevents := SSEConn.events_write conn w
        refine ⟨by rw [hs]; rfl, rfl, rfl, rfl, List.suffix_rfl, .inr ?_, fun _ => ?_,
          fun hret => by cases hret⟩
        · rw [hs]
          exact hevents
        · simp only [SSEConn.pending, hs, SSEConn.events, hevents]
          rw [List.append_assoc]
          rfl
    · next w n hs =>
        obtain rfl := Option.some.inj h
        refine ⟨by rw [hs]; rfl, rfl, rfl, rfl, List.suffix_rfl, .inl rfl, fun hl => (by cases hl),
          fun _ => ?_⟩
        rw [hs]
        exact List.prefix_rfl
    · cases h
  · cases h

def HubLabel.isSend : HubLabel → Bool
  | .send _ => true
  | _ => false

inductive HubStep (cfg : ServerConfig) (s : SSEServer) (l : HubLabel) : SSEServer → Prop
  | idle : HubStep cfg s l s
  | joins {c : ℕ} {r : StreamRequest} (hc : s.conns c = none) (hr : s.refusal cfg r = none) :
      HubStep cfg s l
        { s with
          conns := Function.update s.conns c (some (s.newConn cfg r))
          registered := insert c s.registered }
  | sends {f : SentFrame} (hl : l.isSend = true) (hf : f.number = s.sent.length)
      (hopen : s.closed = false) :
      HubStep cfg s l (s.broadcast cfg f)
  | advances {c : ℕ} {conn conn' : SSEConn} (hc : s.conns c = some conn)
      (hadv : Advance conn conn') :
      HubStep cfg s l { s with conns := Function.update s.conns c (some conn') }
  | cancels (c : ℕ) (closing : Finset ℕ) :
      HubStep cfg s l { s.cancelConn c with closing := closing }
  | leaves {c : ℕ} {conn : SSEConn} (hc : s.conns c = some conn)
      (hret : conn.stage.isReturned = true) :
      HubStep cfg s l { s.cancelConn c with registered := s.registered.erase c }
  | closes : HubStep cfg s l s.close

theorem hubStep_of_stepConn {cfg : ServerConfig} {s t : SSEServer}
    (h : s.stepConn cfg c l = some t) : HubStep cfg s l t := by
  obtain ⟨conn', hbind, rfl⟩ := Option.map_eq_some_iff.mp h
  obtain ⟨conn, hc, hstep⟩ := Option.bind_eq_some_iff.mp hbind
  exact .advances hc (advance_of_step hstep)

theorem hubStep_serve (cfg : ServerConfig) {s : SSEServer} (r : StreamRequest)
    (hc : s.conns c = none) (l : HubLabel) : HubStep cfg s l (s.serveHTTP cfg c r) := by
  unfold SSEServer.serveHTTP
  cases hr : s.refusal cfg r with
  | some resp => exact .idle
  | none => exact .joins hc hr

theorem hubStep_send (cfg : ServerConfig) (s : SSEServer) (msg : SSEMessage) :
    HubStep cfg s (.send msg) (s.send cfg msg).2 := by
  unfold SSEServer.send
  split
  · exact .idle
  · cases hopen : s.closed with
    | true => exact .idle
    | false => exact .sends rfl rfl hopen

theorem hubStep_of_step {cfg : ServerConfig} {s t : SSEServer} (h : s.step cfg l = some t) :
    HubStep cfg s l t := by
  cases l with
  | serve c r =>
      obtain ⟨hc, ht⟩ := Option.ite_none_right_eq_some.mp h
      obtain rfl := Option.some.inj ht
      exact hubStep_serve cfg r (Option.isNone_iff_eq_none.mp hc) _
  | send msg =>
      obtain rfl := Option.some.inj h
      exact hubStep_send cfg s msg
  | close =>
      obtain rfl := Option.some.inj h
      exact .closes
  | cancel c =>
      obtain ⟨-, ht⟩ := Option.ite_none_right_eq_some.mp h
      obtain rfl := Option.some.inj ht
      exact .cancels c _
  | disconnect c =>
      obtain ⟨-, ht⟩ := Option.ite_none_right_eq_some.mp h
      obtain rfl := Option.some.inj ht
      exact .cancels c s.closing
  | leave c =>
      simp only [SSEServer.step] at h
      split at h
      · next conn hc =>
          split at h
          · next part hs =>
              obtain ⟨-, ht⟩ := Option.ite_none_right_eq_some.mp h
              obtain rfl := Option.some.inj ht
              exact .leaves hc (by rw [hs]; rfl)
          · cases h
      · cases h
  | replay c => exact hubStep_of_stepConn h
  | done c => exact hubStep_of_stepConn h
  | take c => exact hubStep_of_stepConn h
  | tick c => exact hubStep_of_stepConn h
  | write c failed => exact hubStep_of_stepConn h

theorem ringOf_concat (cfg : ServerConfig) (sent : List SentFrame) (f : SentFrame) :
    ringOf cfg (sent ++ [f]) =
      if 0 < cfg.replayBuffer ∧ f.id ≠ [] then appendRing cfg.replayBuffer (ringOf cfg sent) f
      else ringOf cfg sent := by
  unfold ringOf appendRing
  rw [List.filter_append]
  by_cases hid : f.id = []
  · have hnone : [f].filter (fun f => f.id ≠ []) = [] :=
      List.filter_cons_of_neg fun h => of_decide_eq_true h hid
    rw [if_neg (fun h => h.2 hid), hnone, List.append_nil]
  · have hone : [f].filter (fun f => f.id ≠ []) = [f] :=
      List.filter_cons_of_pos (decide_eq_true hid)
    rw [hone]
    by_cases hsize : 0 < cfg.replayBuffer
    · rw [if_pos ⟨hsize, hid⟩, push_rtake hsize]
    · rw [if_neg (fun h => hsize h.1), Nat.eq_zero_of_not_pos hsize, List.rtake_zero,
        List.rtake_zero]

theorem mem_ringOf_id {cfg : ServerConfig} {sent : List SentFrame} {f : SentFrame}
    (h : f ∈ ringOf cfg sent) : f.id ≠ [] := by
  have hmem : f ∈ sent.filter fun f => f.id ≠ [] := List.mem_of_mem_drop h
  exact of_decide_eq_true (List.mem_filter.mp hmem).2

theorem newConn_replay {cfg : ServerConfig} {s : SSEServer} (hring : s.ring = ringOf cfg s.sent)
    (r : StreamRequest) :
    (s.newConn cfg r).replay =
      afterLast (fun f => f.id == r.lastEventID) (ringOf cfg s.sent) := by
  by_cases h : 0 < cfg.replayBuffer ∧ r.lastEventID ≠ []
  · have hreplay : (s.newConn cfg r).replay = replayAfter r.lastEventID s.ring := if_pos h
    rw [hreplay, hring]
    exact drop_lastIndex _ _
  · have hreplay : (s.newConn cfg r).replay = [] := if_neg h
    rw [hreplay, afterLast_of_forall_not]
    intro f hf
    by_cases hsize : 0 < cfg.replayBuffer
    · have hlast : r.lastEventID = [] := by
        by_contra hne
        exact h ⟨hsize, hne⟩
      rw [hlast]
      exact beq_false_of_ne (mem_ringOf_id hf)
    · rw [ringOf, Nat.eq_zero_of_not_pos hsize, List.rtake_zero] at hf
      cases hf

theorem Numbered.concat {sent : List SentFrame} {f : SentFrame} (h : Numbered sent)
    (hf : f.number = sent.length) : Numbered (sent ++ [f]) := by
  unfold Numbered at h ⊢
  rw [List.map_append, h, List.length_append, List.length_singleton, List.range_succ, ← hf]
  rfl

theorem Numbered.lt {sent : List SentFrame} (h : Numbered sent) {f : SentFrame} (hf : f ∈ sent) :
    f.number < sent.length := by
  have hmem : f.number ∈ sent.map SentFrame.number := List.mem_map_of_mem hf
  rw [h] at hmem
  exact List.mem_range.mp hmem

namespace SSEConn

variable {cfg : ServerConfig} {sent : List SentFrame} {f : SentFrame} {conn : SSEConn}

theorem resumed_concat (hj : conn.joined ≤ sent.length) :
    conn.resumed cfg (sent ++ [f]) = conn.resumed cfg sent := by
  unfold resumed
  rw [List.take_append_of_le_length hj]

theorem accepted_concat (hj : conn.joined ≤ sent.length) (hf : f.number ∉ conn.missed) :
    conn.accepted (sent ++ [f]) = conn.accepted sent ++ [f] := by
  have hone : [f].filter (fun f => f.number ∉ conn.missed) = [f] :=
    List.filter_cons_of_pos (decide_eq_true hf)
  unfold accepted
  rw [List.drop_append_of_le_length hj, List.filter_append, hone]

theorem accepted_missing (hj : conn.joined ≤ sent.length) (hnum : Numbered sent)
    (hf : f.number = sent.length) :
    ((sent ++ [f]).drop conn.joined).filter (fun g => g.number ∉ conn.missed ++ [f.number]) =
      conn.accepted sent := by
  have hnone : [f].filter (fun g => g.number ∉ conn.missed ++ [f.number]) = [] :=
    List.filter_cons_of_neg (by simp)
  unfold accepted
  rw [List.drop_append_of_le_length hj, List.filter_append, hnone, List.append_nil]
  refine List.filter_congr fun g hg => ?_
  have hlt := hnum.lt (List.mem_of_mem_drop hg)
  have hne : g.number ≠ f.number := by omega
  simp [hne]

end SSEConn

variable {cfg : ServerConfig} {sent : List SentFrame} {P : Prop} {conn conn' : SSEConn}

theorem ConnInv.events_due (h : ConnInv cfg sent P conn) : conn.events <+: conn.due cfg sent :=
  (List.prefix_append _ _).trans h.written

theorem ConnInv.cancel (h : ConnInv cfg sent P conn) :
    ConnInv cfg sent P { conn with cancelled := true } :=
  ⟨h.joined, h.buffered, h.missed, h.registered, h.live, h.written⟩

theorem ConnInv.registered_congr {R : Prop} (h : ConnInv cfg sent P conn)
    (hR : conn.stage.isReturned = false → P → R) : ConnInv cfg sent R conn :=
  ⟨h.joined, h.buffered, h.missed, fun hl => hR hl (h.registered hl), h.live, h.written⟩

theorem Advance.due_eq (h : Advance conn conn') : conn'.due cfg sent = conn.due cfg sent := by
  unfold SSEConn.due SSEConn.resumed SSEConn.accepted
  rw [h.joined, h.lastEventID, h.missed]

theorem ConnInv.advance (h : ConnInv cfg sent P conn) (hadv : Advance conn conn') :
    ConnInv cfg sent P conn' where
  joined := hadv.joined.symm ▸ h.joined
  buffered := hadv.frames.length_le.trans h.buffered
  missed := by
    rw [hadv.missed, hadv.joined]
    exact h.missed
  registered := fun _ => h.registered hadv.before
  live := fun hl => by rw [hadv.pending hl, h.live hadv.before, hadv.due_eq]
  written := by
    rw [hadv.due_eq]
    cases hret : conn'.stage.isReturned with
    | false =>
        rw [← h.live hadv.before, ← hadv.pending hret, SSEConn.pending, ← List.append_assoc]
        exact List.prefix_append _ _
    | true => exact (hadv.returned hret).trans h.written

theorem length_le_concat (sent : List SentFrame) (f : SentFrame) :
    sent.length ≤ (sent ++ [f]).length := by
  rw [List.length_append]
  exact Nat.le_add_right _ _

section Sends

variable {f : SentFrame} (h : ConnInv cfg sent P conn)

include h

theorem ConnInv.missed_concat : ∀ m ∈ conn.missed, conn.joined ≤ m ∧ m < (sent ++ [f]).length :=
  fun m hm => ⟨(h.missed m hm).1, (h.missed m hm).2.trans_le (length_le_concat sent f)⟩

theorem ConnInv.due_concat (hf : f.number = sent.length) :
    conn.due cfg (sent ++ [f]) = conn.due cfg sent ++ [f] := by
  have hnew : f.number ∉ conn.missed := fun hm => by
    have hlt := (h.missed _ hm).2
    omega
  rw [SSEConn.due, SSEConn.resumed_concat h.joined, SSEConn.accepted_concat h.joined hnew,
    ← List.append_assoc]
  rfl

theorem ConnInv.unregistered (hf : f.number = sent.length) (hP : ¬P) :
    ConnInv cfg (sent ++ [f]) P conn where
  joined := h.joined.trans (length_le_concat sent f)
  buffered := h.buffered
  missed := h.missed_concat
  registered := h.registered
  live := fun hl => absurd (h.registered hl) hP
  written := by
    rw [h.due_concat hf]
    exact h.written.trans (List.prefix_append _ _)

theorem ConnInv.enqueue (hf : f.number = sent.length)
    (hroom : conn.frames.length < cfg.connectionBuffer) :
    ConnInv cfg (sent ++ [f]) P { conn with frames := conn.frames ++ [f] } where
  joined := h.joined.trans (length_le_concat sent f)
  buffered := by
    rw [List.length_append]
    exact hroom
  missed := h.missed_concat
  registered := h.registered
  live := fun hl => by
    have hdue : conn.pending ++ [f] = conn.due cfg (sent ++ [f]) := by
      rw [h.live hl, h.due_concat hf]
    rw [SSEConn.pending, List.append_assoc, List.append_assoc, List.append_assoc] at hdue
    exact hdue
  written := by
    have hdue := h.written.trans (List.prefix_append _ [f])
    rw [← h.due_concat hf] at hdue
    exact hdue

theorem ConnInv.miss (hnum : Numbered sent) (hf : f.number = sent.length) (cancelled warned : Bool)
    (dropped : ℕ) :
    ConnInv cfg (sent ++ [f]) P
      { conn with
        cancelled := cancelled, warned := warned, dropped := dropped
        missed := conn.missed ++ [f.number] } := by
  have hdue : conn.resumed cfg (sent ++ [f]) ++
      ((sent ++ [f]).drop conn.joined).filter (fun g => g.number ∉ conn.missed ++ [f.number]) =
      conn.due cfg sent := by
    rw [SSEConn.resumed_concat h.joined, SSEConn.accepted_missing h.joined hnum hf]
    rfl
  have hwritten := h.written
  rw [← hdue] at hwritten
  refine ⟨h.joined.trans (length_le_concat sent f), h.buffered, ?_, h.registered,
    fun hl => (h.live hl).trans hdue.symm, hwritten⟩
  intro m hm
  rcases List.mem_append.mp hm with hm | hm
  · exact h.missed_concat m hm
  · obtain rfl := List.mem_singleton.mp hm
    rw [hf, List.length_append]
    exact ⟨h.joined, Nat.lt_succ_self _⟩

theorem ConnInv.offer (hnum : Numbered sent) (hf : f.number = sent.length) :
    ConnInv cfg (sent ++ [f]) P (conn.offer cfg f) := by
  unfold SSEConn.offer
  split
  · next hroom => exact h.enqueue hf hroom
  · cases cfg.slowClientPolicy with
    | disconnect => exact h.miss hnum hf true conn.warned conn.dropped
    | drop => exact h.miss hnum hf conn.cancelled true (conn.dropped + 1)

end Sends

theorem connInv_newConn {s : SSEServer} (hring : s.ring = ringOf cfg s.sent) (r : StreamRequest) :
    ConnInv cfg s.sent True (s.newConn cfg r) := by
  have hresumed : (s.newConn cfg r).resumed cfg s.sent = (s.newConn cfg r).replay := by
    rw [newConn_replay hring, SSEConn.resumed]
    exact congrArg (fun l => afterLast _ (ringOf cfg l)) List.take_length
  have haccepted : (s.newConn cfg r).accepted s.sent = [] := by
    have hnone : s.sent.drop (s.newConn cfg r).joined = [] := List.drop_length
    rw [SSEConn.accepted, hnone]
    rfl
  have hdue : (s.newConn cfg r).pending = (s.newConn cfg r).due cfg s.sent := by
    rw [SSEConn.due, hresumed, haccepted]
    rfl
  exact ⟨le_rfl, Nat.zero_le _, List.forall_mem_nil _, fun _ => trivial, fun _ => hdue,
    List.nil_prefix⟩

theorem hubInv_new (cfg : ServerConfig) : HubInv cfg newSSEServer :=
  ⟨Nat.zero_le _, rfl, by simp [newSSEServer, ringOf, List.rtake], fun _ _ h => by cases h⟩

variable {s t : SSEServer}

theorem cancelConn_eq_some {d : ℕ} (h : (s.cancelConn c).conns d = some conn') :
    ∃ conn, s.conns d = some conn ∧ (conn' = conn ∨ conn' = { conn with cancelled := true }) := by
  by_cases hd : d = c
  · subst hd
    have hmap : (s.conns d).map (fun conn => { conn with cancelled := true }) = some conn' := by
      rw [← h]
      exact (Function.update_self d _ s.conns).symm
    obtain ⟨conn, hconn, rfl⟩ := Option.map_eq_some_iff.mp hmap
    exact ⟨conn, hconn, .inr rfl⟩
  · refine ⟨conn', ?_, .inl rfl⟩
    rw [← h]
    exact (Function.update_of_ne hd _ s.conns).symm

theorem HubInv.cancelConn (h : HubInv cfg s) (c : ℕ) {d : ℕ}
    (hd : (s.cancelConn c).conns d = some conn') : ConnInv cfg s.sent (d ∈ s.registered) conn' := by
  obtain ⟨conn, hconn, rfl | rfl⟩ := cancelConn_eq_some hd
  · exact h.conn d _ hconn
  · exact (h.conn d conn hconn).cancel

theorem card_lt_of_refusal {r : StreamRequest} (h : s.refusal cfg r = none) :
    s.registered.card < cfg.maxConnections := by
  by_contra hfull
  unfold SSEServer.refusal at h
  rw [if_pos (Nat.le_of_not_lt hfull)] at h
  split at h
  · cases h
  · split at h <;> cases h

theorem HubInv.broadcast (h : HubInv cfg s) {f : SentFrame} (hf : f.number = s.sent.length) :
    HubInv cfg (s.broadcast cfg f) where
  capacity := h.capacity
  numbered := h.numbered.concat hf
  ring := by
    have hring := ringOf_concat cfg s.sent f
    rw [← h.ring] at hring
    exact hring.symm
  conn := fun c conn' hc => by
    by_cases hreg : c ∈ s.registered
    · have hmap : (s.conns c).map (SSEConn.offer cfg f) = some conn' := by
        rw [← hc]
        exact (if_pos hreg).symm
      obtain ⟨conn, hconn, rfl⟩ := Option.map_eq_some_iff.mp hmap
      exact (h.conn c conn hconn).offer h.numbered hf
    · have hconn : s.conns c = some conn' := by
        rw [← hc]
        exact (if_neg hreg).symm
      exact (h.conn c conn' hconn).unregistered hf hreg

theorem HubInv.step (h : HubInv cfg s) (hstep : HubStep cfg s l t) : HubInv cfg t := by
  cases hstep with
  | idle => exact h
  | @joins c r hc hr =>
      refine ⟨(Finset.card_insert_le c _).trans (card_lt_of_refusal hr), h.numbered, h.ring, ?_⟩
      intro d conn hd
      rcases KeyedMaps.update_eq_some.mp hd with ⟨rfl, rfl⟩ | ⟨-, hd⟩
      · exact (connInv_newConn h.ring r).registered_congr fun _ _ => Finset.mem_insert_self ..
      · exact (h.conn d conn hd).registered_congr fun _ hmem => Finset.mem_insert_of_mem hmem
  | sends hl hf hopen => exact h.broadcast hf
  | advances hc hadv =>
      refine ⟨h.capacity, h.numbered, h.ring, ?_⟩
      intro d conn hd
      rcases KeyedMaps.update_eq_some.mp hd with ⟨rfl, rfl⟩ | ⟨-, hd⟩
      · exact (h.conn d _ hc).advance hadv
      · exact h.conn d conn hd
  | cancels c closing => exact ⟨h.capacity, h.numbered, h.ring, fun d conn => h.cancelConn c⟩
  | @leaves c conn hc hret =>
      refine ⟨(Finset.card_le_card (Finset.erase_subset c _)).trans h.capacity, h.numbered, h.ring,
        fun d conn' hd => (h.cancelConn c hd).registered_congr ?_⟩
      intro hl hmem
      refine Finset.mem_erase.mpr ⟨?_, hmem⟩
      rintro rfl
      obtain ⟨conn₀, hconn, heq⟩ := cancelConn_eq_some hd
      obtain rfl : conn₀ = conn := Option.some.inj (hconn.symm.trans hc)
      have hstage : conn'.stage = conn₀.stage := by rcases heq with rfl | rfl <;> rfl
      rw [hstage, hret] at hl
      cases hl
  | closes => exact ⟨h.capacity, h.numbered, h.ring, h.conn⟩

theorem hubInv_run {ls : List HubLabel}
    (hr : TransitionRuns.run (SSEServer.step cfg) newSSEServer ls = some s) : HubInv cfg s :=
  TransitionRuns.run_invariant _ (fun _ _ _ h hstep => h.step (hubStep_of_step hstep))
    (hubInv_new cfg) hr

end Msgin.Http
