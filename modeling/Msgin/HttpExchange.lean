import Msgin.ByteReaders
import Msgin.HttpCodec

/-!
# The reply of an HTTP exchange

`Exchange.Exchange` once `ClassifyResponse` has let a response of status 2xx pass. Its body is read
up to `maxResponseBytes` bytes. If they are all there, one more byte is asked for, and only the end
of the body makes them the reply.
-/

namespace Msgin.Http

open ByteReaders

def ioEOF : Err := .sentinel .eof

/-- One byte more is asked for after the limit has been reached with the bytes `b`. -/
def probe (b : Bytes) (rest : Reader Err) : Except Err (Bytes) :=
  match (readFull ioEOF (.sentinel .errUnexpectedEOF) 1 rest []).1 with
  | .ok _ => .error (.sentinel .errReplyTooLarge)
  | .error (read, probeErr) =>
      if 0 < read.length then .error (.sentinel .errReplyTooLarge)
      else if !probeErr.is .eof then .error probeErr
      else .ok b

/-- The bytes of the reply. `room` says how `io.ReadAll` sizes its buffer. -/
def readReply (maxResponseBytes : ℕ) (room : ℕ → ℕ) (body : Reader Err) : Except Err (Bytes) :=
  match readAll ioEOF room ⟨body, maxResponseBytes⟩ [] with
  | ((_, some err), _) => .error err
  | ((b, none), rest) => if b.length = maxResponseBytes then probe b rest else .ok b

def exchange (cfg : Config) (maxResponseBytes : ℕ) (room : ℕ → ℕ) (req : Message Payload)
    (resp : Response) (body : Reader Err) (id : String) (now : ℤ) : Except Err (Message Payload) :=
  (readReply maxResponseBytes room body).map fun b => buildReply cfg req resp b id now

variable {max : ℕ} {room : ℕ → ℕ} {body : Reader Err}

theorem probe_of_more (b : Bytes) {rest : Reader Err} (h : rest.delivered ≠ []) :
    probe b rest = .error (.sentinel .errReplyTooLarge) := by
  rcases readFull_one ioEOF (.sentinel .errUnexpectedEOF) rest with ⟨hnone, -⟩ | ⟨-, c, hfull, -⟩
  · exact absurd hnone h
  · rw [probe, hfull]

theorem probe_of_end (b : Bytes) {rest : Reader Err} (h : rest.delivered = []) :
    probe b rest = if rest.err.is .eof then .ok b else .error rest.err := by
  rcases readFull_one ioEOF (.sentinel .errUnexpectedEOF) rest with ⟨-, hshort⟩ | ⟨hmore, -⟩
  · rw [probe, hshort]
    cases his : rest.err.is .eof <;> simp [his]
  · exact absurd h hmore

theorem readReply_of_long (h : max < body.delivered.length) :
    readReply max room body = .error (.sentinel .errReplyTooLarge) := by
  obtain ⟨rest, hall, hrest, -⟩ := readAll_of_cut ioEOF room
    (l := ⟨body, max⟩) (b := []) (.inl h)
  have hmore : rest.delivered ≠ [] := by
    rw [hrest, Ne, List.drop_eq_nil_iff]
    exact Nat.not_le_of_lt h
  rw [readReply, hall]
  simp only [List.nil_append, List.length_take_of_le (Nat.le_of_lt h), if_true]
  exact probe_of_more _ hmore

theorem readReply_of_exact (hlength : body.delivered.length = max) (hlast : body.last = []) :
    readReply max room body = if body.err.is .eof then .ok body.delivered else .error body.err := by
  obtain ⟨rest, hall, hrest, herr⟩ := readAll_of_cut ioEOF room
    (l := ⟨body, max⟩) (b := []) (.inr ⟨hlength, hlast⟩)
  have hnone : rest.delivered = [] := by
    rw [hrest, List.drop_eq_nil_iff]
    exact Nat.le_of_eq hlength
  have hbytes : body.delivered.take max = body.delivered :=
    List.take_of_length_le (Nat.le_of_eq hlength)
  rw [readReply, hall]
  simp only [List.nil_append, hbytes, hlength, if_true]
  rw [probe_of_end _ hnone, herr]

theorem readReply_of_ends (h : body.delivered.length < max ∨
    body.delivered.length = max ∧ body.last ≠ []) :
    readReply max room body =
      if body.err = ioEOF then .ok body.delivered else .error body.err := by
  rw [readReply, readAll_of_ends ioEOF room h]
  by_cases heof : body.err = ioEOF
  · have hprobe : probe body.delivered ⟨[], [], ioEOF⟩ = .ok body.delivered :=
      probe_of_end body.delivered rfl
    simp only [heof, if_true, List.nil_append, hprobe, ite_self]
  · simp only [heof, if_false]

theorem payload_copyReplyHeader (resp : Response) (reply : Message Payload) (name : String) :
    (copyReplyHeader resp reply name).payload = reply.payload := by
  unfold copyReplyHeader
  split
  · rfl
  · split <;> rfl

theorem payload_buildReply (cfg : Config) (req : Message Payload) (resp : Response)
    (body : Bytes) (id : String) (now : ℤ) :
    (buildReply cfg req resp body id now).payload = .bytes body := by
  have hfold : ∀ (names : List String) (reply : Message Payload),
      (names.foldl (copyReplyHeader resp) reply).payload = reply.payload := by
    intro names
    induction names with
    | nil => exact fun reply => rfl
    | cons name names ih =>
        intro reply
        rw [List.foldl_cons, ih, payload_copyReplyHeader]
  unfold buildReply
  dsimp only
  rw [hfold]
  split <;> rfl

/-- The whole body is the reply, or there is none. -/
structure ServesBody (max : ℕ) (body : Reader Err) (result : Except Err (Message Payload)) :
    Prop where
  success : (∃ reply, result = .ok reply) ↔ body.delivered.length ≤ max ∧ body.err = ioEOF
  whole : ∀ reply, result = .ok reply → reply.payload = .bytes body.delivered
  tooLarge : max < body.delivered.length → result = .error (.sentinel .errReplyTooLarge)
  failed : body.delivered.length ≤ max → body.err ≠ ioEOF → result = .error body.err

theorem servesBody_of_long (h : max < body.delivered.length) :
    ServesBody max body (.error (.sentinel .errReplyTooLarge)) where
  success := ⟨fun ⟨_, h⟩ => (by cases h), fun hle => absurd hle.1 (by omega)⟩
  whole := fun _ h => by cases h
  tooLarge := fun _ => rfl
  failed := fun hle _ => absurd hle (by omega)

theorem servesBody_of_short (h : body.delivered.length ≤ max) {reply : Message Payload}
    (hreply : reply.payload = .bytes body.delivered) :
    ServesBody max body (if body.err = ioEOF then .ok reply else .error body.err) := by
  by_cases heof : body.err = ioEOF
  · rw [if_pos heof]
    refine ⟨⟨fun _ => ⟨h, heof⟩, fun _ => ⟨reply, rfl⟩⟩, fun reply' h' => ?_, fun hlong => ?_,
      fun _ hne => absurd heof hne⟩
    · obtain rfl := Except.ok.inj h'
      exact hreply
    · omega
  · rw [if_neg heof]
    exact ⟨⟨fun ⟨_, h⟩ => (by cases h), fun h => absurd h.2 heof⟩, fun _ h => (by cases h),
      fun hlong => (by omega), fun _ _ => rfl⟩

/-- A body is served wrongly exactly when it has as many bytes as the limit and then an error that
is not `io.EOF` but wraps it. -/
theorem exchange_servesBody_iff (cfg : Config) (max : ℕ) (room : ℕ → ℕ) (req : Message Payload)
    (resp : Response) (body : Reader Err) (id : String) (now : ℤ) :
    ServesBody max body (exchange cfg max room req resp body id now) ↔
      ¬(body.delivered.length = max ∧ body.last = [] ∧ body.err ≠ ioEOF ∧
        body.err.is .eof = true) := by
  have hreply := payload_buildReply cfg req resp body.delivered id now
  unfold exchange
  by_cases hlong : max < body.delivered.length
  · rw [readReply_of_long hlong]
    exact ⟨fun _ h => absurd h.1 (by omega), fun _ => servesBody_of_long hlong⟩
  have hshort : body.delivered.length ≤ max := by omega
  by_cases hexact : body.delivered.length = max ∧ body.last = []
  · have hserves := servesBody_of_short hshort hreply
    rw [readReply_of_exact hexact.1 hexact.2]
    by_cases heof : body.err = ioEOF
    · rw [if_pos heof] at hserves
      rw [heof]
      exact ⟨fun _ h => h.2.2.1 rfl, fun _ => hserves⟩
    · rw [if_neg heof] at hserves
      cases his : body.err.is .eof with
      | true =>
          exact ⟨fun h => absurd (h.success.mp ⟨_, rfl⟩).2 heof,
            fun h => absurd ⟨hexact.1, hexact.2, heof, rfl⟩ h⟩
      | false => exact ⟨fun _ h => (by cases h.2.2.2), fun _ => hserves⟩
  · have hends : body.delivered.length < max ∨
        body.delivered.length = max ∧ body.last ≠ [] := by
      by_cases heq : body.delivered.length = max
      · exact .inr ⟨heq, fun hlast => hexact ⟨heq, hlast⟩⟩
      · exact .inl (by omega)
    rw [readReply_of_ends hends, apply_ite (Except.map _)]
    exact ⟨fun _ h => hexact ⟨h.1, h.2.1⟩, fun _ => servesBody_of_short hshort hreply⟩

/-- A body of two bytes that the transport breaks off with an error around `io.EOF`. -/
def brokenOff : Reader Err := ⟨[[104, 105]], [], .wrapped "stream reset: " "" ioEOF⟩

def silentConfig : Config := ⟨0, [], [], 202, none, none, none⟩

/-- The first part of a longer body is the reply. -/
theorem brokenOff_served :
    brokenOff.err ≠ ioEOF ∧
    (∃ reply, exchange silentConfig 2 (fun _ => 511) ⟨.bytes [], ⟨fun _ => none⟩⟩ ⟨fun _ => ""⟩
        brokenOff "1" 0 = .ok reply ∧ reply.payload = .bytes [104, 105]) ∧
    ¬ServesBody 2 brokenOff (exchange silentConfig 2 (fun _ => 511) ⟨.bytes [], ⟨fun _ => none⟩⟩
      ⟨fun _ => ""⟩ brokenOff "1" 0) := by
  have hne : brokenOff.err ≠ ioEOF := by decide
  have hread : readReply 2 (fun _ => 511) brokenOff = .ok [104, 105] :=
    readReply_of_exact rfl rfl
  have hserved : exchange silentConfig 2 (fun _ => 511) ⟨.bytes [], ⟨fun _ => none⟩⟩ ⟨fun _ => ""⟩
      brokenOff "1" 0 = .ok (buildReply silentConfig ⟨.bytes [], ⟨fun _ => none⟩⟩ ⟨fun _ => ""⟩
        [104, 105] "1" 0) := by
    rw [exchange, hread]
    rfl
  refine ⟨hne, ⟨_, hserved, payload_buildReply ..⟩, fun h => ?_⟩
  exact hne (h.success.mp ⟨_, hserved⟩).2

end Msgin.Http
