import Msgin.HttpInbound

/-!
# The response to a request that failed

Both cores answer a failure with the status of the configured mapper. A mapper that panics is
answered with 500. A code that is no final status is lost: the tracker counts the response as
committed before `net/http` has accepted the code, so the recovery drops its own 500 and the client
is told 200.
-/

namespace Msgin.Http

inductive Core
  | async (send : Message Payload → Except Panic (Option Err))
  | gateway (exchange : Message Payload → Except Panic (Except Err (Message Payload)))
      (bodyWrite : Bytes → Except Panic (Option Err))

def Core.serve (r : Request) (cfg : Option Config) (id : String) (now : ℤ) : Core → Handler Unit
  | async send => serveAsync r send cfg id now
  | gateway exchange bodyWrite => serveGateway r exchange bodyWrite cfg id now

def Core.process (msg : Message Payload) : Core → Except Panic (Option Err)
  | async send => send msg
  | gateway exchange _ =>
    match exchange msg with
    | .error p => .error p
    | .ok (.error err) => .ok (some err)
    | .ok (.ok reply) =>
      match payloadBytes reply.payload with
      | .error err => .ok (some err)
      | .ok _ => .ok none

def Core.outcome (core : Core) (r : Request) (cfg : Option Config) (id : String) (now : ℤ) :
    Except Panic (Option Err) :=
  match decodeRequest r cfg id now with
  | .error p => .error p
  | .ok (.error err) => .ok (some err)
  | .ok (.ok msg) => core.process msg

def Core.handle (cfg : Option Config) (msg : Message Payload) : Core → Handler Unit
  | async send => do
    match ← send msg with
    | some err => reportError cfg err
    | none => writeHeader (successStatusOrDefault cfg)
  | gateway exchange bodyWrite => do
    match ← exchange msg with
    | .error err => reportError cfg err
    | .ok reply =>
      match ← encodeResponse reply bodyWrite with
      | none => return ()
      | some err => if err.is .errWriteResponse then return () else reportError cfg err

def Core.resume (core : Core) (cfg : Option Config) : Except Err (Message Payload) → Handler Unit
  | .error err => reportError cfg err
  | .ok msg => core.handle cfg msg

variable {core : Core} {r : Request} {cfg : Option Config} {id : String} {now : ℤ}

theorem serve_eq (core : Core) (r : Request) (cfg : Option Config) (id : String) (now : ℤ) :
    core.serve r cfg id now =
      recoverHandler (liftM (decodeRequest r cfg id now) >>= core.resume cfg) := by
  cases core with
  | async send => rfl
  | gateway exchange bodyWrite => rfl

variable {msg : Message Payload} {err : Err} {p : Panic}

theorem is_writeResponse_of_payloadBytes (h : payloadBytes msg.payload = .error err) :
    err.is .errWriteResponse = false := by
  unfold payloadBytes at h
  split at h
  · cases h
  · cases h
  · cases h
    rfl

theorem encodeResponse_of_payloadBytes (bodyWrite : Bytes → Except Panic (Option Err))
    (h : payloadBytes msg.payload = .error err) :
    encodeResponse msg bodyWrite = pure (some err) := by
  unfold encodeResponse
  rw [h]

theorem handle_of_panic (h : core.process msg = .error p) : core.handle cfg msg = throw p := by
  cases core with
  | async send =>
      have hsend : send msg = .error p := h
      dsimp only [Core.handle]
      rw [hsend]
      rfl
  | gateway exchange bodyWrite =>
      dsimp only [Core.process] at h
      dsimp only [Core.handle]
      split at h
      · next hexchange =>
          cases h
          rw [hexchange]
          rfl
      · cases h
      · split at h
        · cases h
        · cases h

theorem handle_of_error (h : core.process msg = .ok (some err)) :
    core.handle cfg msg = reportError cfg err := by
  cases core with
  | async send =>
      have hsend : send msg = .ok (some err) := h
      dsimp only [Core.handle]
      rw [hsend]
      rfl
  | gateway exchange bodyWrite =>
      dsimp only [Core.process] at h
      dsimp only [Core.handle]
      split at h
      · cases h
      · next hexchange =>
          cases h
          rw [hexchange]
          rfl
      · next reply hexchange =>
          split at h
          · next hpayload =>
              cases h
              rw [hexchange]
              change (encodeResponse reply bodyWrite >>= _) = _
              rw [encodeResponse_of_payloadBytes bodyWrite hpayload, pure_bind]
              dsimp only
              rw [is_writeResponse_of_payloadBytes hpayload, if_neg Bool.false_ne_true]
          · cases h

theorem serve_of_panic (h : core.outcome r cfg id now = .error p) :
    core.serve r cfg id now = recoverHandler (throw p) := by
  rw [serve_eq]
  unfold Core.outcome at h
  split at h
  · next hdecode =>
      cases h
      rw [hdecode]
      rfl
  · cases h
  · next msg hdecode =>
      rw [hdecode, ← handle_of_panic h]
      rfl

theorem serve_of_error (h : core.outcome r cfg id now = .ok (some err)) :
    core.serve r cfg id now = recoverHandler (reportError cfg err) := by
  rw [serve_eq]
  unfold Core.outcome at h
  split at h
  · cases h
  · next hdecode =>
      cases h
      rw [hdecode]
      rfl
  · next msg hdecode =>
      rw [hdecode, ← handle_of_error h]
      rfl

theorem reportError_of_panic (h : errStatus cfg err = .error p) :
    reportError cfg err = throw p := by
  unfold reportError
  rw [h]
  rfl

theorem reportError_of_status {status : ℤ} (h : errStatus cfg err = .ok status) :
    reportError cfg err = writeHeader status := by
  unfold reportError
  rw [h]
  rfl

theorem run_writeHeader (status : ℤ) (w : Wire) :
    (writeHeader status).run.run ⟨w, false⟩ =
      match w.writeHeader status with
      | .ok w' => (.ok (), ⟨w', true⟩)
      | .error p => (.error p, ⟨w, true⟩) := by
  change (do let w ← liftM (w.writeHeader status); set (⟨w, true⟩ : ResponseTracker) :
    Handler Unit).run.run ⟨w, true⟩ = _
  cases w.writeHeader status with
  | ok w' => rfl
  | error p => rfl

theorem run_recoverHandler (h : Handler Unit) (t : ResponseTracker) :
    (recoverHandler h).run.run t =
      match h.run.run t with
      | (.ok (), t) => (.ok (), t)
      | (.error .abortHandler, t) => (.error .abortHandler, t)
      | (.error (.other _), t) => (writeHeader 500).run.run t := by
  simp only [recoverHandler, tryCatch, tryCatchThe, MonadExceptOf.tryCatch, ExceptT.tryCatch,
    ExceptT.run, ExceptT.mk, StateT.run_bind]
  rcases StateT.run h t with ⟨res, t⟩
  cases res with
  | ok u => rfl
  | error p =>
      cases p with
      | abortHandler => rfl
      | other r => rfl

theorem received_recoverHandler_writeHeader (status : ℤ) :
    received (recoverHandler (writeHeader status)) =
      if 200 ≤ status ∧ status ≤ 999 then [status] else [200] := by
  by_cases hrange : status < 100 ∨ 999 < status
  · have hwire : Wire.writeHeader ⟨[]⟩ status =
        .error (.other ("invalid WriteHeader code " ++ toString status)) := by
      simp [Wire.writeHeader, Wire.finals, hrange]
    unfold received
    rw [run_recoverHandler, run_writeHeader, hwire, if_neg (by omega)]
    rfl
  · have hwire : Wire.writeHeader ⟨[]⟩ status = .ok ⟨[status]⟩ := by
      simp [Wire.writeHeader, Wire.finals, hrange]
    unfold received
    rw [run_recoverHandler, run_writeHeader, hwire]
    by_cases hfinal : 200 ≤ status
    · rw [if_pos (by omega)]
      simp [Wire.write, Wire.finals, hfinal]
    · rw [if_neg (by omega)]
      simp [Wire.write, Wire.finals, hfinal]

theorem toldOfFailure_of_panic (p : Panic) :
    ToldOfFailure (recoverHandler (throw p)) ↔ p ≠ .abortHandler := by
  cases p with
  | abortHandler =>
      constructor
      · rintro ⟨code, hreceived, -⟩
        cases hreceived
      · intro hne
        exact absurd rfl hne
  | other r =>
      constructor
      · intro _ heq
        cases heq
      · intro _
        exact ⟨500, rfl, by omega⟩

theorem toldOfFailure_of_status (status : ℤ) :
    ToldOfFailure (recoverHandler (writeHeader status)) ↔ 300 ≤ status ∧ status ≤ 999 := by
  unfold ToldOfFailure
  rw [received_recoverHandler_writeHeader]
  constructor
  · rintro ⟨code, hreceived, hcode⟩
    split at hreceived
    · cases hreceived
      omega
    · cases hreceived
      omega
  · intro hstatus
    exact ⟨status, if_pos (by omega), by omega⟩

/-- The mapper of the configuration gives this error a code that the client takes as a failure, or
panics in its own right. -/
def Mapped (cfg : Option Config) (err : Err) : Prop :=
  match errStatus cfg err with
  | .ok status => 300 ≤ status ∧ status ≤ 999
  | .error p => p ≠ .abortHandler

theorem toldOfFailure_of_error (err : Err) :
    ToldOfFailure (recoverHandler (reportError cfg err)) ↔ Mapped cfg err := by
  unfold Mapped
  split
  · next status hstatus =>
      rw [reportError_of_status hstatus]
      exact toldOfFailure_of_status status
  · next p hpanic =>
      rw [reportError_of_panic hpanic]
      exact toldOfFailure_of_panic p

/-- A client whose request was not processed is told so, by one final status, exactly when the
processing was not aborted on purpose and the error, if there is one, is mapped to a code in
300..999 or its mapper panics. -/
theorem toldOfFailure_iff (core : Core) (r : Request) (cfg : Option Config) (id : String) (now : ℤ)
    (hfailed : core.outcome r cfg id now ≠ .ok none) :
    ToldOfFailure (core.serve r cfg id now) ↔
      core.outcome r cfg id now ≠ .error .abortHandler ∧
        ∀ err, core.outcome r cfg id now = .ok (some err) → Mapped cfg err := by
  cases houtcome : core.outcome r cfg id now with
  | error p =>
      rw [serve_of_panic houtcome, toldOfFailure_of_panic]
      constructor
      · intro hp
        refine ⟨fun heq => hp (Except.error.inj heq), ?_⟩
        intro err heq
        cases heq
      · rintro ⟨hp, -⟩ rfl
        exact hp rfl
  | ok err =>
      cases err with
      | none => exact absurd houtcome hfailed
      | some err =>
          rw [serve_of_error houtcome, toldOfFailure_of_error]
          constructor
          · intro hmapped
            constructor
            · intro heq
              cases heq
            · intro err' heq
              cases heq
              exact hmapped
          · rintro ⟨-, hmapped⟩
            exact hmapped err rfl

def emptyRequest : Request := ⟨none, fun _ => "", "POST", "/orders", ""⟩

def mappedTo (status : ℤ) : Config where
  maxBodyBytes := 0
  requestHeaders := []
  replyHeaders := []
  successStatus := 202
  errorStatus := some fun _ => .ok status
  correlationID := none
  trustedCorrelation := none

def refusing : Core := .async fun _ => .ok (some (.sentinel .errOverflowDropped))

theorem toldOfFailure_iff_conflict :
    ToldOfFailure (refusing.serve emptyRequest (some (mappedTo 409)) "m1" 0) := by
  apply (toldOfFailure_iff refusing emptyRequest (some (mappedTo 409)) "m1" 0 ?_).2
  · constructor
    · intro h
      cases h
    · intro err _
      exact ⟨by omega, by omega⟩
  · intro h
    cases h

/-- A mapper without an answer returns 0, and the client is told 200 for a send that failed. -/
theorem received_of_zero_status :
    refusing.outcome emptyRequest (some (mappedTo 0)) "m1" 0 =
        .ok (some (.sentinel .errOverflowDropped)) ∧
      errStatus (some (mappedTo 0)) (.sentinel .errOverflowDropped) = .ok 0 ∧
      received (refusing.serve emptyRequest (some (mappedTo 0)) "m1" 0) = [200] :=
  ⟨rfl, rfl, rfl⟩

end Msgin.Http
