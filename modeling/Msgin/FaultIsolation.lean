import Msgin.ConsumerRun
import Msgin.Unwinding

/-!
# Fault isolation of a worker

A worker isolates a delivery when `process` returns, the credit of the delivery has been given
back once, and every probe it was granted has been followed by a `Record`. Every wrapped
collaborator may return what it likes or panic. The delivery is isolated exactly when the calls
without a wrapper return. A dispatch that unwinds has settled nothing.
-/

namespace Msgin

open Interaction Prog

variable {P T : Type}

def Outcome.isPanicked {α : Type} : Outcome α → Bool
  | .returned _ => false
  | .panicked _ => true

/-- A panic that no wrapper recovers. -/
def isBarePanic : BareEvent P T → Bool
  | ⟨.bare _, o⟩ => o.isPanicked
  | _ => false

def isSettle : BareEvent P T → Bool
  | ⟨.guarded q, _⟩ => q.settles.isSome
  | _ => false

def isGrantedProbe : BareEvent P T → Bool
  | ⟨.guarded .tryProbe, .returned true⟩ => true
  | _ => false

def isRecord : BareEvent P T → Bool
  | ⟨.guarded (.recordOutcome _), _⟩ => true
  | _ => false

def isRelease (d : ℕ) : BareEvent P T → Bool
  | ⟨.guarded (.releaseOnce x), _⟩ => x == d
  | _ => false

def RunState.bareEffect (s : RunState P T) : BareEvent P T → RunState P T
  | ⟨.guarded q, r⟩ => s.effect q r
  | _ => s

/-- How process ended and what it called, for delivery `d`. -/
structure Isolated (d : ℕ) (o : Outcome Unit) (es : List (BareEvent P T)) : Prop where
  returns : o = .returned ()
  released : ∀ s : RunState P T, d ∉ s.released →
    (es.foldl RunState.bareEffect s).given d = s.given d + 1
  recorded : ∀ pre e post, es = pre ++ e :: post → isGrantedProbe e = true →
    post.any isRecord = true

/-- Whether a panic is unwinding, a granted probe waits for its `Record`, the release has been
called, and the delivery has been settled. -/
structure Watch where
  unwinding : Bool := false
  probing : Bool := false
  released : Bool := false
  settled : Bool := false

namespace Watch

def next (d : ℕ) (m : Watch) (q : BareCall P T) (r : q.Answer) : Option Watch :=
  some ⟨isBarePanic ⟨q, r⟩ || m.unwinding,
    isGrantedProbe ⟨q, r⟩ || (!isRecord ⟨q, r⟩ && m.probing), isRelease d ⟨q, r⟩ || m.released,
    isSettle ⟨q, r⟩ || m.settled⟩

def Ready (b : Bool) (m : Watch) : Prop := m.unwinding = false ∧ m.probing = b

def Carries {α : Type} (b : Bool) (o : Outcome α) (m : Watch) : Prop :=
  m.unwinding = o.isPanicked ∧ m.probing = b

/-- The routine unwinds exactly when one of its bare calls panics, then it has settled nothing,
and it leaves probes alone. -/
def Tracks {α : Type} (d : ℕ) (p : BareRoutine P T (Outcome α)) : Prop :=
  ∀ b m, Ready b m →
    Meets (next d) (fun o m' => Carries b o m' ∧ (o.isPanicked = true → m'.settled = m.settled)) p m

/-- A routine of bare calls that settles nothing. -/
def Asks {α : Type} (d : ℕ) (p : BareRoutine P T (Outcome α)) : Prop :=
  ∀ b m, Ready b m → Meets (next d) (fun o m' => Carries b o m' ∧ m'.settled = m.settled) p m

/-- A routine that makes no bare call. -/
def Ends {α : Type} (d : ℕ) (p : BareRoutine P T (Outcome α)) : Prop :=
  ∀ b m, Ready b m → Meets (next d) (fun o m' => Carries b o m' ∧ o.isPanicked = false) p m

/-- The calls of a routine that `dispatch` guards. -/
def DispatchCall (x : ℕ) (q : Call P T) : Prop :=
  q.isDispatch = true ∨ q.settles = some x ∨ q = .releaseOnce x

variable {q : Call P T}

section Tracks

variable {d : ℕ} {α β : Type}

theorem next_of_isDispatch (hq : q.isDispatch = true) (r : q.Answer) (m : Watch) :
    next d m (.guarded q) r = some m := by
  cases q <;> first | rfl | cases hq

theorem next_of_dispatchCall {x : ℕ} (hq : DispatchCall x q) (r : q.Answer) {b : Bool} {m : Watch}
    (hm : Ready b m) : ∃ m', next d m (.guarded q) r = some m' ∧ Ready b m' := by
  rcases hq with hq | hq | rfl
  · exact ⟨m, next_of_isDispatch hq r m, hm⟩
  · refine ⟨{ m with settled := true }, ?_, hm⟩
    cases q <;> first | rfl | cases hq
  · exact ⟨_, rfl, hm⟩

/-- A routine that `dispatch` guards calls nothing but what `φ` allows. -/
theorem meets_guarded {φ : Call P T → Prop} {I : Watch → Prop} {p : Routine P T α}
    (hp : Only φ p) (hφ : ∀ m q r, φ q → I m → ∃ m', next d m (.guarded q) r = some m' ∧ I m')
    {m : Watch} (hm : I m) : Meets (next d) (fun _ m' => I m') (guarded p) m := by
  have honly : Only (fun q => ∃ q', q = BareCall.guarded q' ∧ φ q') (guarded p) :=
    hp.interpret fun q hq => only_call ⟨q, rfl, hq⟩
  refine honly.meets ?_ hm
  rintro m' _ r ⟨q, rfl, hq⟩ hm'
  exact hφ m' q r hq hm'

theorem ends_return (a : α) : Ends d (return .returned a : BareRoutine P T (Outcome α)) :=
  fun _ _ hm => ⟨hm, rfl⟩

variable {f : α → BareRoutine P T (Outcome β)} {p : BareRoutine P T (Outcome α)}

theorem Ends.guarded_bind {x : ℕ} {p : Routine P T α} (hp : Only (DispatchCall x) p)
    (hf : ∀ a, Ends d (f a)) : Ends d (guarded p >>= f) := by
  intro b m hm
  rw [meets_bind]
  refine (meets_guarded hp (fun m q r hq hm => next_of_dispatchCall hq r hm) hm).mono ?_
  exact fun a m' hm' => hf a b m' hm'

theorem Ends.tracks (hp : Ends d p) : Tracks d p := by
  intro b m hm
  refine (hp b m hm).mono fun o m' hm' => ⟨hm'.1, fun h => ?_⟩
  rw [hm'.2] at h
  cases h

theorem Tracks.quiet_bind {p : Routine P T α} (hp : Only (fun q => q.isDispatch = true) p)
    (hf : ∀ a, Tracks d (f a)) : Tracks d (guarded p >>= f) := by
  intro b m hm
  rw [meets_bind]
  refine (meets_guarded (I := (· = m)) hp ?_ rfl).mono ?_
  · rintro _ q r hq rfl
    exact ⟨_, next_of_isDispatch hq r _, rfl⟩
  · rintro a _ rfl
    exact hf a b _ hm

theorem Tracks.unwind (hp : Tracks d p) (hf : ∀ a, Ends d (f a)) :
    Tracks d (p >>= fun o => o.unwind f) := by
  intro b m hm
  rw [meets_bind]
  refine (hp b m hm).mono fun o m' hm' => ?_
  cases o with
  | returned a =>
      refine (hf a b m' hm'.1).mono fun o m'' hm'' => ⟨hm''.1, fun h => ?_⟩
      rw [hm''.2] at h
      cases h
  | panicked r => exact hm'

theorem Asks.unwind (hp : Asks d p) (hf : ∀ a, Tracks d (f a)) :
    Tracks d (p >>= fun o => o.unwind f) := by
  intro b m hm
  rw [meets_bind]
  refine (hp b m hm).mono fun o m' hm' => ?_
  cases o with
  | returned a =>
      refine (hf a b m' hm'.1).mono fun o m'' hm'' => ⟨hm''.1, fun h => ?_⟩
      rw [hm''.2 h, hm'.2]
  | panicked r => exact ⟨hm'.1, fun _ => hm'.2⟩

theorem asks_return (a : α) : Asks d (return .returned a : BareRoutine P T (Outcome α)) :=
  fun _ _ hm => ⟨hm, rfl⟩

theorem asks_bare (q : Bare) : Asks d (bare q : BareRoutine P T (Outcome q.Value)) := by
  intro b m hm r
  cases r with
  | returned v => exact ⟨m, rfl, hm, rfl⟩
  | panicked r => exact ⟨_, rfl, ⟨rfl, hm.2⟩, rfl⟩

/-- What is computed from the answers of bare calls. -/
theorem Asks.map (hp : Asks d p) (f : α → β) :
    Asks d (p >>= fun o => o.unwind fun a => return .returned (f a)) := by
  intro b m hm
  rw [meets_bind]
  refine (hp b m hm).mono fun o m' hm' => ?_
  cases o with
  | returned a => exact hm'
  | panicked r => exact hm'

theorem asks_inspect (err : Err) :
    Asks d (Unwinding.inspect err : BareRoutine P T (Outcome Unit)) := by
  unfold Unwinding.inspect
  split
  · exact asks_bare (.inspect err)
  · exact asks_return ()

variable (md : Delivery P) (c : Consumer P T) (hook : Hook) (cause : Err) (n : ℤ)

theorem asks_invalidTarget : Asks d (Unwinding.invalidTarget c cause) := by
  unfold Unwinding.invalidTarget
  split
  · exact asks_return _
  · exact (asks_inspect cause).map _

theorem asks_retryDelay (p : RetryPolicy) (n : ℤ) :
    Asks d (Unwinding.retryDelay p n : BareRoutine P T (Outcome ℤ)) := by
  unfold Unwinding.retryDelay
  split
  · exact asks_return 0
  · exact asks_bare _

theorem asks_exhausted : Asks d (Unwinding.exhausted c n) := by
  unfold Unwinding.exhausted
  split
  · exact (asks_bare .nativeDeadLetter).map _
  · exact asks_return false

theorem asks_healthy (err : Option Err) :
    Asks d (Unwinding.healthy err : BareRoutine P T (Outcome Bool)) := by
  cases err with
  | none => exact asks_return true
  | some err => exact (asks_inspect err).map _

theorem dispatchCall_of_isDispatch (q : Call P T) (h : q.isDispatch = true) :
    DispatchCall md.tag q := Or.inl h

theorem only_dispatchCall {p : Routine P T α}
    (h : ∀ {φ : Call P T → Prop}, (∀ q, q.isDispatch = true → φ q) →
      (∀ q, q.settles = some md.tag → φ q) → (md.managed = true → φ (.releaseOnce md.tag)) →
      Only φ p) : Only (DispatchCall md.tag) p :=
  h (dispatchCall_of_isDispatch md) (fun _ hq => .inr (.inl hq)) fun _ => .inr (.inr rfl)

theorem ends_nack (requeue : Bool) (delay : ℤ) :
    Ends d (do guarded (do finish (← safeNack md requeue delay)); return .returned () :
      BareRoutine P T (Outcome Unit)) :=
  Ends.guarded_bind (only_dispatchCall md fun h₁ h₂ h₃ =>
    only_finish_safeNack h₁ h₂ h₃ requeue delay) fun _ => ends_return ()

theorem ends_settleTerminal :
    Ends d (do return .returned (← guarded (settleTerminal c md hook cause))) :=
  Ends.guarded_bind (only_dispatchCall md fun h₁ h₂ h₃ =>
    only_settleTerminal h₁ h₂ h₃ c hook cause) ends_return

theorem ends_evicting (settled : Bool) :
    Ends d (Unwinding.evicting md settled : BareRoutine P T (Outcome Unit)) := by
  refine Ends.guarded_bind (x := md.tag) ?_ fun _ => ends_return ()
  split
  · exact only_perform (dispatchCall_of_isDispatch md _ rfl)
  · exact only_pure ()

theorem tracks_redeliver : Tracks d (Unwinding.redeliver c md cause n) := by
  refine Tracks.quiet_bind (only_safeFire (fun _ h => h) c _ _ _) fun _ => ?_
  exact (asks_retryDelay c.policy n).unwind fun delay => (ends_nack md true delay).tracks

theorem tracks_divert (sink : Option OutboundAdapter) (hook : Hook) (cause : Err) (n : ℤ) :
    Tracks d (Unwinding.divert c sink md hook cause n) := by
  refine Tracks.quiet_bind (only_safeSend (fun _ h => h) sink md.msg) fun err => ?_
  cases err with
  | some err => exact (tracks_redeliver md c cause n).unwind fun _ => ends_return false
  | none => exact (ends_settleTerminal md c hook cause).tracks

theorem tracks_divertTerminal (sink : Option OutboundAdapter) (hook : Hook) (cause : Err) :
    Tracks d (Unwinding.divertTerminal c sink md hook cause) := by
  have hsettle := ends_settleTerminal (d := d) md c hook cause
  cases sink with
  | none =>
      refine (asks_inspect cause).unwind fun _ => Ends.tracks ?_
      exact Ends.guarded_bind (only_dispatchCall md fun h₁ h₂ h₃ =>
        (only_warnDiscard h₁ md cause).bind fun _ => only_settleTerminal h₁ h₂ h₃ c hook cause)
        ends_return
  | some s =>
      refine Tracks.quiet_bind (only_safeSend (fun _ h => h) (some s) md.msg) fun err => ?_
      cases err with
      | none => exact hsettle.tracks
      | some err =>
          refine Tracks.quiet_bind (only_perform rfl) fun done => ?_
          refine (asks_inspect cause).unwind fun _ => Ends.tracks ?_
          exact Ends.guarded_bind (only_dispatchCall md fun h₁ h₂ h₃ =>
            only_settleRefused h₁ h₂ h₃ c hook cause err done) ends_return

theorem tracks_settleInvalid : Tracks d (Unwinding.settleInvalid c md cause) := by
  refine (asks_invalidTarget c cause).unwind fun target => Tracks.quiet_bind ?_ fun _ => ?_
  · split
    · exact only_warnInvalidFallback (fun _ h => h) _
    · exact only_pure ()
  · exact (tracks_divertTerminal md c target.1 _ cause).unwind (ends_evicting md)

theorem tracks_settleTransient : Tracks d (Unwinding.settleTransient c md cause) := by
  refine Tracks.quiet_bind (only_attempts (fun _ h => h) md) fun n => ?_
  refine (asks_exhausted c n).unwind fun exhausted => ?_
  split
  · exact (tracks_divert md c _ _ cause n).unwind (ends_evicting md)
  · exact tracks_redeliver md c cause n

theorem tracks_dispatch : Tracks d (Unwinding.dispatch c md) := by
  refine Tracks.quiet_bind (only_decode (fun _ h => h) c md.msg) fun res => ?_
  cases res with
  | inr derr => exact (tracks_settleInvalid md c derr).unwind fun _ => ends_return _
  | inl payload =>
      refine Tracks.quiet_bind (only_safeHandle (fun _ h => h) _) fun err => ?_
      cases err with
      | none =>
          refine Ends.tracks (Ends.guarded_bind (only_dispatchCall md fun h₁ h₂ h₃ =>
            only_safeAck h₁ h₂ h₃) fun ackErr => ?_)
          refine Ends.guarded_bind (only_finish (dispatchCall_of_isDispatch md) ackErr)
            fun _ => ?_
          split
          · refine Ends.guarded_bind (only_safeFire (dispatchCall_of_isDispatch md) c _ _ _)
              fun _ => ?_
            exact Ends.guarded_bind (only_perform (dispatchCall_of_isDispatch md _ rfl))
              fun _ => ends_return none
          · exact ends_return none
      | some err =>
          refine (asks_inspect err).unwind fun _ => ?_
          dsimp only
          split
          · exact (tracks_settleInvalid md c err).unwind fun _ => ends_return _
          · exact (tracks_settleTransient md c err).unwind fun _ => ends_return _

end Tracks

section Governors

variable {d : ℕ}

theorem meets_governorPanic (method id r : String) (m : Watch) :
    Meets (next d) (fun _ m' => m' = m) (guarded (governorPanic method id r : Routine P T Unit))
      m := by
  intro logged
  refine ⟨m, rfl, ?_⟩
  cases logged with
  | true => rfl
  | false => exact fun _ => ⟨m, rfl, rfl⟩

variable {m : Watch}

theorem meets_failOpen (method id : String) (o : Outcome Bool)
    (ho : m.probing = true → o = .returned true) :
    Meets (next d) (fun ok m' => m' = m ∧ (m.probing = true → ok = true))
      (guarded (failOpen method id o : Routine P T Bool)) m := by
  cases o with
  | returned ok => exact ⟨rfl, fun h => Outcome.returned.inj (ho h)⟩
  | panicked r =>
      have hbind : guarded (failOpen method id (.panicked r) : Routine P T Bool) =
          guarded (governorPanic method id r) >>= fun _ => ret true := interpret_bind _ _
      rw [hbind, meets_bind]
      refine (meets_governorPanic method id r m).mono fun _ m' hm' => ?_
      exact ⟨hm', fun _ => rfl⟩

variable (c : Consumer P T) (id : String) (md : Delivery P)

theorem meets_dispatchAllowed (hm : Ready false m) :
    Meets (next d) (fun ok m' => m'.unwinding = false ∧ (m'.probing = true → ok = true))
      (guarded (dispatchAllowed c id)) m := by
  have hend : ∀ (method : String) (o : Outcome Bool) (m' : Watch), m'.unwinding = false →
      (m'.probing = true → o = .returned true) →
      Meets (next d) (fun ok m' => m'.unwinding = false ∧ (m'.probing = true → ok = true))
        (guarded (failOpen method id o : Routine P T Bool)) m' := by
    intro method o m' hunwinding ho
    refine (meets_failOpen method id o ho).mono fun ok m'' hm'' => ?_
    rw [hm''.1]
    exact ⟨hunwinding, hm''.2⟩
  have hidle : ∀ o : Outcome Bool, m.probing = true → o = .returned true := by
    intro o h
    rw [hm.2] at h
    cases h
  unfold dispatchAllowed
  split
  · intro o
    rcases o with ok | r
    · cases ok with
      | true => exact ⟨_, rfl, hend "ProbeGate.TryProbe" (.returned true) { m with probing := true }
          hm.1 fun _ => rfl⟩
      | false => exact ⟨m, rfl, hend "ProbeGate.TryProbe" (.returned false) m hm.1 (hidle _)⟩
    · exact ⟨m, rfl, hend "ProbeGate.TryProbe" (.panicked r) m hm.1 (hidle _)⟩
  · exact fun o => ⟨m, rfl, hend "CircuitBreaker.Allow" o m hm.1 (hidle o)⟩

theorem meets_denied (hm : Ready false m) :
    Meets (next d) (fun denied m' => m'.unwinding = false ∧
        (m'.probing = true → denied = false ∧ c.breaker = true))
      (guarded (if c.breaker then return !(← dispatchAllowed c id) else return false)) m := by
  by_cases hbreaker : c.breaker = true
  · rw [if_pos hbreaker]
    have hbind : guarded (do return !(← dispatchAllowed c id)) =
        guarded (dispatchAllowed c id) >>= fun ok => ret (!ok) := interpret_bind _ _
    rw [hbind, meets_bind]
    refine (meets_dispatchAllowed c id hm).mono fun ok m' hm' => ⟨hm'.1, fun h => ⟨?_, hbreaker⟩⟩
    rw [hm'.2 h]
    rfl
  · rw [if_neg hbreaker]
    refine ⟨hm.1, fun h => ?_⟩
    rw [hm.2] at h
    cases h

theorem meets_safeRecord (success : Bool) (hm : m.unwinding = false) :
    Meets (next d) (fun _ m' => Ready false m')
      (guarded (safeRecord id success : Routine P T Unit)) m := by
  intro o
  refine ⟨_, rfl, ?_⟩
  cases o with
  | returned u => exact ⟨hm, rfl⟩
  | panicked r =>
      refine (meets_governorPanic _ id r _).mono fun _ m' hm' => ?_
      rw [hm']
      exact ⟨hm, rfl⟩

/-- Where a worker that has not been told to stop is to end. -/
def Closed (o : Outcome Unit) (m : Watch) : Prop :=
  m.unwinding = o.isPanicked ∧ (o.isPanicked = false → m.probing = false)

theorem Carries.closed {o : Outcome Unit} (h : Carries false o m) : Closed o m :=
  ⟨h.1, fun _ => h.2⟩

theorem meets_record (err : Option Err) (hm : m.unwinding = false)
    (hprobing : m.probing = true → c.breaker = true) :
    Meets (next d) Closed (Unwinding.record c md err) m := by
  unfold Unwinding.record
  split
  · refine (meets_bind _ _ _).mpr ((asks_healthy err m.probing m ⟨hm, rfl⟩).mono fun o m' hm' => ?_)
    cases o with
    | panicked r => exact ⟨hm'.1.1, fun h => Bool.noConfusion h⟩
    | returned success =>
        refine (meets_bind _ _ _).mpr ((meets_safeRecord _ success hm'.1.1).mono ?_)
        exact fun _ m'' hm'' => Carries.closed hm''
  · next hbreaker =>
      refine ⟨hm, fun _ => ?_⟩
      rw [Bool.eq_false_iff]
      exact fun h => hbreaker (hprobing h)

theorem meets_dispatched (hm : m.unwinding = false)
    (hprobing : m.probing = true → c.breaker = true) :
    Meets (next d) Closed (do (← Unwinding.dispatch c md).unwind (Unwinding.record c md)) m := by
  refine (meets_bind _ _ _).mpr ((tracks_dispatch md c m.probing m ⟨hm, rfl⟩).mono ?_)
  rintro o m' ⟨⟨hunwound, hprobed⟩, -⟩
  cases o with
  | panicked r => exact ⟨hunwound, fun h => Bool.noConfusion h⟩
  | returned err => exact meets_record c md err hunwound fun h => hprobing (hprobed ▸ h)

theorem meets_processUnreleased : Meets (next d) Closed (Unwinding.processUnreleased c md) {} := by
  have hnack : ∀ m, Ready false m → Meets (next d) Closed
      (do guarded (do finish (← safeNack md true 0)); return .returned () :
        BareRoutine P T (Outcome Unit)) m := by
    intro m hm
    exact (ends_nack md true 0 false m hm).mono fun o m' hm' => hm'.1.closed
  have hadmitted : Meets (next d) Closed
      (do if ← guarded (if c.breaker then return !(← dispatchAllowed c md.msg.id)
              else return false) then
            guarded (do finish (← safeNack md true 0))
            return .returned ()
          else (← Unwinding.dispatch c md).unwind (Unwinding.record c md)) {} := by
    refine (meets_bind _ _ _).mpr ((meets_denied c md.msg.id ⟨rfl, rfl⟩).mono ?_)
    rintro denied m ⟨hunwinding, hgranted⟩
    cases denied with
    | true =>
        refine hnack m ⟨hunwinding, ?_⟩
        rw [Bool.eq_false_iff]
        exact fun h => Bool.noConfusion (hgranted h).1
    | false => exact meets_dispatched c md hunwinding fun h => (hgranted h).2
  intro done
  refine ⟨_, rfl, ?_⟩
  cases done with
  | true => exact hnack _ ⟨rfl, rfl⟩
  | false => exact hadmitted

theorem meets_process :
    Meets (next md.tag) (fun o m' => Closed o m' ∧ m'.released = true)
      (Unwinding.process c md) {} := by
  refine (meets_bind _ _ _).mpr ((meets_processUnreleased c md).mono fun o m hm _ => ?_)
  exact ⟨_, rfl, hm, by simp [isRelease]⟩

end Governors

section Seen

variable {d : ℕ} {m m' : Watch} {es : List (BareEvent P T)}

theorem foldlM_cons_eq_some {e : BareEvent P T}
    (h : (e :: es).foldlM (fun m e => next d m e.1 e.2) m = some m') :
    es.foldlM (fun m e => next d m e.1 e.2)
      ⟨isBarePanic e || m.unwinding, isGrantedProbe e || (!isRecord e && m.probing),
        isRelease d e || m.released, isSettle e || m.settled⟩ = some m' := h

theorem unwinding_of_foldlM (h : es.foldlM (fun m e => next d m e.1 e.2) m = some m') :
    m'.unwinding = (m.unwinding || es.any isBarePanic) := by
  induction es generalizing m with
  | nil =>
      obtain rfl := Option.some.inj h
      simp
  | cons e es ih =>
      rw [ih (foldlM_cons_eq_some h), List.any_cons, Bool.or_comm (isBarePanic e), Bool.or_assoc]

theorem settled_of_foldlM (h : es.foldlM (fun m e => next d m e.1 e.2) m = some m') :
    m'.settled = (m.settled || es.any isSettle) := by
  induction es generalizing m with
  | nil =>
      obtain rfl := Option.some.inj h
      simp
  | cons e es ih =>
      rw [ih (foldlM_cons_eq_some h), List.any_cons, Bool.or_comm (isSettle e), Bool.or_assoc]

theorem record_of_foldlM (h : es.foldlM (fun m e => next d m e.1 e.2) m = some m')
    (hm : m.probing = true) (hm' : m'.probing = false) : es.any isRecord = true := by
  induction es generalizing m with
  | nil =>
      obtain rfl := Option.some.inj h
      rw [hm] at hm'
      cases hm'
  | cons e es ih =>
      rw [List.any_cons, Bool.or_eq_true]
      by_cases he : isRecord e = true
      · exact Or.inl he
      · refine Or.inr (ih (foldlM_cons_eq_some h) ?_)
        simp [he, hm]

theorem recorded_of_foldlM (h : es.foldlM (fun m e => next d m e.1 e.2) m = some m')
    (hm' : m'.probing = false) {pre post : List (BareEvent P T)} {e : BareEvent P T}
    (hes : es = pre ++ e :: post) (he : isGrantedProbe e = true) : post.any isRecord = true := by
  subst hes
  rw [List.foldlM_append] at h
  obtain ⟨m₁, -, hrest⟩ := Option.bind_eq_some_iff.mp h
  apply record_of_foldlM (foldlM_cons_eq_some hrest) ?_ hm'
  simp [he]

theorem effect_given (s : RunState P T) (r : q.Answer) (hq : ∀ x, q ≠ .releaseOnce x) :
    (s.effect q r).given = s.given ∧ (s.effect q r).released = s.released := by
  cases q with
  | releaseOnce x => exact absurd rfl (hq x)
  | acquire => cases r <;> exact ⟨rfl, rfl⟩
  | tryAcquire => cases r <;> exact ⟨rfl, rfl⟩
  | handOff md => cases r <;> exact ⟨rfl, rfl⟩
  | _ => exact ⟨rfl, rfl⟩

theorem bareEffect_given (s : RunState P T) (e : BareEvent P T) :
    (s.bareEffect e).given d = s.given d + (if isRelease d e ∧ d ∉ s.released then 1 else 0) ∧
      (d ∈ (s.bareEffect e).released ↔ isRelease d e = true ∨ d ∈ s.released) := by
  obtain ⟨q, r⟩ := e
  cases q with
  | bare b => simp [RunState.bareEffect, isRelease]
  | guarded q =>
      by_cases hq : ∃ x, q = .releaseOnce x
      · obtain ⟨x, rfl⟩ := hq
        by_cases hx : x = d
        · subst hx
          by_cases hs : x ∈ s.released <;>
            simp [RunState.bareEffect, RunState.effect, isRelease, hs]
        · have hdx : d ≠ x := fun h => hx h.symm
          by_cases hs : x ∈ s.released <;>
            simp [RunState.bareEffect, RunState.effect, isRelease, hs, hx, hdx]
      · have hother : isRelease d (⟨.guarded q, r⟩ : BareEvent P T) = false := by
          cases q <;> first | rfl | exact absurd ⟨_, rfl⟩ hq
        obtain ⟨hgiven, hreleased⟩ := effect_given s r (not_exists.mp hq)
        simp [RunState.bareEffect, hother, hgiven, hreleased]

theorem given_of_foldlM (h : es.foldlM (fun m e => next d m e.1 e.2) m = some m')
    (s : RunState P T) (hs : d ∈ s.released ↔ m.released = true) :
    (es.foldl RunState.bareEffect s).given d + m.released.toNat =
      s.given d + m'.released.toNat := by
  induction es generalizing m s with
  | nil =>
      obtain rfl := Option.some.inj h
      rfl
  | cons e es ih =>
      obtain ⟨hgiven, hreleased⟩ := bareEffect_given (d := d) s e
      have hrest := ih (foldlM_cons_eq_some h) (s.bareEffect e) (by simp [hreleased, hs])
      rw [hgiven] at hrest
      rw [List.foldl_cons]
      cases hr : isRelease d e <;> cases hm : m.released <;> simp_all
      all_goals omega

end Seen

end Watch

/-- A delivery is isolated exactly when no call of the policy's `Backoff`, of the source's
`NativeDeadLetter` and of a method of the handler's error panics. Where they return, the worker is
that of the settlement path. -/
theorem process_isolated_iff (c : Consumer P T) (md : Delivery P) (env : BareEnvironment P T) :
    Matches c (Unwinding.process c md) (process c md) ∧
    (Isolated md.tag ((Unwinding.process c md).exec env []).1 ((Unwinding.process c md).trace env) ↔
      ∀ e ∈ (Unwinding.process c md).trace env, isBarePanic e = false) := by
  refine ⟨matches_process md, ?_⟩
  obtain ⟨es, m, htrace, hfold, ⟨hunwinding, hprobing⟩, hreleased⟩ :=
    (Watch.meets_process c md).exec env []
  have hes : (Unwinding.process c md).trace env = es := htrace
  have hany := Watch.unwinding_of_foldlM hfold
  rw [hunwinding, Bool.false_or] at hany
  have hcalm : (∀ e ∈ es, isBarePanic e = false) ↔
      ((Unwinding.process c md).exec env []).1.isPanicked = false := by
    rw [hany, List.any_eq_false]
    simp only [Bool.not_eq_true]
  rw [hes, hcalm]
  constructor
  · intro h
    rw [h.returns]
    rfl
  · intro h
    refine ⟨?_, ?_, ?_⟩
    · cases ho : ((Unwinding.process c md).exec env []).1 with
      | returned u => rfl
      | panicked r =>
          rw [ho] at h
          cases h
    · intro s hs
      have hgiven := Watch.given_of_foldlM hfold s (by simpa using hs)
      rw [hreleased] at hgiven
      exact hgiven
    · intro pre e post hsplit he
      exact Watch.recorded_of_foldlM hfold (hprobing h) hsplit he

def probedConsumer : Consumer Unit Unit :=
  { pairConsumer with
    breaker := true
    probeGate := true
    policy := ⟨0, some fun _ => 0, none⟩ }

def panickingBackoff : BareEnvironment Unit Unit := fun _ q =>
  match q with
  | .guarded q => failingHandler q
  | .bare (.delay _) => .panicked "backoff"
  | .bare .nativeDeadLetter => .returned false
  | .bare (.inspect _) => .returned ()

/-- The panic escapes `process`, and the probe that was granted is never recorded. -/
theorem panickingBackoff_not_isolated :
    ¬Isolated 0 ((Unwinding.process probedConsumer ⟨0, blankMessage, true⟩).exec panickingBackoff []).1
      ((Unwinding.process probedConsumer ⟨0, blankMessage, true⟩).trace panickingBackoff) ∧
    ((Unwinding.process probedConsumer ⟨0, blankMessage, true⟩).exec panickingBackoff []).1 =
      .panicked "backoff" ∧
    ((Unwinding.process probedConsumer ⟨0, blankMessage, true⟩).trace panickingBackoff).any
      isGrantedProbe = true ∧
    ((Unwinding.process probedConsumer ⟨0, blankMessage, true⟩).trace panickingBackoff).any
      isRecord = false := by
  refine ⟨fun h => ?_, rfl, rfl, rfl⟩
  cases h.returns

end Msgin
