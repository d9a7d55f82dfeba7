import Msgin.Settlement

/-!
# The producer stage of a consumer

A consumer has one producer: `ingest` for a streaming source, `pollLoop` for a polling
one. Each pass through a loop of the source is one routine that ends in the `Control`
point where the goroutine continues, so an unbounded loop is a sequence of routines.
Deliveries are numbered from `next` on as the source hands them out.
-/

namespace Msgin

open Interaction Prog

variable {P T : Type}

inductive Control (P : Type)
  | pollLoop (next errN : ℕ)
  | ingest (next : ℕ)
  -- inside the loop of `admitBreaker`, with the delivery it holds
  | admitBreaker (next : ℕ) (d : Delivery P)
  | stopped

def releaseN : ℕ → Routine P T Unit
  | 0 => return
  | n + 1 => do
      perform .release
      releaseN n

def manage (d : Delivery P) : Routine P T (Delivery P) := do
  perform (.manage d.tag)
  return { d with managed := true }

/-- The batch a poll returned, numbered from `next` on. -/
def number : ℕ → List (Message P) → List (Delivery P)
  | _, [] => []
  | next, m :: ms => ⟨next, m, false⟩ :: number (next + 1) ms

@[simp] theorem length_number (next : ℕ) (ms : List (Message P)) :
    (number next ms).length = ms.length := by
  induction ms generalizing next with
  | nil => rfl
  | cons m ms ih => rw [number, List.length_cons, List.length_cons, ih]

theorem number_take (next k : ℕ) (ms : List (Message P)) :
    (number next ms).take k = number next (ms.take k) := by
  induction ms generalizing next k with
  | nil => simp [number]
  | cons m ms ih =>
      cases k with
      | zero => rfl
      | succ k => rw [number, List.take_succ_cons, List.take_succ_cons, number, ih]

theorem number_drop (next k : ℕ) (ms : List (Message P)) :
    (number next ms).drop k = number (next + k) (ms.drop k) := by
  induction ms generalizing next k with
  | nil => simp [number]
  | cons m ms ih =>
      cases k with
      | zero => rfl
      | succ k =>
          rw [number, List.drop_succ_cons, List.drop_succ_cons, ih]
          congr 1
          omega

/-- Take free credits without blocking, at most `room` more than the `held` ones. -/
def topUp : ℕ → ℕ → Routine P T ℕ
  | 0, held => return held
  | room + 1, held => do
      if ← perform .tryAcquire then topUp room (held + 1) else return held

def safePoll (max : ℕ) : Routine P T (List (Message P) × Option Err) := do
  match ← perform (.poll max) with
  | .returned res => return res
  | .panicked r => return ([], some (.new ("msgin: PollingSource.Poll panicked: " ++ r)))

def nackAll : List (Delivery P) → Routine P T Unit
  | [] => return
  | d :: ds => do
      finish (← safeNack d true 0)
      nackAll ds

/-- Nack what exceeds the credits held, unwrapped, and keep the credited rows. -/
def clampExcess (rows : List (Delivery P)) (held : ℕ) : Routine P T (List (Delivery P)) := do
  logError "msgin: PollingSource returned more deliveries than requested; dropping the excess"
    [("returned", .int rows.length), ("requested", .int held)]
  nackAll (rows.drop held)
  return rows.take held

def creditedRows (rows : List (Delivery P)) (held : ℕ) : Routine P T (List (Delivery P)) :=
  if held < rows.length then clampExcess rows held else return rows

def maxPollErrorBackoff : ℤ := 30 * 1000000000

def doubleBelowCap : ℕ → ℤ → ℤ
  | 0, d => d
  | n + 1, d => if d < maxPollErrorBackoff then doubleBelowCap n (d * 2) else d

def pollErrorBackoff (c : Consumer P T) (n : ℕ) : ℤ :=
  min (doubleBelowCap (n - 1) c.pollInterval) maxPollErrorBackoff

def sleepCtx (d : ℤ) : Routine P T Bool :=
  if d ≤ 0 then return true else perform (.sleep d)

/-- Hand each row to a worker. At `ctx.Done` the row in hand is Nacked and the credits of
the rows after it are released; whether the loop goes on. -/
def handRows : List (Delivery P) → Routine P T Bool
  | [] => return true
  | d :: ds => do
      let md ← manage d
      if ← perform (.handOff md) then handRows ds
      else
        finish (← safeNack md true 0)
        releaseN ds.length
        return false

def deliverRows (c : Consumer P T) (next held : ℕ) (rows : List (Delivery P)) :
    Routine P T (Control P) := do
  releaseN (held - rows.length)
  if ← handRows rows then
    if rows.length = 0 then
      if ← sleepCtx c.pollInterval then return .pollLoop next 0 else return .stopped
    else return .pollLoop next 0
  else return .stopped

def pollFailed (c : Consumer P T) (next errN held : ℕ) (err : Err) :
    Routine P T (Control P) := do
  logError "msgin: poll failed" [("err", .err err)]
  releaseN held
  if ← sleepCtx (pollErrorBackoff c (errN + 1)) then return .pollLoop next (errN + 1)
  else return .stopped

def pollLoop (c : Consumer P T) (next errN : ℕ) : Routine P T (Control P) := do
  match ← perform .acquire with
  | some _ => return .stopped
  | none =>
      let held ← topUp (c.pollMaxBatch - 1) 1
      match ← safePoll held with
      | (_, some err) => pollFailed c next errN held err
      | (ms, none) =>
          let rows ← creditedRows (number next ms) held
          deliverRows c (next + ms.length) held rows

def safeLimiterWait (id : String) : Routine P T (Option Err) := do
  match ← perform .limiterWait with
  | .returned err => return err
  | .panicked r =>
      governorPanic "RateLimiter.Wait" id r
      return none

def safeHalfOpen (id : String) : Routine P T Bool := do
  match ← perform .halfOpen with
  | .returned _ => return true
  | .panicked r =>
      governorPanic "CircuitBreaker.HalfOpen" id r
      return false

def forward (next : ℕ) (d : Delivery P) : Routine P T (Control P) := do
  let md ← manage d
  if ← perform (.handOff md) then return .ingest next
  else
    finish (← safeNack md true 0)
    return .stopped

/-- The credit gate under the overflow policy, after the limiter and the breaker. -/
def admitCredit (c : Consumer P T) (next : ℕ) (d : Delivery P) : Routine P T (Control P) :=
  match c.overflow with
  | .overflowDropNewest | .overflowDropOldest | .overflowReject => do
      if ← perform .tryAcquire then forward next d
      else
        safeFire c .onRetry d.msg (some (.sentinel .errOverflowDropped))
        finish (← safeNack d false 0)
        return .ingest next
  | .overflowBlock | .outOfRange _ => do
      match ← perform .acquire with
      | none => forward next d
      | some _ =>
          finish (← safeNack d true 0)
          return .stopped

def admitBreaker (c : Consumer P T) (next : ℕ) (d : Delivery P) : Routine P T (Control P) := do
  if !c.breaker then admitCredit c next d
  else if ← safeAllow d.msg.id then admitCredit c next d
  else if !(← safeHalfOpen d.msg.id) then admitCredit c next d
  else if ← safeAllow d.msg.id then admitCredit c next d
  else if ← perform .park then return .admitBreaker next d
  else
    finish (← safeNack d true 0)
    return .stopped

/-- `admit` up to the park loop. -/
def admitDelivery (c : Consumer P T) (next : ℕ) (d : Delivery P) : Routine P T (Control P) := do
  if c.rateLimiter then
    match ← safeLimiterWait d.msg.id with
    | none => return .admitBreaker next d
    | some _ =>
        finish (← safeNack d true 0)
        return .stopped
  else return .admitBreaker next d

def ingest (c : Consumer P T) (next : ℕ) : Routine P T (Control P) := do
  match ← perform .receive with
  | .ctxDone => return .stopped
  | .closed => return .stopped
  | .delivery m => admitDelivery c (next + 1) ⟨next, m, false⟩

def producer (c : Consumer P T) : Control P → Routine P T (Control P)
  | .pollLoop next errN => pollLoop c next errN
  | .ingest next => ingest c next
  | .admitBreaker next d => admitBreaker c next d
  | .stopped => return .stopped

end Msgin
