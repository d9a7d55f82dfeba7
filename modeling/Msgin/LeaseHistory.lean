import Msgin.LeaseDialect
import Msgin.TransitionRuns

/-!
# Histories of a queue table

Any number of workers insert into one queue table, claim from it, and settle the claims they
were given, each call one transaction at a server time of its own. Messages are told apart
by the order of their arrival. A history keeps for every message the claims taken on it and
the calls that were applied, and `HistoryOf` ties each row of the table to the log of its
message. It lasts as long as every `Ack` and `Nack` is made with a triple that no lease of
another message bears.
-/

namespace Msgin.Sql

open TableRows

structure LeaseClaim where
  id : ℕ
  lockedBy : String
  epoch : ℕ
  claimedAt : ℤ
  deriving DecidableEq

structure MessageLog where
  -- The claims taken on the message, the latest first.
  claims : List LeaseClaim
  -- The claims whose `Ack` and whose `Nack` was applied.
  acked : List LeaseClaim
  nacked : List LeaseClaim
  deriving DecidableEq

variable {c : LeaseClaim} {cs : List LeaseClaim}

namespace MessageLog

def empty : MessageLog := ⟨[], [], []⟩

def latest (l : MessageLog) : Option LeaseClaim := l.claims.head?

/-- The latest claim, unless it was settled. -/
def holder (l : MessageLog) : Option LeaseClaim :=
  l.latest.filter fun c => !(l.acked.contains c || l.nacked.contains c)

def push (c : LeaseClaim) (l : MessageLog) : MessageLog := { l with claims := c :: l.claims }

theorem holder_eq_some {l : MessageLog} :
    l.holder = some c ↔ l.latest = some c ∧ c ∉ l.acked ∧ c ∉ l.nacked := by
  simp [holder, Option.filter_eq_some_iff]

theorem mem_claims_of_holder {l : MessageLog} (h : l.holder = some c) : c ∈ l.claims :=
  List.mem_of_mem_head? (holder_eq_some.mp h).1

end MessageLog

structure LeaseHistory where
  table : LeaseTable ℕ
  -- The number of messages inserted so far.
  arrived : ℕ
  logs : ℕ → MessageLog

def LeaseHistory.empty : LeaseHistory := ⟨⟨[], 0⟩, 0, fun _ => .empty⟩

inductive LeaseCall
  | insert (gap : ℕ) (delay now : ℤ)
  | claim (limit : ℕ) (lockedBy : String) (leaseTTL now : ℤ) (locked : List ℕ) (tie : ℕ → ℕ)
  -- Made with the values of this claim, taken on this message.
  | ack (message : ℕ) (c : LeaseClaim)
  | nack (message : ℕ) (c : LeaseClaim) (delay now : ℤ)

def recordClaims (lockedBy : String) (now : ℤ) (claimed : List (ClaimedRow ℕ))
    (logs : ℕ → MessageLog) : ℕ → MessageLog := fun n =>
  match claimed.find? fun r => r.msg == n with
  | some r => (logs n).push ⟨r.id, lockedBy, r.leaseEpoch, now⟩
  | none => logs n

def recordAck (applied : Bool) (n : ℕ) (c : LeaseClaim) (logs : ℕ → MessageLog) : ℕ → MessageLog :=
  if applied then Function.update logs n { logs n with acked := c :: (logs n).acked } else logs

def recordNack (applied : Bool) (n : ℕ) (c : LeaseClaim) (logs : ℕ → MessageLog) : ℕ → MessageLog :=
  if applied then Function.update logs n { logs n with nacked := c :: (logs n).nacked } else logs

@[simp] theorem recordAck_claims (applied : Bool) (n m : ℕ) (c : LeaseClaim)
    (logs : ℕ → MessageLog) : (recordAck applied n c logs m).claims = (logs m).claims := by
  cases applied with
  | false => rfl
  | true => by_cases hm : m = n <;> simp [recordAck, hm]

@[simp] theorem recordNack_claims (applied : Bool) (n m : ℕ) (c : LeaseClaim)
    (logs : ℕ → MessageLog) : (recordNack applied n c logs m).claims = (logs m).claims := by
  cases applied with
  | false => rfl
  | true => by_cases hm : m = n <;> simp [recordNack, hm]

theorem recordAck_self (n : ℕ) (c : LeaseClaim) (logs : ℕ → MessageLog) :
    recordAck true n c logs n = { logs n with acked := c :: (logs n).acked } :=
  Function.update_self ..

theorem recordAck_of_ne {n m : ℕ} (hm : m ≠ n) (c : LeaseClaim) (logs : ℕ → MessageLog) :
    recordAck true n c logs m = logs m :=
  Function.update_of_ne hm ..

theorem recordNack_self (n : ℕ) (c : LeaseClaim) (logs : ℕ → MessageLog) :
    recordNack true n c logs n = { logs n with nacked := c :: (logs n).nacked } :=
  Function.update_self ..

theorem recordNack_of_ne {n m : ℕ} (hm : m ≠ n) (c : LeaseClaim) (logs : ℕ → MessageLog) :
    recordNack true n c logs m = logs m :=
  Function.update_of_ne hm ..

def leaseStep (e : Engine) (h : LeaseHistory) : LeaseCall → Option LeaseHistory
  | .insert gap delay now =>
    some { h with table := insert e gap h.arrived delay now h.table, arrived := h.arrived + 1 }
  | .claim limit lockedBy leaseTTL now locked tie =>
    let (claimed, t) := claim e limit lockedBy leaseTTL now locked tie h.table
    some { h with table := t, logs := recordClaims lockedBy now claimed h.logs }
  | .ack n c =>
    if c ∈ (h.logs n).claims then
      let (applied, t) := ack e c.id c.lockedBy c.epoch h.table
      some { h with table := t, logs := recordAck applied n c h.logs }
    else none
  | .nack n c delay now =>
    if c ∈ (h.logs n).claims then
      let (applied, t) := nack e c.id c.lockedBy c.epoch delay now h.table
      some { h with table := t, logs := recordNack applied n c h.logs }
    else none

/-- The claims of a message bear the epochs 1, 2, … in the order they were taken. -/
def Numbered : List LeaseClaim → Prop
  | [] => True
  | c :: cs => c.epoch = cs.length + 1 ∧ Numbered cs

theorem Numbered.epoch_le (h : Numbered cs) : ∀ c ∈ cs, c.epoch ≤ cs.length := by
  induction cs with
  | nil => simp
  | cons d cs ih =>
      intro c hc
      rcases List.mem_cons.mp hc with rfl | hc
      · exact Nat.le_of_eq h.1
      · have hle := ih h.2 c hc
        simp only [List.length_cons]
        omega

theorem Numbered.eq_of_latest (h : Numbered cs) {d : LeaseClaim} (hd : cs.head? = some d)
    (hc : c ∈ cs) (he : d.epoch = c.epoch) : c = d := by
  cases cs with
  | nil => simp at hc
  | cons f cs =>
      obtain rfl : f = d := by simpa using hd
      rcases List.mem_cons.mp hc with rfl | hc
      · rfl
      · have hle := h.2.epoch_le c hc
        have hnum := h.1
        omega

structure RowLogged (r : LeaseRow ℕ) (l : MessageLog) : Prop where
  deliveryCount : r.deliveryCount = l.claims.length
  leaseEpoch : r.leaseEpoch = l.claims.length
  ids : ∀ c ∈ l.claims, c.id = r.id
  lockedBy : r.lockedBy = l.holder.map LeaseClaim.lockedBy
  lockedAt : r.lockedAt = l.holder.map LeaseClaim.claimedAt
  notAcked : l.acked = []

section Lease

variable {r : LeaseRow ℕ} {l : MessageLog}

theorem RowLogged.holder_push (hlog : RowLogged r l) (w : String) (now : ℤ)
    (hnum : Numbered l.claims) (hknown : ∀ d ∈ l.nacked, d ∈ l.claims) :
    (l.push ⟨r.id, w, r.leaseEpoch + 1, now⟩).holder =
      some ⟨r.id, w, r.leaseEpoch + 1, now⟩ := by
  have hepoch := hlog.leaseEpoch
  have hfresh : (⟨r.id, w, r.leaseEpoch + 1, now⟩ : LeaseClaim) ∉ l.nacked := by
    intro hmem
    have hle := hnum.epoch_le _ (hknown _ hmem)
    dsimp only at hle
    omega
  apply MessageLog.holder_eq_some.mpr
  exact ⟨rfl, by simp [MessageLog.push, hlog.notAcked], hfresh⟩

theorem RowLogged.lease (hlog : RowLogged r l) (w : String) (now : ℤ)
    (hnum : Numbered l.claims) (hknown : ∀ d ∈ l.nacked, d ∈ l.claims) :
    RowLogged (r.lease w now) (l.push ⟨r.id, w, r.leaseEpoch + 1, now⟩) := by
  have hholder := hlog.holder_push w now hnum hknown
  constructor
  · simp [LeaseRow.lease, MessageLog.push, hlog.deliveryCount]
  · simp [LeaseRow.lease, MessageLog.push, hlog.leaseEpoch]
  · simpa [LeaseRow.lease, MessageLog.push] using hlog.ids
  · simp [LeaseRow.lease, hholder]
  · simp [LeaseRow.lease, hholder]
  · exact hlog.notAcked

end Lease

theorem find_claimed (selected : List (LeaseRow ℕ)) (w : String) (now : ℤ) (m : ℕ) :
    ((∀ r ∈ selected, r.msg ≠ m) ∧
        (selected.map fun r => (r.lease w now).claimed).find? (fun r => r.msg == m) = none) ∨
      ∃ r ∈ selected, r.msg = m ∧
        (selected.map fun r => (r.lease w now).claimed).find? (fun r => r.msg == m) =
          some (r.lease w now).claimed := by
  cases hfind : (selected.map fun r => (r.lease w now).claimed).find? fun r => r.msg == m with
  | none =>
      apply Or.inl
      constructor
      · simpa [List.find?_eq_none, LeaseRow.claimed, LeaseRow.lease] using hfind
      · rfl
  | some d =>
      apply Or.inr
      obtain ⟨r, hr, rfl⟩ := List.mem_map.mp (List.mem_of_find?_eq_some hfind)
      have hmsg : r.msg = m := by
        simpa [LeaseRow.claimed, LeaseRow.lease] using List.find?_some hfind
      exact ⟨r, hr, hmsg, rfl⟩

theorem recordClaims_eq (selected : List (LeaseRow ℕ)) (w : String) (now : ℤ)
    (logs : ℕ → MessageLog) (m : ℕ) :
    ((∀ r ∈ selected, r.msg ≠ m) ∧
        recordClaims w now (selected.map fun r => (r.lease w now).claimed) logs m = logs m) ∨
      ∃ r ∈ selected, r.msg = m ∧
        recordClaims w now (selected.map fun r => (r.lease w now).claimed) logs m =
          (logs m).push ⟨r.id, w, r.leaseEpoch + 1, now⟩ := by
  rcases find_claimed selected w now m with ⟨hnone, hfind⟩ | ⟨r, hr, hmsg, hfind⟩
  · exact Or.inl ⟨hnone, by simp only [recordClaims, hfind]⟩
  · exact Or.inr ⟨r, hr, hmsg, by simp only [recordClaims, hfind]; rfl⟩

structure HistoryOf (h : LeaseHistory) : Prop where
  ids : (h.table.rows.map LeaseRow.id).Nodup
  messages : (h.table.rows.map LeaseRow.msg).Nodup
  lastID : ∀ r ∈ h.table.rows, r.id ≤ h.table.lastID
  arrived : ∀ r ∈ h.table.rows, r.msg < h.arrived
  logged : ∀ r ∈ h.table.rows, RowLogged r (h.logs r.msg)
  kept : ∀ n < h.arrived, (∃ r ∈ h.table.rows, r.msg = n) ∨
    ∃ c, (h.logs n).latest = some c ∧ c ∈ (h.logs n).acked
  unborn : ∀ n, h.arrived ≤ n → h.logs n = .empty
  numbered : ∀ n, Numbered (h.logs n).claims
  known : ∀ n c, c ∈ (h.logs n).acked ∨ c ∈ (h.logs n).nacked → c ∈ (h.logs n).claims

theorem historyOf_empty : HistoryOf .empty where
  ids := List.nodup_nil
  messages := List.nodup_nil
  lastID := by simp [LeaseHistory.empty]
  arrived := by simp [LeaseHistory.empty]
  logged := by simp [LeaseHistory.empty]
  kept := by simp [LeaseHistory.empty]
  unborn _ _ := rfl
  numbered _ := trivial
  known := by simp [LeaseHistory.empty, MessageLog.empty]

end Msgin.Sql
