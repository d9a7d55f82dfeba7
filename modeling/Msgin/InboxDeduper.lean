import Mathlib.Logic.Relation
import Msgin.LockDialect
import Msgin.TransactionalRows

/-!
# The dedup inbox

`MarkProcessed` and `Purge` of the `InboxDeduper` over the dialects' `InsertInboxIfAbsent` and
`PurgeInbox`, and any number of handlers that use them as the comment of `MarkProcessed` says: mark
the id on a business transaction, write the effect on the same transaction if the id is new, and
commit. An error is answered by a rollback, and a duplicate is skipped.

A transaction keeps the locks of its statements, so that `MarkProcessed` is one step. It waits for
the end of an open transaction that has inserted the key it looks up.
-/

namespace Msgin.Sql

open TransactionalRows TxTable

structure InboxRow where
  msgID : String
  processedAt : ℤ
  deriving DecidableEq

/-- The dedup table; open transactions are told apart by a number. -/
abbrev InboxTable := TxTable ℕ InboxRow

def errNilTx : Err := .new "msgin/sql: nil transaction"

def errInvalidRetention : Err := .new "msgin/sql: retention (olderThan) must be > 0"

def errInboxInsertFailed : Err :=
  .new "msgin/sql: inbox insert did not take effect and is not a duplicate"

/-- Some row bears a text. -/
def bears (e : Engine) (text : String) (rows : List InboxRow) : Bool :=
  rows.any fun r => e.collation.eq r.msgID text

/-- Whether the row was inserted, and the table after the statement. -/
def tryInsert (e : Engine) (i : ℕ) (msgID : String) (stamp : ℤ) (t : InboxTable) :
    Option (Bool × InboxTable) :=
  (e.insertText msgID).bind fun text =>
    if bears e text (t.others i) then none
    else if bears e text (t.visible i) then some (false, t)
    else some (true, t.insert i ⟨text, stamp⟩)

/-- What a dialect answers where nothing was inserted. -/
def inboxVerdict (e : Engine) (i : ℕ) (msgID : String) (t : InboxTable) :
    Option (Except Err Bool) :=
  match e with
  -- `SELECT msg_id ... LOCK IN SHARE MODE`
  | .mysql _ =>
    if bears e msgID (t.others i) then none
    else if bears e msgID (t.visible i) then some (.ok true)
    else some (.error (.wrapped "" (": msg_id " ++ msgID.quote ++
      " (INSERT IGNORE affected no row and none exists)") errInboxInsertFailed))
  -- no row was returned
  | .postgres | .sqlite => some (.ok true)

def insertInboxIfAbsent (e : Engine) (i : ℕ) (msgID : String) (stamp : ℤ) (t : InboxTable) :
    Execution → Option (Except Err Bool × InboxTable)
  | .done =>
    (tryInsert e i msgID stamp t).bind fun (inserted, t') =>
      if inserted then some (.ok false, t') else (inboxVerdict e i msgID t).map (·, t)
  | .demoted =>
    match e with
    | .mysql _ => (inboxVerdict e i msgID t).map (·, t)
    | .postgres | .sqlite => none
  | .failed err true => (tryInsert e i msgID stamp t).map fun a => (.error err, a.2)
  | .failed err false => some (.error err, t)

def markProcessed (e : Engine) (tx : Option ℕ) (msgID : String) (stamp : ℤ) (t : InboxTable)
    (o : Execution) : Option (Except Err Bool × InboxTable) :=
  match tx with
  | none => some (.error errNilTx, t)
  | some i => insertInboxIfAbsent e i msgID stamp t o

/-- `processed_at < now - olderThan`. -/
def InboxRow.expired (olderThan now : ℤ) (r : InboxRow) : Bool :=
  r.processedAt < now - microseconds olderThan

def purgeInbox (olderThan now : ℤ) (t : InboxTable) : ℕ × InboxTable :=
  (t.rows.countP (InboxRow.expired olderThan now),
    ⟨t.rows.filter fun r => !r.expired olderThan now, t.pending⟩)

def purge (olderThan now : ℤ) (t : InboxTable) : Except Err ℕ × InboxTable :=
  if olderThan ≤ 0 then (.error errInvalidRetention, t)
  else (.ok (purgeInbox olderThan now t).1, (purgeInbox olderThan now t).2)

inductive HandlerPhase
  | begun
  -- `MarkProcessed` returned an error
  | failed
  | already
  | first
  -- the effect is written on the transaction
  | applied
  deriving DecidableEq

def HandlerPhase.ofVerdict : Except Err Bool → HandlerPhase
  | .error _ => failed
  | .ok true => already
  | .ok false => first

structure Handler where
  msgID : String
  -- when its transaction began
  start : ℤ
  phase : HandlerPhase
  deriving DecidableEq

/-- A committed effect, and when its transaction began. -/
structure BusinessEffect where
  msgID : String
  start : ℤ
  deriving DecidableEq

structure InboxState where
  now : ℤ
  table : InboxTable
  handlers : ℕ → Option Handler
  effects : List BusinessEffect
  -- the ids that `Purge` has removed
  purged : List String
  -- the ids for which a handler has returned nil
  handled : List String

namespace InboxState

def new (now : ℤ) : InboxState := ⟨now, ⟨[], []⟩, fun _ => none, [], [], []⟩

def put (s : InboxState) (i : ℕ) (t : InboxTable) (h : Option Handler) : InboxState :=
  { s with table := t, handlers := Function.update s.handlers i h }

end InboxState

/-- No id is marked later than the window after the transaction of its effect began. -/
def Deliverable (window : Option ℤ) (s : InboxState) (msgID : String) : Prop :=
  ∀ W ∈ window, ∀ f ∈ s.effects, f.msgID = msgID → s.now ≤ f.start + W

/-- The steps of the handlers and of `Purge`. The `window`, if there is one, is the maximum
redelivery window that `olderThan` has to exceed. -/
inductive InboxStep (e : Engine) (window : Option ℤ) (s : InboxState) : InboxState → Prop
  | tick (d : ℕ) : InboxStep e window s { s with now := s.now + d }
  | begin (i : ℕ) (msgID : String) (idle : s.handlers i = none) :
      InboxStep e window s (s.put i s.table (some ⟨msgID, s.now, .begun⟩))
  | mark (i : ℕ) (msgID : String) (start : ℤ) (o : Execution) (r : Except Err Bool)
      (t : InboxTable)
      (here : s.handlers i = some ⟨msgID, start, .begun⟩) (inTime : Deliverable window s msgID)
      (marked : markProcessed e (some i) msgID (e.currentTime start s.now) s.table o =
        some (r, t)) :
      InboxStep e window s (s.put i t (some ⟨msgID, start, .ofVerdict r⟩))
  | apply (i : ℕ) (msgID : String) (start : ℤ)
      (here : s.handlers i = some ⟨msgID, start, .first⟩) :
      InboxStep e window s (s.put i s.table (some ⟨msgID, start, .applied⟩))
  -- the reply to a commit may be lost, and the handler fails then
  | commit (i : ℕ) (msgID : String) (start : ℤ) (reported : Bool)
      (here : s.handlers i = some ⟨msgID, start, .applied⟩) :
      InboxStep e window s { s.put i (s.table.commit i) none with
        effects := s.effects ++ [⟨msgID, start⟩]
        handled := s.handled ++ if reported then [msgID] else [] }
  -- a duplicate, whose transaction has written nothing
  | skip (i : ℕ) (msgID : String) (start : ℤ)
      (here : s.handlers i = some ⟨msgID, start, .already⟩) :
      InboxStep e window s { s.put i (s.table.rollback i) none with
        handled := s.handled ++ [msgID] }
  -- an error, a panic, a crash or a commit that fails
  | rollback (i : ℕ) (h : Handler) (here : s.handlers i = some h) :
      InboxStep e window s (s.put i (s.table.rollback i) none)
  | purge (olderThan : ℤ) (valid : 0 < olderThan)
      (keeps : ∀ W ∈ window, W ≤ microseconds olderThan) :
      InboxStep e window s { s with
        table := (purge olderThan s.now s.table).2
        purged := s.purged ++
          (s.table.rows.filter (InboxRow.expired olderThan s.now)).map InboxRow.msgID }

/-- The states that any number of handlers and purges lead to. -/
abbrev InboxReaches (e : Engine) (window : Option ℤ) : InboxState → InboxState → Prop :=
  Relation.ReflTransGen (InboxStep e window)

theorem InboxState.handlers_put_self (s : InboxState) (i : ℕ) (t : InboxTable)
    (h : Option Handler) : (s.put i t h).handlers i = h :=
  Function.update_self ..

variable {e : Engine} {i : ℕ} {msgID : String} {stamp : ℤ} {t t' : InboxTable} {o : Execution}
  {r : Except Err Bool}

theorem bears_eq_false {text : String} {rows : List InboxRow} :
    bears e text rows = false ↔ ∀ q ∈ rows, e.collation.eq q.msgID text = false := by
  simp [bears]

theorem bears_eq_true {text : String} {rows : List InboxRow} :
    bears e text rows = true ↔ ∃ q ∈ rows, e.collation.eq q.msgID text = true := by
  simp [bears]

/-- A row is inserted where no row that is read or waited for bears its key. -/
structure Inserts (e : Engine) (i : ℕ) (msgID : String) (stamp : ℤ) (t t' : InboxTable) : Prop where
  table : t' = t.insert i ⟨e.storedID msgID, stamp⟩
  visible : bears e (e.storedID msgID) (t.visible i) = false
  others : bears e (e.storedID msgID) (t.others i) = false

theorem tryInsert_eq_some {inserted : Bool}
    (h : tryInsert e i msgID stamp t = some (inserted, t')) :
    (inserted = false ∧ t' = t ∧ bears e (e.storedID msgID) (t.visible i) = true) ∨
      (inserted = true ∧ Inserts e i msgID stamp t t') := by
  obtain ⟨text, htext, h⟩ := Option.bind_eq_some_iff.mp h
  obtain rfl : e.storedID msgID = text := by rw [Engine.storedID, htext, Option.getD_some]
  split at h
  · cases h
  · next hothers =>
      split at h
      · next hfound =>
          cases h
          exact .inl ⟨rfl, rfl, hfound⟩
      · next hfound =>
          cases h
          exact .inr ⟨rfl, rfl, Bool.eq_false_iff.mpr hfound, Bool.eq_false_iff.mpr hothers⟩

/-- Where a dialect reports a duplicate, a row that the transaction reads bears the id. -/
theorem inboxVerdict_eq_some (h : inboxVerdict e i msgID t = some r)
    (hfound : (∀ c, e ≠ .mysql c) → bears e (e.storedID msgID) (t.visible i) = true) :
    r ≠ .ok false ∧ (r = .ok true → bears e msgID (t.visible i) = true) := by
  cases e with
  | mysql c =>
      simp only [inboxVerdict, Option.ite_none_left_eq_some] at h
      obtain ⟨-, h⟩ := h
      split at h
      · next hbears =>
          cases h
          exact ⟨by simp, fun _ => hbears⟩
      · cases h
        exact ⟨by simp, fun h => by cases h⟩
  | postgres | sqlite =>
      cases h
      have hvisible := hfound (by simp)
      rw [Engine.storedID_of_ne_mysql (by simp)] at hvisible
      exact ⟨by simp, fun _ => hvisible⟩

theorem markProcessed_cases (h : markProcessed e (some i) msgID stamp t o = some (r, t')) :
    (t' = t ∧ r ≠ .ok false ∧ (r = .ok true → bears e msgID (t.visible i) = true)) ∨
      (Inserts e i msgID stamp t t' ∧ r ≠ .ok true) := by
  rcases o with _ | _ | ⟨err, _ | _⟩
  · obtain ⟨⟨inserted, t₁⟩, htry, h⟩ := Option.bind_eq_some_iff.mp h
    rcases tryInsert_eq_some htry with ⟨rfl, rfl, hfound⟩ | ⟨rfl, hinserts⟩
    · obtain ⟨r', hverdict, heq⟩ := Option.map_eq_some_iff.mp h
      cases heq
      exact .inl ⟨rfl, inboxVerdict_eq_some hverdict fun _ => hfound⟩
    · cases h
      exact .inr ⟨hinserts, by simp⟩
  · cases e with
    | mysql c =>
        obtain ⟨r', hverdict, heq⟩ := Option.map_eq_some_iff.mp h
        cases heq
        exact .inl ⟨rfl, inboxVerdict_eq_some hverdict fun hne => absurd rfl (hne c)⟩
    | postgres => cases h
    | sqlite => cases h
  · cases h
    exact .inl ⟨rfl, by simp, fun h => by cases h⟩
  · obtain ⟨⟨inserted, t₁⟩, htry, heq⟩ := Option.map_eq_some_iff.mp h
    cases heq
    rcases tryInsert_eq_some htry with ⟨rfl, rfl, -⟩ | ⟨rfl, hinserts⟩
    · exact .inl ⟨rfl, by simp, fun h => by cases h⟩
    · exact .inr ⟨hinserts, by simp⟩

end Msgin.Sql
