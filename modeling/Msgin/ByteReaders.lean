import Mathlib.Data.List.Basic
import Mathlib.Data.Nat.Notation

/-!
# Readers of byte streams

A reader answers a read with bytes and at the end with an error, which may come with the last bytes.
A read of a chunk that is longer than the buffer leaves the rest of the chunk for the next one, and
an empty chunk is a read without bytes and without an error. `readAll` reads from a reader of limited
length until an error, with any buffer that is never full, and `readFull` reads until its buffer is
full.
-/

namespace ByteReaders

variable {ε : Type*}

structure Reader (ε : Type*) where
  chunks : List (List UInt8)
  -- what comes with the error
  last : List UInt8
  err : ε

namespace Reader

/-- All bytes that the reader delivers. -/
def delivered (r : Reader ε) : List UInt8 := r.chunks.flatten ++ r.last

def read (r : Reader ε) (n : ℕ) : (List UInt8 × Option ε) × Reader ε :=
  match r.chunks with
  | c :: cs =>
      if c.length ≤ n then ((c, none), { r with chunks := cs })
      else ((c.take n, none), { r with chunks := c.drop n :: cs })
  | [] =>
      if r.last.length ≤ n then ((r.last, some r.err), { r with last := [] })
      else ((r.last.take n, none), { r with last := r.last.drop n })

/-- How many reads of at least one byte there can be before the error. -/
def weight (r : Reader ε) : ℕ := r.delivered.length + r.chunks.length

/-- What a read does: it goes on with the rest, or it returns the error with the last bytes. -/
inductive Reads (r : Reader ε) (n : ℕ) : (List UInt8 × Option ε) × Reader ε → Prop
  | goesOn (b : List UInt8) (r' : Reader ε) (split : r.delivered = b ++ r'.delivered)
      (short : b.length ≤ n) (same : r'.err = r.err) (ends : r.last = [] ↔ r'.last = [])
      (less : 0 < n → r'.weight < r.weight) : Reads r n ((b, none), r')
  | fails (only : r.chunks = []) (short : r.last.length ≤ n) :
      Reads r n ((r.last, some r.err), ⟨[], [], r.err⟩)

theorem reads_read (r : Reader ε) (n : ℕ) : Reads r n (r.read n) := by
  obtain ⟨chunks, last, err⟩ := r
  cases chunks with
  | nil =>
      simp only [read]
      split
      · next hshort => exact .fails rfl hshort
      · next hlong =>
          have hdrop : last.drop n ≠ [] := by
            rw [Ne, List.drop_eq_nil_iff]
            omega
          have hne : last ≠ [] := fun h => hdrop (by rw [h, List.drop_nil])
          refine .goesOn _ _ (List.take_append_drop n last).symm (List.length_take_le n last) rfl
            ⟨fun h => absurd h hne, fun h => absurd h hdrop⟩ fun hn => ?_
          simp only [weight, delivered, List.flatten_nil, List.nil_append, List.length_drop]
          omega
  | cons c cs =>
      simp only [read]
      split
      · next hshort =>
          refine .goesOn _ _ ?_ hshort rfl Iff.rfl fun _ => ?_
          · simp only [delivered, List.flatten_cons, List.append_assoc]
          · simp only [weight, delivered, List.flatten_cons, List.length_append, List.length_cons]
            omega
      · next hlong =>
          refine .goesOn _ _ ?_ (List.length_take_le n c) rfl Iff.rfl fun hn => ?_
          · simp only [delivered, List.flatten_cons]
            rw [← List.append_assoc, ← List.append_assoc, List.take_append_drop]
          · simp only [weight, delivered, List.flatten_cons, List.length_append, List.length_cons,
              List.length_drop]
            omega

end Reader

structure LimitedReader (ε : Type*) where
  reader : Reader ε
  remaining : ℕ

namespace LimitedReader

variable {eof : ε} {l : LimitedReader ε}

def read (eof : ε) (l : LimitedReader ε) (n : ℕ) : (List UInt8 × Option ε) × LimitedReader ε :=
  if l.remaining = 0 then (([], some eof), l)
  else
    let res := l.reader.read (min n l.remaining)
    (res.1, ⟨res.2, l.remaining - res.1.1.length⟩)

inductive Reads (eof : ε) (l : LimitedReader ε) (n : ℕ) :
    (List UInt8 × Option ε) × LimitedReader ε → Prop
  | atLimit (none_left : l.remaining = 0) : Reads eof l n (([], some eof), l)
  | goesOn (b : List UInt8) (r' : Reader ε) (split : l.reader.delivered = b ++ r'.delivered)
      (short : b.length ≤ l.remaining) (same : r'.err = l.reader.err)
      (ends : l.reader.last = [] ↔ r'.last = []) (less : 0 < n → r'.weight < l.reader.weight) :
      Reads eof l n ((b, none), ⟨r', l.remaining - b.length⟩)
  | fails (some_left : l.remaining ≠ 0) (only : l.reader.chunks = [])
      (short : l.reader.last.length ≤ l.remaining) :
      Reads eof l n ((l.reader.last, some l.reader.err),
        ⟨⟨[], [], l.reader.err⟩, l.remaining - l.reader.last.length⟩)

theorem reads_read (eof : ε) (l : LimitedReader ε) (n : ℕ) : Reads eof l n (l.read eof n) := by
  unfold read
  split
  · next hzero => exact .atLimit hzero
  · next hpos =>
      have hread := l.reader.reads_read (min n l.remaining)
      generalize l.reader.read (min n l.remaining) = res at hread
      cases hread with
      | goesOn b r' split short same ends less =>
          exact .goesOn b r' split (by omega) same ends fun hn => less (by omega)
      | fails only short => exact .fails hpos only (by omega)

end LimitedReader

variable [DecidableEq ε]

/-- `room` is the free room of a buffer with this many bytes, less one. -/
def readAll (eof : ε) (room : ℕ → ℕ) (l : LimitedReader ε) (b : List UInt8) :
    (List UInt8 × Option ε) × Reader ε :=
  match _read : l.read eof (room b.length + 1) with
  | ((bytes, none), l') => readAll eof room l' (b ++ bytes)
  | ((bytes, some err), l') => ((b ++ bytes, if err = eof then none else some err), l'.reader)
termination_by l.reader.weight
decreasing_by
  have hreads := l.reads_read eof (room b.length + 1)
  rw [_read] at hreads
  cases hreads with
  | goesOn _ _ _ _ _ _ less => exact less (Nat.succ_pos _)

variable {eof : ε}

section Turns

variable {room : ℕ → ℕ} {l l' : LimitedReader ε} {b bytes : List UInt8}

theorem readAll_of_read (h : l.read eof (room b.length + 1) = ((bytes, none), l')) :
    readAll eof room l b = readAll eof room l' (b ++ bytes) := by
  rw [readAll]
  split
  · next hread =>
      cases h.symm.trans hread
      rfl
  · next hread => simp [h] at hread

theorem readAll_of_error {err : ε}
    (h : l.read eof (room b.length + 1) = ((bytes, some err), l')) :
    readAll eof room l b =
      ((b ++ bytes, if err = eof then none else some err), l'.reader) := by
  rw [readAll]
  split
  · next hread => simp [h] at hread
  · next hread =>
      cases h.symm.trans hread
      rfl

end Turns

/-- A stream that ends within the limit is read to its error, also where the error comes with the
byte that reaches the limit. -/
theorem readAll_of_ends (eof : ε) (room : ℕ → ℕ) {l : LimitedReader ε} {b : List UInt8}
    (h : l.reader.delivered.length < l.remaining ∨
      l.reader.delivered.length = l.remaining ∧ l.reader.last ≠ []) :
    readAll eof room l b = ((b ++ l.reader.delivered,
      if l.reader.err = eof then none else some l.reader.err), ⟨[], [], l.reader.err⟩) := by
  induction l, b using readAll.induct eof room with
  | case1 l b bytes l' hread ih =>
      have hreads := l.reads_read eof (room b.length + 1)
      rw [readAll_of_read hread]
      rw [hread] at hreads
      cases hreads with
      | goesOn _ r' split short same ends less =>
          have hlength := congrArg List.length split
          rw [List.length_append] at hlength
          have hends : r'.delivered.length < l.remaining - bytes.length ∨
              r'.delivered.length = l.remaining - bytes.length ∧ r'.last ≠ [] := by
            rcases h with h | ⟨h, hlast⟩
            · exact .inl (by omega)
            · exact .inr ⟨by omega, mt ends.mpr hlast⟩
          rw [ih hends, same, split, List.append_assoc]
  | case2 l b bytes err l' hread =>
      have hreads := l.reads_read eof (room b.length + 1)
      rw [readAll_of_error hread]
      rw [hread] at hreads
      cases hreads with
      | atLimit none_left =>
          exfalso
          rw [none_left] at h
          rcases h with h | ⟨h, hlast⟩
          · omega
          · exact hlast (List.append_eq_nil_iff.mp (List.eq_nil_of_length_eq_zero h)).2
      | fails some_left only short =>
          simp only [Reader.delivered, only, List.flatten_nil, List.nil_append]

/-- Otherwise as many bytes as the limit says are read without an error. -/
theorem readAll_of_cut (eof : ε) (room : ℕ → ℕ) {l : LimitedReader ε} {b : List UInt8}
    (h : l.remaining < l.reader.delivered.length ∨
      l.reader.delivered.length = l.remaining ∧ l.reader.last = []) :
    ∃ r' : Reader ε, readAll eof room l b = ((b ++ l.reader.delivered.take l.remaining, none), r') ∧
      r'.delivered = l.reader.delivered.drop l.remaining ∧ r'.err = l.reader.err := by
  induction l, b using readAll.induct eof room with
  | case1 l b bytes l' hread ih =>
      have hreads := l.reads_read eof (room b.length + 1)
      rw [readAll_of_read hread]
      rw [hread] at hreads
      cases hreads with
      | goesOn _ r' split short same ends less =>
          have hlength := congrArg List.length split
          rw [List.length_append] at hlength
          have hcut : l.remaining - bytes.length < r'.delivered.length ∨
              r'.delivered.length = l.remaining - bytes.length ∧ r'.last = [] := by
            rcases h with h | ⟨h, hlast⟩
            · exact .inl (by omega)
            · exact .inr ⟨by omega, ends.mp hlast⟩
          obtain ⟨r'', hrest, hleft, herr⟩ := ih hcut
          refine ⟨r'', ?_, ?_, herr.trans same⟩
          · rw [hrest, split, List.take_append, List.take_of_length_le short, List.append_assoc]
          · rw [hleft, split, List.drop_append, List.drop_of_length_le short, List.nil_append]
  | case2 l b bytes err l' hread =>
      have hreads := l.reads_read eof (room b.length + 1)
      rw [readAll_of_error hread]
      rw [hread] at hreads
      cases hreads with
      | atLimit none_left =>
          refine ⟨l.reader, ?_, ?_, rfl⟩
          · simp [none_left]
          · rw [none_left, List.drop_zero]
      | fails some_left only short =>
          exfalso
          simp only [Reader.delivered, only, List.flatten_nil, List.nil_append] at h
          rcases h with h | ⟨h, hlast⟩
          · omega
          · rw [hlast, List.length_nil] at h
            exact some_left h.symm

/-- Read until the buffer of `k` bytes is full. -/
def readFull (eof unexpectedEOF : ε) (k : ℕ) (r : Reader ε) (b : List UInt8) :
    Except (List UInt8 × ε) (List UInt8) × Reader ε :=
  if k ≤ b.length then (.ok b, r)
  else
    match _read : r.read (k - b.length) with
    | ((bytes, none), r') => readFull eof unexpectedEOF k r' (b ++ bytes)
    | ((bytes, some err), r') =>
        if k ≤ (b ++ bytes).length then (.ok (b ++ bytes), r')
        else
          (.error (b ++ bytes, if b ++ bytes ≠ [] ∧ err = eof then unexpectedEOF else err), r')
termination_by r.weight
decreasing_by
  have hreads := r.reads_read (k - b.length)
  rw [_read] at hreads
  cases hreads with
  | goesOn _ _ _ _ _ _ less => exact less (by omega)

section Turns

variable {unexpectedEOF : ε} {k : ℕ} {r r' : Reader ε} {b bytes : List UInt8}

theorem readFull_of_full (h : k ≤ b.length) : readFull eof unexpectedEOF k r b = (.ok b, r) := by
  rw [readFull, if_pos h]

theorem readFull_of_read (hk : b.length < k) (h : r.read (k - b.length) = ((bytes, none), r')) :
    readFull eof unexpectedEOF k r b = readFull eof unexpectedEOF k r' (b ++ bytes) := by
  rw [readFull, if_neg (by omega)]
  split
  · next hread =>
      cases h.symm.trans hread
      rfl
  · next hread => simp [h] at hread

theorem readFull_of_error {err : ε} (hk : b.length < k)
    (h : r.read (k - b.length) = ((bytes, some err), r')) :
    readFull eof unexpectedEOF k r b =
      if k ≤ (b ++ bytes).length then (.ok (b ++ bytes), r')
      else (.error (b ++ bytes, if b ++ bytes ≠ [] ∧ err = eof then unexpectedEOF else err), r') := by
  rw [readFull, if_neg (by omega)]
  split
  · next hread => simp [h] at hread
  · next hread =>
      cases h.symm.trans hread
      rfl

end Turns

/-- A buffer of one byte is filled, or nothing is left and the error is returned as it is. -/
theorem readFull_one (eof unexpectedEOF : ε) (r : Reader ε) :
    (r.delivered = [] ∧ (readFull eof unexpectedEOF 1 r []).1 = .error ([], r.err)) ∨
      r.delivered ≠ [] ∧ ∃ b, (readFull eof unexpectedEOF 1 r []).1 = .ok b ∧ b.length = 1 := by
  induction hw : r.weight using Nat.strongRecOn generalizing r with
  | ind w ih =>
      have hreads := r.reads_read 1
      rcases hread : r.read 1 with ⟨⟨bytes, err⟩, r'⟩
      rw [hread] at hreads
      cases hreads with
      | goesOn _ _ split short same ends less =>
          rw [readFull_of_read Nat.one_pos hread, List.nil_append, split, ← same]
          cases bytes with
          | nil => exact ih r'.weight (hw ▸ less Nat.one_pos) r' rfl
          | cons c cs =>
              rw [readFull_of_full (Nat.succ_pos _)]
              exact .inr ⟨List.cons_ne_nil _ _, _, rfl, Nat.le_antisymm short (Nat.succ_pos _)⟩
      | fails only short =>
          rw [readFull_of_error Nat.one_pos hread, List.nil_append, Reader.delivered, only,
            List.flatten_nil, List.nil_append]
          rcases hlast : r.last with _ | ⟨c, cs⟩
          · exact .inl ⟨rfl, rfl⟩
          · rw [hlast] at short
            have hone : 1 ≤ (c :: cs).length := Nat.succ_pos _
            rw [if_pos hone]
            exact .inr ⟨List.cons_ne_nil _ _, _, rfl, Nat.le_antisymm short hone⟩

end ByteReaders
