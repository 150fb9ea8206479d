import IcapService.Lib.Transition
import IcapService.SimpleFile

/-! `ci_simple_file_t` as a queue: runs of writes and reads without locking.

The bytes that wait to be read lie between the two positions, or behind the read position and in front of the
write position once the writes have gone back to the start of the file. -/

namespace IcapService

open CString CInt Transition

/-- A call of `ci_simple_file_write` or of `ci_simple_file_read`. -/
inductive FifoOp where
  | write (data : Bytes) (iseof : Bool)
  | read (len : Int)

/-- A file with the bytes that its writes have accepted and its reads have returned. -/
structure FifoState where
  body : SimpleFile
  accepted : Bytes
  returned : Bytes
  deriving DecidableEq

/-- One call; a read whose assertion fails ends the run. -/
def FifoState.step (s : FifoState) : FifoOp → Option FifoState
  | .write data iseof =>
      let out := s.body.write data iseof
      some ⟨out.2, s.accepted ++ data.take out.1, s.returned⟩
  | .read len => (s.body.read len.toNat).map (fun out => ⟨out.2, s.accepted, s.returned ++ out.1.getD []⟩)

def FifoState.new (maxsize : Int) : FifoState := ⟨.new maxsize, [], []⟩

/-- The bytes returned are the first of those accepted, and `CI_EOF` comes when end-of-file is set and all of
them have been returned. -/
structure FifoState.Fifo (s : FifoState) : Prop where
  order : s.returned <+: s.accepted
  eof : ∀ (len : Int) (body : SimpleFile), s.body.read len.toNat = some (none, body) →
    s.body.hasEof = true ∧ s.returned = s.accepted

/-- The call is no read of the empty file whose read position stands at the end of the store and its write position
at the start. -/
def FifoState.Sound (s : FifoState) : FifoOp → Prop
  | .write _ _ => True
  | .read len => 0 < len → s.body.endpos = 0 → s.body.maxStoreSize ≠ 0 → s.body.readpos ≠ s.body.maxStoreSize

instance (s : FifoState) : DecidablePred s.Sound
  | .write _ _ => inferInstanceAs (Decidable True)
  | .read len => inferInstanceAs
      (Decidable (0 < len → s.body.endpos = 0 → s.body.maxStoreSize ≠ 0 → s.body.readpos ≠ s.body.maxStoreSize))

namespace SimpleFile

/-! ### The bytes that wait -/

/-- Where the bytes `q` that wait to be read lie. -/
inductive Holds (f : SimpleFile) (q : Bytes) : Prop where
  | straight (order : f.readpos ≤ f.endpos) (inside : f.endpos ≤ f.file.length)
      (within : f.maxStoreSize = 0 ∨ f.endpos ≤ f.maxStoreSize) (bytes : q = (f.file.take f.endpos).drop f.readpos)
  | wrapped (order : f.endpos < f.readpos) (within : f.readpos ≤ f.maxStoreSize)
      (inside : f.maxStoreSize ≤ f.file.length)
      (bytes : q = (f.file.take f.maxStoreSize).drop f.readpos ++ f.file.take f.endpos)

theorem pwrite_inside {file : Bytes} {pos : Nat} (data : Bytes) (inside : pos ≤ file.length) :
    pwrite file pos data = poke file pos data := by
  rw [pwrite, Nat.sub_eq_zero_of_le inside, List.replicate_zero, List.append_nil]

/-- A write behind the bytes that wait puts what it accepts behind them. -/
theorem store_straight {f : SimpleFile} {q : Bytes} (data : Bytes) (wsize : Nat) (iseof : Bool)
    (order : f.readpos ≤ f.endpos) (inside : f.endpos ≤ f.file.length)
    (room : f.maxStoreSize = 0 ∨ f.endpos + wsize ≤ f.maxStoreSize)
    (bytes : q = (f.file.take f.endpos).drop f.readpos) :
    (f.store data wsize iseof).2.Holds (q ++ data.take (f.store data wsize iseof).1) := by
  have long : (data.take wsize).length ≤ wsize := List.length_take_le _ _
  have same : data.take (data.take wsize).length = data.take wsize := by
    rw [List.length_take, ← List.take_take, List.take_length]
  simp only [store, pwrite_inside _ inside, same]
  refine .straight (Nat.le_trans order (Nat.le_add_right _ _)) ?_ ?_ ?_
  · simp only [poke_length inside]
    omega
  · exact room.imp id (fun fits => by simp only; omega)
  · simp only [poke_take _ _ _ inside]
    rw [List.drop_append_of_le_length (by rw [List.length_take]; omega), bytes]

/-- A write in front of the read position does the same. -/
theorem store_wrapped {f : SimpleFile} {q : Bytes} (data : Bytes) (wsize : Nat) (iseof : Bool)
    (room : f.endpos + wsize < f.readpos) (within : f.readpos ≤ f.maxStoreSize) (inside : f.maxStoreSize ≤ f.file.length)
    (bytes : q = (f.file.take f.maxStoreSize).drop f.readpos ++ f.file.take f.endpos) :
    (f.store data wsize iseof).2.Holds (q ++ data.take (f.store data wsize iseof).1) := by
  have long : (data.take wsize).length ≤ wsize := List.length_take_le _ _
  have same : data.take (data.take wsize).length = data.take wsize := by
    rw [List.length_take, ← List.take_take, List.take_length]
  have start : f.endpos ≤ f.file.length := by omega
  simp only [store, pwrite_inside _ start, same]
  refine .wrapped (by simp only; omega) within ?_ ?_
  · simp only [poke_length start]
    omega
  · have kept : ((poke f.file f.endpos (data.take wsize)).take f.maxStoreSize).drop f.readpos =
        (f.file.take f.maxStoreSize).drop f.readpos := by
      rw [List.drop_take, List.drop_take, poke_drop start (by omega)]
    simp only [kept, poke_take _ _ _ start]
    rw [bytes, List.append_assoc]

theorem Holds.flagged {f : SimpleFile} {q : Bytes} (holds : f.Holds q) (eof : Bool) :
    ({ f with hasEof := eof } : SimpleFile).Holds q := by
  cases holds with
  | straight order inside within bytes => exact .straight order inside within bytes
  | wrapped order within inside bytes => exact .wrapped order within inside bytes

/-- A write puts what it accepts behind the bytes that wait. -/
theorem write_holds {f : SimpleFile} {q : Bytes} (data : Bytes) (iseof : Bool) (free : f.useLock = false)
    (holds : f.Holds q) :
    (f.write data iseof).2.Holds (q ++ data.take (f.write data iseof).1) ∧ (f.write data iseof).2.useLock = false := by
  rw [write]
  split
  · simpa using ⟨holds, free⟩
  · split
    · simpa using ⟨holds.flagged _, free⟩
    · split
      · rename_i before
        refine ⟨?_, free⟩
        cases holds with
        | straight order => exact absurd before (Nat.not_lt.mpr order)
        | wrapped order within inside bytes => exact store_wrapped data _ iseof (by omega) within inside bytes
      · rename_i behind
        obtain ⟨order, inside, within, bytes⟩ : f.readpos ≤ f.endpos ∧ f.endpos ≤ f.file.length ∧
            (f.maxStoreSize = 0 ∨ f.endpos ≤ f.maxStoreSize) ∧ q = (f.file.take f.endpos).drop f.readpos := by
          cases holds with
          | straight order inside within bytes => exact ⟨order, inside, within, bytes⟩
          | wrapped order => exact absurd order behind
        split
        · rename_i full
          -- the store is full, and its end is where the bytes that wait end
          have last : f.endpos = f.maxStoreSize := by omega
          split
          · rename_i ring
            refine ⟨store_wrapped (f := { f with endpos := 0, ringMode := true }) data _ iseof ?_ ?_ ?_ ?_, free⟩
            · simp only
              omega
            · simp only
              omega
            · simp only
              omega
            · simp only [List.take_zero, List.append_nil]
              rw [bytes, last]
          · simpa using ⟨.straight order inside within bytes, free⟩
        · split
          · exact ⟨store_straight data _ iseof order inside (.inr (by omega)) bytes, free⟩
          · exact ⟨store_straight data _ iseof order inside (.inl (by omega)) bytes, free⟩

/-- How many of the bytes that wait lie in one piece behind the read position. -/
def block (f : SimpleFile) : Nat := if f.readpos < f.endpos then f.endpos - f.readpos else f.maxStoreSize - f.readpos

theorem take_block {f : SimpleFile} {q : Bytes} {n : Nat} (holds : f.Holds q) (other : f.readpos ≠ f.endpos)
    (fits : n ≤ f.block) :
    ∃ rest, q = (f.file.drop f.readpos).take n ++ rest ∧
      ({ f with readpos := f.readpos + ((f.file.drop f.readpos).take n).length } : SimpleFile).Holds rest := by
  cases holds with
  | straight order inside within bytes =>
      rw [block, if_pos (by omega)] at fits
      have long : ((f.file.drop f.readpos).take n).length = n := by
        rw [List.length_take, List.length_drop]
        omega
      have front : (f.file.drop f.readpos).take n = q.take n := by
        rw [bytes, List.drop_take, List.take_take, Nat.min_eq_left fits]
      refine ⟨q.drop n, by rw [front, List.take_append_drop], ?_⟩
      rw [long]
      refine .straight (by simp only; omega) inside within ?_
      rw [bytes, List.drop_drop]
  | wrapped order within inside bytes =>
      rw [block, if_neg (by omega)] at fits
      have long : ((f.file.drop f.readpos).take n).length = n := by
        rw [List.length_take, List.length_drop]
        omega
      have front : (f.file.drop f.readpos).take n = ((f.file.take f.maxStoreSize).drop f.readpos).take n := by
        rw [List.drop_take, List.take_take, Nat.min_eq_left fits]
      refine ⟨((f.file.take f.maxStoreSize).drop f.readpos).drop n ++ f.file.take f.endpos, ?_, ?_⟩
      · rw [front, ← List.append_assoc, List.take_append_drop, bytes]
      · rw [long]
        refine .wrapped (by simp only; omega) (by simp only; omega) inside ?_
        rw [List.drop_drop]

/-- At the end of the store the read position goes back to the start. -/
theorem Holds.rewound {f : SimpleFile} {q : Bytes} (holds : f.Holds q) (other : f.readpos ≠ f.endpos)
    (last : f.maxStoreSize ≠ 0 ∧ f.readpos = f.maxStoreSize) : ({ f with readpos := 0 } : SimpleFile).Holds q := by
  cases holds with
  | straight order inside within bytes => omega
  | wrapped order within inside bytes =>
      refine .straight (Nat.zero_le _) (by simp only; omega) (.inr (by simp only; omega)) ?_
      rw [bytes, last.2, List.drop_take, Nat.sub_self, List.take_zero, List.nil_append, List.drop_zero]

theorem wrap32_le {n : Nat} (positive : 0 ≤ wrap32 n) : (wrap32 n).toNat ≤ n := by
  unfold wrap32 at *
  omega

/-- No more than the piece behind the read position is read. -/
theorem Holds.remains {f : SimpleFile} {q : Bytes} (holds : f.Holds q) (free : f.useLock = false)
    (other : f.readpos ≠ f.endpos) : ∃ r, f.remains = some r ∧ (0 ≤ r → r.toNat ≤ f.block) := by
  refine ⟨wrap32 f.block, ?_, wrap32_le⟩
  rw [SimpleFile.remains, free, if_neg (by decide), block]
  cases holds with
  | straight order =>
      rw [if_pos (by omega), if_pos (by omega), Int.ofNat_sub order]
  | wrapped order within =>
      rw [if_neg (by omega), if_pos (by omega), if_neg (by omega), Int.ofNat_sub within]

/-- A read takes its bytes from the front of those that wait. -/
theorem read_holds {f g : SimpleFile} {q : Bytes} {len : Nat} {answer : Option Bytes} (free : f.useLock = false)
    (holds : f.Holds q) (sound : 0 < len → f.endpos = 0 → f.maxStoreSize ≠ 0 → f.readpos ≠ f.maxStoreSize)
    (read : f.read len = some (answer, g)) : ∃ rest, q = answer.getD [] ++ rest ∧ g.Holds rest ∧ g.useLock = false := by
  rw [SimpleFile.read] at read
  split at read
  · cases read
    exact ⟨q, rfl, holds, free⟩
  · rename_i positive
    split at read
    · cases read
      refine ⟨q, ?_, holds, free⟩
      cases f.hasEof <;> rfl
    · rename_i other
      obtain ⟨h, moved, onward, still, apart⟩ : ∃ h : SimpleFile,
          (if f.maxStoreSize ≠ 0 ∧ f.readpos = f.maxStoreSize then { f with readpos := 0 } else f) = h ∧
            h.Holds q ∧ h.useLock = false ∧ h.readpos ≠ h.endpos := by
        by_cases last : f.maxStoreSize ≠ 0 ∧ f.readpos = f.maxStoreSize
        · refine ⟨_, if_pos last, holds.rewound other last, free, fun empty => ?_⟩
          exact sound (by omega) empty.symm last.1 last.2
        · exact ⟨_, if_neg last, holds, free, other⟩
      obtain ⟨r, remains, bound⟩ := onward.remains still apart
      simp only [moved, remains] at read
      split at read
      · cases read
      · rename_i counted
        have fits : min r.toNat len ≤ h.block :=
          Nat.le_trans (Nat.min_le_left _ _) (bound (Int.not_lt.mp counted))
        cases read
        obtain ⟨rest, split, after⟩ := take_block onward apart fits
        exact ⟨rest, split, after, still⟩

/-- `CI_EOF` comes when nothing waits. -/
theorem read_eof {f g : SimpleFile} {q : Bytes} {len : Nat} (free : f.useLock = false) (holds : f.Holds q)
    (read : f.read len = some (none, g)) : f.hasEof = true ∧ q = [] := by
  rw [SimpleFile.read] at read
  split at read
  · cases read
  · split at read
    · rename_i same
      cases eof : f.hasEof with
      | false =>
          rw [eof] at read
          cases read
      | true =>
          refine ⟨rfl, ?_⟩
          cases holds with
          | straight order inside within bytes =>
              rw [bytes, same]
              exact List.drop_eq_nil_of_le (List.length_take_le _ _)
          | wrapped order => omega
    · rename_i other
      obtain ⟨r, remains⟩ : ∃ r, (if f.maxStoreSize ≠ 0 ∧ f.readpos = f.maxStoreSize then { f with readpos := 0 }
          else f).remains = some r := by
        split
        · rename_i last
          -- the read position has gone back, to an end position that may be there already
          rw [SimpleFile.remains, free, if_neg (by decide)]
          split
          · exact ⟨_, rfl⟩
          · exact ⟨_, if_pos last.1⟩
        · obtain ⟨r, remains, -⟩ := holds.remains free other
          exact ⟨r, remains⟩
      simp only [remains] at read
      split at read <;> cases read

end SimpleFile

/-! ### Runs -/

/-- What has been accepted is what has been returned with the bytes that wait behind it. -/
structure FifoState.Queued (s : FifoState) : Prop where
  free : s.body.useLock = false
  waits : ∃ q, s.accepted = s.returned ++ q ∧ s.body.Holds q

theorem FifoState.new_queued (maxsize : Int) : (FifoState.new maxsize).Queued :=
  ⟨rfl, [], rfl, .straight (Nat.le_refl _) (Nat.le_refl _) (.inr (Nat.zero_le _)) rfl⟩

theorem FifoState.step_queued {s t : FifoState} {op : FifoOp} (queued : s.Queued) (sound : s.Sound op)
    (pass : s.step op = some t) : t.Queued := by
  obtain ⟨free, q, whole, holds⟩ := queued
  cases op with
  | write data iseof =>
      cases pass
      obtain ⟨after, still⟩ := SimpleFile.write_holds data iseof free holds
      exact ⟨still, _, by rw [whole, List.append_assoc], after⟩
  | read len =>
      obtain ⟨⟨answer, body⟩, read, rfl⟩ := Option.map_eq_some_iff.mp pass
      obtain ⟨rest, split, after, still⟩ := SimpleFile.read_holds free holds (fun some => sound (by omega)) read
      exact ⟨still, rest, by rw [whole, split, List.append_assoc], after⟩

theorem FifoState.Queued.fifo {s : FifoState} (queued : s.Queued) : s.Fifo := by
  obtain ⟨free, q, whole, holds⟩ := queued
  refine ⟨⟨q, whole.symm⟩, fun len body read => ?_⟩
  obtain ⟨eof, rfl⟩ := SimpleFile.read_eof free holds read
  exact ⟨eof, by rw [whole, List.append_nil]⟩

/-- In every run of sound calls the file is a queue. -/
theorem simple_file_fifo {maxsize : Int} {s : FifoState}
    (reached : Reaches FifoState.step FifoState.Sound (.new maxsize) s) : s.Fifo := by
  have queued : s.Queued :=
    reached.inv (FifoState.new_queued maxsize) (fun _ _ _ before sound pass => FifoState.step_queued before sound pass)
  exact queued.fifo

/-- A store of three bytes that is written around its end and read up to the last byte. -/
def wrappedRun : FifoState where
  body := ⟨[4, 2, 3], 1, 1, 3, 0, false, false, true⟩
  accepted := [1, 2, 3, 4]
  returned := [1, 2, 3, 4]

theorem simple_file_fifo_wrapped : wrappedRun.Fifo := by
  have replayed : replay FifoState.step (fun s op => decide (s.Sound op)) (.new 3)
      [.write [1, 2, 3] false, .read 2, .write [4, 5] false, .read 3, .read 3] = some wrappedRun := by
    decide +kernel
  exact simple_file_fifo (Reaches.of_replay (fun _ _ passed => of_decide_eq_true passed) .here replayed)

/-- In a store of one byte the byte that was read is returned once more. -/
theorem stale_byte_returned :
    ∃ s, replay FifoState.step (fun _ _ => true) (.new 1)
        [.write [97] false, .read 1, .write [98] false, .read 1] = some s ∧
      s.accepted = [97] ∧ s.returned = [97, 97] ∧ ¬ s.Fifo := by
  refine ⟨⟨⟨[97], 0, 1, 1, 0, false, false, true⟩, [97], [97, 97]⟩, by decide +kernel, rfl, rfl, fun fifo => ?_⟩
  exact absurd fifo.order.length_le (by decide)

end IcapService
