import IcapService.Lib.CInt
import IcapService.Lib.Memory

/-! `ci_simple_file_t` of `body.c`: a body in a temporary file. A read or a write of the file transfers
all it is asked for. -/

namespace IcapService

open CString CInt

/-- A `ci_simple_file_t` with the bytes of its file. -/
structure SimpleFile where
  file : Bytes
  endpos : Nat
  readpos : Nat
  maxStoreSize : Nat
  unlocked : Nat
  hasEof : Bool
  useLock : Bool
  ringMode : Bool
  deriving DecidableEq

namespace SimpleFile

/-- `ci_simple_file_new`. -/
def new (maxsize : Int) : SimpleFile where
  file := []
  endpos := 0
  readpos := 0
  maxStoreSize := maxsize.toNat
  unlocked := 0
  hasEof := false
  useLock := false
  ringMode := false

/-- `lseek` and `do_write`; zeros fill a gap before the position. -/
def pwrite (file : Bytes) (pos : Nat) (data : Bytes) : Bytes :=
  poke (file ++ List.replicate (pos - file.length) 0) pos data

/-- The end of `ci_simple_file_write`: at most `wsize` bytes are written at `endpos`. -/
def store (f : SimpleFile) (data : Bytes) (wsize : Nat) (iseof : Bool) : Nat × SimpleFile :=
  let part := data.take wsize
  (part.length,
    { f with
      file := pwrite f.file f.endpos part
      endpos := f.endpos + part.length
      hasEof := f.hasEof || (iseof && decide (part.length = data.length)) })

/-- `ci_simple_file_write`. -/
def write (f : SimpleFile) (data : Bytes) (iseof : Bool) : Nat × SimpleFile :=
  if f.hasEof then (0, f)
  else if data = [] then (0, { f with hasEof := f.hasEof || iseof })
  else if f.endpos < f.readpos then f.store data (f.readpos - f.endpos - 1) iseof
  else if f.maxStoreSize ≠ 0 ∧ f.maxStoreSize ≤ f.endpos then
    if f.readpos ≠ 0 ∧ f.useLock = false then
      store { f with endpos := 0, ringMode := true } data (f.readpos - 1) iseof
    else (0, f)
  else if f.maxStoreSize ≠ 0 then f.store data (f.maxStoreSize - f.endpos) iseof
  else f.store data data.length iseof

/-- The number of bytes a read may return, as an `int`; nothing where the program answers `CI_EOF`. -/
def remains (f : SimpleFile) : Option Int :=
  if f.useLock then some (wrap32 ((f.unlocked : Int) - f.readpos))
  else if f.readpos < f.endpos then some (wrap32 ((f.endpos : Int) - f.readpos))
  else if f.maxStoreSize ≠ 0 then some (wrap32 ((f.maxStoreSize : Int) - f.readpos))
  else none

/-- `ci_simple_file_read`: the bytes, or nothing for `CI_EOF`. There is no result when the assertion
on the number of bytes fails. -/
def read (f : SimpleFile) (len : Nat) : Option (Option Bytes × SimpleFile) :=
  if len = 0 then some (some [], f)
  else if f.readpos = f.endpos then some (if f.hasEof then none else some [], f)
  else
    let f := if f.maxStoreSize ≠ 0 ∧ f.readpos = f.maxStoreSize then { f with readpos := 0 } else f
    match f.remains with
    | none => some (none, f)
    | some remains =>
        if remains < 0 then none
        else
          let bytes := (f.file.drop f.readpos).take (min remains.toNat len)
          some (some bytes, { f with readpos := f.readpos + bytes.length })

/-- `ci_simple_file_lock_all`. -/
def lockAll (f : SimpleFile) : SimpleFile := { f with useLock := true, unlocked := 0 }

/-- `ci_simple_file_unlock_all`. -/
def unlockAll (f : SimpleFile) : SimpleFile := { f with useLock := false, unlocked := 0 }

/-- The bytes between the two positions. -/
def unread (f : SimpleFile) : Bytes := (f.file.take f.endpos).drop f.readpos

theorem store_le (f : SimpleFile) (data : Bytes) (wsize : Nat) (iseof : Bool) :
    (f.store data wsize iseof).1 ≤ data.length := by
  simp only [store, List.length_take]
  exact Nat.min_le_right _ _

theorem write_le (f : SimpleFile) (data : Bytes) (iseof : Bool) : (f.write data iseof).1 ≤ data.length := by
  simp only [write]
  repeat' split
  all_goals first | exact Nat.zero_le _ | exact store_le _ _ _ _

theorem read_le {f g : SimpleFile} {len : Nat} {bytes : Bytes} (answer : f.read len = some (some bytes, g)) :
    bytes.length ≤ len := by
  simp only [read] at answer
  split at answer
  · cases answer
    exact Nat.zero_le _
  · split at answer
    · split at answer
      · cases answer
      · cases answer
        exact Nat.zero_le _
    · split at answer
      · cases answer
      · split at answer
        · cases answer
        · cases answer
          exact Nat.le_trans (List.length_take_le _ _) (Nat.min_le_right _ _)

/-! ### Reading a complete file -/

/-- The body is complete and may be read; the file has not wrapped around. -/
structure Readable (f : SimpleFile) : Prop where
  eof : f.hasEof = true
  unlocked : f.useLock = false
  order : f.readpos ≤ f.endpos
  inside : f.endpos ≤ f.file.length
  small : f.endpos - f.readpos < 2147483648
  straight : f.maxStoreSize = 0 ∨ f.endpos ≤ f.maxStoreSize

theorem Readable.unread_length {f : SimpleFile} (readable : f.Readable) :
    f.unread.length = f.endpos - f.readpos := by
  rw [unread, List.length_drop, List.length_take, Nat.min_eq_left readable.inside]

theorem Readable.remains {f : SimpleFile} (readable : f.Readable) (more : f.readpos ≠ f.endpos) :
    f.remains = some (f.unread.length : Int) := by
  have order := readable.order
  have small := readable.small
  have less : f.readpos < f.endpos := by omega
  have value : wrap32 ((f.endpos : Int) - f.readpos) = (f.unread.length : Int) := by
    rw [wrap32_of_range _ (by omega) (by omega), readable.unread_length]
    omega
  rw [SimpleFile.remains, readable.unlocked, if_neg (by decide), if_pos less, value]

/-- The bytes from the read position, cut to the end position. -/
theorem Readable.drop_take {f : SimpleFile} (readable : f.Readable) (len : Nat) :
    (f.file.drop f.readpos).take (min f.unread.length len) = f.unread.take len := by
  have whole : (f.file.drop f.readpos).take f.unread.length = f.unread := by
    rw [readable.unread_length, unread, List.drop_take]
  rw [Nat.min_comm, ← List.take_take, whole]

/-- A complete file gives its next bytes, and the end behind the last one. -/
theorem Readable.read {f : SimpleFile} (readable : f.Readable) (len : Nat) (some : 0 < len) :
    (f.unread = [] → f.read len = Option.some (none, f)) ∧
      (f.unread ≠ [] → ∃ g : SimpleFile, f.read len = Option.some (Option.some (f.unread.take len), g) ∧
        g.Readable ∧ g.unread = f.unread.drop len ∧ g.endpos = f.endpos) := by
  have width := readable.unread_length
  have order := readable.order
  refine ⟨?_, ?_⟩
  · intro empty
    have same : f.readpos = f.endpos := by
      rw [empty, List.length_nil] at width
      omega
    rw [SimpleFile.read, if_neg (by omega), if_pos same, readable.eof, if_pos rfl]
  · intro filled
    have more : f.readpos ≠ f.endpos := by
      intro same
      apply filled
      rw [← List.length_eq_zero_iff, width]
      omega
    have wrapped : ¬ (f.maxStoreSize ≠ 0 ∧ f.readpos = f.maxStoreSize) := by
      have straight := readable.straight
      omega
    have part : (f.unread.take len).length ≤ f.endpos - f.readpos := by
      rw [List.length_take, width]
      omega
    refine ⟨{ f with readpos := f.readpos + (f.unread.take len).length }, ?_, ?_, ?_, rfl⟩
    · simp only [SimpleFile.read, if_neg (show ¬ len = 0 by omega), if_neg more, if_neg wrapped, readable.remains more]
      rw [if_neg (by omega), Int.toNat_natCast, readable.drop_take]
    · have small := readable.small
      refine ⟨readable.eof, readable.unlocked, ?_, readable.inside, ?_, readable.straight⟩
      · change f.readpos + (f.unread.take len).length ≤ f.endpos
        omega
      · change f.endpos - (f.readpos + (f.unread.take len).length) < 2147483648
        omega
    · change (f.file.take f.endpos).drop (f.readpos + (f.unread.take len).length) = f.unread.drop len
      rw [← List.drop_drop]
      change f.unread.drop (f.unread.take len).length = f.unread.drop len
      rw [List.length_take]
      rcases Nat.le_total len f.unread.length with inside | beyond
      · rw [Nat.min_eq_left inside]
      · rw [Nat.min_eq_right beyond, List.drop_length, List.drop_of_length_le beyond]

end SimpleFile

end IcapService
