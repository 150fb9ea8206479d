import IcapService.Lib.CString

/-! Byte buffers of a fixed size.

The size is part of the type. A write that does not fit is cut off at the end of the buffer. -/

namespace IcapService.CString

structure Buffer (n : Nat) where
  bytes : Bytes
  size : bytes.length = n
  deriving DecidableEq

namespace Buffer

variable {n : Nat}

def zeros (n : Nat) : Buffer n := ⟨List.replicate n 0, by simp⟩

/-- Put `data` at `offset`. -/
def write (b : Buffer n) (offset : Nat) (data : Bytes) : Buffer n where
  bytes := (b.bytes.take offset ++ data ++ b.bytes.drop (offset + data.length)).take n
  size := by
    have size := b.size
    simp only [List.length_take, List.length_append, List.length_drop]
    omega

/-- The `len` bytes at `offset`. -/
def read (b : Buffer n) (offset len : Nat) : Bytes := (b.bytes.drop offset).take len

theorem read_length (b : Buffer n) (offset len : Nat) (room : offset + len ≤ n) :
    (b.read offset len).length = len := by
  have size := b.size
  simp only [read, List.length_take, List.length_drop]
  omega

theorem read_add (b : Buffer n) (offset len more : Nat) :
    b.read offset (len + more) = b.read offset len ++ b.read (offset + len) more := by
  simp [read, List.take_add, List.drop_drop]

theorem write_bytes (b : Buffer n) (offset : Nat) (data : Bytes) (room : offset + data.length ≤ n) :
    (b.write offset data).bytes =
      b.bytes.take offset ++ (data ++ b.bytes.drop (offset + data.length)) := by
  have size := b.size
  simp only [write, List.append_assoc]
  apply List.take_of_length_le
  simp only [List.length_append, List.length_take, List.length_drop]
  omega

@[simp] theorem write_nil (b : Buffer n) (offset : Nat) : b.write offset [] = b := by
  have size := b.size
  cases b
  simp only [write, List.append_nil, List.length_nil, Nat.add_zero, List.take_append_drop, mk.injEq]
  exact List.take_of_length_le (by omega)

theorem read_drop (b : Buffer n) (offset len k : Nat) :
    b.read (offset + k) (len - k) = (b.read offset len).drop k := by
  simp only [read, List.drop_take, List.drop_drop]

@[simp] theorem read_zero (b : Buffer n) (offset : Nat) : b.read offset 0 = [] := by simp [read]

/-- What was written is read back. -/
theorem read_write_same (b : Buffer n) (offset : Nat) (data : Bytes)
    (room : offset + data.length ≤ n) : (b.write offset data).read offset data.length = data := by
  have front : (b.bytes.take offset).length = offset := by
    rw [List.length_take, b.size]
    omega
  rw [read, write_bytes b offset data room, List.drop_left' front, List.take_left]

/-- A write leaves what lies before it or behind it alone. -/
theorem read_write_apart (b : Buffer n) (offset other len : Nat) (data : Bytes)
    (room : offset + data.length ≤ n)
    (apart : other + len ≤ offset ∨ offset + data.length ≤ other) :
    (b.write offset data).read other len = b.read other len := by
  have front : (b.bytes.take offset).length = offset := by
    rw [List.length_take, b.size]
    omega
  rw [read, read, write_bytes b offset data room]
  rcases apart with before | behind
  · rw [List.drop_append_of_le_length (by omega), List.drop_take,
      List.take_append_of_le_length (by simp only [List.length_take, List.length_drop, b.size]; omega),
      List.take_take, Nat.min_eq_left (by omega)]
  · obtain ⟨k, rfl⟩ : ∃ k, other = offset + (data.length + k) := ⟨other - offset - data.length, by omega⟩
    rw [← List.drop_drop, List.drop_left' front, ← List.drop_drop, List.drop_left, List.drop_drop]
    congr 2
    omega

end Buffer

end IcapService.CString
