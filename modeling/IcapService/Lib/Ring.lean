import IcapService.Lib.Buffer

/-! A ring buffer of a fixed size.

The data lies between the read and the write position, around the end of the buffer if need be.
Equal positions mean an empty buffer unless `full` is set. -/

namespace IcapService.CString

structure Ring (n : Nat) where
  buf : Buffer n
  readPos : Nat
  writePos : Nat
  full : Bool
  some : 0 < n
  inside : readPos < n ∧ writePos < n

namespace Ring

variable {n : Nat}

def new (n : Nat) (some : 0 < n) : Ring n := ⟨.zeros n, 0, 0, false, some, ⟨some, some⟩⟩

/-- The position `k` bytes further on; behind the end is the beginning. -/
def step (n pos k : Nat) : Nat := if pos + k < n then pos + k else 0

theorem step_lt (some : 0 < n) (pos k : Nat) : step n pos k < n := by
  simp only [step]
  split <;> omega

/-- The block that can be written at once, and whether there may be another one. -/
def writeBlock (r : Ring n) : Nat × Bool :=
  if r.readPos = r.writePos ∧ r.full = false then (n - r.writePos, false)
  else if r.writePos ≤ r.readPos then (r.readPos - r.writePos, false)
  else (n - r.writePos, true)

/-- The block that can be read at once, and whether there may be another one. -/
def readBlock (r : Ring n) : Nat × Bool :=
  if r.readPos = r.writePos ∧ r.full = false then (0, false)
  else if r.writePos ≤ r.readPos then (n - r.readPos, decide (r.readPos ≠ 0))
  else (r.writePos - r.readPos, false)

def consume (r : Ring n) (k : Nat) : Ring n :=
  if k = 0 then r
  else
    { r with
      readPos := step n r.readPos k
      full := false
      inside := ⟨step_lt r.some _ _, r.inside.2⟩ }

def produce (r : Ring n) (k : Nat) : Ring n :=
  if k = 0 then r
  else
    { r with
      writePos := step n r.writePos k
      full := if step n r.writePos k = r.readPos then true else r.full
      inside := ⟨r.inside.1, step_lt r.some _ _⟩ }

/-- One pass of the loop that writes `data`: what of it fits the block. -/
def writeOnce (r : Ring n) (data : Bytes) : Ring n :=
  let k := min data.length r.writeBlock.1
  produce { r with buf := r.buf.write r.writePos (data.take k) } k

/-- The loop that writes `data`, with the number of bytes written. A pass that is not the last
writes at least one byte. -/
def writeLoop : Nat → Ring n → Bytes → Ring n × Nat
  | 0, r, _ => (r, 0)
  | fuel + 1, r, data =>
      let k := min data.length r.writeBlock.1
      if r.writeBlock.2 ∧ data.drop k ≠ [] then
        let out := writeLoop fuel (r.writeOnce data) (data.drop k)
        (out.1, k + out.2)
      else (r.writeOnce data, k)

def write (r : Ring n) (data : Bytes) : Ring n × Nat := writeLoop (data.length + 1) r data

/-- The loop that reads at most `size` bytes. -/
def readLoop : Nat → Ring n → Nat → Bytes × Ring n
  | 0, r, _ => ([], r)
  | fuel + 1, r, size =>
      let k := min size r.readBlock.1
      let block := r.buf.read r.readPos k
      if r.readBlock.2 ∧ 0 < size - k then
        let out := readLoop fuel (r.consume k) (size - k)
        (block ++ out.1, out.2)
      else (block, r.consume k)

def read (r : Ring n) (size : Nat) : Bytes × Ring n := readLoop (size + 1) r size

/-! ### The data in the ring -/

def content (r : Ring n) : Bytes :=
  if r.readPos = r.writePos ∧ r.full = false then []
  else if r.readPos < r.writePos then r.buf.read r.readPos (r.writePos - r.readPos)
  else r.buf.read r.readPos (n - r.readPos) ++ r.buf.read 0 r.writePos

/-- A full ring has equal positions. -/
def Sound (r : Ring n) : Prop := r.full = true → r.readPos = r.writePos

/-- The number of bytes a write takes. An empty ring is filled up to the end of its buffer only. -/
def room (r : Ring n) : Nat :=
  if r.readPos = r.writePos ∧ r.full = false then n - r.writePos
  else if r.writePos ≤ r.readPos then r.readPos - r.writePos
  else n - r.writePos + r.readPos

theorem new_content (some : 0 < n) : (new n some).content = [] := by simp [content, new]

theorem new_sound (some : 0 < n) : (new n some).Sound := by simp [Sound, new]

theorem content_ahead {r : Ring n} (ahead : r.readPos < r.writePos) :
    r.content = r.buf.read r.readPos (r.writePos - r.readPos) := by
  have apart : ¬ (r.readPos = r.writePos ∧ r.full = false) := by
    rintro ⟨equal, -⟩
    omega
  rw [content, if_neg apart, if_pos ahead]

theorem content_around {r : Ring n} (around : r.writePos ≤ r.readPos)
    (nonempty : r.readPos = r.writePos → r.full = true) :
    r.content = r.buf.read r.readPos (n - r.readPos) ++ r.buf.read 0 r.writePos := by
  have apart : ¬ (r.readPos = r.writePos ∧ r.full = false) := by
    rintro ⟨equal, spare⟩
    rw [nonempty equal] at spare
    cases spare
  rw [content, if_neg apart, if_neg (by omega)]

/-- The three shapes of a ring: empty, in one piece, or around the end of the buffer. -/
theorem Sound.shape {r : Ring n} (sound : r.Sound) :
    (r.readPos = r.writePos ∧ r.full = false ∧ r.content = []) ∨
    (r.readPos < r.writePos ∧ r.full = false ∧ r.content = r.buf.read r.readPos (r.writePos - r.readPos)) ∨
    (r.writePos ≤ r.readPos ∧ (r.readPos = r.writePos ↔ r.full = true) ∧
      r.content = r.buf.read r.readPos (n - r.readPos) ++ r.buf.read 0 r.writePos) := by
  have exclusive : r.readPos ≠ r.writePos → r.full = false := by
    intro apart
    by_contra full
    exact apart (sound (by simpa using full))
  by_cases empty : r.readPos = r.writePos ∧ r.full = false
  · exact .inl ⟨empty.1, empty.2, if_pos empty⟩
  by_cases ahead : r.readPos < r.writePos
  · exact .inr (.inl ⟨ahead, exclusive (by omega), content_ahead ahead⟩)
  · have full : r.readPos = r.writePos → r.full = true := by
      intro equal
      by_contra spare
      exact empty ⟨equal, by simpa using spare⟩
    exact .inr (.inr ⟨by omega, ⟨full, sound⟩, content_around (by omega) full⟩)

theorem writeBlock_inside (r : Ring n) : r.writePos + r.writeBlock.1 ≤ n := by
  have inside := r.inside
  simp only [writeBlock]
  split
  · simp only
    omega
  · split
    · simp only
      omega
    · simp only
      omega

/-- A block that fits is put behind the data. -/
theorem put_content (r : Ring n) (sound : r.Sound) (data : Bytes) (some : data ≠ [])
    (fits : data.length ≤ r.writeBlock.1) :
    (produce { r with buf := r.buf.write r.writePos data } data.length).content = r.content ++ data ∧
      (produce { r with buf := r.buf.write r.writePos data } data.length).Sound := by
  have inside := r.inside
  have positive : 0 < data.length := List.length_pos_iff.mpr some
  have room : r.writePos + data.length ≤ n := by
    have block := r.writeBlock_inside
    omega
  have fresh : (r.buf.write r.writePos data).read r.writePos data.length = data :=
    Buffer.read_write_same _ _ _ room
  generalize result : produce { r with buf := r.buf.write r.writePos data } data.length = r'
  have buf : r'.buf = r.buf.write r.writePos data := by
    rw [← result, produce, if_neg (by omega)]
  have readPos : r'.readPos = r.readPos := by
    rw [← result, produce, if_neg (by omega)]
  have writePos : r'.writePos = if r.writePos + data.length < n then r.writePos + data.length else 0 := by
    rw [← result, produce, if_neg (by omega)]
    rfl
  have full : r'.full = if r'.writePos = r.readPos then true else r.full := by
    rw [← result, produce, if_neg (by omega)]
  have keep : ∀ pos len, (pos + len ≤ r.writePos ∨ r.writePos + data.length ≤ pos) →
      r'.buf.read pos len = r.buf.read pos len := by
    intro pos len apart
    rw [buf]
    exact Buffer.read_write_apart _ _ _ _ _ room apart
  rcases sound.shape with ⟨equal, spare, old⟩ | ⟨ahead, spare, old⟩ | ⟨around, whole, old⟩
  · rw [old, List.nil_append]
    by_cases last : r.writePos + data.length < n
    · rw [if_pos last] at writePos
      rw [if_neg (by omega), spare] at full
      constructor
      · rw [content_ahead (by omega), readPos, writePos, buf, equal, Nat.add_sub_cancel_left, fresh]
      · intro set
        rw [full] at set
        cases set
    · rw [if_neg last] at writePos
      have length : data.length = n - r.readPos := by omega
      constructor
      · rw [content_around (by omega), readPos, writePos, Buffer.read_zero, List.append_nil, ← length, buf, equal, fresh]
        intro first
        rw [full, if_pos (by omega)]
      · intro set
        rw [full] at set
        split at set
        · omega
        · rw [spare] at set
          cases set
  · have longer : r.writePos + data.length - r.readPos = (r.writePos - r.readPos) + data.length := by omega
    have joined : r'.buf.read r.readPos (r.writePos + data.length - r.readPos) = r.content ++ data := by
      rw [longer, Buffer.read_add, keep _ _ (.inl (by omega)), ← old, Nat.add_sub_cancel' (by omega), buf,
        fresh]
    by_cases last : r.writePos + data.length < n
    · rw [if_pos last] at writePos
      rw [if_neg (by omega), spare] at full
      constructor
      · rw [content_ahead (by omega), readPos, writePos, joined]
      · intro set
        rw [full] at set
        cases set
    · rw [if_neg last] at writePos
      have ending : n - r.readPos = r.writePos + data.length - r.readPos := by omega
      constructor
      · rw [content_around (by omega), readPos, writePos, Buffer.read_zero, List.append_nil, ending, joined]
        intro first
        rw [full, if_pos (by omega)]
      · intro set
        rw [full] at set
        split at set
        · omega
        · rw [spare] at set
          cases set
  · have below : r.writePos + data.length ≤ r.readPos := by
      simp only [writeBlock] at fits
      split at fits
      · rename_i empty
        rw [whole.mp empty.1] at empty
        exact absurd empty.2 (by simp)
      · simp only at fits
        omega
    rw [if_pos (by omega)] at writePos
    have spare : r.full = false := by
      by_contra set
      have equal := whole.mpr (by simpa using set)
      omega
    constructor
    · rw [content_around (by omega), readPos, writePos, keep _ _ (.inr (by omega)), Buffer.read_add,
        keep _ _ (.inl (by omega)), Nat.zero_add, buf, fresh, ← List.append_assoc, ← old]
      intro equal
      rw [full, if_pos (by omega)]
    · intro set
      rw [full] at set
      split at set
      · omega
      · rw [spare] at set
        cases set

/-- One pass of the writing loop. -/
theorem writeOnce_content (r : Ring n) (sound : r.Sound) (data : Bytes) :
    (r.writeOnce data).content = r.content ++ data.take (min data.length r.writeBlock.1) ∧
      (r.writeOnce data).Sound := by
  generalize amount : min data.length r.writeBlock.1 = k
  by_cases none : k = 0
  · subst none
    simp only [writeOnce, amount, produce, if_true, List.take_zero, Buffer.write_nil, List.append_nil]
    exact ⟨trivial, sound⟩
  · have length : (data.take k).length = k := by
      rw [List.length_take]
      omega
    have put := r.put_content sound (data.take k) (by rw [← List.length_pos_iff]; omega) (by omega)
    rw [length] at put
    simpa only [writeOnce, amount] using put

/-- A pass that fills the buffer up to its end leaves the room before the data. -/
theorem writeOnce_room (r : Ring n) (data : Bytes) (ahead : r.readPos < r.writePos)
    (long : n - r.writePos < data.length) : (r.writeOnce data).room = r.readPos := by
  have inside := r.inside
  have block : r.writeBlock.1 = n - r.writePos := by
    rw [writeBlock, if_neg (by omega), if_neg (by omega)]
  have amount : min data.length r.writeBlock.1 = n - r.writePos := by omega
  have wrapped : step n r.writePos (n - r.writePos) = 0 := by
    rw [step, if_neg (by omega)]
  simp only [writeOnce, amount, produce, if_neg (show ¬ n - r.writePos = 0 by omega), wrapped, room]
  by_cases first : r.readPos = 0
  · simp [first]
  · rw [if_neg (by omega), if_pos (by omega)]
    omega

theorem room_of_last (r : Ring n) (last : r.writeBlock.2 = false) : r.room = r.writeBlock.1 := by
  simp only [writeBlock] at last ⊢
  simp only [room]
  split
  · rfl
  · rename_i nonempty
    rw [if_neg nonempty] at last
    split
    · rfl
    · rename_i ahead
      rw [if_neg ahead] at last
      cases last

theorem room_of_more (r : Ring n) (more : r.writeBlock.2 = true) :
    r.readPos < r.writePos ∧ r.writeBlock.1 = n - r.writePos ∧ r.room = n - r.writePos + r.readPos := by
  simp only [writeBlock] at more ⊢
  simp only [room]
  split
  · rename_i empty
    rw [if_pos empty] at more
    cases more
  · rename_i nonempty
    rw [if_neg nonempty] at more
    split
    · rename_i around
      rw [if_pos around] at more
      cases more
    · exact ⟨by omega, rfl, rfl⟩

theorem writeLoop_spec (fuel : Nat) (r : Ring n) (sound : r.Sound) (data : Bytes) (enough : data.length < fuel) :
    (writeLoop fuel r data).2 = min data.length r.room ∧
      (writeLoop fuel r data).1.content = r.content ++ data.take (min data.length r.room) ∧
      (writeLoop fuel r data).1.Sound := by
  induction fuel generalizing r data with
  | zero => omega
  | succ fuel ih =>
      have inside := r.inside
      obtain ⟨content, sound'⟩ := r.writeOnce_content sound data
      simp only [writeLoop]
      split
      · rename_i more
        obtain ⟨ahead, block, room⟩ := r.room_of_more more.1
        have long : n - r.writePos < data.length := by
          by_contra short
          exact more.2 (List.drop_eq_nil_of_le (by omega))
        have amount : min data.length r.writeBlock.1 = n - r.writePos := by omega
        obtain ⟨written, rest, final⟩ := ih (r.writeOnce data) sound' (data.drop (n - r.writePos))
          (by rw [List.length_drop]; omega)
        rw [r.writeOnce_room data ahead long, List.length_drop] at written rest
        rw [amount] at content ⊢
        refine ⟨by simp only [written]; omega, ?_, final⟩
        have total : min data.length r.room = n - r.writePos + min (data.length - (n - r.writePos)) r.readPos := by omega
        rw [rest, content, total, List.take_add, List.append_assoc]
      · rename_i only
        have amount : min data.length r.writeBlock.1 = min data.length r.room := by
          cases more : r.writeBlock.2 with
          | false => rw [r.room_of_last more]
          | true =>
              obtain ⟨-, block, room⟩ := r.room_of_more more
              have all : data.drop (min data.length r.writeBlock.1) = [] := by
                by_contra some
                exact only ⟨more, some⟩
              have short := List.drop_eq_nil_iff.mp all
              omega
        rw [amount] at content ⊢
        exact ⟨rfl, content, sound'⟩

/-- A write puts what there is room for behind the data. -/
theorem write_spec (r : Ring n) (sound : r.Sound) (data : Bytes) :
    (r.write data).2 = min data.length r.room ∧
      (r.write data).1.content = r.content ++ data.take (min data.length r.room) ∧ (r.write data).1.Sound :=
  writeLoop_spec _ r sound data (Nat.lt_succ_self _)

/-! ### Reading -/

/-- One pass of the reading loop. -/
theorem consume_content (r : Ring n) (sound : r.Sound) (k : Nat) (fits : k ≤ r.readBlock.1) :
    r.buf.read r.readPos k ++ (r.consume k).content = r.content ∧ (r.consume k).Sound := by
  have inside := r.inside
  by_cases none : k = 0
  · subst none
    simpa [consume] using sound
  generalize result : r.consume k = r'
  have buf : r'.buf = r.buf := by rw [← result, consume, if_neg none]
  have writePos : r'.writePos = r.writePos := by rw [← result, consume, if_neg none]
  have full : r'.full = false := by rw [← result, consume, if_neg none]
  have readPos : r'.readPos = if r.readPos + k < n then r.readPos + k else 0 := by
    rw [← result, consume, if_neg none]
    rfl
  refine ⟨?_, fun set => by rw [full] at set; cases set⟩
  rcases sound.shape with ⟨equal, spare, old⟩ | ⟨ahead, spare, old⟩ | ⟨around, whole, old⟩
  · rw [readBlock, if_pos ⟨equal, spare⟩] at fits
    omega
  · rw [readBlock, if_neg (by omega), if_neg (by omega)] at fits
    simp only at fits
    rw [if_pos (by omega)] at readPos
    have split : r.writePos - r.readPos = k + (r.writePos - (r.readPos + k)) := by omega
    rw [old, split, Buffer.read_add]
    congr 1
    by_cases all : r.readPos + k = r.writePos
    · rw [content, if_pos ⟨by omega, full⟩, all, Nat.sub_self, Buffer.read_zero]
    · rw [content_ahead (by omega), buf, readPos, writePos]
  · have block : r.readBlock.1 = n - r.readPos := by
      rw [readBlock, if_neg, if_pos around]
      rintro ⟨equal, spare⟩
      rw [whole.mp equal] at spare
      cases spare
    rw [block] at fits
    rw [old]
    by_cases last : r.readPos + k < n
    · rw [if_pos last] at readPos
      have split : n - r.readPos = k + (n - (r.readPos + k)) := by omega
      rw [split, Buffer.read_add, List.append_assoc]
      congr 1
      rw [content_around (by omega) (by omega), buf, readPos, writePos]
    · rw [if_neg last] at readPos
      have all : k = n - r.readPos := by omega
      rw [← all]
      congr 1
      by_cases empty : r.writePos = 0
      · rw [content, if_pos ⟨by omega, full⟩, empty, Buffer.read_zero]
      · rw [content_ahead (by omega), buf, readPos, writePos, Nat.sub_zero]

theorem readBlock_length (r : Ring n) (k : Nat) (fits : k ≤ r.readBlock.1) :
    (r.buf.read r.readPos k).length = k := by
  have inside := r.inside
  have room : r.readPos + r.readBlock.1 ≤ n := by
    simp only [readBlock]
    split
    · simp only
      omega
    · split
      · simp only
        omega
      · simp only
        omega
  exact r.buf.read_length _ _ (by omega)

theorem readBlock_some (r : Ring n) (more : r.readBlock.2 = true) : 0 < r.readBlock.1 := by
  have inside := r.inside
  simp only [readBlock] at more ⊢
  split
  · rename_i empty
    rw [if_pos empty] at more
    cases more
  · split
    · simp only
      omega
    · simp only
      omega

theorem readBlock_last (r : Ring n) (sound : r.Sound) (last : r.readBlock.2 = false) :
    r.content.length = r.readBlock.1 := by
  have inside := r.inside
  rcases sound.shape with ⟨equal, spare, old⟩ | ⟨ahead, spare, old⟩ | ⟨around, whole, old⟩
  · rw [readBlock, if_pos ⟨equal, spare⟩, old]
    rfl
  · rw [readBlock, if_neg (by omega), if_neg (by omega), old]
    exact r.buf.read_length _ _ (by omega)
  · have nonempty : ¬ (r.readPos = r.writePos ∧ r.full = false) := by
      rintro ⟨equal, spare⟩
      rw [whole.mp equal] at spare
      cases spare
    rw [readBlock, if_neg nonempty, if_pos around] at last ⊢
    have first : r.readPos = 0 := by simpa using last
    have front : r.writePos = 0 := by omega
    rw [old, front, Buffer.read_zero, List.append_nil]
    exact r.buf.read_length _ _ (by omega)

theorem readLoop_spec (fuel : Nat) (r : Ring n) (sound : r.Sound) (size : Nat) (enough : size < fuel) :
    (readLoop fuel r size).1 = r.content.take size ∧
      (readLoop fuel r size).2.content = r.content.drop size ∧ (readLoop fuel r size).2.Sound := by
  induction fuel generalizing r size with
  | zero => omega
  | succ fuel ih =>
      obtain ⟨content, sound'⟩ := r.consume_content sound (min size r.readBlock.1) (Nat.min_le_right _ _)
      have length := r.readBlock_length (min size r.readBlock.1) (Nat.min_le_right _ _)
      simp only [readLoop]
      generalize r.buf.read r.readPos (min size r.readBlock.1) = front at content length ⊢
      rw [← content]
      split
      · rename_i more
        have some := r.readBlock_some more.1
        obtain ⟨block, rest, final⟩ := ih (r.consume (min size r.readBlock.1)) sound' (size - min size r.readBlock.1) (by omega)
        refine ⟨?_, ?_, final⟩
        · simp only
          rw [block, List.take_append, length]
          congr 1
          exact (List.take_of_length_le (by omega)).symm
        · simp only
          have gone : front.drop size = [] := List.drop_eq_nil_of_le (by omega)
          rw [rest, List.drop_append, length, gone, List.nil_append]
      · rename_i only
        have all : size ≤ front.length ∨ (r.consume (min size r.readBlock.1)).content = [] := by
          by_cases short : size ≤ front.length
          · exact .inl short
          · right
            have last : r.readBlock.2 = false := by
              by_contra more
              exact only ⟨by simpa using more, by omega⟩
            have total := r.readBlock_last sound last
            rw [← content, List.length_append] at total
            exact List.length_eq_zero_iff.mp (by omega)
        refine ⟨?_, ?_, sound'⟩
        · rcases all with short | none
          · rw [List.take_append_of_le_length short, List.take_of_length_le (by omega)]
          · rw [none, List.append_nil, List.take_of_length_le (by omega)]
        · rcases all with short | none
          · rw [List.drop_append_of_le_length short, List.drop_eq_nil_of_le (by omega), List.nil_append]
          · rw [none, List.append_nil, List.drop_eq_nil_of_le (by omega)]

/-- A read takes bytes from the front of the data. -/
theorem read_spec (r : Ring n) (sound : r.Sound) (size : Nat) :
    (r.read size).1 = r.content.take size ∧ (r.read size).2.content = r.content.drop size ∧
      (r.read size).2.Sound :=
  readLoop_spec _ r sound size (Nat.lt_succ_self _)

theorem Sound.content_length {r : Ring n} (sound : r.Sound) :
    r.content.length ≤ n ∧ (r.content.length < n → 0 < r.room) := by
  have inside := r.inside
  have positive := r.some
  rcases sound.shape with ⟨equal, spare, old⟩ | ⟨ahead, spare, old⟩ | ⟨around, whole, old⟩
  · rw [old, room, if_pos ⟨equal, spare⟩, List.length_nil]
    omega
  · rw [old, room, if_neg (by omega), if_neg (by omega), Buffer.read_length _ _ _ (by omega)]
    omega
  · have nonempty : ¬ (r.readPos = r.writePos ∧ r.full = false) := by
      intro empty
      rw [whole.mp empty.1] at empty
      exact absurd empty.2 (by decide)
    rw [old, room, if_neg nonempty, if_pos around, List.length_append, Buffer.read_length _ _ _ (by omega),
      Buffer.read_length _ _ _ (by omega)]
    omega

/-! ### Bounds -/

theorem writeLoop_le (fuel : Nat) (r : Ring n) (data : Bytes) : (writeLoop fuel r data).2 ≤ data.length := by
  induction fuel generalizing r data with
  | zero => exact Nat.zero_le _
  | succ fuel ih =>
      simp only [writeLoop]
      split
      · have rest := ih (r.writeOnce data) (data.drop (min data.length r.writeBlock.1))
        rw [List.length_drop] at rest
        simp only
        omega
      · exact Nat.min_le_left _ _

theorem write_le (r : Ring n) (data : Bytes) : (r.write data).2 ≤ data.length := writeLoop_le _ r data

theorem readLoop_le (fuel : Nat) (r : Ring n) (size : Nat) : (readLoop fuel r size).1.length ≤ size := by
  induction fuel generalizing r size with
  | zero => exact Nat.zero_le _
  | succ fuel ih =>
      have block : (r.buf.read r.readPos (min size r.readBlock.1)).length ≤ min size r.readBlock.1 :=
        List.length_take_le _ _
      simp only [readLoop]
      split
      · have rest := ih (r.consume (min size r.readBlock.1)) (size - min size r.readBlock.1)
        rw [List.length_append]
        omega
      · simp only
        omega

theorem read_le (r : Ring n) (size : Nat) : (r.read size).1.length ≤ size := readLoop_le _ r size

/-- `total` bytes have been written to the ring since it was new; before the end of the buffer has
been reached they lie where they were put. -/
def Straight (r : Ring n) (total : Nat) : Prop :=
  total < n → r.writePos = total ∧ r.readPos ≤ total ∧ r.full = false

theorem new_straight (some : 0 < n) : (new n some).Straight 0 := fun _ => ⟨rfl, Nat.le_refl _, rfl⟩

theorem Straight.writeBlock {r : Ring n} {total : Nat} (straight : r.Straight total) (within : total < n) :
    r.writeBlock.1 = n - total := by
  obtain ⟨writePos, readPos, full⟩ := straight within
  simp only [Ring.writeBlock, full, and_true, writePos]
  split
  · rfl
  · rw [if_neg (by omega)]

theorem Straight.room {r : Ring n} {total : Nat} (straight : r.Straight total) (within : total ≤ n) :
    n - total ≤ r.room := by
  by_cases last : total = n
  · omega
  · obtain ⟨writePos, readPos, full⟩ := straight (by omega)
    simp only [Ring.room, full, and_true, writePos]
    split
    · exact Nat.le_refl _
    · rw [if_neg (by omega)]
      omega

theorem Straight.write {r : Ring n} {total : Nat} (straight : r.Straight total) (data : Bytes) :
    (r.write data).1.Straight (total + data.length) := by
  intro within
  have block := straight.writeBlock (by omega)
  obtain ⟨writePos, readPos, full⟩ := straight (by omega)
  have amount : min data.length r.writeBlock.1 = data.length := by omega
  have all : ¬ (r.writeBlock.2 = true ∧ data.drop (min data.length r.writeBlock.1) ≠ []) := by
    rw [amount, List.drop_length]
    simp
  have once : (r.write data).1 = r.writeOnce data := by
    simp only [Ring.write, writeLoop, if_neg all]
  rw [once]
  simp only [writeOnce, amount, produce]
  split
  · rename_i none
    rw [none]
    exact ⟨writePos, readPos, full⟩
  · have inside : step n r.writePos data.length = total + data.length := by
      rw [step, writePos, if_pos within]
    simp only [inside]
    exact ⟨trivial, by omega, by rw [if_neg (by omega)]; exact full⟩

theorem Straight.read {r : Ring n} {total : Nat} (straight : r.Straight total) (size : Nat) :
    (r.read size).2.Straight total := by
  intro within
  obtain ⟨writePos, readPos, full⟩ := straight within
  have block : r.readBlock = (total - r.readPos, false) := by
    simp only [readBlock, full, and_true, writePos]
    split
    · rename_i empty
      rw [empty, Nat.sub_self]
    · rw [if_neg (by omega)]
  simp only [Ring.read, readLoop, block, Bool.false_eq_true, false_and, if_false, consume]
  split
  · exact ⟨writePos, readPos, full⟩
  · have inside : step n r.readPos (min size (total - r.readPos)) = r.readPos + min size (total - r.readPos) := by
      rw [step, if_pos (by omega)]
    simp only [inside]
    exact ⟨writePos, by omega, trivial⟩

end Ring

end IcapService.CString
