import IcapService.SharedCache

/-! What updates and searches of the shared cache touch. -/

namespace IcapService

open CString CInt Transition

/-- A successful update: its key and the bytes that were copied. -/
structure SharedStored where
  key : CText
  val : Option Bytes
  deriving DecidableEq

/-- The shared memory, with the successful updates from the last one on. -/
structure SharedState where
  mem : Mem
  log : List SharedStored

/-- The memory is filled with zeros at first. -/
def SharedState.new : SharedState := ⟨fun _ => 0, []⟩

namespace SharedCache

/-- An update at some time. -/
def step (c : SharedCache) (s : SharedState) (op : Int64 × SharedUpdate) : Option SharedState :=
  let out := c.update s.mem op.1 op.2
  some ⟨out.2, if out.1 then ⟨op.2.key, op.2.copied⟩ :: s.log else s.log⟩

/-- The key and a value take the whole slot, which leaves none for the byte between the two. -/
def Exact (c : SharedCache) (u : SharedUpdate) : Prop := u.key.size + u.val.length + 32 = c.entrySize ∧ u.val ≠ []

instance (c : SharedCache) (u : SharedUpdate) : Decidable (c.Exact u) := inferInstanceAs (Decidable (_ ∧ _))

/-- The bytes at an address belong to a slot. -/
def Within (c : SharedCache) (pos addr len : Nat) : Prop := c.slotAt pos ≤ addr ∧ addr + len ≤ c.slotAt (pos + 1)

/-- A slot that has been written: what its header says, and its key. -/
structure Written (c : SharedCache) (m : Mem) (pos : Nat) (key : CText) (size : Nat) : Prop where
  hash : slotHash m (c.slotAt pos) = pos
  keySize : slotKeySize m (c.slotAt pos) = key.size
  valueSize : slotValueSize m (c.slotAt pos) = size
  text : m.load (c.slotAt pos + 32) key.size = key.bytes ++ [0]
  fits : key.size + size + 32 ≤ c.entrySize ∧ (size ≠ 0 → key.size + size + 33 ≤ c.entrySize)

/-- A slot that has never been written. -/
def Blank (c : SharedCache) (m : Mem) (pos : Nat) : Prop := ∀ a, c.slotAt pos ≤ a → a < c.slotAt (pos + 1) → m a = 0

def Slots (c : SharedCache) (m : Mem) : Prop := ∀ pos, c.Blank m pos ∨ ∃ key size, c.Written m pos key size

variable {c : SharedCache} {m m' : Mem} {now : Int64} {u : SharedUpdate} {pos p : Nat}

theorem slotAt_succ (c : SharedCache) (pos : Nat) : c.slotAt (pos + 1) = c.slotAt pos + c.entrySize := Nat.succ_mul _ _

theorem Written.congr {key : CText} {size : Nat} (written : c.Written m pos key size)
    (same : ∀ a, c.slotAt pos ≤ a → a < c.slotAt (pos + 1) → m' a = m a) : c.Written m' pos key size := by
  have fits := written.fits
  rw [slotAt_succ] at same
  have loads : ∀ off len, off + len ≤ c.entrySize → m'.load (c.slotAt pos + off) len = m.load (c.slotAt pos + off) len :=
    fun off len inside => Mem.load_congr (fun a _ _ => same a (by omega) (by omega))
  refine ⟨?_, ?_, ?_, ?_, written.fits⟩
  · have first := loads 0 4 (by omega)
    rw [Nat.add_zero] at first
    rw [slotHash, first]
    exact written.hash
  · rw [slotKeySize, loads 16 8 (by omega)]
    exact written.keySize
  · rw [slotValueSize, loads 24 8 (by omega)]
    exact written.valueSize
  · rw [loads 32 key.size (by omega)]
    exact written.text

/-- What is found where an update has written. -/
structure Found (c : SharedCache) (m : Mem) (pos : Nat) (now : Int64) (u : SharedUpdate) : Prop where
  hash : slotHash m (c.slotAt pos) = pos
  expires : slotExpires m (c.slotAt pos) = now + c.ttl
  keySize : slotKeySize m (c.slotAt pos) = u.key.size
  valueSize : slotValueSize m (c.slotAt pos) = u.val.length
  text : m.load (c.slotAt pos + 32) u.key.size = u.key.bytes ++ [0]
  value : ∀ bytes, u.copied = some bytes → m.load (c.slotAt pos + 32 + (u.key.size + 1)) u.val.length = bytes

theorem blank_load (blank : c.Blank m pos) {off len : Nat} (inside : off + len ≤ c.entrySize) :
    m.load (c.slotAt pos + off) len = List.replicate len 0 := by
  refine List.eq_replicate_iff.mpr ⟨Mem.load_length m _ len, fun b member => ?_⟩
  obtain ⟨i, inRange, rfl⟩ := List.mem_map.mp member
  have low := List.mem_range.mp inRange
  exact blank _ (by omega) (by rw [slotAt_succ]; omega)

end SharedCache

end IcapService
