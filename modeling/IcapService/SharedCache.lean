import IcapService.Lib.Buffer
import IcapService.Lib.Transition
import IcapService.LookupTable
import IcapService.PackAllocator

/-! The cache of `modules/shared_cache.c` in the memory that the processes share.

Addresses count from the first slot on, and keys are strings, as `ci_str_ops` takes them. The counters of the pages,
which lie in front of the slots, are left out, and taking the lock of a page always succeeds. -/

namespace IcapService

open CString CInt Transition

/-! ### Sizes -/

/-- The sizes of a `struct shared_cache_data`, with the ttl of its cache. -/
structure SharedCache where
  entrySize : Nat
  maxHash : Nat
  entries : Nat
  pageSize : Nat
  pageShiftOp : Nat
  ttl : Int64

def slotHash (m : Mem) (slot : Nat) : Nat := word (m.load slot 4)

def slotExpires (m : Mem) (slot : Nat) : Int64 := .ofBitVec (.ofNat 64 (word (m.load (slot + 8) 8)))

def slotKeySize (m : Mem) (slot : Nat) : Nat := word (m.load (slot + 16) 8)

def slotValueSize (m : Mem) (slot : Nat) : Nat := word (m.load (slot + 24) 8)

/-- The number of stored bytes that `strcmp` reads. -/
def strcmpReads (m : Mem) (addr : Nat) : Bytes → Nat
  | [] => 1
  | b :: rest => if m addr = b then strcmpReads m (addr + 1) rest + 1 else 1

/-- What `ci_shared_cache_update` is called with. -/
structure SharedUpdate where
  key : CText
  val : Bytes
  copyToCache : Option (Bytes → (size : Nat) → Option (Buffer size))

/-- What is copied to the slot; nothing when `copy_to_cache` fails. -/
def SharedUpdate.copied (u : SharedUpdate) : Option Bytes :=
  match u.copyToCache with
  | none => some u.val
  | some copy => (copy u.val u.val.length).map Buffer.bytes

namespace SharedCache

variable (c : SharedCache)

def slotAt (pos : Nat) : Nat := pos * c.entrySize

def pageOf (pos : Nat) : Nat := pos >>> c.pageShiftOp

/-- The slot of a key. -/
def keyHash (key : CText) : Nat :=
  let hash := ciHashCompute c.maxHash key.bytes (wrap32 key.size)
  if c.entries ≤ hash then c.entries - 1 else hash

/-! ### Updating -/

/-- The slot can be taken for a key with this hash. -/
def canUpdate (m : Mem) (now : Int64) (key : CText) (hash pos : Nat) : Bool :=
  let slot := c.slotAt pos
  decide (slotHash m slot < hash) || strEquals m (slot + 32) key || decide (slotExpires m slot < now + c.ttl) ||
    (decide (pos = hash) && decide (slotExpires m slot < now + c.ttl / 2))

/-- The loop of `ci_shared_cache_update` over the slots of the page. -/
def chooseSlot (m : Mem) (now : Int64) (key : CText) (hash : Nat) : Nat → Nat → Option Nat
  | 0, _ => none
  | fuel + 1, pos =>
      if c.pageOf pos ≠ c.pageOf hash then none
      else if c.canUpdate m now key hash pos then some pos
      else if pos ≠ hash ∧ slotHash m (c.slotAt pos) = pos then none
      else chooseSlot m now key hash fuel (pos + 1)

/-- The slot that takes an update, if the data is not too large for a slot. -/
def chosen (m : Mem) (now : Int64) (u : SharedUpdate) : Option Nat :=
  if c.entrySize < u.key.size + u.val.length + 32 then none
  else c.chooseSlot m now u.key (c.keyHash u.key) c.pageSize (c.keyHash u.key)

/-- The addresses that an update writes to, and the bytes. -/
def writes (now : Int64) (u : SharedUpdate) (pos : Nat) : List (Nat × Bytes) :=
  let slot := c.slotAt pos
  [(slot, wordBytes 4 pos), (slot + 8, wordBytes 8 (now + c.ttl).toBitVec.toNat), (slot + 16, wordBytes 8 u.key.size),
    (slot + 24, wordBytes 8 u.val.length), (slot + 32, u.key.bytes ++ [0]),
    (slot + 32 + (u.key.size + 1), u.copied.getD [])]

/-- `ci_shared_cache_update`. -/
def update (m : Mem) (now : Int64) (u : SharedUpdate) : Bool × Mem :=
  match c.chosen m now u with
  | none => (false, m)
  | some pos => (true, m.stores (c.writes now u pos))

/-! ### Searching -/

/-- The loop of `ci_shared_cache_search` over the slots of the page: where it reads how many bytes, and the value
behind the key, if it is found; a value without bytes is NULL. -/
def searchLoop (m : Mem) (now : Int64) (key : CText) (hash : Nat) : Nat → Nat →
    List (Nat × Nat) × Option (Option Bytes)
  | 0, _ => ([], none)
  | fuel + 1, pos =>
      if c.pageOf pos ≠ c.pageOf hash then ([], none)
      else
        let slot := c.slotAt pos
        let fields := [(slot + 16, 8), (slot, 4)]
        if slotHash m slot ≠ hash then (fields, none)
        else
          let compared := fields ++ [(slot + 32, strcmpReads m (slot + 32) key.bytes)]
          if strEquals m (slot + 32) key then
            if slotExpires m slot < now then
              let out := searchLoop m now key hash fuel (pos + 1)
              (compared ++ (slot + 8, 8) :: out.1, out.2)
            else
              let value := slot + 32 + (slotKeySize m slot + 1)
              let size := slotValueSize m slot
              (compared ++ [(slot + 8, 8), (slot + 24, 8), (value, size)],
                some (if size = 0 then none else some (m.load value size)))
          else
            let out := searchLoop m now key hash fuel (pos + 1)
            (compared ++ out.1, out.2)

/-- `ci_shared_cache_search`. -/
def search (m : Mem) (now : Int64) (key : CText) : Option (Option Bytes) :=
  (c.searchLoop m now key (c.keyHash key) c.pageSize (c.keyHash key)).2

/-- What holds of the sizes of every cache. -/
structure Formed : Prop where
  size : 8 ≤ c.entrySize ∧ c.entrySize < 2 ^ 64
  page : c.pageSize = 2 ^ c.pageShiftOp
  pages : c.entries = 4 * c.pageSize
  hashes : c.entries = c.maxHash + 1
  several : 16 ≤ c.pageSize
  bound : c.entries ≤ 2 ^ 30

end SharedCache

namespace SharedCache

variable {c : SharedCache}

theorem keyHash_eq (formed : c.Formed) (key : CText) :
    c.keyHash key = ciHashCompute c.maxHash key.bytes (wrap32 key.size) := by
  have low := ciHashCompute_le c.maxHash key.bytes (wrap32 key.size)
  have hashes := formed.hashes
  simp only [keyHash]
  rw [if_neg (by omega)]

end SharedCache

end IcapService
