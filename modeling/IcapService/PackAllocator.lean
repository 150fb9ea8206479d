import IcapService.Lib.CInt
import IcapService.Lib.Words

/-! The pack allocator of `mem.c`.

Blocks are taken from the front and from the rear of one piece of memory; addresses count from its start. The sizes
are those of a machine with pointers of 8 bytes. -/

namespace IcapService

open CString CInt

/-- `_CI_ALIGN`. -/
def ciAlign (n : Nat) : Nat := (n + 7) / 8 * 8

theorem ciAlign_spec (n : Nat) : n ≤ ciAlign n ∧ ciAlign n < n + 8 ∧ ciAlign n % 8 = 0 := by
  unfold ciAlign
  omega

/-- `_ALIGNED_OFFSET`; below 8 the subtraction wraps, and the result is 0 all the same. -/
def alignedOffset (off : Nat) : Nat := if off ≠ ciAlign off then ciAlign (off - 8) else off

theorem alignedOffset_spec (off : Nat) : alignedOffset off = off / 8 * 8 := by
  unfold alignedOffset ciAlign
  split <;> omega

/-- A `pack_allocator_t`. -/
structure PackAllocator where
  memchunk : Nat
  curpos : Nat
  endpos : Nat
  chunkEnd : Nat
  deriving DecidableEq

/-- `ci_pack_allocator_required_size`. -/
def packRequiredSize : Nat := 96

/-- `ci_create_pack_allocator_on_memblock`. -/
def createPackAllocator (size : Nat) : Option PackAllocator :=
  if size ≤ packRequiredSize then none
  else
    let chunkEnd := packRequiredSize + alignedOffset (size - packRequiredSize)
    some ⟨packRequiredSize, packRequiredSize, chunkEnd, chunkEnd⟩

namespace PackAllocator

/-- The room between the two ends, as an `int`. -/
def room (p : PackAllocator) : Int := wrap32 ((p.endpos : Int) - p.curpos)

/-- `ci_pack_allocator_alloc_unaligned`; a negative room is compared as a large `size_t`. -/
@[irreducible] def allocUnaligned (p : PackAllocator) (size : Nat) : Option (Nat × PackAllocator) :=
  if 0 ≤ p.room ∧ p.room < size then none else some (p.curpos, { p with curpos := p.curpos + size })

/-- The size of a block from the rear: an `int` that is aligned and kept as an `int`. -/
def rearSize (size : Nat) : Int := wrap32 ((wrap32 size + 7) / 8 * 8)

/-- `ci_pack_allocator_alloc_from_rear`. -/
@[irreducible] def allocFromRear (p : PackAllocator) (size : Nat) : Option (Nat × PackAllocator) :=
  if p.room < rearSize size then none
  else some (((p.endpos : Int) - rearSize size).toNat, { p with endpos := ((p.endpos : Int) - rearSize size).toNat })

/-- `ci_pack_allocator_set_start_pos`. -/
def setStartPos (p : PackAllocator) (pos : Nat) : Option PackAllocator :=
  if pos < p.memchunk then none else some { p with curpos := pos }

/-- `ci_pack_allocator_set_end_pos`; NULL gives all of the rear back. -/
def setEndPos (p : PackAllocator) (pos : Option Nat) : Option PackAllocator :=
  match pos with
  | none => some { p with endpos := p.chunkEnd }
  | some pos => if p.chunkEnd < pos then none else some { p with endpos := pos }

variable {p q : PackAllocator} {size pos : Nat}

theorem allocUnaligned_some (taken : p.allocUnaligned size = some (pos, q)) :
    pos = p.curpos ∧ q = { p with curpos := p.curpos + size } := by
  rw [allocUnaligned] at taken
  split at taken
  · cases taken
  · cases taken
    exact ⟨rfl, rfl⟩

/-- The two ends do not pass each other. -/
theorem allocUnaligned_room (taken : p.allocUnaligned size = some (pos, q)) (ordered : p.curpos ≤ p.endpos)
    (small : size < 2 ^ 31) : q.curpos ≤ q.endpos := by
  rw [allocUnaligned] at taken
  split at taken
  · cases taken
  · rename_i enough
    cases taken
    simp only [room, wrap32] at enough ⊢
    omega

theorem rearSize_small (small : size ≤ 2147483640) : rearSize size = ciAlign size := by
  rw [rearSize, wrap32_of_range size (by omega) (by omega), wrap32_of_range _ (by omega) (by omega), ciAlign]
  omega

/-- A block from the rear lies right in front of the last one. -/
theorem allocFromRear_some (taken : p.allocFromRear size = some (pos, q)) (ordered : p.curpos ≤ p.endpos)
    (small : size ≤ 2147483640) : pos + ciAlign size = p.endpos ∧ q = { p with endpos := pos } ∧ p.curpos ≤ pos := by
  delta allocFromRear at taken
  rw [rearSize_small small] at taken
  split at taken
  · cases taken
  · rename_i enough
    cases taken
    simp only [room, wrap32] at enough
    refine ⟨?_, rfl, ?_⟩ <;> omega

end PackAllocator

end IcapService
