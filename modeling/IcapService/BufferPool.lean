import Mathlib.Data.List.GetD
import IcapService.Lib.CInt
import IcapService.Lib.Memory
import IcapService.Lib.Transition

/-! The buffers of `mem.c`: blocks of ten sizes that are kept in pools, and larger ones.

A block is its header's `ID`, the size that was last requested, and the bytes from `data.ptr` on. The pools are those
that `ci_buffers_init` has created. `malloc` may fail, and otherwise gives bytes that hold anything. -/

namespace IcapService

open CInt CString Transition

/-! ### Size classes -/

/-- The sizes of the ten pools, without the header. -/
def poolSizes : List Nat := [64, 128, 256, 512, 1024, 2048, 4096, 8192, 16384, 32768]

/-- The pools of `short_buffers` and `long_buffers`. -/
def shortBuffers : List Nat := [0, 1, 2, 2, 3, 3, 3, 3, 4, 4, 4, 4, 4, 4, 4, 4]
def longBuffers : List Nat := [5, 6, 7, 7, 8, 8, 8, 8, 9, 9, 9, 9, 9, 9, 9, 9]

def shortBufferSizes : List Nat := [64, 128, 256, 256, 512, 512, 512, 512, 1024, 1024, 1024, 1024, 1024, 1024, 1024, 1024]
def longBufferSizes : List Nat :=
  [2048, 4096, 8192, 8192, 16384, 16384, 16384, 16384, 32768, 32768, 32768, 32768, 32768, 32768, 32768, 32768]

/-- The pool for a size, if it has one. Sizes below one lie in front of the tables. -/
def bufferPool (size : Int) : Option (Option Nat) :=
  let type := (size - 1) / 64
  if type < 0 then none
  else if type < 16 then some (some (shortBuffers.getD type.toNat 0))
  else if type < 512 then some (some (longBuffers.getD (type / 32).toNat 0))
  else some none

/-- `ci_buffer_blocksize` of a block with this `ID`. -/
def ciBufferBlocksize (id : Int) : Option Nat :=
  let type := (id - 1) / 64
  if type < 0 then none
  else if type < 16 then some (shortBufferSizes.getD type.toNat 0)
  else if type < 512 then some (longBufferSizes.getD (type / 32).toNat 0)
  else some id.toNat

/-! ### Blocks -/

structure BufferBlock where
  id : Int
  data : Bytes

/-- The block with what was requested of the old one at its front. -/
def BufferBlock.copyOf (new old : BufferBlock) : BufferBlock :=
  { new with data := poke new.data 0 (old.data.take old.id.toNat) }

/-- What `malloc` does for a pool, and for a block without one. -/
structure Malloc where
  pool : Bool
  direct : Bool
  fresh : Nat → UInt8

def Malloc.bytes (e : Malloc) (size : Nat) : Bytes := (List.range size).map e.fresh

/-- The blocks that are in use, the free blocks of each pool, and how many of its blocks a pool believes to be in use;
`moved` is the block in front of and behind the last call, when that was a `ci_buffer_realloc`. -/
structure BufferPools where
  live : List BufferBlock
  free : Nat → List Bytes
  allocated : Nat → Nat
  moved : Option (BufferBlock × BufferBlock)

namespace BufferPools

variable (s : BufferPools)

/-- `ci_buffers_init` -/
def init : BufferPools := ⟨[], fun _ => [], fun _ => 0, none⟩

def poolSize (k : Nat) : Nat := poolSizes.getD k 0

/-- `pool_allocator_alloc` -/
def poolAlloc (k : Nat) (size : Int) (e : Malloc) : Option Bytes × BufferPools :=
  if poolSize k < size then (none, s)
  else
    match s.free k with
    | data :: others =>
        (some data, { s with
          free := Function.update s.free k others, allocated := Function.update s.allocated k (s.allocated k + 1) })
    | [] =>
        (if e.pool then some (e.bytes (poolSize k)) else none,
          { s with allocated := Function.update s.allocated k (s.allocated k + 1) })

/-- `pool_allocator_free` -/
def poolFree (k : Nat) (data : Bytes) : BufferPools :=
  if s.allocated k = 0 then s
  else { s with
    free := Function.update s.free k (data :: s.free k)
    allocated := Function.update s.allocated k (s.allocated k - 1) }

/-- `malloc` of a block without a pool; a size that overflows with its header fails. -/
def direct (size : Int) (e : Malloc) : Option Bytes :=
  if e.direct ∧ size + 8 ≤ intMax then some (e.bytes size.toNat) else none

/-- `ci_buffer_alloc`: the block, if there is one. -/
def ciBufferAlloc (size : Int) (e : Malloc) : Option (Option BufferBlock × BufferPools) :=
  (bufferPool size).map fun place =>
    let got := match place with
      | some k => s.poolAlloc k size e
      | none => (none, s)
    ((got.1.or (direct size e)).map fun data => ⟨size, data⟩, got.2)

/-- `ci_buffer_free` -/
def ciBufferFree (b : BufferBlock) : Option BufferPools :=
  (bufferPool b.id).map fun place =>
    match place with
    | some k => s.poolFree k b.data
    | none => s

/-- `ci_buffer_realloc` of the block at `i`. -/
def ciBufferRealloc (i : Nat) (b : BufferBlock) (size : Int) (e : Malloc) : Option BufferPools :=
  (ciBufferBlocksize b.id).bind fun bufferSize =>
    if bufferSize < size then
      (s.ciBufferAlloc size e).bind fun out =>
        match out.1 with
        | none => some { out.2 with moved := none }
        | some new =>
            (out.2.ciBufferFree b).map fun t =>
              { t with live := t.live.set i (new.copyOf b), moved := some (b, new.copyOf b) }
    else some { s with live := s.live.set i { b with id := size }, moved := some (b, { b with id := size }) }

end BufferPools

/-- Calls on the blocks in use, and what their owners write to them. -/
inductive BufferOp where
  | alloc (size : Int) (e : Malloc)
  | realloc (i : Nat) (size : Int) (e : Malloc)
  | free (i : Nat)
  | write (i : Nat) (data : Bytes)

namespace BufferPools

variable (s : BufferPools)

/-- A call; nothing happens without a block. -/
def step : BufferOp → Option BufferPools
  | .alloc size e => (s.ciBufferAlloc size e).map fun out => { out.2 with live := out.2.live ++ out.1.toList, moved := none }
  | .realloc i size e =>
      match s.live[i]? with
      | none => some s
      | some b => s.ciBufferRealloc i b size e
  | .free i =>
      match s.live[i]? with
      | none => some s
      | some b => (s.ciBufferFree b).map fun t => { t with live := t.live.eraseIdx i, moved := none }
  | .write i data =>
      match s.live[i]? with
      | none => some s
      | some b => some { s with live := s.live.set i { b with data := poke b.data 0 (data.take b.data.length) }, moved := none }

end BufferPools

/-! ### What the classes promise -/

theorem short_table : ∀ t < 16, shortBufferSizes.getD t 0 = BufferPools.poolSize (shortBuffers.getD t 0) ∧
    64 * (t + 1) ≤ shortBufferSizes.getD t 0 ∧
    ∀ u < 16, 64 * u < shortBufferSizes.getD t 0 → shortBufferSizes.getD u 0 ≤ shortBufferSizes.getD t 0 := by
  decide

theorem long_table : ∀ t < 16, longBufferSizes.getD t 0 = BufferPools.poolSize (longBuffers.getD t 0) ∧
    2048 * (t + 1) ≤ longBufferSizes.getD t 0 ∧ longBufferSizes.getD t 0 ≤ 32768 ∧
    ∀ u < 16, 2048 * u < longBufferSizes.getD t 0 → longBufferSizes.getD u 0 ≤ longBufferSizes.getD t 0 := by
  decide

theorem short_le : ∀ t < 16, shortBufferSizes.getD t 0 ≤ 1024 := by decide

/-- The class of a size: the row of the table it is in, or none. -/
inductive SizeClass (size : Int) : Prop where
  | short (t : Nat) (row : t < 16) (type : (size - 1) / 64 = t)
  | long (t u : Nat) (row : u < 16) (type : (size - 1) / 64 = t) (above : 16 ≤ t) (shifted : t / 32 = u)
  | none (type : 512 ≤ (size - 1) / 64)

variable {size id : Int} {n : Nat}

theorem SizeClass.of_pos (positive : 1 ≤ size) : SizeClass size := by
  obtain ⟨t, type⟩ := Int.eq_ofNat_of_zero_le (show 0 ≤ (size - 1) / 64 by omega)
  by_cases short : t < 16
  · exact .short t short type
  · by_cases long : t < 512
    · exact .long t (t / 32) (by omega) type (by omega) rfl
    · exact .none (by omega)

theorem bufferPool_short {t : Nat} (row : t < 16) (type : (size - 1) / 64 = t) :
    bufferPool size = some (some (shortBuffers.getD t 0)) ∧
      ciBufferBlocksize size = some (shortBufferSizes.getD t 0) := by
  simp only [bufferPool, ciBufferBlocksize, type]
  rw [if_neg (by omega), if_pos (by omega), if_neg (by omega), if_pos (by omega)]
  exact ⟨rfl, rfl⟩

theorem bufferPool_long {t : Nat} (row : t / 32 < 16) (type : (size - 1) / 64 = t) (above : 16 ≤ t) :
    bufferPool size = some (some (longBuffers.getD (t / 32) 0)) ∧
      ciBufferBlocksize size = some (longBufferSizes.getD (t / 32) 0) := by
  simp only [bufferPool, ciBufferBlocksize, type]
  rw [if_neg (by omega), if_neg (by omega), if_pos (by omega), if_neg (by omega), if_neg (by omega), if_pos (by omega)]
  exact ⟨rfl, rfl⟩

theorem bufferPool_none (type : 512 ≤ (size - 1) / 64) :
    bufferPool size = some none ∧ ciBufferBlocksize size = some size.toNat := by
  simp only [bufferPool, ciBufferBlocksize]
  rw [if_neg (by omega), if_neg (by omega), if_neg (by omega), if_neg (by omega), if_neg (by omega), if_neg (by omega)]
  exact ⟨rfl, rfl⟩

/-- A size fits the blocks of its pool, and these are what is reported. -/
theorem bufferPool_spec (positive : 1 ≤ size) :
    (∃ k, bufferPool size = some (some k) ∧ ciBufferBlocksize size = some (BufferPools.poolSize k) ∧
      size ≤ BufferPools.poolSize k) ∨
    (bufferPool size = some none ∧ ciBufferBlocksize size = some size.toNat) := by
  cases SizeClass.of_pos positive with
  | short t row type =>
      obtain ⟨same, fits, -⟩ := short_table t row
      obtain ⟨pool, reported⟩ := bufferPool_short row type
      rw [same] at reported fits
      exact .inl ⟨_, pool, reported, by omega⟩
  | long t u row type above shifted =>
      subst shifted
      obtain ⟨same, fits, -⟩ := long_table (t / 32) row
      obtain ⟨pool, reported⟩ := bufferPool_long row type above
      rw [same] at reported fits
      exact .inl ⟨_, pool, reported, by omega⟩
  | none type => exact .inr (bufferPool_none type)

theorem pos_of_blocksize (reported : ciBufferBlocksize id = some n) : 1 ≤ id := by
  by_contra small
  rw [ciBufferBlocksize, if_pos (by omega)] at reported
  cases reported

theorem le_blocksize (reported : ciBufferBlocksize id = some n) : id ≤ n := by
  rcases bufferPool_spec (pos_of_blocksize reported) with ⟨k, -, same, room⟩ | ⟨-, same⟩
  · cases reported.symm.trans same
    exact room
  · cases reported.symm.trans same
    omega

/-- A size that fits what is reported belongs to no larger class. -/
theorem blocksize_le (positive : 1 ≤ size) (reported : ciBufferBlocksize id = some n) (fits : size ≤ n) :
    ∃ m, ciBufferBlocksize size = some m ∧ m ≤ n := by
  cases SizeClass.of_pos (pos_of_blocksize reported) with
  | short t row type =>
      obtain ⟨-, reported'⟩ := bufferPool_short row type
      obtain ⟨-, -, least⟩ := short_table t row
      cases reported.symm.trans reported'
      have bound := short_le t row
      cases SizeClass.of_pos positive with
      | short u row' type' => exact ⟨_, (bufferPool_short row' type').2, least u row' (by omega)⟩
      | long => omega
      | none => omega
  | long t u row type above shifted =>
      subst shifted
      obtain ⟨-, reported'⟩ := bufferPool_long row type above
      obtain ⟨-, low, bound, least⟩ := long_table (t / 32) row
      cases reported.symm.trans reported'
      cases SizeClass.of_pos positive with
      | short u row' type' =>
          have small := short_le u row'
          exact ⟨_, (bufferPool_short row' type').2, by omega⟩
      | long v w row' type' above' shifted' =>
          subst shifted'
          exact ⟨_, (bufferPool_long row' type' above').2, least _ row' (by omega)⟩
      | none => omega
  | none type =>
      cases reported.symm.trans (bufferPool_none type).2
      cases SizeClass.of_pos positive with
      | short u row' type' =>
          have small := short_le u row'
          exact ⟨_, (bufferPool_short row' type').2, by omega⟩
      | long v w row' type' above' shifted' =>
          subst shifted'
          obtain ⟨-, -, small, -⟩ := long_table (v / 32) row'
          exact ⟨_, (bufferPool_long row' type' above').2, by omega⟩
      | none type' => exact ⟨_, (bufferPool_none type').2, by omega⟩

/-! ### Soundness -/

/-- The block has room for what was requested and for what `ci_buffer_blocksize` reports. -/
def BufferBlock.Fits (b : BufferBlock) : Prop :=
  b.id ≤ b.data.length ∧ ∃ n, ciBufferBlocksize b.id = some n ∧ n ≤ b.data.length

theorem fits_of_reported {data : Bytes} (reported : ciBufferBlocksize size = some n) (room : size ≤ n)
    (long : n ≤ data.length) : BufferBlock.Fits ⟨size, data⟩ :=
  ⟨show size ≤ (data.length : Int) by omega, n, reported, long⟩

/-- Only the sizes matter. -/
theorem BufferBlock.Fits.congr {b c : BufferBlock} (fits : b.Fits) (id : c.id = b.id)
    (length : c.data.length = b.data.length) : c.Fits := by
  rw [BufferBlock.Fits, id, length]
  exact fits

namespace BufferPools

/-- The free blocks of every pool have its size. -/
def FreeFit (free : Nat → List Bytes) : Prop := ∀ k, ∀ data ∈ free k, poolSize k ≤ data.length

structure Sound (s : BufferPools) : Prop where
  live : ∀ b ∈ s.live, b.Fits
  free : FreeFit s.free
  moved : ∀ b c, s.moved = some (b, c) → c.data.take (min b.id c.id).toNat = b.data.take (min b.id c.id).toNat

/-- The pool is empty and `malloc` fails for it, but not for the size that is requested, which is smaller. -/
def ShortFallback (s : BufferPools) (size : Int) (e : Malloc) : Prop :=
  ∃ k, bufferPool size = some (some k) ∧ size < poolSize k ∧ s.free k = [] ∧ e.pool = false ∧ e.direct = true

/-- A size below one, or a block that is smaller than its class. -/
def Bad (s : BufferPools) : BufferOp → Prop
  | .alloc size e => size < 1 ∨ s.ShortFallback size e
  | .realloc i size e => ∃ b, s.live[i]? = some b ∧
      (size < 1 ∨ (∃ n, ciBufferBlocksize b.id = some n ∧ n < size) ∧ s.ShortFallback size e)
  | .free _ => False
  | .write _ _ => False

variable {s : BufferPools} {k : Nat} {e : Malloc}

theorem FreeFit.update {free : Nat → List Bytes} (fit : FreeFit free) {l : List Bytes}
    (fits : ∀ data ∈ l, poolSize k ≤ data.length) : FreeFit (Function.update free k l) := by
  intro j data member
  by_cases here : j = k
  · subst here
    rw [Function.update_self] at member
    exact fits data member
  · rw [Function.update_of_ne here] at member
    exact fit j data member

/-- A pool gives a block of its size, unless it is empty and `malloc` fails. -/
theorem poolAlloc_spec (fit : FreeFit s.free) (room : size ≤ poolSize k) :
    (s.poolAlloc k size e).2.live = s.live ∧ FreeFit (s.poolAlloc k size e).2.free ∧
      ((∃ data, (s.poolAlloc k size e).1 = some data ∧ poolSize k ≤ data.length ∧ ¬(s.free k = [] ∧ e.pool = false)) ∨
        ((s.poolAlloc k size e).1 = none ∧ s.free k = [] ∧ e.pool = false)) := by
  rw [poolAlloc, if_neg (Int.not_lt.mpr room)]
  cases free : s.free k with
  | nil =>
      refine ⟨rfl, fit, ?_⟩
      cases pool : e.pool with
      | false => exact .inr ⟨rfl, rfl, rfl⟩
      | true =>
          refine .inl ⟨_, rfl, ?_, fun both => absurd both.2 (by decide)⟩
          rw [Malloc.bytes, List.length_map, List.length_range]
  | cons data others =>
      refine ⟨rfl, fit.update (fun d member => fit k d ?_), .inl ⟨data, rfl, fit k data ?_, fun both => by cases both.1⟩⟩
      · rw [free]
        exact List.mem_cons_of_mem _ member
      · rw [free]
        exact List.mem_cons_self

theorem poolSize_le (k : Nat) : poolSize k ≤ 32768 := by
  by_cases inside : k < 10
  · exact (by decide : ∀ k < 10, poolSize k ≤ 32768) k inside
  · rw [poolSize, List.getD_eq_default _ _ (Nat.le_of_not_lt inside)]
    exact Nat.zero_le _

theorem direct_spec {size : Int} (room : size + 8 ≤ intMax) (direct : e.direct = true) :
    BufferPools.direct size e = some (e.bytes size.toNat) := if_pos ⟨direct, room⟩

theorem direct_length {data : Bytes} (got : BufferPools.direct size e = some data) : data.length = size.toNat := by
  rw [BufferPools.direct] at got
  split at got
  · cases got
    rw [Malloc.bytes, List.length_map, List.length_range]
  · cases got

/-- A new block fits, unless it is a short one. -/
theorem ciBufferAlloc_spec (fit : FreeFit s.free) (positive : 1 ≤ size) :
    ∃ got t, s.ciBufferAlloc size e = some (got, t) ∧ t.live = s.live ∧ FreeFit t.free ∧
      (∀ b, got = some b → b.id = size ∧ size ≤ b.data.length) ∧ (¬s.ShortFallback size e → ∀ b, got = some b → b.Fits) ∧
      (s.ShortFallback size e → ∃ b, got = some b ∧ ¬b.Fits) := by
  rcases bufferPool_spec positive with ⟨k, pool, reported, room⟩ | ⟨pool, reported⟩
  · obtain ⟨live, free, way⟩ := poolAlloc_spec (e := e) fit room
    refine ⟨_, _, by rw [ciBufferAlloc, pool]; rfl, live, free, ?_, ?_, ?_⟩
    · intro b got
      obtain ⟨data, taken, rfl⟩ := Option.map_eq_some_iff.mp got
      refine ⟨rfl, ?_⟩
      rcases way with ⟨d, result, long, -⟩ | ⟨none, -⟩
      · rw [result] at taken
        cases taken
        exact Int.le_trans room (Int.ofNat_le.mpr long)
      · rw [none, Option.none_or] at taken
        have long := direct_length taken
        exact Int.le_of_eq (show size = (data.length : Int) by omega)
    · intro fine b got
      obtain ⟨data, taken, rfl⟩ := Option.map_eq_some_iff.mp got
      rcases way with ⟨d, result, long, -⟩ | ⟨none, empty, fails⟩
      · rw [result] at taken
        cases taken
        exact fits_of_reported reported room long
      · rw [none, Option.none_or] at taken
        have long := direct_length taken
        have full : ¬size < poolSize k := by
          intro short
          refine fine ⟨k, pool, short, empty, fails, ?_⟩
          rw [BufferPools.direct] at taken
          split at taken
          · rename_i both
            exact both.1
          · cases taken
        exact fits_of_reported reported room (by omega)
    · rintro ⟨j, pool', short, empty, fails, direct⟩
      cases pool.symm.trans pool'
      have small : size + 8 ≤ intMax := by
        have bound := poolSize_le k
        rw [intMax]
        omega
      rcases way with ⟨d, result, long, other⟩ | ⟨none, -, -⟩
      · exact absurd ⟨empty, fails⟩ other
      · refine ⟨⟨size, e.bytes size.toNat⟩, ?_, ?_⟩
        · rw [none, Option.none_or, direct_spec small direct]
          rfl
        · rintro ⟨-, n, reported', long⟩
          cases reported.symm.trans reported'
          rw [Malloc.bytes, List.length_map, List.length_range] at long
          omega
  · refine ⟨_, _, by rw [ciBufferAlloc, pool]; rfl, rfl, fit, ?_, ?_, ?_⟩
    · intro b got
      obtain ⟨data, taken, rfl⟩ := Option.map_eq_some_iff.mp got
      rw [Option.none_or] at taken
      have long := direct_length taken
      exact ⟨rfl, Int.le_of_eq (show size = (data.length : Int) by omega)⟩
    · intro _ b got
      obtain ⟨data, taken, rfl⟩ := Option.map_eq_some_iff.mp got
      rw [Option.none_or] at taken
      exact fits_of_reported reported (by omega) (Nat.le_of_eq (direct_length taken).symm)
    · rintro ⟨j, pool', -⟩
      cases pool.symm.trans pool'

/-- A block that fits goes back to a pool of its own class or a smaller one. -/
theorem ciBufferFree_spec (fit : FreeFit s.free) {b : BufferBlock} (fits : b.Fits) :
    ∃ t, s.ciBufferFree b = some t ∧ t.live = s.live ∧ FreeFit t.free := by
  obtain ⟨-, n, reported, long⟩ := fits
  rcases bufferPool_spec (pos_of_blocksize reported) with ⟨k, pool, reported', -⟩ | ⟨pool, -⟩
  · cases reported.symm.trans reported'
    refine ⟨s.poolFree k b.data, by rw [ciBufferFree, pool]; rfl, ?_⟩
    rw [poolFree]
    split
    · exact ⟨rfl, fit⟩
    · refine ⟨rfl, fit.update (fun data member => ?_)⟩
      rcases List.mem_cons.mp member with rfl | old
      · exact long
      · exact fit k data old
  · exact ⟨s, by rw [ciBufferFree, pool]; rfl, rfl, fit⟩

theorem Sound.set {b : BufferBlock} (sound : Sound s) (fits : b.Fits) (i : Nat) : ∀ c ∈ s.live.set i b, c.Fits := by
  intro c member
  rcases List.mem_or_eq_of_mem_set member with old | rfl
  · exact sound.live c old
  · exact fits

/-- What is requested in place has the room that is reported. -/
theorem Sound.shrink {b : BufferBlock} {i : Nat} (sound : Sound s) (found : s.live[i]? = some b)
    (positive : 1 ≤ size) (reported : ciBufferBlocksize b.id = some n) (fits : size ≤ n) :
    Sound { s with live := s.live.set i { b with id := size }, moved := some (b, { b with id := size }) } := by
  obtain ⟨-, n', reported', long⟩ := sound.live b (List.mem_of_getElem? found)
  cases reported.symm.trans reported'
  obtain ⟨m, same, below⟩ := blocksize_le positive reported fits
  have here : BufferBlock.Fits { b with id := size } := ⟨show size ≤ (b.data.length : Int) by omega, m, same, by
    show m ≤ b.data.length
    omega⟩
  refine ⟨sound.set here i, sound.free, ?_⟩
  rintro c d ⟨⟩
  rfl

/-- The bytes of the old block stand at the front of the new one. -/
theorem copyOf_front (new : BufferBlock) {old : BufferBlock} (room : old.id ≤ old.data.length) :
    (new.copyOf old).data.take (min old.id new.id).toNat = old.data.take (min old.id new.id).toNat := by
  have low : (min old.id new.id).toNat ≤ old.id.toNat := by omega
  rw [BufferBlock.copyOf, poke, List.take_zero, List.nil_append,
    List.take_append_of_le_length (by rw [List.length_take]; omega), List.take_take, Nat.min_eq_left low]

theorem copyOf_length {old new : BufferBlock} (room : old.id ≤ new.data.length) :
    (new.copyOf old).data.length = new.data.length := by
  show (poke new.data 0 (old.data.take old.id.toNat)).length = _
  rw [poke_length (Nat.zero_le _), List.length_take]
  omega

theorem Sound.grow {b : BufferBlock} {i : Nat} (sound : Sound s) (found : s.live[i]? = some b)
    (reported : ciBufferBlocksize b.id = some n) (grows : (n : Int) < size) :
    ∃ t, s.ciBufferRealloc i b size e = some t ∧ (¬s.ShortFallback size e → Sound t) ∧
      (s.ShortFallback size e → ¬Sound t) := by
  have fits := sound.live b (List.mem_of_getElem? found)
  have positive := pos_of_blocksize reported
  obtain ⟨got, t, taken, live, free, sized, fine, short⟩ := ciBufferAlloc_spec (e := e) sound.free (show 1 ≤ size by omega)
  rw [ciBufferRealloc, reported, Option.bind_some, if_pos grows, taken, Option.bind_some]
  cases got with
  | none =>
      refine ⟨_, rfl, fun _ => ⟨fun c member => sound.live c (live ▸ member), free, fun _ _ none => by cases none⟩, ?_⟩
      intro fallback
      obtain ⟨_, none, -⟩ := short fallback
      cases none
  | some new =>
      obtain ⟨u, freed, live', free'⟩ := ciBufferFree_spec free fits
      obtain ⟨id, room⟩ := sized new rfl
      have small := le_blocksize reported
      have length : (new.copyOf b).data.length = new.data.length := copyOf_length (by omega)
      have place : i < u.live.length := by
        rw [live', live]
        exact (List.getElem?_eq_some_iff.mp found).1
      refine ⟨{ u with live := u.live.set i (new.copyOf b), moved := some (b, new.copyOf b) },
        by dsimp only; rw [freed]; rfl, fun well => ⟨?_, free', ?_⟩, fun fallback sound' => ?_⟩
      · intro c member
        rcases List.mem_or_eq_of_mem_set member with old | rfl
        · exact sound.live c (live ▸ live' ▸ old)
        · exact (fine well new rfl).congr rfl length
      · rintro c d ⟨⟩
        exact copyOf_front new fits.1
      · obtain ⟨_, same, short⟩ := short fallback
        cases same
        have here : (new.copyOf b).Fits := sound'.live _ (List.mem_set place _)
        exact short (here.congr rfl length.symm)

/-- A call that is not bad keeps the buffers sound. -/
theorem Sound.step (sound : Sound s) (op : BufferOp) (fine : ¬s.Bad op) : ∃ t, s.step op = some t ∧ Sound t := by
  cases op with
  | alloc size e =>
      rw [Bad, not_or, Int.not_lt] at fine
      obtain ⟨got, t, taken, live, free, -, well, -⟩ := ciBufferAlloc_spec (e := e) sound.free fine.1
      refine ⟨{ t with live := t.live ++ got.toList, moved := none }, by rw [BufferPools.step, taken]; rfl, ?_, free,
        fun _ _ none => by cases none⟩
      intro b member
      rcases List.mem_append.mp member with old | new
      · exact sound.live b (live ▸ old)
      · exact well fine.2 b (Option.mem_toList.mp new)
  | realloc i size e =>
      rw [BufferPools.step]
      cases found : s.live[i]? with
      | none => exact ⟨s, rfl, sound⟩
      | some b =>
          obtain ⟨-, n, reported, -⟩ := sound.live b (List.mem_of_getElem? found)
          have positive : 1 ≤ size := by
            by_contra small
            exact fine ⟨b, found, .inl (by omega)⟩
          by_cases grows : (n : Int) < size
          · obtain ⟨t, result, keeps, -⟩ := sound.grow (e := e) found reported grows
            exact ⟨t, result, keeps fun short => fine ⟨b, found, .inr ⟨⟨n, reported, grows⟩, short⟩⟩⟩
          · refine ⟨_, ?_, sound.shrink found positive reported (Int.not_lt.mp grows)⟩
            show s.ciBufferRealloc i b size e = _
            rw [ciBufferRealloc, reported, Option.bind_some, if_neg grows]
  | free i =>
      rw [BufferPools.step]
      cases found : s.live[i]? with
      | none => exact ⟨s, rfl, sound⟩
      | some b =>
          obtain ⟨t, freed, live, free⟩ := ciBufferFree_spec sound.free (sound.live b (List.mem_of_getElem? found))
          exact ⟨{ t with live := t.live.eraseIdx i, moved := none }, by dsimp only; rw [freed]; rfl,
            fun c member => sound.live c (live ▸ List.mem_of_mem_eraseIdx member), free, fun _ _ none => by cases none⟩
  | write i data =>
      rw [BufferPools.step]
      cases found : s.live[i]? with
      | none => exact ⟨s, rfl, sound⟩
      | some b =>
          have fits := sound.live b (List.mem_of_getElem? found)
          have length : (poke b.data 0 (data.take b.data.length)).length = b.data.length := by
            rw [poke_length (Nat.zero_le _), List.length_take]
            omega
          have written : BufferBlock.Fits { b with data := poke b.data 0 (data.take b.data.length) } :=
            fits.congr rfl length
          exact ⟨_, rfl, sound.set written i, sound.free, fun _ _ none => by cases none⟩

/-- Behind a bad call they are not. -/
theorem Sound.breaks (sound : Sound s) (op : BufferOp) (bad : s.Bad op) {t : BufferPools} (pass : s.step op = some t) :
    ¬Sound t := by
  cases op with
  | alloc size e =>
      rcases bad with small | short
      · rw [BufferPools.step, ciBufferAlloc, bufferPool, if_pos (by omega)] at pass
        cases pass
      · have positive : 1 ≤ size := by
          obtain ⟨k, pool, -⟩ := short
          by_contra small
          rw [bufferPool, if_pos (by omega)] at pool
          cases pool
        obtain ⟨got, u, taken, live, -, -, -, breaks⟩ := ciBufferAlloc_spec (e := e) sound.free positive
        obtain ⟨b, rfl, misfit⟩ := breaks short
        rw [BufferPools.step, taken] at pass
        cases pass
        exact fun sound' => misfit (sound'.live b (List.mem_append_right _ (Option.mem_toList.mpr rfl)))
  | realloc i size e =>
      obtain ⟨b, found, small | ⟨⟨n, reported, grows⟩, short⟩⟩ := bad
      · obtain ⟨-, n, reported, -⟩ := sound.live b (List.mem_of_getElem? found)
        have result : s.ciBufferRealloc i b size e = some t := by rwa [BufferPools.step, found] at pass
        rw [ciBufferRealloc, reported, Option.bind_some, if_neg (by omega)] at result
        cases result
        intro sound'
        obtain ⟨-, m, reported', -⟩ :=
          sound'.live { b with id := size } (List.mem_set (List.getElem?_eq_some_iff.mp found).1 _)
        exact absurd (pos_of_blocksize reported') (by dsimp only; omega)
      · obtain ⟨u, result, -, breaks⟩ := sound.grow (e := e) found reported grows
        have same : s.ciBufferRealloc i b size e = some t := by rwa [BufferPools.step, found] at pass
        cases result.symm.trans same
        exact breaks short
  | free => exact absurd bad id
  | write => exact absurd bad id

theorem init_sound : Sound init :=
  ⟨fun _ member => absurd member List.not_mem_nil, fun _ _ member => absurd member List.not_mem_nil,
    fun _ _ none => by cases none⟩

end BufferPools

/-- The buffers are sound behind every call of a run, until a size below one is requested or `malloc` fails for an
empty pool but not for the smaller size, and not behind that call. -/
theorem buffers_sound_iff (ops : List BufferOp) :
    (∀ done, done <+: ops → ∃ s, done.foldlM BufferPools.step BufferPools.init = some s ∧ s.Sound) ↔
      ∀ done op s, done ++ [op] <+: ops → done.foldlM BufferPools.step BufferPools.init = some s → ¬s.Bad op :=
  holds_iff_no_bad (fun _ sound => sound) (fun _ op sound fine => sound.step op fine)
    (fun _ op _ sound bad pass => sound.breaks op bad pass) BufferPools.init_sound ops

/-- A hundred bytes for which there is no block of 128: `ci_buffer_blocksize` reports 128 all the same. -/
theorem short_block_reported_larger :
    ∃ s, ([.alloc 100 ⟨false, true, fun _ => 0⟩] : List BufferOp).foldlM BufferPools.step BufferPools.init = some s ∧
      (s.live.map fun b => (b.data.length, ciBufferBlocksize b.id)) = [(100, some 128)] ∧ ¬s.Sound := by
  refine ⟨_, rfl, by decide, fun sound => ?_⟩
  obtain ⟨-, n, reported, long⟩ := sound.live ⟨100, List.replicate 100 0⟩ List.mem_cons_self
  cases reported
  exact absurd long (by decide)

end IcapService
