import IcapService.BufferPool
import IcapService.Lib.Machine

/-! The serial allocator of `mem.c`.

It takes blocks from the front of a chain of chunks, each of them a buffer with a header of its own. The buffers have
what `ci_buffer_blocksize` reports; a call that goes on from NULL, or reads in front of a table, has no result. The
sizes are those of a machine with pointers of 8 bytes. -/

namespace IcapService

open CInt CString Machine Transition

/-- `_CI_ALIGN` of a `size_t`. -/
def alignSize (size : Nat) : Nat := (size + 7) % 18446744073709551616 / 8 * 8

/-- The conversion of an `int` to `size_t`. -/
def toSize (v : Int) : Nat := (v % 18446744073709551616).toNat

/-- `sizeof(serial_allocator_t)` and `sizeof(ci_mem_allocator_t)`. -/
def serialHeader : Nat := 32
def allocatorHeader : Nat := 56

/-- A `serial_allocator_t`: where `endpos` and `curpos` lie behind `memchunk`. -/
structure SerialChunk where
  size : Nat
  curpos : Nat
  deriving DecidableEq

inductive SerialBuild where
  | null
  | crash
  | chunk (c : SerialChunk)
  deriving DecidableEq

def SerialBuild.toOption : SerialBuild → Option SerialChunk
  | .chunk c => some c
  | _ => none

/-- `serial_allocator_build`, with memory for its buffer or without. -/
def serialAllocatorBuild (size : Int) (memory : Bool) : SerialBuild :=
  let size := wrap32 (alignSize (toSize size))
  if toSize size < serialHeader + allocatorHeader then .null
  else if memory = false ∨ intMax < size + 8 then .crash
  else
    match ciBufferBlocksize size with
    | none => .crash
    | some n => .chunk ⟨n - serialHeader, 0⟩

/-- The chain of the chunks, the one the loop stands at, and how many it has added. -/
structure SerialWalk where
  chunks : List SerialChunk
  i : Nat
  added : Nat

/-- The block that is returned, by its chunk and its place in it. -/
structure SerialOut where
  block : Option (Nat × Nat)
  chunks : List SerialChunk
  added : Nat
  deriving DecidableEq

/-- A pass of the loop of `serial_allocation`. -/
def serialPass (size maxSize : Nat) (memory : Nat → Bool) (w : SerialWalk) : Step SerialWalk (Option SerialOut) :=
  match w.chunks[w.i]? with
  | none => .done none
  | some c =>
      if c.size - c.curpos < size then
        if w.i + 1 < w.chunks.length then .next { w with i := w.i + 1 }
        else
          match serialAllocatorBuild maxSize (memory w.added) with
          | .null => .done (some ⟨none, w.chunks, w.added⟩)
          | .crash => .done none
          | .chunk d => .next ⟨w.chunks ++ [d], w.i + 1, w.added + 1⟩
      else .done (some ⟨some (w.i, c.curpos), w.chunks.set w.i { c with curpos := c.curpos + size }, w.added⟩)

/-- `serial_allocation`, with at most `fuel` passes of its loop. -/
def serialAllocation (chunks : List SerialChunk) (size : Nat) (memory : Nat → Bool) (fuel : Nat) :
    Option (Option SerialOut) :=
  match chunks with
  | [] => some none
  | first :: _ =>
      if first.size < alignSize size then some (some ⟨none, chunks, 0⟩)
      else run (serialPass (alignSize size) first.size memory) fuel ⟨chunks, 0, 0⟩

/-! ### Runs -/

/-- A block that was returned, with the size that was requested. -/
structure SerialBlock where
  chunk : Nat
  pos : Nat
  size : Nat
  deriving DecidableEq

/-- They have no byte in common. -/
def SerialBlock.Apart (b c : SerialBlock) : Prop :=
  b.chunk ≠ c.chunk ∨ b.pos + b.size ≤ c.pos ∨ c.pos + c.size ≤ b.pos

/-- The chunks, the blocks returned since the last reset, and whether the last size that passed the test of `max_size`
was satisfied with at most one new chunk. -/
structure SerialAllocator where
  chunks : List SerialChunk
  blocks : List SerialBlock
  prompt : Bool

inductive SerialOp where
  /-- Which of the chunks that are added find memory. -/
  | alloc (size : UInt64) (memory : Nat → Bool)
  | reset

namespace SerialAllocator

variable (s : SerialAllocator)

def maxSize : Nat := (s.chunks.head?.map SerialChunk.size).getD 0

/-- `serial_allocator_alloc`. The loop passes each chunk and one new one, and ends there or not at all. -/
def alloc (size : Nat) (memory : Nat → Bool) : Option SerialAllocator :=
  (serialAllocation s.chunks size memory (s.chunks.length + 2)).join.map fun out =>
    { chunks := out.chunks
      blocks := match out.block with
        | some (i, pos) => s.blocks ++ [⟨i, pos, size⟩]
        | none => s.blocks
      prompt := decide (s.maxSize < alignSize size) || out.block.isSome && decide (out.added ≤ 1) }

/-- `serial_allocator_reset`: the allocator's own structure stays. -/
def reset : Option SerialAllocator :=
  match s.chunks with
  | [] => none
  | first :: _ => some ⟨[{ first with curpos := alignSize allocatorHeader }], [⟨0, 0, allocatorHeader⟩], true⟩

def step : SerialOp → Option SerialAllocator
  | .alloc size memory => s.alloc size.toNat memory
  | .reset => s.reset

/-- `ci_create_serial_allocator`: the allocator's own structure is the first block. It goes on from NULL too, then
without a result. -/
def create (size : Int) (memory : Bool) : Option SerialAllocator :=
  (serialAllocatorBuild size memory).toOption.bind fun c => alloc ⟨[c], [], true⟩ allocatorHeader fun _ => true

/-- Every block lies in its chunk and apart from the others, and the last size was satisfied if it could be. -/
structure Sound : Prop where
  inside : ∀ b ∈ s.blocks, ∃ c, s.chunks[b.chunk]? = some c ∧ b.pos + b.size ≤ c.size
  apart : s.blocks.Pairwise SerialBlock.Apart
  prompt : s.prompt = true

end SerialAllocator

/-! ### One call -/

/-- A chunk has room for so many bytes. -/
def HasRoom (chunks : List SerialChunk) (size : Nat) : Prop := ∃ c ∈ chunks, size ≤ c.size - c.curpos

/-- The block is taken from a chunk of the chain. -/
structure Taken (chunks : List SerialChunk) (size : Nat) (out : SerialOut) : Prop where
  block : ∃ i c, chunks[i]? = some c ∧ size ≤ c.size - c.curpos ∧ out.block = some (i, c.curpos) ∧
    out.chunks = chunks.set i { c with curpos := c.curpos + size }

variable {chunks : List SerialChunk} {size maxSize next : Nat} {memory : Nat → Bool} {w : SerialWalk}

/-- The size of a buffer for a chunk. -/
def serialSize (v : Int) : Int := wrap32 (alignSize (toSize v))

theorem serialAllocatorBuild_eq (v : Int) (memory : Bool) :
    serialAllocatorBuild v memory =
      if toSize (serialSize v) < serialHeader + allocatorHeader then .null
      else if memory = false ∨ intMax < serialSize v + 8 then .crash
      else
        match ciBufferBlocksize (serialSize v) with
        | none => .crash
        | some n => .chunk ⟨n - serialHeader, 0⟩ := by
  unfold serialAllocatorBuild
  generalize same : wrap32 (alignSize (toSize v)) = a
  rw [serialSize, same]

attribute [irreducible] alignSize serialSize serialAllocatorBuild

theorem SerialBuild.toOption_eq_some {b : SerialBuild} {c : SerialChunk} : b.toOption = some c ↔ b = .chunk c := by
  cases b <;> simp [SerialBuild.toOption]

/-- Without memory there is no buffer to go on with. -/
theorem build_false {v : Int} {c : SerialChunk} (built : serialAllocatorBuild v true = .chunk c) :
    serialAllocatorBuild v false = .crash := by
  rw [serialAllocatorBuild_eq] at built ⊢
  split at built
  · cases built
  · rename_i large
    rw [if_neg large, if_pos (.inl rfl)]

variable {c : SerialChunk} {i added : Nat}

theorem serialPass_fits (here : chunks[i]? = some c) (fits : size ≤ c.size - c.curpos) :
    serialPass size maxSize memory ⟨chunks, i, added⟩ =
      .done (some ⟨some (i, c.curpos), chunks.set i { c with curpos := c.curpos + size }, added⟩) := by
  simp only [serialPass, here]
  rw [if_neg (Nat.not_lt.mpr fits)]

theorem serialPass_onward (here : chunks[i]? = some c) (full : c.size - c.curpos < size)
    (more : i + 1 < chunks.length) :
    serialPass size maxSize memory ⟨chunks, i, added⟩ = .next ⟨chunks, i + 1, added⟩ := by
  simp only [serialPass, here]
  rw [if_pos full, if_pos more]

/-- Behind the last chunk another one is built. -/
theorem serialPass_last (here : chunks[i]? = some c) (full : c.size - c.curpos < size)
    (last : ¬i + 1 < chunks.length) :
    serialPass size maxSize memory ⟨chunks, i, added⟩ =
      match serialAllocatorBuild maxSize (memory added) with
      | .null => .done (some ⟨none, chunks, added⟩)
      | .crash => .done none
      | .chunk d => .next ⟨chunks ++ [d], i + 1, added + 1⟩ := by
  simp only [serialPass, here]
  rw [if_pos full, if_neg last]

theorem not_room (full : ¬HasRoom chunks size) (member : c ∈ chunks) : c.size - c.curpos < size := by
  by_contra room
  exact full ⟨c, member, Nat.le_of_not_lt room⟩

/-- A chunk of the chain that has room is found. -/
theorem walk_room (maxSize : Nat) (memory : Nat → Bool) (room : HasRoom chunks size) :
    ∃ out, run (serialPass size maxSize memory) (chunks.length + 1) ⟨chunks, 0, 0⟩ = some (some out) ∧
      Taken chunks size out ∧ out.added = 0 := by
  obtain ⟨_, ran, out, rfl, taken⟩ := run_ranked (serialPass size maxSize memory)
    (fun n w => ∃ i, w = ⟨chunks, i, 0⟩ ∧ n = chunks.length - i ∧ HasRoom (chunks.drop i) size)
    (fun r => ∃ out, r = some out ∧ Taken chunks size out ∧ out.added = 0)
    (by
      rintro n w ⟨i, rfl, rfl, c, member, fits⟩
      have inside : i < chunks.length := by
        by_contra outside
        rw [List.drop_eq_nil_of_le (Nat.le_of_not_lt outside)] at member
        cases member
      have here : chunks[i]? = some chunks[i] := List.getElem?_eq_getElem inside
      by_cases full : chunks[i].size - chunks[i].curpos < size
      · rw [List.drop_eq_getElem_cons inside] at member
        rcases List.mem_cons.mp member with rfl | later
        · omega
        · have onward : i + 1 < chunks.length := by
            by_contra last
            rw [List.drop_eq_nil_of_le (Nat.le_of_not_lt last)] at later
            cases later
          exact .inl ⟨_, serialPass_onward here full onward, chunks.length - (i + 1), by omega, i + 1, rfl, rfl, c,
            later, fits⟩
      · exact .inr ⟨_, serialPass_fits here (Nat.le_of_not_lt full), _, rfl,
          ⟨i, chunks[i], here, Nat.le_of_not_lt full, rfl, rfl⟩, rfl⟩)
    ⟨0, rfl, rfl, room⟩ (Nat.lt_succ_self _)
  exact ⟨out, ran, taken⟩

/-- Without one, a new chunk is added that has room. -/
theorem walk_new (built : serialAllocatorBuild maxSize true = .chunk ⟨next, 0⟩) (some : chunks ≠ [])
    (full : ¬HasRoom chunks size) (fits : size ≤ next) (found : memory 0 = true) :
    ∃ out, run (serialPass size maxSize memory) (chunks.length + 1) ⟨chunks, 0, 0⟩ = Option.some (Option.some out) ∧
      Taken (chunks ++ [⟨next, 0⟩]) size out ∧ out.added = 1 := by
  obtain ⟨_, ran, out, rfl, taken⟩ := run_ranked (serialPass size maxSize memory)
    (fun n w => (∃ i, w = ⟨chunks, i, 0⟩ ∧ i < chunks.length ∧ n = chunks.length - i) ∨
      (w = ⟨chunks ++ [⟨next, 0⟩], chunks.length, 1⟩ ∧ n = 0))
    (fun r => ∃ out, r = Option.some out ∧ Taken (chunks ++ [⟨next, 0⟩]) size out ∧ out.added = 1)
    (by
      rintro n w (⟨i, rfl, inside, rfl⟩ | ⟨rfl, rfl⟩)
      · have here : chunks[i]? = Option.some chunks[i] := List.getElem?_eq_getElem inside
        have none := not_room full (List.getElem_mem inside)
        by_cases onward : i + 1 < chunks.length
        · exact .inl ⟨_, serialPass_onward here none onward, chunks.length - (i + 1), by omega,
            .inl ⟨i + 1, rfl, onward, rfl⟩⟩
        · have last : serialPass size maxSize memory ⟨chunks, i, 0⟩ = _ := serialPass_last here none onward
          rw [found, built, show i + 1 = chunks.length by omega] at last
          exact .inl ⟨_, last, 0, by omega, .inr ⟨rfl, rfl⟩⟩
      · have here : (chunks ++ [(⟨next, 0⟩ : SerialChunk)])[chunks.length]? = Option.some ⟨next, 0⟩ :=
          List.getElem?_concat_length
        exact .inr ⟨_, serialPass_fits here fits, _, rfl, ⟨chunks.length, ⟨next, 0⟩, here, fits, rfl, rfl⟩, rfl⟩)
    (.inl ⟨0, rfl, List.length_pos_iff.mpr some, rfl⟩) (Nat.lt_succ_self _)
  exact ⟨out, ran, taken⟩

/-- When a new chunk has no room either, or there is no memory for it, no block is returned at all. -/
theorem walk_never (built : serialAllocatorBuild maxSize true = .chunk ⟨next, 0⟩) (full : ¬HasRoom chunks size)
    (never : next < size ∨ memory 0 = false) (fuel : Nat) (out : SerialOut) :
    run (serialPass size maxSize memory) fuel ⟨chunks, 0, 0⟩ ≠ some (some out) := by
  intro ran
  have none := run_post (serialPass size maxSize memory)
    (fun w => ¬HasRoom w.chunks size ∧ (next < size ∨ w.added = 0 ∧ memory 0 = false)) (fun r => r = none)
    (by
      rintro ⟨cs, i, added⟩ ⟨full, never⟩
      dsimp only at full never
      cases here : cs[i]? with
      | none =>
          simp only [serialPass, here]
          exact rfl
      | some c =>
          have none := not_room full (List.mem_of_getElem? here)
          by_cases onward : i + 1 < cs.length
          · rw [serialPass_onward here none onward]
            exact ⟨full, never⟩
          · rw [serialPass_last here none onward]
            cases found : memory added with
            | false =>
                rw [build_false built]
                exact rfl
            | true =>
                have small : next < size := by
                  rcases never with small | ⟨rfl, fails⟩
                  · exact small
                  · rw [found] at fails
                    cases fails
                rw [built]
                refine ⟨?_, .inl small⟩
                rintro ⟨c, member, fits⟩
                rcases List.mem_append.mp member with old | new
                · exact full ⟨c, old, fits⟩
                · rw [List.mem_singleton.mp new] at fits
                  dsimp only at fits
                  omega)
    fuel ⟨chunks, 0, 0⟩ _ ⟨full, never.imp_right fun fails => ⟨rfl, fails⟩⟩ ran
  cases none

/-! ### The blocks -/

/-- Every block ends in front of `curpos` of its chunk. -/
structure Stacked (chunks : List SerialChunk) (blocks : List SerialBlock) : Prop where
  filled : ∀ c ∈ chunks, c.curpos ≤ c.size ∧ c.size ≤ intMax
  below : ∀ b ∈ blocks, ∃ c, chunks[b.chunk]? = some c ∧ b.pos + b.size ≤ c.curpos
  apart : blocks.Pairwise SerialBlock.Apart

variable {blocks : List SerialBlock}

theorem Stacked.append (holds : Stacked chunks blocks) (small : next ≤ intMax) :
    Stacked (chunks ++ [⟨next, 0⟩]) blocks := by
  refine ⟨fun c member => ?_, fun b member => ?_, holds.apart⟩
  · rcases List.mem_append.mp member with old | new
    · exact holds.filled c old
    · rw [List.mem_singleton.mp new]
      exact ⟨Nat.zero_le _, small⟩
  · obtain ⟨c, here, below⟩ := holds.below b member
    exact ⟨c, by rw [List.getElem?_append_left (List.getElem?_eq_some_iff.mp here).1, here], below⟩

/-- A block behind the others of its chunk. -/
theorem Stacked.take (holds : Stacked chunks blocks) (here : chunks[i]? = some c) (fits : size ≤ c.size - c.curpos)
    {request : Nat} (aligned : request ≤ size) :
    Stacked (chunks.set i { c with curpos := c.curpos + size }) (blocks ++ [⟨i, c.curpos, request⟩]) := by
  have inside := (List.getElem?_eq_some_iff.mp here).1
  have filled := holds.filled c (List.mem_of_getElem? here)
  refine ⟨fun d member => ?_, fun b member => ?_, ?_⟩
  · rcases List.mem_or_eq_of_mem_set member with old | rfl
    · exact holds.filled d old
    · exact ⟨by dsimp only; omega, filled.2⟩
  · rcases List.mem_append.mp member with old | new
    · obtain ⟨d, there, below⟩ := holds.below b old
      by_cases same : b.chunk = i
      · rw [same] at there
        cases here.symm.trans there
        exact ⟨_, by rw [same, List.getElem?_set_self inside], by dsimp only; omega⟩
      · exact ⟨d, by rw [List.getElem?_set_ne (Ne.symm same), there], below⟩
    · rw [List.mem_singleton.mp new]
      exact ⟨_, List.getElem?_set_self inside, by dsimp only; omega⟩
  · refine List.pairwise_append.mpr ⟨holds.apart, List.pairwise_singleton _ _, fun b old d new => ?_⟩
    rw [List.mem_singleton.mp new]
    obtain ⟨e, there, below⟩ := holds.below b old
    by_cases same : b.chunk = i
    · rw [same] at there
      cases here.symm.trans there
      exact .inr (.inl below)
    · exact .inl same

theorem Stacked.inside (holds : Stacked chunks blocks) {b : SerialBlock} (member : b ∈ blocks) :
    ∃ c, chunks[b.chunk]? = some c ∧ b.pos + b.size ≤ c.size := by
  obtain ⟨c, here, below⟩ := holds.below b member
  exact ⟨c, here, Nat.le_trans below (holds.filled c (List.mem_of_getElem? here)).1⟩

theorem alignSize_spec (fits : size ≤ 18446744073709551608) : size ≤ alignSize size := by
  unfold alignSize
  omega

theorem alignSize_wraps (large : 18446744073709551608 < size) (word : size < 18446744073709551616) :
    alignSize size = 0 := by
  unfold alignSize
  omega

theorem blocksize_le_max {id : Int} {n : Nat} (small : id ≤ intMax) (reported : ciBufferBlocksize id = some n) :
    n ≤ intMax := by
  rcases bufferPool_spec (pos_of_blocksize reported) with ⟨k, -, same, -⟩ | ⟨-, same⟩
  · cases reported.symm.trans same
    exact Nat.le_trans (BufferPools.poolSize_le k) (by decide)
  · cases reported.symm.trans same
    omega

/-- What a chunk that is built looks like. -/
theorem build_spec {v : Int} {memory : Bool} (built : serialAllocatorBuild v memory = .chunk c) :
    memory = true ∧ c.curpos = 0 ∧ c.size ≤ intMax := by
  rw [serialAllocatorBuild_eq] at built
  split at built
  · cases built
  · split at built
    · cases built
    · rename_i found
      rw [not_or] at found
      cases reported : ciBufferBlocksize (serialSize v) with
      | none =>
          rw [reported] at built
          cases built
      | some n =>
          rw [reported] at built
          cases built
          have small := blocksize_le_max (by omega) reported
          exact ⟨by simpa using found.1, rfl, Nat.le_trans (Nat.sub_le _ _) small⟩

namespace SerialAllocator

variable (s : SerialAllocator)

/-- The room of a chunk that is added. -/
def nextSize : Nat := ((serialAllocatorBuild s.maxSize true).toOption.map SerialChunk.size).getD 0

/-- A size that wraps when it is aligned, or one that passes the test of `max_size` and finds no room, neither in the
chain nor in a chunk that is added, or no memory for that. -/
def Bad : SerialOp → Prop
  | .alloc size memory =>
      18446744073709551608 < size.toNat ∨
        (alignSize size.toNat ≤ s.maxSize ∧ ¬HasRoom s.chunks (alignSize size.toNat) ∧
          (s.nextSize < alignSize size.toNat ∨ memory 0 = false))
  | .reset => False

structure Inv : Prop where
  holds : Stacked s.chunks s.blocks
  prompt : s.prompt = true
  some : s.chunks ≠ []
  own : allocatorHeader ≤ s.maxSize
  builds : serialAllocatorBuild s.maxSize true = .chunk ⟨s.nextSize, 0⟩

variable {s}

theorem nextSize_congr {t : SerialAllocator} (same : t.maxSize = s.maxSize) : t.nextSize = s.nextSize := by
  rw [nextSize, nextSize, same]

theorem Inv.sound (inv : Inv s) : Sound s :=
  ⟨fun _ member => inv.holds.inside member, inv.holds.apart, inv.prompt⟩

theorem serialAllocation_passed (memory : Nat → Bool) (some : s.chunks ≠ []) (passed : alignSize size ≤ s.maxSize)
    (fuel : Nat) :
    serialAllocation s.chunks size memory fuel =
      run (serialPass (alignSize size) s.maxSize memory) fuel ⟨s.chunks, 0, 0⟩ := by
  obtain ⟨first, others, shape⟩ := List.exists_cons_of_ne_nil some
  rw [maxSize, shape] at passed ⊢
  exact if_neg (Nat.not_lt.mpr passed)

theorem serialAllocation_refused (some : s.chunks ≠ []) (large : s.maxSize < alignSize size) (fuel : Nat) :
    serialAllocation s.chunks size memory fuel = Option.some (Option.some ⟨none, s.chunks, 0⟩) := by
  obtain ⟨first, others, shape⟩ := List.exists_cons_of_ne_nil some
  rw [maxSize, shape] at large
  rw [shape]
  exact if_pos large

theorem alloc_of_out {out : SerialOut}
    (result : serialAllocation s.chunks size memory (s.chunks.length + 2) = Option.some (Option.some out)) :
    s.alloc size memory = Option.some
      { chunks := out.chunks
        blocks := match out.block with
          | Option.some (i, pos) => s.blocks ++ [⟨i, pos, size⟩]
          | none => s.blocks
        prompt := decide (s.maxSize < alignSize size) || out.block.isSome && decide (out.added ≤ 1) } := by
  rw [alloc, result]
  rfl

/-- The first chunk keeps its size. -/
theorem head_set {base : List SerialChunk} (here : base[i]? = Option.some c) (v : Nat) :
    (base.set i { c with curpos := v }).head?.map SerialChunk.size = base.head?.map SerialChunk.size := by
  cases base with
  | nil => rfl
  | cons first others =>
      cases i with
      | zero =>
          cases here
          rfl
      | succ i => rfl

/-- A block from the chain, or from the chain with a chunk behind it. -/
theorem Inv.taken (inv : Inv s) {base : List SerialChunk} (holds : Stacked base s.blocks)
    (head : base.head?.map SerialChunk.size = s.chunks.head?.map SerialChunk.size) {out : SerialOut}
    (taken : Taken base (alignSize size) out) (few : out.added ≤ 1) (fits : size ≤ alignSize size)
    (result : serialAllocation s.chunks size memory (s.chunks.length + 2) = Option.some (Option.some out)) :
    ∃ t, s.alloc size memory = Option.some t ∧ Inv t := by
  obtain ⟨i, c, here, room, block, chunks⟩ := taken.block
  have same : (base.set i { c with curpos := c.curpos + alignSize size }).head?.map SerialChunk.size =
      s.chunks.head?.map SerialChunk.size := (head_set here _).trans head
  refine ⟨_, alloc_of_out result, ?_⟩
  rw [block, chunks]
  have max : maxSize ⟨base.set i { c with curpos := c.curpos + alignSize size }, s.blocks ++ [⟨i, c.curpos, size⟩],
      decide (s.maxSize < alignSize size) || (Option.some (i, c.curpos)).isSome && decide (out.added ≤ 1)⟩ =
      s.maxSize := by
    rw [maxSize, maxSize, same]
  refine ⟨holds.take here room fits, ?_, ?_, ?_, ?_⟩
  · show (decide (s.maxSize < alignSize size) || true && decide (out.added ≤ 1)) = true
    rw [decide_eq_true few, Bool.true_and, Bool.or_true]
  · intro none
    have size := congrArg List.length none
    rw [List.length_set] at size
    rw [List.length_eq_zero_iff.mp size] at here
    cases here
  · rw [max]
    exact inv.own
  · rw [nextSize_congr max, max]
    exact inv.builds

theorem Inv.alloc (inv : Inv s) (fits : size ≤ 18446744073709551608)
    (fine : s.maxSize < alignSize size ∨ HasRoom s.chunks (alignSize size) ∨
      alignSize size ≤ s.nextSize ∧ memory 0 = true) :
    ∃ t, s.alloc size memory = Option.some t ∧ Inv t := by
  have aligned := alignSize_spec fits
  by_cases refused : s.maxSize < alignSize size
  · refine ⟨_, alloc_of_out (serialAllocation_refused inv.some refused _), inv.holds, ?_, inv.some, inv.own,
      inv.builds⟩
    show (decide (s.maxSize < alignSize size) || _) = true
    rw [decide_eq_true refused, Bool.true_or]
  · have passed := serialAllocation_passed memory inv.some (Nat.le_of_not_lt refused)
    by_cases room : HasRoom s.chunks (alignSize size)
    · obtain ⟨out, ran, taken, added⟩ := walk_room s.maxSize memory room
      exact inv.taken inv.holds rfl taken (by omega) aligned ((passed _).trans (run_mono ran (Nat.le_succ _)))
    · obtain ⟨small, found⟩ := (fine.resolve_left refused).resolve_left room
      obtain ⟨out, ran, taken, added⟩ := walk_new inv.builds inv.some room small found
      refine inv.taken (inv.holds.append (build_spec inv.builds).2.2) ?_ taken (by omega) aligned
        ((passed _).trans (run_mono ran (Nat.le_succ _)))
      obtain ⟨first, others, shape⟩ := List.exists_cons_of_ne_nil inv.some
      rw [shape]
      rfl

/-- A call that is given enough passes ends within those that `alloc` gives it. -/
theorem Inv.alloc_ends (inv : Inv s) {fuel : Nat} {out : SerialOut} (fits : size ≤ 18446744073709551608)
    (result : serialAllocation s.chunks size memory fuel = Option.some (Option.some out)) :
    ∃ t, s.alloc size memory = Option.some t := by
  by_cases fine : s.maxSize < alignSize size ∨ HasRoom s.chunks (alignSize size) ∨
      alignSize size ≤ s.nextSize ∧ memory 0 = true
  · obtain ⟨t, taken, -⟩ := inv.alloc fits fine
    exact ⟨t, taken⟩
  · rw [not_or, not_or, Nat.not_lt] at fine
    rw [serialAllocation_passed memory inv.some fine.1] at result
    refine absurd result (walk_never inv.builds fine.2.1 ?_ fuel out)
    by_cases small : alignSize size ≤ s.nextSize
    · exact .inr (by simpa [small] using fine.2.2)
    · exact .inl (Nat.lt_of_not_le small)

theorem Inv.reset (inv : Inv s) : ∃ t, s.reset = Option.some t ∧ Inv t := by
  obtain ⟨first, others, shape⟩ := List.exists_cons_of_ne_nil inv.some
  have own := inv.own
  have header : alignSize allocatorHeader = allocatorHeader := by decide +kernel
  have small := (inv.holds.filled first (by rw [shape]; exact List.mem_cons_self)).2
  have max : s.maxSize = first.size := by
    rw [maxSize, shape]
    rfl
  rw [max] at own
  refine ⟨⟨[{ first with curpos := alignSize allocatorHeader }], [⟨0, 0, allocatorHeader⟩], true⟩,
    by rw [SerialAllocator.reset, shape], ⟨?_, ?_, List.pairwise_singleton _ _⟩, rfl, List.cons_ne_nil _ _, own, ?_⟩
  · intro c member
    rw [List.mem_singleton.mp member]
    exact ⟨by rw [header]; exact own, small⟩
  · intro b member
    rw [List.mem_singleton.mp member]
    exact ⟨_, rfl, by rw [header]; exact Nat.le_of_eq (Nat.zero_add _)⟩
  · have builds := inv.builds
    rw [nextSize, max] at builds
    exact builds

theorem Inv.step (inv : Inv s) (op : SerialOp) (fine : ¬s.Bad op) : ∃ t, s.step op = Option.some t ∧ Inv t := by
  cases op with
  | reset => exact inv.reset
  | alloc size memory =>
      rw [Bad, not_or, Nat.not_lt] at fine
      refine inv.alloc fine.1 ?_
      by_cases refused : s.maxSize < alignSize size.toNat
      · exact .inl refused
      · by_cases room : HasRoom s.chunks (alignSize size.toNat)
        · exact .inr (.inl room)
        · have others : ¬(s.nextSize < alignSize size.toNat ∨ memory 0 = false) :=
            fun never => fine.2 ⟨Nat.le_of_not_lt refused, room, never⟩
          rw [not_or, Nat.not_lt, Bool.not_eq_false] at others
          exact .inr (.inr others)

/-- A block of a size that wraps lies in no chunk, and the other bad calls return none. -/
theorem Inv.breaks (inv : Inv s) (op : SerialOp) (bad : s.Bad op) {t : SerialAllocator}
    (pass : s.step op = Option.some t) : ¬Sound t := by
  cases op with
  | reset => exact absurd bad id
  | alloc size memory =>
      rcases bad with wraps | ⟨passed, full, never⟩
      · have zero := alignSize_wraps wraps size.toNat_lt
        obtain ⟨first, others, shape⟩ := List.exists_cons_of_ne_nil inv.some
        have room : HasRoom s.chunks (alignSize size.toNat) :=
          ⟨first, by rw [shape]; exact List.mem_cons_self, by rw [zero]; exact Nat.zero_le _⟩
        obtain ⟨out, ran, taken, -⟩ := walk_room s.maxSize memory room
        obtain ⟨i, c, here, -, block, chunks⟩ := taken.block
        have result := alloc_of_out ((serialAllocation_passed memory inv.some
          (by rw [zero]; exact Nat.zero_le _) _).trans (run_mono ran (Nat.le_succ _)))
        cases pass.symm.trans result
        intro sound
        obtain ⟨d, there, inside⟩ := sound.inside ⟨i, c.curpos, size.toNat⟩ (by rw [block]; simp)
        dsimp only at there inside
        rw [chunks, List.getElem?_set_self (List.getElem?_eq_some_iff.mp here).1] at there
        cases there
        have small := (inv.holds.filled c (List.mem_of_getElem? here)).2
        rw [intMax] at small
        dsimp only at inside
        omega
      · rw [SerialAllocator.step, SerialAllocator.alloc, serialAllocation_passed memory inv.some passed] at pass
        obtain ⟨out, result, -⟩ := Option.map_eq_some_iff.mp pass
        exact absurd (Option.join_eq_some_iff.mp result) (walk_never inv.builds full never _ out)

end SerialAllocator

/-! ### The first chunk -/

theorem serialSize_fits {v : Int} (low : 81 ≤ v) (high : v ≤ 2147483632) :
    v ≤ serialSize v ∧ serialSize v < v + 8 ∧ serialSize v % 8 = 0 := by
  unfold serialSize wrap32 alignSize toSize
  omega

theorem serialSize_misfits {v : Int} (low : -2147483648 ≤ v) (high : v < 2147483648)
    (outside : ¬(81 ≤ v ∧ v ≤ 2147483632)) :
    toSize (serialSize v) < serialHeader + allocatorHeader ∨ (intMax : Int) < serialSize v + 8 ∨
      serialSize v < 1 := by
  unfold serialSize wrap32 alignSize toSize serialHeader allocatorHeader intMax
  omega

/-- A chunk of this size can be built. -/
theorem build_of_fits {v : Int} (low : 81 ≤ v) (high : v ≤ 2147483632) :
    ∃ n, ciBufferBlocksize (serialSize v) = some n ∧ serialAllocatorBuild v true = .chunk ⟨n - serialHeader, 0⟩ := by
  obtain ⟨above, below, aligned⟩ := serialSize_fits low high
  have reported : ∃ n, ciBufferBlocksize (serialSize v) = some n := by
    rcases bufferPool_spec (show 1 ≤ serialSize v by omega) with ⟨k, -, same, -⟩ | ⟨-, same⟩
    · exact ⟨_, same⟩
    · exact ⟨_, same⟩
  obtain ⟨n, reported⟩ := reported
  refine ⟨n, reported, ?_⟩
  have large : ¬toSize (serialSize v) < serialHeader + allocatorHeader := by
    rw [toSize, serialHeader, allocatorHeader]
    omega
  have narrow : ¬(true = false ∨ (intMax : Int) < serialSize v + 8) := by
    rw [intMax]
    rintro (never | wide)
    · cases never
    · omega
  rw [serialAllocatorBuild_eq, if_neg large, if_neg narrow, reported]

theorem build_iff (size : Int32) (memory : Bool) :
    (∃ c, serialAllocatorBuild size.toInt memory = .chunk c) ↔
      memory = true ∧ 81 ≤ size.toInt ∧ size.toInt ≤ 2147483632 := by
  have low := size.le_toInt
  have high := size.toInt_lt
  constructor
  · rintro ⟨c, built⟩
    refine ⟨(build_spec built).1, ?_⟩
    by_contra outside
    rw [serialAllocatorBuild_eq] at built
    rcases serialSize_misfits (by omega) (by omega) outside with small | large | negative
    · rw [if_pos small] at built
      cases built
    · split at built
      · cases built
      · rw [if_pos (.inr large)] at built
        cases built
    · split at built
      · cases built
      · split at built
        · cases built
        · rw [ciBufferBlocksize, if_pos (by omega)] at built
          cases built
  · rintro ⟨rfl, low, high⟩
    obtain ⟨n, -, built⟩ := build_of_fits low high
    exact ⟨_, built⟩

theorem sizes_shape : ∀ t < 16, shortBufferSizes.getD t 0 % 64 = 0 ∧ longBufferSizes.getD t 0 % 64 = 0 := by
  decide

/-- What is reported is a multiple of 64, or the size itself. -/
theorem blocksize_shape {id : Int} {n : Nat} (reported : ciBufferBlocksize id = some n) :
    n % 64 = 0 ∨ (n : Int) = id ∧ 32768 < id := by
  cases SizeClass.of_pos (pos_of_blocksize reported) with
  | short t row type =>
      cases reported.symm.trans (bufferPool_short row type).2
      exact .inl (sizes_shape t row).1
  | long t u row type above shifted =>
      subst shifted
      cases reported.symm.trans (bufferPool_long row type above).2
      exact .inl (sizes_shape (t / 32) row).2
  | none type =>
      cases reported.symm.trans (bufferPool_none type).2
      exact .inr ⟨by omega, by omega⟩

namespace SerialAllocator

/-- The chunk that `ci_create_serial_allocator` has built. -/
theorem first_inv {size : Int32} {memory : Bool} {c : SerialChunk}
    (built : serialAllocatorBuild size.toInt memory = .chunk c) : Inv ⟨[c], [], true⟩ := by
  obtain ⟨rfl, low, high⟩ := (build_iff size memory).mp ⟨c, built⟩
  obtain ⟨-, curpos, small⟩ := build_spec built
  obtain ⟨n, reported, same⟩ := build_of_fits low high
  cases built.symm.trans same
  obtain ⟨above, near, -⟩ := serialSize_fits low high
  have room := le_blocksize reported
  have shape := blocksize_shape reported
  have large : 88 ≤ n - serialHeader := by
    rw [serialHeader]
    omega
  rw [intMax] at small
  dsimp only at small
  have below : n - serialHeader ≤ 2147483632 := by
    rw [serialHeader] at small ⊢
    omega
  obtain ⟨m, -, next⟩ := build_of_fits (v := ((n - serialHeader : Nat) : Int)) (by omega) (by omega)
  refine ⟨⟨?_, fun _ member => absurd member List.not_mem_nil, List.Pairwise.nil⟩, rfl, List.cons_ne_nil _ _, ?_, ?_⟩
  · intro c member
    rw [List.mem_singleton.mp member]
    exact ⟨Nat.zero_le _, by rw [intMax]; exact small⟩
  · show allocatorHeader ≤ n - serialHeader
    rw [allocatorHeader]
    omega
  · show serialAllocatorBuild ((n - serialHeader : Nat) : Int) true =
      .chunk ⟨nextSize ⟨[⟨n - serialHeader, 0⟩], [], true⟩, 0⟩
    have room : nextSize ⟨[⟨n - serialHeader, 0⟩], [], true⟩ = m - serialHeader := by
      show ((serialAllocatorBuild ((n - serialHeader : Nat) : Int) true).toOption.map SerialChunk.size).getD 0 = _
      rw [next]
      rfl
    rw [next, room]

theorem create_inv {size : Int32} {memory : Bool} (low : 81 ≤ size.toInt) (high : size.toInt ≤ 2147483632)
    (found : memory = true) : ∃ s, create size.toInt memory = some s ∧ Inv s := by
  obtain ⟨c, built⟩ := (build_iff size memory).mpr ⟨found, low, high⟩
  have inv := first_inv built
  have header : alignSize allocatorHeader = allocatorHeader := by decide +kernel
  have room : HasRoom [c] (alignSize allocatorHeader) := by
    obtain ⟨-, curpos, -⟩ := build_spec built
    refine ⟨c, List.mem_cons_self, ?_⟩
    rw [header, curpos]
    exact inv.own
  have first : ∃ s, alloc ⟨[c], [], true⟩ allocatorHeader (fun _ => true) = some s ∧ Inv s :=
    inv.alloc (by decide) (.inr (.inl room))
  obtain ⟨s, taken, inv'⟩ := first
  exact ⟨s, Option.bind_eq_some_iff.mpr ⟨c, SerialBuild.toOption_eq_some.mpr built, taken⟩, inv'⟩

/-- A chunk from a pool is followed by chunks of its own size. -/
theorem pooled_next {s : SerialAllocator} (inv : Inv s) (pooled : s.maxSize + serialHeader ∈ poolSizes) :
    s.nextSize = s.maxSize := by
  have builds : ∀ k ∈ poolSizes, serialHeader + allocatorHeader ≤ k →
      serialAllocatorBuild ((k - serialHeader : Nat) : Int) true = .chunk ⟨k - serialHeader, 0⟩ := by
    decide +kernel
  have own := inv.own
  have same := builds _ pooled (by omega)
  rw [Nat.add_sub_cancel] at same
  rw [nextSize, same]
  rfl

/-- With memory, every size that does not wrap is then satisfied or refused. -/
theorem pooled_fine {s : SerialAllocator} (inv : Inv s) (pooled : s.maxSize + serialHeader ∈ poolSizes)
    {size : UInt64} {memory : Nat → Bool} (fits : size.toNat ≤ 18446744073709551608) (found : memory 0 = true) :
    ¬s.Bad (.alloc size memory) := by
  rintro (wraps | ⟨passed, -, small | fails⟩)
  · omega
  · rw [pooled_next inv pooled] at small
    omega
  · rw [found] at fails
    cases fails

end SerialAllocator

/-- Every call of a run returns NULL or a block that lies in one chunk and apart from the others, after at most one
new chunk, just when the allocator can be created and no call of the run is bad. -/
theorem serial_sound_iff (size : Int32) (memory : Bool) (ops : List SerialOp) :
    (∃ s, SerialAllocator.create size.toInt memory = some s ∧
      ∀ done, done <+: ops → ∃ t, done.foldlM SerialAllocator.step s = some t ∧ t.Sound) ↔
      (memory = true ∧ 81 ≤ size.toInt ∧ size.toInt ≤ 2147483632) ∧
        ∀ s done op t, SerialAllocator.create size.toInt memory = some s → done ++ [op] <+: ops →
          done.foldlM SerialAllocator.step s = some t → ¬t.Bad op := by
  constructor
  · rintro ⟨s, created, holds⟩
    have fits : memory = true ∧ 81 ≤ size.toInt ∧ size.toInt ≤ 2147483632 := by
      rw [← build_iff size memory]
      obtain ⟨c, built, -⟩ := Option.bind_eq_some_iff.mp created
      exact ⟨c, SerialBuild.toOption_eq_some.mp built⟩
    refine ⟨fits, ?_⟩
    intro s' done op t created'
    obtain ⟨s'', created'', inv⟩ := SerialAllocator.create_inv fits.2.1 fits.2.2 fits.1
    cases created.symm.trans created'
    cases created.symm.trans created''
    exact (holds_iff_no_bad (fun _ inv => SerialAllocator.Inv.sound inv) (fun _ op inv fine => inv.step op fine)
      (fun _ op _ inv bad pass => inv.breaks op bad pass) inv ops).mp holds done op t
  · rintro ⟨⟨found, low, high⟩, fine⟩
    obtain ⟨s, created, inv⟩ := SerialAllocator.create_inv low high found
    exact ⟨s, created, (holds_iff_no_bad (fun _ inv => SerialAllocator.Inv.sound inv)
      (fun _ op inv fine => inv.step op fine) (fun _ op _ inv bad pass => inv.breaks op bad pass) inv ops).mpr
      (fun done op t => fine s done op t created)⟩

/-- The chunk that is added loses a second header, so that it has no room for what passes the test of `max_size`. -/
theorem added_chunk_too_small :
    ∃ s, SerialAllocator.create 65536 true = some s ∧ alignSize 65504 ≤ s.maxSize ∧
      ∀ fuel out, serialAllocation s.chunks 65504 (fun _ => true) fuel ≠ some (some out) := by
  have created : (SerialAllocator.create 65536 true).map SerialAllocator.chunks = some [⟨65504, 56⟩] := by
    decide +kernel
  obtain ⟨s, created, chunks⟩ := Option.map_eq_some_iff.mp created
  have max : s.maxSize = 65504 := by
    rw [SerialAllocator.maxSize, chunks]
    rfl
  have aligned : alignSize 65504 = 65504 := by decide +kernel
  have built : serialAllocatorBuild 65504 true = .chunk ⟨65472, 0⟩ := by decide +kernel
  refine ⟨s, created, by rw [max, aligned], fun fuel out => ?_⟩
  have full : ¬HasRoom s.chunks (alignSize 65504) := by
    rintro ⟨c, member, fits⟩
    rw [chunks] at member
    rw [List.mem_singleton.mp member, aligned] at fits
    dsimp only at fits
    omega
  have some : s.chunks ≠ [] := by
    rw [chunks]
    exact List.cons_ne_nil _ _
  rw [SerialAllocator.serialAllocation_passed _ some (by rw [max, aligned]), max]
  exact walk_never built full (.inl (by rw [aligned]; decide)) fuel out

end IcapService
