import IcapService.Lib.CString

/-! Data model of an ICAP request: the return codes and the read side of `ci_request_t`. -/

namespace IcapService

open CString

def bufsize : Nat := 4096
def extraChunkSize : Nat := 30
def maxChunkSize : Nat := 4064

/-- `CI_NO_STATUS`, `CI_OK`, `CI_NEEDS_MORE`, `CI_ERROR` and `CI_EOF`. -/
inductive CiRet where
  | noStatus
  | ok
  | needsMore
  | error
  | eof
  deriving DecidableEq, Repr

/-- A pointer of the read side: null, into `rbuf`, or into the buffer of the request header,
where the header reader leaves what it received after the header. -/
inductive Ptr where
  | null
  | rbuf (offset : Int)
  | head (offset : Int)
  deriving DecidableEq, Repr

namespace Ptr

def offset : Ptr → Int
  | null => 0
  | rbuf o => o
  | head o => o

def add : Ptr → Int → Ptr
  | null, _ => null
  | rbuf o, k => rbuf (o + k)
  | head o, k => head (o + k)

end Ptr

/-- The fields of `ci_request_t` the chunk parser and the network reader work on. -/
structure ReadSide where
  rbuf : Bytes
  headBuf : Bytes
  pstrblockRead : Ptr
  pstrblockReadLen : Int
  currentChunkLen : Nat
  chunkBytesRead : Nat
  writeToModulePending : Nat
  eofReceived : Bool
  i206UseOriginalBody : Int
  bytesIn : Nat
  requestBytesIn : Nat
  httpBytesIn : Nat
  bodyBytesIn : Nat
  deriving DecidableEq, Repr

namespace ReadSide

/-- The memory block a pointer of the read side points into. -/
def region (r : ReadSide) : Ptr → Bytes
  | .null => []
  | .rbuf _ => r.rbuf
  | .head _ => r.headBuf

/-- The bytes from a pointer to the end of its block. -/
def deref (r : ReadSide) (p : Ptr) : Bytes := (r.region p).drop p.offset.toNat

/-- What `pstrblock_read` points at: the received bytes, then whatever follows in memory. -/
def block (r : ReadSide) : Bytes := r.deref r.pstrblockRead

/-- The received bytes that have not been parsed. -/
def unread (r : ReadSide) : Bytes := r.block.take r.pstrblockReadLen.toNat

/-- Move the read pointer over `k` bytes. -/
def advance (r : ReadSide) (k : Int) : ReadSide :=
  { r with pstrblockRead := r.pstrblockRead.add k, pstrblockReadLen := r.pstrblockReadLen - k }

@[simp] theorem advance_pstrblockRead (r : ReadSide) (k : Int) :
    (r.advance k).pstrblockRead = r.pstrblockRead.add k := rfl

@[simp] theorem advance_pstrblockReadLen (r : ReadSide) (k : Int) :
    (r.advance k).pstrblockReadLen = r.pstrblockReadLen - k := rfl

@[simp] theorem advance_currentChunkLen (r : ReadSide) (k : Int) :
    (r.advance k).currentChunkLen = r.currentChunkLen := rfl

@[simp] theorem advance_chunkBytesRead (r : ReadSide) (k : Int) :
    (r.advance k).chunkBytesRead = r.chunkBytesRead := rfl

@[simp] theorem advance_writeToModulePending (r : ReadSide) (k : Int) :
    (r.advance k).writeToModulePending = r.writeToModulePending := rfl

@[simp] theorem advance_rbuf (r : ReadSide) (k : Int) : (r.advance k).rbuf = r.rbuf := rfl

@[simp] theorem advance_headBuf (r : ReadSide) (k : Int) : (r.advance k).headBuf = r.headBuf := rfl

theorem block_eq (r : ReadSide) : ∃ stale, r.block = r.unread ++ stale :=
  ⟨r.block.drop r.pstrblockReadLen.toNat, (List.take_append_drop _ _).symm⟩

/-- A request at the start of its body that has received `received` into its read buffer. -/
def bodyStart (received : Bytes) : ReadSide where
  rbuf := received
  headBuf := []
  pstrblockRead := .rbuf 0
  pstrblockReadLen := received.length
  currentChunkLen := 0
  chunkBytesRead := 0
  writeToModulePending := 0
  eofReceived := false
  i206UseOriginalBody := -1
  bytesIn := 0
  requestBytesIn := 0
  httpBytesIn := 0
  bodyBytesIn := 0

/-- The unread bytes lie inside the block the read pointer points into. -/
structure Placed (r : ReadSide) : Prop where
  pointer : 0 ≤ r.pstrblockRead.offset
  nonneg : 0 ≤ r.pstrblockReadLen
  room : r.pstrblockReadLen ≤ r.block.length

namespace Placed

variable {r : ReadSide}

theorem unread_length (placed : r.Placed) : (r.unread.length : Int) = r.pstrblockReadLen := by
  have nonneg := placed.nonneg
  have room := placed.room
  simp only [unread, List.length_take]
  omega

theorem advance_block (placed : r.Placed) (k : Nat) (some : r.pstrblockRead ≠ .null) :
    (r.advance k).block = r.block.drop k := by
  have pointer := placed.pointer
  cases at_ : r.pstrblockRead with
  | null => exact absurd at_ some
  | rbuf o =>
      rw [at_] at pointer
      simp only [Ptr.offset] at pointer
      simp only [block, deref, region, advance, at_, Ptr.add, Ptr.offset, List.drop_drop]
      congr 1
      omega
  | head o =>
      rw [at_] at pointer
      simp only [Ptr.offset] at pointer
      simp only [block, deref, region, advance, at_, Ptr.add, Ptr.offset, List.drop_drop]
      congr 1
      omega

/-- Reading `k` of the unread bytes leaves the rest of them. -/
theorem advance (placed : r.Placed) (k : Nat) (room : k ≤ r.unread.length) :
    (r.advance k).Placed ∧ (r.advance k).unread = r.unread.drop k := by
  have len := placed.unread_length
  by_cases null : r.pstrblockRead = .null
  · have empty : r.unread = [] := by simp [unread, block, deref, region, null]
    have zero : k = 0 := by simpa [empty] using room
    subst zero
    have same : r.advance (0 : Nat) = r := by
      cases r
      simp only at null
      subst null
      simp [ReadSide.advance, Ptr.add]
    rw [same]
    exact ⟨placed, by simp⟩
  · have moved := placed.advance_block k null
    have pointer := placed.pointer
    have inside := placed.room
    refine ⟨⟨?_, ?_, ?_⟩, ?_⟩
    · cases at_ : r.pstrblockRead with
      | null => exact absurd at_ null
      | rbuf o =>
          rw [at_] at pointer
          simp only [Ptr.offset] at pointer
          simp only [ReadSide.advance, at_, Ptr.add, Ptr.offset]
          omega
      | head o =>
          rw [at_] at pointer
          simp only [Ptr.offset] at pointer
          simp only [ReadSide.advance, at_, Ptr.add, Ptr.offset]
          omega
    · simp only [advance_pstrblockReadLen]
      omega
    · rw [moved]
      simp only [advance_pstrblockReadLen, List.length_drop]
      omega
    · have shorter : (r.advance k).pstrblockReadLen.toNat = r.pstrblockReadLen.toNat - k := by
        simp only [advance_pstrblockReadLen]
        omega
      simp only [unread, moved, shorter, List.drop_take]

end Placed

end ReadSide

end IcapService
