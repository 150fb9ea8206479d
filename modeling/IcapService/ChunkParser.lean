import IcapService.Lib.Machine
import IcapService.NetIo
import IcapService.Request

/-! `parse_chunk_data` and `net_data_read` of `request_common.c`. -/

namespace IcapService

open CString CInt Machine

def skipBlanks (s : Bytes) (i : Nat) : Nat := i + ((s.drop i).takeWhile isBlank).length

def useOriginalBody : Bytes := ascii "use-original-body="
def ieof : Bytes := ascii "ieof"

/-- The extension of a zero chunk, from the byte after its `;`. The result is the offset of the
carriage return behind it. -/
def readExtension (r : ReadSide) (start : Nat) : Step (ReadSide × Nat) (CiRet × ReadSide) :=
  let s := r.block
  let stop := skipBlanks s start
  let remains := r.pstrblockReadLen - stop
  -- any text behind a known extension is skipped up to the next carriage return
  let toCr (i : Nat) : Nat := i + ((s.drop i).takeWhile (· != cr)).length
  if 18 ≤ remains ∧ useOriginalBody.isPrefixOf (s.drop stop) then
    let num := strtol 10 (s.drop (stop + 18))
    .next ({ r with i206UseOriginalBody := num.1, eofReceived := true }, toCr (stop + 18 + num.2))
  else if 4 ≤ remains ∧ ¬ ieof.isPrefixOf (s.drop stop) then .done (.error, r)
  else .next ({ r with eofReceived := true }, toCr stop)

/-- The rest of a zero chunk: the second CRLF and an extension. -/
def readZeroChunk (r : ReadSide) (chunkLen stop : Nat) :
    Step (ReadSide × Nat × Nat) (CiRet × ReadSide) :=
  let s := r.block
  if r.pstrblockReadLen - chunkLen < 2 then .done (.needsMore, r)
  else if at0 s chunkLen ≠ cr ∧ at0 s (chunkLen + 1) ≠ lf then .done (.error, r)
  else
    let r := { r with requestBytesIn := r.requestBytesIn + 2 }
    if at0 s stop = 59 then
      match readExtension r (stop + 1) with
      | .done out => .done out
      | .next (r, stop) => .next (r, chunkLen + 2, stop)
    else .next (r, chunkLen + 2, stop)

/-- The end of a chunk definition: `stop` must point at CRLF. -/
def closeChunkDef (r : ReadSide) (chunkLen stop : Nat) : Step ReadSide (CiRet × ReadSide) :=
  if at0 r.block stop ≠ cr ∨ at0 r.block (stop + 1) ≠ lf then .done (.error, r)
  else .next (r.advance chunkLen)

/-- The `READ_CHUNK_DEF` part of a pass. -/
def readChunkDef (r : ReadSide) : Step ReadSide (CiRet × ReadSide) :=
  let s := r.block
  match strnstr crlf s r.pstrblockReadLen.toNat with
  | none => .done (if bufsize ≤ r.pstrblockReadLen then .error else .needsMore, r)
  | some i =>
      let chunkLen := i + 2
      let r := { r with requestBytesIn := r.requestBytesIn + chunkLen }
      let num := strtol 16 s
      let tmp := wrap32 num.1
      if tmp = 0 ∧ num.2 = 0 then .done (.error, r)
      else
        let r := { r with currentChunkLen := u32 tmp, chunkBytesRead := 0 }
        let stop := skipBlanks s num.2
        if r.currentChunkLen = 0 then
          match readZeroChunk r chunkLen stop with
          | .done out => .done out
          | .next (r, chunkLen, stop) => closeChunkDef r chunkLen stop
        else closeChunkDef { r with currentChunkLen := u32 (r.currentChunkLen + 2) } chunkLen stop

/-- The bytes still owed for the current chunk, CRLF included, as the `int` the code computes. -/
def ReadSide.owed (r : ReadSide) : Int :=
  wrap32 ((r.currentChunkLen : Int) - (r.chunkBytesRead : Int))

/-- The `READ_CHUNK_DATA` part of a pass, with data in the buffer. -/
def readChunkData (r : ReadSide) : ReadSide :=
  let remains := r.owed
  let len := r.pstrblockReadLen
  if remains ≤ len then
    let pending := if 2 < remains then (remains - 2).toNat else 0
    { r.advance remains with
      writeToModulePending := pending
      httpBytesIn := r.httpBytesIn + pending
      bodyBytesIn := r.bodyBytesIn + pending
      chunkBytesRead := u32 (r.chunkBytesRead + remains)
      requestBytesIn := (r.requestBytesIn + remains).toNat }
  else
    let tmp := remains - len
    let pending := if tmp < 2 then (len - tmp).toNat else len.toNat
    { r.advance len with
      writeToModulePending := pending
      httpBytesIn := r.httpBytesIn + pending
      bodyBytesIn := r.bodyBytesIn + pending
      requestBytesIn := r.requestBytesIn + len.toNat
      chunkBytesRead := u32 (r.chunkBytesRead + len) }

/-- Where a pass of the loop stands: at its head, or behind the chunk definition. -/
inductive ParsePoint where
  | head
  | data
  deriving DecidableEq, Repr

structure ParseState where
  point : ParsePoint
  read : ReadSide
  wdata : Ptr
  deriving DecidableEq, Repr

structure ParseOut where
  ret : CiRet
  read : ReadSide
  wdata : Ptr
  deriving DecidableEq, Repr

/-- Half a pass of the `while (1)` loop: the read pointer moves at most once. -/
def parseStep (p : ParseState) : Step ParseState ParseOut :=
  match p.point with
  | .head =>
      if p.read.currentChunkLen = p.read.chunkBytesRead then
        match readChunkDef p.read with
        | .done (ret, r) => .done ⟨ret, r, p.wdata⟩
        | .next r => .next ⟨.data, r, p.wdata⟩
      else .next ⟨.data, p.read, p.wdata⟩
  | .data =>
      if p.read.currentChunkLen = 0 then .done ⟨.eof, p.read, p.wdata⟩
      else if p.read.writeToModulePending ≠ 0 then .done ⟨.ok, p.read, p.wdata⟩
      else if p.read.pstrblockReadLen ≤ 0 then .done ⟨.needsMore, p.read, p.wdata⟩
      else
        let r := readChunkData p.read
        if r.pstrblockReadLen = 0 then .done ⟨.needsMore, r, p.read.pstrblockRead⟩
        else .next ⟨.head, r, p.read.pstrblockRead⟩

/-- What the passes of a call use up: two for each unread byte, and one at the head of the loop. -/
def ParseState.weight (p : ParseState) : Nat :=
  2 * p.read.pstrblockReadLen.toNat + (if p.point = .head then 1 else 0)

/-- `parse_chunk_data`, cut off after `fuel` half passes. -/
def parseChunkData (fuel : Nat) (r : ReadSide) : Option ParseOut :=
  if r.writeToModulePending ≠ 0 then some ⟨.error, r, .null⟩
  else run parseStep fuel ⟨.head, r, .null⟩

/-- The block a call hands to its caller: `write_to_module_pending` bytes at `wdata`. -/
def ParseOut.data (out : ParseOut) : Bytes :=
  (out.read.deref out.wdata).take out.read.writeToModulePending

/-- `rbuf` after the unread bytes have been moved to its beginning. -/
def ReadSide.compact (r : ReadSide) : Bytes :=
  match r.pstrblockRead with
  | .rbuf 0 => r.rbuf
  | _ => r.unread ++ r.rbuf.drop r.unread.length

/-- `rbuf` after a read has put `got` behind the unread bytes. -/
def ReadSide.filled (r : ReadSide) (got : Bytes) : Bytes :=
  let used := r.pstrblockReadLen.toNat
  r.compact.take used ++ got ++ r.compact.drop (used + got.length)

/-- `net_data_read`, where `res` says what the read call on the socket returns. -/
def netDataRead (r : ReadSide) (c : Connection) (res : NetRes) : CiRet × ReadSide × Connection :=
  let space := (bufsize : Int) - r.pstrblockReadLen
  if space ≤ 0 then (.error, { r with rbuf := r.compact, pstrblockRead := .rbuf 0 }, c)
  else
    match c.readNonblock res space.toNat with
    | none => (.error, { r with rbuf := r.compact, pstrblockRead := .rbuf 0 }, c)
    | some (got, c) =>
        (.ok, { r with
          rbuf := r.filled got
          pstrblockRead := .rbuf 0
          pstrblockReadLen := r.pstrblockReadLen + got.length
          bytesIn := r.bytesIn + got.length }, c)

/-- The number of the size line at the read pointer, as the `int` the code stores. -/
def ReadSide.sizeValue (r : ReadSide) : Int := wrap32 (strtol 16 r.block).1

/-! ### The chunk definition -/

theorem readExtension_next {r s : ReadSide} {start stop : Nat}
    (passed : readExtension r start = .next (s, stop)) :
    ∃ offset, s = { r with eofReceived := true, i206UseOriginalBody := offset } := by
  simp only [readExtension] at passed
  split at passed
  · cases passed
    exact ⟨_, rfl⟩
  · split at passed
    · cases passed
    · cases passed
      exact ⟨r.i206UseOriginalBody, rfl⟩

theorem readExtension_done {r : ReadSide} {start : Nat} {out : CiRet × ReadSide}
    (stopped : readExtension r start = .done out) : out = (.error, r) := by
  simp only [readExtension] at stopped
  split at stopped
  · cases stopped
  · split at stopped
    · cases stopped
      rfl
    · cases stopped

theorem readZeroChunk_done {r s : ReadSide} {chunkLen stop : Nat} {ret : CiRet}
    (stopped : readZeroChunk r chunkLen stop = .done (ret, s)) :
    (ret = .error ∨ ret = .needsMore) ∧ ∃ count, s = { r with requestBytesIn := count } := by
  simp only [readZeroChunk] at stopped
  split at stopped
  · cases stopped
    exact ⟨.inr rfl, r.requestBytesIn, rfl⟩
  · split at stopped
    · cases stopped
      exact ⟨.inl rfl, r.requestBytesIn, rfl⟩
    · split at stopped
      · split at stopped
        · rename_i out extension
          have failed := readExtension_done extension
          cases stopped
          cases failed
          exact ⟨.inl rfl, _, rfl⟩
        · cases stopped
      · cases stopped

theorem readZeroChunk_next {r s : ReadSide} {chunkLen stop used stop' : Nat}
    (passed : readZeroChunk r chunkLen stop = .next (s, used, stop')) :
    used = chunkLen + 2 ∧ (chunkLen + 2 : Int) ≤ r.pstrblockReadLen ∧ ∃ eof offset count,
      s = { r with eofReceived := eof, i206UseOriginalBody := offset, requestBytesIn := count } := by
  simp only [readZeroChunk] at passed
  split at passed
  · cases passed
  · rename_i room
    split at passed
    · cases passed
    · split at passed
      · split at passed
        · cases passed
        · rename_i t stop'' extension
          obtain ⟨offset, rfl⟩ := readExtension_next extension
          cases passed
          exact ⟨rfl, by omega, _, _, _, rfl⟩
      · cases passed
        exact ⟨rfl, by omega, r.eofReceived, r.i206UseOriginalBody, _, rfl⟩

/-- A chunk definition that returns leaves the read pointer and the data to come alone. -/
theorem readChunkDef_done {r s : ReadSide} {ret : CiRet} (stopped : readChunkDef r = .done (ret, s)) :
    (ret = .error ∨ ret = .needsMore) ∧ ∃ current read eof offset count,
      s = { r with currentChunkLen := current, chunkBytesRead := read, eofReceived := eof,
                   i206UseOriginalBody := offset, requestBytesIn := count } ∧
      (current = r.currentChunkLen ∨ current < 4294967296) ∧
      (read = r.chunkBytesRead ∨ read = 0) := by
  simp only [readChunkDef] at stopped
  split at stopped
  · cases stopped
    refine ⟨?_, r.currentChunkLen, r.chunkBytesRead, r.eofReceived, r.i206UseOriginalBody,
      r.requestBytesIn, rfl, .inl rfl, .inl rfl⟩
    split
    · exact .inl rfl
    · exact .inr rfl
  · split at stopped
    · cases stopped
      exact ⟨.inl rfl, r.currentChunkLen, r.chunkBytesRead, r.eofReceived, r.i206UseOriginalBody,
        _, rfl, .inl rfl, .inl rfl⟩
    · split at stopped
      · split at stopped
        · rename_i out zero
          cases stopped
          obtain ⟨kind, count, rfl⟩ := readZeroChunk_done zero
          exact ⟨kind, _, _, r.eofReceived, r.i206UseOriginalBody, _, rfl, .inr (u32_lt _), .inr rfl⟩
        · rename_i t used stop zero
          obtain ⟨-, -, eof, offset, count, rfl⟩ := readZeroChunk_next zero
          simp only [closeChunkDef] at stopped
          split at stopped
          · cases stopped
            exact ⟨.inl rfl, _, _, _, _, _, rfl, .inr (u32_lt _), .inr rfl⟩
          · cases stopped
      · simp only [closeChunkDef] at stopped
        split at stopped
        · cases stopped
          exact ⟨.inl rfl, _, _, r.eofReceived, r.i206UseOriginalBody, _, rfl, .inr (u32_lt _), .inr rfl⟩
        · cases stopped

/-- A chunk definition that goes on has moved over its size line, which is followed by a second
CRLF when the size is zero. -/
theorem readChunkDef_next {r s : ReadSide} (passed : readChunkDef r = .next s) :
    ∃ (i used current : Nat) (eof : Bool) (offset : Int) (count : Nat),
      strnstr crlf r.block r.pstrblockReadLen.toNat = some i ∧
      s = ReadSide.advance { r with
        currentChunkLen := current, chunkBytesRead := 0, eofReceived := eof,
        i206UseOriginalBody := offset, requestBytesIn := count } used ∧
      i + 2 ≤ used ∧ (used : Int) ≤ r.pstrblockReadLen ∧
      ((r.sizeValue = 0 ∧ current = 0) ∨
       (r.sizeValue ≠ 0 ∧ current = u32 (u32 r.sizeValue + 2) ∧ used = i + 2 ∧
        at0 r.block (skipBlanks r.block (strtol 16 r.block).2) = cr ∧
        at0 r.block (skipBlanks r.block (strtol 16 r.block).2 + 1) = lf)) := by
  simp only [readChunkDef] at passed
  split at passed
  · cases passed
  · rename_i i found
    have room := strnstr_bound crlf r.block _ i found
    simp only [crlf, List.length_cons, List.length_nil] at room
    split at passed
    · cases passed
    · split at passed
      · rename_i zero
        split at passed
        · cases passed
        · rename_i t used stop more
          obtain ⟨rfl, enough, eof, offset, count, rfl⟩ := readZeroChunk_next more
          simp only [closeChunkDef] at passed
          split at passed
          · cases passed
          · cases passed
            exact ⟨i, _, _, eof, offset, count, found, rfl, by omega, enough,
              .inl ⟨(u32_eq_zero _).mp zero, zero⟩⟩
      · rename_i positive
        simp only [closeChunkDef] at passed
        split at passed
        · cases passed
        · rename_i closed
          simp only [not_or, not_not] at closed
          cases passed
          refine ⟨i, i + 2, _, r.eofReceived, r.i206UseOriginalBody, _, found, rfl, le_refl _, by omega,
            .inr ⟨?_, rfl, rfl, closed.1, closed.2⟩⟩
          intro zero
          exact positive ((u32_eq_zero _).mpr zero)

end IcapService
