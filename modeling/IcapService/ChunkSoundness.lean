import IcapService.BodyReader

/-! What the chunk parser accepts.

The parser checks less than the chunked coding asks for: it takes the size as `strtol` reads it,
into an `int`, passes over the two bytes behind the data of a chunk without looking at them, asks
for one of the two bytes behind a zero chunk only, and skips any text behind an extension. A body
accepted in a run in which none of this happens is a coding of the data delivered. -/

namespace IcapService

open CString CInt Machine Chunked

/-- Nothing stands between an extension and the carriage return. -/
def ReadSide.RegularExtension (r : ReadSide) (start : Nat) : Prop :=
  let s := r.block
  let stop := skipBlanks s start
  if 18 ≤ r.pstrblockReadLen - stop ∧ useOriginalBody.isPrefixOf (s.drop stop) then
    let digits := (s.drop (stop + 18)).takeWhile (isDigit 10)
    digits ≠ [] ∧ at0 s (stop + 18 + digits.length) = cr
  else at0 s (stop + 4) = cr

/-- The number of a size line starts at the read pointer, without white space, a sign or `0x`
before it, and its unbounded value plus two is an `int`. A zero chunk is followed by both bytes
of CRLF and its extension by nothing. -/
structure ReadSide.RegularLine (r : ReadSide) : Prop where
  space : r.block.takeWhile isSpace = []
  sign : strtolSign r.block = (false, 0)
  hex : strtolHex 16 r.block = 0
  int : number 16 (r.block.takeWhile (isDigit 16)) + 2 < 2147483648
  zero : number 16 (r.block.takeWhile (isDigit 16)) = 0 →
    ∀ i : Nat, strnstr crlf r.block r.pstrblockReadLen.toNat = some i →
      (i + 4 : Int) ≤ r.pstrblockReadLen → at0 r.block (i + 2) = cr ∧ at0 r.block (i + 3) = lf
  extension : number 16 (r.block.takeWhile (isDigit 16)) = 0 →
    at0 r.block (skipBlanks r.block (strtol 16 r.block).2) = 59 →
    r.RegularExtension (skipBlanks r.block (strtol 16 r.block).2 + 1)

/-- The two bytes owed last are CR and LF. -/
def ReadSide.RegularData (r : ReadSide) : Prop :=
  ∀ i : Nat, (i : Int) < r.pstrblockReadLen →
    ((i + 2 : Int) = r.owed → at0 r.block i = cr) ∧ ((i + 1 : Int) = r.owed → at0 r.block i = lf)

/-- None of what the parser leaves unchecked goes wrong in the half pass from this state. -/
def ParseState.Regular (p : ParseState) : Prop :=
  match p.point with
  | .head => p.read.currentChunkLen = p.read.chunkBytesRead → p.read.RegularLine
  | .data => p.read.currentChunkLen ≠ 0 → p.read.writeToModulePending = 0 → p.read.RegularData

/-! ### Size lines -/

variable {r s : ReadSide}

/-- What a chunk definition that goes on has passed over. -/
inductive PassedLine (r s : ReadSide) : Prop where
  | size (t : SizeText) (positive : 0 < t.value) (int : t.value + 2 < 2147483648)
      (passed : r.unread = t.text ++ crlf ++ s.unread) (current : s.currentChunkLen = t.value + 2)
      (read : s.chunkBytesRead = 0)
  | last (l : LastChunk) (passed : r.unread = l.encode ++ s.unread) (current : s.currentChunkLen = 0)
      (read : s.chunkBytesRead = 0)

theorem at0_drop (s : Bytes) (i j : Nat) : at0 (s.drop i) j = at0 s (i + j) := by
  simp [at0]

/-- The bytes behind the first `n` are those of CRLF. -/
def Closing (n : Nat) (got : Bytes) : Prop :=
  ∀ i, i < got.length → (i = n → at0 got i = cr) ∧ (i = n + 1 → at0 got i = lf)

theorem Closing.append {n : Nat} {got more : Bytes} (closing : Closing n got)
    (regular : ∀ i, i < more.length → (got.length + i = n → at0 more i = cr) ∧
      (got.length + i = n + 1 → at0 more i = lf)) : Closing n (got ++ more) := by
  intro i inside
  by_cases old : i < got.length
  · have same : at0 (got ++ more) i = at0 got i := by
      simp [at0, List.getElem?_append_left old]
    rw [same]
    exact closing i old
  · have same : at0 (got ++ more) i = at0 more (i - got.length) := by
      simp [at0, List.getElem?_append_right (Nat.le_of_not_lt old)]
    rw [same]
    rw [List.length_append] at inside
    obtain ⟨first, second⟩ := regular (i - got.length) (by omega)
    exact ⟨fun here => first (by omega), fun here => second (by omega)⟩

theorem Closing.complete {n : Nat} {got : Bytes} (closing : Closing n got)
    (size : got.length = n + 2) : got = got.take n ++ crlf := by
  have tail : got.drop n = crlf := by
    rw [drop_of_at0 ((closing n (by omega)).1 rfl) (by decide),
      drop_of_at0 ((closing (n + 1) (by omega)).2 rfl) (by decide),
      List.drop_eq_nil_of_le (by omega)]
    rfl
  rw [← tail, List.take_append_drop]

/-- What has been parsed of a body: whole chunks, and of a chunk under way the size line and the
first bytes of its data and CRLF. -/
inductive Parsed (r : ReadSide) (consumed delivered : Bytes) : Prop where
  | line (cs : List Chunk) (equal : r.currentChunkLen = r.chunkBytesRead)
      (bytes : consumed = (cs.map Chunk.encode).flatten)
      (data : delivered = (cs.map Chunk.data).flatten)
  | chunk (cs : List Chunk) (t : SizeText) (got : Bytes) (positive : 0 < t.value)
      (int : t.value + 2 < 2147483648) (current : r.currentChunkLen = t.value + 2)
      (read : r.chunkBytesRead = got.length) (short : got.length < t.value + 2)
      (closing : Closing t.value got)
      (bytes : consumed = (cs.map Chunk.encode).flatten ++ (t.text ++ crlf ++ got))
      (data : delivered = (cs.map Chunk.data).flatten ++ got.take t.value)

/-- A chunk definition that goes on in a regular state. -/
theorem PassedLine.parsed {consumed delivered : Bytes} (passed : PassedLine r s)
    (equal : r.currentChunkLen = r.chunkBytesRead) (parsed : Parsed r consumed delivered) :
    ∃ line, r.unread = line ++ s.unread ∧
      ((Parsed s (consumed ++ line) delivered ∧ s.currentChunkLen ≠ s.chunkBytesRead) ∨
       (s.currentChunkLen = 0 ∧ ∃ k : Coding, consumed ++ line = k.encode ∧ delivered = k.body)) := by
  cases parsed with
  | chunk cs t got positive int current read short closing bytes data =>
      exfalso
      omega
  | line cs equal bytes data =>
      cases passed with
      | size t positive int split current read =>
          refine ⟨t.text ++ crlf, split, .inl ⟨?_, by omega⟩⟩
          refine .chunk cs t [] positive int current read (by simp) (by simp [Closing]) ?_ ?_
          · simp [bytes]
          · simp [data]
      | last l split current read =>
          exact ⟨l.encode, split, .inr ⟨current, ⟨cs, l⟩, by rw [bytes]; rfl, by rw [data]; rfl⟩⟩

variable {stream input before : Bytes} {len : Int}

theorem Parsed.reset {consumed delivered : Bytes} (parsed : Parsed r consumed delivered)
    (equal : r.currentChunkLen = r.chunkBytesRead) (equal' : s.currentChunkLen = s.chunkBytesRead) :
    Parsed s consumed delivered := by
  cases parsed with
  | chunk cs t got positive int current read short closing bytes data =>
      exfalso
      omega
  | line cs _ bytes data => exact .line cs equal' bytes data

theorem Parsed.congr {consumed delivered : Bytes} (parsed : Parsed r consumed delivered)
    (current : s.currentChunkLen = r.currentChunkLen) (read : s.chunkBytesRead = r.chunkBytesRead) :
    Parsed s consumed delivered := by
  cases parsed with
  | line cs equal bytes data => exact .line cs (by rw [current, read, equal]) bytes data
  | chunk cs t got positive int here size short closing bytes data =>
      exact .chunk cs t got positive int (current.trans here) (read.trans size) short closing bytes data

/-- Every call of the parser in the loop from here on is regular. -/
def Receiver.Regular (fuel : Nat) (s : Receiver) : Prop :=
  ∀ t, Visits (receiveStep fuel) s t → ∀ p, Visits parseStep ⟨.head, t.read, .null⟩ p → p.Regular

/-- What the loop answers: the end of a coding of what it delivered, an error, or a request for
more data. -/
inductive Receipt.Sound (stream : Bytes) (out : Receipt) : Prop where
  | eof (ret : out.ret = .eof) (k : Coding)
      (consumed : stream = k.encode ++ (out.read.unread ++ out.conn.input))
      (delivered : out.blocks.flatten = k.body)
  | error (ret : out.ret = .error)
  | needsMore (ret : out.ret = .needsMore)

def Receiver.weight (s : Receiver) : Nat :=
  s.read.unread.length + s.conn.input.length + s.reads.length

end IcapService
