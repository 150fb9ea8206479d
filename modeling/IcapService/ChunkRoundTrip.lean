import IcapService.Lib.Chunked
import IcapService.ChunkParser

/-! The chunk parser decodes the chunked coding.

A parser state awaits a stream when the bytes not yet parsed, received or not, are the rest of a
coding. Each half pass keeps that relation, whatever part of the stream has been received. -/

namespace IcapService

open CString CInt Machine Chunked

/-- The sizes plus two are `int`s, and the lines fit the read buffer. -/
structure Fits (k : Coding) : Prop where
  size : ∀ c ∈ k.chunks, c.data.length + 2 < 2147483648
  line : ∀ c ∈ k.chunks, c.text.length + 2 ≤ bufsize
  last : k.last.encode.length ≤ bufsize

theorem Fits.tail {c : Chunk} {cs : List Chunk} {last : LastChunk} (fits : Fits ⟨c :: cs, last⟩) :
    Fits ⟨cs, last⟩ :=
  ⟨fun d member => fits.size d (by simp [member]), fun d member => fits.line d (by simp [member]),
    fits.last⟩

/-! ### Size lines -/

/-- The size is read up to the byte that ends its line or starts the extension. -/
theorem strtol_sizeText (t : SizeText) (rest : Bytes)
    (stop : ∀ c ∈ rest.head?, isDigit 16 c = false ∧ c ≠ 120 ∧ c ≠ 88 ∧ isBlank c = false) :
    strtol 16 (t.text ++ rest) = (clampLong t.value, t.digits.length) ∧
      skipBlanks (t.text ++ rest) t.digits.length = t.text.length := by
  constructor
  · rw [SizeText.text, List.append_assoc]
    apply strtol_digits 16 t.digits (t.blanks ++ rest) (by decide) t.some t.hex
    intro c first
    cases blanks : t.blanks with
    | nil =>
        rw [blanks, List.nil_append] at first
        exact ⟨(stop c first).1, (stop c first).2.1, (stop c first).2.2.1⟩
    | cons b bs =>
        rw [blanks, List.cons_append, List.head?_cons] at first
        cases first
        have blank := t.blank c (by simp [blanks])
        refine ⟨?_, ?_, ?_⟩
        · simp only [isBlank, Bool.or_eq_true, beq_iff_eq] at blank
          rcases blank with rfl | rfl <;> decide
        · rintro rfl
          revert blank
          decide
        · rintro rfl
          revert blank
          decide
  · have scan : (t.blanks ++ rest).takeWhile isBlank = t.blanks :=
      takeWhile_append_stop isBlank t.blanks rest t.blank (fun c first => (stop c first).2.2.2)
    simp [skipBlanks, SizeText.text, List.append_assoc, scan]

theorem cr_stops : ∀ rest, ∀ c ∈ (crlf ++ rest).head?,
    isDigit 16 c = false ∧ c ≠ 120 ∧ c ≠ 88 ∧ isBlank c = false := by
  intro rest c first
  cases first
  decide

theorem extension_stops (e : Extension) (rest : Bytes) : ∀ c ∈ (e.text ++ crlf ++ rest).head?,
    isDigit 16 c = false ∧ c ≠ 120 ∧ c ≠ 88 ∧ isBlank c = false := by
  intro c first
  cases e with
  | none => exact cr_stops rest c (by simpa [Extension.text] using first)
  | ieof blanks blank =>
      have semicolon : c = 59 := by simpa [Extension.text, ascii] using first.symm
      subst semicolon
      decide
  | useOriginalBody blanks digits blank some decimal =>
      have semicolon : c = 59 := by simpa [Extension.text, ascii] using first.symm
      subst semicolon
      decide

variable {r : ReadSide} {input line tail : Bytes}

/-- Within a stream that starts with a line, the first CRLF is found once it has been received. -/
theorem strnstr_unread (placed : r.Placed) (stream : r.unread ++ input = line ++ crlf ++ tail)
    (plain : ∀ c ∈ line, c ≠ cr) :
    strnstr crlf r.block r.pstrblockReadLen.toNat =
      if line.length + 2 ≤ r.unread.length then some line.length else none := by
  have len := placed.unread_length
  have count : r.pstrblockReadLen.toNat = r.unread.length := by omega
  have same : r.block.take r.pstrblockReadLen.toNat =
      (line ++ crlf ++ tail).take r.pstrblockReadLen.toNat := by
    rw [← stream, count, List.take_left]
    exact count ▸ rfl
  rw [strnstr_congr crlf _ _ _ (by decide) same, strnstr_line line tail _ plain, count]

theorem at0_crlf (a b : Bytes) :
    at0 (a ++ (crlf ++ b)) a.length = cr ∧ at0 (a ++ (crlf ++ b)) (a.length + 1) = lf := by
  constructor
  · exact at0_append a (lf :: b) cr
  · have second := at0_append (a ++ [cr]) b lf
    rwa [List.length_append, List.append_assoc] at second

/-- A line that has been received stands at the head of the unread bytes. -/
theorem unread_of_line {head : Bytes} (stream : r.unread ++ input = head ++ tail)
    (received : head.length ≤ r.unread.length) :
    ∃ more, r.unread = head ++ more ∧ more ++ input = tail := by
  have front : head <+: r.unread :=
    List.prefix_of_prefix_length_le (stream ▸ List.prefix_append head tail)
      (List.prefix_append r.unread input) received
  obtain ⟨more, split⟩ := front
  refine ⟨more, split.symm, ?_⟩
  rw [← split, List.append_assoc] at stream
  exact List.append_cancel_left stream

/-- A chunk definition in the stream: more data is needed until its CRLF has been received, then
the pointer stands at the data. -/
theorem readChunkDef_chunk (c : Chunk) (placed : r.Placed)
    (stream : r.unread ++ input = c.text ++ crlf ++ tail)
    (size : c.data.length + 2 < 2147483648) (fits : c.text.length + 2 ≤ bufsize) :
    (r.unread.length < c.text.length + 2 ∧ readChunkDef r = .done (.needsMore, r)) ∨
    (c.text.length + 2 ≤ r.unread.length ∧ ∃ count, readChunkDef r = .next (ReadSide.advance
      { r with currentChunkLen := c.data.length + 2, chunkBytesRead := 0, requestBytesIn := count }
      ((c.text.length + 2 : Nat) : Int))) := by
  have found := strnstr_unread placed stream c.text_ne_cr
  have len := placed.unread_length
  by_cases received : c.text.length + 2 ≤ r.unread.length
  · right
    refine ⟨received, r.requestBytesIn + (c.text.length + 2), ?_⟩
    rw [if_pos received] at found
    obtain ⟨more, unread, -⟩ := unread_of_line stream (by simpa [crlf] using received)
    obtain ⟨stale, block⟩ := r.block_eq
    rw [unread, List.append_assoc, List.append_assoc] at block
    obtain ⟨number, blanks⟩ := strtol_sizeText c.toSizeText _ (cr_stops (more ++ stale))
    rw [← block] at number blanks
    have value : wrap32 (clampLong c.value) = c.data.length := by
      rw [c.size, clampLong_of_le _ (by simp only [longMax]; omega)]
      exact wrap32_of_range _ (by omega) (by omega)
    have positive := List.length_pos_iff.mpr c.nonempty
    have closed : ¬ (at0 r.block c.text.length ≠ cr ∨ at0 r.block (c.text.length + 1) ≠ lf) := by
      rw [block, (at0_crlf c.text _).1, (at0_crlf c.text _).2]
      simp
    have word : u32 (c.data.length : Int) = c.data.length := by
      have range := u32_of_range (c.data.length : Int) (by omega) (by omega)
      omega
    have word' : u32 ((c.data.length : Int) + 2) = c.data.length + 2 := by
      have range := u32_of_range ((c.data.length : Int) + 2) (by omega) (by omega)
      omega
    simp only [readChunkDef, found, number, blanks, value]
    rw [if_neg (by omega), if_neg (by simp only [word]; omega)]
    simp only [word, word', closeChunkDef]
    exact if_neg closed
  · left
    refine ⟨by omega, ?_⟩
    rw [if_neg received] at found
    simp only [readChunkDef, found]
    rw [if_neg (by omega)]

theorem skipBlanks_append (front blanks rest : Bytes) (blank : ∀ c ∈ blanks, isBlank c)
    (stop : ∀ c ∈ rest.head?, isBlank c = false) :
    skipBlanks (front ++ (blanks ++ rest)) front.length = front.length + blanks.length := by
  simp [skipBlanks, takeWhile_append_stop isBlank blanks rest blank stop]

theorem ieof_plain : ∀ c ∈ ieof, c ≠ cr := by
  have plain : ∀ c ∈ ieof, (c != cr) = true := List.all_eq_true.mp (by decide)
  exact fun c member => bne_iff_ne.mp (plain c member)

theorem takeWhile_cr (word rest : Bytes) (plain : ∀ c ∈ word, c ≠ cr) :
    (word ++ (crlf ++ rest)).takeWhile (· != cr) = word :=
  takeWhile_append_stop _ word _ (fun c member => by simpa using plain c member)
    (fun c first => by cases first; decide)

/-- The extension of a last chunk is read up to its carriage return. -/
theorem readExtension_spec (e : Extension) (front more : Bytes) (present : e ≠ .none)
    (block : r.block = front ++ (e.text ++ (crlf ++ more)))
    (room : (front.length + e.text.length : Int) ≤ r.pstrblockReadLen) :
    ∃ offset, readExtension r (front.length + 1) = .next
      ({ r with eofReceived := true, i206UseOriginalBody := offset }, front.length + e.text.length) := by
  -- behind the semicolon and its blanks stands the keyword
  have scan (blanks word rest : Bytes) (blank : ∀ c ∈ blanks, isBlank c)
      (stop : ∀ c ∈ (word ++ rest).head?, isBlank c = false)
      (split : r.block = front ++ (ascii ";" ++ (blanks ++ (word ++ rest)))) :
      skipBlanks r.block (front.length + 1) = front.length + 1 + blanks.length ∧
        r.block.drop (front.length + 1 + blanks.length) = word ++ rest := by
    rw [← List.append_assoc] at split
    constructor
    · have skipped := skipBlanks_append (front ++ ascii ";") blanks _ blank stop
      rwa [← split, List.length_append] at skipped
    · rw [split, ← List.append_assoc]
      exact List.drop_left' (by simp [ascii]; omega)
  cases e with
  | none => exact absurd rfl present
  | ieof blanks blank =>
      obtain ⟨stop, rest⟩ := scan blanks ieof (crlf ++ more) blank
        (fun c first => by cases first; decide) (by rw [block]; simp [Extension.text, ieof])
      refine ⟨r.i206UseOriginalBody, ?_⟩
      simp only [readExtension, stop, rest]
      rw [if_neg (fun known => by simp [useOriginalBody, ieof, ascii] at known),
        if_neg (fun unknown => by simp [ieof, ascii] at unknown)]
      rw [takeWhile_cr ieof more ieof_plain]
      simp [Extension.text, ieof, ascii]
      omega
  | useOriginalBody blanks digits blank some decimal =>
      obtain ⟨stop, rest⟩ := scan blanks useOriginalBody (digits ++ (crlf ++ more)) blank
        (fun c first => by cases first; decide)
        (by rw [block]; simp [Extension.text, useOriginalBody])
      have keyword : useOriginalBody.length = 18 := by decide
      have behind : r.block.drop (front.length + 1 + blanks.length + 18) = digits ++ (crlf ++ more) := by
        rw [← List.drop_drop, rest]
        exact List.drop_left' keyword
      have value : strtol 10 (digits ++ (crlf ++ more)) = (clampLong (number 10 digits), digits.length) :=
        strtol_digits 10 digits _ (by decide) some decimal (fun c first => by cases first; decide)
      have last : r.block.drop (front.length + 1 + blanks.length + 18 + digits.length) = crlf ++ more := by
        rw [← List.drop_drop, behind]
        exact List.drop_left' rfl
      have long : (18 : Int) ≤ r.pstrblockReadLen - (front.length + 1 + blanks.length : Nat) := by
        simp [Extension.text, ascii] at room
        omega
      refine ⟨clampLong (number 10 digits), ?_⟩
      simp only [readExtension, stop, rest, behind, value, last]
      rw [if_pos ⟨long, List.isPrefixOf_iff_prefix.mpr (List.prefix_append _ _)⟩]
      simp [Extension.text, ascii, crlf]
      omega

/-- Whether a last chunk carries an extension, which the parser takes as the end of the body. -/
def Chunked.LastChunk.final (l : LastChunk) : Bool :=
  match l.extension with
  | .none => false
  | _ => true

/-- The rest of a last chunk that has been received as a whole. -/
theorem readZeroChunk_last (l : LastChunk) (more : Bytes)
    (block : r.block = l.line ++ (crlf ++ (crlf ++ more)))
    (room : (l.line.length + 4 : Int) ≤ r.pstrblockReadLen) :
    ∃ offset count, readZeroChunk r (l.line.length + 2) l.text.length = .next
      ({ r with eofReceived := r.eofReceived || l.final, i206UseOriginalBody := offset,
                requestBytesIn := count }, l.line.length + 4, l.line.length) := by
  have second := at0_crlf (l.line ++ crlf) more
  rw [List.append_assoc, ← block, List.length_append] at second
  have enough : ¬ (r.pstrblockReadLen - (l.line.length + 2 : Nat) < 2) := by omega
  have closed : ¬ (at0 r.block (l.line.length + 2) ≠ cr ∧ at0 r.block (l.line.length + 2 + 1) ≠ lf) :=
    fun open_ => open_.1 second.1
  simp only [readZeroChunk]
  rw [if_neg enough, if_neg closed]
  have split : r.block = l.text ++ (l.extension.text ++ (crlf ++ (crlf ++ more))) := by
    rw [block]
    simp [LastChunk.line]
  by_cases present : l.extension = .none
  · have plain : l.line = l.text := by simp [LastChunk.line, present, Extension.text]
    have first : at0 r.block l.text.length = cr := by
      rw [block, plain]
      exact (at0_crlf l.text _).1
    rw [if_neg (by rw [first]; decide)]
    exact ⟨r.i206UseOriginalBody, r.requestBytesIn + 2, by simp [LastChunk.final, present, plain]⟩
  · have semicolon : at0 r.block l.text.length = 59 := by
      cases extension : l.extension with
      | none => exact absurd extension present
      | ieof blanks blank =>
          rw [split, extension]
          exact at0_append l.text _ 59
      | useOriginalBody blanks digits blank some decimal =>
          rw [split, extension]
          exact at0_append l.text _ 59
    have final : l.final = true := by
      cases extension : l.extension <;> simp_all [LastChunk.final]
    have length : l.line.length = l.text.length + l.extension.text.length := by simp [LastChunk.line]
    obtain ⟨offset, read⟩ := readExtension_spec (r := { r with requestBytesIn := r.requestBytesIn + 2 })
      l.extension l.text (crlf ++ more) present split (by simp only; omega)
    rw [if_pos semicolon, read]
    exact ⟨offset, r.requestBytesIn + 2, by simp [final, length]⟩

/-- The last chunk in the stream: more data is needed until its second CRLF has been received,
then the pointer stands behind it. -/
theorem readChunkDef_last (l : LastChunk) (placed : r.Placed)
    (stream : r.unread ++ input = l.encode ++ tail) (fits : l.encode.length ≤ bufsize) :
    (r.unread.length < l.encode.length ∧ ∃ current read count, readChunkDef r = .done (.needsMore,
      { r with currentChunkLen := current, chunkBytesRead := read, requestBytesIn := count }) ∧
      (current = 0 ∧ read = 0 ∨ current = r.currentChunkLen ∧ read = r.chunkBytesRead)) ∨
    (l.encode.length ≤ r.unread.length ∧ ∃ offset count, readChunkDef r = .next (ReadSide.advance
      { r with currentChunkLen := 0, chunkBytesRead := 0, eofReceived := r.eofReceived || l.final,
               i206UseOriginalBody := offset, requestBytesIn := count } l.encode.length)) := by
  have total : l.encode.length = l.line.length + 4 := by simp [LastChunk.encode, crlf]
  have stream' : r.unread ++ input = l.line ++ crlf ++ (crlf ++ tail) := by
    rw [stream]
    simp [LastChunk.encode]
  have found := strnstr_unread placed stream' l.line_ne_cr
  have len := placed.unread_length
  by_cases received : l.line.length + 2 ≤ r.unread.length
  · rw [if_pos received] at found
    obtain ⟨more, unread, -⟩ := unread_of_line stream' (by simpa [crlf] using received)
    obtain ⟨stale, block⟩ := r.block_eq
    rw [unread, List.append_assoc, List.append_assoc] at block
    have split : r.block = l.text ++ (l.extension.text ++ crlf ++ (more ++ stale)) := by
      rw [block]
      simp [LastChunk.line]
    obtain ⟨number, blanks⟩ := strtol_sizeText l.toSizeText _ (extension_stops l.extension (more ++ stale))
    rw [← split, l.zero] at number
    rw [← split] at blanks
    have digits := List.length_pos_iff.mpr l.some
    have size : wrap32 (clampLong (0 : Nat)) = 0 := by decide
    have word : u32 0 = 0 := by decide
    by_cases whole : l.line.length + 4 ≤ r.unread.length
    · right
      refine ⟨by omega, ?_⟩
      obtain ⟨more, unread, -⟩ := unread_of_line stream (by omega)
      obtain ⟨stale, block⟩ := r.block_eq
      have split : r.block = l.line ++ (crlf ++ (crlf ++ (more ++ stale))) := by
        rw [block, unread]
        simp [LastChunk.encode]
      obtain ⟨offset, count, zero⟩ := readZeroChunk_last (r := { r with
        requestBytesIn := r.requestBytesIn + (l.line.length + 2), currentChunkLen := 0,
        chunkBytesRead := 0 }) l (more ++ stale) split (by simp only; omega)
      refine ⟨offset, count, ?_⟩
      have closed : ¬ (at0 r.block l.line.length ≠ cr ∨ at0 r.block (l.line.length + 1) ≠ lf) := by
        rw [split, (at0_crlf l.line _).1, (at0_crlf l.line _).2]
        simp
      simp only [readChunkDef, found, number, blanks, size]
      rw [if_neg (by omega), if_pos word, word, zero]
      simp only [closeChunkDef, total]
      exact if_neg closed
    · left
      refine ⟨by omega, 0, 0, r.requestBytesIn + (l.line.length + 2), ?_, .inl ⟨rfl, rfl⟩⟩
      simp only [readChunkDef, found, number, blanks, size]
      rw [if_neg (by omega), if_pos word, word]
      simp only [readZeroChunk]
      rw [if_pos (by omega)]
  · left
    refine ⟨by omega, r.currentChunkLen, r.chunkBytesRead, r.requestBytesIn, ?_, .inr ⟨rfl, rfl⟩⟩
    rw [if_neg received] at found
    simp only [readChunkDef, found]
    rw [if_neg (by omega)]

/-! ### Parser states of a coding -/

/-- The bytes not yet parsed, received or not: `data` is the rest of the current chunk, `close`
what is left of the CRLF behind it, then the chunks of `k` and `rest`. -/
structure Awaits (r : ReadSide) (input rest data close : Bytes) (k : Coding) : Prop where
  placed : r.Placed
  stream : r.unread ++ input = data ++ close ++ (k.encode ++ rest)
  owed : r.currentChunkLen = r.chunkBytesRead + (data.length + close.length)
  int : r.currentChunkLen < 2147483648
  closing : close = crlf ∨ data = [] ∧ (close = [lf] ∨ close = [])
  fits : Fits k

/-- The zero chunk has been read. -/
structure Finished (r : ReadSide) (input rest : Bytes) : Prop where
  placed : r.Placed
  stream : r.unread ++ input = rest
  current : r.currentChunkLen = 0
  read : r.chunkBytesRead = 0

variable {rest data close : Bytes} {k : Coding}

theorem Awaits.close_length (awaits : Awaits r input rest data close k) :
    close.length = 2 ∨ data.length = 0 ∧ close.length ≤ 1 := by
  rcases awaits.closing with rfl | ⟨rfl, rfl | rfl⟩
  · simp [crlf]
  · simp
  · simp

/-- Something of the coding has not been received while the parser awaits it. -/
theorem Awaits.missing (awaits : Awaits r input rest data close k)
    (short : r.unread.length < (data ++ close ++ k.encode).length) : rest.length < input.length := by
  have total := congrArg List.length awaits.stream
  simp only [List.length_append] at total short
  omega

/-- The data part passes over what has been received of the `data` bytes owed and the `close` bytes
of the CRLF behind them, and leaves the former to the caller. -/
theorem readChunkData_eq (placed : r.Placed) (data close m : Nat)
    (owed : r.currentChunkLen = r.chunkBytesRead + (data + close))
    (int : r.currentChunkLen < 2147483648) (lengths : close = 2 ∨ data = 0 ∧ close ≤ 1)
    (some : 0 < r.pstrblockReadLen) (moved : m = min (data + close) r.unread.length) (owes : 0 < m) :
    readChunkData r =
      { r.advance m with
        writeToModulePending := min m data
        httpBytesIn := r.httpBytesIn + min m data
        bodyBytesIn := r.bodyBytesIn + min m data
        requestBytesIn := r.requestBytesIn + m
        chunkBytesRead := r.chunkBytesRead + m } := by
  have len := placed.unread_length
  have remains : r.owed = (data + close : Nat) := by
    rw [ReadSide.owed, owed]
    rw [wrap32_of_range _ (by omega) (by omega)]
    omega
  have word : u32 (r.chunkBytesRead + (m : Int)) = r.chunkBytesRead + m := by
    have range := u32_of_range (r.chunkBytesRead + m : Int) (by omega) (by omega)
    omega
  by_cases all : data + close ≤ r.unread.length
  · have equal : m = data + close := by omega
    have pending : (if 2 < ((data + close : Nat) : Int) then
        (((data + close : Nat) : Int) - 2).toNat else 0) = min m data := by
      split <;> omega
    have count : ((r.requestBytesIn : Int) + m).toNat = r.requestBytesIn + m := by omega
    simp only [readChunkData, remains]
    rw [if_pos (by omega), pending, ← equal, word, count]
  · have equal : m = r.unread.length := by omega
    have pending : (if ((data + close : Nat) : Int) - r.pstrblockReadLen < 2 then
        (r.pstrblockReadLen - (((data + close : Nat) : Int) - r.pstrblockReadLen)).toNat
        else r.pstrblockReadLen.toNat) = min m data := by
      split <;> omega
    simp only [readChunkData, remains]
    rw [if_neg (by omega), pending, ← len, ← equal, word, Int.toNat_natCast]

theorem Awaits.data_pass (awaits : Awaits r input rest data close k)
    (some : 0 < r.pstrblockReadLen) (m : Nat)
    (moved : m = min (data.length + close.length) r.unread.length) (owes : 0 < m) :
    Awaits (readChunkData r) input rest (data.drop m) (close.drop (m - data.length)) k ∧
      (readChunkData r).eofReceived = r.eofReceived ∧
      (readChunkData r).deref r.pstrblockRead = r.block ∧
      (readChunkData r).writeToModulePending = min m data.length ∧
      data.take m = r.unread.take (min m data.length) ∧
      (readChunkData r).pstrblockReadLen = r.pstrblockReadLen - m := by
  have lengths := awaits.close_length
  rw [readChunkData_eq awaits.placed data.length close.length m awaits.owed awaits.int lengths some moved
    owes]
  have len := awaits.placed.unread_length
  obtain ⟨placed, unread⟩ := awaits.placed.advance m (by omega)
  refine ⟨⟨⟨placed.pointer, placed.nonneg, placed.room⟩, ?_, ?_, awaits.int, ?_, awaits.fits⟩, rfl,
    rfl, rfl, ?_, rfl⟩
  · calc (r.advance m).unread ++ input = (r.unread ++ input).drop m := by
          rw [unread, List.drop_append_of_le_length (by omega)]
      _ = (data ++ close).drop m ++ (k.encode ++ rest) := by
          rw [awaits.stream, List.drop_append_of_le_length (by rw [List.length_append]; omega)]
      _ = data.drop m ++ close.drop (m - data.length) ++ (k.encode ++ rest) := by
          rw [List.drop_append]
  · have owed := awaits.owed
    simp only [List.length_drop, ReadSide.advance_currentChunkLen]
    omega
  · rcases awaits.closing with rfl | ⟨rfl, tail⟩
    · by_cases inside : m ≤ data.length
      · left
        rw [Nat.sub_eq_zero_of_le inside, List.drop_zero]
      · right
        have amount : m - data.length = 1 ∨ m - data.length = 2 := by
          simp only [crlf, List.length_cons, List.length_nil] at moved
          omega
        refine ⟨List.drop_eq_nil_of_le (by omega), ?_⟩
        rcases amount with one | two
        · exact .inl (by rw [one]; rfl)
        · exact .inr (by rw [two]; rfl)
    · have short : close.length ≤ 1 := by rcases tail with rfl | rfl <;> simp
      exact .inr ⟨List.drop_nil, .inr (List.drop_eq_nil_of_le (by simp; omega))⟩
  · calc data.take m = data.take (min m data.length) := (List.take_eq_take_min).trans (by rw [Nat.min_comm])
      _ = (r.unread ++ input).take (min m data.length) := by
          rw [awaits.stream, List.append_assoc, List.take_append_of_le_length (by omega)]
      _ = r.unread.take (min m data.length) := List.take_append_of_le_length (by omega)

/-- The stream from the read pointer on carries `body` and ends with the chunk `last`. -/
def Awaiting (r : ReadSide) (input rest : Bytes) (last : LastChunk) (eof : Bool) (body : Bytes) :
    Prop :=
  ∃ data close k, Awaits r input rest data close k ∧ k.last = last ∧ r.eofReceived = eof ∧
    body = data ++ k.body

variable {last : LastChunk} {eof : Bool} {body : Bytes}

/-- The buffers and the data to be taken are the same, and no more bytes are unread. -/
structure SameData (s r : ReadSide) : Prop where
  shorter : s.pstrblockReadLen ≤ r.pstrblockReadLen
  rbuf : s.rbuf = r.rbuf
  headBuf : s.headBuf = r.headBuf
  pending : s.writeToModulePending = r.writeToModulePending

theorem SameData.deref {s r : ReadSide} (same : SameData s r) (p : Ptr) : s.deref p = r.deref p := by
  cases p with
  | null => rfl
  | rbuf o => simp only [ReadSide.deref, ReadSide.region, same.rbuf]
  | head o => simp only [ReadSide.deref, ReadSide.region, same.headBuf]

/-- The parser of a body waits for more: not all of it has been received, and there is room. -/
structure Starved (r : ReadSide) (input rest : Bytes) : Prop where
  missing : rest.length < input.length
  room : r.unread.length < bufsize

theorem Awaits.at_line {r : ReadSide} (awaits : Awaits r input rest data close k)
    (equal : r.currentChunkLen = r.chunkBytesRead) : data = [] ∧ close = [] := by
  have owed := awaits.owed
  exact ⟨List.length_eq_zero_iff.mp (by omega), List.length_eq_zero_iff.mp (by omega)⟩

/-- At the last chunk: it is incomplete, or the parser has finished. -/
theorem readChunkDef_awaits_last (awaits : Awaits r input rest [] [] ⟨[], last⟩) :
    (∃ s, readChunkDef r = .done (.needsMore, s) ∧ Awaits s input rest [] [] ⟨[], last⟩ ∧
      Starved s input rest ∧ SameData s r ∧ s.eofReceived = r.eofReceived) ∨
    (∃ s, readChunkDef r = .next s ∧ Finished s input rest ∧ SameData s r ∧
      s.eofReceived = (r.eofReceived || last.final) ∧ s.pstrblockReadLen < r.pstrblockReadLen) := by
  have code : Coding.encode ⟨[], last⟩ = last.encode := by simp [Coding.encode]
  have stream : r.unread ++ input = last.encode ++ rest := by
    rw [awaits.stream, code]
    simp
  have owed := awaits.owed
  have int := awaits.int
  rcases readChunkDef_last last awaits.placed stream awaits.fits.last with
    ⟨short, current, read, count, stopped, unchanged⟩ | ⟨received, offset, count, passed⟩
  · left
    refine ⟨_, stopped, ⟨⟨awaits.placed.pointer, awaits.placed.nonneg, awaits.placed.room⟩,
      awaits.stream, ?_, ?_, awaits.closing, awaits.fits⟩, ⟨?_, ?_⟩, ⟨Int.le_refl _, rfl, rfl, rfl⟩, rfl⟩
    · rcases unchanged with ⟨rfl, rfl⟩ | ⟨rfl, rfl⟩
      · rfl
      · exact owed
    · rcases unchanged with ⟨rfl, rfl⟩ | ⟨rfl, rfl⟩
      · exact Nat.zero_lt_of_lt int
      · exact int
    · exact awaits.missing (by simpa [code] using short)
    · exact Nat.lt_of_lt_of_le short awaits.fits.last
  · right
    obtain ⟨placed, unread⟩ := awaits.placed.advance last.encode.length received
    obtain ⟨more, split, onward⟩ := unread_of_line stream received
    have size : 0 < last.encode.length := by simp [LastChunk.encode, crlf]
    refine ⟨_, passed, ⟨⟨placed.pointer, placed.nonneg, placed.room⟩, ?_, rfl, rfl⟩,
      ⟨?_, rfl, rfl, rfl⟩, rfl, ?_⟩
    · change (r.advance last.encode.length).unread ++ input = rest
      rw [unread, split, List.drop_left, onward]
    · simp only [ReadSide.advance_pstrblockReadLen]
      omega
    · simp only [ReadSide.advance_pstrblockReadLen]
      omega

/-- At the line of a chunk: it is incomplete, or the parser awaits the data of the chunk. -/
theorem readChunkDef_awaits_chunk {c : Chunk} {cs : List Chunk}
    (awaits : Awaits r input rest [] [] ⟨c :: cs, last⟩) :
    (readChunkDef r = .done (.needsMore, r) ∧ Starved r input rest) ∨
    (∃ s, readChunkDef r = .next s ∧ Awaits s input rest c.data crlf ⟨cs, last⟩ ∧ SameData s r ∧
      s.eofReceived = r.eofReceived ∧ s.pstrblockReadLen < r.pstrblockReadLen) := by
  have code := Coding.encode_cons c cs last
  have stream : r.unread ++ input =
      c.text ++ crlf ++ (c.data ++ crlf ++ (Coding.encode ⟨cs, last⟩ ++ rest)) := by
    rw [awaits.stream, code]
    simp
  have size := awaits.fits.size c (by simp)
  have fits := awaits.fits.line c (by simp)
  rcases readChunkDef_chunk c awaits.placed stream size fits with ⟨short, stopped⟩ | ⟨received, count, passed⟩
  · left
    refine ⟨stopped, awaits.missing ?_, Nat.lt_of_lt_of_le short fits⟩
    rw [code]
    simp [crlf]
    omega
  · right
    obtain ⟨placed, unread⟩ := awaits.placed.advance (c.text.length + 2) received
    obtain ⟨more, split, onward⟩ := unread_of_line stream (by simpa [crlf] using received)
    refine ⟨_, passed, ⟨⟨placed.pointer, placed.nonneg, placed.room⟩, ?_, ?_, size, .inl rfl,
      awaits.fits.tail⟩, ⟨?_, rfl, rfl, rfl⟩, rfl, ?_⟩
    · change (r.advance (c.text.length + 2 : Nat)).unread ++ input = _
      rw [unread, split, List.drop_left' (by simp [crlf]), onward]
    · simp [crlf]
    · simp only [ReadSide.advance_pstrblockReadLen]
      omega
    · simp only [ReadSide.advance_pstrblockReadLen]
      omega

/-- The chunk definition of a body: more is needed, or the parser awaits data or has finished. -/
theorem readChunkDef_awaiting (awaiting : Awaiting r input rest last eof body)
    (equal : r.currentChunkLen = r.chunkBytesRead) :
    (∃ s, readChunkDef r = .done (.needsMore, s) ∧ SameData s r ∧
      Awaiting s input rest last eof body ∧ Starved s input rest) ∨
    (∃ s, readChunkDef r = .next s ∧ SameData s r ∧ s.pstrblockReadLen < r.pstrblockReadLen ∧
      ((Awaiting s input rest last eof body ∧ s.currentChunkLen ≠ s.chunkBytesRead) ∨
       (body = [] ∧ Finished s input rest ∧ s.eofReceived = (eof || last.final)))) := by
  obtain ⟨data, close, ⟨chunks, last⟩, awaits, rfl, rfl, rfl⟩ := awaiting
  obtain ⟨rfl, rfl⟩ := awaits.at_line equal
  cases chunks with
  | nil =>
      rcases readChunkDef_awaits_last awaits with
        ⟨s, stopped, awaits, starved, same, eof⟩ | ⟨s, passed, finished, same, eof, less⟩
      · exact .inl ⟨s, stopped, same, ⟨[], [], _, awaits, rfl, eof, rfl⟩, starved⟩
      · exact .inr ⟨s, passed, same, less, .inr ⟨rfl, finished, eof⟩⟩
  | cons c cs =>
      rcases readChunkDef_awaits_chunk awaits with
        ⟨stopped, starved⟩ | ⟨s, passed, onward, same, eof, less⟩
      · exact .inl ⟨r, stopped, ⟨Int.le_refl _, rfl, rfl, rfl⟩, ⟨[], [], _, awaits, rfl, rfl, rfl⟩, starved⟩
      · have owed := onward.owed
        have two : crlf.length = 2 := rfl
        exact .inr ⟨s, passed, same, less, .inl ⟨⟨c.data, crlf, _, onward, rfl, eof,
          by simp [Coding.body_cons]⟩, by omega⟩⟩

/-- The data of a body: a part of it is cut off for the caller. -/
theorem readChunkData_awaiting (awaiting : Awaiting r input rest last eof body)
    (some : 0 < r.pstrblockReadLen) (owes : r.currentChunkLen ≠ r.chunkBytesRead) :
    ∃ block left, body = block ++ left ∧ Awaiting (readChunkData r) input rest last eof left ∧
      ((readChunkData r).deref r.pstrblockRead).take (readChunkData r).writeToModulePending = block ∧
      block.length = (readChunkData r).writeToModulePending ∧
      (readChunkData r).pstrblockReadLen < r.pstrblockReadLen ∧
      (readChunkData r).pstrblockReadLen + (readChunkData r).writeToModulePending ≤ r.pstrblockReadLen := by
  obtain ⟨data, close, k, awaits, rfl, rfl, rfl⟩ := awaiting
  have owed := awaits.owed
  have len := awaits.placed.unread_length
  obtain ⟨onward, eof, block, pending, front, moved⟩ :=
    awaits.data_pass some (min (data.length + close.length) r.unread.length) rfl (by omega)
  refine ⟨data.take (min (data.length + close.length) r.unread.length),
    data.drop (min (data.length + close.length) r.unread.length) ++ k.body, ?_,
    ⟨_, _, k, onward, rfl, eof, rfl⟩, ?_, ?_, by omega, by omega⟩
  · rw [← List.append_assoc, List.take_append_drop]
  · obtain ⟨stale, split⟩ := r.block_eq
    rw [block, pending, front, split]
    exact List.take_append_of_le_length (by omega)
  · rw [pending, List.length_take]

/-! ### A call of the parser -/

/-- The bytes a state of the loop has cut off for the caller. -/
def ParseState.block (p : ParseState) : Bytes :=
  (p.read.deref p.wdata).take p.read.writeToModulePending

/-- Where a half pass stands in the coding of `body`. -/
structure ParseInv (input rest : Bytes) (last : LastChunk) (eof : Bool) (body : Bytes) (len : Int)
    (p : ParseState) : Prop where
  shorter : p.read.pstrblockReadLen + p.read.writeToModulePending ≤ len
  pointer : 0 ≤ p.wdata.offset
  whole : p.block.length = p.read.writeToModulePending
  ahead : (∃ left, body = p.block ++ left ∧ Awaiting p.read input rest last eof left ∧
      (p.point = .data → p.read.currentChunkLen ≠ p.read.chunkBytesRead)) ∨
    (p.point = .data ∧ body = p.block ∧ Finished p.read input rest ∧
      p.read.eofReceived = (eof || last.final))

/-- What a call returns: the end of the body with the last of its data, or data and a state that
awaits the rest. -/
structure ParsePost (input rest : Bytes) (last : LastChunk) (eof : Bool) (body : Bytes) (len : Int)
    (out : ParseOut) : Prop where
  shorter : out.read.pstrblockReadLen + out.read.writeToModulePending ≤ len
  pointer : 0 ≤ out.wdata.offset
  whole : out.data.length = out.read.writeToModulePending
  ahead : (out.ret = .eof ∧ body = out.data ∧ Finished out.read input rest ∧
      out.read.eofReceived = (eof || last.final)) ∨
    (∃ left, body = out.data ++ left ∧ Awaiting out.read input rest last eof left ∧
      (out.ret = .ok ∧ out.data ≠ [] ∨ out.ret = .needsMore ∧ Starved out.read input rest))

theorem SameData.block {s r : ReadSide} (same : SameData s r) (point point' : ParsePoint) (w : Ptr) :
    ParseState.block ⟨point, s, w⟩ = ParseState.block ⟨point', r, w⟩ := by
  simp only [ParseState.block, same.deref, same.pending]

theorem parseStep_head (r : ReadSide) (w : Ptr) (len : Int)
    (holds : ParseInv input rest last eof body len ⟨.head, r, w⟩) :
    (∃ q, parseStep ⟨.head, r, w⟩ = .next q ∧ ParseInv input rest last eof body len q ∧
      q.weight < ParseState.weight ⟨.head, r, w⟩) ∨
    ∃ out, parseStep ⟨.head, r, w⟩ = .done out ∧ ParsePost input rest last eof body len out := by
  obtain ⟨shorter, pointer, whole, ⟨left, rfl, awaiting, -⟩ | ⟨point, -⟩⟩ := holds
  swap
  · cases point
  replace shorter : r.pstrblockReadLen + r.writeToModulePending ≤ len := shorter
  replace awaiting : Awaiting r input rest last eof left := awaiting
  have shortened : ∀ s, SameData s r → s.pstrblockReadLen + s.writeToModulePending ≤ len := by
    intro s same
    rw [same.pending]
    have less := same.shorter
    omega
  by_cases equal : r.currentChunkLen = r.chunkBytesRead
  · rcases readChunkDef_awaiting awaiting equal with
      ⟨s, stopped, same, awaiting, starved⟩ | ⟨s, passed, same, less, ahead⟩
    · right
      refine ⟨⟨.needsMore, s, w⟩, by simp only [parseStep, if_pos equal, stopped],
        shortened s same, pointer, ?_, ?_⟩
      · exact (congrArg List.length (same.block .head .head w)).trans (whole.trans same.pending.symm)
      · exact .inr ⟨left, by rw [← same.block .head .head w]; rfl, awaiting, .inr ⟨rfl, starved⟩⟩
    · left
      refine ⟨⟨.data, s, w⟩, by simp only [parseStep, if_pos equal, passed],
        ⟨shortened s same, pointer, ?_, ?_⟩, ?_⟩
      · rw [same.block .data .head w]
        exact whole.trans same.pending.symm
      · rw [same.block .data .head w]
        rcases ahead with ⟨awaiting, differ⟩ | ⟨rfl, finished, eof⟩
        · exact .inl ⟨left, rfl, awaiting, fun _ => differ⟩
        · exact .inr ⟨rfl, by simp, finished, eof⟩
      · simp [ParseState.weight]
        omega
  · left
    refine ⟨⟨.data, r, w⟩, by simp only [parseStep, if_neg equal], ⟨shorter, pointer, whole, ?_⟩,
      by simp [ParseState.weight]⟩
    exact .inl ⟨left, rfl, awaiting, fun _ => equal⟩

theorem parseStep_data (r : ReadSide) (w : Ptr) (len : Int)
    (holds : ParseInv input rest last eof body len ⟨.data, r, w⟩) :
    (∃ q, parseStep ⟨.data, r, w⟩ = .next q ∧ ParseInv input rest last eof body len q ∧
      q.weight < ParseState.weight ⟨.data, r, w⟩) ∨
    ∃ out, parseStep ⟨.data, r, w⟩ = .done out ∧ ParsePost input rest last eof body len out := by
  obtain ⟨shorter, pointer, whole, ⟨left, rfl, awaiting, owes⟩ | ⟨-, rfl, finished, eof⟩⟩ := holds
  · replace shorter : r.pstrblockReadLen + r.writeToModulePending ≤ len := shorter
    replace awaiting : Awaiting r input rest last eof left := awaiting
    replace owes : r.currentChunkLen ≠ r.chunkBytesRead := owes rfl
    obtain ⟨data, close, k, awaits, -⟩ := id awaiting
    have owed := awaits.owed
    have count := awaits.placed.unread_length
    have nonzero : r.currentChunkLen ≠ 0 := by omega
    by_cases busy : r.writeToModulePending ≠ 0
    · right
      refine ⟨⟨.ok, r, w⟩, by simp only [parseStep, if_neg nonzero, if_pos busy], shorter, pointer, whole, ?_⟩
      refine .inr ⟨left, rfl, awaiting, .inl ⟨rfl, ?_⟩⟩
      intro empty
      have zero : (ParseState.block ⟨.data, r, w⟩).length = 0 := congrArg List.length empty
      exact busy (whole.symm.trans zero)
    · by_cases none : r.pstrblockReadLen ≤ 0
      · right
        refine ⟨⟨.needsMore, r, w⟩, by simp only [parseStep, if_neg nonzero, if_neg busy, if_pos none],
          shorter, pointer, whole, .inr ⟨left, rfl, awaiting, .inr ⟨rfl, ?_, ?_⟩⟩⟩
        · apply awaits.missing
          simp only [List.length_append]
          omega
        · have room : (0 : Nat) < bufsize := by decide
          change r.unread.length < bufsize
          omega
      · obtain ⟨block, left', rfl, onward, taken, size, less, cut⟩ :=
          readChunkData_awaiting awaiting (by omega) owes
        have idle : ParseState.block ⟨.data, r, w⟩ = [] := by
          simp only [ne_eq, not_not] at busy
          simp [ParseState.block, busy]
        have shorter' : (readChunkData r).pstrblockReadLen + (readChunkData r).writeToModulePending ≤ len := by
          omega
        rw [idle, List.nil_append]
        by_cases empty : (readChunkData r).pstrblockReadLen = 0
        · right
          obtain ⟨data', close', k', awaits', -⟩ := id onward
          have count' := awaits'.placed.unread_length
          refine ⟨⟨.needsMore, readChunkData r, r.pstrblockRead⟩, ?_, shorter', awaits.placed.pointer, ?_, .inr ⟨left', ?_, onward,
            .inr ⟨rfl, ?_, ?_⟩⟩⟩
          · simp only [parseStep, if_neg nonzero, if_neg busy, if_neg none, if_pos empty]
          · exact (congrArg List.length taken).trans size
          · exact congrArg (· ++ left') taken.symm
          · apply awaits'.missing
            have some := k'.encode_pos
            simp only [List.length_append]
            omega
          · have room : (0 : Nat) < bufsize := by decide
            change (readChunkData r).unread.length < bufsize
            omega
        · left
          refine ⟨⟨.head, readChunkData r, r.pstrblockRead⟩, ?_,
            ⟨shorter', awaits.placed.pointer, ?_, .inl ⟨left', ?_, onward, ?_⟩⟩, ?_⟩
          · simp only [parseStep, if_neg nonzero, if_neg busy, if_neg none, if_neg empty]
          · exact (congrArg List.length taken).trans size
          · exact congrArg (· ++ left') taken.symm
          · intro point
            cases point
          · obtain ⟨data', close', k', awaits', -⟩ := id onward
            have rest := awaits'.placed.nonneg
            simp [ParseState.weight]
            omega
  · right
    refine ⟨⟨.eof, r, w⟩, by simp only [parseStep, if_pos finished.current], shorter, pointer, whole,
      .inl ⟨rfl, rfl, finished, eof⟩⟩

/-- One call of the parser on a stream that carries `body`, whatever part of it is there. -/
theorem parseChunkData_awaiting (awaiting : Awaiting r input rest last eof body)
    (idle : r.writeToModulePending = 0) (fuel : Nat)
    (enough : 2 * r.pstrblockReadLen.toNat + 1 < fuel) :
    ∃ out, parseChunkData fuel r = some out ∧ ParsePost input rest last eof body r.pstrblockReadLen out := by
  have block : ParseState.block ⟨.head, r, .null⟩ = [] := by simp [ParseState.block, idle]
  have start : ParseInv input rest last eof body r.pstrblockReadLen ⟨.head, r, .null⟩ :=
    ⟨by simp [idle], Int.le_refl _, by rw [block]; exact idle.symm, .inl ⟨body, by rw [block]; rfl, awaiting, fun point => by cases point⟩⟩
  simp only [parseChunkData, idle, ne_eq, not_true, if_false]
  apply run_spec parseStep ParseState.weight (ParseInv input rest last eof body r.pstrblockReadLen)
    _ ?_ fuel _ start
  · simpa [ParseState.weight] using enough
  · rintro ⟨point, s, w⟩ holds
    cases point with
    | head => exact parseStep_head s w _ holds
    | data => exact parseStep_data s w _ holds

/-! ### Network reads -/

theorem ReadSide.Placed.compact_take (placed : r.Placed) :
    r.compact.take r.pstrblockReadLen.toNat = r.unread := by
  have len := placed.unread_length
  unfold ReadSide.compact
  split
  · rename_i here
    simp [ReadSide.unread, ReadSide.block, ReadSide.deref, ReadSide.region, here, Ptr.offset]
  · exact List.take_left' (by omega)

/-- The read side after a read of the socket that got `got`. -/
def ReadSide.receive (r : ReadSide) (got : Bytes) : ReadSide :=
  { r with
    rbuf := r.filled got
    pstrblockRead := .rbuf 0
    pstrblockReadLen := r.pstrblockReadLen + got.length
    bytesIn := r.bytesIn + got.length }

/-- A read of the socket appends what it got to the unread bytes. -/
theorem ReadSide.Placed.receive (placed : r.Placed) (got : Bytes) :
    (r.receive got).Placed ∧ (r.receive got).unread = r.unread ++ got := by
  have len := placed.unread_length
  have nonneg := placed.nonneg
  have filled : r.filled got = r.unread ++ got ++ r.compact.drop (r.pstrblockReadLen.toNat + got.length) := by
    simp only [ReadSide.filled, placed.compact_take]
  have block : (r.receive got).block = r.filled got := by
    simp [ReadSide.receive, ReadSide.block, ReadSide.deref, ReadSide.region, Ptr.offset]
  refine ⟨⟨Int.le_refl _, ?_, ?_⟩, ?_⟩
  · simp only [ReadSide.receive]
    omega
  · rw [block, filled]
    simp only [ReadSide.receive, List.length_append]
    omega
  · rw [ReadSide.unread, block, filled]
    apply List.take_left'
    simp only [ReadSide.receive, List.length_append]
    omega

theorem netDataRead_bytes (r : ReadSide) (c : Connection) (n : Nat) (placed : r.Placed)
    (room : r.unread.length < bufsize) :
    ∃ got, got = c.input.take (min n (bufsize - r.unread.length)) ∧
      got ++ c.input.drop got.length = c.input ∧
      netDataRead r c (.bytes n) = (.ok, r.receive got, { c with input := c.input.drop got.length }) := by
  have len := placed.unread_length
  have space : ((bufsize : Int) - r.pstrblockReadLen).toNat = bufsize - r.unread.length := by omega
  refine ⟨_, rfl, ?_, ?_⟩
  · generalize min n (bufsize - r.unread.length) = k
    have same : c.input.take (c.input.take k).length = c.input.take k := by
      rw [List.length_take]
      exact List.take_eq_take_min.symm
    have joined := List.take_append_drop (c.input.take k).length c.input
    rwa [same] at joined
  · simp only [netDataRead, Connection.readNonblock]
    rw [if_neg (by omega), space]
    rfl

/-- A read of the socket changes nothing about what the parser awaits. -/
theorem netDataRead_awaiting (c : Connection) (n : Nat)
    (awaiting : Awaiting r c.input rest last eof body) (room : r.unread.length < bufsize) :
    ∃ got, got = c.input.take (min n (bufsize - r.unread.length)) ∧
      netDataRead r c (.bytes n) = (.ok, r.receive got, { c with input := c.input.drop got.length }) ∧
      Awaiting (r.receive got) (c.input.drop got.length) rest last eof body := by
  obtain ⟨data, close, k, awaits, lastChunk, ended, split⟩ := awaiting
  obtain ⟨got, amount, whole, read⟩ := netDataRead_bytes r c n awaits.placed room
  obtain ⟨placed, unread⟩ := awaits.placed.receive got
  refine ⟨got, amount, read, data, close, k, ⟨placed, ?_, awaits.owed, awaits.int, awaits.closing,
    awaits.fits⟩, lastChunk, ended, split⟩
  rw [unread, List.append_assoc, whole, awaits.stream]

end IcapService
