import IcapService.ChunkRoundTrip
import IcapService.Response

/-! Reading a body: calls of the parser with network reads between them.

This is the loop around `parse_chunk_data` and `net_data_read` that every reader of a body runs,
with a caller that takes each block at once. -/

namespace IcapService

open CString Machine Chunked

structure Receiver where
  read : ReadSide
  conn : Connection
  /-- How many bytes each of the coming network reads returns at most. -/
  reads : List Nat
  blocks : List Bytes

structure Receipt where
  ret : CiRet
  read : ReadSide
  conn : Connection
  blocks : List Bytes

/-- One call of the parser, and a network read when it needs more data. The loop stops with
`needsMore` when no network read is left. -/
def receiveStep (fuel : Nat) (s : Receiver) : Step Receiver Receipt :=
  match parseChunkData fuel s.read with
  | none => .next s
  | some out =>
      let read := { out.read with writeToModulePending := 0 }
      let blocks := s.blocks ++ [out.data]
      match out.ret with
      | .ok => .next ⟨read, s.conn, s.reads, blocks⟩
      | .needsMore =>
          match s.reads with
          | [] => .done ⟨.needsMore, read, s.conn, blocks⟩
          | n :: reads =>
              match netDataRead read s.conn (.bytes n) with
              | (.error, read, conn) => .done ⟨.error, read, conn, blocks⟩
              | (_, read, conn) => .next ⟨read, conn, reads, blocks⟩
      | ret => .done ⟨ret, read, s.conn, blocks⟩

def receive (fuel : Nat) (s : Receiver) : Option Receipt := run (receiveStep fuel) fuel s

/-- The read side of a request at the first byte of a body. -/
structure ReadSide.AtBody (r : ReadSide) : Prop where
  placed : r.Placed
  current : r.currentChunkLen = 0
  read : r.chunkBytesRead = 0
  idle : r.writeToModulePending = 0

theorem ReadSide.AtBody.awaiting {r : ReadSide} {input rest : Bytes} {k : Coding} (start : r.AtBody)
    (fits : Fits k) (stream : r.unread ++ input = k.encode ++ rest) :
    Awaiting r input rest k.last r.eofReceived k.body :=
  ⟨[], [], k, ⟨start.placed, stream, by rw [start.current, start.read]; rfl,
    by rw [start.current]; decide, .inr ⟨rfl, .inr rfl⟩, fits⟩, rfl, rfl, rfl⟩

theorem Awaiting.take {r : ReadSide} {input rest body : Bytes} {last : LastChunk} {eof : Bool}
    (awaiting : Awaiting r input rest last eof body) (n : Nat) :
    Awaiting { r with writeToModulePending := n } input rest last eof body := by
  obtain ⟨data, close, k, awaits, lastChunk, ended, split⟩ := awaiting
  exact ⟨data, close, k, ⟨⟨awaits.placed.pointer, awaits.placed.nonneg, awaits.placed.room⟩,
    awaits.stream, awaits.owed, awaits.int, awaits.closing, awaits.fits⟩, lastChunk, ended, split⟩

/-- Where the loop stands in a coding of `body`, of which `total` bytes lay ahead at first. -/
structure Receiver.Inv (rest body : Bytes) (last : LastChunk) (eof : Bool) (total : Nat)
    (s : Receiver) : Prop where
  idle : s.read.writeToModulePending = 0
  total : s.read.unread.length + s.conn.input.length ≤ total
  ahead : ∃ left, body = s.blocks.flatten ++ left ∧
    Awaiting s.read s.conn.input rest last eof left

/-- What the loop ends with: the whole body once the last chunk has been received, and a part of
it before. -/
inductive Receipt.Decoded (rest body : Bytes) (out : Receipt) : Prop where
  | whole (ret : out.ret = .eof) (blocks : out.blocks.flatten = body)
      (behind : out.read.unread ++ out.conn.input = rest)
  | part (ret : out.ret = .needsMore) (blocks : out.blocks.flatten <+: body)
      (missing : rest.length < out.conn.input.length)

variable {rest body : Bytes} {last : LastChunk} {eof : Bool} {total : Nat}

theorem Awaiting.placed {r : ReadSide} {input left : Bytes}
    (awaiting : Awaiting r input rest last eof left) : r.Placed := by
  obtain ⟨data, close, k, awaits, -⟩ := awaiting
  exact awaits.placed

/-- One call of the parser in the loop: it ends, takes data off the body, or takes a read. -/
theorem receiveStep_spec (fuel : Nat) (enough : 2 * total + 1 < fuel) (s : Receiver)
    (holds : s.Inv rest body last eof total) :
    (∃ t, receiveStep fuel s = .next t ∧ t.Inv rest body last eof total ∧
      body.length - t.blocks.flatten.length + t.reads.length <
        body.length - s.blocks.flatten.length + s.reads.length) ∨
    ∃ out, receiveStep fuel s = .done out ∧ out.Decoded rest body := by
  obtain ⟨idle, size, left, split, awaiting⟩ := holds
  have placed := awaiting.placed
  have count := placed.unread_length
  obtain ⟨out, call, post⟩ := parseChunkData_awaiting awaiting idle fuel (by omega)
  have shorter := post.shorter
  have blocks : (s.blocks ++ [out.data]).flatten = s.blocks.flatten ++ out.data := by simp
  rcases post.ahead with ⟨ret, rfl, finished, -⟩ | ⟨left', rfl, onward, more⟩
  · right
    refine ⟨⟨.eof, { out.read with writeToModulePending := 0 }, s.conn, s.blocks ++ [out.data]⟩, ?_,
      .whole rfl (by rw [blocks, split]) finished.stream⟩
    simp only [receiveStep, call, ret]
  · have count' := onward.placed.unread_length
    rw [← List.append_assoc, ← blocks] at split
    have taken := onward.take 0
    rcases more with ⟨ret, nonempty⟩ | ⟨ret, starved⟩
    · left
      refine ⟨⟨{ out.read with writeToModulePending := 0 }, s.conn, s.reads, s.blocks ++ [out.data]⟩, ?_,
        ⟨rfl, ?_, left', split, taken⟩, ?_⟩
      · simp only [receiveStep, call, ret]
      · change out.read.unread.length + s.conn.input.length ≤ total
        omega
      · have bytes := List.length_pos_iff.mpr nonempty
        have long := congrArg List.length split
        simp only [blocks, List.length_append] at long ⊢
        omega
    · cases schedule : s.reads with
      | nil =>
          right
          refine ⟨⟨.needsMore, { out.read with writeToModulePending := 0 }, s.conn,
            s.blocks ++ [out.data]⟩, ?_, .part rfl ⟨left', split.symm⟩ starved.missing⟩
          simp only [receiveStep, call, ret, schedule]
      | cons n reads =>
          left
          obtain ⟨got, amount, read, later⟩ := netDataRead_awaiting s.conn n taken starved.room
          obtain ⟨-, unread⟩ := taken.placed.receive got
          have gained : got.length ≤ s.conn.input.length := by
            rw [amount, List.length_take]
            omega
          refine ⟨⟨ReadSide.receive { out.read with writeToModulePending := 0 } got,
            { s.conn with input := s.conn.input.drop got.length }, reads, s.blocks ++ [out.data]⟩, ?_,
            ⟨rfl, ?_, left', split, later⟩, ?_⟩
          · simp only [receiveStep, call, ret, schedule, read]
          · have length : (ReadSide.unread { out.read with writeToModulePending := 0 }).length =
                out.read.unread.length := rfl
            rw [unread]
            simp only [List.length_append, List.length_drop, length]
            omega
          · have long := congrArg List.length split
            simp only [blocks, List.length_append, List.length_cons] at long ⊢
            omega

/-- The loop decodes every coding that fits, however its bytes arrive. -/
theorem receive_decoded (k : Coding) (fits : Fits k) (s : Receiver) (start : s.read.AtBody)
    (stream : s.read.unread ++ s.conn.input = k.encode ++ rest) (fresh : s.blocks = []) (fuel : Nat)
    (enough : 2 * (k.encode.length + rest.length) + s.reads.length + 1 < fuel) :
    ∃ out, receive fuel s = some out ∧ out.Decoded rest k.body := by
  have size := congrArg List.length stream
  simp only [List.length_append] at size
  have first : s.Inv rest k.body k.last s.read.eofReceived (k.encode.length + rest.length) :=
    ⟨start.idle, by omega, k.body, by simp [fresh], start.awaiting fits stream⟩
  have bodySize := k.body_length_le
  refine run_spec (receiveStep fuel)
    (fun t => k.body.length - t.blocks.flatten.length + t.reads.length) _ _
    (receiveStep_spec fuel (by omega)) fuel s first ?_
  simp only [fresh, List.flatten_nil, List.length_nil]
  omega

/-! ### The chunks the server and the client write -/

theorem chunkOf_fits (data : Bytes) (nonempty : data ≠ []) (small : data.length ≤ maxChunkSize) :
    data.length + 2 < 2147483648 ∧ (chunkOf data nonempty).text.length + 2 ≤ bufsize := by
  have size : maxChunkSize < 16 ^ 3 := by decide
  have digits := hexText_length data.length 2 (by omega)
  have text : (chunkOf data nonempty).text = hexText data.length := by simp [chunkOf, SizeText.text]
  rw [text]
  simp only [maxChunkSize, bufsize] at *
  omega

/-- The chunk the server makes of the data in `wbuf`. -/
theorem formatBodyChunk_data (original : Int) (w : WriteSide) (data : Bytes) (nonempty : data ≠ [])
    (hasbody : w.responceHasbody = true) (small : data.length ≤ maxChunkSize)
    (count : w.remainSendBlockBytes = data.length)
    (filled : w.wbuf.read extraChunkSize data.length = data) :
    (formatBodyChunk original w).1 = .ok ∧
      (formatBodyChunk original w).2.pending = (chunkOf data nonempty).encode := by
  have positive := List.length_pos_iff.mpr nonempty
  have some : ¬ w.responceHasbody = false := by simp [hasbody]
  simp only [formatBodyChunk]
  rw [if_neg some, if_pos (by omega)]
  refine ⟨rfl, ?_⟩
  have framed := frame_pending w data nonempty small filled
  rw [count, Int.toNat_natCast]
  exact framed

/-- The extension the server gives the last chunk. -/
def lastExtension (original : Int) (w : WriteSide) : Extension :=
  if w.returnCode = .ec206 ∧ 0 ≤ original then
    .useOriginalBody (ascii " ") (digitsText 10 (original.toNat % 9223372036854775808))
      (List.all_eq_true.mp (by decide))
      (digitsText_spec 10 _ (by decide) (by decide)).1 (digitsText_spec 10 _ (by decide) (by decide)).2.1
  else .none

theorem lastExtension_text (original : Int) (w : WriteSide) :
    (if w.returnCode = .ec206 ∧ 0 ≤ original then
      ascii "0; use-original-body=" ++ digitsText 10 (original.toNat % 9223372036854775808) ++ crlf ++ crlf
      else ascii "0\r\n\r\n") = (lastOf (lastExtension original w)).encode := by
  simp only [lastExtension]
  split
  · simp [lastOf, LastChunk.encode, LastChunk.line, SizeText.text, Extension.text, ascii]
  · rfl

theorem lastOf_fits (original : Int) (w : WriteSide) :
    (lastOf (lastExtension original w)).encode.length ≤ wbufSize := by
  have digits := digitsText_length 10 (original.toNat % 9223372036854775808) 18 (by decide) (by omega)
  rw [← lastExtension_text]
  split
  · simp only [List.length_append, ascii, crlf, wbufSize, maxChunkSize, extraChunkSize]
    simp
    omega
  · decide

/-- The last chunk the server writes. -/
theorem formatBodyChunk_eof (original : Int) (w : WriteSide) (hasbody : w.responceHasbody = true)
    (count : w.remainSendBlockBytes = ciEof) :
    (formatBodyChunk original w).1 = .eof ∧
      (formatBodyChunk original w).2.pending = (lastOf (lastExtension original w)).encode := by
  have some : ¬ w.responceHasbody = false := by simp [hasbody]
  have ended : ¬ 0 < w.remainSendBlockBytes := by
    rw [count]
    decide
  have size := lastOf_fits original w
  simp only [formatBodyChunk]
  rw [if_neg some, if_neg ended, if_pos count, lastExtension_text]
  refine ⟨rfl, ?_⟩
  simp only [WriteSide.pending, Int.toNat_natCast]
  exact Buffer.read_write_same _ _ _ (by omega)

theorem clientPrepereBodyChunk_data (w : WriteSide) (data : Bytes) (nonempty : data ≠ [])
    (small : data.length ≤ maxChunkSize) :
    (clientPrepereBodyChunk w (.bytes data)).1 = .ok ∧
      (clientPrepereBodyChunk w (.bytes data)).2.pending = (chunkOf data nonempty).encode := by
  have positive := List.length_pos_iff.mpr nonempty
  have size : wbufSize = maxChunkSize + extraChunkSize + 2 := rfl
  simp only [clientPrepereBodyChunk]
  rw [if_neg (by omega)]
  refine ⟨rfl, frame_pending _ data nonempty small ?_⟩
  exact Buffer.read_write_same _ _ _ (by omega)

/-- The texts the server and the client can send for a block of data. -/
inductive WritesChunk (data : Bytes) : Bytes → Prop where
  | server (original : Int) (w : WriteSide) (hasbody : w.responceHasbody = true)
      (count : w.remainSendBlockBytes = data.length)
      (filled : w.wbuf.read extraChunkSize data.length = data) :
      WritesChunk data (formatBodyChunk original w).2.pending
  | client (w : WriteSide) : WritesChunk data (clientPrepereBodyChunk w (.bytes data)).2.pending

/-- The texts that end a body; the client sends its `eof_str`. -/
inductive WritesLast : Bytes → Prop where
  | server (original : Int) (w : WriteSide) (hasbody : w.responceHasbody = true)
      (count : w.remainSendBlockBytes = ciEof) :
      WritesLast (formatBodyChunk original w).2.pending
  | client : WritesLast (ascii "0\r\n\r\n")

theorem WritesChunk.eq {data text : Bytes} (written : WritesChunk data text) (nonempty : data ≠ [])
    (small : data.length ≤ maxChunkSize) : text = (chunkOf data nonempty).encode := by
  cases written with
  | server original w hasbody count filled =>
      exact (formatBodyChunk_data original w data nonempty hasbody small count filled).2
  | client w => exact (clientPrepereBodyChunk_data w data nonempty small).2

theorem WritesLast.eq {text : Bytes} (written : WritesLast text) :
    ∃ l : LastChunk, text = l.encode ∧ l.encode.length ≤ bufsize := by
  cases written with
  | server original w hasbody count =>
      exact ⟨_, (formatBodyChunk_eof original w hasbody count).2, lastOf_fits original w⟩
  | client => exact ⟨lastOf .none, rfl, by decide⟩

/-- What the writers send is a coding that fits. -/
theorem writers_coding (blocks : List (Bytes × Bytes)) (last : Bytes)
    (each : ∀ b ∈ blocks, b.1 ≠ [] ∧ b.1.length ≤ maxChunkSize ∧ WritesChunk b.1 b.2)
    (ends : WritesLast last) :
    ∃ k : Coding, Fits k ∧ k.encode = (blocks.map Prod.snd).flatten ++ last ∧
      k.body = (blocks.map Prod.fst).flatten := by
  induction blocks with
  | nil =>
      obtain ⟨l, rfl, size⟩ := ends.eq
      exact ⟨⟨[], l⟩, ⟨by simp, by simp, size⟩, by simp [Coding.encode], by simp [Coding.body]⟩
  | cons b bs ih =>
      obtain ⟨⟨cs, l⟩, fits, code, body⟩ := ih (fun c member => each c (by simp [member]))
      obtain ⟨nonempty, small, written⟩ := each b (by simp)
      obtain ⟨size, line⟩ := chunkOf_fits b.1 nonempty small
      refine ⟨⟨chunkOf b.1 nonempty :: cs, l⟩, ⟨?_, ?_, fits.last⟩, ?_, ?_⟩
      · intro c member
        rcases List.mem_cons.mp member with rfl | tail
        · exact size
        · exact fits.size c tail
      · intro c member
        rcases List.mem_cons.mp member with rfl | tail
        · exact line
        · exact fits.line c tail
      · have text : b.2 = _ := (written.eq nonempty small).trans (chunkOf_encode b.1 nonempty)
        rw [Coding.encode_cons, code]
        simp [text, chunkOf, SizeText.text]
      · rw [Coding.body_cons, body]
        simp [chunkOf]

/-- Chunk decoding undoes chunk encoding: the loop delivers exactly the body of every coding that
fits and stops behind its last chunk, and the codings the server and the client write fit. -/
theorem receive_undoes_encode :
    (∀ (k : Coding) (rest : Bytes) (s : Receiver) (fuel : Nat), Fits k → s.read.AtBody →
      s.read.unread ++ s.conn.input = k.encode ++ rest → s.blocks = [] →
      2 * (k.encode.length + rest.length) + s.reads.length + 1 < fuel →
      ∃ out, receive fuel s = some out ∧ out.Decoded rest k.body) ∧
    (∀ (blocks : List (Bytes × Bytes)) (last : Bytes),
      (∀ b ∈ blocks, b.1 ≠ [] ∧ b.1.length ≤ maxChunkSize ∧ WritesChunk b.1 b.2) →
      WritesLast last →
      ∃ k : Coding, Fits k ∧ k.encode = (blocks.map Prod.snd).flatten ++ last ∧
        k.body = (blocks.map Prod.fst).flatten) :=
  ⟨fun k _ s fuel fits start stream fresh enough =>
    receive_decoded k fits s start stream fresh fuel enough, writers_coding⟩

theorem receive_undoes_encode_hello :
    ∃ out, receive 100 ⟨.bodyStart (ascii "5\r"), ⟨ascii "\nhello\r\n0\r\n\r\nNEXT", [], [], []⟩, [3, 40], []⟩ =
      some out ∧ out.Decoded (ascii "NEXT") (ascii "hello") :=
  receive_undoes_encode.1 ⟨[chunkOf (ascii "hello") (by decide)], lastOf .none⟩ (ascii "NEXT") _ 100
    ⟨by simp [chunkOf, ascii], by simp [chunkOf, SizeText.text, ascii, bufsize]; decide, by decide⟩
    ⟨⟨by decide, by decide, by decide⟩, rfl, rfl, rfl⟩ (by decide) rfl (by decide)

end IcapService
