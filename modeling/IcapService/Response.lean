import IcapService.Lib.Buffer
import IcapService.Lib.Chunked
import IcapService.NetIo
import IcapService.Request

/-! The write side of `ci_request_t` and the functions of `request.c` that work on it alone: the
order of the response blocks, the chunk framing in `wbuf` and the write to the socket. -/

namespace IcapService

open CString Chunked

/-- The codes `EC_100` and so on; `unset` is the -1 a request starts with. -/
inductive Ec where
  | unset
  | ec100
  | ec200
  | ec204
  | ec206
  | ec400
  | ec403
  | ec404
  | ec405
  | ec407
  | ec408
  | ec500
  deriving DecidableEq, Repr

inductive RequestType where
  | options
  | reqmod
  | respmod
  deriving DecidableEq, Repr

/-- The kinds of `ci_encapsulated_entities`. -/
inductive EncapsType where
  | reqHdr
  | resHdr
  | reqBody
  | resBody
  | nullBody
  | optBody
  deriving DecidableEq, Repr

/-- An encapsulated entity; `buf` is the packed text of a header entity. -/
structure Entity where
  type : EncapsType
  buf : Bytes
  deriving DecidableEq, Repr

def Entity.isHeader (e : Entity) : Bool := e.type == .reqHdr || e.type == .resHdr

inductive SendStatus where
  | nothing
  | resphead
  | head1
  | head2
  | head3
  | body
  | eof
  deriving DecidableEq, Repr

def wbufSize : Nat := maxChunkSize + extraChunkSize + 2

/-- Where `pstrblock_responce` points: into `wbuf`, or into the text of a header. -/
inductive SendPtr where
  | null
  | wbuf (offset : Nat)
  | text (rest : Bytes)
  deriving DecidableEq

/-- The fields of `ci_request_t` the response is made of. -/
structure WriteSide where
  type : RequestType
  entities : List Entity
  returnCode : Ec
  status : SendStatus
  responceHasbody : Bool
  dataLocked : Bool
  wbuf : Buffer wbufSize
  pstrblockResponce : SendPtr
  remainSendBlockBytes : Int
  bytesOut : Nat
  httpBytesOut : Nat
  bodyBytesOut : Nat
  deriving DecidableEq

/-- `CI_EOF` as a length. -/
def ciEof : Int := -2

namespace WriteSide

/-- The bytes of the current block that have not been sent. -/
def pending (w : WriteSide) : Bytes :=
  match w.pstrblockResponce with
  | .null => []
  | .wbuf offset => w.wbuf.read offset w.remainSendBlockBytes.toNat
  | .text rest => rest.take w.remainSendBlockBytes.toNat

/-- Put the size line before and CRLF behind the `n` bytes of data in `wbuf`. -/
def frame (w : WriteSide) (n : Nat) : WriteSide :=
  let line := hexText n ++ crlf
  { w with
    wbuf := (w.wbuf.write (extraChunkSize + n) crlf).write (extraChunkSize - line.length) line
    pstrblockResponce := .wbuf (extraChunkSize - line.length)
    remainSendBlockBytes := n + (line.length + 2) }

end WriteSide

/-- `format_body_chunk`; `original` is `i206_use_original_body`, a number of 64 bits. -/
def formatBodyChunk (original : Int) (w : WriteSide) : CiRet × WriteSide :=
  if w.responceHasbody = false then (.eof, w)
  else if 0 < w.remainSendBlockBytes then
    let n := w.remainSendBlockBytes.toNat
    (.ok, { w.frame n with
      httpBytesOut := w.httpBytesOut + n
      bodyBytesOut := w.bodyBytesOut + n })
  else if w.remainSendBlockBytes = ciEof then
    let text :=
      if w.returnCode = .ec206 ∧ 0 ≤ original then
        ascii "0; use-original-body=" ++ digitsText 10 (original.toNat % 9223372036854775808) ++ crlf ++ crlf
      else ascii "0\r\n\r\n"
    (.eof, { w with
      wbuf := w.wbuf.write 0 text
      pstrblockResponce := .wbuf 0
      remainSendBlockBytes := text.length })
  else (.ok, w)

/-- Frame the block in `wbuf`; behind the last one there is nothing to send. -/
def frameBody (original : Int) (w : WriteSide) : WriteSide :=
  match formatBodyChunk original w with
  | (.eof, w) => { w with status := .eof }
  | (_, w) => w

/-- `resp_check_body`. -/
def respCheckBody (entities : List Entity) : Bool := entities.all (fun e => e.type != .nullBody)

/-- What the response depends on besides the request: the packed text `mk_responce_header` makes
for a code. -/
structure Texts where
  responceHeader : Ec → Bytes

variable (texts : Texts)

/-- The part of `mk_responce_header` that changes the entities: a response does not send the
header of the HTTP request back. -/
def mkResponceHeader (w : WriteSide) : WriteSide :=
  match w.type, w.entities with
  | .respmod, e :: rest => if e.type = .reqHdr then { w with entities := rest } else w
  | _, _ => w

/-- What follows the last header: the body, or nothing. -/
def headsOver (w : WriteSide) : CiRet × WriteSide :=
  if w.responceHasbody then (.ok, { w with status := .body })
  else (.eof, { w with status := .eof, pstrblockResponce := .null, remainSendBlockBytes := 0 })

/-- The entity `i` is sent if it is a header; otherwise the headers are over. -/
def sendHead (w : WriteSide) (status : SendStatus) (i : Nat) : CiRet × WriteSide :=
  match w.entities[i]? with
  | some e =>
      if e.isHeader then
        (.ok, { w with
          pstrblockResponce := .text e.buf
          remainSendBlockBytes := e.buf.length
          status := status })
      else headsOver w
  | none => headsOver w

/-- `update_send_status`. -/
def updateSendStatus (w : WriteSide) : CiRet × WriteSide :=
  match w.status with
  | .nothing =>
      let w := mkResponceHeader w
      let text := texts.responceHeader w.returnCode
      (.ok, { w with
        responceHasbody := respCheckBody w.entities
        pstrblockResponce := .text text
        remainSendBlockBytes := text.length
        status := .resphead })
  | .eof => (if w.remainSendBlockBytes = 0 then .eof else .ok, w)
  | .body => (.ok, w)
  | .resphead => sendHead w .head1 0
  | .head1 => sendHead w .head2 1
  | .head2 => sendHead w .head3 2
  -- the status does not go beyond the third header
  | .head3 => sendHead w .head3 2

def SendPtr.add : SendPtr → Nat → SendPtr
  | null, _ => null
  | wbuf offset, k => wbuf (offset + k)
  | text rest, k => text (rest.drop k)

/-- `send_current_block_data`, where `res` says what the write call returns: an error, or the
state after it. -/
def sendCurrentBlockData (w : WriteSide) (c : Connection) (res : NetRes) :
    Option (WriteSide × Connection) :=
  if w.remainSendBlockBytes = 0 then some (w, c)
  else
    match c.writeNonblock res w.pending with
    | none => none
    | some (bytes, c) =>
        let http :=
          match w.status with
          | .head1 | .head2 | .head3 => bytes
          | _ => 0
        some ({ w with
          pstrblockResponce := w.pstrblockResponce.add bytes
          remainSendBlockBytes := w.remainSendBlockBytes - bytes
          bytesOut := w.bytesOut + bytes
          httpBytesOut := w.httpBytesOut + http }, c)

/-- What a data source of the client returns. -/
inductive SourceData where
  | bytes (data : Bytes)
  | eof
  | fail
  deriving DecidableEq

/-- `client_prepere_body_chunk`: the source has put its data behind the space left for the size. -/
def clientPrepereBodyChunk (w : WriteSide) (source : SourceData) : CiRet × WriteSide :=
  match source with
  | .eof => (.eof, { w with remainSendBlockBytes := 0 })
  | .fail => (.error, w)
  | .bytes data =>
      if data.length = 0 then (.needsMore, { w with remainSendBlockBytes := 0 })
      else (.ok, WriteSide.frame { w with wbuf := w.wbuf.write extraChunkSize data } data.length)

/-! ### Framing -/

/-- The block sent for the data in `wbuf` is its chunk. -/
theorem frame_pending (w : WriteSide) (data : Bytes) (nonempty : data ≠ [])
    (small : data.length ≤ maxChunkSize) (filled : w.wbuf.read extraChunkSize data.length = data) :
    (w.frame data.length).pending = (chunkOf data nonempty).encode := by
  have digits : (hexText data.length).length ≤ 3 :=
    hexText_length data.length 2 (Nat.lt_of_le_of_lt small (by decide))
  have size : (hexText data.length ++ crlf).length = (hexText data.length).length + 2 := by simp [crlf]
  generalize line : hexText data.length ++ crlf = text at size
  have total : wbufSize = extraChunkSize + maxChunkSize + 2 := by decide
  have spare : 5 ≤ extraChunkSize := by decide
  have start : extraChunkSize - text.length + text.length = extraChunkSize := by omega
  have count : ((data.length : Int) + ((text.length : Int) + 2)).toNat = text.length + (data.length + 2) := by
    omega
  rw [chunkOf_encode, line]
  simp only [WriteSide.pending, WriteSide.frame, line, count]
  rw [Buffer.read_add, Buffer.read_add, start, List.append_assoc]
  congr 1
  · exact Buffer.read_write_same _ _ _ (by omega)
  · congr 1
    · rw [Buffer.read_write_apart _ _ _ _ _ (by omega) (.inr (by omega)),
        Buffer.read_write_apart _ _ _ _ _ (by simp only [crlf, List.length_cons, List.length_nil]; omega)
          (.inl (by omega)), filled]
    · rw [Buffer.read_write_apart _ _ _ _ _ (by omega) (.inr (by omega))]
      exact Buffer.read_write_same _ _ crlf (by simp only [crlf, List.length_cons, List.length_nil]; omega)

end IcapService
