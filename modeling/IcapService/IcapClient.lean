import IcapService.BodyReader
import IcapService.SimpleApi

/-! The client of `request_common.c`: one request, sent and answered over a socket that is never waited for inside a
call.

The environment says when the socket is ready, what every read and write call on it returns, in which pieces the data
source has its data and how much of a block the destination takes at a time. -/

namespace IcapService

open CString CInt Machine

/-- `CLIENT_STATUS`; `writeNothing` is `CLIENT_SEND_HEADERS` and `processData` is `CLIENT_PROCESS_DATA_GET_NOTHING`. -/
inductive ClientStatus where
  | init
  | writeNothing
  | writeIcapHeaders
  | writeReqHeaders
  | writeResHeaders
  | writePreviewInfo
  | writePreview
  | writeEofInfo
  | sendHeadersFinished
  | readPreviewResponse
  | processData
  | getHeaders
  | headersFinished
  | getBody
  | getEof
  deriving DecidableEq, Repr

/-- From `CLIENT_SEND_HEADERS` up to `CLIENT_SEND_HEADERS_FINISHED`. -/
def ClientStatus.sendsHeaders : ClientStatus → Bool
  | init | sendHeadersFinished | readPreviewResponse | processData | getHeaders | headersFinished | getBody
  | getEof => false
  | _ => true

/-- From `CLIENT_PROCESS_DATA` on. -/
def ClientStatus.processes : ClientStatus → Bool
  | processData | getHeaders | headersFinished | getBody | getEof => true
  | _ => false

/-- The `NEEDS_TO_` flags. -/
structure ClientAction where
  readFromIcap : Bool
  writeToIcap : Bool
  readUserData : Bool
  writeUserData : Bool
  deriving DecidableEq, Repr

def ClientAction.none : ClientAction := ⟨false, false, false, false⟩

/-- The destination of a body: what its calls have been given, and how much each of the coming calls takes, if it does
not fail. A call behind the last one takes all. -/
structure Sink where
  data : Bytes
  takes : List (Option Nat)
  deriving DecidableEq

/-- What the header of a request is made of. -/
structure ClientConf where
  server : Bytes
  service : Bytes
  /-- `CI_USER_AGENT` and `CI_DEFAULT_USER_AGENT`. -/
  userAgent : Option Bytes
  defaultUserAgent : Bytes
  allow204 : Bool
  allow206 : Bool
  xheaders : HeadersList

/-- A `ci_request_t` of a client with its connection and its data source and destination. Of `write` the client uses
the block that is sent and `wbuf`. `calls` is what the coming calls on the socket return, which would block behind the
last of them. `overrun` says that a header was stored beyond its buffer; the program has no such field. -/
structure Client where
  status : ClientStatus
  http : HttpSide
  preview : Int
  previewData : Bytes
  allow204 : Bool
  eofSent : Bool
  returnCode : Int
  requestHeader : HeadersList
  responseHeader : HeadersList
  write : WriteSide
  read : ReadSide
  conn : Connection
  calls : List NetRes
  source : Option (List SourceData)
  dest : Sink
  overrun : Bool

namespace Client

variable (fresh : Nat → UInt8) (conf : ClientConf) (s : Client)

/-- What the next call on the socket returns. -/
def result : NetRes × Client :=
  match s.calls with
  | [] => (.bytes 0, s)
  | res :: calls => (res, { s with calls := calls })

/-! ### The request -/

/-- A call of the data source for at most `n` bytes. -/
def readSource (n : Nat) : List SourceData → SourceData × List SourceData
  | [] => (.eof, [])
  | .bytes data :: rest =>
      if data.length ≤ n then (.bytes data, rest) else (.bytes (data.take n), .bytes (data.drop n) :: rest)
  | other :: rest => (other, rest)

def methodString : RequestType → Bytes
  | .options => ascii "OPTIONS"
  | .reqmod => ascii "REQMOD"
  | .respmod => ascii "RESPMOD"

/-- `client_create_request`; the lines are cut off at the size of its buffer. -/
def clientCreateRequest (type : RequestType) (header : HeadersList) : HeadersList :=
  let line (header : HeadersList) (text : Bytes) : HeadersList := (header.add fresh (text.take 254)).2
  let useragent :=
    match conf.userAgent with
    | some agent => if agent.isEmpty then none else some agent
    | none => some conf.defaultUserAgent
  let header := line header (methodString type ++ ascii " icap://" ++ conf.server ++ ascii "/" ++ conf.service ++
    ascii " ICAP/1.0")
  let header := line header (ascii "Host: " ++ conf.server)
  let header :=
    match useragent with
    | some agent => line header (ascii "User-Agent: " ++ agent)
    | none => header
  let header :=
    if conf.allow204 && conf.allow206 then line header (ascii "Allow: 204, 206")
    else if conf.allow204 then line header (ascii "Allow: 204")
    else header
  let header := if conf.allow206 then line header (ascii "Allow: 206") else header
  if conf.xheaders.used = 0 then header else (header.addheaders fresh conf.xheaders).2

/-- The loop of `prepare_headers` over the preview. Every read goes to the start of the buffer. -/
structure PreviewReading where
  remains : Nat
  buf : Bytes
  source : List SourceData

/-- One pass; it leaves with `pre_eof`, or with nothing when the source fails. -/
def previewStep (p : PreviewReading) : Step PreviewReading (Option (Bool × PreviewReading)) :=
  if p.remains = 0 then .done (some (false, p))
  else
    match readSource p.remains p.source with
    | (.fail, _) => .done none
    | (.eof, source) => .done (some (true, { p with source := source }))
    | (.bytes data, source) =>
        if data.isEmpty then .done (some (true, { p with source := source }))
        else .next ⟨p.remains - data.length, poke p.buf 0 data, source⟩

/-- The preview of `prepare_headers`, with `pre_eof` and what the loop leaves; nothing when the source fails. -/
def readPreview (preview : Int) (source : List SourceData) : Option (Bool × PreviewReading) :=
  if 0 < preview then
    let size := preview.toNat
    (run previewStep (size + 1) ⟨size, (List.range size).map fresh, source⟩).getD none
  else some (false, ⟨0, [], source⟩)

/-- `client_build_headers` -/
def clientBuildHeaders (hasReqhdr hasReshdr hasBody : Bool) : HttpSide :=
  let add (out : Nat × EntityTable) (type : EncapsType) : Nat × EntityTable :=
    let alloced := out.2.alloc fresh type 0
    (out.1 + 1, alloced.2.set out.1 (some alloced.1))
  let out := (0, (List.range 4).foldl EntityTable.release s.http.table)
  let out := if hasReqhdr then add out .reqHdr else out
  let out := if hasReshdr then add out .resHdr else out
  let body := if hasBody then (if s.http.type = .respmod then .resBody else .reqBody) else .nullBody
  { s.http with table := (add out body).2 }

/-- `prepare_headers`; nothing is its error. -/
def prepareHeaders (reqHeaders respHeaders : Option HeadersList) : Option Client :=
  let preview : Int := if s.source.isNone then -1 else s.preview
  (readPreview fresh preview (s.source.getD [])).map fun (preEof, reading) =>
    let used := preview - reading.remains
    let http := s.clientBuildHeaders fresh reqHeaders.isSome respHeaders.isSome s.source.isSome
    let http := ((reqHeaders.map HeadersList.lines).getD []).foldl (HttpSide.requestAddHeader fresh) http
    let http := ((respHeaders.map HeadersList.lines).getD []).foldl (HttpSide.responseAddHeader fresh) http
    { s with
      requestHeader := clientCreateRequest fresh conf s.http.type s.requestHeader
      preview := used
      previewData := reading.buf.take used.toNat
      source := s.source.map fun _ => reading.source
      eofSent := s.eofSent || preEof
      http := http
      status := .writeNothing }

/-! ### Sending the headers -/

/-- The block to be sent is a text in memory. -/
def display (text : Bytes) (status : ClientStatus) : Client :=
  { s with
    status := status
    write := { s.write with pstrblockResponce := .text text, remainSendBlockBytes := text.length } }

/-- The block to be sent is printed into `wbuf`. -/
def print (text : Bytes) (status : ClientStatus) : Client :=
  { s with
    status := status
    write := { s.write with
      wbuf := s.write.wbuf.write 0 text
      pstrblockResponce := .wbuf 0
      remainSendBlockBytes := text.length } }

theorem requestPack_length (isRequest : Bool) (preview : Int) (header : HeadersList) (entities : List EncapsEntity) :
    (requestPack fresh isRequest preview header entities).2.length = entities.length := by
  rw [requestPack, List.length_map]
  rcases entities with - | ⟨e, - | ⟨f, - | ⟨g, rest⟩⟩⟩ <;> rfl

/-- The entities a walk meets, behind a change of what they hold. -/
def replaceEntities (t : EntityTable) (entities : List EncapsEntity) (same : entities.length = t.entities.length) :
    EntityTable where
  cells := entities.map some ++ t.cells.drop entities.length
  size := by
    have size := t.size
    have some : t.entities.length ≤ t.cells.length :=
      (List.length_filterMap_le _ _).trans (List.takeWhile_prefix _).length_le
    rw [List.length_append, List.length_map, List.length_drop]
    omega

/-- `ci_request_pack` -/
def ciRequestPack : Client :=
  let packed := requestPack fresh true s.preview s.requestHeader s.http.table.entities
  { s with
    requestHeader := packed.1
    http := { s.http with
      packed := true
      table := replaceEntities s.http.table packed.2 (requestPack_length ..) } }

/-- `get_headers_from_entities` -/
def getHeadersFromEntities (type : EncapsType) : Option HeadersList :=
  (s.http.table.entities.find? (·.type == type)).map (·.list)

/-- A write call has taken some bytes of the block. -/
def wrote (bytes : Nat) (conn : Connection) : Client :=
  { s with
    conn := conn
    write := { s.write with
      pstrblockResponce := s.write.pstrblockResponce.add bytes
      remainSendBlockBytes := s.write.remainSendBlockBytes - bytes
      bytesOut := s.write.bytesOut + bytes } }

/-- `block_write_nonblock` of a block that is not empty. -/
def blockWriteNonblock : CiRet × Client :=
  let (res, s) := s.result
  match s.conn.writeNonblock res s.write.pending with
  | none => (.error, s)
  | some (bytes, conn) =>
      let s := s.wrote bytes conn
      (if 0 < s.write.remainSendBlockBytes then .needsMore else .ok, s)

/-- The zero chunk behind a preview. -/
def eofInfo (hasEof : Bool) : Bytes := (if hasEof then ascii "0; ieof" else ascii "0") ++ crlf ++ crlf

def behindResHeaders (hasEof : Bool) : CiRet × Client :=
  if 0 < s.preview ∧ s.previewData ≠ [] then
    (.needsMore, s.print (hexText s.preview.toNat ++ crlf) .writePreviewInfo)
  else if s.preview = 0 then (.needsMore, s.print (eofInfo hasEof) .writeEofInfo)
  else (.ok, { s with status := .processData })

def behindReqHeaders (hasEof : Bool) : CiRet × Client :=
  match s.getHeadersFromEntities .resHdr with
  | some headers => (.needsMore, s.display headers.content .writeResHeaders)
  | none => behindResHeaders { s with status := .writeResHeaders } hasEof

def behindIcapHeaders (hasEof : Bool) : CiRet × Client :=
  match s.getHeadersFromEntities .reqHdr with
  | some headers => (.needsMore, s.display headers.content .writeReqHeaders)
  | none => behindReqHeaders { s with status := .writeReqHeaders } hasEof

/-- What follows a block that has been sent. -/
def nextBlock (hasEof : Bool) : CiRet × Client :=
  match s.status with
  | .writeIcapHeaders => s.behindIcapHeaders hasEof
  | .writeReqHeaders => s.behindReqHeaders hasEof
  | .writeResHeaders => s.behindResHeaders hasEof
  | .writePreviewInfo => (.needsMore, s.display s.previewData .writePreview)
  | .writePreview => (.needsMore, s.print (crlf ++ eofInfo hasEof) .writeEofInfo)
  | .writeEofInfo => (.ok, { s with eofSent := s.eofSent || hasEof, status := .processData })
  | _ => (.ok, s)

/-- `client_send_request_headers` -/
def clientSendRequestHeaders (hasEof : Bool) : CiRet × Client :=
  let s :=
    if s.status = .writeNothing then
      let s := s.ciRequestPack fresh
      s.display s.requestHeader.content .writeIcapHeaders
    else s
  if s.write.remainSendBlockBytes = 0 then (.ok, s)
  else
    match s.blockWriteNonblock with
    | (.ok, s) => s.nextBlock hasEof
    | out => out

/-! ### The response -/

/-- `%d` of `sscanf` in a field of at most `width` bytes behind white space, with what follows it. -/
def scanInt (width : Nat) (text : Bytes) : Option (Int × Bytes) :=
  let text := text.dropWhile isSpace
  let number := strtol 10 (text.take width)
  if number.2 = 0 then none else some (wrap32 number.1, text.drop number.2)

/-- The status of `sscanf(text, "ICAP/%d.%d %3d")`, if all of it matches. -/
def scanStatus (text : Bytes) : Option Int := do
  let text ← if (ascii "ICAP/").isPrefixOf text then some (text.drop 5) else none
  let (_, text) ← scanInt text.length text
  let text ← if at0 text 0 = 46 then some (text.drop 1) else none
  let (_, text) ← scanInt text.length text
  let (status, _) ← scanInt 3 text
  some status

/-- `client_parse_icap_header`. The last three bytes of what has no end of the header in it are left unread. -/
def clientParseIcapHeader (r : ReadSide) (h : HeadersList) : CiRet × ReadSide × HeadersList :=
  if r.pstrblockReadLen < 4 then (.needsMore, r, h)
  else
    let len := r.pstrblockReadLen.toNat
    let found := strnstr (crlf ++ crlf) r.block len
    let readed := (found.map (· + 4)).getD (len - 3)
    let size := grow headsBufSize h.buf.length (h.bufused + readed)
    let buf := if h.buf.length < size then realloc fresh h.buf size else h.buf
    let h := { h with buf := poke buf h.bufused (r.block.take readed), bufused := h.bufused + readed }
    let r := r.advance readed
    if found.isNone then (.needsMore, r, h)
    else (.ok, r, { h with buf := h.buf.set (h.bufused - 2) 0, bufused := h.bufused - 2 })

/-- `client_parse_encaps_header`, and whether its store goes beyond the buffer. -/
def clientParseEncapsHeader (r : ReadSide) (h : HeadersList) (size : Int) : CiRet × ReadSide × HeadersList × Bool :=
  let remains := size - h.bufused
  if remains < 0 then (.error, r, h, false)
  else if remains = 0 then (.ok, r, h, false)
  else
    let readed := (min remains r.pstrblockReadLen).toNat
    let overrun := decide (h.buf.length < h.bufused + readed)
    let h := { h with buf := poke h.buf h.bufused (r.block.take readed), bufused := h.bufused + readed }
    let r := r.advance readed
    if (h.bufused : Int) < size then (.needsMore, r, h, overrun)
    else if 4 ≤ h.bufused ∧ (h.buf.drop (h.bufused - 4)).take 4 = crlf ++ crlf then
      (.ok, r, { h with bufused := h.bufused - 2 }, overrun)
    else (.error, r, h, overrun)

/-- The loop that gives a block to the destination. Every call is given the block from its start. -/
def giveBlock (block : Bytes) : List (Option Nat) → Nat → Bytes → Option Sink
  | takes, 0, data => some ⟨data, takes⟩
  | [], pending + 1, data => some ⟨data ++ block.take (pending + 1), []⟩
  | none :: _, _ + 1, _ => none
  | some n :: takes, pending + 1, data =>
      giveBlock block takes (pending + 1 - min n (pending + 1)) (data ++ block.take (min n (pending + 1)))

/-- A pass of the loop over the body. -/
def deliverStep (fuel : Nat) (s : Client) : Step Client (CiRet × Client) :=
  match parseChunkData fuel s.read with
  -- the parser does not come back
  | none => .next s
  | some out =>
      let s := { s with read := out.read }
      if out.ret = .error then .done (.error, s)
      else
        match giveBlock out.data s.dest.takes out.read.writeToModulePending s.dest.data with
        | none => .done (.error, s)
        | some dest =>
            let s := { s with read := { s.read with writeToModulePending := 0 }, dest := dest }
            match out.ret with
            | .eof => .done (.ok, { s with status := .getEof })
            | .needsMore => .done (.needsMore, s)
            | _ => .next s

/-- What `client_parse_incoming_data` returns. -/
inductive Incoming where
  | ret (ret : CiRet)
  | code204
  deriving DecidableEq

/-- The entities of a response, if it has an Encapsulated header. -/
def encapsulatedEntities : Option EntityTable := do
  let at_ ← s.responseHeader.headersSearch (ascii "Encapsulated")
  let out ← processEncapsulated fresh s.http.table (cstring s.responseHeader.buf at_)
  some out.table

/-- The size of the header block of a response. -/
def blockSize01 : Int :=
  match s.http.table.get 0, s.http.table.get 1 with
  | some first, some second => blockSize first second
  | _, _ => 0

/-- The header block of a response, behind a change of its list. -/
def setHeaders (h : HeadersList) : HttpSide :=
  { s.http with table := s.http.table.set 0 ((s.http.table.get 0).map fun e => { e with list := h }) }

/-- `CLIENT_PROCESS_DATA_GET_NOTHING` -/
def incomingHead : Step Client (Incoming × Client) :=
  if s.status ≠ .processData then .next s
  else
    match clientParseIcapHeader fresh s.read s.responseHeader with
    | (.ok, read, header) =>
        let s := { s with read := read, responseHeader := header }
        match scanStatus (cstring header.buf 0) with
        | none => .done (.ret .error, s)
        | some status =>
            let s := { s with returnCode := status, responseHeader := header.unpack.2 }
            if s.allow204 ∧ status = 204 then .done (.code204, { s with status := .getEof })
            else
              match s.encapsulatedEntities fresh with
              | none => .done (.ret .error, s)
              | some table =>
                  let s := { s with http := { s.http with table := table } }
                  match table.get 0, table.get 1 with
                  | none, _ => .done (.ret .error, s)
                  | some _, none =>
                      let s := { s with status := .getBody }
                      if s.read.pstrblockReadLen = 0 then .done (.ret .needsMore, s) else .next s
                  | some first, some _ =>
                      match first.list.setsize fresh s.blockSize01 with
                      | none => .done (.ret .error, { s with status := .getHeaders })
                      | some list => .next { s with status := .getHeaders, http := s.setHeaders list }
    | (ret, read, header) => .done (.ret ret, { s with read := read, responseHeader := header })

/-- `CLIENT_PROCESS_DATA_GET_HEADERS` -/
def incomingHeaders : Step Client (Incoming × Client) :=
  if s.status ≠ .getHeaders then .next s
  else
    let list := ((s.http.table.get 0).map (·.list)).getD s.responseHeader
    match clientParseEncapsHeader s.read list s.blockSize01 with
    | (.ok, read, list, overrun) =>
        let s :=
          { s with
            http := s.setHeaders list.unpack.2
            overrun := s.overrun || overrun
            read := { read with currentChunkLen := 0, chunkBytesRead := 0, writeToModulePending := 0 } }
        if (s.http.table.get 1).any (·.type == .nullBody) then .done (.ret .ok, { s with status := .getEof })
        else
          let s := { s with status := .getBody }
          if s.read.pstrblockReadLen = 0 then .done (.ret .needsMore, s) else .next s
    | (ret, read, list, overrun) =>
        .done (.ret ret, { s with read := read, http := s.setHeaders list, overrun := s.overrun || overrun })

/-- `CLIENT_PROCESS_DATA_GET_BODY`; nothing when the parser does not come back. -/
def incomingBody (fuel : Nat) : Option (Incoming × Client) :=
  if s.status ≠ .getBody then some (.ret .ok, s)
  else (run (deliverStep fuel) fuel s).map fun out => (.ret out.1, out.2)

/-- `client_parse_incoming_data` -/
def clientParseIncomingData (fuel : Nat) : Option (Incoming × Client) :=
  match (s.incomingHead fresh).bind incomingHeaders with
  | .done out => some out
  | .next s => s.incomingBody fuel

/-! ### The request and the response together -/

/-- `net_data_read`; nothing is its error. -/
def readData : Option Client :=
  let (res, s) := s.result
  match netDataRead s.read s.conn res with
  | (.error, _, _) => none
  | (_, read, conn) => some { s with read := read, conn := conn }

/-- `client_prepere_body_chunk`, or the text that ends a body. Nothing is its error; otherwise it says whether it needs
data. -/
def prepareBlock : Option (Bool × Client) :=
  match s.source with
  | none => some (false, s)
  | some source =>
      if s.write.remainSendBlockBytes ≠ 0 ∨ s.eofSent then some (false, s)
      else
        let (data, source) := readSource maxChunkSize source
        let s := { s with source := some source }
        match clientPrepereBodyChunk s.write data with
        | (.error, _) => none
        | (.needsMore, write) => some (true, { s with write := write })
        | (.eof, write) =>
            some (false, Client.display { s with write := write, eofSent := true } (ascii "0\r\n\r\n") s.status)
        | (_, write) => some (false, { s with write := write })

/-- The part of `ci_client_send_and_get_data` that writes. -/
def sendData : Option (Bool × Client) := do
  let (needsUserData, s) ← s.prepareBlock
  if 0 < s.write.remainSendBlockBytes then
    match s.blockWriteNonblock with
    | (.error, _) => none
    | (_, s) => some (needsUserData, s)
  else some (needsUserData, s)

/-- How a call of the client ends: with its error, with the parser that does not come back, or with what it needs. -/
inductive Turn where
  | error
  | stuck
  | needs (action : ClientAction)
  deriving DecidableEq

/-- What `ci_client_send_and_get_data` asks for. -/
def needs (needsUserData : Bool) : ClientAction where
  readFromIcap := s.status != .getEof
  writeToIcap := !s.eofSent || s.write.remainSendBlockBytes != 0
  readUserData := needsUserData
  writeUserData := s.read.writeToModulePending != 0

/-- The part of `ci_client_send_and_get_data` that reads. -/
def getData (fuel : Nat) (needsUserData : Bool) : Turn × Client :=
  match s.readData with
  | none => (.error, s)
  | some s =>
      match s.clientParseIncomingData fresh fuel with
      | none => (.stuck, s)
      | some (.ret .error, s) => (.error, s)
      | some (.code204, s) => (.needs .none, { s with returnCode := 204 })
      | some (_, s) => (.needs (s.needs needsUserData), s)

/-- `ci_client_send_and_get_data` -/
def ciClientSendAndGetData (fuel : Nat) (action : Wait) : Turn × Client :=
  let s := if s.source.isNone then { s with eofSent := true } else s
  match (if action.write then s.sendData else some (false, s)) with
  | none => (.error, s)
  | some (needsUserData, s) =>
      if action.read then s.getData fresh fuel needsUserData else (.needs (s.needs needsUserData), s)

/-- `ci_client_handle_previewed_response`, with the status of the response. -/
def ciClientHandlePreviewedResponse : CiRet × Int × Client :=
  match s.readData with
  | none => (.error, 100, s)
  | some s =>
      match clientParseIcapHeader fresh s.read s.responseHeader with
      | (.ok, read, header) =>
          let s := { s with read := read, responseHeader := header }
          match scanStatus (cstring header.buf 0) with
          | none => (.error, 100, s)
          | some status =>
              if status = 204 then (.ok, status, { s with responseHeader := header.unpack.2 })
              else if s.eofSent ∧ status = 200 ∨ status = 206 then
                let s := { s with responseHeader := header.unpack.2 }
                match s.encapsulatedEntities fresh with
                | none => (.error, status, s)
                | some table =>
                    (.ok, status,
                      { s with
                        http := { s.http with table := table }
                        status := if (table.get 1).isNone then .getBody else .getHeaders })
              else
                (.ok, status,
                  { s with
                    status := if status = 100 then .processData else s.status
                    responseHeader := header.reset })
      | (ret, read, header) => (ret, 100, { s with read := read, responseHeader := header })

/-- The part of `ci_client_icapfilter_nonblocking` that waits for the answer to a preview; behind it the call goes on. -/
def previewTurn : Step Client (Turn × Client) :=
  if ¬(0 ≤ s.preview ∧ s.status = .readPreviewResponse) then .next s
  else
    match s.ciClientHandlePreviewedResponse fresh with
    | (.needsMore, _, s) => .done (.needs ⟨true, false, false, false⟩, s)
    | (.error, _, s) => .done (.error, s)
    | (_, status, s) =>
        let s := { s with returnCode := status }
        if status = 204 ∨ status = 206 then .done (.needs .none, s)
        else if status = 100 then .done (.needs ⟨false, true, false, false⟩, s)
        else .next s

/-- The part of `ci_client_icapfilter_nonblocking` that sends the headers. -/
def headersTurn : Step Client (Turn × Client) :=
  if ¬s.status.sendsHeaders then .next s
  else
    match s.clientSendRequestHeaders fresh s.eofSent with
    | (.needsMore, s) => .done (.needs ⟨false, true, false, false⟩, s)
    | (.error, s) => .done (.error, s)
    | (_, s) => .next { s with status := .sendHeadersFinished }

/-- Behind its headers a request with a preview waits for an answer. -/
def finishedTurn : Step Client (Turn × Client) :=
  if s.status ≠ .sendHeadersFinished then .next s
  else
    let s := { s with
      http := { s.http with table := (List.range s.http.table.walk).foldl EntityTable.release s.http.table } }
    if 0 ≤ s.preview then .done (.needs ⟨true, false, false, false⟩, { s with status := .readPreviewResponse })
    else .next { s with status := .processData }

/-- `ci_client_icapfilter_nonblocking` behind `prepare_headers`. -/
def ciClientIcapfilterNonblocking (fuel : Nat) (action : Wait) : Turn × Client :=
  match ((s.headersTurn fresh).bind finishedTurn).bind (previewTurn fresh) with
  | .done out => out
  | .next s =>
      if s.status.processes then s.ciClientSendAndGetData fresh fuel action else (.needs .none, s)

/-- A pass of the loop of `ci_client_icapfilter`: a call, and a wait for what it needs. No code is its error. -/
def clientStep (fuel : Nat) (p : Client × Wait) : Step (Client × Wait) (Option Int × Client) :=
  match p.1.ciClientIcapfilterNonblocking fresh fuel p.2 with
  | (.stuck, _) => .next p
  | (.error, s) => .done (none, s)
  | (.needs action, s) =>
      if action = .none then .done (some s.returnCode, s)
      else
        let wait : Wait := ⟨action.readFromIcap, action.writeToIcap⟩
        if wait.any then
          match s.conn.waitForData wait with
          | (none, conn) => .done (none, { s with conn := conn })
          | (some (read, write), conn) => .next ({ s with conn := conn }, ⟨read.isSome, write.isSome⟩)
        else .next (s, p.2)

/-- `ci_client_icapfilter` -/
def ciClientIcapfilter (fuel : Nat) (reqHeaders respHeaders : Option HeadersList) : Option (Option Int × Client) :=
  match s.prepareHeaders fresh conf reqHeaders respHeaders with
  | none => some (none, s)
  | some s => run (clientStep fresh fuel) fuel (s, .none)

end Client

end IcapService
