import IcapService.GetSendBody
import IcapService.Lib.Ring

/-! `do_request` of `request.c`, from the preview on.

A request goes through phases: its preview is read, its body is exchanged with the service, the rest
of the response is sent. The handlers of the service are called between them. -/

namespace IcapService

open CString Machine

/-- What the header of a request says; no preview is the -1 of `req->preview`. -/
structure Info where
  hasbody : Bool
  preview : Option Nat
  allow204 : Bool
  allow206 : Bool
  deriving DecidableEq

/-- The settings `FakeAllow204` and `Allow204As200okZeroEncaps`, and the fields `ec_responce` puts
below the status line. -/
structure Conf where
  fakeAllow204 : Bool
  allow204As200 : Bool
  ecFields : Ec → Bytes

/-- `CI_MOD_NOT_READY` and so on. -/
inductive ModRet where
  | notReady
  | done
  | continue
  | allow204
  | allow206
  | error
  deriving DecidableEq

/-- What a handler sees of the request. -/
structure View where
  info : Info
  type : RequestType
  entities : List Entity
  hasalldata : Bool
  sentData : Bool
  dataLocked : Bool

/-- What a handler did: its result, its own data, and the headers and the lock of the request. -/
structure Effect (σ : Type) where
  ret : ModRet
  data : σ
  entities : List Entity
  dataLocked : Bool

/-- A service with data of type `σ`; a handler may be missing. -/
structure Service (σ : Type) where
  io : IoModule σ
  checkPreviewHandler : Option (View → Bytes → σ → Effect σ)
  endOfDataHandler : Option (View → σ → Effect σ)

/-! ### The callbacks of `request.c` -/

/-- `mod_null_io`. -/
def modNullIo (τ : Type) : IoModule τ where
  io t c := (⟨false, if c.iseof then .eof else .bytes [], c.data.length, c.dataLocked⟩, t)
  room _ c data produced := by
    split at produced
    · cases produced
    · cases produced
      exact Nat.zero_le _
  taken _ _ := Nat.le_refl _
  touched _ c untouched := by
    split at untouched <;> cases untouched

/-- What a ring answers for `*wlen`: the end once it gave nothing and the body has been received. -/
def echoProduced (room : Option Nat) (eofReceived : Bool) (data : Bytes) : Produced :=
  if room.isSome ∧ data = [] ∧ eofReceived then .eof else .bytes data

/-- `mod_echo_io` on the ring of a request. -/
def modEchoIo {n : Nat} (ring : Ring n) (c : IoCall) : IoAnswer × Ring n :=
  let written := ring.write c.data
  let out := written.1.read c.space
  (⟨false, echoProduced c.room c.eofReceived out.1, written.2, c.dataLocked⟩, out.2)

theorem modEchoIo_room {n : Nat} (ring : Ring n) (c : IoCall) (data : Bytes)
    (produced : (modEchoIo ring c).1.produced = .bytes data) : data.length ≤ c.space := by
  simp only [modEchoIo, echoProduced] at produced
  split at produced
  · cases produced
  · cases produced
    exact Ring.read_le _ _

theorem modEchoIo_touched {n : Nat} (ring : Ring n) (c : IoCall) :
    (modEchoIo ring c).1.produced ≠ .untouched := by
  simp only [modEchoIo, echoProduced]
  split <;> simp

def echoSize : Nat := 32768

theorem echoSize_pos : 0 < echoSize := by decide

/-- The data of a request: that of the service, and `echo_body`. -/
structure RequestData (σ : Type) where
  service : σ
  echoBody : Option (Ring echoSize)

variable {σ : Type}

/-- The callback of a request: its own service, unless the body is echoed. -/
def requestCall (svc : Service σ) (t : RequestData σ) (c : IoCall) : IoAnswer × RequestData σ :=
  match t.echoBody with
  | some ring =>
      let out := modEchoIo ring c
      (out.1, { t with echoBody := some out.2 })
  | none =>
      let out := svc.io.io t.service c
      (out.1, { t with service := out.2 })

def requestIo (svc : Service σ) : IoModule (RequestData σ) where
  io := requestCall svc
  room t c data produced := by
    simp only [requestCall] at produced
    split at produced
    · exact modEchoIo_room _ _ _ produced
    · exact svc.io.room _ _ _ produced
  taken t c := by
    simp only [requestCall]
    split
    · exact Ring.write_le _ _
    · exact svc.io.taken _ _
  touched t c untouched := by
    simp only [requestCall] at untouched ⊢
    split at untouched
    · exact absurd untouched (modEchoIo_touched _ _)
    · exact svc.io.touched _ _ untouched

/-! ### Responses without a body -/

/-- `ci_error_codes`. -/
def ecText : Ec → Bytes
  | .unset => ascii "1000 UNKNOWN ERROR CODE"
  | .ec100 => ascii "100 Continue"
  | .ec200 => ascii "200 OK"
  | .ec204 => ascii "204 Unmodified"
  | .ec206 => ascii "206 Partial Content"
  | .ec400 => ascii "400 Bad request"
  | .ec403 => ascii "403 Forbidden"
  | .ec404 => ascii "404 Service not found"
  | .ec405 => ascii "405 Not allowed"
  | .ec407 => ascii "407 Authentication Required"
  | .ec408 => ascii "408 Request timeout"
  | .ec500 => ascii "500 Server error"

def statusLine (ec : Ec) : Bytes := ascii "ICAP/1.0 " ++ ecText ec ++ crlf

/-- The writes of `ci_write`: whether everything was written, what was, and the schedule behind it. -/
def writeEvents : List NetEvent → Bytes → Bool × Bytes × List NetEvent
  | sched, [] => (true, [], sched)
  | [], _ => (false, [], [])
  | .timeout :: rest, _ => (false, [], rest)
  | .ready _ none :: rest, data => writeEvents rest data
  | .ready _ (some .fail) :: rest, _ => (false, [], rest)
  | .ready _ (some (.bytes n)) :: rest, data =>
      let out := writeEvents rest (data.drop n)
      (out.1, data.take n ++ out.2.1, out.2.2)

/-- `ci_connection_write`. -/
def Connection.write (c : Connection) (data : Bytes) : Bool × Connection :=
  let out := writeEvents c.sched data
  (out.1, { c with output := c.output ++ out.2.1, sched := out.2.2 })

section

variable {τ : Type} (conf : Conf)

def Exchange.setCode (q : Exchange τ) (ec : Ec) : Exchange τ :=
  { q with write := { q.write with returnCode := ec } }

/-- `ec_responce`; the result says whether everything was written. -/
def ecResponce (q : Exchange τ) (ec : Ec) : Bool × Exchange τ :=
  let ec := if ec = .ec204 ∧ conf.allow204As200 then .ec200 else ec
  let text := statusLine ec ++ conf.ecFields ec ++ crlf
  let out := q.conn.write text
  (out.1, { q with
    conn := out.2
    write := { q.write with
      returnCode := ec
      status := .eof
      bytesOut := if out.1 then q.write.bytesOut + text.length else q.write.bytesOut } })

/-- `ec_responce_simple` for `EC_100`: the client goes on with its body once it has got the line. -/
def ecResponceContinue (q : Exchange τ) : Exchange τ :=
  let text := statusLine .ec100 ++ crlf
  let out := q.conn.write text
  { q with
    conn := if out.1 then { out.2 with input := out.2.input ++ out.2.held, held := [] } else out.2
    write := { q.write with returnCode := .ec100, bytesOut := q.write.bytesOut + text.length } }

end

/-! ### `read_preview_data` -/

/-- Where `read_preview_data` stands: about to wait for the socket, or about to parse. -/
structure PreviewLoop (τ : Type) where
  reading : Bool
  q : Exchange τ
  previewData : Bytes

section

variable {τ : Type}

def PreviewLoop.start (q : Exchange τ) : PreviewLoop τ where
  reading := decide (q.read.pstrblockReadLen = 0)
  q := { q with read := { q.read with currentChunkLen := 0, chunkBytesRead := 0, writeToModulePending := 0 } }
  previewData := []

/-- The wait and the read that follows it. -/
def previewRead (p : PreviewLoop τ) : Step (PreviewLoop τ) (CiRet × PreviewLoop τ) :=
  match p.q.conn.waitForData .forRead with
  | (some (some res, _), conn) =>
      match netDataRead p.q.read conn res with
      | (.error, read, conn) => .done (.error, { p with q := { p.q with read := read, conn := conn } })
      | (_, read, conn) => .next { p with reading := false, q := { p.q with read := read, conn := conn } }
  | (_, conn) => .done (.error, { p with q := { p.q with conn := conn } })

/-- What is done with the result of the parser. The rest of the received data is dropped at the end
of the preview. -/
def previewTake (size : Nat) (p : PreviewLoop τ) (out : ParseOut) :
    Step (PreviewLoop τ) (CiRet × PreviewLoop τ) :=
  let block := (out.read.deref out.wdata).take out.read.writeToModulePending
  if out.ret = .error then .done (.error, { p with q := { p.q with read := out.read } })
  else if size < p.previewData.length + out.read.writeToModulePending then
    .done (.error, { p with q := { p.q with read := out.read } })
  else
    let read := { out.read with writeToModulePending := 0 }
    let data := p.previewData ++ block
    if out.ret = .eof then
      .done (if read.eofReceived then .eof else .ok,
        { p with
          q := { p.q with read := { read with pstrblockRead := .null, pstrblockReadLen := 0 } }
          previewData := data })
    else .next { p with
      reading := decide (out.ret = .needsMore)
      q := { p.q with read := read }
      previewData := data }

/-- One step of `read_preview_data`; `size` is the space of `preview_data`. -/
def previewStep (size fuel : Nat) (p : PreviewLoop τ) : Step (PreviewLoop τ) (CiRet × PreviewLoop τ) :=
  if p.reading then previewRead p
  else
    match parseChunkData fuel p.q.read with
    | none => .next p
    | some out => previewTake size p out

end

/-! ### The phases of a request -/

inductive Phase (σ : Type) where
  | preview (p : PreviewLoop (RequestData σ))
  /-- The body is read and thrown away, behind a 204. -/
  | skip (s : BodyLoop (RequestData σ))
  | body (s : BodyLoop (RequestData σ))
  | rest (q : Exchange (RequestData σ))

/-- What does not change while a request is processed; `size` is the space of `preview_data`. -/
structure Setting (σ : Type) where
  conf : Conf
  texts : Texts
  svc : Service σ
  info : Info
  size : Nat
  fuel : Nat

namespace Setting

variable (S : Setting σ)

def view (q : Exchange (RequestData σ)) : View where
  info := S.info
  type := q.write.type
  entities := q.write.entities
  hasalldata := q.read.eofReceived
  sentData := decide (q.write.status ≠ .nothing)
  dataLocked := q.write.dataLocked

/-- The request behind a handler. -/
def handled (q : Exchange (RequestData σ)) (e : Effect σ) : Exchange (RequestData σ) :=
  { q with
    data := { q.data with service := e.data }
    write := { q.write with entities := e.entities, dataLocked := e.dataLocked } }

/-- `do_end_of_data` behind the handler. -/
def endOfDataAnswer (q : Exchange (RequestData σ)) (ret : ModRet) : CiRet × Exchange (RequestData σ) :=
  if ret = .allow204 ∧ S.info.allow204 ∧ q.write.status = .nothing then
    let out := ecResponce S.conf q .ec204
    (if out.1 then .ok else .error, out.2)
  else if ret = .allow206 ∧ S.info.allow204 ∧ S.info.allow206 ∧ q.write.status = .nothing then
    (.ok, q.setCode .ec206)
  else if ret = .done then (.ok, q)
  else (.error, if q.write.status = .nothing then (ecResponce S.conf q .ec500).2 else q)

/-- `do_end_of_data`. -/
def doEndOfData (q : Exchange (RequestData σ)) : CiRet × Exchange (RequestData σ) :=
  match S.svc.endOfDataHandler with
  | none => (.ok, q)
  | some handler =>
      let e := handler (S.view q) q.data.service
      S.endOfDataAnswer (handled q e) e.ret

/-- What `do_request` does once the body has been received. -/
def bodyReceived (q : Exchange (RequestData σ)) : Step (Phase σ) (CiRet × Exchange (RequestData σ)) :=
  let out := S.doEndOfData q
  if out.1 = .error then .done (.error, out.2)
  else if out.2.write.returnCode = .ec204 then .done (.ok, out.2)
  else if out.2.write.status = .eof ∧ out.2.write.remainSendBlockBytes = 0 then
    .done (.ok, { out.2 with write := { out.2.write with dataLocked := false } })
  else .next (.rest { out.2 with write := { out.2.write with dataLocked := false } })

/-- What `do_request` does behind `do_request_preview` or `do_fake_preview`. -/
def previewed (status : CiRet) (q : Exchange (RequestData σ)) :
    Step (Phase σ) (CiRet × Exchange (RequestData σ)) :=
  let q := if status = .eof then q.setCode .ec200 else q
  if status = .error then .done (.error, q)
  else if q.write.returnCode = .ec204 then .done (.ok, q)
  else if q.write.returnCode ≠ .ec100 ∧ q.write.returnCode ≠ .ec200 ∧ q.write.returnCode ≠ .ec206 then
    .done (.error, (ecResponce S.conf q .ec500).2)
  else if q.write.returnCode = .ec100 ∧ S.info.hasbody ∧ status ≠ .eof then
    .next (.body (.start (q.setCode .ec200)))
  else S.bodyReceived q

/-- `do_request_preview` behind the preview handler. -/
def previewAnswer (status : CiRet) (q : Exchange (RequestData σ)) (ret : ModRet) :
    CiRet × Exchange (RequestData σ) :=
  if ret = .allow204 then
    let out := ecResponce S.conf q .ec204
    (if out.1 then .ok else .error, out.2)
  else if ret = .allow206 ∧ S.info.allow206 then (.ok, q.setCode .ec206)
  else if ret ≠ .continue then (.error, (ecResponce S.conf q .ec500).2)
  else (status, if status = .eof then q else ecResponceContinue q)

/-- `do_request_preview` behind `read_preview_data`. -/
def doRequestPreview (status : CiRet) (q : Exchange (RequestData σ)) (data : Bytes) :
    CiRet × Exchange (RequestData σ) :=
  if status = .error then (.error, (ecResponce S.conf q .ec408).2)
  else
    match S.svc.checkPreviewHandler with
    | none => S.previewAnswer status q .continue
    | some handler =>
        let e := handler (S.view q) data q.data.service
        S.previewAnswer status (handled q e) e.ret

def setContinue (q : Exchange (RequestData σ)) : Exchange (RequestData σ) :=
  q.setCode (if S.info.hasbody then .ec100 else .ec200)

/-- `do_fake_preview` behind the preview handler. -/
def fakeAnswer (q : Exchange (RequestData σ)) (ret : ModRet) :
    Step (Phase σ) (CiRet × Exchange (RequestData σ)) :=
  if ret = .allow204 ∧ S.info.allow204 then
    let out := ecResponce S.conf q .ec204
    if out.1 = false then S.previewed .error out.2
    else if S.info.hasbody then .next (.skip (.start out.2))
    else S.previewed .ok (out.2.setCode .ec204)
  else if ret = .allow204 ∧ S.info.hasbody ∧ S.conf.fakeAllow204 then
    S.previewed .ok (Exchange.setCode
      { q with data := { q.data with echoBody := some (.new echoSize echoSize_pos) } } .ec100)
  else if ret = .allow204 ∧ S.info.hasbody = false then S.previewed .ok (q.setCode .ec200)
  else if ret = .allow206 ∧ S.info.allow204 ∧ S.info.allow206 then S.previewed .ok (q.setCode .ec206)
  else if ret = .continue then S.previewed .ok (S.setContinue q)
  else S.previewed .error (ecResponce S.conf q .ec500).2

/-- `do_fake_preview`. -/
def doFakePreview (q : Exchange (RequestData σ)) : Step (Phase σ) (CiRet × Exchange (RequestData σ)) :=
  match S.svc.checkPreviewHandler with
  | none => S.previewed .ok (S.setContinue q)
  | some handler =>
      let e := handler (S.view q) [] q.data.service
      S.fakeAnswer (handled q e) e.ret

/-- The preview has been read. -/
def previewRead (status : CiRet) (q : Exchange (RequestData σ)) (data : Bytes) :
    Step (Phase σ) (CiRet × Exchange (RequestData σ)) :=
  let out := S.doRequestPreview status q data
  S.previewed out.1 out.2

/-- The start of a request whose headers have been read. -/
def enter (q : Exchange (RequestData σ)) : Step (Phase σ) (CiRet × Exchange (RequestData σ)) :=
  match S.info.preview with
  | none => S.doFakePreview q
  | some _ =>
      if S.info.hasbody then .next (.preview (.start q))
      else S.previewRead .eof q []

/-- What `do_fake_preview` does once the body has been thrown away. -/
def skipped (out : CiRet × Exchange (RequestData σ)) : Step (Phase σ) (CiRet × Exchange (RequestData σ)) :=
  if out.1 = .error then S.previewed .error out.2 else S.previewed .ok (out.2.setCode .ec204)

/-- What `do_request` does behind `get_send_body`. -/
def exchanged (out : CiRet × Exchange (RequestData σ)) : Step (Phase σ) (CiRet × Exchange (RequestData σ)) :=
  if out.1 = .error then .done out else S.bodyReceived out.2

/-- One step of `do_request`. -/
def step : Phase σ → Step (Phase σ) (CiRet × Exchange (RequestData σ))
  | .preview p =>
      (previewStep S.size S.fuel p).within .preview (fun out => S.previewRead out.1 out.2.q out.2.previewData)
  | .skip s => (bodyStep S.texts (modNullIo _) S.fuel s).within .skip S.skipped
  | .body s => (bodyStep S.texts (requestIo S.svc) S.fuel s).within .body S.exchanged
  | .rest q => (sendStep S.texts (requestIo S.svc) q).within .rest .done

/-- `do_request`, behind the headers. -/
def doRequest (fuel : Nat) (q : Exchange (RequestData σ)) : Option (CiRet × Exchange (RequestData σ)) :=
  match S.enter q with
  | .done out => some out
  | .next phase => run S.step fuel phase

end Setting

end IcapService
