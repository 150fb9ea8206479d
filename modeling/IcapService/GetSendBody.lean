import IcapService.ChunkParser
import IcapService.Response

/-! `get_send_body` and `send_remaining_response` of `request.c`.

The service is a parameter: a callback on data of its own that may do anything within the buffers
it is given. The loops are step functions, so that every state of a run can be spoken about. -/

namespace IcapService

open CString Machine

/-- What a callback did with `wbuf` and `*wlen`: it wrote data and set the length, set `CI_EOF` or
`CI_ERROR`, or left both alone. -/
inductive Produced where
  | bytes (data : Bytes)
  | eof
  | error
  | untouched
  deriving DecidableEq

def Produced.data : Produced → Bytes
  | .bytes data => data
  | _ => []

/-- The length a callback leaves in `*wlen`. -/
def Produced.length (p : Produced) (space : Nat) : Int :=
  match p with
  | .bytes data => data.length
  | .eof => ciEof
  | .error => -1
  | .untouched => space

/-- The arguments of a callback. `room` is `*wlen`, or nothing for a null `wbuf`; `offered` are the
`*rlen` bytes at `rbuf`, or nothing for a null `rbuf`. -/
structure IoCall where
  room : Option Nat
  offered : Option Bytes
  iseof : Bool
  eofReceived : Bool
  dataLocked : Bool
  deriving DecidableEq

namespace IoCall

def space (c : IoCall) : Nat := c.room.getD 0

def data (c : IoCall) : Bytes := c.offered.getD []

end IoCall

/-- What a callback answers: whether it returned `CI_ERROR`, and the lengths and the lock it left. -/
structure IoAnswer where
  failed : Bool
  produced : Produced
  taken : Nat
  dataLocked : Bool
  deriving DecidableEq

/-- A `mod_service_io` callback on data of type `τ`. It stays within its buffers, and it leaves
`*wlen` alone only when it fails. -/
structure IoModule (τ : Type) where
  io : τ → IoCall → IoAnswer × τ
  room : ∀ t c data, (io t c).1.produced = .bytes data → data.length ≤ c.space
  taken : ∀ t c, (io t c).1.taken ≤ c.data.length
  touched : ∀ t c, (io t c).1.produced = .untouched → (io t c).1.failed = true

/-- An answer cut to the buffers of a call. -/
def IoAnswer.within (a : IoAnswer) (c : IoCall) : IoAnswer :=
  { a with
    produced :=
      match a.produced with
      | .bytes data => .bytes (data.take c.space)
      | .untouched => if a.failed then .untouched else .bytes []
      | other => other
    taken := min a.taken c.data.length }

theorem IoAnswer.within_room (a : IoAnswer) (c : IoCall) (data : Bytes)
    (produced : (a.within c).produced = .bytes data) : data.length ≤ c.space := by
  cases answer : a.produced with
  | bytes whole =>
      simp only [within, answer, Produced.bytes.injEq] at produced
      rw [← produced]
      exact List.length_take_le _ _
  | eof => simp [within, answer] at produced
  | error => simp [within, answer] at produced
  | untouched =>
      simp only [within, answer] at produced
      split at produced
      · cases produced
      · cases produced
        exact Nat.zero_le _

theorem IoAnswer.within_touched (a : IoAnswer) (c : IoCall) (untouched : (a.within c).produced = .untouched) :
    (a.within c).failed = true := by
  cases answer : a.produced with
  | bytes whole => simp [within, answer] at untouched
  | eof => simp [within, answer] at untouched
  | error => simp [within, answer] at untouched
  | untouched =>
      simp only [within, answer] at untouched
      split at untouched
      · rename_i failed
        exact failed
      · cases untouched

/-- A service that gives the answers of a list, and then ends its body. -/
def IoModule.scripted : IoModule (List IoAnswer) where
  io t c := ((t.headD ⟨false, .eof, c.data.length, c.dataLocked⟩).within c, t.tail)
  room _ c := IoAnswer.within_room _ c
  taken _ _ := Nat.min_le_right _ _
  touched _ c := IoAnswer.within_touched _ c

/-- A request with its connection and the data of its service. `calls` records the calls of the
callback; the program has no such field. -/
structure Exchange (τ : Type) where
  read : ReadSide
  write : WriteSide
  conn : Connection
  data : τ
  calls : List (IoCall × IoAnswer)

variable {τ : Type} (texts : Texts) (m : IoModule τ)

/-- Call the callback with `wbuf` at the given offset. -/
def Exchange.call (q : Exchange τ) (offset : Nat) (c : IoCall) : IoAnswer × Exchange τ :=
  let out := m.io q.data c
  (out.1, { q with
    data := out.2
    write := { q.write with
      wbuf := q.write.wbuf.write offset out.1.produced.data
      dataLocked := out.1.dataLocked }
    calls := q.calls ++ [(c, out.1)] })

/-- A request with a body and no headers that has received `received` behind its own header. -/
def Exchange.fresh (received : Bytes) (conn : Connection) (data : τ) (locked : Bool) : Exchange τ where
  read := .bodyStart received
  write :=
    { type := .respmod
      entities := [⟨.resBody, []⟩]
      returnCode := .ec200
      status := .nothing
      responceHasbody := true
      dataLocked := locked
      wbuf := .zeros wbufSize
      pstrblockResponce := .null
      remainSendBlockBytes := 0
      bytesOut := 0
      httpBytesOut := 0
      bodyBytesOut := 0 }
  conn := conn
  data := data
  calls := []

/-! ### `get_send_body` -/

/-- Where `get_send_body` stands: at the head of the outer loop, at the head of the inner loop, or
at the test that ends a round of the outer loop. -/
inductive BodyPoint where
  | top
  | inner
  | test
  deriving DecidableEq

/-- The local variables of `get_send_body`. -/
structure BodyLoop (τ : Type) where
  point : BodyPoint
  q : Exchange τ
  action : Wait
  wchunkdata : Ptr
  /-- An offset in `wbuf`, or nothing for a null pointer. -/
  rchunkdata : Option Nat
  rchunkisfull : Bool
  serviceEof : Bool
  hasFormatedData : Bool
  lockStatus : Bool
  parseChunkRet : CiRet

def BodyLoop.start (q : Exchange τ) : BodyLoop τ where
  point := .top
  q := { q with write := { q.write with status := .nothing } }
  action := if q.read.pstrblockReadLen = 0 then .forRead else .none
  wchunkdata := .null
  rchunkdata := none
  rchunkisfull := false
  serviceEof := false
  hasFormatedData := false
  lockStatus := q.write.dataLocked
  parseChunkRet := .noStatus

/-- What follows the outer loop. -/
def BodyLoop.leave (q : Exchange τ) : CiRet × Exchange τ :=
  (if q.read.eofReceived then .ok else .error, q)

/-- The read of the socket after a wait, if it is readable. -/
def bodyReceive (q : Exchange τ) (read : Option NetRes) : Step (Exchange τ) (Exchange τ) :=
  match read with
  | none => .next q
  | some res =>
      match netDataRead q.read q.conn res with
      | (.error, read, conn) => .done { q with read := read, conn := conn }
      | (_, read, conn) => .next { q with read := read, conn := conn }

/-- The write to the socket after a wait, if it is writable. -/
def bodySend (q : Exchange τ) (write : Option NetRes) : Step (Exchange τ) (Exchange τ) :=
  match write with
  | none => .next q
  | some res =>
      let w :=
        if q.write.dataLocked = false ∧ q.write.status = .nothing then
          (updateSendStatus texts q.write).2
        else q.write
      match sendCurrentBlockData w q.conn res with
      | none => .done { q with write := w }
      | some (w, conn) => .next { q with write := w, conn := conn }

def bodyTransfer (q : Exchange τ) (read write : Option NetRes) : Step (Exchange τ) (Exchange τ) :=
  (bodyReceive q read).bind (fun q => bodySend texts q write)

/-- The wait at the head of the outer loop, when there is something to wait for. -/
def bodyWait (s : BodyLoop τ) : Step (Exchange τ) (CiRet × Exchange τ) :=
  if s.action.any then
    match s.q.conn.waitForData s.action with
    | (none, conn) => .done (BodyLoop.leave { s.q with conn := conn })
    | (some (read, write), conn) =>
        match bodyTransfer texts { s.q with conn := conn } read write with
        | .done q => .done (.error, q)
        | .next q => .next q
  else .next s.q

/-- From the wait to the head of the inner loop. -/
def bodyEnter (s : BodyLoop τ) (q : Exchange τ) : Step (BodyLoop τ) (CiRet × Exchange τ) :=
  let updated :=
    if q.write.dataLocked = false ∧ q.write.remainSendBlockBytes = 0 then
      updateSendStatus texts q.write
    else (.ok, q.write)
  match updated with
  | (.error, w) => .done (.error, { q with write := w })
  | (_, w) => .next { s with
      point := .inner
      q := { q with write := w }
      lockStatus := w.dataLocked
      hasFormatedData := decide (w.remainSendBlockBytes ≠ 0)
      parseChunkRet := .noStatus }

/-- From the head of the outer loop to the head of the inner one. -/
def bodyTop (s : BodyLoop τ) : Step (BodyLoop τ) (CiRet × Exchange τ) :=
  (bodyWait texts s).bind (bodyEnter texts s)

/-- The call of the parser in a round of the inner loop. -/
def bodyParse (fuel : Nat) (s : BodyLoop τ) : Option (Step (BodyLoop τ) (CiRet × Exchange τ)) :=
  if s.q.read.pstrblockReadLen ≠ 0 ∧ s.q.read.writeToModulePending = 0 then
    match parseChunkData fuel s.q.read with
    | none => none
    | some out =>
        match out.ret with
        | .error => some (.done (.error, { s.q with read := out.read }))
        | .eof => some (.next { s with
            q := { s.q with read := { out.read with eofReceived := true } }
            wchunkdata := out.wdata
            parseChunkRet := .eof })
        | ret => some (.next { s with
            q := { s.q with read := out.read }
            wchunkdata := out.wdata
            parseChunkRet := ret })
  else some (.next s)

/-- An empty `wbuf` is filled behind the space for the chunk size. -/
def bodyAnchor (s : BodyLoop τ) : BodyLoop τ :=
  if s.q.write.remainSendBlockBytes = 0 then
    { s with
      q := { s.q with write := { s.q.write with pstrblockResponce := .wbuf extraChunkSize } }
      rchunkdata := some extraChunkSize
      rchunkisfull := false }
  else s

/-- The space given to the service, and the pointer to it. -/
def bodyRoom (s : BodyLoop τ) : BodyLoop τ × Nat :=
  if s.q.write.status = .body ∧ s.serviceEof = false then
    let s := bodyAnchor s
    let space := (maxChunkSize : Int) - s.q.write.remainSendBlockBytes
    if 0 < space ∧ s.hasFormatedData = false then (s, space.toNat)
    else ({ s with rchunkisfull := true }, 0)
  else (s, 0)

/-- The call a round of the inner loop makes. -/
def bodyCall (s : BodyLoop τ) (rbytes : Nat) : IoCall where
  room := s.rchunkdata.map (fun _ => rbytes)
  offered :=
    if s.wchunkdata = .null then none
    else some ((s.q.read.deref s.wchunkdata).take s.q.read.writeToModulePending)
  iseof := s.q.read.eofReceived
  eofReceived := s.q.read.eofReceived
  dataLocked := s.q.write.dataLocked

/-- `k` bytes of the block that waits have been accepted. -/
def ReadSide.accepted (r : ReadSide) (k : Nat) : ReadSide :=
  { r with writeToModulePending := r.writeToModulePending - k }

/-- What a round of the inner loop does with the answer of the service. -/
def bodyTake (s : BodyLoop τ) (rbytes : Nat) (a : IoAnswer) : BodyLoop τ :=
  let length := a.produced.length rbytes
  { s with
    q := { s.q with
      read := s.q.read.accepted a.taken
      write := { s.q.write with
        remainSendBlockBytes :=
          if 0 < length then s.q.write.remainSendBlockBytes + length else s.q.write.remainSendBlockBytes } }
    wchunkdata := s.wchunkdata.add a.taken
    rchunkdata := if 0 < length then s.rchunkdata.map (· + length.toNat) else s.rchunkdata
    serviceEof := if length = ciEof then true else s.serviceEof }

/-- The write side behind the inner loop: what was collected is framed. -/
def bodyFrame (s : BodyLoop τ) : WriteSide :=
  let w := s.q.write
  if w.status = .body then
    let w := if w.remainSendBlockBytes = 0 ∧ s.serviceEof then { w with remainSendBlockBytes := ciEof } else w
    if s.hasFormatedData then w else frameBody s.q.read.i206UseOriginalBody w
  else w

/-- What follows the inner loop, up to the test of the outer one. -/
def bodyFormat (s : BodyLoop τ) : BodyLoop τ :=
  let w := bodyFrame s
  let idle := decide (s.q.read.writeToModulePending = 0)
  { s with
    point := .test
    q := { s.q with write := w }
    action := ⟨idle, decide (w.remainSendBlockBytes ≠ 0)⟩
    wchunkdata := if idle then .null else s.wchunkdata }

/-- The test of the inner loop, which goes on or ends with what follows it. -/
def bodyRepeat (noIo : Bool) (s : BodyLoop τ) : BodyLoop τ :=
  if noIo = false ∧ s.q.read.pstrblockReadLen ≠ 0 ∧ s.parseChunkRet ≠ .needsMore ∧
      s.parseChunkRet ≠ .eof ∧ s.rchunkisfull = false then s
  else bodyFormat s

/-- A round of the inner loop behind the parser. -/
def bodyServe (s : BodyLoop τ) : Step (BodyLoop τ) (CiRet × Exchange τ) :=
  let (s, rbytes) := bodyRoom s
  let (a, q) := s.q.call m (s.rchunkdata.getD 0) (bodyCall s rbytes)
  if a.failed then .done (.error, q)
  else
    let noIo := decide (a.produced.length rbytes = 0 ∧ a.taken = 0)
    .next (bodyRepeat noIo (bodyTake { s with q := q } rbytes a))

/-- The test of the outer loop. -/
def bodyTest (s : BodyLoop τ) : Step (BodyLoop τ) (CiRet × Exchange τ) :=
  if (s.q.read.eofReceived = false ∨ s.q.read.writeToModulePending ≠ 0) ∧
      (s.action.any ∨ s.lockStatus ≠ s.q.write.dataLocked) then .next { s with point := .top }
  else .done (BodyLoop.leave s.q)

/-- One step of `get_send_body`. A call of the parser that does not return in `fuel` passes holds
the loop where it is. -/
def bodyStep (fuel : Nat) (s : BodyLoop τ) : Step (BodyLoop τ) (CiRet × Exchange τ) :=
  match s.point with
  | .top => bodyTop texts s
  | .inner =>
      match bodyParse fuel s with
      | none => .next s
      | some parsed => parsed.bind (bodyServe m)
  | .test => bodyTest s

def getSendBody (fuel : Nat) (q : Exchange τ) : Option (CiRet × Exchange τ) :=
  run (bodyStep texts m fuel) fuel (.start q)

/-! ### `send_remaining_response` -/

/-- The call that refills `wbuf`. -/
def sendCall (q : Exchange τ) : IoCall where
  room := some maxChunkSize
  offered := none
  iseof := true
  eofReceived := q.read.eofReceived
  dataLocked := q.write.dataLocked

/-- The write side with the answer to it in `wbuf`. -/
def WriteSide.refilled (w : WriteSide) (a : IoAnswer) : WriteSide :=
  { w with
    pstrblockResponce := .wbuf extraChunkSize
    remainSendBlockBytes := a.produced.length maxChunkSize }

/-- What is done with the answer; the return value of the callback is not looked at. -/
def sendTake (q : Exchange τ) (a : IoAnswer) : Step (Exchange τ) (CiRet × Exchange τ) :=
  let w := q.write.refilled a
  if w.remainSendBlockBytes = -1 then .done (.error, { q with write := w })
  else if w.remainSendBlockBytes = 0 then .done (.ok, { q with write := w })
  else .next { q with write := frameBody q.read.i206UseOriginalBody w }

/-- Refill `wbuf` from the service, when the body is being sent. -/
def sendFill (q : Exchange τ) : Step (Exchange τ) (CiRet × Exchange τ) :=
  if q.write.status = .body then
    let (a, q) := q.call m extraChunkSize (sendCall q)
    sendTake q a
  else .next q

/-- The next block is taken. -/
def sendUpdate (q : Exchange τ) : Step (Exchange τ) (CiRet × Exchange τ) :=
  match updateSendStatus texts q.write with
  | (.error, w) => .done (.error, { q with write := w })
  | (.eof, w) => .done (.ok, { q with write := w })
  | (_, w) => .next { q with write := w }

/-- A round of the loop with nothing left to send: refill `wbuf`, then take the next block. -/
def sendRefill (q : Exchange τ) : Step (Exchange τ) (CiRet × Exchange τ) :=
  (sendFill m q).bind (sendUpdate texts)

/-- One step of `send_remaining_response`: a write to the socket, or a refill. -/
def sendStep (q : Exchange τ) : Step (Exchange τ) (CiRet × Exchange τ) :=
  if 0 < q.write.remainSendBlockBytes then
    match q.conn.waitForData .forWrite with
    | (some (_, some res), conn) =>
        match sendCurrentBlockData q.write conn res with
        | none => .done (.error, { q with conn := conn })
        | some (w, conn) => .next { q with write := w, conn := conn }
    | (_, conn) => .done (.error, { q with conn := conn })
  else sendRefill texts m q

def sendRemainingResponse (fuel : Nat) (q : Exchange τ) : Option (CiRet × Exchange τ) :=
  if q.write.status = .eof ∧ q.write.remainSendBlockBytes = 0 then some (.ok, q)
  else run (sendStep texts m) fuel q

end IcapService
