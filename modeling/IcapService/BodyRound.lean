import IcapService.Delivery
import IcapService.Emission

/-! What a round of `get_send_body` does to a request.

The way to the inner loop touches the write side only through `update_send_status` and the writes to
the socket; a round of the inner loop changes what the answer of the service says. -/

namespace IcapService

open CString Machine

variable {τ : Type} {texts : Texts} {m : IoModule τ}

/-! ### The head of the outer loop -/

/-- The fields of the loop that are left alone on the way to the inner loop. -/
structure Entered (s t : BodyLoop τ) : Prop where
  point : t.point = .inner
  serviceEof : t.serviceEof = s.serviceEof
  rchunkdata : t.rchunkdata = s.rchunkdata
  data : t.q.data = s.q.data
  calls : t.q.calls = s.q.calls
  pending : t.q.read.writeToModulePending = s.q.read.writeToModulePending
  eof : t.q.read.eofReceived = s.q.read.eofReceived
  lock : t.lockStatus = t.q.write.dataLocked

/-- What an exchange has in common with one the socket was read and written for. -/
structure Moved (P : WriteSide → Bytes → Prop) (q q' : Exchange τ) : Prop where
  kept : P q'.write q'.conn.output
  data : q'.data = q.data
  calls : q'.calls = q.calls
  pending : q'.read.writeToModulePending = q.read.writeToModulePending
  eof : q'.read.eofReceived = q.read.eofReceived

theorem netDataRead_frame (r : ReadSide) (c : Connection) (res : NetRes) :
    (netDataRead r c res).2.1.writeToModulePending = r.writeToModulePending ∧
      (netDataRead r c res).2.1.eofReceived = r.eofReceived := by
  simp only [netDataRead]
  split
  · exact ⟨rfl, rfl⟩
  · cases res with
    | fail => exact ⟨rfl, rfl⟩
    | bytes n => exact ⟨rfl, rfl⟩

section

variable {P : WriteSide → Bytes → Prop}

theorem bodyReceive_moved {q : Exchange τ} {read : Option NetRes} (holds : P q.write q.conn.output) :
    (bodyReceive q read).All (Moved P q) (Moved P q) := by
  cases read with
  | none => exact ⟨holds, rfl, rfl, rfl, rfl⟩
  | some res =>
      have output := netDataRead_output q.read q.conn res
      obtain ⟨pending, eof⟩ := netDataRead_frame q.read q.conn res
      simp only [bodyReceive]
      split
      · rename_i r c read
        rw [read] at output pending eof
        exact ⟨output ▸ holds, rfl, rfl, pending, eof⟩
      · rename_i ret r c _ read
        rw [read] at output pending eof
        exact ⟨output ▸ holds, rfl, rfl, pending, eof⟩

/-- Updates of the send status and writes to the socket keep `P`. -/
structure Kept (texts : Texts) (P : WriteSide → Bytes → Prop) : Prop where
  update : ∀ w out, P w out → w.dataLocked = false → P (updateSendStatus texts w).2 out
  send : ∀ w w' c c' res, P w c.output → sendCurrentBlockData w c res = some (w', c') → P w' c'.output

theorem kept_always (texts : Texts) : Kept texts (fun _ _ => True) :=
  ⟨fun _ _ _ _ => trivial, fun _ _ _ _ _ _ _ => trivial⟩

theorem bodySend_moved (keep : Kept texts P) {q : Exchange τ} {write : Option NetRes}
    (holds : P q.write q.conn.output) : (bodySend texts q write).All (Moved P q) (Moved P q) := by
  cases write with
  | none => exact ⟨holds, rfl, rfl, rfl, rfl⟩
  | some res =>
      have started : P (if q.write.dataLocked = false ∧ q.write.status = .nothing then
          (updateSendStatus texts q.write).2 else q.write) q.conn.output := by
        split
        · rename_i free
          exact keep.update _ _ holds free.1
        · exact holds
      simp only [bodySend]
      split
      · exact ⟨started, rfl, rfl, rfl, rfl⟩
      · rename_i w c sent
        exact ⟨keep.send _ _ _ _ _ started sent, rfl, rfl, rfl, rfl⟩

theorem Moved.trans {q1 q2 q3 : Exchange τ} (first : Moved P q1 q2) (second : Moved P q2 q3) : Moved P q1 q3 :=
  ⟨second.kept, second.data.trans first.data, second.calls.trans first.calls, second.pending.trans first.pending,
    second.eof.trans first.eof⟩

theorem bodyTransfer_moved (keep : Kept texts P) (q : Exchange τ) (read write : Option NetRes)
    (holds : P q.write q.conn.output) : (bodyTransfer texts q read write).All (Moved P q) (Moved P q) := by
  refine (bodyReceive_moved holds).bind (fun q1 received => ?_)
  exact (bodySend_moved keep received.kept).imp (fun _ sent => received.trans sent)
    (fun _ sent => received.trans sent)

/-- The wait ends with the socket read and written, or with a result. -/
theorem bodyWait_moved (keep : Kept texts P) {s : BodyLoop τ} (holds : P s.q.write s.q.conn.output) :
    (bodyWait texts s).All (Moved P s.q) (fun out => Moved P s.q out.2) := by
  simp only [bodyWait]
  split
  · split
    · rename_i conn wait
      have output : conn.output = s.q.conn.output := by rw [Connection.waitForData_frame wait]
      exact ⟨output ▸ holds, rfl, rfl, rfl, rfl⟩
    · rename_i read write conn wait
      have output : conn.output = s.q.conn.output := by rw [Connection.waitForData_frame wait]
      have moved := bodyTransfer_moved keep { s.q with conn := conn } read write (output ▸ holds)
      split
      · rename_i q result
        rw [result] at moved
        exact ⟨moved.kept, moved.data, moved.calls, moved.pending, moved.eof⟩
      · rename_i q result
        rw [result] at moved
        exact ⟨moved.kept, moved.data, moved.calls, moved.pending, moved.eof⟩
  · exact ⟨holds, rfl, rfl, rfl, rfl⟩

/-- The way to the inner loop keeps what the updates and the writes keep. -/
theorem bodyTop_moved (keep : Kept texts P) {s : BodyLoop τ} (holds : P s.q.write s.q.conn.output) :
    (bodyTop texts s).All (fun t => P t.q.write t.q.conn.output ∧ Entered s t)
      (fun out => P out.2.write out.2.conn.output ∧ out.2.calls = s.q.calls ∧ out.2.data = s.q.data) := by
  refine Step.All.bind ((bodyWait_moved keep holds).imp (fun _ moved => moved)
    (fun _ moved => ⟨moved.kept, moved.calls, moved.data⟩)) (fun q moved => ?_)
  have entered : ∀ u : CiRet × WriteSide, u = (if q.write.dataLocked = false ∧ q.write.remainSendBlockBytes = 0
      then updateSendStatus texts q.write else (.ok, q.write)) → P u.2 q.conn.output := by
    rintro u rfl
    split
    · rename_i free
      exact keep.update _ _ moved.kept free.1
    · exact moved.kept
  simp only [bodyEnter]
  split
  · rename_i w updated
    exact ⟨entered _ updated.symm, moved.calls, moved.data⟩
  · rename_i ret w _ updated
    exact ⟨entered _ updated.symm, rfl, rfl, rfl, moved.data, moved.calls, moved.pending, moved.eof, rfl⟩

end

/-! ### The inner loop -/

/-- A round of the inner loop between the parser and its end: the service was called with `c` and
answered `a`. -/
structure Served (m : IoModule τ) (u v : BodyLoop τ) (c : IoCall) (a : IoAnswer) : Prop where
  answer : m.io u.q.data c = (a, v.q.data)
  works : a.failed = false
  offered : c.data = u.q.read.waiting u.wchunkdata
  iseof : c.iseof = u.q.read.eofReceived
  eofReceived : c.eofReceived = u.q.read.eofReceived
  dataLocked : c.dataLocked = u.q.write.dataLocked
  room : u.q.write.status = .body → u.serviceEof = false → u.q.write.remainSendBlockBytes = 0 →
    u.hasFormatedData = false → c.room = some maxChunkSize
  noRoom : u.q.write.status ≠ .body → u.rchunkdata = none → c.room = none ∧ v.rchunkdata = none
  read : v.q.read = u.q.read.accepted a.taken
  conn : v.q.conn = u.q.conn
  calls : v.q.calls = u.q.calls ++ [(c, a)]
  type : v.q.write.type = u.q.write.type
  status : v.q.write.status = u.q.write.status
  entities : v.q.write.entities = u.q.write.entities
  hasbody : v.q.write.responceHasbody = u.q.write.responceHasbody
  code : v.q.write.returnCode = u.q.write.returnCode
  lock : v.q.write.dataLocked = a.dataLocked
  remain : v.q.write.remainSendBlockBytes = u.q.write.remainSendBlockBytes + a.produced.data.length
  serviceEof : v.serviceEof = (u.serviceEof || decide (a.produced = .eof))
  lockStatus : v.lockStatus = u.lockStatus
  point : v.point = u.point
  formatted : v.hasFormatedData = u.hasFormatedData
  parsed : v.parseChunkRet = u.parseChunkRet

theorem bodyAnchor_keeps (s : BodyLoop τ) :
    (bodyAnchor s).q.write.type = s.q.write.type ∧ (bodyAnchor s).q.write.status = s.q.write.status ∧
      (bodyAnchor s).q.write.entities = s.q.write.entities ∧
      (bodyAnchor s).q.write.responceHasbody = s.q.write.responceHasbody ∧
      (bodyAnchor s).q.write.returnCode = s.q.write.returnCode ∧
      (bodyAnchor s).q.write.dataLocked = s.q.write.dataLocked ∧
      (bodyAnchor s).q.write.remainSendBlockBytes = s.q.write.remainSendBlockBytes ∧
      (bodyAnchor s).serviceEof = s.serviceEof ∧ (bodyAnchor s).lockStatus = s.lockStatus ∧
      (bodyAnchor s).q.conn = s.q.conn := by
  simp only [bodyAnchor]
  split <;> exact ⟨rfl, rfl, rfl, rfl, rfl, rfl, rfl, rfl, rfl, rfl⟩

theorem bodyRoom_keeps (s : BodyLoop τ) :
    (bodyRoom s).1.q.write.type = s.q.write.type ∧ (bodyRoom s).1.q.write.status = s.q.write.status ∧
      (bodyRoom s).1.q.write.entities = s.q.write.entities ∧
      (bodyRoom s).1.q.write.responceHasbody = s.q.write.responceHasbody ∧
      (bodyRoom s).1.q.write.returnCode = s.q.write.returnCode ∧
      (bodyRoom s).1.q.write.dataLocked = s.q.write.dataLocked ∧
      (bodyRoom s).1.q.write.remainSendBlockBytes = s.q.write.remainSendBlockBytes ∧
      (bodyRoom s).1.serviceEof = s.serviceEof ∧ (bodyRoom s).1.lockStatus = s.lockStatus ∧
      (bodyRoom s).1.q.conn = s.q.conn := by
  have anchor := bodyAnchor_keeps s
  simp only [bodyRoom]
  split
  · split
    · exact anchor
    · exact anchor
  · exact ⟨rfl, rfl, rfl, rfl, rfl, rfl, rfl, rfl, rfl, rfl⟩

/-- The pointer to `wbuf` is set only while the body is being sent. -/
theorem bodyRoom_pointer (s : BodyLoop τ) (idle : s.q.write.status ≠ .body) (null : s.rchunkdata = none) :
    (bodyRoom s).1.rchunkdata = none := by
  rw [bodyRoom, if_neg (fun open_ => idle open_.1)]
  exact null

/-- An empty `wbuf` is given to the service as a whole. -/
theorem bodyRoom_space (s : BodyLoop τ) (body : s.q.write.status = .body) (open_ : s.serviceEof = false)
    (idle : s.q.write.remainSendBlockBytes = 0) (fresh : s.hasFormatedData = false) :
    (bodyCall (bodyRoom s).1 (bodyRoom s).2).room = some maxChunkSize := by
  have anchored : bodyAnchor s = { s with
      q := { s.q with write := { s.q.write with pstrblockResponce := .wbuf extraChunkSize } }
      rchunkdata := some extraChunkSize
      rchunkisfull := false } := by
    rw [bodyAnchor, if_pos idle]
  have some : 0 < maxChunkSize := by decide
  have room : bodyRoom s = (bodyAnchor s, maxChunkSize) := by
    rw [bodyRoom, if_pos ⟨body, open_⟩, anchored]
    simp only [idle, fresh]
    rw [if_pos ⟨by omega, trivial⟩]
    simp
  rw [room, anchored]
  rfl

theorem Produced.length_eof {p : Produced} {space : Nat} (touched : p ≠ .untouched) :
    p.length space = ciEof ↔ p = .eof := by
  cases p with
  | bytes data => simp [Produced.length, ciEof]
  | eof => simp [Produced.length]
  | error => simp [Produced.length, ciEof]
  | untouched => exact absurd rfl touched

theorem Produced.length_data {p : Produced} {space : Nat} (remain : Int) (touched : p ≠ .untouched) :
    (if 0 < p.length space then remain + p.length space else remain) = remain + p.data.length := by
  cases p with
  | bytes data =>
      change (if 0 < (data.length : Int) then remain + data.length else remain) = remain + data.length
      split <;> omega
  | eof => simp [Produced.length, Produced.data, ciEof]
  | error => simp [Produced.length, Produced.data]
  | untouched => exact absurd rfl touched

/-- How a round of the inner loop goes on behind the service: with another round, or with the framing. -/
def BodyLoop.GoesOn (v t : BodyLoop τ) : Prop :=
  t = v ∧ v.parseChunkRet ≠ .needsMore ∧ v.parseChunkRet ≠ .eof ∨ t = bodyFormat v

/-- A round in which the service failed. -/
structure Refused (m : IoModule τ) (u : BodyLoop τ) (out : CiRet × Exchange τ) (c : IoCall) (a : IoAnswer) :
    Prop where
  ret : out.1 = .error
  answer : m.io u.q.data c = (a, out.2.data)
  failed : a.failed = true
  offered : c.data = u.q.read.waiting u.wchunkdata
  iseof : c.iseof = u.q.read.eofReceived
  conn : out.2.conn = u.q.conn
  calls : out.2.calls = u.q.calls ++ [(c, a)]
  code : out.2.write.returnCode = u.q.write.returnCode
  entities : out.2.write.entities = u.q.write.entities

/-- A round of the inner loop behind the parser. -/
theorem bodyServe_served (u : BodyLoop τ) :
    (bodyServe m u).All (fun t => ∃ v c a, Served m u v c a ∧ v.GoesOn t)
      (fun out => ∃ c a, Refused m u out c a) := by
  obtain ⟨same, pointer, parsed, point⟩ := bodyRoom_frame u
  obtain ⟨type, status, entities, hasbody, code, lock, remain, eof, lockStatus, conn⟩ := bodyRoom_keeps u
  have offered := bodyCall_data (bodyRoom u).1 (bodyRoom u).2
  have waiting : (bodyRoom u).1.q.read.waiting (bodyRoom u).1.wchunkdata = u.q.read.waiting u.wchunkdata := by
    rw [same.read, pointer]
  have room := bodyRoom_space u
  have null := bodyRoom_pointer u
  have formatted : (bodyRoom u).1.hasFormatedData = u.hasFormatedData := by
    simp only [bodyRoom]
    have anchor := (bodyAnchor_frame u).2.2
    split
    · split <;> exact anchor
    · rfl
  simp only [bodyServe]
  generalize (bodyRoom u).1 = s at *
  generalize (bodyRoom u).2 = rbytes at *
  cases call : s.q.call m (s.rchunkdata.getD 0) (bodyCall s rbytes) with
  | mk a q =>
      have answer : m.io u.q.data (bodyCall s rbytes) = (a, q.data) := by
        simp only [Exchange.call, Prod.mk.injEq] at call
        rw [← same.data, ← call.1, ← call.2]
      have result : q = { s.q with
          data := q.data
          write := { s.q.write with
            wbuf := s.q.write.wbuf.write (s.rchunkdata.getD 0) a.produced.data
            dataLocked := a.dataLocked }
          calls := s.q.calls ++ [(bodyCall s rbytes, a)] } := by
        simp only [Exchange.call, Prod.mk.injEq] at call
        rw [← call.2, ← call.1]
      split
      · rename_i failed
        refine ⟨bodyCall s rbytes, a, rfl, answer, failed, offered.trans waiting, ?_, ?_, ?_, ?_, ?_⟩
        · rw [bodyCall, same.read]
        · rw [result]
          exact conn
        · rw [result]
          simp only [same.calls]
        · rw [result]
          exact code
        · rw [result]
          exact entities
      · rename_i works
        have touched : a.produced ≠ .untouched := by
          intro untouched
          have failed := m.touched u.q.data (bodyCall s rbytes) (by rw [answer]; exact untouched)
          rw [answer] at failed
          exact works failed
        refine ⟨bodyTake { s with q := q } rbytes a, bodyCall s rbytes, a, ⟨?_, by simpa using works,
          offered.trans waiting, ?_, ?_, ?_, ?_, ?_, ?_, ?_, ?_, ?_, ?_, ?_, ?_, ?_, ?_, ?_, ?_, ?_, point, ?_,
          parsed⟩, ?_⟩
        · exact answer
        · rw [bodyCall, same.read]
        · rw [bodyCall, same.read]
        · exact lock
        · exact room
        · intro idle unset
          have pointer' := null idle unset
          simp [bodyCall, bodyTake, pointer']
        · change q.read.accepted a.taken = _
          rw [result, same.read]
        · change q.conn = _
          rw [result, conn]
        · change q.calls = _
          rw [result]
          simp only [same.calls]
        · change q.write.type = _
          rw [result, type]
        · change q.write.status = _
          rw [result, status]
        · change q.write.entities = _
          rw [result, entities]
        · change q.write.responceHasbody = _
          rw [result, hasbody]
        · change q.write.returnCode = _
          rw [result, code]
        · change q.write.dataLocked = _
          rw [result]
        · change (if 0 < a.produced.length rbytes then q.write.remainSendBlockBytes + a.produced.length rbytes
            else q.write.remainSendBlockBytes) = _
          rw [Produced.length_data _ touched, result, remain]
        · change (if a.produced.length rbytes = ciEof then true else s.serviceEof) = _
          rw [eof]
          by_cases ended : a.produced = .eof
          · rw [if_pos ((Produced.length_eof touched).mpr ended)]
            simp [ended]
          · rw [if_neg (fun same => ended ((Produced.length_eof touched).mp same))]
            simp [ended]
        · exact lockStatus
        · exact formatted
        · simp only [BodyLoop.GoesOn, bodyRepeat]
          split
          · rename_i more
            exact .inl ⟨rfl, more.2.2.1, more.2.2.2.1⟩
          · exact .inr rfl

/-- The parser changes the read side alone. -/
structure BodyParsed (s u : BodyLoop τ) : Prop where
  write : u.q.write = s.q.write
  conn : u.q.conn = s.q.conn
  data : u.q.data = s.q.data
  calls : u.q.calls = s.q.calls
  point : u.point = s.point
  serviceEof : u.serviceEof = s.serviceEof
  rchunkdata : u.rchunkdata = s.rchunkdata
  lockStatus : u.lockStatus = s.lockStatus
  formatted : u.hasFormatedData = s.hasFormatedData

theorem bodyParse_frame {s : BodyLoop τ} {fuel : Nat} {parsed : Step (BodyLoop τ) (CiRet × Exchange τ)}
    (result : bodyParse fuel s = some parsed) :
    parsed.All (BodyParsed s) (fun out => out.1 = .error ∧ out.2.write = s.q.write ∧ out.2.conn = s.q.conn ∧
      out.2.data = s.q.data ∧ out.2.calls = s.q.calls) := by
  simp only [bodyParse] at result
  split at result
  · split at result
    · cases result
    · split at result
      · cases result
        exact ⟨rfl, rfl, rfl, rfl, rfl⟩
      · cases result
        exact ⟨rfl, rfl, rfl, rfl, rfl, rfl, rfl, rfl, rfl⟩
      · cases result
        exact ⟨rfl, rfl, rfl, rfl, rfl, rfl, rfl, rfl, rfl⟩
  · cases result
    exact ⟨rfl, rfl, rfl, rfl, rfl, rfl, rfl, rfl, rfl⟩

end IcapService
