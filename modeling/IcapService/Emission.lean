import IcapService.BodyReader
import IcapService.GetSendBody

/-! What the two send loops put on the wire.

The bytes sent and the bytes waiting in the current block are, in every state, the header blocks
sent so far and the chunks of the data the service produced. -/

namespace IcapService

open CString Machine Chunked

/-- The texts of the header blocks up to a status. Behind the third header the status stays, and
the block is taken again. -/
inductive Heads (resp : Bytes) (entities : List Entity) : SendStatus → Bytes → Prop where
  | resphead : Heads resp entities .resphead resp
  | head1 {t : Bytes} {e : Entity} (before : Heads resp entities .resphead t)
      (entity : entities[0]? = some e) (header : e.isHeader = true) : Heads resp entities .head1 (t ++ e.buf)
  | head2 {t : Bytes} {e : Entity} (before : Heads resp entities .head1 t)
      (entity : entities[1]? = some e) (header : e.isHeader = true) : Heads resp entities .head2 (t ++ e.buf)
  | head3 {t : Bytes} {e : Entity} (before : Heads resp entities .head2 t)
      (entity : entities[2]? = some e) (header : e.isHeader = true) : Heads resp entities .head3 (t ++ e.buf)
  | again {t : Bytes} {e : Entity} (before : Heads resp entities .head3 t)
      (entity : entities[2]? = some e) (header : e.isHeader = true) : Heads resp entities .head3 (t ++ e.buf)

/-- The response header and the encapsulated headers of a response. -/
def Headed (texts : Texts) (w : WriteSide) (t : Bytes) : Prop :=
  ∃ status, Heads (texts.responceHeader w.returnCode) w.entities status t

/-- The chunk of a block of data. -/
def chunkText (data : Bytes) : Bytes := hexText data.length ++ crlf ++ data ++ crlf

def chunkTexts (blocks : List Bytes) : Bytes := (blocks.map chunkText).flatten

/-- The blocks a chunk is made of. -/
def Block (data : Bytes) : Prop := data ≠ [] ∧ data.length ≤ maxChunkSize

/-- The current block lies in its memory as a whole. -/
def WriteSide.Loaded (w : WriteSide) : Prop := w.remainSendBlockBytes = w.pending.length

/-- What has been sent on top of `base`, with what waits in the current block, when the data of
`blocks` has been framed. -/
inductive Emitted (texts : Texts) (base : Bytes) (w : WriteSide) (out : Bytes) :
    List Bytes → Prop where
  | nothing (status : w.status = .nothing) (idle : w.remainSendBlockBytes = 0) (sent : out = base) :
      Emitted texts base w out []
  | heads {t : Bytes} (status : Heads (texts.responceHeader w.returnCode) w.entities w.status t)
      (hasbody : w.responceHasbody = respCheckBody w.entities) (loaded : w.Loaded)
      (sent : out ++ w.pending = base ++ t) : Emitted texts base w out []
  | body {t : Bytes} {blocks : List Bytes} (status : w.status = .body) (headed : Headed texts w t)
      (hasbody : w.responceHasbody = true) (loaded : w.Loaded) (each : ∀ b ∈ blocks, Block b)
      (sent : out ++ w.pending = base ++ t ++ chunkTexts blocks) :
      Emitted texts base w out blocks
  | last {t : Bytes} {blocks : List Bytes} {l : LastChunk} (status : w.status = .eof) (headed : Headed texts w t)
      (hasbody : w.responceHasbody = true) (loaded : w.Loaded) (each : ∀ b ∈ blocks, Block b)
      (sent : out ++ w.pending = base ++ t ++ (chunkTexts blocks ++ l.encode)) :
      Emitted texts base w out blocks
  | nobody {t : Bytes} (status : w.status = .eof) (headed : Headed texts w t)
      (hasbody : w.responceHasbody = false) (loaded : w.Loaded) (sent : out ++ w.pending = base ++ t) :
      Emitted texts base w out []

/-! ### Writes to the socket -/

theorem SendPtr.pending_add (w : WriteSide) (k : Nat) (loaded : w.Loaded) (room : k ≤ w.pending.length)
    (bytesOut httpBytesOut : Nat) :
    WriteSide.pending { w with
      pstrblockResponce := w.pstrblockResponce.add k
      remainSendBlockBytes := w.remainSendBlockBytes - k
      bytesOut := bytesOut
      httpBytesOut := httpBytesOut } = w.pending.drop k := by
  have count : (w.remainSendBlockBytes - k).toNat = w.remainSendBlockBytes.toNat - k := by
    rw [WriteSide.Loaded] at loaded
    omega
  cases pointer : w.pstrblockResponce with
  | null => simp [WriteSide.pending, pointer, SendPtr.add]
  | wbuf offset =>
      simp only [WriteSide.pending, pointer, SendPtr.add, count, Buffer.read_drop]
  | text rest =>
      simp only [WriteSide.pending, pointer, SendPtr.add, count, List.drop_take]

/-- A write to the socket moves bytes from the current block to the output. -/
theorem sendCurrentBlockData_spec {w w' : WriteSide} {c c' : Connection} {res : NetRes}
    (loaded : w.Loaded) (sent : sendCurrentBlockData w c res = some (w', c')) :
    c'.output ++ w'.pending = c.output ++ w.pending ∧ w'.Loaded ∧ w'.status = w.status ∧
      w'.entities = w.entities ∧ w'.returnCode = w.returnCode ∧
      w'.responceHasbody = w.responceHasbody ∧ w'.dataLocked = w.dataLocked := by
  simp only [sendCurrentBlockData] at sent
  split at sent
  · cases sent
    exact ⟨rfl, loaded, rfl, rfl, rfl, rfl, rfl⟩
  · cases res with
    | fail => simp [Connection.writeNonblock] at sent
    | bytes n =>
        simp only [Connection.writeNonblock, Option.some.injEq, Prod.mk.injEq] at sent
        obtain ⟨rfl, rfl⟩ := sent
        have room : (w.pending.take n).length ≤ w.pending.length := by
          rw [List.length_take]
          omega
        have later := SendPtr.pending_add w (w.pending.take n).length loaded room
        refine ⟨?_, ?_, rfl, rfl, rfl, rfl, rfl⟩
        · have front : w.pending.take (w.pending.take n).length = w.pending.take n := by
            rw [List.length_take]
            exact List.take_eq_take_min.symm
          rw [later, List.append_assoc, ← front]
          simp
        · rw [WriteSide.Loaded] at loaded
          rw [WriteSide.Loaded, later, List.length_drop]
          simp only
          omega

theorem pending_idle {w : WriteSide} (idle : w.remainSendBlockBytes = 0) : w.pending = [] := by
  cases pointer : w.pstrblockResponce <;> simp [WriteSide.pending, pointer, idle]

theorem loaded_idle {w : WriteSide} (idle : w.remainSendBlockBytes = 0) : w.Loaded := by
  rw [WriteSide.Loaded, pending_idle idle, idle]
  rfl

variable {texts : Texts} {base out : Bytes} {w : WriteSide} {blocks : List Bytes}

/-- A write to the socket changes nothing about what is on the wire or waits for it. -/
theorem Emitted.send {w' : WriteSide} {c c' : Connection} {res : NetRes}
    (emitted : Emitted texts base w c.output blocks)
    (sent : sendCurrentBlockData w c res = some (w', c')) : Emitted texts base w' c'.output blocks := by
  cases emitted with
  | nothing status idle sent' =>
      rw [sendCurrentBlockData, if_pos idle] at sent
      cases sent
      exact .nothing status idle sent'
  | heads status hasbody loaded sent' =>
      obtain ⟨same, loaded', status', entities, code, body, -⟩ := sendCurrentBlockData_spec loaded sent
      refine .heads ?_ ?_ loaded' (same.trans sent')
      · rw [code, entities, status']
        exact status
      · rw [body, entities]
        exact hasbody
  | body status headed hasbody loaded each sent' =>
      obtain ⟨same, loaded', status', entities, code, body, -⟩ := sendCurrentBlockData_spec loaded sent
      refine .body (status'.trans status) ?_ (body.trans hasbody) loaded' each (same.trans sent')
      rwa [Headed, code, entities]
  | last status headed hasbody loaded each sent' =>
      obtain ⟨same, loaded', status', entities, code, body, -⟩ := sendCurrentBlockData_spec loaded sent
      refine .last (status'.trans status) ?_ (body.trans hasbody) loaded' each (same.trans sent')
      rwa [Headed, code, entities]
  | nobody status headed hasbody loaded sent' =>
      obtain ⟨same, loaded', status', entities, code, body, -⟩ := sendCurrentBlockData_spec loaded sent
      refine .nobody (status'.trans status) ?_ (body.trans hasbody) loaded' (same.trans sent')
      rwa [Headed, code, entities]

/-! ### The order of the blocks -/

/-- What `update_send_status` answers: there is more to send, or the response is over. -/
def Updated (u : CiRet × WriteSide) : Prop :=
  u.1 = .ok ∨ u.1 = .eof ∧ u.2.status = .eof ∧ u.2.remainSendBlockBytes = 0

theorem headsOver_emitted {t : Bytes} (headed : Headed texts w t) (idle : w.remainSendBlockBytes = 0)
    (sent : out = base ++ t) :
    Emitted texts base (headsOver w).2 out [] ∧ Updated (headsOver w) := by
  simp only [headsOver]
  split
  · rename_i hasbody
    refine ⟨.body rfl headed hasbody (loaded_idle idle) (by simp) ?_, .inl rfl⟩
    rw [pending_idle (w := { w with status := .body }) idle]
    simp [sent, chunkTexts]
  · rename_i nobody
    refine ⟨.nobody rfl headed (by simpa using nobody) (loaded_idle rfl) ?_, .inr ⟨rfl, rfl, rfl⟩⟩
    simp [WriteSide.pending, sent]

/-- The block behind a header block that has been sent. -/
theorem sendHead_emitted {t : Bytes} {status : SendStatus} {i : Nat}
    (before : Heads (texts.responceHeader w.returnCode) w.entities w.status t)
    (onward : ∀ e, w.entities[i]? = some e → e.isHeader = true →
      Heads (texts.responceHeader w.returnCode) w.entities status (t ++ e.buf))
    (idle : w.remainSendBlockBytes = 0) (hasbody : w.responceHasbody = respCheckBody w.entities)
    (sent : out = base ++ t) :
    Emitted texts base (sendHead w status i).2 out [] ∧ Updated (sendHead w status i) := by
  have last := headsOver_emitted ⟨_, before⟩ idle sent
  simp only [sendHead]
  split
  · rename_i e entity
    split
    · rename_i header
      refine ⟨.heads (onward e entity header) hasbody ?_ ?_, .inl rfl⟩
      · simp [WriteSide.Loaded, WriteSide.pending]
      · simp [WriteSide.pending, sent]
    · exact last
  · exact last

/-- Taking the next block, with the current one sent, keeps the wire in order. -/
theorem Emitted.update (emitted : Emitted texts base w out blocks)
    (ready : w.remainSendBlockBytes = 0 ∨ w.status = .body ∨ w.status = .eof) :
    Emitted texts base (updateSendStatus texts w).2 out blocks ∧ Updated (updateSendStatus texts w) := by
  cases emitted with
  | nothing status idle sent =>
      simp only [updateSendStatus, status]
      refine ⟨.heads .resphead rfl ?_ ?_, .inl rfl⟩
      · simp [WriteSide.Loaded, WriteSide.pending]
      · simp [WriteSide.pending, sent]
  | @heads t status hasbody loaded sent =>
      have idle : w.remainSendBlockBytes = 0 := by
        rcases ready with idle | body | eof
        · exact idle
        · rw [body] at status
          cases status
        · rw [eof] at status
          cases status
      rw [pending_idle idle, List.append_nil] at sent
      cases at_ : w.status with
      | nothing =>
          rw [at_] at status
          cases status
      | resphead =>
          simp only [updateSendStatus, at_]
          refine sendHead_emitted status (fun e entity header => ?_) idle hasbody sent
          rw [at_] at status
          exact .head1 status entity header
      | head1 =>
          simp only [updateSendStatus, at_]
          refine sendHead_emitted status (fun e entity header => ?_) idle hasbody sent
          rw [at_] at status
          exact .head2 status entity header
      | head2 =>
          simp only [updateSendStatus, at_]
          refine sendHead_emitted status (fun e entity header => ?_) idle hasbody sent
          rw [at_] at status
          exact .head3 status entity header
      | head3 =>
          simp only [updateSendStatus, at_]
          refine sendHead_emitted status (fun e entity header => ?_) idle hasbody sent
          rw [at_] at status
          exact .again status entity header
      | body =>
          rw [at_] at status
          cases status
      | eof =>
          rw [at_] at status
          cases status
  | body status headed hasbody loaded each sent =>
      simp only [updateSendStatus, status]
      exact ⟨.body status headed hasbody loaded each sent, .inl rfl⟩
  | last status headed hasbody loaded each sent =>
      simp only [updateSendStatus, status]
      refine ⟨.last status headed hasbody loaded each sent, ?_⟩
      by_cases idle : w.remainSendBlockBytes = 0
      · exact .inr ⟨by simp [idle], status, idle⟩
      · exact .inl (by simp [idle])
  | nobody status headed hasbody loaded sent =>
      simp only [updateSendStatus, status]
      refine ⟨.nobody status headed hasbody loaded sent, ?_⟩
      by_cases idle : w.remainSendBlockBytes = 0
      · exact .inr ⟨by simp [idle], status, idle⟩
      · exact .inl (by simp [idle])

/-! ### Framing -/

/-- Data of the service lies in `wbuf` and has not been framed. -/
structure Filling (texts : Texts) (base : Bytes) (w : WriteSide) (out : Bytes) (blocks : List Bytes)
    (raw : Bytes) : Prop where
  status : w.status = .body
  hasbody : w.responceHasbody = true
  count : w.remainSendBlockBytes = raw.length
  filled : w.wbuf.read extraChunkSize raw.length = raw
  small : raw.length ≤ maxChunkSize
  each : ∀ b ∈ blocks, Block b
  sent : ∃ t, Headed texts w t ∧ out = base ++ t ++ chunkTexts blocks

/-- The fields of the write side that framing leaves alone. -/
structure SameResponse (v w : WriteSide) : Prop where
  status : v.status = w.status
  entities : v.entities = w.entities
  returnCode : v.returnCode = w.returnCode
  hasbody : v.responceHasbody = w.responceHasbody
  dataLocked : v.dataLocked = w.dataLocked

theorem SameResponse.headed {v : WriteSide} {t : Bytes} (same : SameResponse v w)
    (headed : Headed texts w t) : Headed texts v t := by
  rwa [Headed, same.returnCode, same.entities]

theorem formatBodyChunk_same (original : Int) (w : WriteSide) :
    SameResponse (formatBodyChunk original w).2 w := by
  simp only [formatBodyChunk]
  split
  · exact ⟨rfl, rfl, rfl, rfl, rfl⟩
  · split
    · exact ⟨rfl, rfl, rfl, rfl, rfl⟩
    · split <;> exact ⟨rfl, rfl, rfl, rfl, rfl⟩

theorem chunkTexts_append (blocks : List Bytes) (data : Bytes) :
    chunkTexts (blocks ++ [data]) = chunkTexts blocks ++ chunkText data := by
  simp [chunkTexts]

theorem formatBodyChunk_count (original : Int) (hasbody : w.responceHasbody = true)
    (some : 0 < w.remainSendBlockBytes) :
    (formatBodyChunk original w).2.remainSendBlockBytes =
      w.remainSendBlockBytes + ((hexText w.remainSendBlockBytes.toNat).length + 4) := by
  have body : ¬ w.responceHasbody = false := by simp [hasbody]
  simp only [formatBodyChunk]
  rw [if_neg body, if_pos some]
  simp only [WriteSide.frame, List.length_append, crlf, List.length_cons, List.length_nil]
  omega

/-- The block that lies in `wbuf` is sent as a chunk. -/
theorem frameBody_data (original : Int) {raw : Bytes} (nonempty : raw ≠ []) (hasbody : w.responceHasbody = true)
    (small : raw.length ≤ maxChunkSize) (count : w.remainSendBlockBytes = raw.length)
    (filled : w.wbuf.read extraChunkSize raw.length = raw) :
    (frameBody original w).pending = chunkText raw ∧ (frameBody original w).Loaded ∧
      SameResponse (frameBody original w) w := by
  obtain ⟨ret, framed⟩ := formatBodyChunk_data original w raw nonempty hasbody small count filled
  have text : (formatBodyChunk original w).2.pending = chunkText raw :=
    framed.trans (chunkOf_encode raw nonempty)
  have positive := List.length_pos_iff.mpr nonempty
  have total := formatBodyChunk_count original hasbody (by omega)
  have framed : frameBody original w = (formatBodyChunk original w).2 := by
    simp only [frameBody]
    split
    · rename_i result
      rw [result] at ret
      cases ret
    · rename_i result
      rw [result]
  rw [framed]
  refine ⟨text, ?_, formatBodyChunk_same original w⟩
  rw [WriteSide.Loaded, total, text, count]
  simp [chunkText, crlf]
  omega

namespace Filling

variable {raw : Bytes}

theorem data (f : Filling texts base w out blocks raw) (original : Int) (nonempty : raw ≠ []) :
    Emitted texts base (frameBody original w) out (blocks ++ [raw]) := by
  obtain ⟨t, headed, sent⟩ := f.sent
  obtain ⟨text, loaded, same⟩ := frameBody_data original nonempty f.hasbody f.small f.count f.filled
  refine .body (same.status.trans f.status) (same.headed headed) (same.hasbody.trans f.hasbody) loaded ?_ ?_
  · intro b member
    rcases List.mem_append.mp member with old | new
    · exact f.each b old
    · rw [List.mem_singleton.mp new]
      exact ⟨nonempty, f.small⟩
  · rw [text, chunkTexts_append, sent, List.append_assoc]

theorem none (f : Filling texts base w out blocks []) (original : Int) :
    Emitted texts base (frameBody original w) out blocks := by
  obtain ⟨t, headed, sent⟩ := f.sent
  have idle : w.remainSendBlockBytes = 0 := f.count
  have body : ¬ w.responceHasbody = false := by simp [f.hasbody]
  have same : formatBodyChunk original w = (.ok, w) := by
    simp only [formatBodyChunk]
    rw [if_neg body, if_neg (by omega), if_neg (by rw [idle]; decide)]
  simp only [frameBody, same]
  refine .body f.status headed f.hasbody (loaded_idle idle) f.each ?_
  rw [pending_idle idle, List.append_nil, sent]

end Filling

/-- The end of the body is sent as the last chunk. -/
theorem frameBody_eof (original : Int) (hasbody : w.responceHasbody = true)
    (ended : w.remainSendBlockBytes = ciEof) :
    ∃ l : LastChunk, (frameBody original w).pending = l.encode ∧ (frameBody original w).Loaded ∧
      SameResponse (frameBody original w) { w with status := .eof } := by
  have same := formatBodyChunk_same original w
  obtain ⟨ret, text⟩ := formatBodyChunk_eof original w hasbody ended
  have count : (formatBodyChunk original w).2.remainSendBlockBytes =
      ((lastOf (lastExtension original w)).encode.length : Nat) := by
    have body : ¬ w.responceHasbody = false := by simp [hasbody]
    have none : ¬ 0 < w.remainSendBlockBytes := by
      rw [ended]
      decide
    simp only [formatBodyChunk]
    rw [if_neg body, if_neg none, if_pos ended, lastExtension_text]
  have framed : frameBody original w = { (formatBodyChunk original w).2 with status := .eof } := by
    simp only [frameBody]
    split
    · rename_i result
      rw [result]
    · rename_i other result
      rw [result] at ret
      exact absurd ret other
  rw [framed]
  refine ⟨lastOf (lastExtension original w), text, ?_, rfl, same.entities, same.returnCode, same.hasbody,
    same.dataLocked⟩
  change (formatBodyChunk original w).2.remainSendBlockBytes = (formatBodyChunk original w).2.pending.length
  rw [count, text]

/-- The last chunk is framed once everything before it has been sent. -/
theorem frameBody_last {t : Bytes} (original : Int) (headed : Headed texts w t)
    (hasbody : w.responceHasbody = true) (ended : w.remainSendBlockBytes = ciEof)
    (each : ∀ b ∈ blocks, Block b) (sent : out = base ++ t ++ chunkTexts blocks) :
    Emitted texts base (frameBody original w) out blocks := by
  obtain ⟨l, text, loaded, same⟩ := frameBody_eof original hasbody ended
  refine .last (l := l) same.status (same.headed headed) (same.hasbody.trans hasbody) loaded each ?_
  rw [text, sent, List.append_assoc]

/-! ### The calls of the service -/

/-- The data a call produced; a call that fails produces none. -/
def IoAnswer.output (a : IoAnswer) : Bytes := if a.failed then [] else a.produced.data

/-- The data the service produced in the calls of a run. -/
def producedData (calls : List (IoCall × IoAnswer)) : Bytes := (calls.map (fun c => c.2.output)).flatten

theorem producedData_append (calls : List (IoCall × IoAnswer)) (c : IoCall × IoAnswer) :
    producedData (calls ++ [c]) = producedData calls ++ c.2.output := by
  simp [producedData]

/-- The callback told its caller about an error, in its result or in `*wlen`. -/
def IoAnswer.reported (a : IoAnswer) : Bool := a.failed || a.produced == .error

/-! ### `get_send_body` -/

variable {τ : Type} {m : IoModule τ}

/-- The wire in a state of `get_send_body`: everything produced has been framed, or data is being
collected in `wbuf`. -/
inductive LoopEmitted (texts : Texts) (base : Bytes) (s : BodyLoop τ) : Prop where
  | settled (blocks : List Bytes) (emitted : Emitted texts base s.q.write s.q.conn.output blocks)
      (produced : producedData s.q.calls = blocks.flatten)
      (formatted : s.point = .inner → s.q.write.status = .body →
        s.hasFormatedData = true ∧ s.q.write.remainSendBlockBytes ≠ 0)
  | filling (blocks : List Bytes) (raw : Bytes) (inner : s.point = .inner)
      (filling : Filling texts base s.q.write s.q.conn.output blocks raw)
      (produced : producedData s.q.calls = blocks.flatten ++ raw)
      (unformatted : s.hasFormatedData = false)
      (pointer : raw ≠ [] → s.rchunkdata = some (extraChunkSize + raw.length))

/-- What a client can have received: a part of the headers and of the chunks of data that the
service produced. -/
def OnWire (texts : Texts) (base : Bytes) (q : Exchange τ) : Prop :=
  ∃ t blocks tail, (t = [] ∨ Headed texts q.write t) ∧
    q.conn.output <+: base ++ t ++ (chunkTexts blocks ++ tail) ∧ (∀ b ∈ blocks, Block b) ∧
    (tail = [] ∨ ∃ l : LastChunk, tail = l.encode) ∧ blocks.flatten <+: producedData q.calls

/-- Nothing has been sent, or a part of a response that starts with its headers. -/
def Begun (texts : Texts) (base : Bytes) (q : Exchange τ) : Prop :=
  q.conn.output = base ∨ ∃ t blocks tail, Headed texts q.write t ∧
    q.conn.output <+: base ++ t ++ (chunkTexts blocks ++ tail) ∧ (∀ b ∈ blocks, Block b) ∧
    (tail = [] ∨ ∃ l : LastChunk, tail = l.encode) ∧ blocks.flatten <+: producedData q.calls

theorem Begun.onWire {q : Exchange τ} (begun : Begun texts base q) : OnWire texts base q := by
  rcases begun with none | ⟨t, blocks, tail, headed, sent, each, ended, part⟩
  · exact ⟨[], [], [], .inl rfl, by simp [none], by simp, .inl rfl, by simp⟩
  · exact ⟨t, blocks, tail, .inr headed, sent, each, ended, part⟩

theorem Emitted.begun {q : Exchange τ} (emitted : Emitted texts base q.write q.conn.output blocks)
    (produced : blocks.flatten <+: producedData q.calls) : Begun texts base q := by
  cases emitted with
  | nothing status idle sent => exact .inl sent
  | @heads t status hasbody loaded sent =>
      exact .inr ⟨t, [], [], ⟨_, status⟩, ⟨_, by simpa [chunkTexts] using sent⟩, by simp, .inl rfl, by simp⟩
  | @body t _ status headed hasbody loaded each sent =>
      exact .inr ⟨t, blocks, [], headed, ⟨_, by simpa using sent⟩, each, .inl rfl, produced⟩
  | @last t _ l status headed hasbody loaded each sent =>
      exact .inr ⟨t, blocks, l.encode, headed, ⟨_, sent⟩, each, .inr ⟨l, rfl⟩, produced⟩
  | @nobody t status headed hasbody loaded sent =>
      exact .inr ⟨t, [], [], headed, ⟨_, by simpa [chunkTexts] using sent⟩, by simp, .inl rfl, by simp⟩

theorem Emitted.onWire {q : Exchange τ} (emitted : Emitted texts base q.write q.conn.output blocks)
    (produced : blocks.flatten <+: producedData q.calls) : OnWire texts base q :=
  (emitted.begun produced).onWire

theorem Emitted.idle_of_nothing (emitted : Emitted texts base w out blocks) (nothing : w.status = .nothing) :
    w.remainSendBlockBytes = 0 := by
  cases emitted with
  | nothing status idle sent => exact idle
  | heads status hasbody loaded sent =>
      rw [nothing] at status
      cases status
  | body status headed hasbody loaded each sent =>
      rw [nothing] at status
      cases status
  | last status headed hasbody loaded each sent =>
      rw [nothing] at status
      cases status
  | nobody status headed hasbody loaded sent =>
      rw [nothing] at status
      cases status

theorem Emitted.count_nonneg (emitted : Emitted texts base w out blocks) : 0 ≤ w.remainSendBlockBytes := by
  cases emitted with
  | nothing status idle sent => omega
  | heads status hasbody loaded sent =>
      rw [loaded]
      omega
  | body status headed hasbody loaded each sent =>
      rw [loaded]
      omega
  | last status headed hasbody loaded each sent =>
      rw [loaded]
      omega
  | nobody status headed hasbody loaded sent =>
      rw [loaded]
      omega

theorem netDataRead_output (r : ReadSide) (c : Connection) (res : NetRes) :
    (netDataRead r c res).2.2.output = c.output := by
  simp only [netDataRead]
  split
  · rfl
  · cases res with
    | fail => rfl
    | bytes n => rfl

/-- The wire of an exchange that has made the calls of `q`. -/
def Transferred (texts : Texts) (base : Bytes) (blocks : List Bytes) (q q' : Exchange τ) : Prop :=
  Emitted texts base q'.write q'.conn.output blocks ∧ q'.calls = q.calls

theorem bodyReceive_emitted {q : Exchange τ} {read : Option NetRes}
    (emitted : Emitted texts base q.write q.conn.output blocks) :
    (bodyReceive q read).All (Transferred texts base blocks q) (Transferred texts base blocks q) := by
  cases read with
  | none => exact ⟨emitted, rfl⟩
  | some res =>
      have output := netDataRead_output q.read q.conn res
      simp only [bodyReceive]
      split
      · rename_i r c read
        rw [read] at output
        exact ⟨output ▸ emitted, rfl⟩
      · rename_i ret r c _ read
        rw [read] at output
        exact ⟨output ▸ emitted, rfl⟩

theorem bodySend_emitted {q : Exchange τ} {write : Option NetRes}
    (emitted : Emitted texts base q.write q.conn.output blocks) :
    (bodySend texts q write).All (Transferred texts base blocks q) (Transferred texts base blocks q) := by
  cases write with
  | none => exact ⟨emitted, rfl⟩
  | some res =>
      have started : Emitted texts base (if q.write.dataLocked = false ∧ q.write.status = .nothing then
          (updateSendStatus texts q.write).2 else q.write) q.conn.output blocks := by
        split
        · rename_i fresh
          exact (emitted.update (.inl (emitted.idle_of_nothing fresh.2))).1
        · exact emitted
      simp only [bodySend]
      split
      · exact ⟨started, rfl⟩
      · rename_i w c sent
        exact ⟨started.send sent, rfl⟩

/-- Reads and writes of the socket keep the wire in order. -/
theorem bodyTransfer_emitted (q : Exchange τ) (read write : Option NetRes)
    (emitted : Emitted texts base q.write q.conn.output blocks) :
    (bodyTransfer texts q read write).All (Transferred texts base blocks q) (Transferred texts base blocks q) := by
  refine (bodyReceive_emitted emitted).bind (fun q1 received => ?_)
  have same : ∀ q2, Transferred texts base blocks q1 q2 → Transferred texts base blocks q q2 :=
    fun q2 sent => ⟨sent.1, sent.2.trans received.2⟩
  exact (bodySend_emitted received.1).imp same same

theorem Emitted.relock (emitted : Emitted texts base w out blocks) (locked : Bool) :
    Emitted texts base { w with dataLocked := locked } out blocks := by
  cases emitted with
  | nothing status idle sent => exact .nothing status idle sent
  | heads status hasbody loaded sent => exact .heads status hasbody loaded sent
  | body status headed hasbody loaded each sent => exact .body status headed hasbody loaded each sent
  | last status headed hasbody loaded each sent => exact .last status headed hasbody loaded each sent
  | nobody status headed hasbody loaded sent => exact .nobody status headed hasbody loaded sent

namespace LoopEmitted

variable {s t : BodyLoop τ}

/-- The wire depends on the lock, the read side and the data of the service in nothing. -/
theorem of_same (emitted : LoopEmitted texts base s) (point : t.point = s.point)
    (write : t.q.write = { s.q.write with dataLocked := t.q.write.dataLocked })
    (output : t.q.conn.output = s.q.conn.output)
    (calls : producedData t.q.calls = producedData s.q.calls)
    (formatted : t.hasFormatedData = s.hasFormatedData) (pointer : t.rchunkdata = s.rchunkdata) :
    LoopEmitted texts base t := by
  cases emitted with
  | settled blocks emitted produced formatted' =>
      refine .settled blocks ?_ (calls.trans produced) ?_
      · rw [write, output]
        exact emitted.relock _
      · rw [point, formatted, write]
        exact formatted'
  | filling blocks raw inner filling produced unformatted pointer' =>
      refine .filling blocks raw (point.trans inner) ?_ (calls.trans produced) (formatted.trans unformatted) ?_
      · rw [write, output]
        exact ⟨filling.status, filling.hasbody, filling.count, filling.filled, filling.small, filling.each,
          filling.sent⟩
      · rw [pointer]
        exact pointer'

theorem begun (emitted : LoopEmitted texts base s) {q : Exchange τ}
    (code : q.write.returnCode = s.q.write.returnCode) (entities : q.write.entities = s.q.write.entities)
    (output : q.conn.output = s.q.conn.output) (calls : producedData s.q.calls <+: producedData q.calls) :
    Begun texts base q := by
  cases emitted with
  | settled blocks emitted produced formatted =>
      rcases emitted.begun (produced ▸ List.prefix_rfl) with none | ⟨t, blocks', tail, headed, sent, each, ended, part⟩
      · exact .inl (output.trans none)
      · refine .inr ⟨t, blocks', tail, ?_, output ▸ sent, each, ended, part.trans calls⟩
        rwa [Headed, code, entities]
  | filling blocks raw inner filling produced unformatted pointer =>
      obtain ⟨t, headed, sent⟩ := filling.sent
      refine .inr ⟨t, blocks, [], ?_, ?_, filling.each, .inl rfl, ?_⟩
      · rwa [Headed, code, entities]
      · rw [output, sent, List.append_nil]
      · exact List.IsPrefix.trans ⟨raw, produced.symm⟩ calls

end LoopEmitted

/-- An empty `wbuf` may be given to the service. -/
theorem bodyAnchor_emitted {s : BodyLoop τ} (emitted : LoopEmitted texts base s) (inner : s.point = .inner)
    (body : s.q.write.status = .body) :
    LoopEmitted texts base (bodyAnchor s) ∧ (s.hasFormatedData = false →
      ∃ blocks raw, Filling texts base (bodyAnchor s).q.write (bodyAnchor s).q.conn.output blocks raw ∧
        producedData (bodyAnchor s).q.calls = blocks.flatten ++ raw ∧
        (bodyAnchor s).rchunkdata = some (extraChunkSize + raw.length)) := by
  cases emitted with
  | settled blocks emitted produced formatted =>
      obtain ⟨has, busy⟩ := formatted inner body
      rw [bodyAnchor, if_neg busy]
      exact ⟨.settled blocks emitted produced formatted, fun none => absurd has (by simp [none])⟩
  | filling blocks raw inner filling produced unformatted pointer =>
      rw [bodyAnchor]
      split
      · rename_i idle
        have empty : raw = [] := by
          have count := filling.count
          exact List.length_eq_zero_iff.mp (by omega)
        subst empty
        have anchored : Filling texts base { s.q.write with pstrblockResponce := .wbuf extraChunkSize }
            s.q.conn.output blocks [] :=
          ⟨filling.status, filling.hasbody, filling.count, filling.filled, filling.small, filling.each,
            filling.sent⟩
        exact ⟨.filling blocks [] inner anchored produced unformatted (by simp),
          fun _ => ⟨blocks, [], anchored, produced, rfl⟩⟩
      · rename_i busy
        have nonempty : raw ≠ [] := by
          rintro rfl
          exact busy filling.count
        exact ⟨.filling blocks raw inner filling produced unformatted pointer,
          fun _ => ⟨blocks, raw, filling, produced, pointer nonempty⟩⟩

theorem bodyAnchor_frame (s : BodyLoop τ) :
    (bodyAnchor s).q.calls = s.q.calls ∧ (bodyAnchor s).point = s.point ∧
      (bodyAnchor s).hasFormatedData = s.hasFormatedData := by
  rw [bodyAnchor]
  split <;> exact ⟨rfl, rfl, rfl⟩

/-- The space a round of the inner loop gives to the service. -/
theorem bodyRoom_emitted {s : BodyLoop τ} (emitted : LoopEmitted texts base s) (inner : s.point = .inner) :
    LoopEmitted texts base (bodyRoom s).1 ∧ (bodyRoom s).1.point = .inner ∧
      (bodyRoom s).1.q.calls = s.q.calls ∧
      ((bodyRoom s).2 = 0 ∨ (bodyRoom s).1.hasFormatedData = false ∧ ∃ blocks raw,
        Filling texts base (bodyRoom s).1.q.write (bodyRoom s).1.q.conn.output blocks raw ∧
        producedData (bodyRoom s).1.q.calls = blocks.flatten ++ raw ∧
        (bodyRoom s).1.rchunkdata = some (extraChunkSize + raw.length) ∧
        raw.length + (bodyRoom s).2 = maxChunkSize) := by
  obtain ⟨calls, point, formatted⟩ := bodyAnchor_frame s
  simp only [bodyRoom]
  split
  · rename_i open_
    obtain ⟨anchored, room⟩ := bodyAnchor_emitted emitted inner open_.1
    split
    · rename_i some
      obtain ⟨blocks, raw, filling, produced, pointer⟩ := room (formatted ▸ some.2)
      have count := filling.count
      refine ⟨anchored, point.trans inner, calls, .inr ⟨some.2, blocks, raw, filling, produced, pointer, ?_⟩⟩
      omega
    · exact ⟨anchored.of_same rfl rfl rfl rfl rfl rfl, point.trans inner, calls, .inl rfl⟩
  · exact ⟨emitted, inner, rfl, .inl rfl⟩

/-- What the callback leaves in `*wlen` when it does not fail. -/
theorem IoModule.length_cases (m : IoModule τ) (t : τ) (c : IoCall) (works : (m.io t c).1.failed = false) :
    (m.io t c).1.produced.data = [] ∧ (∀ n, (m.io t c).1.produced.length n ≤ 0) ∨
      ∃ data, data ≠ [] ∧ (m.io t c).1.produced = .bytes data ∧ data.length ≤ c.space := by
  cases produced : (m.io t c).1.produced with
  | bytes data =>
      by_cases empty : data = []
      · exact .inl ⟨empty, by simp [Produced.length, empty]⟩
      · exact .inr ⟨data, empty, rfl, m.room t c data produced⟩
  | eof => exact .inl ⟨rfl, by simp [Produced.length, ciEof]⟩
  | error => exact .inl ⟨rfl, by simp [Produced.length]⟩
  | untouched =>
      have failed := m.touched t c produced
      rw [works] at failed
      cases failed

theorem Filling.add {raw : Bytes} (data : Bytes) (f : Filling texts base w out blocks raw) (locked : Bool)
    (small : raw.length + data.length ≤ maxChunkSize) :
    Filling texts base { w with
      wbuf := w.wbuf.write (extraChunkSize + raw.length) data
      dataLocked := locked
      remainSendBlockBytes := w.remainSendBlockBytes + data.length } out blocks (raw ++ data) := by
  have total : wbufSize = extraChunkSize + maxChunkSize + 2 := by decide
  refine ⟨f.status, f.hasbody, ?_, ?_, by simpa using small, f.each, f.sent⟩
  · have count := f.count
    simp only [List.length_append]
    omega
  · rw [List.length_append, Buffer.read_add, Buffer.read_write_same _ _ _ (by omega),
      Buffer.read_write_apart _ _ _ _ _ (by omega) (.inl (by omega)), f.filled]

/-- A call of the service that does not fail adds its data to `wbuf`. -/
theorem bodyTake_emitted {s : BodyLoop τ} {rbytes : Nat} {c : IoCall} (emitted : LoopEmitted texts base s)
    (inner : s.point = .inner) (space : c.space ≤ rbytes)
    (room : rbytes = 0 ∨ s.hasFormatedData = false ∧ ∃ blocks raw,
      Filling texts base s.q.write s.q.conn.output blocks raw ∧
      producedData s.q.calls = blocks.flatten ++ raw ∧
      s.rchunkdata = some (extraChunkSize + raw.length) ∧ raw.length + rbytes = maxChunkSize)
    (works : (m.io s.q.data c).1.failed = false) :
    LoopEmitted texts base (bodyTake { s with q := (s.q.call m (s.rchunkdata.getD 0) c).2 } rbytes
      (m.io s.q.data c).1) := by
  have output : (m.io s.q.data c).1.output = (m.io s.q.data c).1.produced.data := by
    simp [IoAnswer.output, works]
  rcases m.length_cases s.q.data c works with ⟨none, short⟩ | ⟨data, nonempty, produced, fits⟩
  · have count : ¬ 0 < (m.io s.q.data c).1.produced.length rbytes := Int.not_lt.mpr (short rbytes)
    refine emitted.of_same rfl ?_ rfl ?_ rfl ?_
    · simp only [bodyTake, Exchange.call, none, Buffer.write_nil, if_neg count]
    · change producedData (s.q.calls ++ [(c, (m.io s.q.data c).1)]) = _
      rw [producedData_append, output, none, List.append_nil]
    · simp only [bodyTake, if_neg count]
  · have positive := List.length_pos_iff.mpr nonempty
    rcases room with zero | ⟨unformatted, blocks, raw, filling, before, pointer, full⟩
    · omega
    · have more : 0 < (data.length : Int) := by omega
      have added := filling.add data (m.io s.q.data c).1.dataLocked (by omega)
      refine .filling blocks (raw ++ data) inner ?_ ?_ unformatted ?_
      · simp only [bodyTake, Exchange.call, produced, Produced.length, Produced.data, if_pos more, pointer,
          Option.getD_some]
        exact added
      · change producedData (s.q.calls ++ [(c, (m.io s.q.data c).1)]) = _
        rw [producedData_append, output, before, produced, Produced.data, List.append_assoc]
      · intro _
        simp only [bodyTake, produced, Produced.length, if_pos more, pointer, Option.map_some,
          List.length_append, Int.toNat_natCast, Nat.add_assoc]

theorem bodyFrame_filling {s : BodyLoop τ} {raw : Bytes}
    (filling : Filling texts base s.q.write out blocks raw) (unformatted : s.hasFormatedData = false) :
    ∃ blocks', Emitted texts base (bodyFrame s) out blocks' ∧ blocks'.flatten = blocks.flatten ++ raw := by
  have formatted : ¬ s.hasFormatedData = true := by simp [unformatted]
  have count := filling.count
  simp only [bodyFrame]
  rw [if_pos filling.status, if_neg formatted]
  by_cases empty : raw = []
  · subst empty
    refine ⟨blocks, ?_, (List.append_nil _).symm⟩
    split
    · obtain ⟨t, headed, sent⟩ := filling.sent
      exact frameBody_last _ headed filling.hasbody rfl filling.each sent
    · exact filling.none _
  · have positive := List.length_pos_iff.mpr empty
    rw [if_neg (fun both => by omega)]
    exact ⟨blocks ++ [raw], filling.data _ empty, by simp⟩

/-- What follows the inner loop frames the data that was collected. -/
theorem bodyFormat_emitted {s : BodyLoop τ} (emitted : LoopEmitted texts base s) (inner : s.point = .inner) :
    LoopEmitted texts base (bodyFormat s) := by
  cases emitted with
  | settled blocks emitted produced formatted =>
      have same : bodyFrame s = s.q.write := by
        simp only [bodyFrame]
        split
        · rename_i body
          obtain ⟨has, busy⟩ := formatted inner body
          rw [if_pos has, if_neg (fun both => busy both.1)]
        · rfl
      refine .settled blocks ?_ produced (by simp [bodyFormat])
      simp only [bodyFormat, same]
      exact emitted
  | filling blocks raw _ filling produced unformatted pointer =>
      obtain ⟨blocks', framed, whole⟩ := bodyFrame_filling filling unformatted
      exact .settled blocks' framed (produced.trans whole.symm) (by simp [bodyFormat])

/-- What `get_send_body` leaves behind. -/
structure BodyEmitted (texts : Texts) (base : Bytes) (out : CiRet × Exchange τ) : Prop where
  wire : Begun texts base out.2
  whole : out.1 = .ok → ∃ blocks, Emitted texts base out.2.write out.2.conn.output blocks ∧
    producedData out.2.calls = blocks.flatten
  failure : ∀ c ∈ out.2.calls, c.2.failed = true → out.1 = .error
  before : ∀ c ∈ out.2.calls.dropLast, c.2.failed = false

theorem Emitted.bodyEmitted {q : Exchange τ} (emitted : Emitted texts base q.write q.conn.output blocks)
    (produced : producedData q.calls = blocks.flatten) (works : ∀ c ∈ q.calls, c.2.failed = false) (ret : CiRet) :
    BodyEmitted texts base (ret, q) where
  wire := emitted.begun (produced ▸ List.prefix_rfl)
  whole _ := ⟨blocks, emitted, produced⟩
  failure c member failed := by
    rw [works c member] at failed
    cases failed
  before c member := works c (List.mem_of_mem_dropLast member)

theorem bodyWait_emitted {s : BodyLoop τ} (emitted : Emitted texts base s.q.write s.q.conn.output blocks) :
    (bodyWait texts s).All (Transferred texts base blocks s.q)
      (fun out => Transferred texts base blocks s.q out.2) := by
  simp only [bodyWait]
  split
  · split
    · rename_i conn wait
      have output : conn.output = s.q.conn.output := by
        rw [Connection.waitForData_frame wait]
      exact ⟨output ▸ emitted, rfl⟩
    · rename_i read write conn wait
      have output : conn.output = s.q.conn.output := by
        rw [Connection.waitForData_frame wait]
      have moved := bodyTransfer_emitted { s.q with conn := conn } read write
        (output ▸ emitted)
      split
      · rename_i q result
        rw [result] at moved
        exact moved
      · rename_i q result
        rw [result] at moved
        exact moved
  · exact ⟨emitted, rfl⟩

theorem Emitted.filling (emitted : Emitted texts base w out blocks) (body : w.status = .body)
    (idle : w.remainSendBlockBytes = 0) : Filling texts base w out blocks [] := by
  cases emitted with
  | nothing status idle' sent =>
      rw [body] at status
      cases status
  | heads status hasbody loaded sent =>
      rw [body] at status
      cases status
  | @body t _ status headed hasbody loaded each sent =>
      rw [pending_idle idle, List.append_nil] at sent
      exact ⟨status, hasbody, idle, Buffer.read_zero _ _, Nat.zero_le _, each, t, headed, sent⟩
  | last status headed hasbody loaded each sent =>
      rw [body] at status
      cases status
  | nobody status headed hasbody loaded sent =>
      rw [body] at status
      cases status

/-- The calls of a run, none of which has failed. -/
def Working (calls : List (IoCall × IoAnswer)) : Prop := ∀ c ∈ calls, c.2.failed = false

/-- The wire in a state of a run that goes on. -/
def LoopOpen (texts : Texts) (base : Bytes) (s : BodyLoop τ) : Prop :=
  LoopEmitted texts base s ∧ Working s.q.calls

/-- The inner loop is entered with a framed block, or with an empty `wbuf`. -/
theorem bodyEnter_emitted {s : BodyLoop τ} {q : Exchange τ}
    (emitted : Emitted texts base q.write q.conn.output blocks)
    (produced : producedData q.calls = blocks.flatten) (works : Working q.calls) :
    (bodyEnter texts s q).All (LoopOpen texts base) (BodyEmitted texts base) := by
  have entered : ∀ u : CiRet × WriteSide, u = (if q.write.dataLocked = false ∧ q.write.remainSendBlockBytes = 0
      then updateSendStatus texts q.write else (.ok, q.write)) →
      Emitted texts base u.2 q.conn.output blocks ∧ u.1 ≠ .error := by
    rintro u rfl
    split
    · rename_i free
      obtain ⟨emitted', answer⟩ := emitted.update (.inl free.2)
      refine ⟨emitted', ?_⟩
      rcases answer with ok | ⟨eof, -, -⟩
      · simp [ok]
      · simp [eof]
    · exact ⟨emitted, by simp⟩
  simp only [bodyEnter]
  split
  · rename_i w updated
    exact absurd rfl (entered _ updated.symm).2
  · rename_i ret w _ updated
    replace entered := (entered _ updated.symm).1
    refine ⟨?_, works⟩
    by_cases fresh : w.status = .body ∧ w.remainSendBlockBytes = 0
    · exact .filling blocks [] rfl (entered.filling fresh.1 fresh.2) (produced.trans (List.append_nil _).symm)
        (by simp [fresh.2]) (fun some => absurd rfl some)
    · refine .settled blocks entered produced (fun _ body => ?_)
      have busy : w.remainSendBlockBytes ≠ 0 := fun idle => fresh ⟨body, idle⟩
      exact ⟨by simpa using busy, busy⟩

theorem bodyRepeat_calls (noIo : Bool) (s : BodyLoop τ) : (bodyRepeat noIo s).q.calls = s.q.calls := by
  simp only [bodyRepeat]
  split <;> rfl

/-- A round of the inner loop keeps the wire in order. -/
theorem bodyServe_emitted {s : BodyLoop τ} (state : LoopOpen texts base s) (inner : s.point = .inner) :
    (bodyServe m s).All (LoopOpen texts base) (BodyEmitted texts base) := by
  obtain ⟨emitted, works⟩ := state
  obtain ⟨emitted', inner', calls, room⟩ := bodyRoom_emitted emitted inner
  simp only [bodyServe]
  split
  · rename_i failed
    refine ⟨emitted'.begun rfl rfl rfl ⟨_, (producedData_append _ _).symm⟩, ?_, fun c member failed => rfl, ?_⟩
    · intro ok
      cases ok
    · simp only [Exchange.call, List.dropLast_concat, calls]
      exact works
  · rename_i answer
    replace answer : (m.io (bodyRoom s).1.q.data (bodyCall (bodyRoom s).1 (bodyRoom s).2)).1.failed = false := by
      simpa [Exchange.call] using answer
    have space : (bodyCall (bodyRoom s).1 (bodyRoom s).2).space ≤ (bodyRoom s).2 := by
      cases pointer : (bodyRoom s).1.rchunkdata <;> simp [bodyCall, IoCall.space, pointer]
    have taken := bodyTake_emitted emitted' inner' space room answer
    refine ⟨?_, ?_⟩
    · simp only [bodyRepeat]
      split
      · exact taken
      · exact bodyFormat_emitted taken inner'
    · rw [bodyRepeat_calls]
      change Working ((bodyRoom s).1.q.calls ++ [(bodyCall (bodyRoom s).1 (bodyRoom s).2, _)])
      rw [calls]
      intro c member
      rcases List.mem_append.mp member with old | new
      · exact works c old
      · rw [List.mem_singleton.mp new]
        exact answer

theorem LoopEmitted.settle {s : BodyLoop τ} (emitted : LoopEmitted texts base s) (outer : s.point ≠ .inner) :
    ∃ blocks, Emitted texts base s.q.write s.q.conn.output blocks ∧ producedData s.q.calls = blocks.flatten := by
  cases emitted with
  | settled blocks emitted produced formatted => exact ⟨blocks, emitted, produced⟩
  | filling blocks raw inner filling produced unformatted pointer => exact absurd inner outer

/-- The parser touches nothing of the write side. -/
theorem bodyParse_emitted {s : BodyLoop τ} {fuel : Nat} {parsed : Step (BodyLoop τ) (CiRet × Exchange τ)}
    (state : LoopOpen texts base s) (inner : s.point = .inner) (result : bodyParse fuel s = some parsed) :
    parsed.All (fun t => LoopOpen texts base t ∧ t.point = .inner) (BodyEmitted texts base) := by
  obtain ⟨emitted, works⟩ := state
  simp only [bodyParse] at result
  split at result
  · split at result
    · cases result
    · split at result
      · cases result
        exact ⟨emitted.begun rfl rfl rfl List.prefix_rfl, fun ok => (nomatch ok), fun _ _ _ => rfl,
          fun c member => works c (List.mem_of_mem_dropLast member)⟩
      · cases result
        exact ⟨⟨emitted.of_same rfl rfl rfl rfl rfl rfl, works⟩, inner⟩
      · cases result
        exact ⟨⟨emitted.of_same rfl rfl rfl rfl rfl rfl, works⟩, inner⟩
  · cases result
    exact ⟨⟨emitted, works⟩, inner⟩

theorem bodyTop_emitted {s : BodyLoop τ} (state : LoopOpen texts base s) (top : s.point = .top) :
    (bodyTop texts s).All (LoopOpen texts base) (BodyEmitted texts base) := by
  obtain ⟨blocks, emitted, produced⟩ := state.1.settle (by simp [top])
  have waited := bodyWait_emitted emitted
  simp only [bodyTop]
  cases wait : bodyWait texts s with
  | done out =>
      rw [wait] at waited
      exact waited.1.bodyEmitted (waited.2 ▸ produced) (waited.2 ▸ state.2) out.1
  | next q =>
      rw [wait] at waited
      exact bodyEnter_emitted waited.1 (waited.2 ▸ produced) (waited.2 ▸ state.2)

theorem bodyTest_emitted {s : BodyLoop τ} (state : LoopOpen texts base s) (test : s.point = .test) :
    (bodyTest s).All (LoopOpen texts base) (BodyEmitted texts base) := by
  obtain ⟨blocks, emitted, produced⟩ := state.1.settle (by simp [test])
  simp only [bodyTest]
  split
  · exact ⟨.settled blocks emitted produced (fun inner => (nomatch inner)), state.2⟩
  · exact emitted.bodyEmitted produced state.2 _

/-- A step of `get_send_body` keeps the wire in order. -/
theorem bodyStep_emitted {s : BodyLoop τ} {fuel : Nat} (state : LoopOpen texts base s) :
    (bodyStep texts m fuel s).All (LoopOpen texts base) (BodyEmitted texts base) := by
  simp only [bodyStep]
  split
  · rename_i top
    exact bodyTop_emitted state top
  · rename_i inner
    split
    · exact state
    · rename_i parsed result
      exact (bodyParse_emitted state inner result).bind (fun t open_ => bodyServe_emitted open_.1 open_.2)
  · rename_i test
    exact bodyTest_emitted state test

/-- Whatever the service does, `get_send_body` sends the headers and the chunks of its data. -/
theorem getSendBody_emitted {q : Exchange τ} {out : CiRet × Exchange τ} {fuel : Nat} (fresh : q.calls = [])
    (idle : q.write.remainSendBlockBytes = 0) (result : getSendBody texts m fuel q = some out) :
    BodyEmitted texts q.conn.output out := by
  refine run_post (bodyStep texts m fuel) (LoopOpen texts q.conn.output) (BodyEmitted texts q.conn.output)
    (fun s state => bodyStep_emitted state) fuel _ out ?_ result
  refine ⟨.settled [] (.nothing rfl idle rfl) ?_ (fun inner => (nomatch inner)), ?_⟩
  · simp [BodyLoop.start, fresh, producedData]
  · simp [BodyLoop.start, fresh, Working]

end IcapService
