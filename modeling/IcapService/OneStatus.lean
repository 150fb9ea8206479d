import IcapService.DoRequest
import IcapService.Drain
import IcapService.PreviewRun
import IcapService.Quiet

/-! The final status line of a request.

A run of `do_request` writes at most one response besides the `100 Continue` line: a status of its
own, or a response header with the encapsulated headers and the chunks behind it. -/

namespace IcapService

open CString Machine Chunked

/-! ### The whole of `do_request` -/

/-- The codes a request is refused with. -/
def Ec.isError : Ec → Bool
  | .ec400 | .ec403 | .ec404 | .ec405 | .ec407 | .ec408 | .ec500 => true
  | _ => false

/-- What `do_request` finds before it comes to the service: nothing to answer, a header, a service or
a user it refuses, an `OPTIONS` request with the fields of its response, or a request to process. -/
inductive Opening where
  | silent
  | refused (ec : Ec) (error : ec.isError = true)
  | options (works : Bool) (fields : Bytes)
  | admitted

def optionsText (works : Bool) (fields : Bytes) : Bytes :=
  (if works then ascii "ICAP/1.0 200 OK\r\n" else ascii "ICAP/1.0 500 Server Error\r\n") ++ fields ++ crlf

section

variable {τ : Type}

/-- `options_responce` up to its loop. -/
def Exchange.startOptions (q : Exchange τ) (text : Bytes) : Exchange τ :=
  { q with
    write := { q.write with
      returnCode := .ec200
      pstrblockResponce := .text text
      remainSendBlockBytes := text.length } }

/-- A round of the loop of `options_responce`. -/
def optionsStep (q : Exchange τ) : Step (Exchange τ) (CiRet × Exchange τ) :=
  match q.conn.waitForData .forWrite with
  | (some (_, some res), conn) =>
      match sendCurrentBlockData q.write conn res with
      | none => .done (.ok, { q with conn := conn })
      | some (w, conn) =>
          if 0 < w.remainSendBlockBytes then .next { q with write := w, conn := conn }
          else .done (.ok, { q with write := w, conn := conn })
  | (_, conn) => .done (.ok, { q with conn := conn })

end

variable {σ : Type}

/-- Where `do_request` stands. -/
inductive Stage (σ : Type) where
  | opening (o : Opening) (q : Exchange (RequestData σ))
  | options (q : Exchange (RequestData σ))
  | phase (p : Phase σ)

def Phase.exchange : Phase σ → Exchange (RequestData σ)
  | .preview p => p.q
  | .skip s => s.q
  | .body s => s.q
  | .rest q => q

def Stage.exchange : Stage σ → Exchange (RequestData σ)
  | .opening _ q => q
  | .options q => q
  | .phase p => p.exchange

/-- One step of the whole of `do_request`. -/
def Setting.stageStep (S : Setting σ) : Stage σ → Step (Stage σ) (CiRet × Exchange (RequestData σ))
  | .opening .silent q => .done (.error, q)
  | .opening (.refused ec _) q => .done (.error, (ecResponce S.conf q ec).2)
  | .opening (.options works fields) q => .next (.options (q.startOptions (optionsText works fields)))
  | .opening .admitted q => (S.enter q).within .phase .done
  | .options q => (optionsStep q).within .options .done
  | .phase p => (S.step p).within .phase .done

/-! ### Responses -/

/-- The code `ec_responce` answers with. -/
def Conf.responceCode (conf : Conf) (ec : Ec) : Ec := if ec = .ec204 ∧ conf.allow204As200 then .ec200 else ec

/-- The response `ec_responce` writes. -/
def Conf.responceText (conf : Conf) (ec : Ec) : Bytes := statusLine ec ++ conf.ecFields ec ++ crlf

def continueText : Bytes := statusLine .ec100 ++ crlf

def headTexts (heads : List Entity) : Bytes := (heads.map (fun e => e.buf)).flatten

namespace Setting

variable (S : Setting σ) (q0 : Exchange (RequestData σ))

/-- The entities of a request: those it came with, and those a handler of the service makes of them. -/
inductive Holds : Entity → Prop where
  | own {e : Entity} (member : e ∈ q0.write.entities) : Holds e
  | preview {e : Entity} {handler : View → Bytes → σ → Effect σ} (found : S.svc.checkPreviewHandler = some handler)
      (view : View) (data : Bytes) (t : σ) (known : ∀ d ∈ view.entities, Holds d)
      (member : e ∈ (handler view data t).entities) : Holds e
  | endOfData {e : Entity} {handler : View → σ → Effect σ} (found : S.svc.endOfDataHandler = some handler)
      (view : View) (t : σ) (known : ∀ d ∈ view.entities, Holds d) (member : e ∈ (handler view t).entities) : Holds e

/-- The parts of a response behind its header. -/
structure Parts (heads : List Entity) (blocks : List Bytes) (tail : Bytes) : Prop where
  heads : ∀ e ∈ heads, e.isHeader = true ∧ S.Holds q0 e
  blocks : ∀ b ∈ blocks, Block b
  tail : tail = [] ∨ ∃ l : LastChunk, tail = l.encode

def text (ec : Ec) (heads : List Entity) (blocks : List Bytes) (tail : Bytes) : Bytes :=
  S.texts.responceHeader ec ++ (headTexts heads ++ (chunkTexts blocks ++ tail))

/-- The responses with one final status line. -/
inductive Final : Opening → Bytes → Prop where
  | status (o : Opening) (ec : Ec) : Final o (S.conf.responceText ec)
  | response (ec : Ec) {heads : List Entity} {blocks : List Bytes} {tail : Bytes} (parts : S.Parts q0 heads blocks tail) :
      Final .admitted (S.text ec heads blocks tail)
  | options (works : Bool) (fields : Bytes) : Final (.options works fields) (optionsText works fields)

/-- The end of the preview in a run: there is no body, or it has been read. -/
inductive PreviewEnd : CiRet → Exchange (RequestData σ) → Bytes → Prop where
  | null (nobody : S.info.hasbody = false) : PreviewEnd .eof q0 []
  | read {p : PreviewLoop (RequestData σ)} {out : CiRet × PreviewLoop (RequestData σ)}
      (visited : Visits S.step (.preview (.start q0)) (.preview p))
      (result : previewStep S.size S.fuel p = .done out) : PreviewEnd out.1 out.2.q out.2.previewData

/-- The service decided on a 204 while the preview was being handled. -/
def Decided204 : Prop :=
  S.info.preview.isSome = true ∧ ∃ status q data handler, S.PreviewEnd q0 status q data ∧ status ≠ .error ∧
    S.svc.checkPreviewHandler = some handler ∧ (handler (S.view q) data q.data.service).ret = .allow204

/-- A 204 may be written. -/
def Allowed204 : Prop := S.info.allow204 = true ∨ S.Decided204 q0

/-- What has been written for a request: a part of the `100 Continue` line and of one response, which
is a 204 only where that is allowed. -/
def OneFinal (o : Opening) (out : Bytes) : Prop :=
  ∃ interim final m, out = q0.conn.output ++ (interim ++ final) ∧ interim <+: continueText ∧ S.Final q0 o m ∧
    final <+: m ∧ (ascii "ICAP/1.0 204" <+: final → S.Allowed204 q0)

/-- The service holds the data back when it answers 204 to a request whose body is thrown away. -/
def SkipsLocked : Prop :=
  S.info.preview = none → S.info.hasbody = true → S.info.allow204 = true →
    ∀ handler, S.svc.checkPreviewHandler = some handler →
      (handler (S.view q0) [] q0.data.service).ret = .allow204 →
      (handler (S.view q0) [] q0.data.service).dataLocked = true

end Setting

/-! ### Writes -/

/-- `ci_write` writes a part of its data, and all of it when it succeeds. -/
theorem writeEvents_prefix (sched : List NetEvent) (data : Bytes) :
    (writeEvents sched data).2.1 <+: data ∧ ((writeEvents sched data).1 = true → (writeEvents sched data).2.1 = data) := by
  fun_induction writeEvents sched data with
  | case1 sched => exact ⟨List.prefix_rfl, fun _ => rfl⟩
  | case2 data => exact ⟨List.nil_prefix, fun works => nomatch works⟩
  | case3 rest data => exact ⟨List.nil_prefix, fun works => nomatch works⟩
  | case4 _ rest data _ ih => exact ih
  | case5 _ rest data => exact ⟨List.nil_prefix, fun works => nomatch works⟩
  | case6 _ n rest data _ out ih =>
      obtain ⟨part, whole⟩ := ih
      refine ⟨?_, fun works => ?_⟩
      · obtain ⟨behind, same⟩ := part
        exact ⟨behind, by rw [List.append_assoc, same, List.take_append_drop]⟩
      · rw [whole works, List.take_append_drop]

section

variable {τ : Type} (conf : Conf) (q : Exchange τ) (ec : Ec)

/-- What `ec_responce` does. -/
structure Responded (out : Bool × Exchange τ) (sent : Bytes) : Prop where
  output : out.2.conn.output = q.conn.output ++ sent
  part : sent <+: conf.responceText (conf.responceCode ec)
  whole : out.1 = true → sent = conf.responceText (conf.responceCode ec)
  status : out.2.write.status = .eof
  code : out.2.write.returnCode = conf.responceCode ec
  entities : out.2.write.entities = q.write.entities
  remain : out.2.write.remainSendBlockBytes = q.write.remainSendBlockBytes
  lock : out.2.write.dataLocked = q.write.dataLocked
  calls : out.2.calls = q.calls

theorem ecResponce_responded : ∃ sent, Responded conf q ec (ecResponce conf q ec) sent := by
  have written := writeEvents_prefix q.conn.sched (conf.responceText (conf.responceCode ec))
  exact ⟨_, rfl, written.1, written.2, rfl, rfl, rfl, rfl, rfl, rfl⟩

end

theorem sendCurrentBlockData_grows {w w' : WriteSide} {c c' : Connection} {res : NetRes}
    (wrote : sendCurrentBlockData w c res = some (w', c')) : c.output <+: c'.output := by
  simp only [sendCurrentBlockData] at wrote
  split at wrote
  · cases wrote
    exact List.prefix_rfl
  · cases res with
    | fail => simp [Connection.writeNonblock] at wrote
    | bytes n =>
        simp only [Connection.writeNonblock, Option.some.injEq, Prod.mk.injEq] at wrote
        rw [← wrote.2]
        exact List.prefix_append _ _

/-- A response that starts with the status line of another code is not a 204. -/
theorem status_not_204 {ec : Ec} {m : Bytes} (other : ec ≠ .ec204) (line : statusLine ec <+: m) :
    ¬ ascii "ICAP/1.0 204" <+: m := by
  intro found
  have long : (ascii "ICAP/1.0 204").length ≤ (statusLine ec).length := by cases ec <;> decide
  have inside := List.prefix_of_prefix_length_le found line long
  cases ec with
  | ec204 => exact other rfl
  | _ => exact absurd inside (by decide)

theorem responceText_line (conf : Conf) (ec : Ec) : statusLine ec <+: conf.responceText ec := by
  rw [Conf.responceText, List.append_assoc]
  exact List.prefix_append _ _

/-! ### The response while it is sent -/

/-- A block in `wbuf`, whatever it holds, is sent as a chunk. -/
theorem frameBody_chunk (original : Int) {w : WriteSide} {n : Nat} (hasbody : w.responceHasbody = true)
    (count : w.remainSendBlockBytes = n) (some : 0 < n) (small : n ≤ maxChunkSize) :
    ∃ raw, Block raw ∧ (frameBody original w).pending = chunkText raw ∧ (frameBody original w).Loaded ∧
      SameResponse (frameBody original w) w := by
  have total : wbufSize = extraChunkSize + maxChunkSize + 2 := by decide
  have length := Buffer.read_length w.wbuf extraChunkSize n (by omega)
  generalize contents : w.wbuf.read extraChunkSize n = raw at length
  have nonempty : raw ≠ [] := by
    rintro rfl
    simp only [List.length_nil] at length
    omega
  exact ⟨raw, ⟨nonempty, by omega⟩, frameBody_data original nonempty hasbody (by omega) (by rw [count, length])
    (by rw [length, contents])⟩

namespace Setting

variable (S : Setting σ) (q0 : Exchange (RequestData σ))

/-- How far the parts of a response go at a status: there are no chunks among the headers, and no last
chunk before the end. -/
structure Place (w : WriteSide) (blocks : List Bytes) (tail : Bytes) : Prop where
  started : w.status ≠ .nothing
  heads : w.status ≠ .body → w.status ≠ .eof → blocks = [] ∧ tail = []
  body : w.status = .body → tail = [] ∧ w.responceHasbody = true

/-- What has been sent on top of `base`: nothing, a status of `ec_responce`, or the response as far as it
goes. -/
inductive Answering (base : Bytes) (w : WriteSide) (out : Bytes) : Prop where
  | nothing (status : w.status = .nothing) (idle : w.remainSendBlockBytes = 0) (sent : out = base)
  | closed {final : Bytes} {ec : Ec} (status : w.status = .eof) (idle : w.remainSendBlockBytes = 0)
      (sent : out = base ++ final) (part : final <+: S.conf.responceText ec) (allowed : ec = .ec204 → S.Allowed204 q0)
  | going (ec : Ec) (heads : List Entity) (blocks : List Bytes) (tail : Bytes) (place : Place w blocks tail)
      (other : ec ≠ .ec204) (parts : S.Parts q0 heads blocks tail) (loaded : w.Loaded) (grown : base <+: out)
      (sent : out ++ w.pending = base ++ S.text ec heads blocks tail)

/-- The requests whose response may be sent: the headers are known, and it is not a 204. -/
structure Speaking (w : WriteSide) : Prop where
  code : w.returnCode ≠ .ec204
  held : ∀ e ∈ w.entities, S.Holds q0 e

end Setting

section

variable {S : Setting σ} {q0 : Exchange (RequestData σ)} {base out : Bytes} {w w' : WriteSide}

open Setting

theorem headTexts_append (heads : List Entity) (e : Entity) : headTexts (heads ++ [e]) = headTexts heads ++ e.buf := by
  simp [headTexts]

theorem Setting.text_head (ec : Ec) (heads : List Entity) (e : Entity) :
    S.text ec (heads ++ [e]) [] [] = S.text ec heads [] [] ++ e.buf := by
  simp [text, headTexts_append, chunkTexts]

theorem Setting.text_chunk (ec : Ec) (heads : List Entity) (blocks : List Bytes) (raw tail : Bytes) :
    S.text ec heads (blocks ++ [raw]) tail = S.text ec heads blocks [] ++ (chunkText raw ++ tail) := by
  simp [text, chunkTexts_append]

theorem Setting.text_tail (ec : Ec) (heads : List Entity) (blocks : List Bytes) (tail : Bytes) :
    S.text ec heads blocks tail = S.text ec heads blocks [] ++ tail := by
  simp [text]

theorem Setting.Parts.head {heads : List Entity} {e : Entity} (parts : S.Parts q0 heads [] [])
    (header : e.isHeader = true) (held : S.Holds q0 e) : S.Parts q0 (heads ++ [e]) [] [] := by
  refine ⟨fun d member => ?_, by simp, .inl rfl⟩
  rcases List.mem_append.mp member with old | new
  · exact parts.heads d old
  · rw [List.mem_singleton.mp new]
    exact ⟨header, held⟩

theorem Setting.Parts.chunk {heads : List Entity} {blocks : List Bytes} {raw : Bytes}
    (parts : S.Parts q0 heads blocks []) (block : Block raw) : S.Parts q0 heads (blocks ++ [raw]) [] := by
  refine ⟨parts.heads, fun b member => ?_, .inl rfl⟩
  rcases List.mem_append.mp member with old | new
  · exact parts.blocks b old
  · rw [List.mem_singleton.mp new]
    exact block

theorem Setting.Parts.last {heads : List Entity} {blocks : List Bytes} (parts : S.Parts q0 heads blocks [])
    (l : LastChunk) : S.Parts q0 heads blocks l.encode := ⟨parts.heads, parts.blocks, .inr ⟨l, rfl⟩⟩

namespace Setting.Answering

/-- Only the block that waits and the status matter. -/
theorem same (answering : S.Answering q0 base w out) (status : w'.status = w.status)
    (remain : w'.remainSendBlockBytes = w.remainSendBlockBytes) (pending : w'.pending = w.pending)
    (hasbody : w'.responceHasbody = w.responceHasbody) : S.Answering q0 base w' out := by
  cases answering with
  | nothing status' idle sent => exact .nothing (status.trans status') (remain.trans idle) sent
  | closed status' idle sent part allowed =>
      exact .closed (status.trans status') (remain.trans idle) sent part allowed
  | going ec heads blocks tail place other parts loaded grown sent =>
      refine .going _ _ _ _ ⟨?_, ?_, ?_⟩ other parts ?_ grown (by rwa [pending])
      · rw [status]
        exact place.started
      · rw [status]
        exact place.heads
      · rw [status, hasbody]
        exact place.body
      · rw [WriteSide.Loaded, remain, pending]
        exact loaded

theorem idle (answering : S.Answering q0 base w out) (unsent : ¬ 0 < w.remainSendBlockBytes) :
    w.remainSendBlockBytes = 0 := by
  cases answering with
  | nothing status idle sent => exact idle
  | closed status idle sent part allowed => exact idle
  | going ec heads blocks tail place other parts loaded grown sent =>
      rw [WriteSide.Loaded] at loaded
      omega

/-- What has been sent is a part of one response. -/
theorem part (answering : S.Answering q0 base w out) (line : ∀ ec, statusLine ec <+: S.texts.responceHeader ec) :
    ∃ final m, out = base ++ final ∧ S.Final q0 .admitted m ∧ final <+: m ∧
      (ascii "ICAP/1.0 204" <+: final → S.Allowed204 q0) := by
  cases answering with
  | nothing status idle sent =>
      refine ⟨[], _, by simp [sent], .status _ .ec500, List.nil_prefix, fun found => ?_⟩
      exact absurd found (by decide)
  | @closed final ec status idle sent part allowed =>
      refine ⟨final, _, sent, .status _ ec, part, fun found => ?_⟩
      by_cases given : ec = .ec204
      · exact allowed given
      · exact absurd (found.trans part) (status_not_204 given (responceText_line S.conf ec))
  | going ec heads blocks tail place other parts loaded grown sent =>
      obtain ⟨final, rfl⟩ := grown
      rw [List.append_assoc, List.append_cancel_left_eq] at sent
      have part : final <+: S.text ec heads blocks tail := ⟨w.pending, sent⟩
      refine ⟨final, _, rfl, .response ec parts, part, fun found => ?_⟩
      exact absurd (found.trans part) (status_not_204 other ((line ec).trans (List.prefix_append _ _)))

/-- A write to the socket. -/
theorem send {c c' : Connection} {res : NetRes} (answering : S.Answering q0 base w c.output)
    (wrote : sendCurrentBlockData w c res = some (w', c')) : S.Answering q0 base w' c'.output := by
  have none : w.remainSendBlockBytes = 0 → w' = w ∧ c' = c := by
    intro idle
    rw [sendCurrentBlockData, if_pos idle] at wrote
    cases wrote
    exact ⟨rfl, rfl⟩
  cases answering with
  | nothing status idle sent =>
      obtain ⟨rfl, rfl⟩ := none idle
      exact .nothing status idle sent
  | closed status idle sent part allowed =>
      obtain ⟨rfl, rfl⟩ := none idle
      exact .closed status idle sent part allowed
  | going ec heads blocks tail place other parts loaded grown sent =>
      obtain ⟨same, loaded', status, -, -, hasbody, -⟩ := sendCurrentBlockData_spec loaded wrote
      refine .going _ _ _ _ ⟨?_, ?_, ?_⟩ other parts loaded' (grown.trans (sendCurrentBlockData_grows wrote)) (same.trans sent)
      · rw [status]
        exact place.started
      · rw [status]
        exact place.heads
      · rw [status, hasbody]
        exact place.body

/-- The headers are over: the body follows, or nothing. -/
theorem headsOver {ec : Ec} {heads : List Entity} (other : ec ≠ .ec204) (parts : S.Parts q0 heads [] [])
    (idle : w.remainSendBlockBytes = 0) (sent : out = base ++ S.text ec heads [] []) :
    S.Answering q0 base (headsOver w).2 out := by
  have grown : base <+: out := ⟨_, sent.symm⟩
  simp only [IcapService.headsOver]
  split
  · rename_i hasbody
    refine .going _ _ _ _ ⟨by simp, by simp, fun _ => ⟨rfl, hasbody⟩⟩ other parts (loaded_idle idle) grown ?_
    rw [pending_idle (w := { w with status := .body }) idle, List.append_nil, sent]
  · refine .going _ _ _ _ ⟨by simp, by simp, by simp⟩ other parts (loaded_idle rfl) grown ?_
    simp [WriteSide.pending, sent]

/-- The block behind a header block. -/
theorem sendHead (status : SendStatus) (i : Nat) {ec : Ec} {heads : List Entity} (other : ec ≠ .ec204)
    (parts : S.Parts q0 heads [] []) (held : ∀ e ∈ w.entities, S.Holds q0 e) (idle : w.remainSendBlockBytes = 0)
    (sent : out = base ++ S.text ec heads [] []) (heading : status ≠ .nothing ∧ status ≠ .body) :
    S.Answering q0 base (sendHead w status i).2 out := by
  have last := headsOver (w := w) other parts idle sent
  simp only [IcapService.sendHead]
  split
  · rename_i e entity
    split
    · rename_i header
      refine .going _ _ _ _ ⟨heading.1, fun _ _ => ⟨rfl, rfl⟩, fun body => absurd body heading.2⟩ other
        (parts.head header (held e (List.mem_of_getElem? entity))) ?_ ⟨_, sent.symm⟩ ?_
      · simp [WriteSide.Loaded, WriteSide.pending]
      · rw [text_head, sent]
        simp [WriteSide.pending]
    · exact last
  · exact last

/-- The next block. -/
theorem update (answering : S.Answering q0 base w out) (speaking : S.Speaking q0 w)
    (ready : w.remainSendBlockBytes = 0 ∨ w.status = .body ∨ w.status = .eof) :
    S.Answering q0 base (updateSendStatus S.texts w).2 out := by
  cases answering with
  | nothing status idle sent =>
      simp only [updateSendStatus, status]
      have code : (mkResponceHeader w).returnCode = w.returnCode := by
        simp only [mkResponceHeader]
        split
        · split <;> rfl
        · rfl
      refine .going w.returnCode [] [] [] ⟨by simp, fun _ _ => ⟨rfl, rfl⟩, by simp⟩ speaking.code
        ⟨by simp, by simp, .inl rfl⟩ ?_ ⟨[], by simp [sent]⟩ ?_
      · simp [WriteSide.Loaded, WriteSide.pending]
      · simp [WriteSide.pending, sent, text, headTexts, chunkTexts, code]
  | closed status idle sent part allowed =>
      simp only [updateSendStatus, status]
      exact .closed status idle sent part allowed
  | going ec heads blocks tail place other parts loaded grown sent =>
      have again := Answering.going _ _ _ _ place other parts loaded grown sent
      by_cases over_ : w.status = .body ∨ w.status = .eof
      · rcases over_ with status | status
        · simp only [updateSendStatus, status]
          exact again
        · simp only [updateSendStatus, status]
          exact again
      · have idle := ready.resolve_right over_
        rw [not_or] at over_
        obtain ⟨rfl, rfl⟩ := place.heads over_.1 over_.2
        rw [pending_idle idle, List.append_nil] at sent
        have head := fun status i => sendHead status i other parts speaking.held idle sent
        cases status : w.status with
        | nothing => exact absurd status place.started
        | resphead => simpa only [updateSendStatus, status] using head .head1 0 (by simp)
        | head1 => simpa only [updateSendStatus, status] using head .head2 1 (by simp)
        | head2 => simpa only [updateSendStatus, status] using head .head3 2 (by simp)
        | head3 => simpa only [updateSendStatus, status] using head .head3 2 (by simp)
        | body => exact absurd status over_.1
        | eof => exact absurd status over_.2

end Setting.Answering

/-! ### `send_remaining_response` -/

theorem updateSendStatus_entities (texts : Texts) (w : WriteSide) :
    ∀ e ∈ (updateSendStatus texts w).2.entities, e ∈ w.entities := by
  have last : (headsOver w).2.entities = w.entities := by
    simp only [headsOver]
    split <;> rfl
  have head : ∀ status i, (sendHead w status i).2.entities = w.entities := by
    intro status i
    simp only [sendHead]
    split
    · split
      · rfl
      · exact last
    · exact last
  intro e member
  cases status : w.status with
  | nothing =>
      simp only [updateSendStatus, status, mkResponceHeader] at member
      split at member
      · rename_i e' rest _ entities
        rw [entities]
        split at member
        · exact List.mem_cons_of_mem _ member
        · rwa [entities] at member
      · exact member
  | body => simpa only [updateSendStatus, status] using member
  | eof => simpa only [updateSendStatus, status] using member
  | resphead => simpa only [updateSendStatus, status, head] using member
  | head1 => simpa only [updateSendStatus, status, head] using member
  | head2 => simpa only [updateSendStatus, status, head] using member
  | head3 => simpa only [updateSendStatus, status, head] using member

theorem sendCurrentBlockData_same {c c' : Connection} {res : NetRes}
    (wrote : sendCurrentBlockData w c res = some (w', c')) :
    w'.returnCode = w.returnCode ∧ w'.entities = w.entities := by
  simp only [sendCurrentBlockData] at wrote
  split at wrote
  · cases wrote
    exact ⟨rfl, rfl⟩
  · split at wrote
    · cases wrote
    · cases wrote
      exact ⟨rfl, rfl⟩

namespace Setting.Speaking

theorem same (speaking : S.Speaking q0 w) (code : w'.returnCode = w.returnCode) (entities : w'.entities = w.entities) :
    S.Speaking q0 w' where
  code := by
    rw [code]
    exact speaking.code
  held := by
    rw [entities]
    exact speaking.held

theorem update (speaking : S.Speaking q0 w) (texts : Texts) : S.Speaking q0 (updateSendStatus texts w).2 where
  code := by
    rw [updateSendStatus_code]
    exact speaking.code
  held e member := speaking.held e (updateSendStatus_entities texts w e member)

end Setting.Speaking

variable {m : IoModule (RequestData σ)} {q : Exchange (RequestData σ)}

/-- The answer to a refill, whatever it is, becomes a chunk, the last chunk, or the end of the loop. -/
theorem sendTake_answering {a : IoAnswer} (answering : S.Answering q0 base q.write q.conn.output)
    (body : q.write.status = .body) (idle : q.write.remainSendBlockBytes = 0)
    (room : ∀ data, a.produced = .bytes data → data.length ≤ maxChunkSize) :
    (sendTake q a).All (fun q' => q'.conn = q.conn ∧ q'.write.returnCode = q.write.returnCode ∧
        q'.write.entities = q.write.entities ∧ S.Answering q0 base q'.write q'.conn.output ∧
        (q'.write.status = .body ∨ q'.write.status = .eof))
      (fun out => out.2.conn = q.conn) := by
  cases answering with
  | nothing status idle' sent =>
      rw [body] at status
      cases status
  | closed status idle' sent part allowed =>
      rw [body] at status
      cases status
  | going ec heads blocks tail place other parts loaded grown sent =>
      obtain ⟨rfl, hasbody⟩ := place.body body
      rw [pending_idle idle, List.append_nil] at sent
      have code := frameBody_code q.read.i206UseOriginalBody (q.write.refilled a)
      have length : a.produced.length maxChunkSize = -1 ∨ a.produced.length maxChunkSize = 0 ∨
          a.produced.length maxChunkSize = ciEof ∨
          ∃ n : Nat, a.produced.length maxChunkSize = n ∧ 0 < n ∧ n ≤ maxChunkSize := by
        cases produced : a.produced with
        | bytes data =>
            have small := room data produced
            change (data.length : Int) = -1 ∨ (data.length : Int) = 0 ∨ (data.length : Int) = ciEof ∨ _
            by_cases none : data.length = 0
            · exact .inr (.inl (by omega))
            · exact .inr (.inr (.inr ⟨data.length, rfl, by omega, small⟩))
        | eof => exact .inr (.inr (.inl rfl))
        | error => exact .inl rfl
        | untouched => exact .inr (.inr (.inr ⟨maxChunkSize, rfl, by decide, Nat.le_refl _⟩))
      rcases length with error | none | eof | ⟨n, count, some, small⟩
      · simp only [sendTake, WriteSide.refilled, error]
        rfl
      · simp only [sendTake, WriteSide.refilled, none]
        rfl
      · rw [sendTake_next q a (by rw [eof]; decide) (by rw [eof]; decide)]
        obtain ⟨l, text, loaded', same⟩ :=
          frameBody_eof q.read.i206UseOriginalBody (w := q.write.refilled a) hasbody eof
        refine ⟨rfl, code, same.entities, ?_, .inr same.status⟩
        refine .going _ _ _ _ ⟨by simp [same.status], by simp [same.status], by simp [same.status]⟩ other (parts.last l) loaded'
          grown ?_
        rw [text, sent, text_tail ec heads blocks l.encode, ← List.append_assoc]
      · rw [sendTake_next q a (by rw [count]; omega) (by rw [count]; omega)]
        obtain ⟨raw, block, text, loaded', same⟩ :=
          frameBody_chunk q.read.i206UseOriginalBody (w := q.write.refilled a) hasbody count some small
        have status : (frameBody q.read.i206UseOriginalBody (q.write.refilled a)).status = .body :=
          same.status.trans body
        refine ⟨rfl, code, same.entities, ?_, .inl status⟩
        refine .going _ _ _ _ ⟨by simp [status], by simp [status], fun _ => ⟨rfl, same.hasbody.trans hasbody⟩⟩ other
          (parts.chunk block) loaded' grown ?_
        rw [text, sent, text_chunk, List.append_nil, List.append_assoc]

/-- A step of `send_remaining_response` adds to the one response. -/
theorem sendStep_answering (answering : S.Answering q0 base q.write q.conn.output)
    (speaking : S.Speaking q0 q.write) :
    (sendStep S.texts m q).All
      (fun q' => S.Answering q0 base q'.write q'.conn.output ∧ S.Speaking q0 q'.write)
      (fun out => out.2.conn.output = q.conn.output) := by
  simp only [sendStep]
  split
  · split
    · rename_i res conn wait
      have output : conn.output = q.conn.output := by rw [Connection.waitForData_frame wait]
      rw [← output] at answering
      split
      · exact output
      · rename_i w c wrote
        obtain ⟨code, entities⟩ := sendCurrentBlockData_same wrote
        exact ⟨answering.send wrote, speaking.same code entities⟩
    · rename_i conn _ wait
      change conn.output = q.conn.output
      rw [Connection.waitForData_frame wait]
  · rename_i sent
    have idle := answering.idle sent
    -- the refill leaves a block to send, or a status that has no refill
    have filled : (sendFill m q).All
        (fun q' => q'.conn = q.conn ∧ S.Answering q0 base q'.write q'.conn.output ∧ S.Speaking q0 q'.write ∧
          (q'.write.remainSendBlockBytes = 0 ∨ q'.write.status = .body ∨ q'.write.status = .eof))
        (fun out => out.2.conn.output = q.conn.output) := by
      simp only [sendFill]
      split
      · rename_i body
        cases call : q.call m extraChunkSize (sendCall q) with
        | mk a q' =>
            obtain ⟨answer, -, conn, -, write⟩ := Exchange.call_spec call
            have room : ∀ data, a.produced = .bytes data → data.length ≤ maxChunkSize := by
              intro data produced
              exact m.room q.data (sendCall q) data (by rw [answer, produced])
            have before : S.Answering q0 base q'.write q'.conn.output := by
              rw [conn, write]
              refine answering.same rfl rfl ?_ rfl
              rw [pending_idle idle]
              exact pending_idle idle
            refine (sendTake_answering before (by rw [write]; exact body) (by rw [write]; exact idle) room).imp ?_ ?_
            · rintro t ⟨conn', code, entities, after, status⟩
              refine ⟨conn'.trans conn, after, speaking.same ?_ ?_, .inr status⟩
              · rw [code, write]
              · rw [entities, write]
            · intro out conn'
              rw [conn', conn]
      · exact ⟨rfl, answering, speaking, .inl idle⟩
    refine filled.bind (fun q' filled => ?_)
    obtain ⟨conn, after, speaking', ready⟩ := filled
    have updated := after.update speaking' ready
    have kept := speaking'.update S.texts
    simp only [sendUpdate]
    split
    · exact congrArg Connection.output conn
    · exact congrArg Connection.output conn
    · rename_i ret w _ _ result
      rw [result] at updated kept
      exact ⟨updated, kept⟩

/-! ### `get_send_body` -/

theorem speaking_kept (texts : Texts) : Kept texts (fun w out => S.Speaking q0 w ∧ base <+: out) where
  update w out holds _ := ⟨holds.1.update texts, holds.2⟩
  send w w' c c' res holds wrote := by
    obtain ⟨code, entities⟩ := sendCurrentBlockData_same wrote
    exact ⟨holds.1.same code entities, holds.2.trans (sendCurrentBlockData_grows wrote)⟩

theorem bodyFrame_same (s : BodyLoop (RequestData σ)) :
    (bodyFrame s).returnCode = s.q.write.returnCode ∧ (bodyFrame s).entities = s.q.write.entities := by
  have framed : ∀ original (v : WriteSide), (frameBody original v).entities = v.entities := by
    intro original v
    have same := formatBodyChunk_same original v
    simp only [frameBody]
    split
    · rename_i result
      rw [result] at same
      exact same.entities
    · rename_i result
      rw [result] at same
      exact same.entities
  simp only [bodyFrame]
  split
  · split
    · split <;> exact ⟨rfl, rfl⟩
    · rw [frameBody_code, framed]
      split <;> exact ⟨rfl, rfl⟩
  · exact ⟨rfl, rfl⟩

/-- `get_send_body` changes neither the code nor, but for the header of the HTTP request, the headers. -/
theorem bodyStep_speaking {s : BodyLoop (RequestData σ)} {texts : Texts} {fuel : Nat}
    (speaking : S.Speaking q0 s.q.write) (grown : base <+: s.q.conn.output) :
    (bodyStep texts m fuel s).All (fun t => S.Speaking q0 t.q.write ∧ base <+: t.q.conn.output)
      (fun out => S.Speaking q0 out.2.write ∧ base <+: out.2.conn.output) := by
  simp only [bodyStep]
  split
  · exact (bodyTop_moved (speaking_kept texts) ⟨speaking, grown⟩).imp (fun _ moved => moved.1)
      (fun _ moved => moved.1)
  · split
    · exact ⟨speaking, grown⟩
    · rename_i parsed result
      have kept : parsed.All (fun t => S.Speaking q0 t.q.write ∧ base <+: t.q.conn.output)
          (fun out => S.Speaking q0 out.2.write ∧ base <+: out.2.conn.output) := by
        refine (bodyParse_frame result).imp ?_ ?_
        · intro t parsed
          rw [parsed.write, parsed.conn]
          exact ⟨speaking, grown⟩
        · rintro out ⟨-, write, conn, -, -⟩
          rw [write, conn]
          exact ⟨speaking, grown⟩
      refine kept.bind (fun u holds => ?_)
      obtain ⟨speaking, grown⟩ := holds
      refine (bodyServe_served u).imp ?_ ?_
      · rintro t ⟨v, c, a, served, next⟩
        have after := speaking.same served.code served.entities
        rw [← served.conn] at grown
        rcases next with ⟨rfl, -, -⟩ | rfl
        · exact ⟨after, grown⟩
        · exact ⟨after.same (bodyFrame_same v).1 (bodyFrame_same v).2, grown⟩
      · rintro out ⟨c, a, refused⟩
        rw [← refused.conn] at grown
        exact ⟨speaking.same refused.code refused.entities, grown⟩
  · simp only [bodyTest]
    split <;> exact ⟨speaking, grown⟩

/-- The header blocks of a response are those of its entities. -/
theorem Heads.texts {resp t : Bytes} {entities : List Entity} {status : SendStatus} (heads : Heads resp entities status t) :
    ∃ sent : List Entity, t = resp ++ headTexts sent ∧ ∀ e ∈ sent, e.isHeader = true ∧ e ∈ entities := by
  have more : ∀ {t' : Bytes} {i : Nat} {e : Entity},
      (∃ sent : List Entity, t' = resp ++ headTexts sent ∧ ∀ d ∈ sent, d.isHeader = true ∧ d ∈ entities) →
      entities[i]? = some e → e.isHeader = true →
      ∃ sent : List Entity, t' ++ e.buf = resp ++ headTexts sent ∧ ∀ d ∈ sent, d.isHeader = true ∧ d ∈ entities := by
    rintro t' i e ⟨sent, rfl, each⟩ entity header
    refine ⟨sent ++ [e], by rw [headTexts_append, List.append_assoc], fun d member => ?_⟩
    rcases List.mem_append.mp member with old | new
    · exact each d old
    · rw [List.mem_singleton.mp new]
      exact ⟨header, List.mem_of_getElem? entity⟩
  induction heads with
  | resphead => exact ⟨[], by simp [headTexts], by simp⟩
  | head1 before entity header ih => exact more ih entity header
  | head2 before entity header ih => exact more ih entity header
  | head3 before entity header ih => exact more ih entity header
  | again before entity header ih => exact more ih entity header

theorem Headed.texts {t : Bytes} (headed : Headed S.texts w t) (speaking : S.Speaking q0 w) :
    ∃ heads : List Entity, t = S.texts.responceHeader w.returnCode ++ headTexts heads ∧
      ∀ e ∈ heads, e.isHeader = true ∧ S.Holds q0 e := by
  obtain ⟨status, headed⟩ := headed
  obtain ⟨heads, text, each⟩ := headed.texts
  exact ⟨heads, text, fun e member => ⟨(each e member).1, speaking.held e (each e member).2⟩⟩

/-- The wire of `get_send_body` is that of one response. -/
theorem Emitted.answering {blocks : List Bytes} (emitted : Emitted S.texts base w out blocks)
    (speaking : S.Speaking q0 w) (grown : base <+: out) : S.Answering q0 base w out := by
  cases emitted with
  | nothing status idle sent => exact .nothing status idle sent
  | @heads t status hasbody loaded sent =>
      obtain ⟨heads, rfl, each⟩ := Headed.texts ⟨_, status⟩ speaking
      refine .going w.returnCode heads [] [] ⟨?_, fun _ _ => ⟨rfl, rfl⟩, ?_⟩ speaking.code
        ⟨each, by simp, .inl rfl⟩ loaded grown (by simpa [text, chunkTexts] using sent)
      · intro nothing
        rw [nothing] at status
        cases status
      · intro body
        rw [body] at status
        cases status
  | body status headed hasbody loaded each sent =>
      obtain ⟨heads, rfl, headers⟩ := headed.texts speaking
      exact .going w.returnCode heads blocks [] ⟨by simp [status], by simp [status], fun _ => ⟨rfl, hasbody⟩⟩
        speaking.code ⟨headers, each, .inl rfl⟩ loaded grown (by simpa [text] using sent)
  | @last _ _ l status headed hasbody loaded each sent =>
      obtain ⟨heads, rfl, headers⟩ := headed.texts speaking
      exact .going w.returnCode heads blocks l.encode ⟨by simp [status], by simp [status], by simp [status]⟩
        speaking.code ⟨headers, each, .inr ⟨_, rfl⟩⟩ loaded grown (by simpa [text] using sent)
  | nobody status headed hasbody loaded sent =>
      obtain ⟨heads, rfl, headers⟩ := headed.texts speaking
      exact .going w.returnCode heads [] [] ⟨by simp [status], by simp [status], by simp [status]⟩
        speaking.code ⟨headers, by simp, .inl rfl⟩ loaded grown (by simpa [text, chunkTexts] using sent)

end

/-! ### The phases -/

namespace Setting

variable (S : Setting σ) (q0 : Exchange (RequestData σ))

/-- A request for which nothing has been sent. -/
structure Unsent (q : Exchange (RequestData σ)) : Prop where
  output : q.conn.output = q0.conn.output
  status : q.write.status = .nothing
  idle : q.write.remainSendBlockBytes = 0
  calls : q.calls = []
  held : ∀ e ∈ q.write.entities, S.Holds q0 e

/-- A request between its phases: what has been sent, and a code that says how it goes on. -/
structure Ready (status : CiRet) (q : Exchange (RequestData σ)) : Prop where
  answering : ∃ interim, interim <+: continueText ∧
    S.Answering q0 (q0.conn.output ++ interim) q.write q.conn.output
  held : ∀ e ∈ q.write.entities, S.Holds q0 e
  calls : q.calls = []
  code : status ≠ .error → status ≠ .eof → q.write.returnCode = .ec100 ∧ q.write.status = .nothing ∨
    q.write.returnCode = .ec200 ∨ q.write.returnCode = .ec204 ∨ q.write.returnCode = .ec206

/-- What holds in the phases of a run. -/
inductive Keeps : Phase σ → Prop where
  | preview {p : PreviewLoop (RequestData σ)} (unsent : S.Unsent q0 p.q)
      (visited : Visits S.step (.preview (.start q0)) (.preview p)) (asked : S.info.preview.isSome = true) :
      Keeps (.preview p)
  | skip {s : BodyLoop (RequestData σ)} (allowed : S.info.allow204 = true)
      (quiet : Quiet (q0.conn.output ++ S.conf.responceText (S.conf.responceCode .ec204)) s) : Keeps (.skip s)
  | body {s : BodyLoop (RequestData σ)} {interim : Bytes} (part : interim <+: continueText)
      (wire : LoopOpen S.texts (q0.conn.output ++ interim) s) (speaking : S.Speaking q0 s.q.write)
      (grown : q0.conn.output ++ interim <+: s.q.conn.output) : Keeps (.body s)
  | rest {q : Exchange (RequestData σ)} {interim : Bytes} (part : interim <+: continueText)
      (answering : S.Answering q0 (q0.conn.output ++ interim) q.write q.conn.output)
      (speaking : S.Speaking q0 q.write) : Keeps (.rest q)

/-- The results of a run. -/
def Fine (out : CiRet × Exchange (RequestData σ)) : Prop := S.OneFinal q0 .admitted out.2.conn.output

end Setting

section

variable {S : Setting σ} {q0 q : Exchange (RequestData σ)}

open Setting

theorem Setting.Answering.oneFinal {interim out : Bytes} {w : WriteSide}
    (answering : S.Answering q0 (q0.conn.output ++ interim) w out) (part : interim <+: continueText)
    (line : ∀ ec, statusLine ec <+: S.texts.responceHeader ec) : S.OneFinal q0 .admitted out := by
  obtain ⟨final, m, sent, response, inside, allowed⟩ := answering.part line
  exact ⟨interim, final, m, by rw [sent, List.append_assoc], part, response, inside, allowed⟩

namespace Setting.Unsent

theorem answering (unsent : S.Unsent q0 q) : S.Answering q0 (q0.conn.output ++ []) q.write q.conn.output :=
  .nothing unsent.status unsent.idle (by rw [unsent.output, List.append_nil])

theorem setCode (unsent : S.Unsent q0 q) (ec : Ec) : S.Unsent q0 (q.setCode ec) :=
  ⟨unsent.output, unsent.status, unsent.idle, unsent.calls, unsent.held⟩

theorem withData (unsent : S.Unsent q0 q) (data : RequestData σ) : S.Unsent q0 { q with data := data } :=
  ⟨unsent.output, unsent.status, unsent.idle, unsent.calls, unsent.held⟩

theorem ready (unsent : S.Unsent q0 q) (status : CiRet) {ec : Ec}
    (known : ec = .ec100 ∨ ec = .ec200 ∨ ec = .ec206) : S.Ready q0 status (q.setCode ec) where
  answering := ⟨[], List.nil_prefix, (unsent.setCode ec).answering⟩
  held := unsent.held
  calls := unsent.calls
  code _ _ := by
    rcases known with code | code | code
    · exact .inl ⟨code, unsent.status⟩
    · exact .inr (.inl code)
    · exact .inr (.inr (.inr code))

end Setting.Unsent

/-- A status closes a request for which nothing has been sent. -/
theorem Setting.Answering.respond {base sent : Bytes} {ec : Ec} {out : Bool × Exchange (RequestData σ)}
    (answering : S.Answering q0 base q.write q.conn.output) (nothing : q.write.status = .nothing)
    (responded : Responded S.conf q ec out sent) (allowed : ec = .ec204 → S.Allowed204 q0) :
    S.Answering q0 base out.2.write out.2.conn.output := by
  cases answering with
  | nothing status idle before =>
      refine .closed responded.status (responded.remain.trans idle) ?_ responded.part (fun given => ?_)
      · rw [responded.output, before]
      · simp only [Conf.responceCode] at given
        split at given
        · cases given
        · exact allowed given
  | closed status idle before part given =>
      rw [nothing] at status
      cases status
  | going ec heads blocks tail place other parts loaded grown before => exact absurd nothing place.started

theorem Setting.Unsent.respond (ec : Ec) (unsent : S.Unsent q0 q) (allowed : ec = .ec204 → S.Allowed204 q0)
    {status : CiRet} (known : status ≠ .error → ec = .ec204) : S.Ready q0 status (ecResponce S.conf q ec).2 := by
  obtain ⟨sent, responded⟩ := ecResponce_responded S.conf q ec
  refine ⟨⟨[], List.nil_prefix, unsent.answering.respond unsent.status responded allowed⟩, ?_, ?_, ?_⟩
  · rw [responded.entities]
    exact unsent.held
  · rw [responded.calls]
    exact unsent.calls
  · intro works _
    rw [responded.code, known works, Conf.responceCode]
    split
    · exact .inr (.inl rfl)
    · exact .inr (.inr (.inl rfl))

/-- The request behind the line that asks for the rest of the body. -/
theorem Setting.Unsent.continue (unsent : S.Unsent q0 q) (status : CiRet) :
    S.Ready q0 status (ecResponceContinue q) := by
  have written := writeEvents_prefix q.conn.sched continueText
  have output : (ecResponceContinue q).conn.output = q.conn.output ++ (writeEvents q.conn.sched continueText).2.1 := by
    simp only [ecResponceContinue]
    split <;> rfl
  refine ⟨⟨_, written.1, .nothing unsent.status unsent.idle (by rw [output, unsent.output])⟩, unsent.held,
    unsent.calls, fun _ _ => .inl ⟨rfl, unsent.status⟩⟩

/-! ### Between the phases -/

/-- The end-of-data handler may answer for a request that has sent nothing. -/
theorem endOfDataAnswer_answering {base : Bytes} (answering : S.Answering q0 base q.write q.conn.output) (ret : ModRet) :
    S.Answering q0 base (S.endOfDataAnswer q ret).2.write (S.endOfDataAnswer q ret).2.conn.output ∧
      (S.endOfDataAnswer q ret).2.write.entities = q.write.entities := by
  simp only [endOfDataAnswer]
  split
  · rename_i found
    obtain ⟨sent, responded⟩ := ecResponce_responded S.conf q .ec204
    exact ⟨answering.respond found.2.2 responded (fun _ => .inl found.2.1), responded.entities⟩
  · split
    · exact ⟨answering.same rfl rfl rfl rfl, rfl⟩
    · split
      · exact ⟨answering, rfl⟩
      · dsimp only
        split
        · rename_i nothing
          obtain ⟨sent, responded⟩ := ecResponce_responded S.conf q .ec500
          exact ⟨answering.respond nothing responded (fun other => nomatch other), responded.entities⟩
        · exact ⟨answering, rfl⟩

theorem doEndOfData_answering {base : Bytes} (answering : S.Answering q0 base q.write q.conn.output)
    (held : ∀ e ∈ q.write.entities, S.Holds q0 e) :
    S.Answering q0 base (S.doEndOfData q).2.write (S.doEndOfData q).2.conn.output ∧
      ∀ e ∈ (S.doEndOfData q).2.write.entities, S.Holds q0 e := by
  simp only [doEndOfData]
  split
  · exact ⟨answering, held⟩
  · rename_i handler found
    have handled : S.Answering q0 base (handled q (handler (S.view q) q.data.service)).write q.conn.output :=
      answering.same rfl rfl rfl rfl
    obtain ⟨after, entities⟩ := endOfDataAnswer_answering handled (handler (S.view q) q.data.service).ret
    refine ⟨after, fun e member => .endOfData found (S.view q) q.data.service held ?_⟩
    rwa [entities] at member

variable (line : ∀ ec, statusLine ec <+: S.texts.responceHeader ec)
include line

theorem bodyReceived_keeps {interim : Bytes} (part : interim <+: continueText)
    (answering : S.Answering q0 (q0.conn.output ++ interim) q.write q.conn.output)
    (held : ∀ e ∈ q.write.entities, S.Holds q0 e) : (S.bodyReceived q).All (S.Keeps q0) (S.Fine q0) := by
  obtain ⟨after, held'⟩ := doEndOfData_answering answering held
  have fine := after.oneFinal part line
  simp only [bodyReceived]
  split
  · exact fine
  · split
    · exact fine
    · rename_i code
      split
      · exact fine
      · exact .rest part (after.same rfl rfl rfl rfl) ⟨code, held'⟩

/-- What follows the preview. -/
theorem previewed_keeps {status : CiRet} (ready : S.Ready q0 status q) :
    (S.previewed status q).All (S.Keeps q0) (S.Fine q0) := by
  obtain ⟨⟨interim, part, answering⟩, held, calls, code⟩ := ready
  by_cases ended : status = .eof
  · subst ended
    have after := bodyReceived_keeps (q := q.setCode .ec200) line part (answering.same rfl rfl rfl rfl) held
    simpa [previewed, Exchange.setCode] using after
  · simp only [previewed, if_neg ended]
    split
    · exact answering.oneFinal part line
    · rename_i works
      split
      · exact answering.oneFinal part line
      · rename_i other
        split
        · rename_i unknown
          rcases code works ended with ⟨code, -⟩ | code | code | code
          · exact absurd code unknown.1
          · exact absurd code unknown.2.1
          · exact absurd code other
          · exact absurd code unknown.2.2
        · split
          · rename_i more
            have fresh : q.write.status = .nothing := by
              rcases code works ended with ⟨-, nothing⟩ | code | code | code
              · exact nothing
              · rw [more.1] at code
                cases code
              · exact absurd code other
              · rw [more.1] at code
                cases code
            cases answering with
            | nothing status idle sent =>
                have other : Ec.ec200 ≠ .ec204 := by decide
                refine .body part ⟨.settled [] (.nothing rfl idle sent) ?_ (fun inner => nomatch inner), ?_⟩
                  ⟨other, held⟩ ⟨[], by rw [List.append_nil]; exact sent.symm⟩
                · simp [BodyLoop.start, Exchange.setCode, calls, producedData]
                · simp [BodyLoop.start, Exchange.setCode, calls, Working]
            | closed status idle sent part allowed =>
                rw [fresh] at status
                cases status
            | going ec heads blocks tail place other parts loaded grown sent => exact absurd fresh place.started
          · exact bodyReceived_keeps line part answering held

omit line

/-- The answer to the preview. -/
theorem previewAnswer_ready {status : CiRet} {ret : ModRet} (unsent : S.Unsent q0 q)
    (decided : ret = .allow204 → S.Allowed204 q0) :
    S.Ready q0 (S.previewAnswer status q ret).1 (S.previewAnswer status q ret).2 := by
  simp only [previewAnswer]
  split
  · rename_i given
    exact unsent.respond .ec204 (fun _ => decided given) (fun _ => rfl)
  · split
    · exact unsent.ready _ (.inr (.inr rfl))
    · split
      · exact unsent.respond .ec500 (fun other => nomatch other) (fun works => absurd rfl works)
      · dsimp only
        split
        · rename_i ended
          exact ⟨⟨[], List.nil_prefix, unsent.answering⟩, unsent.held, unsent.calls, fun _ open_ => absurd ended open_⟩
        · exact unsent.continue status

theorem Setting.Unsent.previewHandled {handler : View → Bytes → σ → Effect σ} (data : Bytes)
    (unsent : S.Unsent q0 q) (found : S.svc.checkPreviewHandler = some handler) :
    S.Unsent q0 (handled q (handler (S.view q) data q.data.service)) :=
  ⟨unsent.output, unsent.status, unsent.idle, unsent.calls,
    fun _ member => .preview found (S.view q) data q.data.service unsent.held member⟩

theorem doRequestPreview_ready {status : CiRet} {data : Bytes} (unsent : S.Unsent q0 q)
    (asked : S.info.preview.isSome = true) (ended : S.PreviewEnd q0 status q data) :
    S.Ready q0 (S.doRequestPreview status q data).1 (S.doRequestPreview status q data).2 := by
  simp only [doRequestPreview]
  split
  · exact unsent.respond .ec408 (fun other => nomatch other) (fun works => absurd rfl works)
  · rename_i works
    split
    · exact previewAnswer_ready unsent (fun other => nomatch other)
    · rename_i handler found
      refine previewAnswer_ready (unsent.previewHandled _ found) (fun given => .inr ⟨asked, ?_⟩)
      exact ⟨status, q, data, handler, ended, works, found, given⟩

include line

theorem previewRead_keeps {status : CiRet} {data : Bytes} (unsent : S.Unsent q0 q)
    (asked : S.info.preview.isSome = true) (ended : S.PreviewEnd q0 status q data) :
    (S.previewRead status q data).All (S.Keeps q0) (S.Fine q0) :=
  previewed_keeps line (doRequestPreview_ready unsent asked ended)

/-- The answer of the preview handler to a request without a preview. The body is thrown away only
behind a handler that holds the data back. -/
theorem fakeAnswer_keeps {ret : ModRet} (unsent : S.Unsent q0 q)
    (locked : ret = .allow204 → S.info.allow204 = true → S.info.hasbody = true → q.write.dataLocked = true) :
    (S.fakeAnswer q ret).All (S.Keeps q0) (S.Fine q0) := by
  simp only [fakeAnswer]
  split
  · rename_i given
    have allowed : S.Allowed204 q0 := .inl given.2
    split
    · exact previewed_keeps line (unsent.respond .ec204 (fun _ => allowed) (fun works => absurd rfl works))
    · rename_i written
      obtain ⟨sent, responded⟩ := ecResponce_responded S.conf q .ec204
      split
      · rename_i hasbody
        have quiet := Quiet.start (q := (ecResponce S.conf q .ec204).2)
          (responded.lock.trans (locked given.1 given.2 hasbody)) (responded.remain.trans unsent.idle)
        rw [responded.output, responded.whole (by simpa using written), unsent.output] at quiet
        exact .skip given.2 quiet
      · have ready : S.Ready q0 .ok _ := unsent.respond .ec204 (fun _ => allowed) (fun _ => rfl)
        obtain ⟨interim, part, answering⟩ := ready.answering
        exact previewed_keeps line ⟨⟨interim, part, answering.same rfl rfl rfl rfl⟩, ready.held, ready.calls,
          fun _ _ => .inr (.inr (.inl rfl))⟩
  · split
    · exact previewed_keeps line ((unsent.withData _).ready _ (.inl rfl))
    · split
      · exact previewed_keeps line (unsent.ready _ (.inr (.inl rfl)))
      · split
        · exact previewed_keeps line (unsent.ready _ (.inr (.inr rfl)))
        · split
          · refine previewed_keeps line (unsent.ready _ ?_)
            split
            · exact .inl rfl
            · exact .inr (.inl rfl)
          · exact previewed_keeps line (unsent.respond .ec500 (fun other => nomatch other)
              (fun works => absurd rfl works))

/-- The start of a request. -/
theorem enter_keeps (unsent : S.Unsent q0 q0) (locked : S.SkipsLocked q0) :
    (S.enter q0).All (S.Keeps q0) (S.Fine q0) := by
  simp only [enter]
  split
  · rename_i none
    simp only [doFakePreview]
    split
    · refine previewed_keeps line (unsent.ready _ ?_)
      split
      · exact .inl rfl
      · exact .inr (.inl rfl)
    · rename_i handler found
      refine fakeAnswer_keeps line (unsent.previewHandled _ found) (fun given allowed hasbody => ?_)
      exact locked none hasbody allowed handler found given
  · rename_i size some
    have asked : S.info.preview.isSome = true := by rw [some]; rfl
    split
    · exact .preview ⟨unsent.output, unsent.status, unsent.idle, unsent.calls, unsent.held⟩ (.here _) asked
    · rename_i nobody
      exact previewRead_keeps line unsent asked (.null (by simpa using nobody))

omit line

/-- A result of `get_send_body` that is not an error is a success. -/
theorem bodyStep_ret (texts : Texts) (m : IoModule (RequestData σ)) (fuel : Nat) (s : BodyLoop (RequestData σ)) :
    (bodyStep texts m fuel s).All (fun _ => True) (fun out => out.1 ≠ .error → out.1 = .ok) := by
  have left : ∀ q : Exchange (RequestData σ), (BodyLoop.leave q).1 ≠ .error → (BodyLoop.leave q).1 = .ok := by
    intro q works
    simp only [BodyLoop.leave] at works ⊢
    split
    · rfl
    · rename_i open_
      rw [if_neg open_] at works
      exact absurd rfl works
  have failed : ∀ q : Exchange (RequestData σ), (CiRet.error, q).1 ≠ .error → (CiRet.error, q).1 = .ok :=
    fun _ works => absurd rfl works
  simp only [bodyStep]
  split
  · have waited : (bodyWait texts s).All (fun _ => True) (fun out => out.1 ≠ .error → out.1 = .ok) := by
      simp only [bodyWait]
      split
      · split
        · exact left _
        · split
          · exact failed _
          · trivial
      · trivial
    refine waited.bind (fun q _ => ?_)
    simp only [bodyEnter]
    split
    · exact failed _
    · trivial
  · split
    · trivial
    · rename_i parsed result
      refine ((bodyParse_frame result).imp (fun _ _ => trivial) (fun _ out works => absurd out.1 works)).bind
        (fun u _ => ?_)
      exact (bodyServe_served u).imp (fun _ _ => trivial) (fun out refused works => by
        obtain ⟨c, a, refused⟩ := refused
        exact absurd refused.ret works)
  · simp only [bodyTest]
    split
    · trivial
    · exact left _

theorem Begun.part {base : Bytes} (begun : Begun S.texts base q) (speaking : S.Speaking q0 q.write)
    (grown : base <+: q.conn.output) (line : ∀ ec, statusLine ec <+: S.texts.responceHeader ec) :
    ∃ final m, q.conn.output = base ++ final ∧ S.Final q0 .admitted m ∧ final <+: m ∧
      (ascii "ICAP/1.0 204" <+: final → S.Allowed204 q0) := by
  rcases begun with none | ⟨t, blocks, tail, headed, sent, each, ended, -⟩
  · refine ⟨[], _, by rw [none, List.append_nil], .status _ .ec500, List.nil_prefix, fun found => ?_⟩
    exact absurd found (by decide)
  · obtain ⟨heads, rfl, headers⟩ := headed.texts speaking
    obtain ⟨final, output⟩ := grown
    have part : final <+: S.text q.write.returnCode heads blocks tail := by
      rw [← output, List.append_assoc, List.prefix_append_right_inj, List.append_assoc] at sent
      exact sent
    refine ⟨final, _, output.symm, .response q.write.returnCode ⟨headers, each, ended⟩, part, fun found => ?_⟩
    exact absurd (found.trans part)
      (status_not_204 speaking.code ((line q.write.returnCode).trans (List.prefix_append _ _)))

include line

/-- A step of `do_request` adds to the one response. -/
theorem step_keeps {p : Phase σ} (keeps : S.Keeps q0 p) : (S.step p).All (S.Keeps q0) (S.Fine q0) := by
  cases keeps with
  | @preview p unsent visited asked =>
      have untouched := previewStep_untouched S.size S.fuel p
      have step : S.step (.preview p) = (previewStep S.size S.fuel p).within .preview
        (fun out => S.previewRead out.1 out.2.q out.2.previewData) := rfl
      have kept : ∀ q', Untouched p.q q' → S.Unsent q0 q' := by
        intro q' same
        refine ⟨same.output.trans unsent.output, ?_, ?_, same.calls.trans unsent.calls, ?_⟩
        · rw [same.write]
          exact unsent.status
        · rw [same.write]
          exact unsent.idle
        · rw [same.write]
          exact unsent.held
      cases pass : previewStep S.size S.fuel p with
      | next p' =>
          rw [pass] at untouched step
          rw [step]
          exact .preview (kept _ untouched) (visited.snoc step) asked
      | done out =>
          rw [pass] at untouched step
          rw [step]
          exact previewRead_keeps line (kept _ untouched) asked (.read visited pass)
  | @skip s allowed quiet =>
      have text : ∀ q' : Exchange (RequestData σ),
          q'.conn.output = q0.conn.output ++ S.conf.responceText (S.conf.responceCode .ec204) →
          S.OneFinal q0 .admitted q'.conn.output := by
        intro q' output
        exact ⟨[], _, _, by simpa using output, List.nil_prefix, .status _ _, List.prefix_rfl, fun _ => .inl allowed⟩
      refine (bodyStep_quiet (fun _ _ => rfl) quiet).within (fun t quiet => .skip allowed quiet) (fun out left => ?_)
      simp only [skipped]
      split
      · exact text _ left.output
      · exact text _ left.output
  | @body s interim part wire speaking grown =>
      refine (((bodyStep_emitted wire).and (bodyStep_speaking speaking grown)).and
        (bodyStep_ret S.texts (requestIo S.svc) S.fuel s)).within ?_ ?_
      · rintro t ⟨⟨wire, speaking, grown⟩, -⟩
        exact .body part wire speaking grown
      · rintro out ⟨⟨emitted, speaking, grown⟩, ret⟩
        simp only [exchanged]
        split
        · obtain ⟨final, m, sent, response, inside, allowed⟩ := emitted.wire.part speaking grown line
          exact ⟨interim, final, m, by rw [sent, List.append_assoc], part, response, inside, allowed⟩
        · rename_i works
          obtain ⟨blocks, wire, -⟩ := emitted.whole (ret works)
          exact bodyReceived_keeps line part (wire.answering speaking grown) speaking.held
  | @rest q interim part answering speaking =>
      refine (sendStep_answering (m := requestIo S.svc) answering speaking).within ?_ ?_
      · rintro q' ⟨answering, speaking⟩
        exact .rest part answering speaking
      · intro out output
        change S.OneFinal q0 .admitted out.2.conn.output
        rw [output]
        exact answering.oneFinal part line

/-- The phases of a run have written a part of one response. -/
theorem Setting.Keeps.oneFinal {p : Phase σ} (keeps : S.Keeps q0 p) : S.OneFinal q0 .admitted p.exchange.conn.output := by
  cases keeps with
  | @preview p unsent visited asked => exact unsent.answering.oneFinal List.nil_prefix line
  | @skip s allowed quiet =>
      exact ⟨[], _, _, quiet.output, List.nil_prefix, .status _ _, List.prefix_rfl, fun _ => .inl allowed⟩
  | @body s interim part wire speaking grown =>
      obtain ⟨final, m, sent, response, inside, allowed⟩ :=
        (wire.1.begun rfl rfl rfl List.prefix_rfl).part speaking grown line
      exact ⟨interim, final, m, by rw [← List.append_assoc]; exact sent, part, response, inside, allowed⟩
  | @rest q interim part answering speaking => exact answering.oneFinal part line

end

/-! ### Every run -/

namespace Setting

variable (S : Setting σ) (o : Opening) (q0 : Exchange (RequestData σ))

/-- What holds in every stage of a request. -/
inductive StageKeeps : Stage σ → Prop where
  | opening : StageKeeps (.opening o q0)
  | options {q : Exchange (RequestData σ)} {works : Bool} {fields : Bytes} (kind : o = .options works fields)
      (loaded : q.write.Loaded) (grown : q0.conn.output <+: q.conn.output)
      (sent : q.conn.output ++ q.write.pending = q0.conn.output ++ optionsText works fields) : StageKeeps (.options q)
  | phase {p : Phase σ} (kind : o = .admitted) (keeps : S.Keeps q0 p) : StageKeeps (.phase p)

end Setting

section

variable {S : Setting σ} {o : Opening} {q0 : Exchange (RequestData σ)}

open Setting

theorem nothing_oneFinal : S.OneFinal q0 o q0.conn.output :=
  ⟨[], [], _, by simp, List.nil_prefix, .status o .ec500, List.nil_prefix, fun found => absurd found (by decide)⟩

theorem options_oneFinal {works : Bool} {fields out pending : Bytes} (grown : q0.conn.output <+: out)
    (sent : out ++ pending = q0.conn.output ++ optionsText works fields) :
    S.OneFinal q0 (.options works fields) out := by
  obtain ⟨final, rfl⟩ := grown
  rw [List.append_assoc, List.append_cancel_left_eq] at sent
  have part : final <+: optionsText works fields := ⟨pending, sent⟩
  refine ⟨[], final, _, rfl, List.nil_prefix, .options works fields, part, fun found => ?_⟩
  have other : ¬ ascii "ICAP/1.0 204" <+: optionsText works fields := by
    intro found
    cases works with
    | true =>
        have head : ascii "ICAP/1.0 200 OK\r\n" <+: optionsText true fields :=
          ⟨fields ++ crlf, by simp [optionsText]⟩
        exact absurd (List.prefix_of_prefix_length_le found head (by decide)) (by decide)
    | false =>
        have head : ascii "ICAP/1.0 500 Server Error\r\n" <+: optionsText false fields :=
          ⟨fields ++ crlf, by simp [optionsText]⟩
        exact absurd (List.prefix_of_prefix_length_le found head (by decide)) (by decide)
  exact absurd (found.trans part) other

/-- A round of `options_responce`. -/
theorem optionsStep_keeps {q : Exchange (RequestData σ)} {works : Bool} {fields : Bytes}
    (kind : o = .options works fields) (loaded : q.write.Loaded) (grown : q0.conn.output <+: q.conn.output)
    (sent : q.conn.output ++ q.write.pending = q0.conn.output ++ optionsText works fields) :
    (optionsStep q).All (fun q' => S.StageKeeps o q0 (.options q')) (fun out => S.OneFinal q0 o out.2.conn.output) := by
  have fine := options_oneFinal (S := S) grown sent
  rw [← kind] at fine
  simp only [optionsStep]
  split
  · rename_i res conn wait
    have output : conn.output = q.conn.output := by rw [Connection.waitForData_frame wait]
    rw [← output] at fine sent grown
    split
    · exact fine
    · rename_i w c wrote
      obtain ⟨same, loaded', -⟩ := sendCurrentBlockData_spec loaded wrote
      have grown' := grown.trans (sendCurrentBlockData_grows wrote)
      split
      · exact .options kind loaded' grown' (same.trans sent)
      · rw [kind]
        exact options_oneFinal grown' (same.trans sent)
  · rename_i conn _ wait
    change S.OneFinal q0 o conn.output
    rw [Connection.waitForData_frame wait]
    exact fine

variable (line : ∀ ec, statusLine ec <+: S.texts.responceHeader ec)
include line

/-- A step of the whole of `do_request`. -/
theorem stageStep_keeps (unsent : S.Unsent q0 q0) (locked : S.SkipsLocked q0) (stage : Stage σ)
    (keeps : S.StageKeeps o q0 stage) :
    (S.stageStep stage).All (S.StageKeeps o q0) (fun out => S.OneFinal q0 o out.2.conn.output) := by
  cases keeps with
  | opening =>
      cases o with
      | silent => exact nothing_oneFinal
      | refused ec error =>
          obtain ⟨sent, responded⟩ := ecResponce_responded S.conf q0 ec
          refine ⟨[], sent, _, responded.output, List.nil_prefix, .status _ _, responded.part, fun found => ?_⟩
          have other : S.conf.responceCode ec ≠ .ec204 := by
            intro given
            simp only [Conf.responceCode] at given
            split at given
            · cases given
            · subst given
              cases error
          exact absurd (found.trans responded.part) (status_not_204 other (responceText_line S.conf _))
      | options works fields =>
          refine .options rfl ?_ List.prefix_rfl ?_
          · simp [Exchange.startOptions, WriteSide.Loaded, WriteSide.pending]
          · simp [Exchange.startOptions, WriteSide.pending]
      | admitted =>
          exact (enter_keeps line unsent locked).within (fun p keeps => .phase rfl keeps) (fun out fine => fine)
  | options kind loaded grown sent =>
      exact (optionsStep_keeps kind loaded grown sent).within (fun q keeps => keeps) (fun out fine => fine)
  | phase kind keeps =>
      subst kind
      exact (step_keeps line keeps).within (fun p keeps => .phase rfl keeps) (fun out fine => fine)

omit line

/-- Every run writes at most one final status, and a 204 only where it is allowed, if a service that
answers 204 to a request whose body is thrown away holds the data back. -/
theorem one_final_status (S : Setting σ) (o : Opening) (q0 : Exchange (RequestData σ))
    (status : q0.write.status = .nothing) (idle : q0.write.remainSendBlockBytes = 0) (calls : q0.calls = [])
    (line : ∀ ec, statusLine ec <+: S.texts.responceHeader ec) (locked : S.SkipsLocked q0)
    (stage : Stage σ) (visited : Visits S.stageStep (.opening o q0) stage) :
    S.OneFinal q0 o stage.exchange.conn.output ∧
      ∀ out, S.stageStep stage = .done out → S.OneFinal q0 o out.2.conn.output := by
  have unsent : S.Unsent q0 q0 := ⟨rfl, status, idle, calls, fun _ member => .own member⟩
  have pass := stageStep_keeps (o := o) line unsent locked
  have keeps := visited.inv pass .opening
  refine ⟨?_, fun out done => ?_⟩
  · cases keeps with
    | opening => exact nothing_oneFinal
    | options kind loaded grown sent =>
        subst kind
        exact options_oneFinal grown sent
    | phase kind keeps =>
        subst kind
        exact keeps.oneFinal line
  · have kept := pass stage keeps
    rw [done] at kept
    exact kept

end

/-! ### A body that is thrown away -/

/-- A service that answers with `ret` at once and leaves the lock as told. -/
def Service.answering (ret : ModRet) (locked : Bool) : Service Unit where
  io := modNullIo Unit
  checkPreviewHandler := some (fun view _ _ => ⟨ret, (), view.entities, locked⟩)
  endOfDataHandler := none

/-- A request with a body and `Allow: 204`, without a preview, to a service that answers 204. -/
def Setting.skipping (locked : Bool) : Setting Unit where
  conf := ⟨false, false, fun _ => []⟩
  texts := ⟨fun ec => statusLine ec ++ crlf⟩
  svc := .answering .allow204 locked
  info := ⟨true, none, true, false⟩
  size := 0
  fuel := 20

/-- Its body comes in two reads, with a write between them. -/
def skippedRequest : Exchange (RequestData Unit) :=
  .fresh [] ⟨ascii "0\r\n\r\n", [], [], [.ready none (some (.bytes 100)), .ready (some (.bytes 3)) none,
    .ready (some (.bytes 2)) (some (.bytes 100))]⟩ ⟨(), none⟩ true

def unmodified : Bytes := ascii "ICAP/1.0 204 Unmodified\r\n\r\n"

theorem one_final_status_skipped :
    ∃ stage out, Visits (Setting.skipping true).stageStep (.opening .admitted skippedRequest) stage ∧
      (Setting.skipping true).stageStep stage = .done out ∧ out.2.conn.output = unmodified ∧
      (Setting.skipping true).OneFinal skippedRequest .admitted out.2.conn.output := by
  have computed : (run (Setting.skipping true).stageStep 30 (.opening .admitted skippedRequest)).map
      (fun out => out.2.conn.output) = some unmodified := by decide +kernel
  obtain ⟨out, result, output⟩ := Option.map_eq_some_iff.mp computed
  obtain ⟨stage, visited, done⟩ := Visits.of_run result
  have held : (Setting.skipping true).SkipsLocked skippedRequest := by
    rintro - - - handler found -
    cases found
    rfl
  exact ⟨stage, out, visited, done, output, (one_final_status _ _ _ rfl rfl rfl (fun _ => List.prefix_append _ _) held
    stage visited).2 out done⟩

/-- The chunks of a body start with a digit. -/
theorem chunkTexts_first {blocks : List Bytes} {tail rest : Bytes} {c : UInt8}
    (ended : tail = [] ∨ ∃ l : LastChunk, tail = l.encode) (text : chunkTexts blocks ++ tail = c :: rest) :
    isDigit 16 c := by
  have first : ∀ (digits behind : Bytes), digits ≠ [] → (∀ d ∈ digits, isDigit 16 d) →
      digits ++ behind = c :: rest → isDigit 16 c := by
    intro digits behind some each same
    cases digits with
    | nil => exact absurd rfl some
    | cons d ds =>
        rw [List.cons_append, List.cons.injEq] at same
        rw [← same.1]
        exact each d List.mem_cons_self
  cases blocks with
  | nil =>
      rcases ended with rfl | ⟨l, rfl⟩
      · cases text
      · simp only [chunkTexts, List.map_nil, List.flatten_nil, List.nil_append, LastChunk.encode, LastChunk.line,
          SizeText.text, List.append_assoc] at text
        exact first _ _ l.some l.hex text
  | cons b bs =>
      obtain ⟨some, hex, -⟩ := hexText_spec b.length
      simp only [chunkTexts, List.map_cons, List.flatten_cons, chunkText, List.append_assoc] at text
      exact first _ _ some hex text

/-- The request of the example has no headers, whatever the service does. -/
theorem skipping_holds {locked : Bool} {e : Entity} (held : (Setting.skipping locked).Holds skippedRequest e) :
    e.isHeader = false := by
  induction held with
  | own member =>
      rw [List.mem_singleton.mp member]
      rfl
  | preview found view data t known member ih =>
      cases found
      exact ih _ member
  | endOfData found view t known member ih => cases found

theorem skipping_final {locked : Bool} {m : Bytes} (response : (Setting.skipping locked).Final skippedRequest .admitted m) :
    ∃ ec blocks tail, m = statusLine ec ++ crlf ++ (chunkTexts blocks ++ tail) ∧
      (tail = [] ∨ ∃ l : LastChunk, tail = l.encode) := by
  cases response with
  | status _ ec => exact ⟨ec, [], [], by simp [Conf.responceText, Setting.skipping, chunkTexts], .inl rfl⟩
  | @response ec heads blocks tail parts =>
      have none : heads = [] := by
        refine List.eq_nil_iff_forall_not_mem.mpr (fun e member => ?_)
        obtain ⟨header, held⟩ := parts.heads e member
        rw [skipping_holds held] at header
        cases header
      subst none
      exact ⟨ec, blocks, tail, by simp [Setting.text, Setting.skipping, headTexts], parts.tail⟩

/-- Two 204 responses are not a part of one. -/
theorem unmodified_twice (locked : Bool) :
    ¬ (Setting.skipping locked).OneFinal skippedRequest .admitted (unmodified ++ unmodified) := by
  rintro ⟨interim, final, m, sent, part, response, inside, -⟩
  change unmodified ++ unmodified = interim ++ final at sent
  obtain ⟨ec, blocks, tail, rfl, ended⟩ := skipping_final response
  have line : ascii "ICAP/1.0 " <+: statusLine ec ++ crlf ++ (chunkTexts blocks ++ tail) := by
    simp only [statusLine, List.append_assoc]
    exact List.prefix_append _ _
  -- the interim line ends before its code, and the response starts with a status line
  have front : interim = (unmodified ++ unmodified).take interim.length := by rw [sent, List.take_left]
  have back : final = (unmodified ++ unmodified).drop interim.length := by rw [sent, List.drop_left]
  have short : interim.length < 10 := by
    by_contra long
    have ten : (unmodified ++ unmodified).take 10 <+: interim := by
      rw [front]
      exact List.take_prefix_take_left (by omega)
    exact absurd (ten.trans part) (by decide)
  have size : (unmodified ++ unmodified).length = 54 := by decide
  have start : ascii "ICAP/1.0 " <+: final := by
    refine List.prefix_of_prefix_length_le line inside ?_
    rw [back, List.length_drop, size]
    change 9 ≤ _
    omega
  have none : interim.length = 0 := by
    rw [back] at start
    revert start short
    generalize interim.length = k
    revert k
    decide
  rw [none, List.drop_zero] at back
  subst back
  -- it is a 204, behind which only chunks may follow
  have code : ec = .ec204 := by
    by_contra other
    have found : ascii "ICAP/1.0 204" <+: statusLine ec ++ crlf ++ (chunkTexts blocks ++ tail) :=
      List.IsPrefix.trans (by decide) inside
    refine status_not_204 other ?_ found
    rw [List.append_assoc]
    exact List.prefix_append _ _
  subst code
  have same : statusLine .ec204 ++ crlf = unmodified := by decide
  rw [same, List.prefix_append_right_inj] at inside
  obtain ⟨behind, text⟩ := inside
  have first : unmodified = 73 :: unmodified.tail := by decide
  rw [first, List.cons_append] at text
  exact absurd (chunkTexts_first ended text.symm) (by decide)

theorem skipped_body_answered_twice :
    ∃ stage out, Visits (Setting.skipping false).stageStep (.opening .admitted skippedRequest) stage ∧
      (Setting.skipping false).stageStep stage = .done out ∧ out.1 = .ok ∧
      out.2.conn.output = unmodified ++ unmodified ∧
      ¬ (Setting.skipping false).OneFinal skippedRequest .admitted out.2.conn.output := by
  have computed : (run (Setting.skipping false).stageStep 30 (.opening .admitted skippedRequest)).map
      (fun out => (out.1, out.2.conn.output)) = some (.ok, unmodified ++ unmodified) := by decide +kernel
  obtain ⟨out, result, values⟩ := Option.map_eq_some_iff.mp computed
  obtain ⟨ret, output⟩ := Prod.mk.inj values
  obtain ⟨stage, visited, done⟩ := Visits.of_run result
  refine ⟨stage, out, visited, done, ret, output, ?_⟩
  rw [output]
  exact unmodified_twice false

end IcapService
