import IcapService.Emission
import IcapService.IcapClient

/-! What the client puts on the wire.

What has been written and what is still to be written make one text in every state, whatever the socket does: the
headers, the preview, and behind the answer to it the chunks of the data the source has. -/

namespace IcapService

open CString Machine Chunked

/-- The blocks a text is read in by calls for at most `n` bytes. -/
def readBlocks (n : Nat) (data : Bytes) : List Bytes :=
  if data.length ≤ n ∨ n = 0 then (if data = [] then [] else [data])
  else data.take n :: readBlocks n (data.drop n)
termination_by data.length
decreasing_by
  rw [List.length_drop]
  omega

/-- The blocks of a data source up to its end. -/
def sourceBlocks (n : Nat) : List SourceData → List Bytes
  | .bytes data :: rest => readBlocks n data ++ sourceBlocks n rest
  | _ => []

/-- The source fails before it ends. -/
def sourceFails : List SourceData → Bool
  | .bytes _ :: rest => sourceFails rest
  | .fail :: _ => true
  | _ => false

/-- What the client writes of the data of its source. -/
def sourceText (source : List SourceData) : Bytes :=
  chunkTexts (sourceBlocks maxChunkSize source) ++ if sourceFails source then [] else ascii "0\r\n\r\n"

namespace Client

variable (fresh : Nat → UInt8)

/-- The header list of a kind, as it is sent. -/
def headText (s : Client) (type : EncapsType) : Bytes :=
  ((s.getHeadersFromEntities type).map HeadersList.content).getD []

/-- What follows the headers in front of the answer to a preview. -/
def previewText (s : Client) : Bytes :=
  if 0 < s.preview ∧ s.previewData ≠ [] then
    hexText s.preview.toNat ++ crlf ++ (s.previewData ++ (crlf ++ eofInfo s.eofSent))
  else if s.preview = 0 then eofInfo s.eofSent
  else []

/-- What follows the current block in front of the answer to a preview. -/
def ahead (s : Client) : Bytes :=
  match s.status with
  | .writeIcapHeaders => s.headText .reqHdr ++ (s.headText .resHdr ++ s.previewText)
  | .writeReqHeaders => s.headText .resHdr ++ s.previewText
  | .writeResHeaders => s.previewText
  | .writePreviewInfo => s.previewData ++ (crlf ++ eofInfo s.eofSent)
  | .writePreview => crlf ++ eofInfo s.eofSent
  | _ => []

/-- What is left of the body behind the current block. -/
def bodyText (s : Client) : Bytes := if s.eofSent then [] else (s.source.map sourceText).getD []

/-- The first block is the packed header. -/
def started (s : Client) : Client :=
  (s.ciRequestPack fresh).display (s.ciRequestPack fresh).requestHeader.content .writeIcapHeaders

/-- What is written in front of the answer to a preview. -/
def frontText (s : Client) : Bytes := (s.started fresh).write.pending ++ (s.started fresh).ahead

/-- No header list that is sent is empty. -/
def Filled (s : Client) : Prop :=
  ∀ type list, type = .reqHdr ∨ type = .resHdr → s.getHeadersFromEntities type = some list → list.content ≠ []

/-- Where a client stands in `front`, and in `rest` behind the answer to its preview. -/
structure Wired (base front rest : Bytes) (s : Client) : Prop where
  loaded : s.write.Loaded
  small : s.preview < 2147483648
  begun : s.status ≠ .init ∧ s.status ≠ .writeNothing
  filled : s.status.sendsHeaders → s.write.remainSendBlockBytes ≠ 0 ∧ s.Filled
  data : s.status = .writePreviewInfo → s.previewData ≠ []
  idle : s.status.sendsHeaders = false → s.status.processes = false → s.write.remainSendBlockBytes = 0
  waits : s.status = .readPreviewResponse → 0 ≤ s.preview
  head : s.status.processes = false →
    s.conn.output ++ (s.write.pending ++ s.ahead) = base ++ front ∧ s.bodyText = rest
  body : s.status.processes → s.conn.output ++ (s.write.pending ++ s.bodyText) = base ++ (front ++ rest)

/-! ### The blocks of a source -/

theorem readBlocks_whole {n : Nat} {data : Bytes} (some : data ≠ []) (fits : data.length ≤ n) :
    readBlocks n data = [data] := by
  rw [readBlocks, if_pos (.inl fits), if_neg some]

theorem readBlocks_more {n : Nat} {data : Bytes} (positive : 0 < n) (more : n < data.length) :
    readBlocks n data = data.take n :: readBlocks n (data.drop n) := by
  rw [readBlocks, if_neg (by omega)]

theorem chunkTexts_cons (block : Bytes) (blocks : List Bytes) :
    chunkTexts (block :: blocks) = chunkText block ++ chunkTexts blocks := rfl

/-- A call of the source takes a block off it, nothing, or its end. -/
theorem sourceText_read {source rest : List SourceData} {data : SourceData}
    (read : readSource maxChunkSize source = (data, rest)) :
    match data with
    | .bytes block => block.length ≤ maxChunkSize ∧
        sourceText source = (if block = [] then [] else chunkText block) ++ sourceText rest
    | .eof => sourceText source = ascii "0\r\n\r\n"
    | .fail => sourceText source = [] := by
  cases source with
  | nil =>
      cases read
      rfl
  | cons item later =>
      cases item with
      | eof =>
          cases read
          rfl
      | fail =>
          cases read
          rfl
      | bytes text =>
          rw [readSource] at read
          by_cases fits : text.length ≤ maxChunkSize
          · rw [if_pos fits] at read
            cases read
            refine ⟨fits, ?_⟩
            by_cases empty : text = []
            · rw [if_pos empty, sourceText, sourceBlocks, empty, readBlocks, if_pos (.inl (Nat.zero_le _)), if_pos rfl]
              rfl
            · rw [if_neg empty, sourceText, sourceBlocks, readBlocks_whole empty fits, List.cons_append,
                chunkTexts_cons, List.append_assoc]
              rfl
          · rw [if_neg fits] at read
            cases read
            have size : (text.take maxChunkSize).length = maxChunkSize := by
              rw [List.length_take]
              omega
            refine ⟨Nat.le_of_eq size, ?_⟩
            have some : text.take maxChunkSize ≠ [] := by
              intro none
              rw [none] at size
              exact absurd size (by decide)
            rw [if_neg some, sourceText, sourceBlocks, readBlocks_more (by decide) (Nat.lt_of_not_le fits),
              List.cons_append, chunkTexts_cons, List.append_assoc]
            rfl

/-! ### Blocks -/

/-- A change of the socket and of the block that is sent. -/
def Rewritten (s t : Client) : Prop := t = { s with conn := t.conn, calls := t.calls, write := t.write }

/-- A write moves bytes of the block to the output, and leaves with `CI_OK` just when the block is over. -/
theorem blockWriteNonblock_spec {s t : Client} {ret : CiRet} (loaded : s.write.Loaded)
    (wrote : s.blockWriteNonblock = (ret, t)) (fine : ret ≠ .error) :
    Rewritten s t ∧ t.write.Loaded ∧ t.conn.output ++ t.write.pending = s.conn.output ++ s.write.pending ∧
      (ret = .ok ∧ t.write.remainSendBlockBytes = 0 ∨ ret = .needsMore ∧ t.write.remainSendBlockBytes ≠ 0) := by
  obtain ⟨res, calls, result⟩ : ∃ res calls, s.result = (res, { s with calls := calls }) := by
    rw [Client.result]
    split
    · rename_i none
      exact ⟨_, [], by rw [← none]⟩
    · exact ⟨_, _, rfl⟩
  rw [blockWriteNonblock, result] at wrote
  dsimp only at wrote
  cases res with
  | fail =>
      cases wrote
      exact absurd rfl fine
  | bytes n =>
      rw [Connection.writeNonblock] at wrote
      dsimp only at wrote
      have room : (s.write.pending.take n).length ≤ s.write.pending.length := by
        rw [List.length_take]
        omega
      have later := SendPtr.pending_add s.write (s.write.pending.take n).length loaded room
        (s.write.bytesOut + (s.write.pending.take n).length) s.write.httpBytesOut
      have front : s.write.pending.take (s.write.pending.take n).length = s.write.pending.take n := by
        rw [List.length_take]
        exact List.take_eq_take_min.symm
      have whole := List.take_append_drop (s.write.pending.take n).length s.write.pending
      rw [front, ← later] at whole
      rw [WriteSide.Loaded] at loaded
      have remains : (s.write.remainSendBlockBytes - (s.write.pending.take n).length : Int) =
          (s.write.pending.drop (s.write.pending.take n).length).length := by
        rw [List.length_drop]
        omega
      cases wrote
      refine ⟨rfl, ?_, ?_, ?_⟩
      · rw [WriteSide.Loaded]
        change (s.write.remainSendBlockBytes - _ : Int) = _
        rw [remains]
        exact congrArg (fun text : Bytes => (text.length : Int)) later.symm
      · change s.conn.output ++ s.write.pending.take n ++ _ = _
        rw [List.append_assoc]
        exact congrArg _ whole
      · change (if 0 < (s.write.remainSendBlockBytes - _ : Int) then CiRet.needsMore else .ok) = _ ∧
            (s.write.remainSendBlockBytes - _ : Int) = 0 ∨
          (if 0 < (s.write.remainSendBlockBytes - _ : Int) then CiRet.needsMore else .ok) = _ ∧
            (s.write.remainSendBlockBytes - _ : Int) ≠ 0
        split
        · exact .inr ⟨rfl, by omega⟩
        · exact .inl ⟨rfl, by omega⟩

theorem blockWriteNonblock_error {s t : Client} (failed : s.blockWriteNonblock = (.error, t)) :
    t.conn.output = s.conn.output := by
  rw [blockWriteNonblock] at failed
  dsimp only at failed
  split at failed
  · cases failed
    rw [Client.result]
    split <;> rfl
  · split at failed <;> cases failed

theorem display_loaded (s : Client) (text : Bytes) (status : ClientStatus) :
    (s.display text status).write.Loaded ∧ (s.display text status).write.pending = text := by
  have pending : (s.display text status).write.pending = text := List.take_of_length_le (Nat.le_refl _)
  exact ⟨by rw [WriteSide.Loaded, pending]; rfl, pending⟩

theorem print_loaded (s : Client) {text : Bytes} (status : ClientStatus) (room : text.length ≤ wbufSize) :
    (s.print text status).write.Loaded ∧ (s.print text status).write.pending = text := by
  have pending : (s.print text status).write.pending = text :=
    Buffer.read_write_same _ _ _ (by rw [Nat.zero_add]; exact room)
  exact ⟨by rw [WriteSide.Loaded, pending]; rfl, pending⟩

theorem eofInfo_length (hasEof : Bool) : 0 < (eofInfo hasEof).length ∧ (eofInfo hasEof).length ≤ 11 := by
  cases hasEof <;> decide

/-- The block behind one that is over, or `CI_OK` behind the last. -/
structure Follows (s : Client) (ret : CiRet) (t : Client) : Prop where
  frame : t = { s with status := t.status, write := t.write }
  data : t.status = .writePreviewInfo → s.previewData ≠ []
  kind : ret = .needsMore ∧ t.status.sendsHeaders ∧ t.status ≠ .writeNothing ∧ t.write.remainSendBlockBytes ≠ 0 ∧
      t.write.Loaded ∧ t.write.pending ++ t.ahead = s.ahead ∨
    ret = .ok ∧ s.ahead = [] ∧ t.write = s.write

theorem behindResHeaders_follows {s : Client} (small : s.preview < 2147483648) (status : s.status = .writeResHeaders) :
    s.Follows (s.behindResHeaders s.eofSent).1 (s.behindResHeaders s.eofSent).2 := by
  have digits : (hexText s.preview.toNat).length ≤ 8 := hexText_length _ 7 (by omega)
  have ahead : s.ahead = s.previewText := by rw [Client.ahead, status]
  rw [behindResHeaders]
  by_cases data : 0 < s.preview ∧ s.previewData ≠ []
  · have size : (hexText s.preview.toNat ++ crlf).length = (hexText s.preview.toNat).length + 2 := by
      rw [List.length_append]
      rfl
    have room : (hexText s.preview.toNat ++ crlf).length ≤ wbufSize := by
      rw [size]
      exact Nat.le_trans (Nat.add_le_add_right digits 2) (by decide)
    obtain ⟨loaded, pending⟩ := s.print_loaded .writePreviewInfo room
    rw [if_pos data]
    refine ⟨rfl, fun _ => data.2, .inl ⟨rfl, rfl, (by intro same; cases same), ?_, loaded, ?_⟩⟩
    · change ((hexText s.preview.toNat ++ crlf).length : Int) ≠ 0
      omega
    · rw [pending, ahead, previewText, if_pos data]
      rfl
  · rw [if_neg data]
    by_cases zero : s.preview = 0
    · have size := eofInfo_length s.eofSent
      have room : (eofInfo s.eofSent).length ≤ wbufSize := Nat.le_trans size.2 (by decide)
      obtain ⟨loaded, pending⟩ := s.print_loaded .writeEofInfo room
      rw [if_pos zero]
      refine ⟨rfl, fun same => (by cases same), .inl ⟨rfl, rfl, (by intro same; cases same), ?_, loaded, ?_⟩⟩
      · change ((eofInfo s.eofSent).length : Int) ≠ 0
        omega
      · rw [pending, ahead, previewText, if_neg data, if_pos zero]
        exact List.append_nil _
    · rw [if_neg zero]
      exact ⟨rfl, fun same => (by cases same),
        .inr ⟨rfl, by rw [ahead, previewText, if_neg data, if_neg zero], rfl⟩⟩

/-- A text in memory is the next block. -/
theorem display_follows {s : Client} {text : Bytes} (status : ClientStatus) (sends : status.sendsHeaders)
    (begun : status ≠ .writeNothing ∧ status ≠ .writePreviewInfo) (some : text ≠ [])
    (ahead : s.ahead = text ++ ({ s with status := status } : Client).ahead) :
    s.Follows .needsMore (s.display text status) := by
  obtain ⟨loaded, pending⟩ := s.display_loaded text status
  refine ⟨rfl, fun same => absurd same begun.2, .inl ⟨rfl, sends, begun.1, ?_, loaded, ?_⟩⟩
  · change (text.length : Int) ≠ 0
    have positive := List.length_pos_iff.mpr some
    omega
  · rw [pending, ahead]
    rfl

theorem Follows.skip {s t : Client} {ret : CiRet} {status : ClientStatus}
    (follows : ({ s with status := status } : Client).Follows ret t)
    (ahead : s.ahead = ({ s with status := status } : Client).ahead) : s.Follows ret t := by
  obtain ⟨frame, data, kind⟩ := follows
  refine ⟨frame, data, ?_⟩
  rw [ahead]
  exact kind

theorem behindReqHeaders_follows {s : Client} (small : s.preview < 2147483648) (status : s.status = .writeReqHeaders)
    (filled : s.Filled) :
    s.Follows (s.behindReqHeaders s.eofSent).1 (s.behindReqHeaders s.eofSent).2 := by
  have ahead : s.ahead = s.headText .resHdr ++ s.previewText := by rw [Client.ahead, status]
  rw [behindReqHeaders]
  cases there : s.getHeadersFromEntities .resHdr with
  | some list =>
      refine display_follows .writeResHeaders rfl (by decide) (filled _ _ (.inr rfl) there) ?_
      rw [ahead, headText, there]
      rfl
  | none =>
      refine Follows.skip (behindResHeaders_follows (s := { s with status := .writeResHeaders }) small rfl) ?_
      rw [ahead, headText, there]
      rfl

theorem behindIcapHeaders_follows {s : Client} (small : s.preview < 2147483648)
    (status : s.status = .writeIcapHeaders)
    (filled : s.Filled) :
    s.Follows (s.behindIcapHeaders s.eofSent).1 (s.behindIcapHeaders s.eofSent).2 := by
  have ahead : s.ahead = s.headText .reqHdr ++ (s.headText .resHdr ++ s.previewText) := by rw [Client.ahead, status]
  rw [behindIcapHeaders]
  cases there : s.getHeadersFromEntities .reqHdr with
  | some list =>
      refine display_follows .writeReqHeaders rfl (by decide) (filled _ _ (.inl rfl) there) ?_
      rw [ahead, headText, there]
      rfl
  | none =>
      refine Follows.skip (behindReqHeaders_follows (s := { s with status := .writeReqHeaders }) small rfl filled) ?_
      rw [ahead, headText, there]
      rfl

theorem nextBlock_follows {s : Client} (small : s.preview < 2147483648) (sends : s.status.sendsHeaders)
    (begun : s.status ≠ .writeNothing) (data : s.status = .writePreviewInfo → s.previewData ≠ [])
    (filled : s.Filled) :
    s.Follows (s.nextBlock s.eofSent).1 (s.nextBlock s.eofSent).2 := by
  rw [nextBlock]
  cases status : s.status with
  | writeIcapHeaders => exact behindIcapHeaders_follows small status filled
  | writeReqHeaders => exact behindReqHeaders_follows small status filled
  | writeResHeaders => exact behindResHeaders_follows small status
  | writePreviewInfo =>
      refine display_follows .writePreview rfl (by decide) (data status) ?_
      rw [ahead, status]
      rfl
  | writePreview =>
      have size := eofInfo_length s.eofSent
      have more : (crlf ++ eofInfo s.eofSent).length = (eofInfo s.eofSent).length + 2 := by
        rw [List.length_append]
        exact Nat.add_comm _ _
      have room : (crlf ++ eofInfo s.eofSent).length ≤ wbufSize := by
        rw [more]
        exact Nat.le_trans (Nat.add_le_add_right size.2 2) (by decide)
      obtain ⟨loaded, pending⟩ := s.print_loaded .writeEofInfo room
      refine ⟨rfl, fun same => (by cases same), .inl ⟨rfl, rfl, (by intro same; cases same), ?_, loaded, ?_⟩⟩
      · change ((crlf ++ eofInfo s.eofSent).length : Int) ≠ 0
        omega
      · rw [pending, ahead, ahead, status]
        exact List.append_nil _
  | writeEofInfo =>
      refine ⟨?_, fun same => (by cases same), .inr ⟨rfl, by rw [ahead, status], rfl⟩⟩
      dsimp only
      rw [Bool.or_self]
  | writeNothing => exact absurd status begun
  | _ =>
      rw [status] at sends
      cases sends

/-! ### The headers -/

variable {fresh : Nat → UInt8} {base front rest : Bytes}

theorem processes_of_sends {status : ClientStatus} (sends : status.sendsHeaders) :
    status.processes = false := by
  cases status <;> first | rfl | cases sends

/-- A write that leaves something of the block. -/
theorem Wired.stalled {s t : Client} (wired : s.Wired base front rest) (sends : s.status.sendsHeaders)
    (frame : Rewritten s t) (loaded : t.write.Loaded)
    (moved : t.conn.output ++ t.write.pending = s.conn.output ++ s.write.pending)
    (more : t.write.remainSendBlockBytes ≠ 0) : t.Wired base front rest := by
  obtain ⟨whole, later⟩ := wired.head (processes_of_sends sends)
  have status : t.status = s.status := by rw [frame]
  have ahead : t.ahead = s.ahead := by rw [frame]; rfl
  have body : t.bodyText = s.bodyText := by rw [frame]; rfl
  exact
    { loaded := loaded
      small := by rw [frame]; exact wired.small
      begun := by rw [status]; exact wired.begun
      filled := fun _ => ⟨more, by rw [frame]; exact (wired.filled sends).2⟩
      data := by rw [frame]; exact wired.data
      idle := fun none => by rw [status, sends] at none; cases none
      waits := fun same => by rw [← status, same] at sends; cases sends
      head := fun _ => ⟨by rw [ahead, ← List.append_assoc, moved, List.append_assoc, whole], body.trans later⟩
      body := fun some => by rw [status, (processes_of_sends sends)] at some; cases some }

/-- A block that follows one that is over, or the end of the headers. -/
theorem Follows.wired {s t : Client} {ret : CiRet} (follows : s.Follows ret t) (small : s.preview < 2147483648)
    (filled : s.Filled)
    (over_ : s.write.remainSendBlockBytes = 0) (whole : s.conn.output ++ s.ahead = base ++ front)
    (later : s.bodyText = rest) :
    ret = .needsMore ∧ t.Wired base front rest ∨
      ret = .ok ∧ ({ t with status := .sendHeadersFinished } : Client).Wired base front rest := by
  obtain ⟨frame, data, kind⟩ := follows
  have body : t.bodyText = s.bodyText := by rw [frame]; rfl
  have output : t.conn.output = s.conn.output := by rw [frame]
  rcases kind with ⟨rfl, sends, begun, busy, loaded, next⟩ | ⟨rfl, none, same⟩
  · exact .inl ⟨rfl,
      { loaded := loaded
        small := by rw [frame]; exact small
        begun := ⟨fun same => (by rw [same] at sends; cases sends), begun⟩
        filled := fun _ => ⟨busy, by rw [frame]; exact filled⟩
        data := fun same => by rw [frame]; exact data same
        idle := fun none => by rw [none] at sends; cases sends
        waits := fun same => by rw [same] at sends; cases sends
        head := fun _ => ⟨by rw [next, output, whole], body.trans later⟩
        body := fun some => by rw [(processes_of_sends sends)] at some; cases some }⟩
  · have idle : t.write.remainSendBlockBytes = 0 := by rw [same, over_]
    rw [none, List.append_nil] at whole
    refine .inr ⟨rfl, ?_⟩
    exact
      { loaded := loaded_idle idle
        small := by rw [frame]; exact small
        begun := ⟨(by intro same; cases same), (by intro same; cases same)⟩
        filled := fun some => by cases some
        data := fun same => by cases same
        idle := fun _ _ => idle
        waits := fun same => by cases same
        head := fun _ => ⟨by
          change t.conn.output ++ (t.write.pending ++ []) = _
          rw [pending_idle idle, output, ← whole]
          exact List.append_nil _, body.trans later⟩
        body := fun some => by cases some }

/-- A call that sends headers goes on in `front`, and is behind it when it leaves with `CI_OK`. -/
theorem Wired.sendHeaders {s t : Client} {ret : CiRet} (wired : s.Wired base front rest)
    (sends : s.status.sendsHeaders) (sent : s.clientSendRequestHeaders fresh s.eofSent = (ret, t)) :
    ret = .needsMore ∧ t.Wired base front rest ∨ ret = .error ∧ t.conn.output = s.conn.output ∨
      ret = .ok ∧ ({ t with status := .sendHeadersFinished } : Client).Wired base front rest := by
  obtain ⟨whole, later⟩ := wired.head (processes_of_sends sends)
  obtain ⟨busy, filled⟩ := wired.filled sends
  rw [clientSendRequestHeaders, if_neg wired.begun.2, if_neg busy] at sent
  cases wrote : s.blockWriteNonblock with
  | mk result u =>
      rw [wrote] at sent
      by_cases failed : result = .error
      · subst failed
        cases sent
        exact .inr (.inl ⟨rfl, blockWriteNonblock_error wrote⟩)
      · obtain ⟨frame, loaded, moved, ⟨rfl, done⟩ | ⟨rfl, more⟩⟩ := blockWriteNonblock_spec wired.loaded wrote failed
        · have ahead : u.ahead = s.ahead := by rw [frame]; rfl
          have eof : u.eofSent = s.eofSent := by rw [frame]
          have small : u.preview < 2147483648 := by rw [frame]; exact wired.small
          have filled : u.Filled := by
            rw [frame]
            exact filled
          have follows := nextBlock_follows small (by rw [frame]; exact sends) (by rw [frame]; exact wired.begun.2)
            (by rw [frame]; exact wired.data) filled
          rw [eof] at follows
          dsimp only at sent
          rw [sent] at follows
          rw [pending_idle done, List.append_nil] at moved
          have here : u.conn.output ++ u.ahead = base ++ front := by rw [ahead, moved, List.append_assoc, whole]
          have body : u.bodyText = rest := by rw [← later, frame]; rfl
          rcases follows.wired small filled done here body with next | finished
          · exact .inl next
          · exact .inr (.inr finished)
        · cases sent
          exact .inl ⟨rfl, wired.stalled sends frame loaded moved more⟩

/-! ### The body -/

/-- What the calls that read leave of the side that writes. -/
structure SameSend (s t : Client) : Prop where
  write : t.write = s.write
  output : t.conn.output = s.conn.output
  eof : t.eofSent = s.eofSent
  source : t.source = s.source
  preview : t.preview = s.preview

theorem SameSend.refl (s : Client) : s.SameSend s := ⟨rfl, rfl, rfl, rfl, rfl⟩

theorem SameSend.trans {s t u : Client} (first : s.SameSend t) (second : t.SameSend u) : s.SameSend u :=
  ⟨second.write.trans first.write, second.output.trans first.output, second.eof.trans first.eof,
    second.source.trans first.source, second.preview.trans first.preview⟩

/-- Where a client stands that has the answer to its preview, or had none. -/
structure Bodied (text : Bytes) (s : Client) : Prop where
  loaded : s.write.Loaded
  small : s.preview < 2147483648
  body : s.conn.output ++ (s.write.pending ++ s.bodyText) = text

theorem Bodied.of_same {text : Bytes} {s t : Client} (bodied : s.Bodied text) (same : s.SameSend t) :
    t.Bodied text := by
  obtain ⟨write, output, eof, source, preview⟩ := same
  refine ⟨by rw [write]; exact bodied.loaded, by rw [preview]; exact bodied.small, ?_⟩
  rw [write, output, bodyText, eof, source]
  exact bodied.body

theorem Bodied.wired {s : Client} (bodied : s.Bodied (base ++ (front ++ rest))) (processes : s.status.processes) :
    s.Wired base front rest := by
  have sends : s.status.sendsHeaders = false := by
    cases status : s.status <;> first | rfl | (rw [status] at processes; cases processes)
  exact
    { loaded := bodied.loaded
      small := bodied.small
      begun := ⟨fun same => (by rw [same] at processes; cases processes),
        fun same => (by rw [same] at processes; cases processes)⟩
      filled := fun some => by rw [sends] at some; cases some
      data := fun same => by rw [same] at processes; cases processes
      idle := fun _ none => by rw [processes] at none; cases none
      waits := fun same => by rw [same] at processes; cases processes
      head := fun none => by rw [processes] at none; cases none
      body := fun _ => bodied.body }

/-- A request without a preview has its body behind its headers; one with a preview has it behind the answer. -/
theorem Wired.bodied {s : Client} (wired : s.Wired base front rest) (sends : s.status.sendsHeaders = false) :
    s.Bodied (base ++ (front ++ rest)) := by
  refine ⟨wired.loaded, wired.small, ?_⟩
  cases processes : s.status.processes with
  | true => exact wired.body processes
  | false =>
      obtain ⟨whole, later⟩ := wired.head processes
      have none : s.ahead = [] := by
        rw [ahead]
        cases status : s.status <;> first | rfl | (rw [status] at sends; cases sends)
      rw [pending_idle (wired.idle sends processes), none, List.append_nil, List.append_nil] at whole
      rw [pending_idle (wired.idle sends processes), List.nil_append, whole, later, List.append_assoc]

theorem clientPrepereBodyChunk_loaded (w : WriteSide) {data : Bytes} (some : data ≠ [])
    (small : data.length ≤ maxChunkSize) :
    (clientPrepereBodyChunk w (.bytes data)).1 = .ok ∧
      (clientPrepereBodyChunk w (.bytes data)).2.pending = chunkText data ∧
      (clientPrepereBodyChunk w (.bytes data)).2.Loaded := by
  obtain ⟨ok, pending⟩ := clientPrepereBodyChunk_data w data some small
  rw [chunkOf_encode] at pending
  refine ⟨ok, pending, ?_⟩
  have remains : (clientPrepereBodyChunk w (.bytes data)).2.remainSendBlockBytes =
      data.length + ((hexText data.length ++ crlf).length + 2) := by
    have positive := List.length_pos_iff.mpr some
    rw [clientPrepereBodyChunk, if_neg (by omega)]
    rfl
  rw [WriteSide.Loaded, pending, remains]
  simp only [List.length_append, crlf, List.length_cons, List.length_nil]
  omega

/-- The next block of the body is read from the source, or the text that ends it. -/
theorem Bodied.prepare {text : Bytes} {s t : Client} {needsData : Bool} (bodied : s.Bodied text)
    (prepared : s.prepareBlock = some (needsData, t)) : t.Bodied text ∧ t.status = s.status := by
  rw [prepareBlock] at prepared
  cases there : s.source with
  | none =>
      rw [there] at prepared
      cases prepared
      exact ⟨bodied, rfl⟩
  | some source =>
      rw [there] at prepared
      dsimp only at prepared
      by_cases busy : s.write.remainSendBlockBytes ≠ 0 ∨ s.eofSent
      · rw [if_pos busy] at prepared
        cases prepared
        exact ⟨bodied, rfl⟩
      · rw [if_neg busy] at prepared
        obtain ⟨idle, open_⟩ := not_or.mp busy
        have idle := not_not.mp idle
        have whole := bodied.body
        rw [pending_idle idle, bodyText, if_neg open_, there] at whole
        cases read : readSource maxChunkSize source with
        | mk data later =>
            have step := sourceText_read read
            rw [read] at prepared
            dsimp only at prepared
            cases data with
            | fail => cases prepared
            | eof =>
                cases prepared
                obtain ⟨loaded, pending⟩ := display_loaded
                  { s with source := some later, write := { s.write with remainSendBlockBytes := 0 }, eofSent := true }
                  (ascii "0\r\n\r\n") s.status
                refine ⟨⟨loaded, bodied.small, ?_⟩, rfl⟩
                rw [pending, ← whole]
                change _ ++ (ascii "0\r\n\r\n" ++ []) = _ ++ ([] ++ sourceText source)
                rw [step, List.append_nil, List.nil_append]
                rfl
            | bytes block =>
                obtain ⟨fits, step⟩ := step
                by_cases empty : block = []
                · subst empty
                  cases prepared
                  refine ⟨⟨loaded_idle rfl, bodied.small, ?_⟩, rfl⟩
                  rw [if_pos rfl, List.nil_append] at step
                  rw [pending_idle rfl, bodyText, if_neg open_, ← whole]
                  change _ ++ ([] ++ sourceText later) = _ ++ ([] ++ sourceText source)
                  rw [step]
                · obtain ⟨ok, pending, loaded⟩ := clientPrepereBodyChunk_loaded s.write empty fits
                  cases made : clientPrepereBodyChunk s.write (.bytes block) with
                  | mk ret write =>
                      rw [made] at prepared ok pending loaded
                      dsimp only at ok pending
                      subst ok
                      cases prepared
                      refine ⟨⟨loaded, bodied.small, ?_⟩, rfl⟩
                      rw [bodyText, if_neg open_, ← whole]
                      change _ ++ (write.pending ++ sourceText later) = _ ++ ([] ++ sourceText source)
                      rw [pending, step, if_neg empty]
                      rfl

theorem Bodied.rewritten {text : Bytes} {s t : Client} (bodied : s.Bodied text) (frame : Rewritten s t)
    (loaded : t.write.Loaded) (moved : t.conn.output ++ t.write.pending = s.conn.output ++ s.write.pending) :
    t.Bodied text := by
  have body : t.bodyText = s.bodyText := by rw [frame]; rfl
  refine ⟨loaded, by rw [frame]; exact bodied.small, ?_⟩
  rw [body, ← List.append_assoc, moved, List.append_assoc]
  exact bodied.body

theorem Bodied.sendData {text : Bytes} {s t : Client} {needsData : Bool} (bodied : s.Bodied text)
    (sent : s.sendData = some (needsData, t)) : t.Bodied text ∧ t.status = s.status := by
  rw [Client.sendData] at sent
  obtain ⟨⟨needsData', u⟩, prepared, sent⟩ := Option.bind_eq_some_iff.mp sent
  obtain ⟨bodied', status⟩ := bodied.prepare prepared
  dsimp only at sent
  split at sent
  · split at sent
    · cases sent
    · rename_i ret v failed wrote
      cases sent
      obtain ⟨frame, loaded, moved, -⟩ := blockWriteNonblock_spec bodied'.loaded wrote failed
      exact ⟨bodied'.rewritten frame loaded moved, by rw [frame]; exact status⟩
  · cases sent
    exact ⟨bodied', status⟩

/-! ### Reading leaves the side that writes -/

theorem readData_same {s t : Client} (read : s.readData = some t) : s.SameSend t ∧ t.status = s.status := by
  rw [readData] at read
  have frame : ∀ res, (netDataRead s.read s.conn res).2.2.output = s.conn.output := by
    intro res
    simp only [netDataRead, Connection.readNonblock]
    split
    · rfl
    · cases res <;> rfl
  have result : s.result.2.write = s.write ∧ s.result.2.conn = s.conn ∧ s.result.2.eofSent = s.eofSent ∧
      s.result.2.source = s.source ∧ s.result.2.preview = s.preview ∧ s.result.2.status = s.status ∧
      s.result.2.read = s.read := by
    rw [Client.result]
    split <;> exact ⟨rfl, rfl, rfl, rfl, rfl, rfl, rfl⟩
  obtain ⟨write, conn, eof, source, preview, status, side⟩ := result
  dsimp only at read
  rw [side, conn] at read
  have output := frame s.result.1
  split at read
  · cases read
  · rename_i ret r c failed got
    cases read
    rw [got] at output
    exact ⟨⟨write, output, eof, source, preview⟩, status⟩

/-- What a part of the reader leaves of the side that writes, and that it does not go back. -/
def KeepsSend {ρ : Type} (s : Client) (step : Step Client (ρ × Client)) : Prop :=
  step.All (fun t => s.SameSend t ∧ t.status.processes) (fun out => s.SameSend out.2 ∧ out.2.status.processes)

theorem incomingHead_keeps {s : Client} (processes : s.status.processes) : s.KeepsSend (s.incomingHead fresh) := by
  rw [KeepsSend, incomingHead]
  split
  · exact ⟨.refl s, processes⟩
  · split
    · split
      · exact ⟨⟨rfl, rfl, rfl, rfl, rfl⟩, processes⟩
      · dsimp only
        split
        · exact ⟨⟨rfl, rfl, rfl, rfl, rfl⟩, rfl⟩
        · split
          · exact ⟨⟨rfl, rfl, rfl, rfl, rfl⟩, processes⟩
          · split
            · exact ⟨⟨rfl, rfl, rfl, rfl, rfl⟩, processes⟩
            · split <;> exact ⟨⟨rfl, rfl, rfl, rfl, rfl⟩, rfl⟩
            · split <;> exact ⟨⟨rfl, rfl, rfl, rfl, rfl⟩, rfl⟩
    · exact ⟨⟨rfl, rfl, rfl, rfl, rfl⟩, processes⟩

theorem incomingHeaders_keeps {s : Client} (processes : s.status.processes) : s.KeepsSend s.incomingHeaders := by
  rw [KeepsSend, incomingHeaders]
  split
  · exact ⟨.refl s, processes⟩
  · dsimp only
    split
    · split
      · exact ⟨⟨rfl, rfl, rfl, rfl, rfl⟩, rfl⟩
      · split <;> exact ⟨⟨rfl, rfl, rfl, rfl, rfl⟩, rfl⟩
    · exact ⟨⟨rfl, rfl, rfl, rfl, rfl⟩, processes⟩

theorem deliverStep_keeps {s : Client} (fuel : Nat) (processes : s.status.processes) :
    s.KeepsSend (deliverStep fuel s) := by
  rw [KeepsSend, deliverStep]
  split
  · exact ⟨.refl s, processes⟩
  · dsimp only
    split
    · exact ⟨⟨rfl, rfl, rfl, rfl, rfl⟩, processes⟩
    · split
      · exact ⟨⟨rfl, rfl, rfl, rfl, rfl⟩, processes⟩
      · split
        · exact ⟨⟨rfl, rfl, rfl, rfl, rfl⟩, rfl⟩
        · exact ⟨⟨rfl, rfl, rfl, rfl, rfl⟩, processes⟩
        · exact ⟨⟨rfl, rfl, rfl, rfl, rfl⟩, processes⟩

theorem incomingBody_same {s t : Client} {fuel : Nat} {ret : Incoming} (processes : s.status.processes)
    (result : s.incomingBody fuel = some (ret, t)) : s.SameSend t ∧ t.status.processes := by
  rw [incomingBody] at result
  split at result
  · cases result
    exact ⟨.refl s, processes⟩
  · obtain ⟨out, ran, same⟩ := Option.map_eq_some_iff.mp result
    cases same
    refine run_post (deliverStep fuel) (fun u => s.SameSend u ∧ u.status.processes)
      (fun out => s.SameSend out.2 ∧ out.2.status.processes) (fun u holds => ?_) fuel s out ⟨.refl s, processes⟩ ran
    exact (deliverStep_keeps fuel holds.2).imp (fun v kept => ⟨holds.1.trans kept.1, kept.2⟩)
      (fun r kept => ⟨holds.1.trans kept.1, kept.2⟩)

theorem clientParseIncomingData_same {s t : Client} {fuel : Nat} {ret : Incoming} (processes : s.status.processes)
    (result : s.clientParseIncomingData fresh fuel = some (ret, t)) : s.SameSend t ∧ t.status.processes := by
  have parts : s.KeepsSend ((s.incomingHead fresh).bind incomingHeaders) :=
    Step.All.bind (P := fun u => s.SameSend u ∧ u.status.processes) (incomingHead_keeps processes)
      (fun u holds => (incomingHeaders_keeps holds.2).imp (fun v kept => ⟨holds.1.trans kept.1, kept.2⟩)
        (fun r kept => ⟨holds.1.trans kept.1, kept.2⟩))
  rw [clientParseIncomingData] at result
  cases way : (s.incomingHead fresh).bind incomingHeaders with
  | done out =>
      rw [way] at result
      rw [KeepsSend, way] at parts
      cases result
      exact parts
  | next u =>
      rw [way] at result
      rw [KeepsSend, way] at parts
      obtain ⟨same, status⟩ := incomingBody_same parts.2 result
      exact ⟨parts.1.trans same, status⟩

/-! ### The loop -/

/-- What a client has written when it ends with a code: all, what is in front of an answer to the preview that ends the
exchange, or something in between when the server needs no more. -/
def Written (base front rest : Bytes) (s : Client) : Prop :=
  s.conn.output = base ++ (front ++ rest) ∨ s.returnCode = 204 ∨
    0 ≤ s.preview ∧ s.conn.output = base ++ front ∧ s.returnCode ≠ 100

/-- What a call leaves. -/
structure Turned (base front rest : Bytes) (out : Turn × Client) : Prop where
  error : out.1 = .error → out.2.conn.output <+: base ++ (front ++ rest)
  needs : ∀ action, out.1 = .needs action → out.2.Wired base front rest
  done : out.1 = .needs .none → out.2.Written base front rest

theorem Bodied.output {text : Bytes} {s : Client} (bodied : s.Bodied text) : s.conn.output <+: text :=
  ⟨_, bodied.body⟩

theorem Wired.output_front {s : Client} (wired : s.Wired base front rest) (before : s.status.processes = false) :
    s.conn.output <+: base ++ front :=
  ⟨_, (wired.head before).1⟩

theorem Wired.output {s : Client} (wired : s.Wired base front rest) : s.conn.output <+: base ++ (front ++ rest) := by
  cases processes : s.status.processes with
  | true => exact ⟨_, wired.body processes⟩
  | false =>
      rw [← List.append_assoc]
      exact (wired.output_front processes).trans (List.prefix_append _ _)

/-- An answer to a preview finds all of `front` written. -/
theorem Wired.waiting {s : Client} (wired : s.Wired base front rest) (sends : s.status.sendsHeaders = false)
    (before : s.status.processes = false) : s.conn.output = base ++ front := by
  obtain ⟨whole, -⟩ := wired.head before
  have none : s.ahead = [] := by
    rw [ahead]
    cases status : s.status <;> first | rfl | (rw [status] at sends; cases sends)
  rwa [pending_idle (wired.idle sends before), none, List.append_nil, List.append_nil] at whole

theorem headersTurn_turned {s : Client} (wired : s.Wired base front rest) :
    (s.headersTurn fresh).All (fun t => t.Wired base front rest ∧ t.status.sendsHeaders = false)
      (Turned base front rest) := by
  rw [headersTurn]
  by_cases sends : s.status.sendsHeaders
  · rw [if_neg (not_not.mpr sends)]
    cases sent : s.clientSendRequestHeaders fresh s.eofSent with
    | mk ret t =>
        rcases wired.sendHeaders sends sent with ⟨rfl, wired'⟩ | ⟨rfl, same⟩ | ⟨rfl, wired'⟩
        · exact ⟨fun failed => (by cases failed), fun action _ => wired', fun none => (by cases none)⟩
        · refine ⟨fun _ => ?_, fun action failed => (by cases failed), fun none => (by cases none)⟩
          change t.conn.output <+: _
          rw [same]
          exact wired.output
        · exact ⟨wired', rfl⟩
  · rw [if_pos sends]
    exact ⟨wired, Bool.eq_false_iff.mpr sends⟩

theorem finishedTurn_turned {s : Client} (wired : s.Wired base front rest) (sends : s.status.sendsHeaders = false) :
    s.finishedTurn.All
      (fun t => t.Wired base front rest ∧ t.status.sendsHeaders = false ∧ t.status ≠ .sendHeadersFinished)
      (Turned base front rest) := by
  rw [finishedTurn]
  by_cases finished : s.status = .sendHeadersFinished
  · rw [if_neg (not_not.mpr finished)]
    have before : s.status.processes = false := by rw [finished]; rfl
    have output := wired.waiting sends before
    have bodied := wired.bodied sends
    have idle := wired.idle sends before
    by_cases preview : 0 ≤ s.preview
    · dsimp only
      rw [if_pos preview]
      refine ⟨fun failed => (by cases failed), fun action _ => ?_, fun none => (by cases none)⟩
      exact
        { loaded := wired.loaded
          small := wired.small
          begun := ⟨(by intro same; cases same), (by intro same; cases same)⟩
          filled := fun some => by cases some
          data := fun same => by cases same
          idle := fun _ _ => idle
          waits := fun _ => preview
          head := fun _ => ⟨by
            change s.conn.output ++ (s.write.pending ++ []) = _
            rw [pending_idle idle, output]
            exact List.append_nil _, (wired.head before).2⟩
          body := fun some => by cases some }
    · dsimp only
      rw [if_neg preview]
      refine ⟨Bodied.wired ⟨bodied.loaded, bodied.small, bodied.body⟩ rfl, rfl, by intro same; cases same⟩
  · rw [if_pos finished]
    exact ⟨wired, sends, finished⟩

theorem previewedResponse_same {s t : Client} {ret : CiRet} {status : Int}
    (answered : s.ciClientHandlePreviewedResponse fresh = (ret, status, t)) :
    s.SameSend t ∧ (t.status.processes ∨ t.status = s.status) := by
  rw [ciClientHandlePreviewedResponse] at answered
  cases read : s.readData with
  | none =>
      rw [read] at answered
      cases answered
      exact ⟨.refl s, .inr rfl⟩
  | some u =>
      obtain ⟨⟨write, output, eof, source, preview⟩, same⟩ := readData_same read
      rw [read] at answered
      dsimp only at answered
      split at answered
      · split at answered
        · cases answered
          exact ⟨⟨write, output, eof, source, preview⟩, .inr same⟩
        · split at answered
          · cases answered
            exact ⟨⟨write, output, eof, source, preview⟩, .inr same⟩
          · split at answered
            · split at answered
              · cases answered
                exact ⟨⟨write, output, eof, source, preview⟩, .inr same⟩
              · cases answered
                refine ⟨⟨write, output, eof, source, preview⟩, .inl ?_⟩
                dsimp only
                split <;> rfl
            · cases answered
              refine ⟨⟨write, output, eof, source, preview⟩, ?_⟩
              dsimp only
              split
              · exact .inl rfl
              · exact .inr same
      · cases answered
        exact ⟨⟨write, output, eof, source, preview⟩, .inr same⟩

/-- A client that waits for the answer to its preview, behind a read. -/
theorem Wired.answered {s t : Client} (wired : s.Wired base front rest) (waits : s.status = .readPreviewResponse)
    (same : s.SameSend t) (status : t.status.processes ∨ t.status = s.status) : t.Wired base front rest := by
  have sends : s.status.sendsHeaders = false := by rw [waits]; rfl
  have before : s.status.processes = false := by rw [waits]; rfl
  have bodied := (wired.bodied sends).of_same same
  rcases status with processes | kept
  · exact bodied.wired processes
  · rw [waits] at kept
    have idle : t.write.remainSendBlockBytes = 0 := by rw [same.write]; exact wired.idle sends before
    exact
      { loaded := bodied.loaded
        small := bodied.small
        begun := ⟨fun other => (by rw [kept] at other; cases other), fun other => (by rw [kept] at other; cases other)⟩
        filled := fun some => by rw [kept] at some; cases some
        data := fun other => by rw [kept] at other; cases other
        idle := fun _ _ => idle
        waits := fun _ => by rw [same.preview]; exact wired.waits waits
        head := fun _ => by
          have ahead : t.ahead = [] := by rw [Client.ahead, kept]
          rw [pending_idle idle, ahead, List.append_nil, List.append_nil, same.output, bodyText, same.eof, same.source]
          exact ⟨wired.waiting sends before, (wired.head before).2⟩
        body := fun some => by rw [kept] at some; cases some }

theorem Wired.coded {s : Client} (wired : s.Wired base front rest) (code : Int) :
    ({ s with returnCode := code } : Client).Wired base front rest :=
  { loaded := wired.loaded
    small := wired.small
    begun := wired.begun
    filled := wired.filled
    data := wired.data
    idle := wired.idle
    waits := wired.waits
    head := wired.head
    body := wired.body }

/-- A client behind the answer to its preview that is not in the response ends. -/
def Rests (base front rest : Bytes) (s : Client) : Prop :=
  s.Wired base front rest ∧ s.status.sendsHeaders = false ∧ (s.status.processes = false → s.Written base front rest)

theorem previewTurn_turned {s : Client} (wired : s.Wired base front rest) (sends : s.status.sendsHeaders = false)
    (later : s.status ≠ .sendHeadersFinished) :
    (s.previewTurn fresh).All (Rests base front rest) (Turned base front rest) := by
  rw [previewTurn]
  by_cases waits : 0 ≤ s.preview ∧ s.status = .readPreviewResponse
  · rw [if_neg (not_not.mpr waits)]
    have before : s.status.processes = false := by rw [waits.2]; rfl
    have output := wired.waiting sends before
    cases answered : s.ciClientHandlePreviewedResponse fresh with
    | mk ret answer =>
        obtain ⟨status, t⟩ := answer
        obtain ⟨same, kept⟩ := previewedResponse_same answered
        have wired' := wired.answered waits.2 same kept
        have coded := wired'.coded status
        have sends' : t.status.sendsHeaders = false := by
          rcases kept with processes | kept
          · cases at_ : t.status <;> first | rfl | (rw [at_] at processes; cases processes)
          · rw [kept]
            exact sends
        have written (other : status ≠ 100) :
            ({ t with returnCode := status } : Client).Written base front rest :=
          .inr (.inr ⟨by rw [same.preview]; exact waits.1, by rw [same.output]; exact output, other⟩)
        dsimp only
        split
        · rename_i next
          cases next
          exact ⟨fun failed => (by cases failed), fun action _ => wired', fun none => (by cases none)⟩
        · rename_i next
          cases next
          exact ⟨fun _ => wired'.output, fun action failed => (by cases failed), fun none => (by cases none)⟩
        · rename_i next
          cases next
          split
          · rename_i final
            exact ⟨fun failed => (by cases failed), fun action _ => coded,
              fun _ => written (fun same => by omega)⟩
          · split
            · exact ⟨fun failed => (by cases failed), fun action _ => coded, fun none => (by cases none)⟩
            · rename_i other
              exact ⟨coded, sends', fun _ => written other⟩
  · rw [if_pos waits]
    refine ⟨wired, sends, fun before => ?_⟩
    exfalso
    have begun := wired.begun
    cases status : s.status with
    | readPreviewResponse => exact waits ⟨wired.waits status, status⟩
    | init => exact begun.1 status
    | sendHeadersFinished => exact later status
    | _ =>
        first
        | exact absurd (status ▸ sends) (by decide)
        | exact absurd (status ▸ before) (by decide)

theorem needs_written {s : Client} {needsData : Bool} (bodied : s.Bodied (base ++ (front ++ rest)))
    (none : s.needs needsData = .none) : s.Written base front rest := by
  rw [Client.needs, ClientAction.none, ClientAction.mk.injEq] at none
  obtain ⟨-, writes, -, -⟩ := none
  obtain ⟨sent, idle⟩ := Bool.or_eq_false_iff.mp writes
  have idle : s.write.remainSendBlockBytes = 0 := by simpa using idle
  have sent : s.eofSent = true := by simpa using sent
  have whole := bodied.body
  rw [pending_idle idle, bodyText, if_pos sent, List.append_nil, List.append_nil] at whole
  exact .inl whole

theorem getData_turned {s : Client} {fuel : Nat} {needsData : Bool} (bodied : s.Bodied (base ++ (front ++ rest)))
    (processes : s.status.processes) : Turned base front rest (s.getData fresh fuel needsData) := by
  rw [getData]
  cases read : s.readData with
  | none =>
      exact ⟨fun _ => bodied.output, fun action failed => (by cases failed), fun none => (by cases none)⟩
  | some t =>
      obtain ⟨same, status⟩ := readData_same read
      have bodied := bodied.of_same same
      dsimp only
      cases parsed : t.clientParseIncomingData fresh fuel with
      | none =>
          exact ⟨fun failed => (by cases failed), fun action failed => (by cases failed),
            fun none => (by cases none)⟩
      | some out =>
          obtain ⟨ret, u⟩ := out
          obtain ⟨same, processes⟩ := clientParseIncomingData_same (by rw [status]; exact processes) parsed
          have bodied := bodied.of_same same
          split
          · rename_i never
            cases never
          · rename_i failed
            cases failed
            exact ⟨fun _ => bodied.output, fun action failed => (by cases failed), fun none => (by cases none)⟩
          · rename_i final
            cases final
            exact ⟨fun failed => (by cases failed), fun action _ => (bodied.wired processes).coded 204,
              fun _ => .inr (.inl rfl)⟩
          · rename_i more
            cases more
            exact ⟨fun failed => (by cases failed), fun action _ => bodied.wired processes,
              fun none => needs_written bodied (by injection none)⟩

/-- Without a source nothing of a body is left. -/
theorem Bodied.sourceless {text : Bytes} {s : Client} (bodied : s.Bodied text) (none : s.source.isNone) :
    ({ s with eofSent := true } : Client).Bodied text := by
  refine ⟨bodied.loaded, bodied.small, ?_⟩
  have whole := bodied.body
  rw [bodyText, Option.isNone_iff_eq_none.mp none] at whole
  cases sent : s.eofSent <;> rw [sent] at whole <;> exact whole

theorem sendAndGetData_turned {s : Client} {fuel : Nat} {action : Wait}
    (bodied : s.Bodied (base ++ (front ++ rest))) (processes : s.status.processes) :
    Turned base front rest (s.ciClientSendAndGetData fresh fuel action) := by
  have started : ∃ t : Client, (if s.source.isNone then { s with eofSent := true } else s) = t ∧
      t.Bodied (base ++ (front ++ rest)) ∧ t.status.processes := by
    by_cases none : s.source.isNone
    · exact ⟨_, if_pos none, bodied.sourceless none, processes⟩
    · exact ⟨_, if_neg none, bodied, processes⟩
  obtain ⟨t, same, bodied, processes⟩ := started
  rw [ciClientSendAndGetData, same]
  have behind (needsData : Bool) {u : Client} (bodied : u.Bodied (base ++ (front ++ rest)))
      (processes : u.status.processes) : Turned base front rest
        (if action.read then u.getData fresh fuel needsData else (.needs (u.needs needsData), u)) := by
    split
    · exact getData_turned bodied processes
    · exact ⟨fun failed => (by cases failed), fun action _ => bodied.wired processes,
        fun none => needs_written bodied (by injection none)⟩
  cases action.write with
  | false => exact behind false bodied processes
  | true =>
      rw [if_pos rfl]
      cases sent : t.sendData with
      | none => exact ⟨fun _ => bodied.output, fun action failed => (by cases failed), fun none => (by cases none)⟩
      | some out =>
          obtain ⟨needsData, u⟩ := out
          obtain ⟨bodied, status⟩ := bodied.sendData sent
          exact behind needsData bodied (by rw [status]; exact processes)

theorem nonblocking_turned {s : Client} {fuel : Nat} {action : Wait} (wired : s.Wired base front rest) :
    Turned base front rest (s.ciClientIcapfilterNonblocking fresh fuel action) := by
  have parts : (((s.headersTurn fresh).bind finishedTurn).bind (previewTurn fresh)).All (Rests base front rest)
      (Turned base front rest) :=
    ((headersTurn_turned wired).bind (fun t holds => finishedTurn_turned holds.1 holds.2)).bind
      (fun t holds => previewTurn_turned holds.1 holds.2.1 holds.2.2)
  rw [ciClientIcapfilterNonblocking]
  cases way : ((s.headersTurn fresh).bind finishedTurn).bind (previewTurn fresh) with
  | done out =>
      rw [way] at parts
      exact parts
  | next t =>
      rw [way] at parts
      obtain ⟨wired, sends, ends⟩ := parts
      dsimp only
      split
      · rename_i processes
        exact sendAndGetData_turned (wired.bodied sends) processes
      · rename_i before
        exact ⟨fun failed => (by cases failed), fun action _ => wired,
          fun _ => ends (Bool.eq_false_iff.mpr before)⟩

theorem Wired.waited {s : Client} (wired : s.Wired base front rest) {conn : Connection}
    (output : conn.output = s.conn.output) : ({ s with conn := conn } : Client).Wired base front rest :=
  { loaded := wired.loaded
    small := wired.small
    begun := wired.begun
    filled := wired.filled
    data := wired.data
    idle := wired.idle
    waits := wired.waits
    head := by
      change s.status.processes = false → conn.output ++ (s.write.pending ++ s.ahead) = _ ∧ _
      rw [output]
      exact wired.head
    body := by
      change s.status.processes → conn.output ++ (s.write.pending ++ s.bodyText) = _
      rw [output]
      exact wired.body }

/-- What a pass of the loop leaves, behind a call. -/
theorem clientStep_turned {fuel : Nat} {p : Client × Wait}
    (turned : Turned base front rest (p.1.ciClientIcapfilterNonblocking fresh fuel p.2)) :
    (clientStep fresh fuel p).All (fun q => q = p ∨ q.1.Wired base front rest)
      (fun out => out.2.conn.output <+: base ++ (front ++ rest) ∧
        ∀ code, out.1 = some code → out.2.returnCode = code ∧ out.2.Written base front rest) := by
  rw [clientStep]
  cases turn : p.1.ciClientIcapfilterNonblocking fresh fuel p.2 with
  | mk way s =>
      rw [turn] at turned
      cases way with
      | stuck => exact .inl rfl
      | error => exact ⟨turned.error rfl, fun code none => (by cases none)⟩
      | needs action =>
          have wired := turned.needs action rfl
          dsimp only
          split
          · rename_i none
            subst none
            exact ⟨wired.output, fun code same => ⟨by cases same; rfl, turned.done rfl⟩⟩
          · split
            · split
              · rename_i conn waited
                have frame := Connection.waitForData_frame waited
                refine ⟨?_, fun code none => (by cases none)⟩
                change conn.output <+: _
                rw [frame]
                exact wired.output
              · rename_i conn waited
                have frame := Connection.waitForData_frame waited
                exact .inr (wired.waited (by rw [frame]))
            · exact .inr wired

end Client

end IcapService
