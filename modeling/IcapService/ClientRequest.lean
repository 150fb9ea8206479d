import IcapService.ClientWire

/-! The request a client writes, from its start to its end, and what a server reads of its body. -/

namespace IcapService

open CString Machine Chunked

/-! ### The buffers of header lists -/

/-- The header lists of a table have the buffers they are made with or larger ones, those in the trash too. -/
def EntityTable.Buffered (t : EntityTable) : Prop := ∀ e, some e ∈ t.cells → headsBufSize ≤ e.list.buf.length

namespace HeadersList

variable {fresh : Nat → UInt8} {h : HeadersList}

theorem add_buf (h : HeadersList) (line : Bytes) : h.buf.length ≤ (h.add fresh line).2.buf.length := by
  rw [add]
  split
  · exact Nat.le_refl _
  · simp only [List.length_set, poke, List.length_append, List.length_take, List.length_drop]
    split
    · rw [realloc_length]
      omega
    · omega

theorem addheaders_buf (h headers : HeadersList) : h.buf.length ≤ (h.addheaders fresh headers).2.buf.length := by
  rw [addheaders]
  split
  · exact Nat.le_refl _
  · simp only [poke, List.length_append, List.length_take, List.length_drop]
    split
    · rw [realloc_length]
      omega
    · omega

theorem create_buf : headsBufSize ≤ (create fresh).buf.length := Nat.le_of_eq (realloc_length ..).symm

theorem pack_buf (h : HeadersList) : h.pack.buf.length = h.buf.length := by
  rw [pack]
  split <;> rw [List.length_set, packLines_length]

/-- A list is packed with its last line behind it. -/
theorem pack_content_some (some : headsBufSize ≤ h.buf.length) : h.pack.content ≠ [] := by
  have positive : 0 < headsBufSize := by decide
  intro none
  have size := congrArg List.length none
  rw [content, pack] at size
  split at size <;> dsimp only at size <;>
    rw [List.length_take, List.length_set, packLines_length, List.length_nil] at size <;> omega

end HeadersList

namespace EntityTable

variable {fresh : Nat → UInt8} {t : EntityTable}

theorem Buffered.get (buffered : t.Buffered) {i : Nat} {e : EncapsEntity} (there : t.get i = some e) :
    headsBufSize ≤ e.list.buf.length := by
  rw [EntityTable.get, List.getD_eq_getElem?_getD] at there
  cases cell : t.cells[i]? with
  | none =>
      rw [cell] at there
      cases there
  | some e' =>
      rw [cell] at there
      subst there
      exact buffered e (List.mem_of_getElem? cell)

theorem Buffered.set (buffered : t.Buffered) (i : Nat) {e : Option EncapsEntity}
    (some : ∀ e', e = some e' → headsBufSize ≤ e'.list.buf.length) : (t.set i e).Buffered := by
  intro e' member
  rcases List.mem_or_eq_of_mem_set member with old | same
  · exact buffered e' old
  · exact some e' same.symm

theorem Buffered.alloc (buffered : t.Buffered) (type : EncapsType) (val : Int) :
    headsBufSize ≤ (t.alloc fresh type val).1.list.buf.length ∧ (t.alloc fresh type val).2.Buffered := by
  rw [EntityTable.alloc]
  split
  · rename_i e there
    have some : headsBufSize ≤ e.list.reset.buf.length := buffered.get there
    exact ⟨some, buffered.set _ (fun e' none => by cases none)⟩
  · exact ⟨HeadersList.create_buf, buffered⟩

theorem Buffered.release (buffered : t.Buffered) (pos : Nat) : (t.release pos).Buffered := by
  rw [EntityTable.release]
  split
  · exact buffered
  · rename_i e there
    refine (buffered.set _ (fun e' same => ?_)).set _ (fun e' none => by cases none)
    cases same
    exact buffered.get there

theorem Buffered.releases (buffered : t.Buffered) (positions : List Nat) :
    (positions.foldl EntityTable.release t).Buffered := by
  induction positions generalizing t with
  | nil => exact buffered
  | cons pos positions ih => exact ih (buffered.release pos)

theorem Buffered.edit (buffered : t.Buffered) (pos : Option Nat) {f : HeadersList → HeadersList}
    (keeps : ∀ h : HeadersList, h.buf.length ≤ (f h).buf.length) : (t.edit pos f).Buffered := by
  cases pos with
  | none => exact buffered
  | some i =>
      refine buffered.set _ (fun e' same => ?_)
      obtain ⟨e, there, rfl⟩ := Option.map_eq_some_iff.mp same
      exact Nat.le_trans (buffered.get there) (keeps _)

end EntityTable

namespace Client

variable {fresh : Nat → UInt8} {conf : ClientConf}

/-- A client in front of a request. -/
structure Ready (c : Client) : Prop where
  header : headsBufSize ≤ c.requestHeader.buf.length
  table : c.http.table.Buffered
  small : c.preview < 2147483648

theorem clientCreateRequest_buf (header : HeadersList) (type : RequestType) :
    header.buf.length ≤ (clientCreateRequest fresh conf type header).buf.length := by
  have line (h : HeadersList) (text : Bytes) : h.buf.length ≤ (h.add fresh text).2.buf.length := h.add_buf text
  rw [clientCreateRequest]
  dsimp only
  repeat' first
    | exact Nat.le_refl _
    | refine Nat.le_trans ?_ (HeadersList.addheaders_buf _ _)
    | refine Nat.le_trans ?_ (HeadersList.add_buf _ _)
    | split

theorem clientBuildHeaders_buffered {s : Client} (buffered : s.http.table.Buffered) (hasReqhdr hasReshdr hasBody : Bool) :
    (s.clientBuildHeaders fresh hasReqhdr hasReshdr hasBody).table.Buffered := by
  have released (l : List Nat) : (l.foldl EntityTable.release s.http.table).Buffered := buffered.releases l
  have add (i : Nat) {t : EntityTable} (buffered : t.Buffered) (type : EncapsType) :
      ((t.alloc fresh type 0).2.set i (some (t.alloc fresh type 0).1)).Buffered := by
    have alloced : headsBufSize ≤ (t.alloc fresh type 0).1.list.buf.length ∧ (t.alloc fresh type 0).2.Buffered := buffered.alloc type 0
    exact alloced.2.set i (fun e' same => by cases same; exact alloced.1)
  rw [clientBuildHeaders]
  dsimp only
  refine add _ ?_ _
  split
  · refine add _ ?_ _
    split
    · exact add _ (released _) _
    · exact released _
  · split
    · exact add _ (released _) _
    · exact released _

theorem addHeaders_buffered {add : HttpSide → Bytes → HttpSide}
    (keeps : ∀ r : HttpSide, ∀ line, r.table.Buffered → (add r line).table.Buffered) (lines : List Bytes) {r : HttpSide}
    (buffered : r.table.Buffered) : (lines.foldl add r).table.Buffered := by
  induction lines generalizing r with
  | nil => exact buffered
  | cons line lines ih => exact ih (keeps r line buffered)

/-- What `prepare_headers` leaves. -/
theorem prepareHeaders_ready {c s : Client} {reqHeaders respHeaders : Option HeadersList} (ready : c.Ready)
    (prepared : c.prepareHeaders fresh conf reqHeaders respHeaders = some s) :
    s.Ready ∧ s.status = .writeNothing ∧ s.conn = c.conn := by
  obtain ⟨header, table, small⟩ := ready
  rw [prepareHeaders] at prepared
  obtain ⟨⟨preEof, reading⟩, -, prepared⟩ := Option.map_eq_some_iff.mp prepared
  cases prepared
  refine ⟨⟨Nat.le_trans header (clientCreateRequest_buf _ _), ?_, ?_⟩, rfl, rfl⟩
  · refine addHeaders_buffered (fun r line buffered => ?_) _ (addHeaders_buffered (fun r line buffered => ?_) _
      (clientBuildHeaders_buffered table _ _ _))
    · rw [HttpSide.responseAddHeader]
      split
      · exact buffered
      · exact buffered.edit _ (fun h => h.add_buf line)
    · rw [HttpSide.requestAddHeader]
      split
      · exact buffered
      · exact buffered.edit _ (fun h => h.add_buf line)
  · change (if c.source.isNone then -1 else c.preview) - (reading.remains : Int) < _
    split <;> omega

/-! ### The first block -/

theorem map_some_filterMap {l : List (Option EncapsEntity)} (all : ∀ e ∈ l, e.isSome) :
    (l.filterMap id).map some = l := by
  induction l with
  | nil => rfl
  | cons e l ih =>
      obtain ⟨e', rfl⟩ := Option.isSome_iff_exists.mp (all e List.mem_cons_self)
      exact congrArg (some e' :: ·) (ih (fun e member => all e (List.mem_cons_of_mem _ member)))

theorem replaceEntities_entities (t : EntityTable) (entities : List EncapsEntity)
    (same : entities.length = t.entities.length) : (replaceEntities t entities same).entities = entities := by
  have there : ∀ e ∈ t.cells.takeWhile Option.isSome, e.isSome := List.all_eq_true.mp List.all_takeWhile
  have walk : (t.cells.takeWhile Option.isSome).length = entities.length := by
    have size := congrArg List.length (map_some_filterMap there)
    rw [List.length_map] at size
    rw [same, EntityTable.entities, size]
  have behind : (t.cells.drop entities.length).takeWhile Option.isSome = [] := by
    have split : t.cells.drop entities.length = t.cells.dropWhile Option.isSome := by
      calc t.cells.drop entities.length
          = (t.cells.takeWhile Option.isSome ++ t.cells.dropWhile Option.isSome).drop entities.length := by
            rw [List.takeWhile_append_dropWhile]
        _ = t.cells.dropWhile Option.isSome := List.drop_left' walk
    have stop := List.head?_dropWhile_not Option.isSome t.cells
    rw [split]
    cases rest : t.cells.dropWhile Option.isSome with
    | nil => rfl
    | cons e more =>
        rw [rest] at stop
        exact List.takeWhile_cons_of_neg (by rw [stop]; decide)
  have front : ∀ e ∈ entities.map some, e.isSome := by
    intro e member
    obtain ⟨e', -, rfl⟩ := List.mem_map.mp member
    rfl
  rw [EntityTable.entities, replaceEntities]
  dsimp only
  rw [List.takeWhile_append_of_pos front, behind, List.append_nil, List.filterMap_map]
  exact List.filterMap_some

theorem started_filled {s : Client} (ready : s.Ready) :
    (s.started fresh).requestHeader.content ≠ [] ∧ (s.started fresh).Filled := by
  refine ⟨?_, fun type list kind there => ?_⟩
  · change (requestPack fresh true s.preview s.requestHeader s.http.table.entities).1.content ≠ []
    rw [requestPack]
    dsimp only
    refine HeadersList.pack_content_some (Nat.le_trans ?_ (HeadersList.add_buf _ _))
    split
    · exact Nat.le_trans ready.header (HeadersList.add_buf _ _)
    · exact ready.header
  · obtain ⟨e, found, rfl⟩ := Option.map_eq_some_iff.mp there
    have same := List.find?_some found
    have member := List.mem_of_find?_eq_some found
    have packed : (s.started fresh).http.table.entities =
        (requestPack fresh true s.preview s.requestHeader s.http.table.entities).2 :=
      replaceEntities_entities _ _ (requestPack_length ..)
    rw [packed] at member
    obtain ⟨old, present, header, packed⟩ := mem_packed member
    have header' : e.isHeader := by
      rw [EncapsEntity.isHeader]
      rcases kind with rfl | rfl <;> rw [same] <;> simp
    rw [packed (header ▸ header')]
    refine HeadersList.pack_content_some (ready.table old ?_)
    rw [EntityTable.entities] at present
    obtain ⟨cell, inside, is_⟩ := List.mem_filterMap.mp present
    rw [id] at is_
    subst is_
    exact (List.takeWhile_prefix _).subset inside

theorem started_wired {s : Client} (ready : s.Ready) :
    (s.started fresh).Wired s.conn.output (s.frontText fresh) s.bodyText := by
  have starts : (s.started fresh).requestHeader.content ≠ [] ∧ (s.started fresh).Filled := started_filled ready
  obtain ⟨some, filled⟩ := starts
  obtain ⟨loaded, pending⟩ := (s.ciRequestPack fresh).display_loaded (s.ciRequestPack fresh).requestHeader.content
    .writeIcapHeaders
  exact
    { loaded := loaded
      small := ready.small
      begun := ⟨(by intro same; cases same), (by intro same; cases same)⟩
      filled := fun _ => by
        refine ⟨?_, filled⟩
        have positive := List.length_pos_iff.mpr some
        change ((s.ciRequestPack fresh).requestHeader.content.length : Int) ≠ 0
        change 0 < (s.ciRequestPack fresh).requestHeader.content.length at positive
        omega
      data := fun same => by cases same
      idle := fun sends => by cases sends
      waits := fun same => by cases same
      head := fun _ => ⟨rfl, rfl⟩
      body := fun processes => by cases processes }

/-- The first call packs the headers; a call that finds them packed goes on in the same way. -/
theorem nonblocking_started {s : Client} (status : s.status = .writeNothing) (fuel : Nat) (action : Wait) :
    s.ciClientIcapfilterNonblocking fresh fuel action =
      (s.started fresh).ciClientIcapfilterNonblocking fresh fuel action := by
  have sent (hasEof : Bool) : s.clientSendRequestHeaders fresh hasEof =
      (s.started fresh).clientSendRequestHeaders fresh hasEof := by
    have begun : (s.started fresh).status ≠ .writeNothing := by
      intro same
      cases same
    rw [clientSendRequestHeaders, clientSendRequestHeaders, if_pos status, if_neg begun]
    rfl
  have turn : s.headersTurn fresh = (s.started fresh).headersTurn fresh := by
    have sends : (s.started fresh).status.sendsHeaders := rfl
    rw [headersTurn, headersTurn, if_neg (by rw [status]; decide), if_neg (not_not.mpr sends), sent]
    rfl
  rw [ciClientIcapfilterNonblocking, ciClientIcapfilterNonblocking, turn]

/-- A request over any socket: what has been written is always the front of one text, which its headers, its preview
and the blocks of its source make; the answer to the preview is awaited behind the preview; and a client that ends with
a code has written all, or has an answer that asks for no more. -/
theorem client_writes {c s : Client} {reqHeaders respHeaders : Option HeadersList} (ready : c.Ready)
    (prepared : c.prepareHeaders fresh conf reqHeaders respHeaders = some s) (fuel : Nat) :
    (∀ p, Visits (clientStep fresh fuel) (s, .none) p →
      p.1.conn.output <+: c.conn.output ++ (s.frontText fresh ++ s.bodyText) ∧
        (p.1.status.processes = false → p.1.conn.output <+: c.conn.output ++ s.frontText fresh)) ∧
      ∀ n out, run (clientStep fresh fuel) n (s, .none) = some out →
        out.2.conn.output <+: c.conn.output ++ (s.frontText fresh ++ s.bodyText) ∧
          ∀ code, out.1 = some code →
            out.2.returnCode = code ∧ out.2.Written c.conn.output (s.frontText fresh) s.bodyText := by
  obtain ⟨ready, status, conn⟩ := prepareHeaders_ready ready prepared
  have wired : (s.started fresh).Wired s.conn.output (s.frontText fresh) s.bodyText := started_wired ready
  rw [conn] at wired
  have pass (p : Client × Wait)
      (holds : p = (s, .none) ∨ p.1.Wired c.conn.output (s.frontText fresh) s.bodyText) :
      (clientStep fresh fuel p).All
        (fun q => q = (s, .none) ∨ q.1.Wired c.conn.output (s.frontText fresh) s.bodyText)
        (fun out => out.2.conn.output <+: c.conn.output ++ (s.frontText fresh ++ s.bodyText) ∧
          ∀ code, out.1 = some code →
            out.2.returnCode = code ∧ out.2.Written c.conn.output (s.frontText fresh) s.bodyText) := by
    rcases holds with rfl | holds
    · refine clientStep_turned ?_
      rw [nonblocking_started status]
      exact nonblocking_turned wired
    · exact (clientStep_turned (nonblocking_turned holds)).imp
        (fun q next => .inr (next.elim (fun same => by rw [same]; exact holds) id)) (fun _ out => out)
  refine ⟨fun p visited => ?_, fun n out result => run_post _ _ _ pass n _ out (.inl rfl) result⟩
  rcases visited.inv pass (.inl rfl) with rfl | holds
  · rw [← conn]
    exact ⟨List.prefix_append _ _, fun _ => List.prefix_append _ _⟩
  · exact ⟨holds.output, holds.output_front⟩

/-- A RESPMOD request with a preview of two bytes of the three its source has. -/
def asking : Client where
  status := .init
  http := ⟨.respmod, .empty, false⟩
  preview := 2
  previewData := []
  allow204 := true
  eofSent := false
  returnCode := -1
  requestHeader := .create fun _ => 0
  responseHeader := .create fun _ => 0
  write :=
    { type := .respmod
      entities := []
      returnCode := .unset
      status := .nothing
      responceHasbody := false
      dataLocked := true
      wbuf := .zeros _
      pstrblockResponce := .null
      remainSendBlockBytes := 0
      bytesOut := 0
      httpBytesOut := 0
      bodyBytesOut := 0 }
  read := { ReadSide.bodyStart [] with pstrblockRead := .null }
  conn := ⟨[], [], [], List.replicate 20 (.ready none (some (.bytes 9)))⟩
  calls := List.replicate 20 (.bytes 9)
  source := some [.bytes (ascii "abc")]
  dest := ⟨[], []⟩
  overrun := false

def askingConf : ClientConf := ⟨ascii "srv", ascii "echo", none, ascii "lib", true, false, .create fun _ => 0⟩

theorem asking_ready : asking.Ready where
  header := HeadersList.create_buf
  table e there := by simp [asking, EntityTable.empty] at there
  small := by decide

theorem client_writes_asking :
    ∃ s, asking.prepareHeaders (fun _ => 0) askingConf none none = some s ∧
      ∀ n out, run (clientStep (fun _ => 0) 100) n (s, .none) = some out →
        out.2.conn.output <+: s.frontText (fun _ => 0) ++ s.bodyText := by
  have works : (asking.prepareHeaders (fun _ => 0) askingConf none none).isSome := by
    rw [prepareHeaders, Option.isSome_map]
    rfl
  obtain ⟨s, prepared⟩ := Option.isSome_iff_exists.mp works
  exact ⟨s, prepared, fun n out result => ((client_writes asking_ready prepared 100).2 n out result).1⟩

end Client

/-! ### The coding of what is sent -/

/-- The data of a source up to its end. -/
def sourceData : List SourceData → Bytes
  | .bytes data :: rest => data ++ sourceData rest
  | _ => []

theorem readBlocks_blocks {n : Nat} (positive : 0 < n) (data : Bytes) :
    (∀ b ∈ readBlocks n data, b ≠ [] ∧ b.length ≤ n) ∧ (readBlocks n data).flatten = data := by
  induction data using readBlocks.induct n with
  | case1 fits =>
      rw [readBlocks, if_pos (.inl (Nat.zero_le _)), if_pos rfl]
      exact ⟨fun b none => (by cases none), rfl⟩
  | case2 data short some =>
      have fits : data.length ≤ n := short.resolve_right (by omega)
      rw [Client.readBlocks_whole some fits]
      refine ⟨fun b member => ?_, List.append_nil _⟩
      rw [List.mem_singleton.mp member]
      exact ⟨some, fits⟩
  | case3 data more ih =>
      obtain ⟨blocks, flat⟩ := ih
      have more : n < data.length := by omega
      have size : (data.take n).length = n := by
        rw [List.length_take]
        omega
      rw [Client.readBlocks_more positive more, List.flatten_cons, flat]
      refine ⟨fun b member => ?_, List.take_append_drop n data⟩
      rcases List.mem_cons.mp member with rfl | later
      · refine ⟨fun none => ?_, Nat.le_of_eq size⟩
        rw [none, List.length_nil] at size
        omega
      · exact blocks b later

theorem sourceBlocks_blocks (source : List SourceData) :
    (∀ b ∈ sourceBlocks maxChunkSize source, Block b) ∧
      (sourceBlocks maxChunkSize source).flatten = sourceData source := by
  induction source with
  | nil => exact ⟨fun b none => (by cases none), rfl⟩
  | cons item rest ih =>
      cases item with
      | eof => exact ⟨fun b none => (by cases none), rfl⟩
      | fail => exact ⟨fun b none => (by cases none), rfl⟩
      | bytes data =>
          obtain ⟨blocks, flat⟩ := readBlocks_blocks (show 0 < maxChunkSize by decide) data
          rw [sourceBlocks, sourceData, List.flatten_append, flat, ih.2]
          exact ⟨fun b member => (List.mem_append.mp member).elim (blocks b) (ih.1 b), rfl⟩

/-- Blocks of data with a last chunk behind them. -/
theorem fitting_coding {blocks : List Bytes} (each : ∀ b ∈ blocks, b ≠ [] ∧ b.length + 2 < 2147483648)
    (last : LastChunk) (small : last.encode.length ≤ bufsize) :
    ∃ k : Coding, Fits k ∧ k.encode = chunkTexts blocks ++ last.encode ∧ k.body = blocks.flatten ∧ k.last = last := by
  induction blocks with
  | nil => exact ⟨⟨[], last⟩, ⟨fun c none => (by cases none), fun c none => (by cases none), small⟩, rfl, rfl, rfl⟩
  | cons b blocks ih =>
      obtain ⟨⟨cs, l⟩, fits, text, body, same⟩ := ih (fun c member => each c (List.mem_cons_of_mem b member))
      obtain ⟨some, size⟩ := each b List.mem_cons_self
      have line : (chunkOf b some).text.length + 2 ≤ bufsize := by
        have digits := hexText_length b.length 7 (by omega)
        have text : (chunkOf b some).text = hexText b.length := List.append_nil _
        rw [text]
        exact Nat.le_trans (Nat.add_le_add_right digits 2) (by decide)
      refine ⟨⟨chunkOf b some :: cs, l⟩, ⟨fun c member => ?_, fun c member => ?_, fits.last⟩, ?_, ?_, same⟩
      · rcases List.mem_cons.mp member with rfl | later
        · exact size
        · exact fits.size c later
      · rcases List.mem_cons.mp member with rfl | later
        · exact line
        · exact fits.line c later
      · have first : (chunkOf b some).encode = chunkText b := chunkOf_encode b some
        have split : Coding.encode ⟨chunkOf b some :: cs, l⟩ = (chunkOf b some).encode ++ Coding.encode ⟨cs, l⟩ :=
          Coding.encode_cons _ _ _
        rw [split, text, first, Client.chunkTexts_cons, List.append_assoc]
      · rw [Coding.body_cons, body]
        rfl

/-- What is sent of a source that does not fail carries its data. -/
theorem sourceText_coding {source : List SourceData} (works : sourceFails source = false) :
    ∃ k : Coding, Fits k ∧ k.encode = sourceText source ∧ k.body = sourceData source ∧ k.last.final = false := by
  obtain ⟨blocks, flat⟩ := sourceBlocks_blocks source
  have each (b : Bytes) (member : b ∈ sourceBlocks maxChunkSize source) : b ≠ [] ∧ b.length + 2 < 2147483648 :=
    ⟨(blocks b member).1, Nat.lt_of_le_of_lt (Nat.add_le_add_right (blocks b member).2 2) (by decide)⟩
  obtain ⟨k, fits, text, body, last⟩ := fitting_coding each (lastOf .none) (by decide)
  refine ⟨k, fits, ?_, body.trans flat, by rw [last]; rfl⟩
  rw [text, sourceText, works]
  rfl

/-- A source that gives its preview of `n` bytes to the first call, or all it has. -/
def GivesPreview (n : Nat) : List SourceData → Prop
  | .bytes data :: rest => n ≤ data.length ∨ sourceData rest = [] ∧ sourceFails rest = false
  | _ => True

namespace Client

variable {fresh : Nat → UInt8} {conf : ClientConf}

/-- Where the loop over a preview of `size` bytes stands. -/
def PreviewReading.Within (size : Nat) (p : PreviewReading) : Prop := p.remains ≤ size ∧ p.buf.length = size

theorem readSource_length {n : Nat} {source rest : List SourceData} {data : Bytes}
    (read : readSource n source = (.bytes data, rest)) : data.length ≤ n := by
  cases source with
  | nil => cases read
  | cons item source =>
      cases item with
      | eof => cases read
      | fail => cases read
      | bytes text =>
          rw [readSource] at read
          split at read
          · rename_i fits
            cases read
            exact fits
          · cases read
            exact List.length_take_le n text

theorem previewStep_within {size : Nat} {p : PreviewReading} (within : p.Within size) :
    (previewStep p).All (PreviewReading.Within size) (fun out => ∀ r, out = some r → r.2.Within size) := by
  obtain ⟨remains, buf⟩ := within
  rw [previewStep]
  split
  · rintro r ⟨⟩
    exact ⟨remains, buf⟩
  · split
    · rintro r ⟨⟩
    · rintro r ⟨⟩
      exact ⟨remains, buf⟩
    · rename_i data source read
      have taken := readSource_length read
      split
      · rintro r ⟨⟩
        exact ⟨remains, buf⟩
      · refine ⟨Nat.le_trans (Nat.sub_le _ _) remains, ?_⟩
        rw [poke_length (Nat.zero_le _), buf]
        omega

theorem readPreview_within {preview : Int} {source : List SourceData} {out : Bool × PreviewReading}
    (asks : 0 ≤ preview) (read : readPreview fresh preview source = some out) : out.2.Within preview.toNat := by
  rw [readPreview] at read
  split at read
  · have start : PreviewReading.Within preview.toNat
        ⟨preview.toNat, (List.range preview.toNat).map fresh, source⟩ :=
      ⟨Nat.le_refl _, by rw [List.length_map, List.length_range]⟩
    dsimp only at read
    cases way : run previewStep (preview.toNat + 1)
        ⟨preview.toNat, (List.range preview.toNat).map fresh, source⟩ with
    | none =>
        rw [way] at read
        cases read
    | some result =>
        rw [way] at read
        exact run_post _ _ _ (fun p within => previewStep_within within) _ _ _ start way out read
  · cases read
    have zero : preview.toNat = 0 := by omega
    exact ⟨Nat.zero_le _, by rw [zero]; rfl⟩

theorem readSource_front {n : Nat} {text : Bytes} (rest : List SourceData) (more : n ≤ text.length) :
    ∃ source, readSource n (.bytes text :: rest) = (.bytes (text.take n), source) ∧
      sourceData source = text.drop n ++ sourceData rest ∧ sourceFails source = sourceFails rest := by
  rw [readSource]
  split
  · rename_i fits
    have same : text.length = n := Nat.le_antisymm fits more
    exact ⟨rest, by rw [List.take_of_length_le fits], by rw [List.drop_of_length_le fits]; rfl, rfl⟩
  · exact ⟨.bytes (text.drop n) :: rest, rfl, rfl, rfl⟩

/-- A call of a source that has no more data. -/
theorem readSource_over {n : Nat} {source : List SourceData} (none : sourceData source = [])
    (works : sourceFails source = false) :
    ∃ rest, readSource n source = (.eof, rest) ∨ readSource n source = (.bytes [], rest) := by
  cases source with
  | nil => exact ⟨[], .inl rfl⟩
  | cons item rest =>
      cases item with
      | eof => exact ⟨rest, .inl rfl⟩
      | fail => cases works
      | bytes text =>
          have empty : text = [] := (List.append_eq_nil_iff.mp none).1
          subst empty
          exact ⟨rest, .inr rfl⟩

/-- The loop over the preview leaves with `pre_eof`. -/
theorem previewStep_over {p : PreviewReading} (asks : p.remains ≠ 0) (none : sourceData p.source = [])
    (works : sourceFails p.source = false) :
    ∃ rest, previewStep p = .done (some (true, { p with source := rest })) := by
  obtain ⟨rest, read | read⟩ := readSource_over (n := p.remains) none works
  · exact ⟨rest, by rw [previewStep, if_neg asks, read]⟩
  · exact ⟨rest, by rw [previewStep, if_neg asks, read]; rfl⟩

/-- A preview that the first call gives is whole; behind all that a source has comes its end. -/
theorem preview_run {n : Nat} {buf : Bytes} {source : List SourceData} (size : buf.length = n) (asks : 0 < n)
    (gives : GivesPreview n source) (works : sourceFails source = false) :
    ∃ out : Bool × PreviewReading, run previewStep (n + 1) ⟨n, buf, source⟩ = some (some out) ∧
      out.2.buf.take (n - out.2.remains) ++ (if out.1 then [] else sourceData out.2.source) = sourceData source ∧
      (out.1 = false → sourceFails out.2.source = false) := by
  have asks' : n ≠ 0 := by omega
  have over_ (none : sourceData source = []) : ∃ out : Bool × PreviewReading,
      run previewStep (n + 1) ⟨n, buf, source⟩ = some (some out) ∧
        out.2.buf.take (n - out.2.remains) ++ (if out.1 then [] else sourceData out.2.source) = sourceData source ∧
        (out.1 = false → sourceFails out.2.source = false) := by
    obtain ⟨rest, pass⟩ := previewStep_over (p := ⟨n, buf, source⟩) asks' none works
    refine ⟨_, run_done _ pass, ?_, fun open_ => (by cases open_)⟩
    rw [none, Nat.sub_self]
    rfl
  cases source with
  | nil => exact over_ rfl
  | cons item rest =>
      cases item with
      | eof => exact over_ rfl
      | fail => cases works
      | bytes text =>
          by_cases more : n ≤ text.length
          · obtain ⟨source, read, data, fails⟩ := readSource_front rest more
            have some : (text.take n).isEmpty = false := by
              rw [List.isEmpty_eq_false_iff, Ne, List.take_eq_nil_iff]
              rintro (zero | empty)
              · exact asks' zero
              · rw [empty] at more
                exact asks' (Nat.le_zero.mp more)
            have width : (text.take n).length = n := by rw [List.length_take, Nat.min_eq_left more]
            have first : previewStep ⟨n, buf, .bytes text :: rest⟩ = .next ⟨0, poke buf 0 (text.take n), source⟩ := by
              rw [previewStep, if_neg asks', read]
              dsimp only
              rw [some, width, Nat.sub_self]
              rfl
            have last : previewStep ⟨0, poke buf 0 (text.take n), source⟩ =
                .done (.some (false, ⟨0, poke buf 0 (text.take n), source⟩)) := if_pos rfl
            obtain ⟨m, rfl⟩ : ∃ m, n = m + 1 := ⟨n - 1, by omega⟩
            refine ⟨_, (run_next _ first).trans (run_done _ last), ?_, fun _ => fails.trans works⟩
            have stored := poke_take buf 0 (text.take (m + 1)) (Nat.zero_le _)
            rw [width, Nat.zero_add] at stored
            change (poke buf 0 (text.take (m + 1))).take (m + 1) ++ sourceData source = text ++ sourceData rest
            rw [stored, data, ← List.append_assoc]
            exact congrArg (· ++ sourceData rest) (List.take_append_drop _ _)
          · obtain ⟨none, works'⟩ := gives.resolve_left more
            by_cases empty : text = []
            · subst empty
              exact over_ none
            · have less : text.length < n := Nat.lt_of_not_le more
              have positive := List.length_pos_iff.mpr empty
              have first : previewStep ⟨n, buf, .bytes text :: rest⟩ = .next ⟨n - text.length, poke buf 0 text, rest⟩ := by
                rw [previewStep, if_neg asks', readSource, if_pos (Nat.le_of_lt less)]
                dsimp only
                rw [List.isEmpty_eq_false_iff.mpr empty]
                rfl
              obtain ⟨last, pass⟩ := previewStep_over (p := ⟨n - text.length, poke buf 0 text, rest⟩)
                (by change n - text.length ≠ 0; omega) none works'
              obtain ⟨m, rfl⟩ : ∃ m, n = m + 1 := ⟨n - 1, by omega⟩
              refine ⟨_, (run_next _ first).trans (run_done _ pass), ?_, fun open_ => (by cases open_)⟩
              have stored := poke_take buf 0 text (Nat.zero_le _)
              have count : m + 1 - (m + 1 - text.length) = 0 + text.length := by omega
              change (poke buf 0 text).take (m + 1 - (m + 1 - text.length)) ++ [] = text ++ sourceData rest
              rw [count, stored, none]
              rfl

/-- A source that gives its preview in one piece: the preview and what is left of the source are its data. -/
theorem readPreview_whole {preview : Int} {source : List SourceData} {out : Bool × PreviewReading}
    (gives : GivesPreview preview.toNat source) (works : sourceFails source = false)
    (read : readPreview fresh preview source = some out) :
    out.2.buf.take (preview - out.2.remains).toNat ++ (if out.1 then [] else sourceData out.2.source) =
        sourceData source ∧
      (out.1 = false → sourceFails out.2.source = false) := by
  rw [readPreview] at read
  split at read
  · rename_i some
    have size : ((List.range preview.toNat).map fresh).length = preview.toNat := by
      rw [List.length_map, List.length_range]
    obtain ⟨left, way, whole, open_⟩ := preview_run size (by omega) gives works
    dsimp only at read
    rw [way] at read
    cases read
    have count : (preview - out.2.remains).toNat = preview.toNat - out.2.remains := by omega
    rw [count]
    exact ⟨whole, open_⟩
  · cases read
    refine ⟨?_, fun _ => works⟩
    rw [List.take_nil]
    rfl

/-- What `prepare_headers` leaves of a body. -/
theorem prepareHeaders_body {c s : Client} {reqHeaders respHeaders : Option HeadersList} {source : List SourceData}
    (prepared : c.prepareHeaders fresh conf reqHeaders respHeaders = some s) (has : c.source = some source)
    (open_ : c.eofSent = false) :
    ∃ out : Bool × PreviewReading, readPreview fresh c.preview source = some out ∧
      s.preview = c.preview - out.2.remains ∧ s.previewData = out.2.buf.take (c.preview - out.2.remains).toNat ∧
      s.source = some out.2.source ∧ s.eofSent = out.1 := by
  rw [prepareHeaders, has] at prepared
  obtain ⟨out, read, prepared⟩ := Option.map_eq_some_iff.mp prepared
  cases prepared
  refine ⟨out, read, rfl, rfl, rfl, ?_⟩
  dsimp only
  rw [open_, Bool.false_or]

/-- Without a preview the body carries the data of the source. -/
theorem plain_coding {c s : Client} {reqHeaders respHeaders : Option HeadersList} {source : List SourceData}
    (prepared : c.prepareHeaders fresh conf reqHeaders respHeaders = some s) (has : c.source = some source)
    (open_ : c.eofSent = false) (plain : c.preview < 0) (works : sourceFails source = false) :
    s.preview < 0 ∧ s.previewText = [] ∧
      ∃ k : Coding, Fits k ∧ k.encode = s.bodyText ∧ k.body = sourceData source ∧ k.last.final = false := by
  obtain ⟨out, read, preview, -, left, eof⟩ := prepareHeaders_body prepared has open_
  rw [readPreview, if_neg (by omega)] at read
  cases read
  have negative : s.preview < 0 := by
    rw [preview]
    exact Int.lt_of_le_of_lt (Int.sub_le_self _ (Int.natCast_nonneg _)) plain
  refine ⟨negative, by rw [previewText, if_neg (by omega), if_neg (by omega)], ?_⟩
  rw [bodyText, eof, left]
  exact sourceText_coding works

/-- What is sent in front of the answer to a preview carries it, and says whether it is all. -/
theorem previewText_coding {s : Client} (size : s.preview = s.previewData.length) (small : s.preview + 2 < 2147483648) :
    ∃ k : Coding, Fits k ∧ k.encode = s.previewText ∧ k.body = s.previewData ∧ k.last.final = s.eofSent := by
  obtain ⟨last, text, fits, final⟩ : ∃ last : LastChunk, last.encode = eofInfo s.eofSent ∧
      last.encode.length ≤ bufsize ∧ last.final = s.eofSent := by
    cases s.eofSent with
    | false => exact ⟨lastOf .none, rfl, by decide, rfl⟩
    | true => exact ⟨lastOf (.ieof (ascii " ") (List.all_eq_true.mp (by decide))), rfl, by decide, rfl⟩
  by_cases empty : s.previewData = []
  · have each : ∀ b ∈ ([] : List Bytes), b ≠ [] ∧ b.length + 2 < 2147483648 := fun b none => (by cases none)
    obtain ⟨k, fits, code, body, same⟩ := fitting_coding each last fits
    have zero : s.preview = 0 := by rw [size, empty]; rfl
    refine ⟨k, fits, ?_, body.trans empty.symm, by rw [same, final]⟩
    rw [code, text, previewText, if_neg (by omega), if_pos zero]
    rfl
  · have positive := List.length_pos_iff.mpr empty
    have each : ∀ b ∈ [s.previewData], b ≠ [] ∧ b.length + 2 < 2147483648 := by
      intro b member
      rw [List.mem_singleton.mp member]
      exact ⟨empty, by omega⟩
    obtain ⟨k, fits, code, body, same⟩ := fitting_coding each last fits
    have count : s.preview.toNat = s.previewData.length := by omega
    refine ⟨k, fits, ?_, body.trans (List.append_nil _), by rw [same, final]⟩
    rw [code, text, previewText, if_pos ⟨by omega, empty⟩, count, chunkTexts, List.map_singleton, List.flatten_singleton,
      chunkText]
    simp only [List.append_assoc]

/-- The preview and what follows the answer to it carry the data of a source that gives the preview in one piece. -/
theorem previewed_coding {c s : Client} {reqHeaders respHeaders : Option HeadersList} {source : List SourceData}
    (prepared : c.prepareHeaders fresh conf reqHeaders respHeaders = some s) (has : c.source = some source)
    (open_ : c.eofSent = false) (asks : 0 ≤ c.preview) (small : c.preview + 2 < 2147483648)
    (gives : GivesPreview c.preview.toNat source) (works : sourceFails source = false) :
    0 ≤ s.preview ∧ s.preview ≤ c.preview ∧
      ∃ front : Coding, Fits front ∧ front.encode = s.previewText ∧ front.body.length = s.preview.toNat ∧
        (front.last.final = true ∧ s.bodyText = [] ∧ front.body = sourceData source ∨
          front.last.final = false ∧
            ∃ k : Coding, Fits k ∧ k.encode = s.bodyText ∧ front.body ++ k.body = sourceData source) := by
  obtain ⟨out, read, preview, data, left, eof⟩ := prepareHeaders_body prepared has open_
  obtain ⟨remains, buf⟩ := readPreview_within asks read
  obtain ⟨whole, later⟩ := readPreview_whole gives works read
  have size : s.preview = s.previewData.length := by
    rw [data, List.length_take, buf, preview]
    omega
  obtain ⟨front, fits, code, body, final⟩ := previewText_coding size (by rw [preview]; omega)
  rw [← data, ← body] at whole
  refine ⟨by rw [size]; exact Int.natCast_nonneg _, by rw [preview]; omega, front, fits, code, ?_, ?_⟩
  · rw [body, size]
    exact (Int.toNat_natCast _).symm
  · rw [final, eof, bodyText, eof, left]
    cases over_ : out.1 with
    | true =>
        rw [over_] at whole
        exact .inl ⟨rfl, rfl, (List.append_nil _).symm.trans whole⟩
    | false =>
        obtain ⟨k, fits', code', body', -⟩ := sourceText_coding (later over_)
        rw [over_, ← body'] at whole
        exact .inr ⟨rfl, k, fits', code', whole⟩

end Client

end IcapService
