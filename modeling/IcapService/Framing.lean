import IcapService.Encapsulated
import IcapService.HeaderLines
import IcapService.HeaderPass

/-! `ci_request_t_pack`: the offsets of the Encapsulated header against the blocks that are sent. -/

namespace IcapService

open CString

namespace EncapsEntity

def isHeader (e : EncapsEntity) : Bool := e.type == .reqHdr || e.type == .resHdr

/-- `sizeofencaps`. -/
def sizeofencaps (e : EncapsEntity) : Nat := if e.isHeader then e.list.sizeofheader else 0

def pack (e : EncapsEntity) : EncapsEntity := if e.isHeader then { e with list := e.list.pack } else e

/-- What an entity adds to the response before the body. -/
def sent (e : EncapsEntity) : Bytes := if e.isHeader then e.list.content else []

end EncapsEntity

/-- `ci_encaps_entity_string`. -/
def EncapsType.name : EncapsType → Bytes
  | .reqHdr => ascii "req-hdr"
  | .resHdr => ascii "res-hdr"
  | .reqBody => ascii "req-body"
  | .resBody => ascii "res-body"
  | .nullBody => ascii "null-body"
  | .optBody => ascii "opt-body"

/-- The offsets `ci_request_t_pack` gives to the first three entities. -/
def setStarts : List EncapsEntity → List EncapsEntity
  | [] => []
  | [e] => [{ e with start := 0 }]
  | [e, f] => [{ e with start := 0 }, { f with start := e.sizeofencaps }]
  | e :: f :: g :: rest =>
      { e with start := 0 } :: { f with start := e.sizeofencaps } ::
        { g with start := f.sizeofencaps + e.sizeofencaps } :: rest

def entityText (e : EncapsEntity) : Bytes := e.type.name ++ ascii "=" ++ digitsText 10 e.start.toNat

/-- The line of the Encapsulated header, from the first three entities. -/
def encapsulatedLine (entities : List EncapsEntity) : Bytes :=
  if entities.isEmpty then ascii "Encapsulated: null-body=0"
  else ascii "Encapsulated: " ++ (((entities.take 3).map entityText).intersperse (ascii ", ")).flatten

/-- `ci_request_t_pack` with the ICAP header it adds to: that of the request or of the response. -/
def requestPack (fresh : Nat → UInt8) (isRequest : Bool) (preview : Int) (header : HeadersList)
    (entities : List EncapsEntity) : HeadersList × List EncapsEntity :=
  let header :=
    if isRequest && decide (0 ≤ preview) then
      (header.add fresh (ascii "Preview: " ++ digitsText 10 preview.toNat)).2
    else header
  let started := setStarts entities
  ((header.add fresh (encapsulatedLine started)).2.pack, started.map EncapsEntity.pack)

/-- The last line of the block is empty. -/
def EndsEmpty (block : Bytes) : Prop :=
  ∃ text, (block = text ++ crlf ∨ block = text ++ [lf]) ∧ (text = [] ∨ ∃ front, text = front ++ [lf])

/-- When packing starts the buffer has an LF where the empty line is to end, and the used bytes, if
any, end with one. -/
def Closes (h : HeadersList) : Prop :=
  at0 h.buf (h.bufused + 1) = lf ∧ (h.bufused = 0 ∨ at0 h.buf (h.bufused - 1) = lf)

/-! ### One block -/

theorem at0_strlen (s : Bytes) : at0 s (strlen s) = 0 := by
  obtain ⟨-, split, stop⟩ := takeWhile_split (· != 0) s
  rw [← Nat.add_zero (strlen s), ← at0_drop]
  cases behind : s.drop (strlen s) with
  | nil => rfl
  | cons c rest =>
      have first := stop c (by rw [strlen] at behind; simp [behind])
      simpa [at0] using first

/-- Packing a line writes over a NUL only. -/
theorem packLine_keeps (buf : Bytes) (start i : Nat) (byte : at0 buf i ≠ 0) :
    at0 (HeadersList.packLine buf start) i = at0 buf i := by
  have other : start + strlen (buf.drop start) ≠ i := by
    rintro rfl
    apply byte
    rw [← at0_drop, at0_strlen]
  rw [HeadersList.packLine]
  split <;> simp [at0, List.getElem?_set_ne other]

theorem packLine_length (buf : Bytes) (start : Nat) : (HeadersList.packLine buf start).length = buf.length := by
  rw [HeadersList.packLine]
  split <;> simp

theorem packLines_keep (headers : List Nat) (buf : Bytes) (i : Nat) (byte : at0 buf i ≠ 0) :
    at0 (headers.foldl HeadersList.packLine buf) i = at0 buf i := by
  induction headers generalizing buf with
  | nil => rfl
  | cons start headers ih =>
      have first := packLine_keeps buf start i byte
      rw [List.foldl_cons, ih _ (by rw [first]; exact byte), first]

theorem packLines_length (headers : List Nat) (buf : Bytes) :
    (headers.foldl HeadersList.packLine buf).length = buf.length := by
  induction headers generalizing buf with
  | nil => rfl
  | cons start headers ih => rw [List.foldl_cons, ih, packLine_length]

theorem lt_of_at0 {s : Bytes} {i : Nat} (byte : at0 s i ≠ 0) : i < s.length := by
  by_contra outside
  apply byte
  rw [at0, List.getD_eq_getElem?_getD, List.getElem?_eq_none (by omega)]
  rfl

/-- A block that closes is packed to the announced size, and its last line is empty. -/
theorem Closes.pack {h : HeadersList} (closes : Closes h) :
    h.pack.bufused = h.bufused + 2 ∧ h.pack.content.length = h.bufused + 2 ∧ EndsEmpty h.pack.content := by
  obtain ⟨behind, before⟩ := closes
  let buf := h.headers.foldl HeadersList.packLine h.buf
  have inside : h.bufused + 1 < buf.length := by
    rw [packLines_length]
    exact lt_of_at0 (by rw [behind]; decide)
  have kept : at0 buf (h.bufused + 1) = lf := (packLines_keep _ _ _ (by rw [behind]; decide)).trans behind
  have split : buf = buf.take h.bufused ++ buf.drop h.bufused := (List.take_append_drop _ _).symm
  have size : (buf.take h.bufused).length = h.bufused := by
    rw [List.length_take]
    omega
  have rest : at0 (buf.drop h.bufused) 1 = lf := by rw [at0_drop, kept]
  have filled : buf.drop h.bufused ≠ [] := by
    intro empty
    rw [empty] at rest
    cases rest
  have content := pack_content h (buf.take h.bufused) (buf.drop h.bufused) split size filled
  rw [if_pos rest] at content
  refine ⟨?_, ?_, ?_⟩
  · have used : at0 (h.headers.foldl HeadersList.packLine h.buf) (h.bufused + 1) = lf := kept
    simp only [HeadersList.pack, if_pos used]
  · rw [content, List.length_append, size]
    rfl
  · refine ⟨buf.take h.bufused, .inl content, ?_⟩
    rcases before with none | last
    · left
      rw [none]
      rfl
    · by_cases none : h.bufused = 0
      · left
        rw [none]
        rfl
      · right
        have byte : at0 buf (h.bufused - 1) = lf := (packLines_keep _ _ _ (by rw [last]; decide)).trans last
        refine ⟨buf.take (h.bufused - 1), ?_⟩
        have next : h.bufused = h.bufused - 1 + 1 := by omega
        rw [at0_eq_getElem (by omega)] at byte
        conv => lhs; rw [next]
        rw [List.take_add_one, List.getElem?_eq_getElem (by omega), byte]
        rfl

/-! ### Lists whose index is right -/

/-- The index points at pieces of the used bytes that each hold the NUL of a line, the last of them
not as its last byte. -/
structure Indexed (h : HeadersList) (pieces : List Bytes) (rest : Bytes) : Prop where
  buf : h.buf = pieces.flatten ++ rest
  bufused : h.bufused = pieces.flatten.length
  headers : h.headers = CString.offsets 0 pieces
  nul : ∀ piece ∈ pieces, 0 ∈ piece
  last : ∀ front piece, pieces = front ++ [piece] → ∃ text c tail, piece = text ++ 0 :: (tail ++ [c]) ∧ 0 ∉ text

theorem closeAll_append (front : List Bytes) (piece rest : Bytes) :
    ∃ text, closeAll (front ++ [piece]) rest = text ++ (closePiece piece rest ++ rest) ∧
      text.length = front.flatten.length := by
  induction front with
  | nil => exact ⟨[], rfl, rfl⟩
  | cons first front ih =>
      obtain ⟨text, same, size⟩ := ih
      refine ⟨closePiece first ((front ++ [piece]).flatten ++ rest) ++ text, ?_, ?_⟩
      · rw [List.cons_append, closeAll, same, List.append_assoc]
      · rw [List.length_append, closePiece_length, size, List.flatten_cons, List.length_append]

/-- The lines of such a list are closed without a change behind them, or to their last byte. -/
theorem Indexed.closed {h : HeadersList} {pieces : List Bytes} {rest : Bytes} (indexed : Indexed h pieces rest) :
    ∃ text, h.headers.foldl HeadersList.packLine h.buf = text ++ rest ∧ text.length = h.bufused ∧
      (text = [] ∨ ∃ front before c, text = front ++ [c] ∧ h.buf = before ++ c :: rest ∧ before.length + 1 = h.bufused) := by
  have closed : h.headers.foldl HeadersList.packLine h.buf = closeAll pieces rest := by
    rw [indexed.headers, indexed.buf]
    exact packLines_close pieces [] rest indexed.nul
  rcases List.eq_nil_or_concat pieces with none | ⟨front, piece, shape⟩
  · subst none
    exact ⟨[], closed, by rw [indexed.bufused]; rfl, .inl rfl⟩
  · rw [List.concat_eq_append] at shape
    subst shape
    obtain ⟨text, c, tail, rfl, plain⟩ := indexed.last front piece rfl
    obtain ⟨done, same, size⟩ := closeAll_append front (text ++ 0 :: (tail ++ [c])) rest
    rw [closePiece_split text (tail ++ [c]) rest plain] at same
    generalize (if at0 (tail ++ [c] ++ rest) 0 = lf then cr else lf) = x at same
    refine ⟨done ++ (text ++ x :: (tail ++ [c])), closed.trans (same.trans (List.append_assoc _ _ _).symm), ?_, .inr ?_⟩
    · rw [indexed.bufused]
      simp [size]
    · refine ⟨done ++ (text ++ x :: tail), front.flatten ++ (text ++ 0 :: tail), c, ?_, ?_, ?_⟩
      · simp
      · rw [indexed.buf]
        simp
      · rw [indexed.bufused]
        simp
        omega

/-- On a list whose index is right the framing needs both bytes. -/
theorem Indexed.closes {h : HeadersList} {pieces : List Bytes} {rest : Bytes} (indexed : Indexed h pieces rest)
    (room : h.bufused < h.buf.length) (size : h.sizeofheader = h.pack.bufused) (ends : EndsEmpty h.pack.content) :
    Closes h := by
  obtain ⟨text, closed, width, last⟩ := indexed.closed
  have filled : rest ≠ [] := by
    rintro rfl
    rw [indexed.buf, indexed.bufused] at room
    simp at room
  have same : at0 (text ++ rest) (h.bufused + 1) = at0 h.buf (h.bufused + 1) := by
    rw [indexed.buf, ← at0_drop, ← at0_drop, List.drop_left' width, List.drop_left' indexed.bufused.symm]
  have behind : at0 h.buf (h.bufused + 1) = lf := by
    rw [HeadersList.sizeofheader, HeadersList.pack, closed, same] at size
    by_contra other
    simp [other] at size
  have content := pack_content h text rest closed width filled
  have rest1 : at0 rest 1 = lf := by
    have shifted : at0 h.buf (h.bufused + 1) = at0 rest 1 := by
      rw [indexed.buf, ← at0_drop, List.drop_left' indexed.bufused.symm]
    rw [← shifted, behind]
  rw [if_pos rest1] at content
  refine ⟨behind, ?_⟩
  obtain ⟨start, shape, empty⟩ := ends
  have whole : start = text := by
    rcases shape with crlfEnd | lfEnd
    · rw [content] at crlfEnd
      exact (List.append_cancel_right crlfEnd).symm
    · -- a CR is not the end of a line
      exfalso
      rw [content, crlf, show text ++ [cr, lf] = (text ++ [cr]) ++ [lf] by simp] at lfEnd
      have before := List.append_cancel_right lfEnd
      rcases empty with rfl | ⟨front, rfl⟩
      · simp at before
      · have byte := List.append_inj_right' before rfl
        exact absurd byte (by decide)
  subst whole
  rcases last with none | ⟨front, before, c, split, buf, used⟩
  · left
    rw [← width, none]
    rfl
  · right
    rcases empty with none | ⟨front', ended⟩
    · rw [none] at split
      simp at split
    · rw [ended] at split
      have byte : lf = c := by simpa using List.append_inj_right' split rfl
      rw [buf, ← used, Nat.add_sub_cancel, at0_append, byte]

theorem Holds.indexed {h : HeadersList} {lines : List Bytes} (holds : Holds h lines) :
    ∃ rest, Indexed h (lines.map stored) rest := by
  obtain ⟨rest, buf⟩ := holds.buf
  refine ⟨rest, buf, holds.bufused, holds.index, ?_, ?_⟩
  · intro piece member
    obtain ⟨line, -, rfl⟩ := List.mem_map.mp member
    simp [stored]
  · intro front piece split
    have member : piece ∈ lines.map stored := by simp [split]
    obtain ⟨line, present, rfl⟩ := List.mem_map.mp member
    exact ⟨line, lf, [], rfl, holds.plain line present⟩

/-! ### All entities -/

theorem setStarts_list (entities : List EncapsEntity) :
    (setStarts entities).map (fun e => (e.type, e.list)) = entities.map (fun e => (e.type, e.list)) := by
  fun_cases setStarts entities <;> simp

/-- The starts leave the lists alone, so that each packed entity comes from one with its list. -/
theorem mem_packed {entities : List EncapsEntity} {e : EncapsEntity}
    (member : e ∈ (setStarts entities).map EncapsEntity.pack) :
    ∃ old ∈ entities, e.isHeader = old.isHeader ∧ (old.isHeader → e.list = old.list.pack) := by
  obtain ⟨started, inside, rfl⟩ := List.mem_map.mp member
  have pair : (started.type, started.list) ∈ entities.map (fun e => (e.type, e.list)) := by
    rw [← setStarts_list]
    exact List.mem_map.mpr ⟨started, inside, rfl⟩
  obtain ⟨old, present, same⟩ := List.mem_map.mp pair
  simp only [Prod.mk.injEq] at same
  have kind : started.isHeader = old.isHeader := by
    rw [EncapsEntity.isHeader, EncapsEntity.isHeader, same.1]
  refine ⟨old, present, ?_, ?_⟩
  · rw [EncapsEntity.pack]
    split
    · exact kind
    · exact kind
  · intro header
    rw [EncapsEntity.pack, if_pos (kind.trans header), same.2]

/-- A list packed right behind `ci_headers_add` closes, whatever was done to it before. -/
theorem Closes.add (fresh : Nat → UInt8) (h : HeadersList) (line : Bytes) (editable : h.packed = false)
    (inside : h.bufused ≤ h.buf.length) : Closes (h.add fresh line).2 := by
  obtain ⟨more, grown, room⟩ := grow_keeps fresh headsBufSize h.buf (h.bufused + (line.length + 4)) (by decide)
  have front : (h.buf.take h.bufused).length = h.bufused := by
    rw [List.length_take]
    omega
  have split : h.buf ++ more = h.buf.take h.bufused ++ (h.buf.drop h.bufused ++ more) := by
    rw [← List.append_assoc, List.take_append_drop]
  rw [split] at room
  obtain ⟨y, tail, written⟩ := add_writes (h.buf.take h.bufused) (h.buf.drop h.bufused ++ more) line
    (by rw [front]; exact room)
  rw [front, ← split] at written
  have buf : (h.add fresh line).2.buf = h.buf.take h.bufused ++ (stored line ++ y :: lf :: tail) := by
    rw [HeadersList.add, editable]
    simp only [Bool.false_eq_true, if_false, grown]
    exact written
  have bufused : (h.add fresh line).2.bufused = h.bufused + line.length + 2 := by
    rw [HeadersList.add, editable]
    rfl
  rw [Closes, buf, bufused]
  refine ⟨?_, .inr ?_⟩
  · rw [show h.bufused + line.length + 2 + 1 = (h.buf.take h.bufused).length + ((stored line).length + 1) by
      rw [front, stored_length]; omega, ← at0_drop, List.drop_left, ← at0_drop, List.drop_left]
    rfl
  · rw [show h.bufused + line.length + 2 - 1 = (h.buf.take h.bufused).length + (line.length + 1) by
      rw [front]; omega, ← at0_drop, List.drop_left, stored, List.append_assoc, ← at0_drop, List.drop_left]
    rfl

end IcapService
