import IcapService.Encapsulated
import IcapService.HeaderBlock
import IcapService.NetIo

/-! The encapsulated header blocks of a request: `check_request`, `parse_encaps_headers` and
`read_encaps_header`.

An access outside the header buffer, or a look behind the start of the block, ends the run in a
fault. -/

namespace IcapService

open CString CInt

/-- `ci_headers_setsize`. There is no result when `realloc` fails, as it does for the negative size an
overflow leaves. -/
def HeadersList.setsize (fresh : Nat → UInt8) (h : HeadersList) (size : Int) : Option HeadersList :=
  if size < h.buf.length then some h
  else
    let len := wrap32 ((size.tdiv headsBufSize + 1) * headsBufSize)
    if len < 0 then none else some { h with buf := realloc fresh h.buf len.toNat }

/-- `check_request`; the pointers are those of `entities`. -/
def checkRequest (type : RequestType) (t : EntityTable) : Ec :=
  let kind (i : Nat) (kinds : List EncapsType) : Bool := (t.get i).any (fun e => kinds.contains e.type)
  match type with
  | .options => .ec100
  | .reqmod =>
      if (t.get 0).isNone || (t.get 2).isSome then .ec400
      else if (t.get 1).isSome then
        if kind 0 [.reqHdr] && kind 1 [.reqBody, .nullBody] then .ec100 else .ec400
      else if kind 0 [.reqBody] then .ec100 else .ec400
  | .respmod =>
      if (t.get 0).isNone || (t.get 3).isSome then .ec400
      else if (t.get 2).isSome then
        if kind 0 [.reqHdr] && kind 1 [.resHdr] && kind 2 [.resBody, .nullBody] then .ec100 else .ec400
      else if (t.get 1).isSome then
        if kind 0 [.resHdr, .reqHdr] && kind 1 [.resBody, .nullBody] then .ec100 else .ec400
      else if kind 0 [.resBody] then .ec100 else .ec400

/-- The entities a walk over the table meets. -/
def EntityTable.entities (t : EntityTable) : List EncapsEntity :=
  (t.cells.takeWhile Option.isSome).filterMap id

/-- The request while its header blocks are read. `uses` records the size of every block with the
capacity of the buffer it goes to; the program has no such field. -/
structure EncapsReading where
  read : ReadSide
  conn : Connection
  uses : List (Int × Nat)

/-- How a function ends: with an access that is out of bounds, with a code other than `EC_100`
(nothing for `CI_ERROR`), or with a result. -/
inductive EncapsEnd (α : Type) where
  | fault
  | answer (code : Option Ec)
  | done (result : α)

def EncapsEnd.isFault {α : Type} : EncapsEnd α → Bool
  | .fault => true
  | _ => false

/-- The loop `while (remains > 0)` of `read_encaps_header`. -/
structure HeadLoop where
  buf : Bytes
  bufEnd : Nat
  remains : Int
  read : ReadSide
  conn : Connection

def headLoop : Nat → HeadLoop → EncapsEnd HeadLoop
  | 0, _ => .answer none
  | fuel + 1, s =>
      if s.remains ≤ 0 then .done s
      else
        match s.conn.receive s.remains.toNat with
        | none => .answer none
        | some (got, conn) =>
            if s.buf.length < s.bufEnd + got.length then .fault
            else
              headLoop fuel
                { buf := poke s.buf s.bufEnd got
                  bufEnd := s.bufEnd + got.length
                  remains := s.remains - got.length
                  read := { s.read with bytesIn := s.read.bytesIn + got.length }
                  conn := conn }

/-- The bytes that have been received already go to the front of the buffer. -/
def headPrefetch (buf : Bytes) (size : Int) (r : ReadSide) (conn : Connection) : EncapsEnd HeadLoop :=
  if 0 < r.pstrblockReadLen then
    let readed := if r.pstrblockReadLen < size then r.pstrblockReadLen else size
    if readed < 0 || (buf.length : Int) < readed then .fault
    else
      .done
        { buf := poke buf 0 (r.block.take readed.toNat)
          bufEnd := readed.toNat
          remains := size - readed
          read :=
            if size ≤ r.pstrblockReadLen then r.advance readed
            else { r with pstrblockRead := .null, pstrblockReadLen := 0 }
          conn := conn }
  else .done ⟨buf, 0, size, r, conn⟩

/-- The counters of a header block that has been read. -/
def ReadSide.counted (r : ReadSide) (size : Int) : ReadSide :=
  { r with httpBytesIn := r.httpBytesIn + size.toNat, requestBytesIn := r.requestBytesIn + size.toNat }

/-- The end of `read_encaps_header`: the look at the last bytes of the block. -/
def headFinish (buggy : Bool) (h : HeadersList) (size : Int) (s : HeadLoop) :
    EncapsEnd (HeadersList × ReadSide × Connection) :=
  let read := s.read.counted size
  if s.bufEnd < 4 then .fault
  else if (s.buf.drop (s.bufEnd - 4)).take 4 = crlf ++ crlf then
    .done ({ h with buf := s.buf, bufused := s.bufEnd - 2 }, read, s.conn)
  else if buggy ∧ (s.buf.drop (s.bufEnd - 2)).take 2 ≠ crlf then
    if s.buf.length < s.bufEnd + 2 then .fault
    else .done ({ h with buf := poke s.buf s.bufEnd crlf, bufused := s.bufEnd + 2 }, read, s.conn)
  else .done ({ h with buf := s.buf, bufused := s.bufEnd }, read, s.conn)

def EncapsEnd.bind {α β : Type} (x : EncapsEnd α) (f : α → EncapsEnd β) : EncapsEnd β :=
  match x with
  | .fault => .fault
  | .answer code => .answer code
  | .done result => f result

/-- What `CHECK_FOR_BUGGY_CLIENT` adds to the size that is asked for. -/
def spareSize (buggy : Bool) : Int := if buggy then 2 else 0

/-- `read_encaps_header`; `buggy` is `CHECK_FOR_BUGGY_CLIENT`. -/
@[irreducible] def readEncapsHeader (fresh : Nat → UInt8) (buggy : Bool) (h : HeadersList) (size : Int) (s : EncapsReading) :
    EncapsEnd (HeadersList × ReadSide × Connection) × List (Int × Nat) :=
  match h.setsize fresh (wrap32 (size + spareSize buggy)) with
  | none => (.answer (some .ec500), s.uses)
  | some h =>
      ((headPrefetch h.buf size s.read s.conn).bind fun loop =>
        (headLoop (s.conn.sched.length + 1) loop).bind (headFinish buggy h size),
        s.uses ++ [(size, h.buf.length)])

/-- The size of a header block: the distance to the start of the next entity, as an `int`. -/
def blockSize (e next : EncapsEntity) : Int := wrap32 (next.start - e.start)

/-- `parse_encaps_headers` on the entities from a position on; `lists` are those already read. -/
def parseEncapsHeaders (fresh : Nat → UInt8) (buggy : Bool) :
    List EncapsEntity → List HeadersList → EncapsReading → EncapsEnd (List HeadersList × EncapsReading) × List (Int × Nat)
  | [], lists, s => (.done (lists, s), s.uses)
  | [e], lists, s =>
      if e.type == .reqHdr || e.type == .resHdr then (.answer (some .ec400), s.uses) else (.done (lists, s), s.uses)
  | e :: next :: rest, lists, s =>
      if e.type == .reqHdr || e.type == .resHdr then
        match readEncapsHeader fresh buggy e.list (blockSize e next) s with
        | (.fault, uses) => (.fault, uses)
        | (.answer code, uses) => (.answer code, uses)
        | (.done (h, read, conn), uses) =>
            match h.unpack with
            | (.ec100, h) => parseEncapsHeaders fresh buggy (next :: rest) (lists ++ [h]) ⟨read, conn, uses⟩
            | (code, _) => (.answer (some code), uses)
      else (.done (lists, s), s.uses)

/-! ### One block -/

/-- The largest size of a header buffer that is a multiple of the step and fits an `int`. -/
def maxHeadsBuf : Int := 2147479552

/-- A size the reader is made for: the block has at least the four bytes it looks at, and room for two
more can be asked for. -/
def GoodSize (buggy : Bool) (size : Int) : Prop := 4 ≤ size ∧ (buggy = true → size + 2 < 2147483648)

/-- A buffer made for a size is larger than it. -/
theorem setsize_room {fresh : Nat → UInt8} {h h' : HeadersList} {size : Int} (range : size < 2147483648)
    (made : h.setsize fresh size = some h') : size < h'.buf.length := by
  rw [HeadersList.setsize] at made
  split at made
  · rename_i small
    cases made
    exact small
  · rename_i large
    simp only at made
    split at made
    · cases made
    · rename_i nonneg
      cases made
      simp only [realloc_length]
      have low : (0 : Int) ≤ size := by omega
      rw [Int.tdiv_eq_ediv_of_nonneg low] at nonneg ⊢
      simp only [wrap32, headsBufSize, bufsize] at nonneg ⊢
      omega

/-- A size up to the largest buffer can be asked for, and no other. -/
theorem setsize_limit (fresh : Nat → UInt8) (h : HeadersList) (size : Int) (range : size < 2147483648)
    (capacity : (h.buf.length : Int) ≤ maxHeadsBuf) :
    (h.setsize fresh size).isSome ↔ size < maxHeadsBuf := by
  rw [HeadersList.setsize, maxHeadsBuf] at *
  split
  · simp only [Option.isSome_some, true_iff]
    omega
  · have low : (0 : Int) ≤ size := by omega
    have overflow : wrap32 ((size.tdiv headsBufSize + 1) * headsBufSize) < 0 ↔ 2147479552 ≤ size := by
      rw [Int.tdiv_eq_ediv_of_nonneg low]
      simp only [wrap32, headsBufSize, bufsize]
      omega
    by_cases large : 2147479552 ≤ size
    · simp only [if_pos (overflow.mpr large), Option.isSome_none, Bool.false_eq_true, false_iff]
      omega
    · simp only [if_neg (mt overflow.mp large), Option.isSome_some, true_iff]
      omega

/-- The loop reads what remains, or fails; it stays inside a buffer that has room for it. -/
theorem headLoop_spec (fuel : Nat) (s : HeadLoop) (nonneg : 0 ≤ s.remains)
    (room : s.bufEnd + s.remains ≤ s.buf.length) :
    headLoop fuel s = .answer none ∨ ∃ t taken, headLoop fuel s = .done t ∧ (t.bufEnd : Int) = s.bufEnd + s.remains ∧
      t.buf.length = s.buf.length ∧ t.read = { s.read with bytesIn := t.read.bytesIn } ∧
      s.conn.input = taken ++ t.conn.input ∧ (taken.length : Int) = s.remains := by
  induction fuel generalizing s with
  | zero => exact .inl rfl
  | succ fuel ih =>
      rw [headLoop]
      by_cases finished : s.remains ≤ 0
      · rw [if_pos finished]
        exact .inr ⟨s, [], rfl, by omega, rfl, rfl, rfl, by simp; omega⟩
      · rw [if_neg finished]
        cases received : s.conn.receive s.remains.toNat with
        | none => exact .inl rfl
        | some pair =>
            obtain ⟨got, conn⟩ := pair
            obtain ⟨count, input, -⟩ := Connection.receive_spec received
            have fits : ¬ s.buf.length < s.bufEnd + got.length := by omega
            have same : (poke s.buf s.bufEnd got).length = s.buf.length := by
              rw [poke_length (by omega)]
              omega
            simp only [if_neg fits]
            rcases ih ⟨poke s.buf s.bufEnd got, s.bufEnd + got.length, s.remains - got.length,
              { s.read with bytesIn := s.read.bytesIn + got.length }, conn⟩ (by simp only; omega)
              (by simp only [same]; omega) with failed | ⟨t, taken, done, last, size, read, rest, amount⟩
            · exact .inl failed
            · refine .inr ⟨t, got ++ taken, done, ?_, ?_, ?_, ?_, ?_⟩
              · simp only at last
                omega
              · rw [size, same]
              · rw [read]
              · rw [input, rest, List.append_assoc]
              · simp only at amount
                simp only [List.length_append]
                omega

/-- Every pass takes an event of the schedule, so that more fuel than events changes nothing. -/
theorem headLoop_fuel (fuel : Nat) (s : HeadLoop) (enough : s.conn.sched.length < fuel) :
    headLoop (fuel + 1) s = headLoop fuel s := by
  induction fuel generalizing s with
  | zero => omega
  | succ fuel ih =>
      rw [headLoop]
      conv => rhs; rw [headLoop]
      by_cases finished : s.remains ≤ 0
      · rw [if_pos finished, if_pos finished]
      · rw [if_neg finished, if_neg finished]
        cases received : s.conn.receive s.remains.toNat with
        | none => rfl
        | some pair =>
            obtain ⟨got, conn⟩ := pair
            have shorter := (Connection.receive_spec received).2.2
            simp only
            split
            · rfl
            · exact ih _ (by simp only; omega)

theorem placed_null (r : ReadSide) : ({ r with pstrblockRead := .null, pstrblockReadLen := 0 } : ReadSide).Placed :=
  ⟨Int.le_refl _, Int.le_refl _, by simp⟩

theorem unread_null (r : ReadSide) : ({ r with pstrblockRead := .null, pstrblockReadLen := 0 } : ReadSide).unread = [] := by
  simp [ReadSide.unread]

/-- What was received already is taken from the front of the unread bytes. -/
theorem headPrefetch_spec (buf : Bytes) (size : Int) (r : ReadSide) (conn : Connection) (placed : r.Placed)
    (nonneg : 0 ≤ size) (room : size ≤ buf.length) :
    ∃ t taken, headPrefetch buf size r conn = .done t ∧ t.conn = conn ∧ t.buf.length = buf.length ∧
      t.read.Placed ∧ r.unread = taken ++ t.read.unread ∧ (taken.length : Int) = t.bufEnd ∧
      t.bufEnd + t.remains = size ∧ 0 ≤ t.remains ∧ (0 < t.remains → t.read.unread = []) := by
  have len := placed.unread_length
  have low := placed.nonneg
  rw [headPrefetch]
  by_cases pending : 0 < r.pstrblockReadLen
  · rw [if_pos pending]
    by_cases part : r.pstrblockReadLen < size
    · have whole : r.block.take r.pstrblockReadLen.toNat = r.unread := rfl
      have bad : (r.pstrblockReadLen < 0 || (buf.length : Int) < r.pstrblockReadLen) = false := by
        simp only [Bool.or_eq_false_iff, decide_eq_false_iff_not]
        omega
      simp only [if_pos part, bad, Bool.false_eq_true, if_false, if_neg (show ¬ size ≤ r.pstrblockReadLen by omega)]
      refine ⟨_, r.unread, rfl, rfl, ?_, placed_null r, ?_, ?_, ?_, ?_, ?_⟩
      · simp only [poke, whole, List.length_append, List.length_take, List.length_drop]
        omega
      · simp [unread_null]
      · simp only
        omega
      · simp only
        omega
      · simp only
        omega
      · intro _
        exact unread_null r
    · have bad : (size < 0 || (buf.length : Int) < size) = false := by
        simp only [Bool.or_eq_false_iff, decide_eq_false_iff_not]
        omega
      have front : r.block.take size.toNat = r.unread.take size.toNat := by
        rw [ReadSide.unread, List.take_take, Nat.min_eq_left (by omega)]
      obtain ⟨placed', unread⟩ := placed.advance size.toNat (by omega)
      have amount : (size.toNat : Int) = size := Int.toNat_of_nonneg nonneg
      rw [amount] at placed' unread
      simp only [if_neg part, bad, Bool.false_eq_true, if_false, if_pos (show size ≤ r.pstrblockReadLen by omega)]
      refine ⟨_, r.unread.take size.toNat, rfl, rfl, ?_, placed', ?_, ?_, ?_, ?_, ?_⟩
      · simp only [poke, front, List.length_append, List.length_take, List.length_drop]
        omega
      · simp only [unread, List.take_append_drop]
      · simp only [List.length_take]
        omega
      · simp only
        omega
      · simp only
        omega
      · simp only
        omega
  · rw [if_neg pending]
    have empty : r.unread = [] := List.length_eq_zero_iff.mp (by omega)
    exact ⟨_, [], rfl, rfl, rfl, placed, rfl, rfl, by simp, nonneg, fun _ => empty⟩

/-- A block of at least four bytes in a buffer with room is taken over. -/
theorem headFinish_spec (buggy : Bool) (h : HeadersList) (size : Int) (s : HeadLoop) (long : 4 ≤ s.bufEnd)
    (room : s.bufEnd ≤ s.buf.length) (spare : buggy = true → s.bufEnd + 2 ≤ s.buf.length) :
    ∃ h', headFinish buggy h size s = .done (h', s.read.counted size, s.conn) ∧ h'.bufused ≤ h'.buf.length := by
  rw [headFinish]
  simp only [if_neg (show ¬ s.bufEnd < 4 by omega)]
  split
  · exact ⟨_, rfl, by simp only; omega⟩
  · split
    · rename_i lacking
      have fits := spare lacking.1
      rw [if_neg (by omega)]
      refine ⟨_, rfl, ?_⟩
      simp only [poke, List.length_append, List.length_take, List.length_drop, crlf, List.length_cons, List.length_nil]
      omega
    · exact ⟨_, rfl, room⟩

/-- The reader of one block on a good size: no fault, a buffer with room for the block, and as many
bytes taken from the stream as the block has. -/
structure ReadsBlock (size : Int) (s : EncapsReading)
    (out : EncapsEnd (HeadersList × ReadSide × Connection) × List (Int × Nat)) : Prop where
  noFault : out.1 ≠ .fault
  uses : out.2 = s.uses ∨ ∃ capacity : Nat, out.2 = s.uses ++ [(size, capacity)] ∧ 0 ≤ size ∧ size ≤ capacity
  exact : ∀ h r c, out.1 = .done (h, r, c) → r.Placed ∧ h.bufused ≤ h.buf.length ∧
    (∃ capacity, out.2 = s.uses ++ [(size, capacity)]) ∧
    ∃ block, s.read.unread ++ s.conn.input = block ++ (r.unread ++ c.input) ∧ (block.length : Int) = size

theorem Placed.frame {r t : ReadSide} (placed : r.Placed) (rbuf : t.rbuf = r.rbuf) (headBuf : t.headBuf = r.headBuf)
    (pointer : t.pstrblockRead = r.pstrblockRead) (len : t.pstrblockReadLen = r.pstrblockReadLen) :
    t.Placed ∧ t.unread = r.unread := by
  have block : t.block = r.block := by
    rw [ReadSide.block, ReadSide.block, ReadSide.deref, ReadSide.deref, pointer]
    cases r.pstrblockRead with
    | null => rfl
    | rbuf o => simp only [ReadSide.region, rbuf]
    | head o => simp only [ReadSide.region, headBuf]
  refine ⟨⟨?_, ?_, ?_⟩, ?_⟩
  · rw [pointer]
    exact placed.pointer
  · rw [len]
    exact placed.nonneg
  · rw [len, block]
    exact placed.room
  · rw [ReadSide.unread, ReadSide.unread, block, len]

theorem spare_bound {buggy : Bool} {size : Int} (good : GoodSize buggy size) (range : size < 2147483648) :
    size + spareSize buggy < 2147483648 := by
  rw [spareSize]
  split
  · rename_i on
    exact good.2 on
  · omega

theorem asked_exact {buggy : Bool} {size : Int} (good : GoodSize buggy size) (range : size < 2147483648) :
    wrap32 (size + spareSize buggy) = size + spareSize buggy := by
  have long := good.1
  apply wrap32_of_range _ _ (spare_bound good range)
  rw [spareSize]
  split <;> omega

theorem readEncapsHeader_good (fresh : Nat → UInt8) (buggy : Bool) (h : HeadersList) (size : Int) (s : EncapsReading)
    (good : GoodSize buggy size) (range : size < 2147483648) (placed : s.read.Placed) :
    ReadsBlock size s (readEncapsHeader fresh buggy h size s) := by
  obtain ⟨long, spare⟩ := good
  have bound := spare_bound ⟨long, spare⟩ range
  rw [readEncapsHeader, asked_exact ⟨long, spare⟩ range]
  cases made : h.setsize fresh (size + spareSize buggy) with
  | none => exact ⟨by simp, .inl rfl, by simp⟩
  | some h' =>
      have room := setsize_room bound made
      have fits : size ≤ h'.buf.length := by
        rw [spareSize] at room
        split at room <;> omega
      obtain ⟨t, taken, first, conn, width, placed', unread, front, total, left, dry⟩ :=
        headPrefetch_spec h'.buf size s.read s.conn placed (by omega) fits
      simp only [first, EncapsEnd.bind]
      rcases headLoop_spec (s.conn.sched.length + 1) t left (by omega) with
        failed | ⟨u, more, loop, ended, width', read, input, amount⟩
      · simp only [failed]
        exact ⟨by simp, .inr ⟨_, rfl, by omega, fits⟩, by simp⟩
      · obtain ⟨list, finish, used⟩ := headFinish_spec buggy h' size u (by omega) (by omega)
          (fun on => by rw [spareSize, if_pos on] at room; omega)
        simp only [loop, finish]
        refine ⟨by simp, .inr ⟨_, rfl, by omega, fits⟩, ?_⟩
        rintro list' r' c' ⟨⟩
        have final : (u.read.counted size).Placed ∧ (u.read.counted size).unread = t.read.unread := by
          rw [read]
          exact Placed.frame placed' rfl rfl rfl rfl
        refine ⟨final.1, used, ⟨_, rfl⟩, taken ++ more, ?_, ?_⟩
        · rw [final.2, unread, ← conn, input]
          by_cases rest : 0 < t.remains
          · simp [dry rest]
          · have none : more = [] := List.length_eq_zero_iff.mp (by omega)
            simp [none]
        · simp only [List.length_append]
          omega

/-! ### All blocks -/

/-- Every header block that can be reached has a good size. A larger block than any buffer is answered
with `EC_500`, and a header without a next entity with `EC_400`. -/
def Sized (buggy : Bool) : List EncapsEntity → Prop
  | e :: next :: rest =>
      (e.type == .reqHdr || e.type == .resHdr) = true →
        GoodSize buggy (blockSize e next) ∧
          (blockSize e next + spareSize buggy < maxHeadsBuf → Sized buggy (next :: rest))
  | _ => True

/-- Reading the header blocks is safe for every stream: no access is out of bounds, every size is not
negative and fits its buffer, and each block takes exactly its size from the stream. -/
def HeadersSafe (fresh : Nat → UInt8) (buggy : Bool) (entities : List EncapsEntity) : Prop :=
  ∀ (r : ReadSide) (conn : Connection), r.Placed →
    (parseEncapsHeaders fresh buggy entities [] ⟨r, conn, []⟩).1 ≠ .fault ∧
      (∀ use ∈ (parseEncapsHeaders fresh buggy entities [] ⟨r, conn, []⟩).2, 0 ≤ use.1 ∧ use.1 ≤ use.2) ∧
      ∀ lists s, (parseEncapsHeaders fresh buggy entities [] ⟨r, conn, []⟩).1 = .done (lists, s) →
        ∃ blocks : List Bytes, r.unread ++ conn.input = blocks.flatten ++ (s.read.unread ++ s.conn.input) ∧
          blocks.map (fun b => (b.length : Int)) =
            (parseEncapsHeaders fresh buggy entities [] ⟨r, conn, []⟩).2.map (·.1)

/-- The same from a position of the list on. -/
structure SafeFrom (s : EncapsReading) (out : EncapsEnd (List HeadersList × EncapsReading) × List (Int × Nat))
    (more : List (Int × Nat)) : Prop where
  noFault : out.1 ≠ .fault
  uses : out.2 = s.uses ++ more
  sizes : ∀ use ∈ more, 0 ≤ use.1 ∧ use.1 ≤ use.2
  exact : ∀ lists t, out.1 = .done (lists, t) →
    ∃ blocks : List Bytes, s.read.unread ++ s.conn.input = blocks.flatten ++ (t.read.unread ++ t.conn.input) ∧
      blocks.map (fun b => (b.length : Int)) = more.map (·.1)

/-- A list that ends here is read as it is. -/
theorem safeFrom_done (s : EncapsReading) (lists : List HeadersList) :
    SafeFrom s (.done (lists, s), s.uses) [] where
  noFault := by simp
  uses := (List.append_nil _).symm
  sizes := by simp
  exact := by
    rintro lists' t ⟨⟩
    exact ⟨[], rfl, rfl⟩

theorem safeFrom_answer (s : EncapsReading) (code : Option Ec) (uses more : List (Int × Nat))
    (grown : uses = s.uses ++ more) (sizes : ∀ use ∈ more, 0 ≤ use.1 ∧ use.1 ≤ use.2) :
    SafeFrom s (.answer code, uses) more where
  noFault := by simp
  uses := grown
  sizes := sizes
  exact := by simp

theorem SafeFrom.after {s t : EncapsReading} {out : EncapsEnd (List HeadersList × EncapsReading) × List (Int × Nat)}
    {more : List (Int × Nat)} {use : Int × Nat} {block : Bytes} (safe : SafeFrom t out more)
    (uses : t.uses = s.uses ++ [use]) (size : 0 ≤ use.1 ∧ use.1 ≤ use.2)
    (taken : s.read.unread ++ s.conn.input = block ++ (t.read.unread ++ t.conn.input))
    (amount : (block.length : Int) = use.1) : SafeFrom s out (use :: more) where
  noFault := safe.noFault
  uses := by rw [safe.uses, uses, List.append_assoc]; rfl
  sizes := by
    intro other member
    rcases List.mem_cons.mp member with rfl | later
    · exact size
    · exact safe.sizes other later
  exact lists final done := by
    obtain ⟨blocks, stream, sizes⟩ := safe.exact lists final done
    refine ⟨block :: blocks, ?_, ?_⟩
    · rw [taken, stream, List.flatten_cons, List.append_assoc]
    · rw [List.map_cons, sizes, amount]
      rfl

/-- A block that was read was not larger than every buffer. -/
theorem readEncapsHeader_limit {fresh : Nat → UInt8} {buggy : Bool} {h : HeadersList} {size : Int} {s : EncapsReading}
    {result : HeadersList × ReadSide × Connection} {uses : List (Int × Nat)} (good : GoodSize buggy size)
    (range : size < 2147483648) (capacity : (h.buf.length : Int) ≤ maxHeadsBuf)
    (done : readEncapsHeader fresh buggy h size s = (.done result, uses)) : size + spareSize buggy < maxHeadsBuf := by
  have bound := spare_bound good range
  rw [readEncapsHeader, asked_exact good range] at done
  rw [← setsize_limit fresh h _ bound capacity]
  cases made : h.setsize fresh (size + spareSize buggy) with
  | none =>
      rw [made] at done
      cases done
  | some h' => rfl

theorem parseEncapsHeaders_safe (fresh : Nat → UInt8) (buggy : Bool) (entities : List EncapsEntity)
    (capacity : ∀ e ∈ entities, (e.list.buf.length : Int) ≤ maxHeadsBuf)
    (lists : List HeadersList) (s : EncapsReading) (sized : Sized buggy entities) (placed : s.read.Placed) :
    ∃ more, SafeFrom s (parseEncapsHeaders fresh buggy entities lists s) more := by
  induction entities generalizing lists s with
  | nil => exact ⟨[], safeFrom_done s lists⟩
  | cons e rest ih =>
      cases rest with
      | nil =>
          rw [parseEncapsHeaders]
          split
          · exact ⟨[], safeFrom_answer s _ _ [] (List.append_nil _).symm (by simp)⟩
          · exact ⟨[], safeFrom_done s lists⟩
      | cons next rest =>
          rw [parseEncapsHeaders]
          by_cases header : (e.type == .reqHdr || e.type == .resHdr) = true
          · obtain ⟨good, onward⟩ := sized header
            rw [if_pos header]
            have reads := readEncapsHeader_good fresh buggy e.list (blockSize e next) s good
              (wrap32_bounds _).2 placed
            rcases result : readEncapsHeader fresh buggy e.list (blockSize e next) s with ⟨_ | code | ⟨h, r, c⟩, uses⟩
            · rw [result] at reads
              exact absurd rfl reads.noFault
            · rw [result] at reads
              rcases reads.uses with same | ⟨capacity, grown, bounds⟩
              · exact ⟨[], safeFrom_answer s _ _ [] (by simpa using same) (by simp)⟩
              · exact ⟨[(blockSize e next, capacity)], safeFrom_answer s _ _ _ grown (by simpa using bounds)⟩
            · rw [result] at reads
              obtain ⟨placed', used, ⟨size, grown⟩, block, taken, amount⟩ := reads.exact h r c rfl
              have limit := readEncapsHeader_limit good (wrap32_bounds _).2 (capacity e (by simp)) result
              have bounds : 0 ≤ blockSize e next ∧ blockSize e next ≤ size := by
                rcases reads.uses with same | ⟨other, again, bounds⟩
                · rw [grown] at same
                  simp at same
                · rw [grown] at again
                  simp only [List.append_cancel_left_eq, List.cons.injEq, Prod.mk.injEq, true_and, and_true] at again
                  rw [again]
                  exact bounds
              simp only
              split
              · rename_i h' accepted
                obtain ⟨more, safe⟩ := ih (fun other member => capacity other (by simp [member])) (lists ++ [h'])
                  ⟨r, c, uses⟩ (onward limit) placed'
                exact ⟨_, safe.after grown bounds taken amount⟩
              · exact ⟨[(blockSize e next, size)], safeFrom_answer s _ _ _ grown (by simpa using bounds)⟩
          · rw [if_neg header]
            exact ⟨[], safeFrom_done s lists⟩

/-! ### Bad sizes -/

/-- The run shows an access out of bounds, or a size that is negative or too large for its buffer. -/
def Violates (out : EncapsEnd (List HeadersList × EncapsReading) × List (Int × Nat)) : Prop :=
  out.1 = .fault ∨ ∃ use ∈ out.2, ¬ (0 ≤ use.1 ∧ use.1 ≤ use.2)

/-- When the whole block has been received it is copied at once. -/
theorem headPrefetch_whole (buf : Bytes) (size : Int) (r : ReadSide) (conn : Connection) (nonneg : 0 ≤ size)
    (room : size ≤ buf.length) (some : 0 < r.pstrblockReadLen) (enough : size ≤ r.pstrblockReadLen) :
    headPrefetch buf size r conn =
      .done ⟨poke buf 0 (r.unread.take size.toNat), size.toNat, size - size, r.advance size, conn⟩ := by
  have front : r.block.take size.toNat = r.unread.take size.toNat := by
    rw [ReadSide.unread, List.take_take, Nat.min_eq_left (by omega)]
  have bad : (size < 0 || (buf.length : Int) < size) = false := by
    simp only [Bool.or_eq_false_iff, decide_eq_false_iff_not]
    omega
  rw [headPrefetch, if_pos some]
  simp only [if_neg (show ¬ r.pstrblockReadLen < size by omega), bad, Bool.false_eq_true, if_false, if_pos enough, front]

theorem headLoop_idle (fuel : Nat) (s : HeadLoop) (none : s.remains ≤ 0) : headLoop (fuel + 1) s = .done s := by
  rw [headLoop, if_pos none]

/-- Sizes once recorded stay recorded. -/
theorem parseEncapsHeaders_uses (fresh : Nat → UInt8) (buggy : Bool) (entities : List EncapsEntity)
    (lists : List HeadersList) (s : EncapsReading) :
    s.uses <+: (parseEncapsHeaders fresh buggy entities lists s).2 ∧
      ∀ e next rest, entities = e :: next :: rest → (e.type == .reqHdr || e.type == .resHdr) = true →
        (readEncapsHeader fresh buggy e.list (blockSize e next) s).2 <+:
          (parseEncapsHeaders fresh buggy entities lists s).2 := by
  induction entities generalizing lists s with
  | nil => exact ⟨List.prefix_rfl, by simp⟩
  | cons e rest ih =>
      cases rest with
      | nil =>
          refine ⟨?_, by simp⟩
          rw [parseEncapsHeaders]
          split <;> exact List.prefix_rfl
      | cons next rest =>
          have reads : s.uses <+: (readEncapsHeader fresh buggy e.list (blockSize e next) s).2 := by
            rw [readEncapsHeader]
            split
            · exact List.prefix_rfl
            · exact List.prefix_append _ _
          have onward : (e.type == .reqHdr || e.type == .resHdr) = true →
              (readEncapsHeader fresh buggy e.list (blockSize e next) s).2 <+:
                (parseEncapsHeaders fresh buggy (e :: next :: rest) lists s).2 := by
            intro header
            rw [parseEncapsHeaders, if_pos header]
            rcases readEncapsHeader fresh buggy e.list (blockSize e next) s with ⟨_ | code | ⟨h, r, c⟩, uses⟩
            · exact List.prefix_rfl
            · exact List.prefix_rfl
            · simp only
              split
              · exact (ih _ ⟨r, c, uses⟩).1
              · exact List.prefix_rfl
          refine ⟨?_, ?_⟩
          · by_cases header : (e.type == .reqHdr || e.type == .resHdr) = true
            · exact reads.trans (onward header)
            · rw [parseEncapsHeaders, if_neg header]
          · rintro e' next' rest' ⟨⟩ header
            exact onward header

/-- A size that is not good shows, once four bytes of the block have been received. -/
theorem badSize_violates (fresh : Nat → UInt8) (buggy : Bool) (e next : EncapsEntity) (rest : List EncapsEntity)
    (lists : List HeadersList) (s : EncapsReading) (header : (e.type == .reqHdr || e.type == .resHdr) = true)
    (capacity : (e.list.buf.length : Int) ≤ maxHeadsBuf) (bad : ¬ GoodSize buggy (blockSize e next))
    (placed : s.read.Placed) (received : 4 ≤ s.read.unread.length) :
    Violates (parseEncapsHeaders fresh buggy (e :: next :: rest) lists s) := by
  have low := (wrap32_bounds (next.start - e.start)).1
  have high := (wrap32_bounds (next.start - e.start)).2
  change -2147483648 ≤ blockSize e next at low
  change blockSize e next < 2147483648 at high
  have recorded := (parseEncapsHeaders_uses fresh buggy (e :: next :: rest) lists s).2 e next rest rfl header
  have spare : spareSize buggy = 0 ∨ (spareSize buggy = 2 ∧ buggy = true) := by
    cases buggy
    · exact .inl rfl
    · exact .inr ⟨rfl, rfl⟩
  -- a buffer is always found for these sizes
  obtain ⟨h', made⟩ : ∃ h', e.list.setsize fresh (wrap32 (blockSize e next + spareSize buggy)) = some h' := by
    rw [← Option.isSome_iff_exists, setsize_limit fresh _ _ (wrap32_bounds _).2 capacity]
    have value : wrap32 (blockSize e next + spareSize buggy) < 4 + 2 := by
      by_contra large
      apply bad
      simp only [wrap32] at large
      refine ⟨by omega, fun on => ?_⟩
      rw [spareSize, if_pos on] at large
      omega
    simp only [maxHeadsBuf]
    omega
  have uses : (readEncapsHeader fresh buggy e.list (blockSize e next) s).2 =
      s.uses ++ [(blockSize e next, h'.buf.length)] := by
    rw [readEncapsHeader, made]
  rw [uses] at recorded
  have member : (blockSize e next, h'.buf.length) ∈ (parseEncapsHeaders fresh buggy (e :: next :: rest) lists s).2 :=
    recorded.subset (by simp)
  by_cases negative : blockSize e next < 0
  · exact .inr ⟨_, member, by simp only; omega⟩
  by_cases small : blockSize e next < 4
  · left
    have len := placed.unread_length
    have asked : wrap32 (blockSize e next + spareSize buggy) = blockSize e next + spareSize buggy :=
      wrap32_of_range _ (by omega) (by omega)
    rw [asked] at made
    have room := setsize_room (by omega) made
    have copied := headPrefetch_whole h'.buf (blockSize e next) s.read s.conn (by omega) (by omega) (by omega) (by omega)
    have fault : (readEncapsHeader fresh buggy e.list (blockSize e next) s).1 = .fault := by
      rw [readEncapsHeader, asked, made]
      simp only [copied, EncapsEnd.bind]
      rw [headLoop_idle _ _ (by simp only; omega)]
      simp only [headFinish]
      rw [if_pos (by omega)]
    rw [parseEncapsHeaders, if_pos header]
    rcases result : readEncapsHeader fresh buggy e.list (blockSize e next) s with ⟨_ | code | ⟨h, r, c⟩, uses⟩
    · rfl
    · rw [result] at fault
      cases fault
    · rw [result] at fault
      cases fault
  · -- the size that is asked for has overflowed
    have overflow : buggy = true ∧ 2147483648 ≤ blockSize e next + 2 := by
      by_contra fits
      apply bad
      refine ⟨by omega, fun on => ?_⟩
      by_contra large
      exact fits ⟨on, by omega⟩
    have asked : wrap32 (blockSize e next + spareSize buggy) < 0 := by
      rw [spareSize, if_pos overflow.1]
      simp only [wrap32]
      omega
    have kept : h' = e.list := by
      rw [HeadersList.setsize, if_pos (by omega)] at made
      exact (Option.some.inj made).symm
    subst kept
    refine .inr ⟨_, member, ?_⟩
    simp only [maxHeadsBuf] at capacity
    simp only
    omega

/-- A block of the given size that every check lets through. -/
def plainHead (size : Int) : Bytes := List.replicate (size.toNat - 2) 65 ++ crlf

theorem plainHead_length (size : Int) (long : 4 ≤ size) : (plainHead size).length = size.toNat := by
  simp only [plainHead, crlf, List.length_append, List.length_replicate, List.length_cons, List.length_nil]
  omega

/-- When such a block comes first it is read and accepted. -/
theorem readEncapsHeader_plain (fresh : Nat → UInt8) (buggy : Bool) (h : HeadersList) (size : Int) (s : EncapsReading)
    (good : GoodSize buggy size) (range : size < 2147483648) (capacity : (h.buf.length : Int) ≤ maxHeadsBuf)
    (limit : size + spareSize buggy < maxHeadsBuf) (placed : s.read.Placed) (rest : Bytes)
    (received : s.read.unread = plainHead size ++ rest) :
    ∃ h' r uses, readEncapsHeader fresh buggy h size s = (.done (h', r, s.conn), uses) ∧ h'.unpack.1 = .ec100 ∧
      r.Placed ∧ r.unread = rest := by
  have long := good.1
  have bound := spare_bound good range
  have asked := asked_exact good range
  obtain ⟨h', made⟩ := Option.isSome_iff_exists.mp ((setsize_limit fresh h _ bound capacity).mpr limit)
  have room := setsize_room bound made
  have fits : size ≤ h'.buf.length := by
    rw [spareSize] at room
    split at room <;> omega
  have width := plainHead_length size long
  have len := placed.unread_length
  have total : s.read.unread.length = size.toNat + rest.length := by rw [received, List.length_append, width]
  have copied := headPrefetch_whole h'.buf size s.read s.conn (by omega) fits (by omega) (by omega)
  have front : s.read.unread.take size.toNat = plainHead size := by
    rw [received, List.take_left' width]
  rw [front] at copied
  obtain ⟨placed', unread⟩ := placed.advance size.toNat (by omega)
  rw [Int.toNat_of_nonneg (by omega)] at placed' unread
  have behind : s.read.unread.drop size.toNat = rest := by rw [received, List.drop_left' width]
  -- the buffer in front of the old bytes
  have buf : poke h'.buf 0 (plainHead size) =
      List.replicate (size.toNat - 2) 65 ++ cr :: lf :: h'.buf.drop (plainHead size).length := by
    rw [poke, plainHead]
    simp [crlf]
  have lastFour : (poke h'.buf 0 (plainHead size)).drop (size.toNat - 4) =
      65 :: 65 :: cr :: lf :: h'.buf.drop (plainHead size).length := by
    rw [buf, show size.toNat - 2 = size.toNat - 4 + 2 by omega, ← List.replicate_append_replicate, List.append_assoc,
      List.drop_left' (by simp)]
    rfl
  have lastTwo : (poke h'.buf 0 (plainHead size)).drop (size.toNat - 2) =
      cr :: lf :: h'.buf.drop (plainHead size).length := by
    rw [buf, List.drop_left' (by simp)]
  have finish : headFinish buggy h' size ⟨poke h'.buf 0 (plainHead size), size.toNat, size - size,
      s.read.advance size, s.conn⟩ = .done ({ h' with buf := poke h'.buf 0 (plainHead size), bufused := size.toNat },
        (s.read.advance size).counted size, s.conn) := by
    have four : ¬ (65 :: 65 :: cr :: lf :: h'.buf.drop (plainHead size).length).take 4 = crlf ++ crlf := by
      simp [crlf, cr]
    have two : ¬ (buggy = true ∧ (cr :: lf :: h'.buf.drop (plainHead size).length).take 2 ≠ crlf) := by
      simp [crlf]
    simp only [headFinish, lastFour, lastTwo, if_neg (show ¬ size.toNat < 4 by omega), if_neg four, if_neg two]
  have kept : ((s.read.advance size).counted size).Placed ∧
      ((s.read.advance size).counted size).unread = (s.read.advance size).unread :=
    Placed.frame placed' rfl rfl rfl rfl
  refine ⟨{ h' with buf := poke h'.buf 0 (plainHead size), bufused := size.toNat },
    (s.read.advance size).counted size, s.uses ++ [(size, h'.buf.length)], ?_, ?_, ?_, ?_⟩
  · rw [readEncapsHeader, asked, made]
    simp only [copied, EncapsEnd.bind]
    rw [headLoop_idle _ _ (by simp only; omega)]
    simp only [finish]
  · have unpacked := unpack_pieces { h' with buf := poke h'.buf 0 (plainHead size), bufused := size.toNat }
      (List.replicate (size.toNat - 2) 65) (h'.buf.drop (plainHead size).length) cr lf buf (by simp; omega) (.inl rfl)
    obtain ⟨_, result⟩ := unpacked
    rw [result]
  · exact kept.1
  · rw [kept.2, unread, behind]

/-- A list with a bad size meets a stream that shows it. -/
theorem unsized_violates (fresh : Nat → UInt8) (buggy : Bool) (entities : List EncapsEntity)
    (capacity : ∀ e ∈ entities, (e.list.buf.length : Int) ≤ maxHeadsBuf) (unsized : ¬ Sized buggy entities) :
    ∃ stream, ∀ (lists : List HeadersList) (s : EncapsReading), s.read.Placed → stream <+: s.read.unread →
      Violates (parseEncapsHeaders fresh buggy entities lists s) := by
  induction entities with
  | nil => exact absurd trivial unsized
  | cons e rest ih =>
      cases rest with
      | nil => exact absurd trivial unsized
      | cons next rest =>
          rw [Sized] at unsized
          simp only [Classical.not_imp, not_and] at unsized
          obtain ⟨header, unsized⟩ := unsized
          have own := capacity e (by simp)
          by_cases good : GoodSize buggy (blockSize e next)
          · obtain ⟨limit, later⟩ := unsized good
            obtain ⟨stream, shows⟩ := ih (fun other member => capacity other (by simp [member])) later
            refine ⟨plainHead (blockSize e next) ++ stream, ?_⟩
            rintro lists s placed ⟨more, received⟩
            obtain ⟨h, r, uses, result, accepted, placed', unread⟩ := readEncapsHeader_plain fresh buggy e.list
              (blockSize e next) s good (wrap32_bounds _).2 own limit placed (stream ++ more)
              (by rw [← received, List.append_assoc])
            have unpacked : h.unpack = (.ec100, h.unpack.2) := Prod.ext accepted rfl
            rw [parseEncapsHeaders, if_pos header, result]
            simp only
            rw [unpacked]
            exact shows _ ⟨r, s.conn, uses⟩ placed' ⟨more, unread.symm⟩
          · refine ⟨List.replicate 4 0, ?_⟩
            intro lists s placed received
            exact badSize_violates fresh buggy e next rest lists s header own good placed
              (by simpa using received.length_le)

/-- Reading the header blocks is safe for every stream exactly when every size that can be reached is
good. -/
theorem headers_safe_iff (fresh : Nat → UInt8) (buggy : Bool) (entities : List EncapsEntity)
    (capacity : ∀ e ∈ entities, (e.list.buf.length : Int) ≤ maxHeadsBuf) :
    HeadersSafe fresh buggy entities ↔ Sized buggy entities := by
  constructor
  · intro safe
    by_contra unsized
    obtain ⟨stream, shows⟩ := unsized_violates fresh buggy entities capacity unsized
    have placed : (ReadSide.bodyStart stream).Placed := ⟨Int.le_refl _, Int.natCast_nonneg _, Int.le_refl _⟩
    have unread : (ReadSide.bodyStart stream).unread = stream := by
      simp [ReadSide.bodyStart, ReadSide.unread, ReadSide.block, ReadSide.deref, ReadSide.region, Ptr.offset]
    have clean := safe (ReadSide.bodyStart stream) ⟨[], [], [], []⟩ placed
    rcases shows [] ⟨ReadSide.bodyStart stream, ⟨[], [], [], []⟩, []⟩ placed (by rw [unread]) with fault | ⟨use, member, bad⟩
    · exact clean.1 fault
    · exact bad (clean.2.1 use member)
  · intro sized r conn placed
    obtain ⟨more, safe⟩ := parseEncapsHeaders_safe fresh buggy entities capacity [] ⟨r, conn, []⟩ sized placed
    have uses : (parseEncapsHeaders fresh buggy entities [] ⟨r, conn, []⟩).2 = more := safe.uses
    refine ⟨safe.noFault, ?_, ?_⟩
    · rw [uses]
      exact safe.sizes
    · rw [uses]
      exact safe.exact

/-- The entities of an accepted Encapsulated line. -/
def lineEntities (line : String) : List EncapsEntity :=
  ((processEncapsulated (fun _ => 0) EntityTable.empty (ascii line)).map (·.table.entities)).getD []

theorem headers_safe_iff_reqmod :
    HeadersSafe (fun _ => 0) false (lineEntities "Encapsulated: req-hdr=0, req-body=170") ↔
      Sized false (lineEntities "Encapsulated: req-hdr=0, req-body=170") := by
  apply headers_safe_iff
  have small : (lineEntities "Encapsulated: req-hdr=0, req-body=170").all
      (fun e => decide ((e.list.buf.length : Int) ≤ maxHeadsBuf)) = true := by
    decide +kernel
  intro e member
  exact of_decide_eq_true (List.all_eq_true.mp small e member)

/-- A response header that starts behind the body is accepted, and the copy of its block has a negative
length. -/
theorem negative_block_faults :
    (processEncapsulated (fun _ => 0) EntityTable.empty (ascii "Encapsulated: res-hdr=100, res-body=0")).map
        (fun out => (out.status, checkRequest .respmod out.table)) = some (.ec100, .ec100) ∧
      ¬ HeadersSafe (fun _ => 0) false (lineEntities "Encapsulated: res-hdr=100, res-body=0") := by
  refine ⟨by decide +kernel, ?_⟩
  intro safe
  let stream := ascii "HTTP/1.1 200 OK\r\n\r\n"
  have placed : (ReadSide.bodyStart stream).Placed := ⟨by decide, by decide, by decide⟩
  have fault : (parseEncapsHeaders (fun _ => 0) false (lineEntities "Encapsulated: res-hdr=100, res-body=0") []
      ⟨ReadSide.bodyStart stream, ⟨[], [], [], []⟩, []⟩).1.isFault = true := by
    decide +kernel
  have clean := (safe (ReadSide.bodyStart stream) ⟨[], [], [], []⟩ placed).1
  revert fault clean
  cases (parseEncapsHeaders (fun _ => 0) false (lineEntities "Encapsulated: res-hdr=100, res-body=0") []
    ⟨ReadSide.bodyStart stream, ⟨[], [], [], []⟩, []⟩).1 with
  | fault => exact fun _ clean => clean rfl
  | answer code => exact fun fault _ => nomatch fault
  | done result => exact fun fault _ => nomatch fault

end IcapService
