import IcapService.ClientRequest
import IcapService.EncapsHeaders
import IcapService.HeaderRuns
import IcapService.IcapHeader

/-! What the client reads: the head of a response, the block of its encapsulated header and its body, in whatever
pieces they arrive. -/

namespace IcapService

open CString CInt Machine Chunked

/-! ### The end of a head -/

/-- The search for the end of a head finds the first one that lies in the first `n` bytes. -/
theorem strnstr_eoh (s : Bytes) (n : Nat) (inside : n ≤ s.length) :
    match strnstr (crlf ++ crlf) s n with
    | some i => i + 4 ≤ n ∧ eohAt s i ∧ ∀ q < i, eohAt s q = false
    | none => ∀ q, q + 4 ≤ n → eohAt s q = false := by
  induction s generalizing n with
  | nil =>
      intro q room
      rw [List.length_nil] at inside
      omega
  | cons c rest ih =>
      have four : (crlf ++ crlf).length = 4 := rfl
      rw [strnstr]
      by_cases short : n < (crlf ++ crlf).length
      · rw [if_pos short]
        intro q room
        omega
      · rw [if_neg short]
        by_cases here : (crlf ++ crlf).isPrefixOf (c :: rest)
        · rw [if_pos here]
          exact ⟨by omega, here, fun q before => absurd before (Nat.not_lt_zero q)⟩
        · rw [if_neg here]
          have behind (q : Nat) : eohAt (c :: rest) (q + 1) = eohAt rest q := rfl
          have front : eohAt (c :: rest) 0 = false := Bool.eq_false_iff.mpr here
          have tail := ih (n - 1) (by rw [List.length_cons] at inside; omega)
          cases found : strnstr (crlf ++ crlf) rest (n - 1) with
          | none =>
              rw [found] at tail
              intro q room
              cases q with
              | zero => exact front
              | succ q => exact (behind q).trans (tail q (by omega))
          | some i =>
              rw [found] at tail
              obtain ⟨room, here', first⟩ := tail
              change i + 1 + 4 ≤ n ∧ eohAt (c :: rest) (i + 1) ∧ ∀ q < i + 1, eohAt (c :: rest) q = false
              refine ⟨by omega, (behind i).trans here', fun q before => ?_⟩
              cases q with
              | zero => exact front
              | succ q => exact (behind q).trans (first q (by omega))

theorem findEoh_first {s : Bytes} {p : Nat} (found : findEoh s = some p) :
    eohAt s p ∧ ∀ q < p, eohAt s q = false := by
  rw [findEoh, List.find?_range_eq_some] at found
  obtain ⟨here, -, first⟩ := found
  exact ⟨here, fun q before => by simpa using first q before⟩

/-- A text whose first empty line is its end. -/
structure HeadText (head : Bytes) (code : Int) : Prop where
  ends : findEoh head = some (head.length - 4)
  noNul : 0 ∉ head
  status : Client.scanStatus (head.take (head.length - 2)) = some code

namespace Client

variable {fresh : Nat → UInt8} {head tail input : Bytes} {code : Int} {r : ReadSide} {h : HeadersList}

/-- A part of a head has been stored; its end is among the bytes that are not read. -/
structure HeadPart (head tail : Bytes) (h : HeadersList) (r : ReadSide) (input : Bytes) : Prop where
  placed : r.Placed
  inside : h.bufused ≤ h.buf.length
  stream : h.content ++ (r.unread ++ input) = head ++ tail
  short : h.bufused + 4 ≤ head.length

/-- A head has been stored. -/
structure HeadWhole (head : Bytes) (h : HeadersList) : Prop where
  count : h.bufused + 2 = head.length
  inside : h.bufused < h.buf.length
  text : h.content = head.take (head.length - 2)
  closed : at0 h.buf h.bufused = 0

theorem content_length (inside : h.bufused ≤ h.buf.length) : h.content.length = h.bufused := by
  rw [HeadersList.content, List.length_take, Nat.min_eq_left inside]

/-- Bytes that are read and stored behind those of a list. -/
theorem stored_content {buf : Bytes} {k : Nat} (inside : h.bufused ≤ h.buf.length)
    (keeps : ∃ more, buf = h.buf ++ more) (room : k ≤ r.unread.length) :
    (poke buf h.bufused (r.block.take k)).take (h.bufused + k) = h.content ++ r.unread.take k := by
  obtain ⟨more, rfl⟩ := keeps
  obtain ⟨stale, split⟩ := r.block_eq
  have front : r.block.take k = r.unread.take k := by rw [split, List.take_append_of_le_length room]
  have width : (r.unread.take k).length = k := by rw [List.length_take, Nat.min_eq_left room]
  have whole := poke_take (h.buf ++ more) h.bufused (r.unread.take k)
    (by rw [List.length_append]; omega)
  rw [width] at whole
  rw [front, whole, HeadersList.content, List.take_append_of_le_length inside]

/-- An end of the head in the stream, seen from the bytes that are not read. -/
theorem HeadPart.agree (part : HeadPart head tail h r input) {q : Nat} (room : q + 4 ≤ r.unread.length) :
    eohAt r.block q = eohAt (head ++ tail) (h.bufused + q) := by
  obtain ⟨stale, split⟩ := r.block_eq
  have behind : eohAt (h.content ++ (r.unread ++ input)) (h.bufused + q) = eohAt (r.unread ++ input) q := by
    rw [eohAt, eohAt, ← content_length part.inside, List.drop_length_add_append]
  have seen (more : Bytes) : eohAt (r.unread ++ more) q = eohAt r.unread q := by
    have same := eohAt_take (r.unread ++ more) q r.unread.length room
    rw [List.take_left] at same
    exact same.symm
  rw [← part.stream, behind, split, seen, seen]

theorem HeadText.agree (tail : Bytes) {q : Nat} (room : q + 4 ≤ head.length) :
    eohAt (head ++ tail) q = eohAt head q := by
  have same := eohAt_take (head ++ tail) q head.length room
  rw [List.take_left] at same
  exact same.symm

/-- The reader of a head stores what it is given of it, up to its end. -/
theorem clientParseIcapHeader_part (text : HeadText head code) (part : HeadPart head tail h r input) :
    (∃ r' h', clientParseIcapHeader fresh r h = (.needsMore, r', h') ∧ HeadPart head tail h' r' input ∧
      r'.unread.length < 4) ∨
    ∃ r' h', clientParseIcapHeader fresh r h = (.ok, r', h') ∧ HeadWhole head h' ∧ r'.Placed ∧
      r'.unread ++ input = tail ∧ r'.unread.length < r.unread.length := by
  have count := part.placed.unread_length
  have short := part.short
  obtain ⟨here, first⟩ := findEoh_first text.ends
  have search := strnstr_eoh r.block r.unread.length
    (by have room := part.placed.room; omega)
  have whole := part.stream
  have inside := part.inside
  have front := content_length inside
  rw [clientParseIcapHeader]
  by_cases few : r.pstrblockReadLen < 4
  · rw [if_pos few]
    exact .inl ⟨r, h, rfl, part, by omega⟩
  · rw [if_neg few]
    have len : r.pstrblockReadLen.toNat = r.unread.length := by omega
    dsimp only
    rw [len]
    -- what a read of `k` bytes leaves
    have read (k : Nat) (room : k ≤ r.unread.length) : ∃ buf, buf = poke
          (if h.buf.length < grow headsBufSize h.buf.length (h.bufused + k) then
            realloc fresh h.buf (grow headsBufSize h.buf.length (h.bufused + k)) else h.buf)
          h.bufused (r.block.take k) ∧ h.bufused + k ≤ buf.length ∧
        buf.take (h.bufused + k) ++ (r.unread.drop k ++ input) = head ++ tail := by
      obtain ⟨more, same, enough⟩ := grow_keeps fresh headsBufSize h.buf (h.bufused + k) (by decide)
      refine ⟨_, rfl, ?_, ?_⟩
      · rw [same, poke_length (by rw [List.length_append]; omega)]
        omega
      · rw [stored_content inside ⟨more, same⟩ room, List.append_assoc, ← List.append_assoc (r.unread.take k),
          List.take_append_drop, whole]
    cases found : strnstr (crlf ++ crlf) r.block r.unread.length with
    | none =>
        rw [found] at search
        have missing : h.bufused + r.unread.length < head.length := by
          by_contra enough
          have none := search (head.length - 4 - h.bufused) (by omega)
          rw [part.agree (by omega), HeadText.agree tail (by omega)] at none
          have at_ : h.bufused + (head.length - 4 - h.bufused) = head.length - 4 := by omega
          rw [at_, here] at none
          cases none
        obtain ⟨buf, same, room, stream⟩ := read (r.unread.length - 3) (Nat.sub_le _ _)
        obtain ⟨placed, unread⟩ := part.placed.advance (r.unread.length - 3) (Nat.sub_le _ _)
        simp only [Option.map_none, Option.getD_none, Option.isNone_none, if_true]
        rw [← same]
        refine .inl ⟨_, _, rfl, ⟨placed, room, ?_, ?_⟩, ?_⟩
        · rw [unread]
          exact stream
        · change h.bufused + (r.unread.length - 3) + 4 ≤ head.length
          omega
        · rw [unread, List.length_drop]
          omega
    | some i =>
        rw [found] at search
        obtain ⟨room, found_, before⟩ := search
        have at_ : h.bufused + i = head.length - 4 := by
          rcases Nat.lt_trichotomy (h.bufused + i) (head.length - 4) with early | same | late
          · have none := first _ early
            rw [part.agree room, HeadText.agree tail (by omega), none] at found_
            cases found_
          · exact same
          · have none := before (head.length - 4 - h.bufused) (by omega)
            rw [part.agree (by omega), HeadText.agree tail (by omega)] at none
            have at_ : h.bufused + (head.length - 4 - h.bufused) = head.length - 4 := by omega
            rw [at_, here] at none
            cases none
        obtain ⟨buf, same, enough, stream⟩ := read (i + 4) room
        obtain ⟨placed, unread⟩ := part.placed.advance (i + 4) room
        have all : h.bufused + (i + 4) = head.length := by omega
        rw [all] at enough stream
        have size : (buf.take head.length).length = head.length := by rw [List.length_take, Nat.min_eq_left enough]
        obtain ⟨text_, rest⟩ := List.append_inj stream size
        simp only [Option.map_some, Option.getD_some, Option.isNone_some, Bool.false_eq_true, if_false]
        rw [← same, all]
        have text_ : (buf.set (head.length - 2) 0).take (head.length - 2) = head.take (head.length - 2) := by
          rw [List.take_set_of_le (Nat.le_refl _)]
          have cut := congrArg (List.take (head.length - 2)) text_
          rwa [List.take_take, Nat.min_eq_left (Nat.sub_le _ _)] at cut
        have stop : head.length - 2 < (buf.set (head.length - 2) 0).length := by
          rw [List.length_set]
          omega
        refine .inr ⟨_, _, rfl, ⟨?_, stop, text_, ?_⟩, placed, by rw [unread]; exact rest, ?_⟩
        · change head.length - 2 + 2 = head.length
          omega
        · change at0 (buf.set (head.length - 2) 0) (head.length - 2) = 0
          rw [at0_eq_getElem stop, List.getElem_set_self]
        · rw [unread, List.length_drop]
          omega

/-! ### The block of an encapsulated header -/

/-- A part of a block has been stored. -/
structure BlockPart (block tail : Bytes) (h : HeadersList) (r : ReadSide) (input : Bytes) : Prop where
  placed : r.Placed
  room : block.length ≤ h.buf.length
  stream : h.content ++ (r.unread ++ input) = block ++ tail
  short : h.bufused < block.length

/-- A block has been stored, without its last CRLF. -/
structure BlockWhole (block : Bytes) (h : HeadersList) : Prop where
  inside : h.bufused ≤ h.buf.length
  text : h.content = block.take (block.length - 2)

/-- The reader of a block stores what it is given of it, up to its end, and stays inside the buffer. -/
theorem clientParseEncapsHeader_part {block : Bytes} {size : Int} (ends : crlf ++ crlf <:+ block)
    (count : size = block.length) (part : BlockPart block tail h r input) :
    (∃ r' h', clientParseEncapsHeader r h size = (.needsMore, r', h', false) ∧ BlockPart block tail h' r' input ∧
      r'.unread = []) ∨
    ∃ r' h', clientParseEncapsHeader r h size = (.ok, r', h', false) ∧ BlockWhole block h' ∧ r'.Placed ∧
      r'.unread ++ input = tail ∧ r'.unread.length < r.unread.length := by
  have len := part.placed.unread_length
  have short := part.short
  have inside : h.bufused ≤ h.buf.length := Nat.le_trans (Nat.le_of_lt short) part.room
  have width := content_length inside
  have negative : ¬ size - h.bufused < 0 := by omega
  have more : ¬ size - h.bufused = 0 := by omega
  rw [clientParseEncapsHeader]
  dsimp only
  rw [if_neg negative, if_neg more]
  obtain ⟨k, amount⟩ : ∃ k, (min (size - h.bufused) r.pstrblockReadLen).toNat = k := ⟨_, rfl⟩
  have small : k = min (block.length - h.bufused) r.unread.length := by omega
  have room : ¬ h.buf.length < h.bufused + k := by
    have room := part.room
    omega
  have content : (poke h.buf h.bufused (r.block.take k)).take (h.bufused + k) = h.content ++ r.unread.take k :=
    stored_content inside ⟨[], (List.append_nil _).symm⟩ (by omega)
  have size' : (poke h.buf h.bufused (r.block.take k)).length = h.buf.length := by
    rw [poke_length inside, List.length_take]
    have some : (r.block.take k).length ≤ k := List.length_take_le k _
    rw [List.length_take] at some
    omega
  have stream : (poke h.buf h.bufused (r.block.take k)).take (h.bufused + k) ++ (r.unread.drop k ++ input) =
      block ++ tail := by
    rw [content, List.append_assoc, ← List.append_assoc (r.unread.take k), List.take_append_drop, part.stream]
  obtain ⟨placed, unread⟩ := part.placed.advance k (by omega)
  rw [amount, decide_eq_false room]
  by_cases part_ : ((h.bufused + k : Nat) : Int) < size
  · rw [if_pos part_]
    refine .inl ⟨_, _, rfl, ⟨placed, ?_, ?_, ?_⟩, ?_⟩
    · change block.length ≤ (poke h.buf h.bufused (r.block.take k)).length
      rw [size']
      exact part.room
    · rw [unread]
      exact stream
    · change h.bufused + k < block.length
      omega
    · rw [unread]
      exact List.drop_of_length_le (by omega)
  · rw [if_neg part_]
    have all : h.bufused + k = block.length := by omega
    rw [all] at stream ⊢
    have whole : (poke h.buf h.bufused (r.block.take k)).take block.length = block ∧ r.unread.drop k ++ input = tail := by
      refine List.append_inj stream ?_
      rw [List.length_take, size']
      exact Nat.min_eq_left part.room
    obtain ⟨front, close⟩ := ends
    have four : 4 ≤ block.length := by
      rw [← close, List.length_append]
      exact Nat.le_add_left 4 _
    have closes : ((poke h.buf h.bufused (r.block.take k)).drop (block.length - 4)).take 4 = crlf ++ crlf := by
      have cut : block.drop (block.length - 4) = crlf ++ crlf := by
        have size : block.length - 4 = front.length := by
          rw [← close, List.length_append]
          exact Nat.add_sub_cancel _ _
        rw [size, ← close, List.drop_left]
      have same := congrArg (List.drop (block.length - 4)) whole.1
      rw [List.drop_take, cut, show block.length - (block.length - 4) = 4 by omega] at same
      exact same
    rw [if_pos ⟨four, closes⟩]
    refine .inr ⟨_, _, rfl, ⟨?_, ?_⟩, placed, by rw [unread]; exact whole.2, ?_⟩
    · change block.length - 2 ≤ (poke h.buf h.bufused (r.block.take k)).length
      rw [size']
      exact Nat.le_trans (Nat.sub_le _ _) part.room
    · have same := congrArg (List.take (block.length - 2)) whole.1
      rw [List.take_take, Nat.min_eq_left (Nat.sub_le _ _)] at same
      exact same
    · rw [unread, List.length_drop]
      omega

end Client

end IcapService
