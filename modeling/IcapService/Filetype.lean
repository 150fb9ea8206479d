import IcapService.Lib.Machine
import IcapService.MagicDb

/-! `ci_filetype`: what a buffer holds, and which bytes are inspected to tell. -/

namespace IcapService

open CInt CString Machine

/-! ### Magics -/

/-- The offset and the length are added as `size_t`. -/
def magicFits (m : CiMagic) (buflen : Nat) : Bool :=
  decide ((m.offset + m.magic.length) % 18446744073709551616 ≤ buflen)

/-- The bytes that `memcmp` compares. -/
def magicReads (m : CiMagic) : List Int := (List.range m.magic.length).map fun j : Nat => m.offset + j

def magicEqual (buf : Int → UInt8) (m : CiMagic) : Bool := (magicReads m).map buf == m.magic

/-- `check_magics`, with the bytes it inspects. -/
def checkMagics (buf : Int → UInt8) (buflen : Nat) : List CiMagic → Int × List Int
  | [] => (-1, [])
  | m :: magics =>
      if magicFits m buflen then
        if magicEqual buf m then (m.type, magicReads m)
        else
          let r := checkMagics buf buflen magics
          (r.1, magicReads m ++ r.2)
      else checkMagics buf buflen magics

/-! ### Text -/

/-- `text_chars`: 1 for ASCII text, 2 for ISO-8859 text, 4 for extended ASCII. -/
def textChars (c : UInt8) : Nat :=
  if (7 ≤ c ∧ c ≤ 10) ∨ c = 12 ∨ c = 13 ∨ c = 27 ∨ (32 ≤ c ∧ c ≤ 126) ∨ c = 133 then 1
  else if 160 ≤ c then 2
  else if 128 ≤ c then 4
  else 0

/-- The loop of `check_ascii`, with so many bytes to go. -/
def checkAsciiLoop (buf : Int → UInt8) (i res : Nat) : Nat → Int × List Int
  | 0 => (if res ≤ 1 then 0 else if res ≤ 3 then 1 else 2, [])
  | n + 1 =>
      if textChars (buf i) = 0 then (-1, [(i : Int)])
      else
        let r := checkAsciiLoop buf (i + 1) (res ||| textChars (buf i)) n
        (r.1, (i : Int) :: r.2)

/-- `check_ascii` -/
def checkAscii (buf : Int → UInt8) (buflen : Nat) : Int × List Int := checkAsciiLoop buf 0 0 buflen

/-! ### Unicode -/

/-- The bits of a character in its first byte, and how many bytes it has; none for another byte. -/
def utfLead (c : UInt8) : Nat × Nat :=
  if c &&& 0xE0 = 0xC0 then ((c &&& 0x1F).toNat, 2)
  else if c &&& 0xF0 = 0xE0 then ((c &&& 0x0F).toNat, 3)
  else if c &&& 0xF8 = 0xF0 then ((c &&& 0x07).toNat, 4)
  else if c &&& 0xFC = 0xF8 then ((c &&& 0x03).toNat, 5)
  else if c &&& 0xFE = 0xFC then ((c &&& 0x01).toNat, 6)
  else (0, 0)

/-- The other bytes of a character, from `i` on; no result when one of them belongs to none. -/
def utfTail (buf : Int → UInt8) (c : Nat) : Nat → Nat → Nat → Option Nat × List Int
  | 0, _, ucs => (some ucs, [])
  | n + 1, i, ucs =>
      if buf (c + i : Nat) &&& 0xC0 ≠ 0x80 then (none, [((c + i : Nat) : Int)])
      else
        let r := utfTail buf c n (i + 1) (ucs <<< 6 ||| (buf (c + i : Nat) &&& 0x3F).toNat)
        (r.1, ((c + i : Nat) : Int) :: r.2)

def utfBoundaries : List Nat := [0x0, 0x0, 0x07F, 0x7FF, 0xFFFF, 0x1FFFFF, 0x3FFFFFF]

/-- `isUTF8` of the character at `c`, with `size` bytes left. -/
def isUTF8 (buf : Int → UInt8) (c size : Nat) : Int × List Int :=
  if textChars (buf c) = 1 then (1, [(c : Int)])
  else if (utfLead (buf c)).2 = 0 then (0, [(c : Int)])
  else
    let rSize := (utfLead (buf c)).2
    match utfTail buf c (min rSize size - 1) 1 (utfLead (buf c)).1 with
    | (none, reads) => (0, (c : Int) :: reads)
    | (some ucs, reads) =>
        (if size < rSize then -1
          else if ucs ≤ utfBoundaries.getD rSize 0 then 0
          else if (0xd800 ≤ ucs ∧ ucs ≤ 0xdfff) ∨ ucs = 0xfffe ∨ ucs = 0xffff then 0
          else rSize, (c : Int) :: reads)

/-- The variables of the first loop of `check_unicode`. -/
structure Utf8State where
  i : Nat
  ret : Int
  reads : List Int

def utf8Pass (buf : Int → UInt8) (buflen : Nat) (s : Utf8State) : Step Utf8State Utf8State :=
  if s.i < buflen then
    let r := isUTF8 buf s.i (buflen - s.i)
    if r.1 ≤ 0 then .done ⟨s.i, r.1, s.reads ++ r.2⟩ else .next ⟨s.i + r.1.toNat, r.1, s.reads ++ r.2⟩
  else .done s

/-- A byte that is ASCII but no text. -/
def noText (c : UInt8) : Bool := c < 128 && textChars c != 1

/-- The check of a pair, and what it reads of it: the low byte only behind a high byte that is zero. -/
def utf16Pair (buf : Int → UInt8) (endian : Bool) (i : Nat) : Bool × List Int :=
  let high : Int := if endian then i else i + 1
  let low : Int := if endian then i + 1 else i
  if buf high = 0 then (noText (buf low), [high, low]) else (false, [high])

/-- A pass of the second loop of `check_unicode`; a counter that overflows gives no result. -/
def utf16Pass (buf : Int → UInt8) (buflen : Nat) (endian : Bool) (s : Nat × List Int) :
    Step (Nat × List Int) (Option (Int × List Int)) :=
  if s.1 < buflen then
    let pair := utf16Pair buf endian s.1
    if pair.1 then .done (some (-1, s.2 ++ pair.2))
    else if intMax < s.1 + 2 then .done none
    else .next (s.1 + 2, s.2 ++ pair.2)
  else .done (some (3, s.2))

/-- The byte order that the first two bytes give. -/
def byteOrder (buf : Int → UInt8) : Option Bool :=
  if buf 0 = 0xff ∧ buf 1 = 0xfe then some false
  else if buf 0 = 0xfe ∧ buf 1 = 0xff then some true
  else none

def byteOrderReads (buf : Int → UInt8) : List Int := if buf 0 = 0xff ∨ buf 0 = 0xfe then [0, 1] else [0]

/-- `check_unicode`, with at most `fuel` passes of each loop. -/
def checkUnicode (buf : Int → UInt8) (buflen fuel : Nat) : Option (Int × List Int) :=
  (run (utf8Pass buf buflen) fuel ⟨0, 0, []⟩).bind fun s =>
    if s.ret ≠ 0 ∧ ¬(s.ret < 0 ∧ s.i = 0) then some (3, s.reads)
    else if buflen < 2 then some (-1, s.reads)
    else
      match byteOrder buf with
      | none => some (-1, s.reads ++ byteOrderReads buf)
      | some endian => (run (utf16Pass buf buflen endian) fuel (2, s.reads ++ byteOrderReads buf)).join

/-- What `ci_filetype` returns, and what it has inspected. -/
structure FiletypeOut where
  ret : Int
  reads : List Int

/-- `ci_filetype`, with at most `fuel` passes of each loop of `check_unicode`. -/
def ciFiletype (db : MagicsDb) (buf : Int → UInt8) (buflen fuel : Nat) : Option FiletypeOut :=
  let magics := checkMagics buf buflen db.magics
  let text := checkAscii buf buflen
  if 0 ≤ magics.1 then some ⟨magics.1, magics.2⟩
  else if 0 ≤ text.1 then some ⟨text.1, magics.2 ++ text.2⟩
  else (checkUnicode buf buflen fuel).map fun r => ⟨if 0 ≤ r.1 then 3 else 5, magics.2 ++ text.2 ++ r.2⟩

/-! ### What lies inside -/

/-- Only bytes of the buffer are inspected. -/
def Inside (buflen : Nat) (reads : List Int) : Prop := ∀ j ∈ reads, 0 ≤ j ∧ j < buflen

theorem Inside.append {buflen : Nat} {first second : List Int} (inside : Inside buflen first)
    (inside' : Inside buflen second) : Inside buflen (first ++ second) := by
  intro j member
  rcases List.mem_append.mp member with old | new
  · exact inside j old
  · exact inside' j new

theorem Inside.cons {buflen : Nat} {j : Int} {reads : List Int} (here : 0 ≤ j ∧ j < buflen)
    (inside : Inside buflen reads) : Inside buflen (j :: reads) := by
  intro k member
  rcases List.mem_cons.mp member with rfl | later
  · exact here
  · exact inside k later

theorem inside_nil (buflen : Nat) : Inside buflen [] := fun _ member => absurd member List.not_mem_nil

/-- The record lies in the buffer. -/
def magicInside (m : CiMagic) (buflen : Nat) : Bool := decide (0 ≤ m.offset ∧ m.offset + m.magic.length ≤ buflen)

/-- It starts in front of the buffer and ends in it. -/
def magicInFront (m : CiMagic) (buflen : Nat) : Bool :=
  decide (m.offset < 0 ∧ 0 ≤ m.offset + m.magic.length ∧ m.offset + m.magic.length ≤ buflen)

/-- The record fits the buffer and matches it. -/
def magicMatches (buf : Int → UInt8) (buflen : Nat) (m : CiMagic) : Bool := magicInside m buflen && magicEqual buf m

/-- No record that starts in front of the buffer comes before the first match. -/
def noneInFront (buf : Int → UInt8) (buflen : Nat) : List CiMagic → Bool
  | [] => true
  | m :: magics => !magicInFront m buflen && (magicMatches buf buflen m || noneInFront buf buflen magics)

variable {buf : Int → UInt8} {buflen : Nat}

theorem magicFits_eq (m : CiMagic) (small : buflen ≤ intMax) :
    magicFits m buflen = (magicInside m buflen || magicInFront m buflen) := by
  have low := m.low
  have high := m.high
  have short := m.short
  rw [magicFits, magicInside, magicInFront, Bool.eq_iff_iff]
  simp only [intMax, magicSize, Bool.or_eq_true, decide_eq_true_eq] at *
  omega

theorem magicReads_inside {m : CiMagic} (inside : magicInside m buflen = true) : Inside buflen (magicReads m) := by
  rw [magicInside, decide_eq_true_eq] at inside
  intro j member
  obtain ⟨k, below, rfl⟩ := List.mem_map.mp member
  have bound := List.mem_range.mp below
  omega

theorem magicReads_front {m : CiMagic} (front : magicInFront m buflen = true) : ∃ j ∈ magicReads m, j < 0 := by
  rw [magicInFront, decide_eq_true_eq] at front
  exact ⟨m.offset, List.mem_map.mpr ⟨0, List.mem_range.mpr (by omega), by omega⟩, front.1⟩

/-- With no record in front, the first match is found. -/
theorem checkMagics_spec (magics : List CiMagic) (small : buflen ≤ intMax)
    (none : noneInFront buf buflen magics = true) :
    (checkMagics buf buflen magics).1 = ((magics.find? (magicMatches buf buflen)).map fun m => (m.type : Int)).getD (-1) ∧
      Inside buflen (checkMagics buf buflen magics).2 := by
  induction magics with
  | nil => exact ⟨rfl, inside_nil buflen⟩
  | cons m magics ih =>
      rw [noneInFront, Bool.and_eq_true, Bool.not_eq_true', Bool.or_eq_true] at none
      obtain ⟨front, others⟩ := none
      rw [checkMagics, magicFits_eq m small, front, Bool.or_false]
      by_cases inside : magicInside m buflen = true
      · rw [if_pos inside]
        by_cases equal : magicEqual buf m = true
        · rw [if_pos equal, List.find?_cons_of_pos (by rw [magicMatches, inside, equal]; rfl)]
          exact ⟨rfl, magicReads_inside inside⟩
        · have other : ¬magicMatches buf buflen m = true := by
            rw [magicMatches, Bool.and_eq_true]
            exact fun both => equal both.2
          obtain ⟨value, reads⟩ := ih (others.resolve_left other)
          rw [if_neg equal, List.find?_cons_of_neg other]
          exact ⟨value, (magicReads_inside inside).append reads⟩
      · have other : ¬magicMatches buf buflen m = true := by
          rw [magicMatches, Bool.and_eq_true]
          exact fun both => inside both.1
        rw [if_neg inside, List.find?_cons_of_neg other]
        exact ih (others.resolve_left other)

/-- A record in front is inspected there. -/
theorem checkMagics_front (magics : List CiMagic) (small : buflen ≤ intMax)
    (some : noneInFront buf buflen magics = false) : ∃ j ∈ (checkMagics buf buflen magics).2, j < 0 := by
  induction magics with
  | nil => cases some
  | cons m magics ih =>
      rw [checkMagics, magicFits_eq m small]
      cases front : magicInFront m buflen with
      | true =>
          obtain ⟨j, member, negative⟩ := magicReads_front front
          rw [if_pos (Bool.or_true _)]
          split
          · exact ⟨j, member, negative⟩
          · exact ⟨j, List.mem_append_left _ member, negative⟩
      | false =>
          rw [noneInFront, front, Bool.not_false, Bool.true_and, Bool.or_eq_false_iff] at some
          obtain ⟨other, others⟩ := some
          obtain ⟨j, member, negative⟩ := ih others
          rw [Bool.or_false]
          split
          · rename_i inside
            rw [magicMatches, inside, Bool.true_and] at other
            rw [other]
            exact ⟨j, List.mem_append_right _ member, negative⟩
          · exact ⟨j, member, negative⟩

/-! ### Text -/

theorem checkAsciiLoop_spec (buf : Int → UInt8) (n i res : Nat) (inside : i + n ≤ buflen) :
    Inside buflen (checkAsciiLoop buf i res n).2 ∧ (checkAsciiLoop buf i res n).1 ∈ [-1, 0, 1, 2] ∧
      ((checkAsciiLoop buf i res n).1 < 0 ↔ ∃ j, i ≤ j ∧ j < i + n ∧ textChars (buf (j : Nat)) = 0) := by
  induction n generalizing i res with
  | zero =>
      refine ⟨inside_nil buflen, ?_, ?_⟩
      · rw [checkAsciiLoop]
        split
        · decide
        · split <;> decide
      · constructor
        · intro negative
          rw [checkAsciiLoop] at negative
          split at negative
          · cases negative
          · split at negative <;> cases negative
        · rintro ⟨j, low, high, -⟩
          omega
  | succ n ih =>
      rw [checkAsciiLoop]
      by_cases here : textChars (buf i) = 0
      · rw [if_pos here]
        refine ⟨(inside_nil buflen).cons (by omega), List.mem_cons_self, ?_⟩
        exact ⟨fun _ => ⟨i, Nat.le_refl i, by omega, here⟩, fun _ => (by decide : (-1 : Int) < 0)⟩
      · rw [if_neg here]
        obtain ⟨reads, value, negative⟩ := ih (i + 1) (res ||| textChars (buf i)) (by omega)
        refine ⟨reads.cons (by omega), value, negative.trans ⟨?_, ?_⟩⟩
        · rintro ⟨j, low, high, zero⟩
          exact ⟨j, by omega, by omega, zero⟩
        · rintro ⟨j, low, high, zero⟩
          have later : j ≠ i := by
            rintro rfl
            exact here zero
          exact ⟨j, by omega, by omega, zero⟩

/-- `check_ascii` fails on a byte that appears in no text. -/
theorem checkAscii_spec (buf : Int → UInt8) (buflen : Nat) :
    Inside buflen (checkAscii buf buflen).2 ∧ (checkAscii buf buflen).1 ∈ [-1, 0, 1, 2] ∧
      ((checkAscii buf buflen).1 < 0 ↔ ∃ j < buflen, textChars (buf (j : Nat)) = 0) := by
  obtain ⟨reads, value, negative⟩ := checkAsciiLoop_spec buf buflen 0 0 (Nat.le_of_eq (Nat.zero_add _))
  refine ⟨reads, value, negative.trans ⟨?_, ?_⟩⟩
  · rintro ⟨j, -, high, zero⟩
    exact ⟨j, by omega, zero⟩
  · rintro ⟨j, high, zero⟩
    exact ⟨j, Nat.zero_le j, by omega, zero⟩

/-! ### The first loop -/

theorem utfTail_inside (buf : Int → UInt8) (c n i ucs : Nat) (inside : c + i + n ≤ buflen) :
    Inside buflen (utfTail buf c n i ucs).2 := by
  induction n generalizing i ucs with
  | zero => exact inside_nil buflen
  | succ n ih =>
      rw [utfTail]
      split
      · exact (inside_nil buflen).cons (by omega)
      · exact (ih (i + 1) _ (by omega)).cons (by omega)

/-- A character is no longer than what is left of the buffer. -/
theorem isUTF8_spec (buf : Int → UInt8) {c : Nat} (inside : c < buflen) :
    Inside buflen (isUTF8 buf c (buflen - c)).2 ∧ (isUTF8 buf c (buflen - c)).1 ≤ (buflen - c : Nat) := by
  have here : (0 : Int) ≤ c ∧ (c : Int) < buflen := by omega
  have reads := utfTail_inside buf c (min (utfLead (buf c)).2 (buflen - c) - 1) 1 (utfLead (buf c)).1
    (show _ ≤ buflen by omega)
  rw [isUTF8]
  by_cases ascii : textChars (buf c) = 1
  · rw [if_pos ascii]
    exact ⟨(inside_nil buflen).cons here, by show (1 : Int) ≤ _; omega⟩
  · rw [if_neg ascii]
    by_cases none : (utfLead (buf c)).2 = 0
    · rw [if_pos none]
      exact ⟨(inside_nil buflen).cons here, by show (0 : Int) ≤ _; omega⟩
    · rw [if_neg none]
      dsimp only
      generalize utfTail buf c (min (utfLead (buf c)).2 (buflen - c) - 1) 1 (utfLead (buf c)).1 = tail at reads
      match tail with
      | (Option.none, others) => exact ⟨reads.cons here, by show (0 : Int) ≤ _; omega⟩
      | (some ucs, others) =>
          refine ⟨reads.cons here, ?_⟩
          dsimp only
          split
          · omega
          · split
            · omega
            · split <;> omega

/-- The first loop ends, and inspects the buffer only. -/
theorem utf8_run (buf : Int → UInt8) (buflen : Nat) :
    ∃ s, run (utf8Pass buf buflen) (buflen + 1) ⟨0, 0, []⟩ = some s ∧ Inside buflen s.reads :=
  run_spec (utf8Pass buf buflen) (fun s => buflen - s.i) (fun s => Inside buflen s.reads) (fun s => Inside buflen s.reads)
    (by
      intro s inside
      unfold utf8Pass
      by_cases more : s.i < buflen
      · obtain ⟨reads, size⟩ := isUTF8_spec buf more
        rw [if_pos more]
        dsimp only
        by_cases ends : (isUTF8 buf s.i (buflen - s.i)).1 ≤ 0
        · rw [if_pos ends]
          exact .inr ⟨_, rfl, inside.append reads⟩
        · rw [if_neg ends]
          exact .inl ⟨_, rfl, inside.append reads, by dsimp only; omega⟩
      · rw [if_neg more]
        exact .inr ⟨s, rfl, inside⟩)
    (buflen + 1) ⟨0, 0, []⟩ (inside_nil buflen) (by dsimp only; omega)

/-! ### The second loop -/

/-- No pair that lies in the buffer is a control character. -/
def PairsPlain (buf : Int → UInt8) (buflen : Nat) (endian : Bool) : Prop :=
  ∀ k, 2 * k + 3 < buflen → (utf16Pair buf endian (2 * k + 2)).1 = false

/-- The pairs reach a last byte that stands alone, and the byte behind it is the next one to look at. -/
def ReadsBehind (buf : Int → UInt8) (buflen : Nat) (endian : Bool) : Prop :=
  buflen % 2 = 1 ∧ 3 ≤ buflen ∧ PairsPlain buf buflen endian ∧
    (endian = false ∨ buf (buflen - 1 : Nat) = 0 ∨ buflen = intMax)

/-- Where the second loop stands. -/
structure Pairs (buf : Int → UInt8) (buflen : Nat) (endian : Bool) (s : Nat × List Int) : Prop where
  reads : Inside buflen s.2
  even : s.1 % 2 = 0
  start : 2 ≤ s.1
  plain : ∀ k, 2 * k + 2 < s.1 → 2 * k + 3 < buflen → (utf16Pair buf endian (2 * k + 2)).1 = false

theorem utf16Pair_little (buf : Int → UInt8) (i : Nat) :
    utf16Pair buf false i = if buf (i + 1) = 0 then (noText (buf i), [(i : Int) + 1, (i : Int)]) else (false, [(i : Int) + 1]) :=
  rfl

theorem utf16Pair_big (buf : Int → UInt8) (i : Nat) :
    utf16Pair buf true i = if buf i = 0 then (noText (buf (i + 1)), [(i : Int), (i : Int) + 1]) else (false, [(i : Int)]) :=
  rfl

theorem utf16Pair_inside {endian : Bool} {i : Nat} (inside : i + 1 < buflen) :
    Inside buflen (utf16Pair buf endian i).2 := by
  have first : (0 : Int) ≤ i ∧ (i : Int) < buflen := by omega
  have second : (0 : Int) ≤ i + 1 ∧ (i : Int) + 1 < buflen := by omega
  cases endian with
  | false =>
      rw [utf16Pair_little]
      split
      · exact ((inside_nil buflen).cons first).cons second
      · exact (inside_nil buflen).cons second
  | true =>
      rw [utf16Pair_big]
      split
      · exact ((inside_nil buflen).cons second).cons first
      · exact (inside_nil buflen).cons first

/-- The last byte is looked at alone when it is no zero and is the high one. -/
theorem utf16Pair_last {i : Nat} (other : buf i ≠ 0) : utf16Pair buf true i = (false, [(i : Int)]) :=
  if_neg other

variable {endian : Bool} {s : Nat × List Int}

theorem Pairs.pass (pairs : Pairs buf buflen endian s) (small : buflen ≤ intMax)
    (fine : ¬ReadsBehind buf buflen endian) :
    (∃ t, utf16Pass buf buflen endian s = .next t ∧ Pairs buf buflen endian t ∧ buflen - t.1 < buflen - s.1) ∨
      ∃ r, utf16Pass buf buflen endian s = .done (some r) ∧ r.1 ∈ [-1, 3] ∧ Inside buflen r.2 := by
  obtain ⟨reads, even, start, plain⟩ := pairs
  by_cases more : s.1 < buflen
  · have pair : Inside buflen (utf16Pair buf endian s.1).2 ∧
        ((utf16Pair buf endian s.1).1 = false → s.1 + 2 ≤ intMax) := by
      by_cases both : s.1 + 1 < buflen
      · exact ⟨utf16Pair_inside both, fun _ => by omega⟩
      · have last : s.1 = buflen - 1 := by omega
        have odd : buflen % 2 = 1 := by omega
        have plain' : PairsPlain buf buflen endian := fun k inside => plain k (by omega) inside
        have other : ¬(endian = false ∨ buf (buflen - 1 : Nat) = 0 ∨ buflen = intMax) :=
          fun behind => fine ⟨odd, by omega, plain', behind⟩
        rw [not_or, not_or, Bool.not_eq_false] at other
        obtain ⟨rfl, some, below⟩ := other
        rw [last, utf16Pair_last some]
        exact ⟨(inside_nil buflen).cons (by omega), fun _ => by omega⟩
    obtain ⟨inside, fits⟩ := pair
    rw [utf16Pass, if_pos more]
    dsimp only
    cases bad : (utf16Pair buf endian s.1).1 with
    | true => exact .inr ⟨_, rfl, List.mem_cons_self, reads.append inside⟩
    | false =>
        have room := fits bad
        rw [if_neg (by decide), if_neg (by omega)]
        refine .inl ⟨_, rfl, ⟨reads.append inside, by dsimp only; omega, by dsimp only; omega, ?_⟩, by dsimp only; omega⟩
        intro k below inside'
        by_cases before : 2 * k + 2 < s.1
        · exact plain k before inside'
        · rw [show 2 * k + 2 = s.1 by dsimp only at below; omega]
          exact bad
  · exact .inr ⟨_, if_neg more, List.mem_cons_of_mem _ List.mem_cons_self, reads⟩

/-- The second loop ends inside the buffer unless it reads behind a last byte. -/
theorem utf16_run {reads : List Int} (inside : Inside buflen reads) (small : buflen ≤ intMax)
    (fine : ¬ReadsBehind buf buflen endian) :
    ∃ r, run (utf16Pass buf buflen endian) (buflen + 1) (2, reads) = some (some r) ∧ r.1 ∈ [-1, 3] ∧
      Inside buflen r.2 := by
  obtain ⟨out, ran, r, rfl, post⟩ := run_spec (utf16Pass buf buflen endian) (fun s => buflen - s.1)
    (Pairs buf buflen endian) (fun out => ∃ r, out = some r ∧ r.1 ∈ [-1, 3] ∧ Inside buflen r.2)
    (by
      intro s pairs
      rcases pairs.pass small fine with next | ⟨r, done, post⟩
      · exact .inl next
      · exact .inr ⟨some r, done, r, rfl, post⟩)
    (buflen + 1) (2, reads) ⟨inside, Nat.mod_self 2, Nat.le_refl 2, fun k low => by dsimp only at low; omega⟩
    (by dsimp only; omega)
  exact ⟨r, ran, post⟩

/-- A result of the loop has looked behind the buffer. -/
theorem utf16_behind {reads : List Int} {fuel : Nat} {r : Int × List Int} (behind : ReadsBehind buf buflen endian)
    (ran : run (utf16Pass buf buflen endian) fuel (2, reads) = some (some r)) : (buflen : Int) ∈ r.2 := by
  obtain ⟨odd, long, plain, last⟩ := behind
  refine run_post (utf16Pass buf buflen endian)
    (fun s => (s.1 % 2 = 0 ∧ 2 ≤ s.1 ∧ s.1 < buflen) ∨ (buflen : Int) ∈ s.2)
    (fun out => ∀ r, out = some r → (buflen : Int) ∈ r.2) ?_ fuel (2, reads) _
    (.inl ⟨Nat.mod_self 2, Nat.le_refl 2, by dsimp only; omega⟩) ran r rfl
  rintro s (⟨even, start, more⟩ | member)
  · rw [utf16Pass, if_pos more]
    dsimp only
    by_cases both : s.1 + 1 < buflen
    · obtain ⟨k, place⟩ : ∃ k, s.1 = 2 * k + 2 := ⟨(s.1 - 2) / 2, by omega⟩
      rw [place, plain k (by omega), if_neg (by decide)]
      split
      · exact fun r none => absurd none (by simp)
      · exact .inl ⟨by dsimp only; omega, by dsimp only; omega, by dsimp only; omega⟩
    · have here : s.1 + 1 = buflen := by omega
      have looked : (buflen : Int) ∈ (utf16Pair buf endian s.1).2 ∨
          (utf16Pair buf endian s.1).1 = false ∧ buflen = intMax := by
        have behind : (buflen : Int) = s.1 + 1 := by omega
        cases endian with
        | false =>
            refine .inl ?_
            rw [utf16Pair_little, behind]
            split <;> exact List.mem_cons_self
        | true =>
            rw [utf16Pair_big, behind]
            split
            · exact .inl (List.mem_cons_of_mem _ List.mem_cons_self)
            · rename_i other
              rw [show (buflen - 1 : Nat) = s.1 by omega] at last
              exact .inr ⟨rfl, (last.resolve_left (by decide)).resolve_left other⟩
      split
      · rename_i bad
        rintro r ⟨⟩
        rcases looked with member | ⟨good, -⟩
        · exact List.mem_append_right _ member
        · rw [good] at bad
          cases bad
      · split
        · exact fun r none => absurd none (by simp)
        · rcases looked with member | ⟨-, large⟩
          · exact .inr (List.mem_append_right _ member)
          · omega
  · unfold utf16Pass
    split
    · dsimp only
      split
      · rintro r ⟨⟩
        exact List.mem_append_left _ member
      · split
        · exact fun r none => absurd none (by simp)
        · exact .inr (List.mem_append_left _ member)
    · rintro r ⟨⟩
      exact member

/-! ### The buffer as a whole -/

/-- The numbers of `CI_ASCII_DATA`, `CI_ISO8859_DATA`, `CI_XASCII_DATA`, `CI_UTF_DATA` and `CI_BIN_DATA`. -/
def textOrBinary : List Int := [0, 1, 2, 3, 5]

/-- Only the buffer is inspected, and the first record that fits and matches gives the type; without one the buffer
is text or binary. -/
def FiletypeSafe (db : MagicsDb) (buf : Int → UInt8) (buflen : Nat) : Prop :=
  ∃ fuel out, ciFiletype db buf buflen fuel = some out ∧ Inside buflen out.reads ∧
    match db.magics.find? (magicMatches buf buflen) with
    | some m => out.ret = m.type
    | none => out.ret ∈ textOrBinary

/-- The buffer has no type and is no ASCII text, starts with the mark of UTF-16, and its last byte stands alone. -/
def Utf16Behind (db : MagicsDb) (buf : Int → UInt8) (buflen : Nat) : Prop :=
  db.magics.find? (magicMatches buf buflen) = none ∧ (∃ j < buflen, textChars (buf (j : Nat)) = 0) ∧
    ∃ endian, byteOrder buf = some endian ∧ ReadsBehind buf buflen endian

theorem byteOrder_first (order : byteOrder buf = some endian) : buf 0 = 0xff ∨ buf 0 = 0xfe := by
  rw [byteOrder] at order
  split at order
  · rename_i little
    exact .inl little.1
  · split at order
    · rename_i big
      exact .inr big.1
    · cases order

/-- The mark of UTF-16 is not UTF-8. -/
theorem utf8_mark {fuel : Nat} {s : Utf8State} (order : byteOrder buf = some endian) (some : 0 < buflen)
    (ran : run (utf8Pass buf buflen) fuel ⟨0, 0, []⟩ = Option.some s) : s.ret = 0 := by
  have none : isUTF8 buf 0 (buflen - 0) = (0, [((0 : Nat) : Int)]) := by
    have other : textChars (buf (0 : Nat)) ≠ 1 ∧ (utfLead (buf (0 : Nat))).2 = 0 := by
      rcases byteOrder_first order with mark | mark <;> rw [Int.natCast_zero, mark] <;> decide
    rw [isUTF8, if_neg other.1, if_pos other.2]
  have pass : utf8Pass buf buflen ⟨0, 0, []⟩ = .done ⟨0, 0, [] ++ [((0 : Nat) : Int)]⟩ := by
    rw [utf8Pass, if_pos some]
    dsimp only
    rw [none]
    rfl
  cases fuel with
  | zero => cases ran
  | succ fuel =>
      rw [run_done fuel pass] at ran
      cases ran
      rfl

/-- `check_unicode` ends, and inspects the buffer only, unless the second loop reads behind it. -/
theorem checkUnicode_run (small : buflen ≤ intMax)
    (fine : ∀ endian, byteOrder buf = some endian → ¬ReadsBehind buf buflen endian) :
    ∃ r, checkUnicode buf buflen (buflen + 1) = some r ∧ Inside buflen r.2 := by
  obtain ⟨s, ran, inside⟩ := utf8_run buf buflen
  rw [checkUnicode, ran, Option.bind_some]
  split
  · exact ⟨_, rfl, inside⟩
  · split
    · exact ⟨_, rfl, inside⟩
    · rename_i long
      have order : Inside buflen (byteOrderReads buf) := by
        rw [byteOrderReads]
        split
        · exact ((inside_nil buflen).cons (by omega)).cons (by omega)
        · exact (inside_nil buflen).cons (by omega)
      cases way : byteOrder buf with
      | none => exact ⟨_, rfl, inside.append order⟩
      | some endian =>
          obtain ⟨r, looped, -, reads⟩ := utf16_run (inside.append order) small (fine endian way)
          exact ⟨r, by dsimp only; rw [looped]; rfl, reads⟩

/-- A result of `check_unicode` has looked behind the buffer when the second loop does. -/
theorem checkUnicode_behind {fuel : Nat} {r : Int × List Int} (order : byteOrder buf = some endian)
    (behind : ReadsBehind buf buflen endian) (ran : checkUnicode buf buflen fuel = some r) : (buflen : Int) ∈ r.2 := by
  have long := behind.2.1
  obtain ⟨s, first, rest⟩ := Option.bind_eq_some_iff.mp ran
  rw [utf8_mark order (by omega) first, if_neg (fun goes => goes.1 rfl), if_neg (by omega), order] at rest
  exact utf16_behind behind (Option.join_eq_some_iff.mp rest)

section

variable {db : MagicsDb} (small : buflen ≤ intMax)

include small

/-- What `check_magics` has inspected is inspected by `ci_filetype`. -/
theorem FiletypeSafe.noneInFront (safe : FiletypeSafe db buf buflen) : noneInFront buf buflen db.magics = true := by
  obtain ⟨fuel, out, ran, inside, -⟩ := safe
  by_contra other
  obtain ⟨j, member, negative⟩ := checkMagics_front db.magics small (eq_false_of_ne_true other)
  have read : j ∈ out.reads := by
    rw [ciFiletype] at ran
    split at ran
    · cases ran
      exact member
    · split at ran
      · cases ran
        exact List.mem_append_left _ member
      · obtain ⟨r, -, rfl⟩ := Option.map_eq_some_iff.mp ran
        exact List.mem_append_left _ (List.mem_append_left _ member)
  exact absurd (inside j read).1 (Int.not_le.mpr negative)

theorem FiletypeSafe.notBehind (safe : FiletypeSafe db buf buflen) : ¬Utf16Behind db buf buflen := by
  rintro ⟨none, noText, endian, order, behind⟩
  obtain ⟨value, -⟩ := checkMagics_spec db.magics small (safe.noneInFront small)
  obtain ⟨fuel, out, ran, inside, -⟩ := safe
  rw [none] at value
  rw [ciFiletype, value, if_neg (by decide), if_neg (Int.not_le.mpr ((checkAscii_spec buf buflen).2.2.mpr noText))] at ran
  obtain ⟨r, unicode, rfl⟩ := Option.map_eq_some_iff.mp ran
  have bound := (inside buflen (List.mem_append_right _ (checkUnicode_behind order behind unicode))).2
  omega

theorem filetype_safe (front : IcapService.noneInFront buf buflen db.magics = true)
    (fine : ¬Utf16Behind db buf buflen) : FiletypeSafe db buf buflen := by
  obtain ⟨textReads, textValue, textFails⟩ := checkAscii_spec buf buflen
  obtain ⟨value, magicReads⟩ := checkMagics_spec db.magics small front
  cases found : db.magics.find? (magicMatches buf buflen) with
  | some m =>
      rw [found] at value
      refine ⟨0, ⟨(checkMagics buf buflen db.magics).1, (checkMagics buf buflen db.magics).2⟩, ?_, magicReads, ?_⟩
      · rw [ciFiletype, if_pos (by rw [value]; exact Int.natCast_nonneg _)]
      · rw [found]
        exact value
  | none =>
      rw [found] at value
      have other : ¬0 ≤ (checkMagics buf buflen db.magics).1 := by
        rw [value]
        decide
      by_cases text : 0 ≤ (checkAscii buf buflen).1
      · refine ⟨0, ⟨(checkAscii buf buflen).1, _⟩, ?_, magicReads.append textReads, ?_⟩
        · rw [ciFiletype, if_neg other, if_pos text]
        · rw [found]
          simp only [List.mem_cons, List.not_mem_nil, or_false, textOrBinary] at textValue ⊢
          omega
      · have noText := textFails.mp (Int.not_le.mp text)
        obtain ⟨r, ran, reads⟩ := checkUnicode_run small
          (fun endian order behind => fine ⟨found, noText, endian, order, behind⟩)
        refine ⟨buflen + 1, ⟨if 0 ≤ r.1 then 3 else 5, _⟩, ?_, (magicReads.append textReads).append reads, ?_⟩
        · rw [ciFiletype, if_neg other, if_neg text, ran]
          rfl
        · rw [found]
          show (if 0 ≤ r.1 then (3 : Int) else 5) ∈ textOrBinary
          split <;> decide

end

/-- A database of any file: `ci_filetype` is safe if and only if no record in front of the buffer is tried and the
pairs of UTF-16 do not go behind it. -/
theorem filetype_safe_iff (lines : List Bytes) (buf : Int → UInt8) (buflen : Nat) (small : buflen ≤ intMax) :
    FiletypeSafe (MagicsDb.build lines) buf buflen ↔
      noneInFront buf buflen (MagicsDb.build lines).magics = true ∧ ¬Utf16Behind (MagicsDb.build lines) buf buflen :=
  ⟨fun safe => ⟨safe.noneInFront small, safe.notBehind small⟩, fun fine => filetype_safe small fine.1 fine.2⟩

/-- The start of a program, and the record for it. -/
theorem filetype_safe_iff_program :
    FiletypeSafe (MagicsDb.build [ascii "0:MZ:MSEXE:DOS program:DATA\n"]) (fun i => if i = 0 then 77 else 90) 2 :=
  (filetype_safe_iff [ascii "0:MZ:MSEXE:DOS program:DATA\n"] (fun i => if i = 0 then 77 else 90) 2 (by decide)).mpr
    ⟨by decide +kernel, fun behind => absurd behind.2.2.choose_spec.1 (by simp [byteOrder])⟩

/-- The mark of UTF-16 and a byte that stands alone. -/
def oddUtf16 (i : Int) : UInt8 := if i = 0 then 0xff else if i = 1 then 0xfe else 0

/-- A record in front of the buffer, and UTF-16 of three bytes. -/
theorem filetype_reads_outside :
    ¬FiletypeSafe (MagicsDb.build [ascii "-1:ab:X:in front:DATA\n"]) (fun _ => 122) 1 ∧
      ¬FiletypeSafe (MagicsDb.build []) oddUtf16 3 := by
  constructor
  · exact fun safe => absurd (safe.noneInFront (by decide)) (by decide +kernel)
  · refine fun safe => safe.notBehind (by decide) ⟨rfl, ⟨2, by decide, by decide⟩, false, by decide, rfl, by decide, ?_, .inl rfl⟩
    intro k inside
    omega

end IcapService
