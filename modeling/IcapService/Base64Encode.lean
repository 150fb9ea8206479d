import Mathlib.Tactic.IntervalCases
import IcapService.Base64
import IcapService.Lib.Machine

/-! The base64 encoder of `decode.c`, and the way back through the decoder.

The lengths are of type `size_t`, and a difference below zero wraps; the two counters are of type `int`, and an
encoding that overflows one has no result. -/

namespace IcapService

open CInt CString Machine

/-- The alphabet of `ci_base64_encode`. -/
def base64Alphabet : Bytes := ascii "ABCDEFGHIJKLMNOPQRSTUVWXYZabcdefghijklmnopqrstuvwxyz0123456789+/"

/-- `base64_set[v & 0x3F]` -/
def base64Set (v : UInt8) : UInt8 := at0 base64Alphabet (v &&& 0x3F).toNat

/-- `dobase64`: the four characters of three bytes. -/
def doBase64 (b0 b1 b2 : UInt8) : Bytes :=
  [base64Set (b0 >>> 2), base64Set ((b0 <<< 4) ||| (b1 >>> 4)), base64Set ((b1 <<< 2) ||| (b2 >>> 6)), base64Set b2]

/-- A difference of type `size_t`. -/
def sizeSub (a b : Nat) : Nat := if b ≤ a then a - b else a + 18446744073709551616 - b

/-- `i`, the characters written so far, of which there are `k`, and the indices of `data` that were read. -/
structure Base64State where
  i : Nat
  text : Bytes
  reads : List Nat

namespace Base64State

/-- The characters of three bytes are written behind the others. -/
def write (s : Base64State) (b0 b1 b2 : UInt8) (reads : List Nat) : Option Base64State :=
  if intMax < s.text.length + 4 then none
  else some ⟨s.i + 3, s.text ++ doBase64 b0 b1 b2, s.reads ++ reads⟩

end Base64State

/-- A pass of the loop of `ci_base64_encode`. -/
def base64Pass (data : Nat → UInt8) (len outlen : Nat) (s : Base64State) : Step Base64State (Option Base64State) :=
  if s.i < sizeSub len 3 ∧ s.text.length < sizeSub outlen 4 then
    match s.write (data s.i) (data (s.i + 1)) (data (s.i + 2)) [s.i, s.i + 1, s.i + 2] with
    | none => .done none
    | some t => .next t
  else .done (some s)

/-- The last group, when there is room for it; bytes that are missing count as zero. -/
def base64Rest (data : Nat → UInt8) (len outlen : Nat) (s : Base64State) : Option Base64State :=
  if s.text.length < sizeSub outlen 4 ∧ s.i < len then
    s.write (data s.i) (if s.i + 1 < len then data (s.i + 1) else 0) (if s.i + 2 < len then data (s.i + 2) else 0)
      ([s.i, s.i + 1, s.i + 2].filter (· < len))
  else some s

/-- What `ci_base64_encode` returns, what it leaves in `out`, and what it has read. -/
structure Base64Encoded where
  ret : Nat
  out : Bytes
  reads : List Nat

/-- `ci_base64_encode`, with at most `fuel` passes of its loop. -/
def ciBase64Encode (data : Nat → UInt8) (len : Nat) (out : Bytes) (outlen fuel : Nat) : Option Base64Encoded :=
  (run (base64Pass data len outlen) fuel ⟨0, [], []⟩).bind fun looped =>
    (looped.bind (base64Rest data len outlen)).map fun s =>
      ⟨s.text.length, poke out 0 (s.text ++ [0]), s.reads⟩

/-! ### The groups -/

theorem base64Alphabet_table : ∀ n < 64, base64Table (at0 base64Alphabet n) = UInt8.ofNat n := by
  decide +kernel

theorem base64Table_set (v : UInt8) : base64Table (base64Set v) = v &&& 0x3F := by
  have small : (v &&& 0x3F).toNat < 64 := by
    rw [UInt8.toNat_and]
    exact Nat.lt_of_le_of_lt Nat.and_le_right (by decide)
  rw [base64Set, base64Alphabet_table _ small, UInt8.ofNat_toNat]

theorem base64_first (a b : UInt8) :
    ((a >>> 2) &&& 0x3F) <<< 2 ||| (((a <<< 4) ||| (b >>> 4)) &&& 0x3F) >>> 4 = a := by
  apply UInt8.eq_of_toBitVec_eq
  simp only [UInt8.toBitVec_or, UInt8.toBitVec_and, UInt8.toBitVec_shiftLeft, UInt8.toBitVec_shiftRight]
  ext i inside
  interval_cases i <;> simp

theorem base64_second (a b c : UInt8) :
    (((a <<< 4) ||| (b >>> 4)) &&& 0x3F) <<< 4 ||| (((b <<< 2) ||| (c >>> 6)) &&& 0x3F) >>> 2 = b := by
  apply UInt8.eq_of_toBitVec_eq
  simp only [UInt8.toBitVec_or, UInt8.toBitVec_and, UInt8.toBitVec_shiftLeft, UInt8.toBitVec_shiftRight]
  ext i inside
  interval_cases i <;> simp

theorem base64_third (b c : UInt8) : (((b <<< 2) ||| (c >>> 6)) &&& 0x3F) <<< 6 ||| (c &&& 0x3F) = c := by
  apply UInt8.eq_of_toBitVec_eq
  simp only [UInt8.toBitVec_or, UInt8.toBitVec_and, UInt8.toBitVec_shiftLeft, UInt8.toBitVec_shiftRight]
  ext i inside
  interval_cases i <;> simp

/-- All that is encoded, in groups of three bytes. -/
def base64Encoded : Bytes → Bytes
  | a :: b :: c :: rest => doBase64 a b c ++ base64Encoded rest
  | [a, b] => doBase64 a b 0
  | [a] => doBase64 a 0 0
  | [] => []

/-- The bytes with the zeros that fill the last group. -/
def base64Filled (x : Bytes) : Bytes := x ++ List.replicate (3 * ((x.length + 2) / 3) - x.length) 0

/-- The number of characters. -/
def base64Length (n : Nat) : Nat := 4 * ((n + 2) / 3)

/-- A group is decoded to its three bytes, whatever comes behind it. -/
theorem base64Text_group (a b c : UInt8) (rest : Bytes) :
    base64Text (doBase64 a b c ++ rest) = [a, b, c] ++ base64Text rest := by
  have low : ∀ v : UInt8, ¬(63 : UInt8) < v &&& 0x3F := by
    intro v
    rw [UInt8.lt_iff_toNat_lt, UInt8.toNat_and]
    exact Nat.not_lt.mpr Nat.and_le_right
  have valid : base64Valid (base64Set (a >>> 2)) (base64Set ((a <<< 4) ||| (b >>> 4)))
      (base64Set ((b <<< 2) ||| (c >>> 6))) (base64Set c) = true := by
    simp only [base64Valid, base64Table_set, low, decide_false, Bool.or_false, Bool.not_false]
  have group : base64Group (base64Set (a >>> 2)) (base64Set ((a <<< 4) ||| (b >>> 4)))
      (base64Set ((b <<< 2) ||| (c >>> 6))) (base64Set c) = [a, b, c] := by
    simp only [base64Group, base64Table_set, base64_first, base64_second, base64_third]
  show base64Text (_ :: _ :: _ :: _ :: rest) = _
  rw [base64Text, if_pos valid, group]

/-- The decoder stops at the NUL behind the characters. -/
theorem base64Text_encoded (x rest : Bytes) : base64Text (base64Encoded x ++ 0 :: rest) = base64Filled x := by
  have stop : base64Text (0 :: rest) = [] := by
    cases rest with
    | nil => rfl
    | cons a rest =>
        cases rest with
        | nil => rfl
        | cons b rest =>
            cases rest with
            | nil => rfl
            | cons c rest => exact if_neg (by simp [base64Valid, base64Table])
  fun_induction base64Encoded x with
  | case1 a b c x ih =>
      have more : 3 * ((x.length + 1 + 1 + 1 + 2) / 3) - (x.length + 1 + 1 + 1) =
          3 * ((x.length + 2) / 3) - x.length := by omega
      rw [List.append_assoc, base64Text_group, ih, base64Filled, base64Filled, List.length_cons, List.length_cons,
        List.length_cons, more]
      rfl
  | case2 a b =>
      rw [base64Text_group, stop]
      simp [base64Filled]
  | case3 a =>
      rw [base64Text_group, stop]
      simp [base64Filled, List.replicate]
  | case4 => exact stop

theorem base64Encoded_length (x : Bytes) : (base64Encoded x).length = base64Length x.length := by
  fun_induction base64Encoded x with
  | case1 a b c x ih =>
      rw [List.length_append, ih, base64Length, base64Length, List.length_cons, List.length_cons, List.length_cons]
      simp only [doBase64, List.length_cons, List.length_nil]
      omega
  | case2 a b => simp [doBase64, base64Length]
  | case3 a => simp [doBase64, base64Length]
  | case4 => rfl

theorem base64Encoded_append {x : Bytes} (whole : x.length % 3 = 0) (y : Bytes) :
    base64Encoded (x ++ y) = base64Encoded x ++ base64Encoded y := by
  fun_induction base64Encoded x with
  | case1 a b c x ih =>
      have rest : x.length % 3 = 0 := by
        simp only [List.length_cons] at whole
        omega
      show doBase64 a b c ++ base64Encoded (x ++ y) = _
      rw [ih rest, List.append_assoc]
  | case2 a b => cases whole
  | case3 a => cases whole
  | case4 => rfl

theorem base64Set_mem (v : UInt8) : base64Set v ∈ base64Alphabet := by
  have small : (v &&& 0x3F).toNat < base64Alphabet.length := by
    rw [UInt8.toNat_and]
    exact Nat.lt_of_le_of_lt Nat.and_le_right (by decide)
  rw [base64Set, at0_eq_getElem small]
  exact List.getElem_mem small

theorem doBase64_alphabet (a b c : UInt8) : ∀ v ∈ doBase64 a b c, v ∈ base64Alphabet := by
  intro v member
  simp only [doBase64, List.mem_cons, List.not_mem_nil, or_false] at member
  rcases member with rfl | rfl | rfl | rfl
  all_goals exact base64Set_mem _

theorem base64Encoded_alphabet (x : Bytes) : ∀ v ∈ base64Encoded x, v ∈ base64Alphabet := by
  fun_induction base64Encoded x with
  | case1 a b c x ih =>
      intro v member
      rcases List.mem_append.mp member with member | member
      · exact doBase64_alphabet a b c v member
      · exact ih v member
  | case2 a b => exact doBase64_alphabet a b 0
  | case3 a => exact doBase64_alphabet a 0 0
  | case4 => exact fun v member => absurd member List.not_mem_nil

/-! ### The loop -/

/-- The memory at `data`: the bytes that are encoded, and what follows them. -/
def dataOf (x : Bytes) (behind : Nat → UInt8) (j : Nat) : UInt8 := if j < x.length then at0 x j else behind j

/-- `before` is encoded, `rest` is still to come. -/
structure Encoding (x : Bytes) (s : Base64State) (before rest : Bytes) : Prop where
  split : x = before ++ rest
  i : s.i = before.length
  whole : before.length % 3 = 0
  text : s.text = base64Encoded before
  reads : ∀ j ∈ s.reads, j < x.length

variable {x before rest : Bytes} {s t : Base64State} {outlen : Nat} (behind : Nat → UInt8)

theorem sizeSub_of_le {a b : Nat} (le : b ≤ a) : sizeSub a b = a - b := if_pos le

theorem dataOf_append_add (before rest : Bytes) (k : Nat) (inside : k < rest.length) :
    dataOf (before ++ rest) behind (before.length + k) = rest[k] := by
  rw [dataOf, if_pos (by rw [List.length_append]; omega), at0_eq_getElem (by rw [List.length_append]; omega)]
  simp

/-- The bytes of a group and where they lie. -/
theorem Encoding.group {a b c : UInt8} (encoding : Encoding x s before (a :: b :: c :: rest)) :
    dataOf x behind s.i = a ∧ dataOf x behind (s.i + 1) = b ∧ dataOf x behind (s.i + 2) = c ∧
      s.i + 2 < x.length := by
  obtain ⟨rfl, place, -⟩ := encoding
  rw [place]
  have at_ := fun k (inside : k < (a :: b :: c :: rest).length) => dataOf_append_add behind before _ k inside
  exact ⟨at_ 0 (by simp), at_ 1 (by simp), at_ 2 (by simp), by simp⟩

theorem Encoding.length (encoding : Encoding x s before rest) (some : rest ≠ []) :
    s.text.length + 4 ≤ base64Length x.length ∧ s.i + rest.length = x.length := by
  have more := List.length_pos_iff.mpr some
  have size := congrArg List.length encoding.split
  have whole := encoding.whole
  rw [List.length_append] at size
  rw [encoding.text, base64Encoded_length, encoding.i, base64Length, base64Length]
  omega

theorem write_some (fits : s.text.length + 4 ≤ intMax) (b0 b1 b2 : UInt8) (reads : List Nat) :
    s.write b0 b1 b2 reads = some ⟨s.i + 3, s.text ++ doBase64 b0 b1 b2, s.reads ++ reads⟩ :=
  if_neg (Nat.not_lt.mpr fits)

/-- A pass encodes a group while more than three bytes are left. -/
theorem Encoding.pass {a b c d : UInt8} (encoding : Encoding x s before (a :: b :: c :: d :: rest))
    (enough : base64Length x.length < outlen) (fits : base64Length x.length ≤ intMax) :
    ∃ t, base64Pass (dataOf x behind) x.length outlen s = .next t ∧
      Encoding x t (before ++ [a, b, c]) (d :: rest) := by
  obtain ⟨room, size⟩ := encoding.length (by simp)
  obtain ⟨first, second, third, inside⟩ := encoding.group behind
  simp only [List.length_cons] at size
  have goes : s.i < sizeSub x.length 3 ∧ s.text.length < sizeSub outlen 4 := by
    rw [sizeSub_of_le (by omega), sizeSub_of_le (by omega)]
    omega
  refine ⟨⟨s.i + 3, s.text ++ doBase64 a b c, s.reads ++ [s.i, s.i + 1, s.i + 2]⟩, ?_, ?_⟩
  · rw [base64Pass, if_pos goes, write_some (Nat.le_trans room fits), first, second, third]
  · refine ⟨?_, ?_, ?_, ?_, ?_⟩
    · rw [encoding.split]
      simp
    · simp [encoding.i]
    · have whole := encoding.whole
      rw [List.length_append, List.length_cons, List.length_cons, List.length_cons, List.length_nil]
      omega
    · have tail : base64Encoded [a, b, c] = doBase64 a b c := rfl
      rw [base64Encoded_append encoding.whole, tail, encoding.text]
    · intro j member
      rcases List.mem_append.mp member with old | new
      · exact encoding.reads j old
      · simp only [List.mem_cons, List.not_mem_nil, or_false] at new
        omega

/-- The loop leaves the last one to three bytes. -/
theorem Encoding.stop (encoding : Encoding x s before rest) (few : rest.length ≤ 3) (long : 3 ≤ x.length) :
    base64Pass (dataOf x behind) x.length outlen s = .done (some s) := by
  have size := congrArg List.length encoding.split
  rw [List.length_append, ← encoding.i] at size
  rw [base64Pass, if_neg]
  rw [sizeSub_of_le long]
  omega

/-- The bytes of the last group, with zeros for those that are missing. -/
theorem Encoding.last_group (encoding : Encoding x s before rest) (some : rest ≠ []) (few : rest.length ≤ 3) :
    doBase64 (dataOf x behind s.i) (if s.i + 1 < x.length then dataOf x behind (s.i + 1) else 0)
      (if s.i + 2 < x.length then dataOf x behind (s.i + 2) else 0) = base64Encoded rest := by
  have size := (encoding.length some).2
  obtain ⟨rfl, place, -⟩ := encoding
  rw [place] at size ⊢
  match rest with
  | [] => exact absurd rfl some
  | [a] =>
      have first : dataOf (before ++ [a]) behind before.length = a := dataOf_append_add behind before [a] 0 (by simp)
      rw [if_neg (by simp), if_neg (by simp), first]
      rfl
  | [a, b] =>
      have first : dataOf (before ++ [a, b]) behind before.length = a :=
        dataOf_append_add behind before [a, b] 0 (by simp)
      have second : dataOf (before ++ [a, b]) behind (before.length + 1) = b :=
        dataOf_append_add behind before [a, b] 1 (by simp)
      rw [if_pos (by simp), if_neg (by simp), first, second]
      rfl
  | [a, b, c] =>
      have first : dataOf (before ++ [a, b, c]) behind before.length = a :=
        dataOf_append_add behind before [a, b, c] 0 (by simp)
      have second : dataOf (before ++ [a, b, c]) behind (before.length + 1) = b :=
        dataOf_append_add behind before [a, b, c] 1 (by simp)
      have third : dataOf (before ++ [a, b, c]) behind (before.length + 2) = c :=
        dataOf_append_add behind before [a, b, c] 2 (by simp)
      rw [if_pos (by simp), if_pos (by simp), first, second, third]
      rfl
  | a :: b :: c :: d :: rest =>
      simp only [List.length_cons] at few
      omega

theorem Encoding.last (encoding : Encoding x s before rest) (some : rest ≠ []) (few : rest.length ≤ 3)
    (enough : base64Length x.length < outlen) (fits : base64Length x.length ≤ intMax) :
    ∃ t, base64Rest (dataOf x behind) x.length outlen s = Option.some t ∧ t.text = base64Encoded x ∧
      ∀ j ∈ t.reads, j < x.length := by
  obtain ⟨room, size⟩ := encoding.length some
  have more := List.length_pos_iff.mpr some
  have goes : s.text.length < sizeSub outlen 4 ∧ s.i < x.length := by
    rw [sizeSub_of_le (by omega)]
    omega
  refine ⟨_, by rw [base64Rest, if_pos goes, write_some (Nat.le_trans room fits)], ?_, ?_⟩
  · rw [encoding.last_group behind some few, encoding.text, ← base64Encoded_append encoding.whole, ← encoding.split]
  · intro j member
    rcases List.mem_append.mp member with old | new
    · exact encoding.reads j old
    · exact of_decide_eq_true (List.mem_filter.mp new).2

/-- Nothing but the bytes is read, all characters are from the alphabet, and the decoder gives the bytes back with the
zeros that fill the last group. -/
def Base64RoundTrips (x : Bytes) (behind : Nat → UInt8) (out : Bytes) (outlen : Nat) : Prop :=
  ∃ fuel e, ciBase64Encode (dataOf x behind) x.length out outlen fuel = some e ∧ (∀ j ∈ e.reads, j < x.length) ∧
    e.ret = base64Length x.length ∧
    (∃ text rest, e.out = text ++ 0 :: rest ∧ text.length = base64Length x.length ∧ ∀ c ∈ text, c ∈ base64Alphabet) ∧
    ∀ decoded len, 3 * ((x.length + 2) / 3) < len →
      ciBase64Decode e.out decoded len = (3 * ((x.length + 2) / 3), poke decoded 0 (base64Filled x ++ [0]))

/-- What is decoded from the encoded bytes. -/
theorem decode_encoded (x rest decoded : Bytes) {len : Nat} (enough : 3 * ((x.length + 2) / 3) < len) :
    ciBase64Decode (base64Encoded x ++ 0 :: rest) decoded len =
      (3 * ((x.length + 2) / 3), poke decoded 0 (base64Filled x ++ [0])) := by
  have size : (base64Filled x).length = 3 * ((x.length + 2) / 3) := by
    rw [base64Filled, List.length_append, List.length_replicate]
    omega
  have whole : base64Loop len (base64Encoded x ++ 0 :: rest) = base64Filled x := by
    rw [base64Loop_eq, base64Text_encoded, List.take_of_length_le]
    rw [size]
    omega
  rw [ciBase64Decode, if_neg (Nat.ne_of_gt (Nat.zero_lt_of_lt enough)), whole]
  exact Prod.ext size rfl

/-- An encoding that has written all groups and read nothing else makes the round trip. -/
theorem round_trips_of_text {out : Bytes} {fuel : Nat} {looped : Option Base64State}
    (ran : run (base64Pass (dataOf x behind) x.length outlen) fuel ⟨0, [], []⟩ = some looped)
    (finished : looped.bind (base64Rest (dataOf x behind) x.length outlen) = some t)
    (text : t.text = base64Encoded x) (reads : ∀ j ∈ t.reads, j < x.length) :
    Base64RoundTrips x behind out outlen := by
  refine ⟨fuel, ⟨t.text.length, poke out 0 (t.text ++ [0]), t.reads⟩, ?_, reads, ?_, ?_, ?_⟩
  · rw [ciBase64Encode, ran, Option.bind_some, finished]
    rfl
  · rw [text, base64Encoded_length]
  · refine ⟨base64Encoded x, out.drop (base64Length x.length + 1), ?_, base64Encoded_length x, base64Encoded_alphabet x⟩
    rw [text, poke, List.length_append, base64Encoded_length]
    simp
  · intro decoded len enough
    rw [text]
    have shape : poke out 0 (base64Encoded x ++ [0]) =
        base64Encoded x ++ 0 :: out.drop (0 + (base64Encoded x ++ [0]).length) := by
      simp [poke]
    rw [shape]
    exact decode_encoded x _ decoded enough

/-- From three bytes on the loop leaves the last group to the code behind it. -/
theorem round_trips_of_long (long : 3 ≤ x.length) (out : Bytes) (enough : base64Length x.length < outlen)
    (fits : base64Length x.length ≤ intMax) : Base64RoundTrips x behind out outlen := by
  have start : Encoding x ⟨0, [], []⟩ [] x := ⟨rfl, rfl, rfl, rfl, fun _ member => absurd member List.not_mem_nil⟩
  obtain ⟨looped, ran, s, rfl, before, rest, encoding, some, few⟩ := run_ranked
    (base64Pass (dataOf x behind) x.length outlen)
    (fun n s => ∃ before rest, Encoding x s before rest ∧ rest ≠ [] ∧ rest.length = n)
    (fun r => ∃ s, r = Option.some s ∧ ∃ before rest, Encoding x s before rest ∧ rest ≠ [] ∧ rest.length ≤ 3)
    (by
      rintro n s ⟨before, rest, encoding, some, size⟩
      match rest with
      | [] => exact absurd rfl some
      | [a] => exact .inr ⟨_, encoding.stop behind (by simp) long, s, rfl, before, [a], encoding, some, by simp⟩
      | [a, b] => exact .inr ⟨_, encoding.stop behind (by simp) long, s, rfl, before, [a, b], encoding, some, by simp⟩
      | [a, b, c] =>
          exact .inr ⟨_, encoding.stop behind (by simp) long, s, rfl, before, [a, b, c], encoding, some, by simp⟩
      | a :: b :: c :: d :: rest =>
          obtain ⟨t, pass, encoding'⟩ := encoding.pass behind enough fits
          refine .inl ⟨t, pass, (d :: rest).length, ?_, _, _, encoding', by simp, rfl⟩
          rw [← size]
          simp only [List.length_cons]
          omega)
    ⟨[], x, start, List.ne_nil_of_length_pos (by omega), rfl⟩ (Nat.lt_succ_self x.length)
  obtain ⟨t, finished, text, reads⟩ := encoding.last behind some few enough fits
  exact round_trips_of_text behind ran finished text reads

theorem base64Pass_eq (data : Nat → UInt8) (len outlen : Nat) (s : Base64State) :
    base64Pass data len outlen s =
      if s.i < sizeSub len 3 ∧ s.text.length < sizeSub outlen 4 then
        if intMax < s.text.length + 4 then .done none
        else .next ⟨s.i + 3, s.text ++ doBase64 (data s.i) (data (s.i + 1)) (data (s.i + 2)),
          s.reads ++ [s.i, s.i + 1, s.i + 2]⟩
      else .done (some s) := by
  unfold base64Pass Base64State.write
  by_cases goes : s.i < sizeSub len 3 ∧ s.text.length < sizeSub outlen 4
  · rw [if_pos goes, if_pos goes]
    by_cases wide : intMax < s.text.length + 4
    · rw [if_pos wide, if_pos wide]
    · rw [if_neg wide, if_neg wide]
  · rw [if_neg goes, if_neg goes]

/-- A pass forgets nothing it has read. -/
theorem base64Pass_keeps {data : Nat → UInt8} {len j : Nat} (member : j ∈ s.reads) :
    (base64Pass data len outlen s).All (fun t => j ∈ t.reads) (fun r => ∀ t, r = some t → j ∈ t.reads) := by
  rw [base64Pass_eq]
  split
  · split
    · intro t impossible
      cases impossible
    · exact List.mem_append_left _ member
  · rintro t ⟨⟩
    exact member

/-- A pass writes no more characters than an `int` counts. -/
theorem base64Pass_bounded {data : Nat → UInt8} {len : Nat} (bound : s.text.length ≤ intMax) :
    (base64Pass data len outlen s).All (fun t => t.text.length ≤ intMax)
      (fun r => ∀ t, r = some t → t.text.length ≤ intMax) := by
  rw [base64Pass_eq]
  split
  · split
    · intro t impossible
      cases impossible
    · rename_i fits
      show (s.text ++ doBase64 _ _ _).length ≤ intMax
      rw [List.length_append]
      exact Nat.not_lt.mp fits
  · rintro t ⟨⟩
    exact bound

/-- The first pass is taken for less than three bytes too, and reads three. -/
theorem reads_behind {data : Nat → UInt8} {len fuel : Nat} (goes : 0 < sizeSub len 3 ∧ 0 < sizeSub outlen 4)
    {looped : Option Base64State} (ran : run (base64Pass data len outlen) fuel ⟨0, [], []⟩ = some looped) :
    ∀ s, looped = some s → 2 ∈ s.reads := by
  cases fuel with
  | zero => cases ran
  | succ fuel =>
      have first : base64Pass data len outlen ⟨0, [], []⟩ =
          .next ⟨3, doBase64 (data 0) (data 1) (data 2), [0, 1, 2]⟩ := by
        have small : ¬intMax < ([] : Bytes).length + 4 := by decide
        rw [base64Pass_eq]
        exact (if_pos goes).trans (if_neg small)
      rw [run_next fuel first] at ran
      exact run_post _ (fun s => 2 ∈ s.reads) _ (fun s member => base64Pass_keeps member) fuel _ looped (by simp) ran

theorem base64Rest_some {data : Nat → UInt8} {len : Nat} (finished : base64Rest data len outlen s = some t) :
    (∀ j ∈ s.reads, j ∈ t.reads) ∧ (s.text.length ≤ intMax → t.text.length ≤ intMax) := by
  unfold base64Rest Base64State.write at finished
  split at finished
  · split at finished
    · cases finished
    · rename_i fits
      cases finished
      refine ⟨fun j member => List.mem_append_left _ member, fun _ => ?_⟩
      rw [List.length_append]
      exact Nat.not_lt.mp fits
  · cases finished
    exact ⟨fun _ member => member, id⟩

/-- The encoder makes the round trip from three bytes on, as long as its `int` counts the characters; an empty text only
when the room it is given is four bytes. -/
theorem base64_round_trips_iff (x : Bytes) (behind : Nat → UInt8) (out : Bytes) (outlen : Nat)
    (enough : base64Length x.length < outlen) :
    Base64RoundTrips x behind out outlen ↔
      (3 ≤ x.length ∨ x = [] ∧ outlen = 4) ∧ base64Length x.length ≤ intMax := by
  constructor
  · rintro ⟨fuel, e, encoded, reads, ret, -⟩
    obtain ⟨looped, ran, rest⟩ := Option.bind_eq_some_iff.mp encoded
    obtain ⟨t, finished, rfl⟩ := Option.map_eq_some_iff.mp rest
    obtain ⟨s, rfl, last⟩ := Option.bind_eq_some_iff.mp finished
    obtain ⟨keeps, bounded⟩ := base64Rest_some last
    constructor
    · by_contra neither
      obtain ⟨short, room⟩ := not_or.mp neither
      have goes : 0 < sizeSub x.length 3 ∧ 0 < sizeSub outlen 4 := by
        constructor
        · rw [sizeSub, if_neg short]
          omega
        · unfold sizeSub
          split
          · have other : outlen ≠ 4 := by
              intro four
              have empty : x = [] := by
                apply List.length_eq_zero_iff.mp
                rw [base64Length] at enough
                omega
              exact room ⟨empty, four⟩
            omega
          · omega
      have wide := reads 2 (keeps 2 (reads_behind goes ran s rfl))
      omega
    · rw [← ret]
      refine bounded ?_
      exact run_post _ (fun s => s.text.length ≤ intMax) _ (fun s bound => base64Pass_bounded bound) fuel _ _
        (Nat.zero_le _) ran s rfl
  · rintro ⟨long | ⟨rfl, rfl⟩, fits⟩
    · exact round_trips_of_long behind long out enough fits
    · have ran : run (base64Pass (dataOf [] behind) 0 4) 1 ⟨0, [], []⟩ = some (some ⟨0, [], []⟩) := rfl
      exact round_trips_of_text behind ran rfl rfl (fun j member => absurd member List.not_mem_nil)

theorem base64_round_trips_iff_abc :
    Base64RoundTrips [97, 98, 99] (fun _ => 0) (List.replicate 5 0) 5 ↔
      (3 ≤ [97, 98, 99].length ∨ ([97, 98, 99] : Bytes) = [] ∧ 5 = 4) ∧ base64Length [97, 98, 99].length ≤ intMax :=
  base64_round_trips_iff [97, 98, 99] (fun _ => 0) (List.replicate 5 0) 5 (by decide)

/-- One byte is encoded with two bytes behind it, and for a larger `outlen` with more of them. -/
theorem base64_single_byte_reads_behind : ¬Base64RoundTrips [97] (fun _ => 0) (List.replicate 9 0) 9 := by
  rintro ⟨fuel, e, encoded, reads, -⟩
  obtain ⟨looped, ran, rest⟩ := Option.bind_eq_some_iff.mp encoded
  obtain ⟨t, finished, rfl⟩ := Option.map_eq_some_iff.mp rest
  obtain ⟨s, rfl, last⟩ := Option.bind_eq_some_iff.mp finished
  have member := (base64Rest_some last).1 2 (reads_behind (by decide) ran s rfl)
  exact absurd (reads 2 member) (by decide)

end IcapService
