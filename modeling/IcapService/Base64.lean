import IcapService.Lib.Memory

/-! The base64 decoder of `decode.c`.

It decodes four characters at a time into a buffer of a given size, and stops at the first group with a character
that is not in the table; the NUL is none. The padding `=` counts as zero bits. -/

namespace IcapService

open CString

/-- `base64_table`. -/
def base64Table (c : UInt8) : UInt8 :=
  if c = 43 then 62
  else if c = 47 then 63
  else if 48 ≤ c && c ≤ 57 then c + 4
  else if c = 61 then 0
  else if 65 ≤ c && c ≤ 90 then c - 65
  else if 97 ≤ c && c ≤ 122 then c - 71
  else 255

/-- The four characters of a group are in the table. -/
def base64Valid (a b c d : UInt8) : Bool :=
  !(63 < base64Table a || 63 < base64Table b || 63 < base64Table c || 63 < base64Table d)

/-- The three bytes of a group. -/
def base64Group (a b c d : UInt8) : Bytes :=
  [(base64Table a <<< 2) ||| (base64Table b >>> 4),
    (base64Table b <<< 4) ||| (base64Table c >>> 2),
    (base64Table c <<< 6) ||| base64Table d]

/-- The loop of `ci_base64_decode`; behind the last group comes the NUL. -/
def base64Loop : Nat → Bytes → Bytes
  | i, a :: b :: c :: d :: str =>
      if 3 < i && base64Valid a b c d then base64Group a b c d ++ base64Loop (i - 3) str else []
  | _, _ => []

/-- `ci_base64_decode`: the number of bytes decoded, and the buffer. No caller passes a NULL. -/
def ciBase64Decode (encoded decoded : Bytes) (len : Nat) : Nat × Bytes :=
  if len = 0 then (0, decoded)
  else
    let result := base64Loop len encoded
    (result.length, poke decoded 0 (result ++ [0]))

/-- All that the groups in front of the first invalid one stand for. -/
def base64Text : Bytes → Bytes
  | a :: b :: c :: d :: str => if base64Valid a b c d then base64Group a b c d ++ base64Text str else []
  | _ => []

/-- The loop decodes the whole groups that fit with the NUL. -/
theorem base64Loop_eq (i : Nat) (str : Bytes) : base64Loop i str = (base64Text str).take (3 * ((i - 1) / 3)) := by
  fun_induction base64Loop i str with
  | case1 i a b c d str more ih =>
      obtain ⟨room, valid⟩ : 3 < i ∧ base64Valid a b c d = true := by simpa using more
      have count : 3 * ((i - 1) / 3) = 3 + 3 * ((i - 3 - 1) / 3) := by omega
      have cut : ∀ n, (base64Group a b c d ++ base64Text str).take (3 + n) =
          base64Group a b c d ++ (base64Text str).take n := by
        intro n
        rw [Nat.add_comm]
        rfl
      rw [base64Text, if_pos valid, ih, count, cut]
  | case2 i a b c d str stop =>
      by_cases valid : base64Valid a b c d
      · have full : 3 * ((i - 1) / 3) = 0 := by
          simp only [valid, Bool.and_true, decide_eq_true_eq] at stop
          omega
        rw [full, List.take_zero]
      · rw [base64Text, if_neg valid, List.take_nil]
  | case3 str i short =>
      have none_ : base64Text str = [] := by
        rw [base64Text]
        exact short
      rw [none_, List.take_nil]

/-- What is decoded fits in the buffer together with its NUL. -/
theorem base64Loop_length (i : Nat) (str : Bytes) (some : 0 < i) : (base64Loop i str).length < i := by
  rw [base64Loop_eq, List.length_take]
  omega

end IcapService
