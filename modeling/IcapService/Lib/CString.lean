import Mathlib.Algebra.Group.Nat.Defs
import Mathlib.Data.List.Infix
import IcapService.Lib.CInt

/-! The string functions of the C library on byte lists.

A pointer is the list of the bytes from the pointed-to byte to the end of its memory block; a
byte past the block reads as NUL. -/

namespace IcapService.CString

abbrev Bytes := List UInt8

def ascii (s : String) : Bytes := s.toList.map (fun c => c.toNat.toUInt8)

def cr : UInt8 := 13
def lf : UInt8 := 10
def crlf : Bytes := [cr, lf]

def at0 (s : Bytes) (i : Nat) : UInt8 := s.getD i 0

def isBlank (c : UInt8) : Bool := c == 32 || c == 9

def isSpace (c : UInt8) : Bool := c == 32 || (9 ≤ c && c ≤ 13)

/-- The value of a digit in the bases up to 36; letters of either case count from ten. -/
def digitVal (c : UInt8) : Nat :=
  if 48 ≤ c && c ≤ 57 then c.toNat - 48
  else if 97 ≤ c && c ≤ 122 then c.toNat - 87
  else if 65 ≤ c && c ≤ 90 then c.toNat - 55
  else 36

def isDigit (base : Nat) (c : UInt8) : Bool := digitVal c < base

def number (base : Nat) (digits : Bytes) : Nat :=
  digits.foldl (fun acc c => acc * base + digitVal c) 0

def longMax : Int := 9223372036854775807

def clampLong (v : Int) : Int := max (-longMax - 1) (min longMax v)

/-- The optional sign: whether it is a minus, and how many bytes it takes. -/
def strtolSign (s : Bytes) : Bool × Nat :=
  match s with
  | c :: _ => if c = 45 then (true, 1) else if c = 43 then (false, 1) else (false, 0)
  | [] => (false, 0)

/-- Length of a `0x` prefix, which counts only when a hexadecimal digit follows it. -/
def strtolHex (base : Nat) (s : Bytes) : Nat :=
  match s with
  | z :: x :: d :: _ =>
      if base = 16 && z == 48 && (x == 120 || x == 88) && isDigit 16 d then 2 else 0
  | _ => 0

/-- `strtol(s, &end, base)`: the value and the offset of `end`. White space is skipped first,
the value is clamped to the range of `long`, and without digits `end` is `s` itself. -/
def strtol (base : Nat) (s : Bytes) : Int × Nat :=
  let blanks := (s.takeWhile isSpace).length
  let signed := s.drop blanks
  let sign := strtolSign signed
  let unsigned := signed.drop sign.2
  let hex := strtolHex base unsigned
  let digits := (unsigned.drop hex).takeWhile (isDigit base)
  if digits.isEmpty then (0, 0)
  else (clampLong (if sign.1 then -(number base digits : Int) else number base digits),
    blanks + sign.2 + hex + digits.length)

/-- Offset of the first occurrence of `find` among the first `slen` bytes of `s`. -/
def strnstr (find : Bytes) : Bytes → Nat → Option Nat
  | [], _ => none
  | s@(_ :: rest), slen =>
      if slen < find.length then none
      else if find.isPrefixOf s then some 0
      else (strnstr find rest (slen - 1)).map (· + 1)

theorem strnstr_bound (find s : Bytes) (slen i : Nat) (found : strnstr find s slen = some i) :
    i + find.length ≤ slen := by
  induction s generalizing slen i with
  | nil => simp [strnstr] at found
  | cons c rest ih =>
      by_cases room : slen < find.length
      · simp [strnstr, room] at found
      · by_cases here : find.isPrefixOf (c :: rest)
        · simp only [strnstr, if_neg room, if_pos here, Option.some.injEq] at found
          omega
        · simp only [strnstr, if_neg room, if_neg here] at found
          obtain ⟨j, below, rfl⟩ := Option.map_eq_some_iff.mp found
          have tail := ih (slen - 1) j below
          have nonempty : 0 < find.length := by
            apply List.length_pos_iff.mpr
            rintro rfl
            exact here (by simp)
          omega

/-- The digits of a number in a base up to sixteen. -/
def digitsText (base n : Nat) : Bytes := (Nat.toDigits base n).map (fun c => c.toNat.toUInt8)

/-- The text `%x` prints. -/
def hexText (n : Nat) : Bytes := digitsText 16 n

/-! ### Scanning -/

theorem takeWhile_append_stop (p : UInt8 → Bool) (word rest : Bytes) (all : ∀ c ∈ word, p c)
    (stop : ∀ c ∈ rest.head?, p c = false) : (word ++ rest).takeWhile p = word := by
  rw [List.takeWhile_append_of_pos all]
  cases rest with
  | nil => simp
  | cons c rest => simp [stop c (by simp)]

/-- The longest prefix with a property, and where it stops. -/
theorem takeWhile_split (p : UInt8 → Bool) (s : Bytes) :
    (∀ c ∈ s.takeWhile p, p c) ∧ s = s.takeWhile p ++ s.drop (s.takeWhile p).length ∧
      ∀ c ∈ (s.drop (s.takeWhile p).length).head?, p c = false := by
  induction s with
  | nil => simp
  | cons c s ih =>
      obtain ⟨all, split, stop⟩ := ih
      by_cases holds : p c
      · simp only [List.takeWhile_cons, holds, if_true, List.length_cons, List.drop_succ_cons,
          List.cons_append, List.mem_cons, forall_eq_or_imp]
        exact ⟨⟨trivial, all⟩, congrArg (c :: ·) split, stop⟩
      · simp [holds]

theorem at0_append (a b : Bytes) (c : UInt8) : at0 (a ++ c :: b) a.length = c := by
  simp [at0]

/-- A byte other than NUL lies inside the block. -/
theorem drop_of_at0 {s : Bytes} {i : Nat} {c : UInt8} (here : at0 s i = c) (some : c ≠ 0) :
    s.drop i = c :: s.drop (i + 1) := by
  by_cases inside : i < s.length
  · rw [List.drop_eq_getElem_cons inside]
    simp only [at0, List.getD_eq_getElem?_getD, List.getElem?_eq_getElem inside, Option.getD_some] at here
    rw [here]
  · simp only [at0, List.getD_eq_getElem?_getD, List.getElem?_eq_none (Nat.le_of_not_lt inside),
      Option.getD_none] at here
    exact absurd here.symm some

theorem digit_not_sign {base : Nat} {c : UInt8} (small : base ≤ 36) (digit : isDigit base c) :
    isSpace c = false ∧ c ≠ 45 ∧ c ≠ 43 := by
  simp only [isDigit, digitVal, isSpace] at *
  grind

theorem hexDigit_ne {c d : UInt8} (digit : isDigit 16 c) (other : isDigit 16 d = false) : c ≠ d := by
  rintro rfl
  rw [digit] at other
  cases other

theorem clampLong_of_le (n : Nat) (fits : (n : Int) ≤ longMax) : clampLong n = n := by
  simp only [clampLong, longMax] at *
  omega

/-- Digits that run up to a byte which is no digit, and are not taken for a prefix `0x`, are read
as their number. -/
theorem strtol_number (base : Nat) (digits rest : Bytes) (small : base ≤ 16)
    (some : digits ≠ []) (all : ∀ c ∈ digits, isDigit base c)
    (stop : ∀ c ∈ rest.head?, isDigit base c = false)
    (hex : strtolHex base (digits ++ rest) = 0) :
    strtol base (digits ++ rest) = (clampLong (number base digits), digits.length) := by
  obtain ⟨d, ds, rfl⟩ := List.exists_cons_of_ne_nil some
  obtain ⟨space, minus, plus⟩ := digit_not_sign (by omega) (all d (by simp))
  have sign : strtolSign (d :: ds ++ rest) = (false, 0) := by
    simp [strtolSign, minus, plus]
  have blanks : (d :: ds ++ rest).takeWhile isSpace = [] := by simp [space]
  have scan : (d :: ds ++ rest).takeWhile (isDigit base) = d :: ds :=
    takeWhile_append_stop _ _ _ all stop
  simp only [strtol, blanks, List.length_nil, List.drop_zero, sign, hex, scan, List.isEmpty_cons,
    Bool.false_eq_true, if_false, Nat.zero_add]

/-- Without an `x` behind its first byte a text has no prefix `0x`. -/
theorem strtolHex_eq_zero (base : Nat) (d : UInt8) (rest : Bytes)
    (second : ∀ x ∈ rest.head?, base = 16 → x ≠ 120 ∧ x ≠ 88) : strtolHex base (d :: rest) = 0 := by
  cases rest with
  | nil => rfl
  | cons x more =>
      cases more with
      | nil => rfl
      | cons y more =>
          have apart := second x (by simp)
          simp only [strtolHex]
          exact if_neg (by grind)

theorem strtol_digits (base : Nat) (digits rest : Bytes) (small : base ≤ 16)
    (some : digits ≠ []) (all : ∀ c ∈ digits, isDigit base c)
    (stop : ∀ c ∈ rest.head?, isDigit base c = false ∧ c ≠ 120 ∧ c ≠ 88) :
    strtol base (digits ++ rest) = (clampLong (number base digits), digits.length) := by
  apply strtol_number base digits rest small some all (fun c first => (stop c first).1)
  obtain ⟨d, ds, rfl⟩ := List.exists_cons_of_ne_nil some
  apply strtolHex_eq_zero
  intro x first sixteen
  subst sixteen
  cases ds with
  | nil => exact (stop x (by simpa using first)).2
  | cons e es =>
      have digit : isDigit 16 x := all x (by simp at first; simp [first])
      exact ⟨hexDigit_ne digit (by decide), hexDigit_ne digit (by decide)⟩

/-- A line without a carriage return ends at the first CRLF behind it. -/
theorem strnstr_line (line rest : Bytes) (slen : Nat) (plain : ∀ c ∈ line, c ≠ cr) :
    strnstr crlf (line ++ crlf ++ rest) slen =
      if line.length + 2 ≤ slen then some line.length else none := by
  induction line generalizing slen with
  | nil =>
      by_cases room : 2 ≤ slen
      · have enough : ¬ slen < crlf.length := Nat.not_lt.mpr room
        have here : crlf.isPrefixOf (crlf ++ rest) = true := by simp
        exact (if_neg enough).trans ((if_pos here).trans (if_pos room).symm)
      · have short : slen < crlf.length := Nat.not_le.mp room
        exact (if_pos short).trans (if_neg room).symm
  | cons c line ih =>
      have other : c ≠ cr := plain c (by simp)
      have tail := ih (slen - 1) (fun d member => plain d (by simp [member]))
      have here : crlf.isPrefixOf (c :: line ++ crlf ++ rest) = false := by
        simp [crlf, List.isPrefixOf, Ne.symm other]
      simp only [List.cons_append] at here ⊢
      by_cases room : slen < 2
      · have short : ¬ (line.length + 1 + 2 ≤ slen) := by omega
        simp [strnstr, crlf, room, short]
      · have fits : ¬ slen < crlf.length := by simpa [crlf] using room
        rw [strnstr, if_neg fits, here, if_neg (by simp), tail]
        by_cases enough : line.length + 2 ≤ slen - 1
        · have long : line.length + 1 + 2 ≤ slen := by omega
          simp [enough, long]
        · have long : ¬ line.length + 1 + 2 ≤ slen := by omega
          simp [enough, long]

/-- The search looks at the first `slen` bytes only. -/
theorem strnstr_take (find s : Bytes) (slen : Nat) (some : find ≠ []) :
    strnstr find (s.take slen) slen = strnstr find s slen := by
  have long := List.length_pos_iff.mpr some
  induction s generalizing slen with
  | nil => simp
  | cons c rest ih =>
      by_cases room : slen < find.length
      · cases slen with
        | zero => simp [strnstr, long]
        | succ slen => simp only [List.take_succ_cons, strnstr, if_pos room]
      · obtain ⟨n, rfl⟩ : ∃ n, slen = n + 1 := ⟨slen - 1, by omega⟩
        have same : find.isPrefixOf (c :: rest.take n) = find.isPrefixOf (c :: rest) := by
          rw [Bool.eq_iff_iff, List.isPrefixOf_iff_prefix, List.isPrefixOf_iff_prefix,
            ← List.take_succ_cons, List.prefix_take_iff]
          exact and_iff_left (by omega)
        simp only [List.take_succ_cons, strnstr, if_neg room, same, Nat.add_sub_cancel, ih n]

theorem strnstr_congr (find s t : Bytes) (slen : Nat) (some : find ≠ [])
    (same : s.take slen = t.take slen) : strnstr find s slen = strnstr find t slen := by
  rw [← strnstr_take find s slen some, same, strnstr_take find t slen some]

end IcapService.CString
