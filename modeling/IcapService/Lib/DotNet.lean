import Mathlib.Data.List.Basic

/-! Texts as the .NET library reads them: UTF-8 with replacement, white space, decimal numbers,
`Enum.Parse` and `Guid.TryParse`. -/

namespace IcapService.DotNet

abbrev Text := List Char

/-! ### UTF-8 -/

def replacement : Char := Char.ofNat 0xFFFD

def inRange (low high : Nat) (b : UInt8) : Bool := low ≤ b.toNat && b.toNat ≤ high

/-- The bytes that may follow a first byte of three or four. -/
def secondByte (b : Nat) (c : UInt8) : Bool :=
  if b = 0xE0 then inRange 0xA0 0xBF c
  else if b = 0xED then inRange 0x80 0x9F c
  else if b = 0xF0 then inRange 0x90 0xBF c
  else if b = 0xF4 then inRange 0x80 0x8F c
  else inRange 0x80 0xBF c

def continuation (b : UInt8) : Nat := b.toNat % 64

/-- The next character, and the bytes behind it. A sequence that breaks off gives one replacement
character. -/
def decodeChar (b : UInt8) (rest : List UInt8) : Char × List UInt8 :=
  let n := b.toNat
  if n < 0x80 then (Char.ofNat n, rest)
  else if 0xC2 ≤ n ∧ n ≤ 0xDF then
    match rest with
    | c :: rest' =>
        if inRange 0x80 0xBF c then (Char.ofNat (n % 32 * 64 + continuation c), rest') else (replacement, rest)
    | [] => (replacement, [])
  else if 0xE0 ≤ n ∧ n ≤ 0xEF then
    match rest with
    | c :: rest' =>
        if secondByte n c then
          match rest' with
          | d :: rest'' =>
              if inRange 0x80 0xBF d then
                (Char.ofNat (n % 16 * 4096 + continuation c * 64 + continuation d), rest'')
              else (replacement, rest')
          | [] => (replacement, [])
        else (replacement, rest)
    | [] => (replacement, [])
  else if 0xF0 ≤ n ∧ n ≤ 0xF4 then
    match rest with
    | c :: rest' =>
        if secondByte n c then
          match rest' with
          | d :: rest'' =>
              if inRange 0x80 0xBF d then
                match rest'' with
                | e :: rest''' =>
                    if inRange 0x80 0xBF e then
                      (Char.ofNat (n % 8 * 262144 + continuation c * 4096 + continuation d * 64 + continuation e),
                        rest''')
                    else (replacement, rest'')
                | [] => (replacement, [])
              else (replacement, rest')
          | [] => (replacement, [])
        else (replacement, rest)
    | [] => (replacement, [])
  else (replacement, rest)

/-- The characters of at most the given number of sequences. -/
def decode : Nat → List UInt8 → Text
  | 0, _ => []
  | _ + 1, [] => []
  | fuel + 1, b :: rest =>
      let next := decodeChar b rest
      next.1 :: decode fuel next.2

/-- `Encoding.UTF8.GetString`. -/
def getString (bytes : List UInt8) : Text := decode bytes.length bytes

/-! ### White space and letter case -/

/-- `char.IsWhiteSpace`. -/
def isWhiteSpace (c : Char) : Bool :=
  let n := c.toNat
  (0x09 ≤ n && n ≤ 0x0D) || n == 0x20 || n == 0x85 || n == 0xA0 || n == 0x1680 || (0x2000 ≤ n && n ≤ 0x200A) ||
    n == 0x2028 || n == 0x2029 || n == 0x202F || n == 0x205F || n == 0x3000

def trimStart (t : Text) : Text := t.dropWhile isWhiteSpace

def trim (t : Text) : Text := ((trimStart t).reverse.dropWhile isWhiteSpace).reverse

/-- The comparison up to letter case with a name of ASCII letters. -/
def equalsIgnoreCase (t name : Text) : Bool := t.map Char.toLower == name.map Char.toLower

/-! ### Decimal numbers -/

def digitsValue (digits : Text) : Nat := digits.foldl (fun n c => n * 10 + (c.toNat - 48)) 0

/-- Digits, white space and null characters. -/
def unsigned (t : Text) : Option Nat :=
  let digits := t.takeWhile Char.isDigit
  let rest := (t.dropWhile Char.isDigit).dropWhile (fun c => c.toNat == 0x20 || (0x09 ≤ c.toNat && c.toNat ≤ 0x0D))
  if digits ≠ [] ∧ rest.all (fun c => c.toNat == 0) then some (digitsValue digits) else none

/-- The integer a text reads as, with a leading sign. -/
def integer (t : Text) : Option Int :=
  match t with
  | '-' :: rest => (unsigned rest).map (fun n => -(n : Int))
  | '+' :: rest => (unsigned rest).map (fun n => (n : Int))
  | _ => (unsigned t).map (fun n => (n : Int))

def int32 (n : Int) : Bool := -2147483648 ≤ n && n ≤ 2147483647

/-! ### `Enum.Parse` -/

inductive EnumError where
  | argument
  | overflow
  deriving DecidableEq

/-- The parts of a text between commas. -/
def splitCommas : Text → List Text
  | [] => [[]]
  | c :: rest =>
      if c = ',' then [] :: splitCommas rest
      else
        match splitCommas rest with
        | part :: parts => (c :: part) :: parts
        | [] => [[c]]

section

variable {κ : Type} (names : List (Text × κ))

/-- The member with the name, up to letter case and white space around it. -/
def member (part : Text) : Option κ := (names.find? (fun entry => equalsIgnoreCase (trim part) entry.1)).map Prod.snd

/-- The members a list of names stands for. -/
def members (t : Text) : Option (List κ) := (splitCommas t).mapM (member names)

/-- `Enum.Parse` with `ignoreCase`: a number of the underlying type, or names whose values are combined. -/
def enumParse (value : κ → Nat) (t : Text) : Except EnumError Int :=
  let t := trimStart t
  if t = [] then .error .argument
  else
    match integer t with
    | some n => if int32 n then .ok n else .error .overflow
    | none =>
        match members names t with
        | some found => .ok (found.foldl (fun all m => all ||| value m) 0 : Nat)
        | none => .error .argument

end

/-! ### `Guid.TryParse` -/

/-- A GUID by its number. -/
structure Guid where
  number : Nat
  deriving DecidableEq

def hexDigit (c : Char) : Option Nat :=
  if '0' ≤ c ∧ c ≤ '9' then some (c.toNat - 48)
  else if 'a' ≤ c ∧ c ≤ 'f' then some (c.toNat - 87)
  else if 'A' ≤ c ∧ c ≤ 'F' then some (c.toNat - 55)
  else none

def hexNumber (t : Text) : Option Nat := (t.mapM hexDigit).map (·.foldl (fun n d => n * 16 + d) 0)

/-- 32 digits. -/
def guidN (t : Text) : Option Guid := if t.length = 32 then (hexNumber t).map Guid.mk else none

/-- Digits in groups of 8, 4, 4, 4 and 12. -/
def guidD (t : Text) : Option Guid :=
  if t.length = 36 ∧ (t.drop 8).head? = some '-' ∧ (t.drop 13).head? = some '-' ∧ (t.drop 18).head? = some '-' ∧
      (t.drop 23).head? = some '-' then
    guidN (t.take 8 ++ (t.drop 9).take 4 ++ (t.drop 14).take 4 ++ (t.drop 19).take 4 ++ t.drop 24)
  else none

/-- The form D in braces or parentheses. -/
def guidEnclosed (left right : Char) (t : Text) : Option Guid :=
  if t.head? = some left ∧ t.getLast? = some right then guidD (t.drop 1).dropLast else none

/-- A field of the form X. -/
def hexField (width : Nat) (t : Text) : Option Nat :=
  match t with
  | '0' :: 'x' :: digits => if 1 ≤ digits.length ∧ digits.length ≤ width then hexNumber digits else none
  | _ => none

/-- Hexadecimal fields in nested braces. -/
def guidX (t : Text) : Option Guid :=
  let t := t.filter (fun c => !isWhiteSpace c)
  if t.head? = some '{' ∧ (t.reverse.take 2) = ['}', '}'] then
    match splitCommas ((t.drop 1).dropLast).dropLast with
    | a :: b :: c :: ('{' :: d) :: rest => do
        let a ← hexField 8 a
        let b ← hexField 4 b
        let c ← hexField 4 c
        let bytes ← (d :: rest).mapM (hexField 2)
        if bytes.length = 8 then some ⟨bytes.foldl (fun n d => n * 256 + d) ((a * 65536 + b) * 65536 + c)⟩ else none
    | _ => none
  else none

/-- `Guid.TryParse`: the forms N, D, B, P and X, with white space around them. -/
def guidTryParse (t : Text) : Option Guid :=
  let t := trim t
  guidN t <|> guidD t <|> guidEnclosed '{' '}' t <|> guidEnclosed '(' ')' t <|> guidX t

/-! ### Words of letters -/

def IsLetter (c : Char) : Prop := 65 ≤ c.toNat ∧ c.toNat ≤ 90 ∨ 97 ≤ c.toNat ∧ c.toNat ≤ 122

theorem IsLetter.of_toLower {c : Char} (low : 97 ≤ c.toLower.toNat) (high : c.toLower.toNat ≤ 122) : IsLetter c := by
  delta Char.toLower at low high
  split at low
  · rename_i upper
    rw [IsLetter]
    have first := UInt32.le_iff_toNat_le.mp upper.1
    have last := UInt32.le_iff_toNat_le.mp upper.2
    exact .inl ⟨first, last⟩
  · rename_i other
    rw [dif_neg other] at high
    exact .inr ⟨low, high⟩

theorem IsLetter.not_space {c : Char} (letter : IsLetter c) : isWhiteSpace c = false := by
  simp only [IsLetter] at letter
  simp only [isWhiteSpace, Bool.or_eq_false_iff, Bool.and_eq_false_iff, decide_eq_false_iff_not, beq_eq_false_iff_ne,
    ne_eq, Nat.not_le]
  omega

theorem IsLetter.not_digit {c : Char} (letter : IsLetter c) : c.isDigit = false := by
  simp only [IsLetter] at letter
  have value : c.val.toNat = c.toNat := rfl
  simp only [Char.isDigit, Bool.and_eq_false_iff, decide_eq_false_iff_not, ge_iff_le, UInt32.le_iff_toNat_le, value,
    Nat.not_le]
  change c.toNat < 48 ∨ 57 < c.toNat
  omega

theorem IsLetter.ne {c other : Char} (letter : IsLetter c) (sign : ¬ IsLetter other) : c ≠ other := by
  rintro rfl
  exact sign letter

/-- A text of letters only. -/
def Letters (t : Text) : Prop := t ≠ [] ∧ ∀ c ∈ t, IsLetter c

theorem dropWhile_space {t : Text} (letters : ∀ c ∈ t, IsLetter c) : t.dropWhile isWhiteSpace = t := by
  cases t with
  | nil => rfl
  | cons c rest => rw [List.dropWhile_cons, (letters c List.mem_cons_self).not_space, if_neg (by decide)]

theorem Letters.trim {t : Text} (letters : Letters t) : trim t = t := by
  have back : ∀ c ∈ t.reverse, IsLetter c := fun c inside => letters.2 c (List.mem_reverse.mp inside)
  rw [DotNet.trim, trimStart, dropWhile_space letters.2, dropWhile_space back, List.reverse_reverse]

theorem splitCommas_letters {t : Text} (letters : ∀ c ∈ t, IsLetter c) : splitCommas t = [t] := by
  induction t with
  | nil => rfl
  | cons c rest ih =>
      have comma : c ≠ ',' := (letters c List.mem_cons_self).ne (by unfold IsLetter; decide)
      rw [splitCommas, if_neg comma, ih (fun d inside => letters d (List.mem_cons_of_mem _ inside))]

theorem Letters.integer {t : Text} (letters : Letters t) : integer t = none := by
  obtain ⟨some, all⟩ := letters
  cases t with
  | nil => exact absurd rfl some
  | cons c rest =>
      have letter := all c List.mem_cons_self
      have minus : c ≠ '-' := letter.ne (by unfold IsLetter; decide)
      have plus : c ≠ '+' := letter.ne (by unfold IsLetter; decide)
      have unread : unsigned (c :: rest) = none := by
        simp [unsigned, letter.not_digit]
      rw [DotNet.integer.eq_3 _ (fun rest' same => minus (List.cons.inj same).1)
        (fun rest' same => plus (List.cons.inj same).1), unread]
      rfl

section

variable {κ : Type} {names : List (Text × κ)}

theorem Letters.members {t : Text} (letters : Letters t) {m : κ}
    (found : (names.find? (fun entry => equalsIgnoreCase t entry.1)).map Prod.snd = some m) :
    members names t = some [m] := by
  have here : member names t = some m := by
    rw [member, letters.trim]
    exact found
  rw [DotNet.members, splitCommas_letters letters.2, List.mapM_cons, here]
  rfl

/-- A word stands for its member. -/
theorem enumParse_word {value : κ → Nat} {t : Text} (letters : Letters t) {m : κ}
    (found : (names.find? (fun entry => equalsIgnoreCase t entry.1)).map Prod.snd = some m) :
    enumParse names value t = .ok (value m) := by
  simp only [enumParse, trimStart, dropWhile_space letters.2, if_neg letters.1, letters.integer,
    letters.members found, List.foldl_cons, List.foldl_nil, Nat.zero_or]

end

end IcapService.DotNet
