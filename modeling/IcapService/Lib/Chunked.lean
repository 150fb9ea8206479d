import IcapService.Lib.CString

/-! The chunked coding of a body.

A chunk is a size in hexadecimal digits, optional blanks, CRLF, as many bytes as the size says and
CRLF. The last chunk has size zero, no data and possibly an extension behind a semicolon. -/

namespace IcapService.Chunked

open CString

/-- `1*HEXDIG` and optional blanks. -/
structure SizeText where
  digits : Bytes
  blanks : Bytes
  some : digits ≠ []
  hex : ∀ c ∈ digits, isDigit 16 c
  blank : ∀ c ∈ blanks, isBlank c

namespace SizeText

def text (t : SizeText) : Bytes := t.digits ++ t.blanks

def value (t : SizeText) : Nat := number 16 t.digits

end SizeText

structure Chunk extends SizeText where
  data : Bytes
  nonempty : data ≠ []
  size : toSizeText.value = data.length

def Chunk.encode (c : Chunk) : Bytes := c.text ++ crlf ++ c.data ++ crlf

/-- What may follow the size of the last chunk, with the blanks behind the semicolon. -/
inductive Extension where
  | none
  | ieof (blanks : Bytes) (blank : ∀ c ∈ blanks, isBlank c)
  | useOriginalBody (blanks digits : Bytes) (blank : ∀ c ∈ blanks, isBlank c)
      (some : digits ≠ []) (decimal : ∀ c ∈ digits, isDigit 10 c)

def Extension.text : Extension → Bytes
  | none => []
  | ieof blanks _ => ascii ";" ++ blanks ++ ascii "ieof"
  | useOriginalBody blanks digits _ _ _ => ascii ";" ++ blanks ++ ascii "use-original-body=" ++ digits

structure LastChunk extends SizeText where
  zero : toSizeText.value = 0
  extension : Extension

def LastChunk.line (l : LastChunk) : Bytes := l.text ++ l.extension.text

def LastChunk.encode (l : LastChunk) : Bytes := l.line ++ crlf ++ crlf

/-- A body cut into chunks. -/
structure Coding where
  chunks : List Chunk
  last : LastChunk

namespace Coding

def encode (k : Coding) : Bytes := (k.chunks.map Chunk.encode).flatten ++ k.last.encode

def body (k : Coding) : Bytes := (k.chunks.map Chunk.data).flatten

theorem encode_cons (c : Chunk) (cs : List Chunk) (last : LastChunk) :
    encode ⟨c :: cs, last⟩ = c.text ++ crlf ++ c.data ++ crlf ++ encode ⟨cs, last⟩ := by
  simp [encode, Chunk.encode]

theorem body_cons (c : Chunk) (cs : List Chunk) (last : LastChunk) :
    body ⟨c :: cs, last⟩ = c.data ++ body ⟨cs, last⟩ := by
  simp [body]

theorem encode_pos (k : Coding) : 0 < k.encode.length := by
  simp only [encode, LastChunk.encode, crlf, List.length_append, List.length_cons]
  omega

theorem body_length_le (k : Coding) : k.body.length ≤ k.encode.length := by
  obtain ⟨chunks, last⟩ := k
  induction chunks with
  | nil => simp [body]
  | cons c cs ih =>
      simp only [body_cons, encode_cons, List.length_append]
      omega

end Coding

/-! ### Lines hold no carriage return -/

theorem blank_ne_cr {c : UInt8} (blank : isBlank c) : c ≠ cr := by
  rintro rfl
  revert blank
  decide

theorem SizeText.text_ne_cr (t : SizeText) : ∀ c ∈ t.text, c ≠ cr := by
  intro c member
  rcases List.mem_append.mp member with digit | blank
  · exact hexDigit_ne (t.hex c digit) (by decide)
  · exact blank_ne_cr (t.blank c blank)

theorem Extension.text_ne_cr (e : Extension) : ∀ c ∈ e.text, c ≠ cr := by
  intro c member
  cases e with
  | none => simp [text] at member
  | ieof blanks blank =>
      simp only [text, List.mem_append] at member
      rcases member with (semicolon | spaces) | word
      · rintro rfl
        revert semicolon
        decide
      · exact blank_ne_cr (blank c spaces)
      · rintro rfl
        revert word
        decide
  | useOriginalBody blanks digits blank some decimal =>
      simp only [text, List.mem_append] at member
      rcases member with ((semicolon | spaces) | word) | digit
      · rintro rfl
        revert semicolon
        decide
      · exact blank_ne_cr (blank c spaces)
      · rintro rfl
        revert word
        decide
      · rintro rfl
        have ten := decimal _ digit
        revert ten
        decide

theorem LastChunk.line_ne_cr (l : LastChunk) : ∀ c ∈ l.line, c ≠ cr := by
  intro c member
  rcases List.mem_append.mp member with size | extension
  · exact l.text_ne_cr c size
  · exact l.extension.text_ne_cr c extension

/-! ### Numbers as `%x` and `%d` print them -/

theorem digitChar_value (d : Nat) (small : d < 16) : digitVal (Nat.digitChar d).toNat.toUInt8 = d := by
  have each : ∀ d : Fin 16, digitVal (Nat.digitChar d).toNat.toUInt8 = d := by decide
  exact each ⟨d, small⟩

theorem digitsText_step (base n : Nat) (two : 1 < base) (big : base ≤ n) :
    digitsText base n = digitsText base (n / base) ++ [(Nat.digitChar (n % base)).toNat.toUInt8] := by
  simp [digitsText, Nat.toDigits_of_base_le two big]

theorem digitsText_small (base n : Nat) (small : n < base) :
    digitsText base n = [(Nat.digitChar n).toNat.toUInt8] := by
  simp [digitsText, Nat.toDigits_of_lt_base small]

theorem number_concat (base : Nat) (digits : Bytes) (c : UInt8) :
    number base (digits ++ [c]) = number base digits * base + digitVal c := by
  simp [number]

/-- The text of a number has digits of its base and denotes it. -/
theorem digitsText_spec (base n : Nat) (two : 1 < base) (sixteen : base ≤ 16) :
    digitsText base n ≠ [] ∧ (∀ c ∈ digitsText base n, isDigit base c) ∧
      number base (digitsText base n) = n := by
  induction n using Nat.strongRecOn with
  | ind n ih =>
      by_cases small : n < base
      · have value := digitChar_value n (by omega)
        rw [digitsText_small base n small]
        exact ⟨by simp, by simpa [isDigit, value] using small, by simpa [number] using value⟩
      · obtain ⟨-, hex, front⟩ := ih (n / base) (Nat.div_lt_self (by omega) two)
        have below := Nat.mod_lt n (by omega : 0 < base)
        have value := digitChar_value (n % base) (by omega)
        rw [digitsText_step base n two (by omega)]
        refine ⟨by simp, ?_, ?_⟩
        · intro c member
          rcases List.mem_append.mp member with inside | back
          · exact hex c inside
          · rw [List.mem_singleton.mp back]
            simpa [isDigit, value] using below
        · rw [number_concat, front, value]
          exact Nat.div_add_mod' n base

theorem hexText_spec (n : Nat) :
    hexText n ≠ [] ∧ (∀ c ∈ hexText n, isDigit 16 c) ∧ number 16 (hexText n) = n :=
  digitsText_spec 16 n (by decide) (by decide)

theorem digitsText_length (base n k : Nat) (two : 1 < base) (small : n < base ^ (k + 1)) :
    (digitsText base n).length ≤ k + 1 := by
  induction k generalizing n with
  | zero => simp [digitsText_small base n (by simpa using small)]
  | succ k ih =>
      by_cases digit : n < base
      · simp [digitsText_small base n digit]
      · have shorter := ih (n / base) (by
          rw [Nat.pow_succ] at small
          exact Nat.div_lt_of_lt_mul (by rwa [Nat.mul_comm]))
        rw [digitsText_step base n two (by omega), List.length_append, List.length_singleton]
        omega

theorem hexText_length (n k : Nat) (small : n < 16 ^ (k + 1)) : (hexText n).length ≤ k + 1 :=
  digitsText_length 16 n k (by decide) small

/-- The chunk a writer makes of a block of data. -/
def chunkOf (data : Bytes) (nonempty : data ≠ []) : Chunk where
  digits := hexText data.length
  blanks := []
  some := (hexText_spec data.length).1
  hex := (hexText_spec data.length).2.1
  blank := by simp
  data := data
  nonempty := nonempty
  size := (hexText_spec data.length).2.2

theorem chunkOf_encode (data : Bytes) (nonempty : data ≠ []) :
    (chunkOf data nonempty).encode = hexText data.length ++ crlf ++ data ++ crlf := by
  simp [chunkOf, Chunk.encode, SizeText.text]

/-- The last chunk `0`, without an extension or with one. -/
def lastOf (extension : Extension) : LastChunk where
  digits := ascii "0"
  blanks := []
  some := by decide
  hex := List.all_eq_true.mp (by decide)
  blank := by simp
  zero := by decide
  extension := extension

end IcapService.Chunked
