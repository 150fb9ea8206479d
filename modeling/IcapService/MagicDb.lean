import IcapService.Lib.CInt
import IcapService.Lib.Strings

/-! The database of magic records that `filetype.c` reads from a file.

A line is what `fgets` has read up to its first NUL. Groups and descriptions are left out: nothing that looks at data
reads them. -/

namespace IcapService

open CInt CString

def magicSize : Nat := 50
def nameSize : Nat := 15

/-- The value of a decimal number before it is cut to a `long`. -/
def decimalValue (s : Bytes) : Int :=
  let signed := s.dropWhile isSpace
  let sign := strtolSign signed
  let digits := (signed.drop sign.2).takeWhile (isDigit 10)
  if sign.1 then -(number 10 digits : Int) else number 10 digits

/-- `strtol` has set `errno`. -/
def strtolErrno (s : Bytes) : Bool := clampLong (decimalValue s) != decimalValue s

/-- The bytes of a magic, with room for so many, and what is left of the line; an escape that is no byte or is cut off
is an error. -/
def parseMagic : Nat → Bytes → Option (Bytes × Bytes)
  | 0, s => some ([], s)
  | room + 1, s =>
      let escape (c : Int) (rest : Bytes) : Option (Bytes × Bytes) :=
        if 256 < c ∨ c < 0 then none
        else (parseMagic room rest).map fun r => (UInt8.ofNat c.toNat :: r.1, r.2)
      match s with
      | [] => some ([], [])
      | 92 :: 120 :: a :: b :: rest => escape (strtol 16 [a, b, 0]).1 rest
      | 92 :: a :: b :: c :: rest => escape (strtol 8 [a, b, c, 0]).1 rest
      | 92 :: _ => none
      | c :: rest => if c = 58 then some ([], s) else (parseMagic room rest).map fun r => (c :: r.1, r.2)

theorem parseMagic_length {room : Nat} {s magic rest : Bytes} (parsed : parseMagic room s = some (magic, rest)) :
    magic.length ≤ room := by
  induction room generalizing s magic rest with
  | zero =>
      cases parsed
      exact Nat.le_refl 0
  | succ room ih =>
      have more : ∀ (c : UInt8) (s : Bytes), (parseMagic room s).map (fun r => (c :: r.1, r.2)) = some (magic, rest) →
          magic.length ≤ room + 1 := by
        intro c s parsed
        obtain ⟨r, inner, same⟩ := Option.map_eq_some_iff.mp parsed
        cases same
        exact Nat.succ_le_succ (ih inner)
      unfold parseMagic at parsed
      dsimp only at parsed
      split at parsed
      · cases parsed
        exact Nat.zero_le _
      · split at parsed
        · cases parsed
        · exact more _ _ parsed
      · split at parsed
        · cases parsed
        · exact more _ _ parsed
      · cases parsed
      · split at parsed
        · cases parsed
          exact Nat.zero_le _
        · exact more _ _ parsed

/-- A magic of a record: `offset` is an `int`, and the bytes fit their array. -/
structure CiMagic where
  offset : Int
  magic : Bytes
  type : Nat
  low : -2147483648 ≤ offset
  high : offset < 2147483648
  short : magic.length ≤ magicSize

inductive ParsedRecord where
  | skipped
  | failed
  /-- A record of the type with this name, whatever number the type gets. -/
  | record (name : Bytes) (magic : Nat → CiMagic)

/-- `parse_record` -/
def parseRecord (text : Bytes) : ParsedRecord :=
  if text.length < 4 ∨ at0 text 0 = 35 then .skipped
  else
    let line := text.dropLast
    let offset := strtol 10 line
    if at0 line offset.2 ≠ 58 ∨ strtolErrno line = true then .skipped
    else
      match parsed : parseMagic magicSize (line.drop (offset.2 + 1)) with
      | none => .failed
      | some (magic, 58 :: rest) =>
          let name := rest.takeWhile (· != 58)
          -- a colon behind the name, and another one behind the description
          if (rest.drop name.length).tail.contains 58 then
            .record (name.take nameSize) fun type =>
              ⟨wrap32 offset.1, magic, type, (wrap32_bounds _).1, (wrap32_bounds _).2, parseMagic_length parsed⟩
          else .failed
      | some _ => .failed

/-- The names of the types and the records, in their order. -/
structure MagicsDb where
  types : List Bytes
  magics : List CiMagic

/-- `predefined_types`, in the order of their numbers. -/
def predefinedTypes : List Bytes :=
  [ascii "ASCII", ascii "ISO-8859", ascii "EXT-ASCII", ascii "UTF", ascii "HTML", ascii "BINARY"]

namespace MagicsDb

/-- A record is added under the type of its name, which is added when there is none. -/
def add (db : MagicsDb) (name : Bytes) (magic : Nat → CiMagic) : MagicsDb :=
  match db.types.findIdx? (strcaseeq name) with
  | some type => { db with magics := db.magics ++ [magic type] }
  | none => ⟨db.types ++ [name], db.magics ++ [magic db.types.length]⟩

/-- `ci_magics_db_file_add`: the lines up to the first error. -/
def fileAdd (db : MagicsDb) : List Bytes → MagicsDb
  | [] => db
  | line :: lines =>
      match parseRecord line with
      | .skipped => db.fileAdd lines
      | .failed => db
      | .record name magic => (db.add name magic).fileAdd lines

/-- `ci_magics_db_build` -/
def build (lines : List Bytes) : MagicsDb := fileAdd ⟨predefinedTypes, []⟩ lines

end MagicsDb

end IcapService
