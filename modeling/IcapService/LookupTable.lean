import IcapService.Lib.Chains
import IcapService.ReadRow

/-! The `file` and `hash` lookup tables of `lookup_file_table.c`, over the hash tables of `hash.c`.

Both load the rows of the file in the same way. The one is searched from its first row on, the other through a
hash table that the rows have been added to. -/

namespace IcapService

open CString CInt Chains

/-- The values behind a key up to their NULL, when the row has an array for them. -/
def TextEntry.valueList (e : TextEntry) : Option (List Bytes) :=
  e.vals.map (fun slots => (slots.takeWhile Option.isSome).reduceOption)

/-! ### Hash tables -/

/-- `ci_hash_compute`. -/
def ciHashCompute (hashMaxValue : Nat) (key : Bytes) (len : Int) : Nat :=
  let read := if len ≠ 0 then (key ++ [0]).take len.toNat else key
  let hash := read.foldl (fun hash c => ((hash <<< 5) + hash + c.toNat) % 2 ^ 64) 5381
  (if hash = 0 then hash + 1 else hash) &&& hashMaxValue

theorem ciHashCompute_le (hashMaxValue : Nat) (key : Bytes) (len : Int) :
    ciHashCompute hashMaxValue key len ≤ hashMaxValue := Nat.and_le_right

/-- A `struct ci_hash_table` with the heads of its chains. -/
structure HashTable where
  size : Nat
  chains : Fin (size + 1) → List TextEntry

/-- The loop of `ci_hash_build` over the size. -/
def growHash (hashSize newSize : Nat) : Nat :=
  if newSize < hashSize ∧ newSize < 0xFFFFFF then growHash hashSize (((newSize + 1) <<< 1) - 1) else newSize
termination_by 0xFFFFFF - newSize
decreasing_by
  simp only [Nat.shiftLeft_succ, Nat.shiftLeft_zero]
  omega

/-- The chain of a key; `stringlen` counts the NUL, and the length is passed as an `int`. The mask keeps it within
the table, as both callers assert. -/
def HashTable.index (t : HashTable) (key : Bytes) : Fin (t.size + 1) :=
  ⟨ciHashCompute t.size key (wrap32 (key.length + 1)), Nat.lt_succ_of_le (ciHashCompute_le _ _ _)⟩

/-- A `struct text_table`. -/
structure TextTable where
  entries : List TextEntry
  rows : Nat
  deriving DecidableEq

/-- The bytes that `fgets` takes for a buffer of `size` bytes. -/
def fgets (size : Nat) (file : Bytes) : Bytes :=
  let line := file.takeWhile (· != 10)
  (line ++ (file.drop line.length).take 1).take (size - 1)

/-- The loop of `load_text_table` over the rows: no result when a row has none, no table when a row is rejected. -/
def loadRows (cols : Int) : Nat → Bytes → TextTable → Option (Option TextTable)
  | 0, _, _ => none
  | fuel + 1, file, t =>
      let raw := fgets 65535 file
      if raw = [] then some (some t)
      else
        match readRow raw cols with
        | none => none
        | some .rejected => some none
        | some .noRow => loadRows cols fuel (file.drop raw.length) { t with rows := t.rows + 1 }
        | some (.row e) => loadRows cols fuel (file.drop raw.length) ⟨t.entries ++ [e], t.rows + 1⟩

/-- `file_table_open`. -/
def fileTableOpen (cols : Int) (file : Bytes) : Option (Option TextTable) := loadRows cols (file.length + 1) file ⟨[], 0⟩

/-- `file_table_search`. -/
def fileTableSearch (t : Option TextTable) (key : Bytes) : Option TextEntry :=
  t.bind (fun t => t.entries.find? (fun e => e.key = key))

theorem fgets_long {size : Nat} {file : Bytes} (some : fgets size file ≠ []) :
    (file.drop (fgets size file).length).length < file.length := by
  have long := List.length_pos_iff.mpr some
  have taken : (fgets size file).length ≤ file.length := by
    rw [fgets, List.length_take, List.length_append, List.length_take, List.length_drop]
    have front := (List.takeWhile_prefix (· != 10) (l := file)).length_le
    omega
  rw [List.length_drop]
  omega

/-- Every row takes bytes of the file, so the loop ends before its bound does. -/
theorem loadRows_bound (cols : Int) (fuel fuel' : Nat) (file : Bytes) (t : TextTable) (enough : file.length < fuel)
    (enough' : file.length < fuel') : loadRows cols fuel file t = loadRows cols fuel' file t := by
  induction fuel generalizing fuel' file t with
  | zero => cases enough
  | succ fuel ih =>
      obtain ⟨fuel', rfl⟩ : ∃ n, fuel' = n + 1 := ⟨fuel' - 1, by omega⟩
      simp only [loadRows]
      by_cases last : fgets 65535 file = []
      · rw [if_pos last, if_pos last]
      · have shorter := fgets_long last
        rw [if_neg last, if_neg last]
        split
        · rfl
        · rfl
        · exact ih fuel' _ _ (by omega) (by omega)
        · exact ih fuel' _ _ (by omega) (by omega)

end IcapService
