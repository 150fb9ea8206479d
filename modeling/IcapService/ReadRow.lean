import Mathlib.Data.FinEnum
import Mathlib.Data.List.DropRight
import IcapService.Lib.Memory

/-! The rows of the text tables of `lookup_file_table.c`.

A line is the bytes that `fgets` has put into the buffer with the NUL behind them. Whatever reads or writes
outside of these bytes, or outside of the array of the values, has no result. -/

namespace IcapService

open CString

/-- A `struct text_table_entry`: its key, and the slots of its values. -/
structure TextEntry where
  key : Bytes
  vals : Option (List (Option Bytes))
  deriving DecidableEq

/-- What `read_row` returns for a line: a line without a row, a row, or an error. -/
inductive RowResult where
  | noRow
  | row (e : TextEntry)
  | rejected
  deriving DecidableEq

/-- The slots that `alloc_text_table_entry` makes. -/
def allocVals (valNum : Int) : Option (List (Option Bytes)) :=
  if 0 < valNum then some (List.replicate (valNum.toNat + 1) none) else none

/-- `index`: how far from the position the byte is. -/
def indexFrom (line : Bytes) (s : Nat) (c : UInt8) : Option Nat :=
  if c ∈ cstring line s then some ((cstring line s).takeWhile (· != c)).length else none

/-- `while (*s == ' ' || *s == '\t') s++`. -/
def skipBlanksFrom (line : Bytes) (s : Nat) : Nat := s + ((line.drop s).takeWhile isBlank).length

/-- `while (*end != ',' && *end != '\0') end++`. -/
def fieldEnd (line : Bytes) (s : Nat) : Nat := s + ((line.drop s).takeWhile (fun c => c != 44 && c != 0)).length

/-- `end--; while (*end == ' ' || *end == '\t') end--`: the position behind `end`, without a result when `end`
leaves the line at the front. -/
def trimBack (line : Bytes) : Nat → Option Nat
  | 0 => none
  | e + 1 => if isBlank (at0 line e) then trimBack line e else some (e + 1)

/-- A store into the slots. -/
def setSlot (slots : List (Option Bytes)) (i : Nat) (v : Option Bytes) : Option (List (Option Bytes)) :=
  if i < slots.length then some (slots.set i v) else none

/-- `release_text_table_entry` on an entry whose slots it walks up to the first NULL. -/
def releaseVals (slots : List (Option Bytes)) : Option RowResult :=
  if none ∈ slots then some .rejected else none

/-- The loop over the values of a row. -/
def readVals (rowCols : Int) (key : Bytes) : Nat → Bytes → Nat → Nat → List (Option Bytes) → Option RowResult
  | 0, _, _, _, _ => none
  | fuel + 1, line, s, i, slots =>
      match (line)[s]? with
      | none => none
      | some c =>
          if c = 0 then (setSlot slots i none).map (fun slots => .row ⟨key, some slots⟩)
          else if rowCols ≤ i then releaseVals slots
          else
            let val := skipBlanksFrom line s
            let stop := fieldEnd line val
            match trimBack line stop with
            | none => none
            | some e =>
                match setSlot slots i (some (cstring (line.set e 0) val)) with
                | none => none
                | some slots =>
                    readVals rowCols key fuel (line.set e 0) (if at0 line stop = 0 then stop else stop + 1) (i + 1) slots

/-- The number of columns the row is taken to have. -/
def rowColumns (line : Bytes) (cols : Int) : Int :=
  if cols < 0 then
    match indexFrom line 0 58 with
    | none => 1
    | some s => 2 + (cstring line s).count 44
  else cols

/-- `read_row` behind the checks for comments and blank lines; the text starts at `s`. -/
def readColumns (line : Bytes) (s : Nat) (cols : Int) : Option RowResult :=
  let rowCols := rowColumns line cols
  let whole := s + (cstring line s).length
  let stop := if 1 < rowCols then ((indexFrom line s 58).map (s + ·)).getD whole else whole
  match trimBack line stop with
  | none => none
  | some e =>
      let key := cstring (line.set e 0) s
      match allocVals (rowCols - 1) with
      | none => some (.row ⟨key, none⟩)
      | some slots => readVals rowCols key (line.length + 1) (line.set e 0) (stop + 1) 0 slots

/-- The newline at the end of a line is overwritten. -/
def eatNewline (line : Bytes) : Bytes :=
  if at0 line (strlen line - 1) = 10 then line.set (strlen line - 1) 0 else line

/-- `read_row` on the bytes of a line. -/
def readRow (raw : Bytes) (cols : Int) : Option RowResult :=
  if strlen (raw ++ [0]) = 0 then none
  else
    let line := eatNewline (raw ++ [0])
    let s := skipBlanksFrom line 0
    if at0 line s = 35 then some .noRow
    else if at0 line s = 0 then some .noRow
    else readColumns line s cols

/-! ### The parse that is meant -/

def trimBlanks (t : Bytes) : Bytes := (t.dropWhile isBlank).rdropWhile isBlank

/-- The text of a line. -/
def lineText (raw : Bytes) : Bytes :=
  let text := raw.takeWhile (· != 0)
  if text.getLast? = some 10 then text.dropLast else text

/-- A row as it is meant: a key and its values. -/
inductive Row where
  | none
  | pair (key : Bytes) (values : List Bytes)
  | tooMany
  deriving DecidableEq

/-- The texts between the commas. -/
def commaTexts (t : Bytes) : List Bytes := t.splitOn 44

/-- The row of a text: with at most one column, or without a colon, all of it is the key. -/
def rowOf (text : Bytes) (cols : Int) : Row :=
  if (text.dropWhile isBlank).head? = Option.none ∨ (text.dropWhile isBlank).head? = some 35 then .none
  else if cols = 0 ∨ cols = 1 ∨ 58 ∉ text then .pair (trimBlanks text) []
  else
    let texts := commaTexts ((text.dropWhile (· != 58)).drop 1)
    if 0 ≤ cols ∧ cols - 1 < texts.length then .tooMany
    else .pair (trimBlanks (text.takeWhile (· != 58))) (texts.map trimBlanks)

/-- The entry holds the values, with a NULL behind them when there is an array. -/
def TextEntry.Holds (e : TextEntry) (key : Bytes) (values : List Bytes) : Prop :=
  e.key = key ∧
    match e.vals with
    | none => values = []
    | some slots => ∃ more, slots = values.map some ++ none :: more

def RowResult.Means : RowResult → Row → Prop
  | .noRow, .none => True
  | .row e, .pair key values => e.Holds key values
  | .rejected, .tooMany => True
  | _, _ => False

/-- A line as `fgets` reads it below its limit. -/
structure RawLine where
  bytes : Bytes
  some : bytes ≠ []
  single : 10 ∉ bytes.dropLast
  short : bytes.length < 65535

/-- The line is read as it is meant. -/
def RawLine.Read (raw : RawLine) (cols : Int) : Prop :=
  ∃ r, readRow raw.bytes cols = .some r ∧ r.Means (rowOf (lineText raw.bytes) cols)

/-- Texts that are read right: none of them is blank unless it is empty or the last, and the last is not empty. -/
def TextsKept (texts : List Bytes) : Prop :=
  (∀ t ∈ texts.dropLast, t ≠ [] → ∃ c ∈ t, isBlank c = false) ∧ texts.getLast? ≠ some []

instance (texts : List Bytes) : Decidable (TextsKept texts) :=
  inferInstanceAs (Decidable ((∀ t ∈ texts.dropLast, t ≠ [] → ∃ c ∈ t, isBlank c = false) ∧ texts.getLast? ≠ some []))

/-- The lines that are read right. -/
def RawLine.Kept (raw : RawLine) (cols : Int) : Prop :=
  raw.bytes.head? ≠ .some 0 ∧
    (rowOf (lineText raw.bytes) cols = .none ∨ cols = 0 ∨ cols = 1 ∨
      58 ∉ lineText raw.bytes ∧ (cols < 0 ∨ (raw.bytes ++ [0])[(lineText raw.bytes).length + 1]? = .some 0) ∨
      58 ∈ lineText raw.bytes ∧ trimBlanks ((lineText raw.bytes).takeWhile (· != 58)) ≠ [] ∧
        TextsKept (commaTexts (((lineText raw.bytes).dropWhile (· != 58)).drop 1)) ∧
        (cols < 0 ∨
          (commaTexts (((lineText raw.bytes).dropWhile (· != 58)).drop 1)).length < cols))

/-! ### Steps of the scanner -/

theorem isBlank_zero : isBlank 0 = false := by decide

/-- Blanks are cut off behind a byte that is none. -/
theorem rdropWhile_solid (front f : Bytes) {x : UInt8} (solid : isBlank x = false) :
    (front ++ x :: f).rdropWhile isBlank = front ++ x :: f.rdropWhile isBlank := by
  induction f using List.reverseRecOn with
  | nil => simpa using List.rdropWhile_concat_neg isBlank front x (by simp [solid])
  | append_singleton f y ih =>
      have shape : front ++ x :: (f ++ [y]) = (front ++ x :: f) ++ [y] := by simp
      rw [shape, List.rdropWhile_concat, List.rdropWhile_concat, ih]
      split
      · rfl
      · simp

/-- Going back over blanks stops behind the last other byte, if there is one. -/
theorem trimBack_append (front tail : Bytes) :
    trimBack (front ++ tail) front.length =
      if front.rdropWhile isBlank = [] then none else some (front.rdropWhile isBlank).length := by
  induction front using List.reverseRecOn generalizing tail with
  | nil => rfl
  | append_singleton front y ih =>
      have shape : front ++ [y] ++ tail = front ++ y :: tail := by simp
      rw [shape, List.length_append, List.length_singleton, trimBack, at0_append, List.rdropWhile_concat]
      by_cases blank : isBlank y
      · rw [if_pos blank, if_pos blank]
        exact ih (y :: tail)
      · rw [if_neg blank, if_neg blank, if_neg (by simp)]
        simp

theorem trimBack_solid (front f tail : Bytes) {x : UInt8} (solid : isBlank x = false) :
    trimBack (front ++ x :: (f ++ tail)) (front.length + 1 + f.length) =
      some (front.length + 1 + (f.rdropWhile isBlank).length) := by
  have shape : front ++ x :: (f ++ tail) = (front ++ x :: f) ++ tail := by simp
  have width : front.length + 1 + f.length = (front ++ x :: f).length := by
    simp only [List.length_append, List.length_cons]
    omega
  rw [shape, width, trimBack_append, rdropWhile_solid front f solid, if_neg (by simp)]
  simp only [List.length_append, List.length_cons, Option.some.injEq]
  omega

theorem takeWhile_before (p : UInt8 → Bool) (f tail : Bytes) {c : UInt8} (stop : p c = false) :
    (f ++ c :: tail).takeWhile p = f.takeWhile p := by
  induction f with
  | nil => simp [stop]
  | cons d f ih =>
      cases here : p d <;> simp [here, ih]

/-- A text is its blanks, what is kept of it, and blanks. -/
theorem trim_split (f : Bytes) :
    f = f.takeWhile isBlank ++ (trimBlanks f ++ (f.dropWhile isBlank).rtakeWhile isBlank) := by
  rw [trimBlanks, List.rdropWhile_append_rtakeWhile, List.takeWhile_append_dropWhile]

theorem set_append (a b : Bytes) (y v : UInt8) : (a ++ y :: b).set a.length v = a ++ v :: b := by
  simp

/-- What is stored for a text: the text without its blanks, but a blank text before a comma takes the rest of
the line with it. -/
def fieldValue (f : Bytes) (c : UInt8) (tail : Bytes) : Bytes :=
  if f ≠ [] ∧ (∀ b ∈ f, isBlank b) ∧ c ≠ 0 then c :: tail.takeWhile (· != 0) else trimBlanks f

/-- The NUL behind a text leaves a byte that is no blank in front of what follows. -/
theorem cut_tail (front f tail : Bytes) {c : UInt8} (solid : isBlank c = false) :
    ∃ (done : Bytes) (x : UInt8), (front ++ (f ++ c :: tail)).set (front.length + (f.rdropWhile isBlank).length) 0 =
      done ++ x :: tail ∧ done.length = front.length + f.length ∧ isBlank x = false ∧ (c = 0 → x = 0) := by
  have split : f.rdropWhile isBlank ++ f.rtakeWhile isBlank = f := List.rdropWhile_append_rtakeWhile
  generalize f.rdropWhile isBlank = t at split ⊢
  generalize f.rtakeWhile isBlank = r at split
  subst split
  have width : front.length + t.length = (front ++ t).length := by simp
  cases r with
  | nil =>
      refine ⟨front ++ t, 0, ?_, by simp, isBlank_zero, fun _ => rfl⟩
      rw [width, List.append_nil, ← List.append_assoc, set_append]
  | cons y r =>
      refine ⟨front ++ t ++ 0 :: r, c, ?_, ?_, solid, id⟩
      · have shape : front ++ (t ++ y :: r ++ c :: tail) = (front ++ t) ++ y :: (r ++ c :: tail) := by simp
        rw [width, shape, set_append]
        simp
      · simp only [List.length_append, List.length_cons]
        omega

/-- A text with another byte than blanks starts with blanks and that byte. -/
theorem solid_split {f : Bytes} (some : ¬ ∀ b ∈ f, isBlank b) :
    ∃ (x : UInt8) (g : Bytes), f = f.takeWhile isBlank ++ x :: g ∧ isBlank x = false ∧
      trimBlanks f = x :: g.rdropWhile isBlank ∧
      f.rdropWhile isBlank = f.takeWhile isBlank ++ trimBlanks f := by
  have split : f.takeWhile isBlank ++ f.dropWhile isBlank = f := List.takeWhile_append_dropWhile
  cases rest : f.dropWhile isBlank with
  | nil => exact absurd (List.dropWhile_eq_nil_iff.mp rest) some
  | cons x g =>
      rw [rest] at split
      have solid : isBlank x = false := by
        have first := List.head?_dropWhile_not isBlank f
        simpa [rest] using first
      have kept : trimBlanks f = x :: g.rdropWhile isBlank := by
        rw [trimBlanks, rest]
        exact rdropWhile_solid [] g solid
      refine ⟨x, g, split.symm, solid, kept, ?_⟩
      rw [kept, ← rdropWhile_solid _ g solid, split]

theorem trimBlanks_blank {f : Bytes} (blank : ∀ b ∈ f, isBlank b) : trimBlanks f = [] := by
  rw [trimBlanks, List.dropWhile_eq_nil_iff.mpr blank, List.rdropWhile_nil]

/-- The value that is stored for a text. -/
theorem cut_value (front f tail : Bytes) (c : UInt8) (plain : 0 ∉ f) :
    cstring ((front ++ (f ++ c :: tail)).set (front.length + (f.rdropWhile isBlank).length) 0)
      (front.length + (f.takeWhile isBlank).length) = fieldValue f c tail := by
  by_cases blank : ∀ b ∈ f, isBlank b
  · have all : f.takeWhile isBlank = f := List.takeWhile_eq_self_iff.mpr blank
    rw [List.rdropWhile_eq_nil_iff.mpr blank, all, List.length_nil, Nat.add_zero]
    cases f with
    | nil =>
        rw [List.nil_append, set_append, List.length_nil, Nat.add_zero, fieldValue, if_neg (by simp)]
        exact cstring_append front [] tail (by simp)
    | cons y f =>
        have shape : front ++ (y :: f ++ c :: tail) = front ++ y :: (f ++ c :: tail) := rfl
        rw [shape, set_append]
        have width : front.length + (y :: f).length = (front ++ 0 :: f).length := by simp
        have moved : front ++ 0 :: (f ++ c :: tail) = (front ++ 0 :: f) ++ c :: tail := by simp
        rw [width, moved, cstring, List.drop_left, fieldValue]
        by_cases last : c = 0
        · rw [if_neg (by simp [last]), trimBlanks_blank blank]
          simp [last]
        · rw [if_pos ⟨List.cons_ne_nil _ _, blank, last⟩]
          simp [last]
  · obtain ⟨x, g, split, solid, kept, whole⟩ := solid_split blank
    have trim := trim_split f
    rw [fieldValue, if_neg (fun taken => blank taken.2.1), whole, List.length_append]
    generalize f.takeWhile isBlank = lead at *
    generalize trimBlanks f = core at *
    generalize (f.dropWhile isBlank).rtakeWhile isBlank = trail at trim
    subst trim
    have inner : 0 ∉ core := fun member => plain (by simp [member])
    have position : front.length + (lead.length + core.length) = (front ++ lead ++ core).length := by
      simp only [List.length_append]
      omega
    obtain ⟨y, more, next⟩ : ∃ y more, trail ++ c :: tail = y :: more := by
      cases trail with
      | nil => exact ⟨c, tail, rfl⟩
      | cons y trail => exact ⟨y, trail ++ c :: tail, rfl⟩
    have shape : front ++ (lead ++ (core ++ trail) ++ c :: tail) = (front ++ lead ++ core) ++ y :: more := by
      rw [← next]
      simp
    have start : front.length + lead.length = (front ++ lead).length := by simp
    rw [shape, position, set_append, List.append_assoc (front ++ lead), start]
    exact cstring_append (front ++ lead) core more inner

/-! ### The values of a row -/

/-- The values that are stored for the texts behind the colon. -/
def codeValues : List Bytes → List Bytes
  | [] => []
  | [t] => if t = [] then [] else [trimBlanks t]
  | t :: more => fieldValue t 44 ([44].intercalate more) :: codeValues more

/-- The slots with the first values stored. -/
def slotsOf (vs : List Bytes) (m : Nat) : List (Option Bytes) := vs.map some ++ List.replicate m none

theorem setSlot_value (vs : List Bytes) (m : Nat) (v : Bytes) :
    setSlot (slotsOf vs m) vs.length (some v) = if 0 < m then some (slotsOf (vs ++ [v]) (m - 1)) else none := by
  cases m with
  | zero => simp [setSlot, slotsOf]
  | succ m =>
      simp [setSlot, slotsOf, List.replicate_succ]

theorem setSlot_null (vs : List Bytes) (m : Nat) :
    setSlot (slotsOf vs m) vs.length none = if 0 < m then some (slotsOf vs m) else none := by
  cases m with
  | zero => simp [setSlot, slotsOf]
  | succ m =>
      simp [setSlot, slotsOf, List.replicate_succ]

/-- At a NUL the loop ends, with room for a NULL or not. -/
theorem readVals_end (rowCols : Int) (key : Bytes) (fuel : Nat) (line : Bytes) (s : Nat) (vs : List Bytes) (m : Nat)
    (here : (line)[s]? = some 0) :
    readVals rowCols key (fuel + 1) line s vs.length (slotsOf vs m) =
      if 0 < m then some (.row ⟨key, some (slotsOf vs m)⟩) else none := by
  simp only [readVals, here, if_true, setSlot_null]
  split <;> rfl

theorem skipBlanksFrom_at (front f tail : Bytes) {c : UInt8} (solid : isBlank c = false) :
    skipBlanksFrom (front ++ (f ++ c :: tail)) front.length = front.length + (f.takeWhile isBlank).length := by
  rw [skipBlanksFrom, List.drop_left, takeWhile_before isBlank f tail solid]

theorem fieldEnd_at (front f tail : Bytes) {c : UInt8} (plain : ∀ b ∈ f, b ≠ 44 ∧ b ≠ 0) (sep : c = 44 ∨ c = 0) :
    fieldEnd (front ++ (f ++ c :: tail)) (front.length + (f.takeWhile isBlank).length) = front.length + f.length := by
  have split : f.takeWhile isBlank ++ f.dropWhile isBlank = f := List.takeWhile_append_dropWhile
  have stop : (fun b : UInt8 => b != 44 && b != 0) c = false := by rcases sep with rfl | rfl <;> rfl
  have inner : ∀ b ∈ f.dropWhile isBlank, (fun b : UInt8 => b != 44 && b != 0) b = true := by
    intro b member
    obtain ⟨comma, nul⟩ := plain b ((List.dropWhile_sublist _).mem member)
    simp [comma, nul]
  have moved : (front ++ (f ++ c :: tail)).drop (front.length + (f.takeWhile isBlank).length) =
      f.dropWhile isBlank ++ c :: tail := by
    rw [← List.drop_drop, List.drop_left]
    nth_rewrite 2 [← split]
    rw [List.append_assoc, List.drop_left]
  rw [fieldEnd, moved, takeWhile_before _ _ tail stop, List.takeWhile_eq_self_iff.mpr inner, Nat.add_assoc,
    ← List.length_append, split]

/-- One text is read and its value stored. -/
theorem readVals_text (key : Bytes) (fuel : Nat) (front f tail : Bytes) (x c : UInt8) (vs : List Bytes) (m : Nat)
    (solid : isBlank x = false) (plain : ∀ b ∈ f, b ≠ 44 ∧ b ≠ 0) (sep : c = 44 ∨ c = 0) (visible : f ≠ [] ∨ c ≠ 0) :
    ∃ (done : Bytes) (y : UInt8), done.length = front.length + 1 + f.length ∧ isBlank y = false ∧ (c = 0 → y = 0) ∧
      readVals (vs.length + m : Nat) key (fuel + 1) (front ++ x :: (f ++ c :: tail)) (front.length + 1) vs.length
          (slotsOf vs m) =
        if 0 < m then
          readVals (vs.length + m : Nat) key fuel (done ++ y :: tail)
            (if c = 0 then done.length else done.length + 1) (vs.length + 1) (slotsOf (vs ++ [fieldValue f c tail]) (m - 1))
        else none := by
  have blankSep : isBlank c = false := by rcases sep with rfl | rfl <;> decide
  have nul : 0 ∉ f := fun member => (plain 0 member).2 rfl
  have shape : front ++ x :: (f ++ c :: tail) = (front ++ [x]) ++ (f ++ c :: tail) := by simp
  have width : front.length + 1 = (front ++ [x]).length := by simp
  have value := cut_value (front ++ [x]) f tail c nul
  obtain ⟨done, y, cut, long, bare, zero⟩ := cut_tail (front ++ [x]) f tail blankSep
  have back := trimBack_solid front f (c :: tail) solid
  rw [shape, width] at back
  rw [shape, width]
  refine ⟨done, y, long, bare, zero, ?_⟩
  have at_stop : at0 ((front ++ [x]) ++ (f ++ c :: tail)) ((front ++ [x]).length + f.length) = c := by
    rw [← List.append_assoc, ← List.length_append, at0_append]
  obtain ⟨b, here, some⟩ : ∃ b, ((front ++ [x]) ++ (f ++ c :: tail))[(front ++ [x]).length]? = some b ∧ b ≠ 0 := by
    cases f with
    | nil => exact ⟨c, by simp, visible.resolve_left (fun absurd => absurd rfl)⟩
    | cons b f => exact ⟨b, by simp, (plain b (by simp)).2⟩
  rw [← long] at back at_stop
  rw [cut] at value
  simp only [readVals, here, if_neg some, skipBlanksFrom_at _ f tail blankSep, fieldEnd_at _ f tail plain sep, ← long,
    back, cut, value, at_stop, setSlot_value]
  cases m with
  | zero => simp [releaseVals, slotsOf]
  | succ m =>
      have room : ¬ ((vs.length + (m + 1) : Nat) : Int) ≤ vs.length := by omega
      simp only [if_neg room, Nat.zero_lt_succ, if_true]

theorem fieldValue_tail (f rest junk : Bytes) (c : UInt8) : fieldValue f c (rest ++ 0 :: junk) = fieldValue f c rest := by
  rw [fieldValue, fieldValue, takeWhile_before _ rest junk (by decide)]

theorem fieldValue_last (f tail : Bytes) : fieldValue f 0 tail = trimBlanks f := if_neg (by simp)

/-- The texts are read one after the other, up to the end or until there is no room for a NULL behind them. -/
theorem readVals_texts (key : Bytes) (texts : List Bytes) (fuel : Nat) (front junk : Bytes) (x : UInt8) (vs : List Bytes)
    (m : Nat) (solid : isBlank x = false) (some : texts ≠ []) (plain : ∀ t ∈ texts, ∀ b ∈ t, b ≠ 44 ∧ b ≠ 0)
    (enough : texts.length < fuel) :
    readVals (vs.length + m : Nat) key fuel (front ++ x :: ([44].intercalate texts ++ 0 :: junk)) (front.length + 1)
        vs.length (slotsOf vs m) =
      if (codeValues texts).length < m then
        .some (.row ⟨key, .some (slotsOf (vs ++ codeValues texts) (m - (codeValues texts).length))⟩)
      else none := by
  induction texts generalizing fuel front x vs m with
  | nil => exact absurd rfl some
  | cons t texts ih =>
      obtain ⟨fuel, rfl⟩ : ∃ n, fuel = n + 1 := ⟨fuel - 1, by simp only [List.length_cons] at enough; omega⟩
      have own := plain t List.mem_cons_self
      cases texts with
      | nil =>
          rw [List.intercalate_singleton]
          by_cases empty : t = []
          · subst empty
            rw [readVals_end _ key fuel _ _ vs m (by simp)]
            simp [codeValues]
          · obtain ⟨done, y, -, -, zero, step⟩ := readVals_text key fuel front t junk x 0 vs m solid own (.inr rfl) (.inl empty)
            obtain ⟨fuel, rfl⟩ : ∃ n, fuel = n + 1 := ⟨fuel - 1, by simp only [List.length_cons] at enough; omega⟩
            rw [step, if_pos rfl, zero rfl, fieldValue_last]
            have last := readVals_end (vs.length + m : Nat) key fuel (done ++ 0 :: junk) done.length
              (vs ++ [trimBlanks t]) (m - 1) (by simp)
            rw [List.length_append, List.length_singleton] at last
            rw [last, codeValues, if_neg empty, List.length_singleton]
            by_cases one : 0 < m
            · rw [if_pos one]
              exact if_congr (by omega) rfl rfl
            · rw [if_neg one, if_neg (by omega)]
      | cons u more =>
          have joined : [44].intercalate (t :: u :: more) ++ 0 :: junk =
              t ++ 44 :: ([44].intercalate (u :: more) ++ 0 :: junk) := by
            rw [List.intercalate_cons_of_ne_nil (by simp)]
            simp
          obtain ⟨done, y, -, bare, -, step⟩ := readVals_text key fuel front t ([44].intercalate (u :: more) ++ 0 :: junk)
            x 44 vs m solid own (.inl rfl) (.inr (by decide))
          have values : codeValues (t :: u :: more) =
            fieldValue t 44 ([44].intercalate (u :: more)) :: codeValues (u :: more) := rfl
          rw [joined, step, fieldValue_tail, values, List.length_cons, if_neg (by decide : ¬ (44 : UInt8) = 0)]
          by_cases one : 0 < m
          · have rest := ih fuel done y (vs ++ [fieldValue t 44 ([44].intercalate (u :: more))]) (m - 1) bare (by simp)
              (fun s member => plain s (List.mem_cons_of_mem _ member)) (by simpa using enough)
            have total : (vs ++ [fieldValue t 44 ([44].intercalate (u :: more))]).length + (m - 1) = vs.length + m := by
              simp only [List.length_append, List.length_singleton]
              omega
            rw [total, List.length_append, List.length_singleton] at rest
            rw [if_pos one, rest]
            refine if_congr (by omega) ?_ rfl
            rw [List.append_assoc, List.singleton_append, Nat.sub_sub, Nat.add_comm 1]
          · rw [if_neg one, if_neg (by omega)]

/-! ### The texts that are read right -/

theorem fieldValue_comma (t rest : Bytes) : fieldValue t 44 rest = trimBlanks t ↔ (t ≠ [] → ∃ c ∈ t, isBlank c = false) := by
  rw [fieldValue]
  by_cases blank : ∀ b ∈ t, isBlank b
  · have none : ¬ ∃ c ∈ t, isBlank c = false := by
      rintro ⟨c, member, other⟩
      rw [blank c member] at other
      cases other
    by_cases empty : t = []
    · simp [empty]
    · rw [if_pos ⟨empty, blank, by decide⟩, trimBlanks_blank blank]
      simp [empty, none]
  · rw [if_neg (fun taken => blank taken.2.1)]
    push Not at blank
    obtain ⟨c, member, other⟩ := blank
    exact iff_of_true rfl (fun _ => ⟨c, member, by simpa using other⟩)

/-- The values are those of the texts exactly when the texts are kept. -/
theorem codeValues_iff (texts : List Bytes) (some : texts ≠ []) :
    codeValues texts = texts.map trimBlanks ↔ TextsKept texts := by
  induction texts with
  | nil => exact absurd rfl some
  | cons t texts ih =>
      cases texts with
      | nil =>
          by_cases empty : t = []
          · simp [codeValues, TextsKept, empty]
          · simp [codeValues, TextsKept, empty]
      | cons u more =>
          have values : codeValues (t :: u :: more) =
            fieldValue t 44 ([44].intercalate (u :: more)) :: codeValues (u :: more) := rfl
          have rest := ih (by simp)
          rw [TextsKept] at rest
          have last : (t :: u :: more).dropLast = t :: (u :: more).dropLast := rfl
          rw [values, List.map_cons, List.cons.injEq, rest, fieldValue_comma, TextsKept, last, List.forall_mem_cons,
            List.getLast?_cons_cons, and_assoc]

theorem takeWhile_slots (vs : List Bytes) (more : List (Option Bytes)) :
    (vs.map some ++ none :: more).takeWhile Option.isSome = vs.map some := by
  induction vs with
  | nil => rfl
  | cons v vs ih => simp

/-- The values that an entry holds are determined. -/
theorem holds_slots (key key' : Bytes) (vs values : List Bytes) (m : Nat) (room : 0 < m) :
    (⟨key, some (slotsOf vs m)⟩ : TextEntry).Holds key' values ↔ key = key' ∧ vs = values := by
  obtain ⟨m, rfl⟩ : ∃ n, m = n + 1 := ⟨m - 1, by omega⟩
  refine and_congr_right (fun _ => ?_)
  simp only [slotsOf, List.replicate_succ]
  constructor
  · rintro ⟨more, same⟩
    have front := congrArg (List.takeWhile Option.isSome) same
    rw [takeWhile_slots, takeWhile_slots] at front
    exact List.map_injective_iff.mpr (fun _ _ => Option.some.inj) front
  · rintro rfl
    exact ⟨_, rfl⟩

/-! ### The key and the columns -/

theorem indexFrom_some (front f rest junk : Bytes) {c : UInt8} (plain : 0 ∉ f ++ c :: rest) (before : c ∉ f) :
    indexFrom (front ++ (f ++ c :: (rest ++ 0 :: junk))) front.length c = some f.length := by
  have shape : f ++ c :: (rest ++ 0 :: junk) = (f ++ c :: rest) ++ 0 :: junk := by simp
  have word : (f ++ c :: rest).takeWhile (· != c) = f := by
    rw [takeWhile_before _ f rest (by simp), List.takeWhile_eq_self_iff]
    intro b member
    have other : b ≠ c := fun same => before (same ▸ member)
    simpa using other
  rw [indexFrom, shape, cstring_append _ _ _ plain, if_pos (by simp), word]

theorem indexFrom_none (front f junk : Bytes) {c : UInt8} (plain : 0 ∉ f) (none_ : c ∉ f) :
    indexFrom (front ++ (f ++ 0 :: junk)) front.length c = none := by
  rw [indexFrom, cstring_append _ _ _ plain, if_neg none_]

/-- In front of an empty key the scan leaves the line. -/
theorem key_empty (lead rest : Bytes) (blank : ∀ b ∈ lead, isBlank b) : trimBack (lead ++ rest) lead.length = none := by
  rw [trimBack_append, if_pos (List.rdropWhile_eq_nil_iff.mpr blank)]

/-- The key that is read when its text starts with `y` and ends at `c`, and where the line goes on. -/
theorem key_read (lead g tail : Bytes) {y c : UInt8} (plain : 0 ∉ y :: g) (first : isBlank y = false)
    (solid : isBlank c = false) :
    ∃ (done : Bytes) (x : UInt8) (e : Nat),
      trimBack (lead ++ (y :: g ++ c :: tail)) (lead.length + (y :: g).length) = some e ∧
        (lead ++ (y :: g ++ c :: tail)).set e 0 = done ++ x :: tail ∧ done.length = lead.length + (y :: g).length ∧
        isBlank x = false ∧ (c = 0 → x = 0) ∧ cstring (done ++ x :: tail) lead.length = trimBlanks (y :: g) := by
  have cut := rdropWhile_solid [] g first
  rw [List.nil_append, List.nil_append] at cut
  have back := trimBack_solid lead g (c :: tail) first
  obtain ⟨done, x, shape, long, bare, zero⟩ := cut_tail lead (y :: g) tail solid
  have value := cut_value lead (y :: g) tail c plain
  have some : ¬ ∀ b ∈ y :: g, isBlank b := fun all => by simp [first] at all
  have start : (y :: g).takeWhile isBlank = [] := by simp [first]
  rw [fieldValue, if_neg (fun taken => some taken.2.1), shape, start, List.length_nil, Nat.add_zero] at value
  refine ⟨done, x, lead.length + ((y :: g).rdropWhile isBlank).length, ?_, shape, long, bare, zero, value⟩
  have behind : lead.length + (y :: g).length = lead.length + 1 + g.length := by
    rw [List.length_cons]
    omega
  rw [behind]
  refine back.trans ?_
  rw [cut, List.length_cons, Nat.add_assoc, Nat.add_comm 1]

theorem commaTexts_cons (c : UInt8) (t : Bytes) :
    ∃ u more, commaTexts t = u :: more ∧ commaTexts (c :: t) = if c = 44 then [] :: u :: more else (c :: u) :: more := by
  obtain ⟨u, more, texts⟩ := List.exists_cons_of_ne_nil (List.splitOn_ne_nil (44 : UInt8) t)
  refine ⟨u, more, texts, ?_⟩
  simp only [commaTexts, List.splitOn_cons_eq_if_modifyHead, texts, beq_iff_eq, List.modifyHead_cons]

/-- The texts behind the colon hold no comma, and no NUL. -/
theorem commaTexts_plain {t : Bytes} (plain : 0 ∉ t) : ∀ u ∈ commaTexts t, ∀ b ∈ u, b ≠ 44 ∧ b ≠ 0 := by
  induction t with
  | nil => simp [commaTexts]
  | cons c t ih =>
      obtain ⟨u, more, texts, whole⟩ := commaTexts_cons c t
      have rest := ih (fun member => plain (List.mem_cons_of_mem _ member))
      rw [texts] at rest
      rw [whole]
      split
      · rw [List.forall_mem_cons]
        exact ⟨fun b member => (by cases member), rest⟩
      · rename_i other
        rw [List.forall_mem_cons, List.forall_mem_cons] at *
        exact ⟨⟨⟨other, fun zero => plain (by simp [zero])⟩, rest.1⟩, rest.2⟩

theorem commaTexts_joined (t : Bytes) : [44].intercalate (commaTexts t) = t := List.intercalate_splitOn 44

theorem commaTexts_some (t : Bytes) : commaTexts t ≠ [] := List.splitOn_ne_nil 44 t

theorem commaTexts_count (t : Bytes) : (commaTexts t).length = t.count 44 + 1 := by
  induction t with
  | nil => rfl
  | cons c t ih =>
      obtain ⟨u, more, texts, whole⟩ := commaTexts_cons c t
      rw [texts] at ih
      rw [whole, List.count_cons]
      split
      · rename_i comma
        simpa [comma] using ih
      · rename_i other
        simpa [other] using ih

theorem allocVals_some (n : Nat) (two : 2 ≤ n) : allocVals ((n : Int) - 1) = some (slotsOf [] n) := by
  have positive : (0 : Int) < n - 1 := by omega
  have width : ((n : Int) - 1).toNat + 1 = n := by omega
  rw [allocVals, if_pos positive, width]
  rfl

theorem allocVals_none {n : Int} (one : n ≤ 1) : allocVals (n - 1) = none := if_neg (by omega)

/-- The text of a line that is no comment and not blank: blanks, and `y` in front of the rest. -/
structure Worded (text lead : Bytes) (y : UInt8) (g : Bytes) : Prop where
  split : text = lead ++ y :: g
  plain : 0 ∉ text
  blank : ∀ b ∈ lead, isBlank b
  first : isBlank y = false

theorem Worded.inner {text lead g : Bytes} {y : UInt8} (w : Worded text lead y g) : 0 ∉ y :: g := by
  have plain := w.plain
  rw [w.split] at plain
  exact fun member => plain (List.mem_append_right _ member)

/-- With the key as the only column the whole text is the key. -/
theorem readColumns_key {text lead g : Bytes} {y : UInt8} (w : Worded text lead y g) (junk : Bytes) (cols : Int)
    (one : rowColumns (text ++ 0 :: junk) cols ≤ 1) :
    readColumns (text ++ 0 :: junk) lead.length cols = some (.row ⟨trimBlanks (y :: g), none⟩) := by
  obtain ⟨done, x, e, back, cut, long, -, -, value⟩ := key_read lead g junk w.inner w.first isBlank_zero
  have shape : text ++ 0 :: junk = lead ++ (y :: g ++ 0 :: junk) := by rw [w.split, List.append_assoc]
  have whole : cstring (lead ++ (y :: g ++ 0 :: junk)) lead.length = y :: g := cstring_append _ _ _ w.inner
  rw [shape] at one ⊢
  simp only [readColumns, if_neg (Int.not_lt.mpr one), whole, back, cut, value, allocVals_none one]

/-- With more columns and no colon the values are looked for behind the end of the text. -/
theorem readColumns_whole {text lead g : Bytes} {y : UInt8} (w : Worded text lead y g) (junk : Bytes) (n : Nat)
    (two : 2 ≤ n) (none_ : 58 ∉ text) :
    ∃ (done : Bytes) (fuel : Nat), done.length = text.length ∧
      readColumns (text ++ 0 :: junk) lead.length n =
        readVals n (trimBlanks (y :: g)) (fuel + 1) (done ++ 0 :: junk) (done.length + 1) 0 (slotsOf [] n) := by
  obtain ⟨done, x, e, back, cut, long, -, zero, value⟩ := key_read lead g junk w.inner w.first isBlank_zero
  have shape : text ++ 0 :: junk = lead ++ (y :: g ++ 0 :: junk) := by rw [w.split, List.append_assoc]
  have whole : cstring (lead ++ (y :: g ++ 0 :: junk)) lead.length = y :: g := cstring_append _ _ _ w.inner
  have colon : indexFrom (lead ++ (y :: g ++ 0 :: junk)) lead.length 58 = none :=
    indexFrom_none lead (y :: g) junk w.inner (fun member => none_ (by rw [w.split]; exact List.mem_append_right _ member))
  have columns : rowColumns (lead ++ (y :: g ++ 0 :: junk)) n = n := if_neg (by omega)
  have many : (1 : Int) < n := by omega
  obtain rfl := zero rfl
  refine ⟨done, (lead ++ (y :: g ++ 0 :: junk)).length, ?_, ?_⟩
  · rw [long, w.split, List.length_append]
  · rw [← long] at back
    rw [shape]
    simp only [readColumns, columns, if_pos many, whole, colon, Option.map_none, Option.getD_none, ← long, back, cut,
      value, allocVals_some n two]

/-- The number of columns of a text with a colon. -/
def columnsOf (rest : Bytes) (cols : Int) : Int := if cols < 0 then (commaTexts rest).length + 1 else cols

theorem rowColumns_colon (front rest junk : Bytes) (cols : Int) (plain : 0 ∉ front ++ 58 :: rest) (before : 58 ∉ front) :
    rowColumns (front ++ 58 :: rest ++ 0 :: junk) cols = columnsOf rest cols := by
  have shape : front ++ 58 :: rest ++ 0 :: junk = [] ++ (front ++ 58 :: (rest ++ 0 :: junk)) := by simp
  have found := indexFrom_some [] front rest junk plain before
  rw [← shape, List.length_nil] at found
  have behind : cstring (front ++ 58 :: rest ++ 0 :: junk) front.length = 58 :: rest := by
    have moved : front ++ 58 :: rest ++ 0 :: junk = front ++ (58 :: rest ++ 0 :: junk) := by simp
    rw [moved, cstring_append _ _ _ (fun member => plain (List.mem_append_right _ member))]
  simp only [rowColumns, columnsOf, found, behind, commaTexts_count]
  split
  · rw [List.count_cons_of_ne (by decide)]
    omega
  · rfl

theorem rowColumns_whole {text : Bytes} (junk : Bytes) (cols : Int) (plain : 0 ∉ text) (none_ : 58 ∉ text) :
    rowColumns (text ++ 0 :: junk) cols = if cols < 0 then 1 else cols := by
  have missing := indexFrom_none [] text junk plain none_
  rw [List.nil_append, List.length_nil] at missing
  simp only [rowColumns, missing]

/-- A line that starts with the colon, blanks apart, is left at the front. -/
theorem readColumns_no_key (lead rest junk : Bytes) (cols : Int) (plain : 0 ∉ 58 :: rest) (blank : ∀ b ∈ lead, isBlank b)
    (more : 1 < rowColumns (lead ++ (58 :: rest ++ 0 :: junk)) cols) :
    readColumns (lead ++ (58 :: rest ++ 0 :: junk)) lead.length cols = none := by
  have colon := indexFrom_some lead [] rest junk plain (by simp)
  have shape : lead ++ ([] ++ 58 :: (rest ++ 0 :: junk)) = lead ++ (58 :: rest ++ 0 :: junk) := by simp
  rw [shape] at colon
  simp only [readColumns, if_pos more, colon, Option.map_some, Option.getD_some, List.length_nil, Nat.add_zero,
    key_empty lead _ blank]

/-- A key, a colon and the texts behind it are read with room for a NULL behind the values or not at all. -/
theorem readColumns_colon (lead g rest junk : Bytes) {y : UInt8} (n : Nat) (cols : Int)
    (plain : 0 ∉ y :: g ++ 58 :: rest) (before : 58 ∉ y :: g) (first : isBlank y = false) (two : 2 ≤ n)
    (columns : rowColumns (lead ++ (y :: g ++ 58 :: (rest ++ 0 :: junk))) cols = n) :
    readColumns (lead ++ (y :: g ++ 58 :: (rest ++ 0 :: junk))) lead.length cols =
      if (codeValues (commaTexts rest)).length < n then
        some (.row ⟨trimBlanks (y :: g), some (slotsOf (codeValues (commaTexts rest))
          (n - (codeValues (commaTexts rest)).length))⟩)
      else none := by
  have inner : 0 ∉ y :: g := fun member => plain (List.mem_append_left _ member)
  have behind : 0 ∉ rest := fun member => plain (List.mem_append_right _ (List.mem_cons_of_mem _ member))
  obtain ⟨done, x, e, back, cut, long, bare, -, value⟩ :=
    key_read lead g (rest ++ 0 :: junk) inner first (by decide : isBlank 58 = false)
  have colon := indexFrom_some lead (y :: g) rest junk plain before
  have many : (1 : Int) < n := by omega
  rw [← long] at back
  simp only [readColumns, columns, if_pos many, colon, Option.map_some, Option.getD_some, ← long, back, cut, value,
    allocVals_some n two]
  have texts := readVals_texts (trimBlanks (y :: g)) (commaTexts rest)
    ((lead ++ (y :: g ++ 58 :: (rest ++ 0 :: junk))).length + 1) done junk x [] n bare (commaTexts_some rest)
    (commaTexts_plain behind) (by
      have commas := List.count_le_length (a := (44 : UInt8)) (l := rest)
      rw [commaTexts_count]
      simp only [List.length_append, List.length_cons]
      omega)
  simpa [commaTexts_joined] using texts

/-- What has been stored in the slots stays there. -/
theorem readVals_keeps (rowCols : Int) (key : Bytes) (fuel : Nat) (line : Bytes) (s i : Nat) (slots : List (Option Bytes))
    (e : TextEntry) (read : readVals rowCols key fuel line s i slots = some (.row e)) :
    ∃ out, e.vals = some out ∧ ∀ j < i, out[j]? = slots[j]? := by
  have stored (slots out : List (Option Bytes)) (i : Nat) (v : Option Bytes) (set : setSlot slots i v = some out) :
      ∀ j < i, out[j]? = slots[j]? := by
    rw [setSlot] at set
    split at set
    · cases set
      exact fun j below => List.getElem?_set_ne (by omega)
    · cases set
  induction fuel generalizing line s i slots with
  | zero => cases read
  | succ fuel ih =>
      rw [readVals] at read
      split at read
      · cases read
      · split at read
        · obtain ⟨out, set, same⟩ := Option.map_eq_some_iff.mp read
          cases same
          exact ⟨out, rfl, stored _ _ _ _ set⟩
        · split at read
          · rw [releaseVals] at read
            split at read <;> cases read
          · simp only at read
            split at read
            · cases read
            · split at read
              · cases read
              · rename_i set
                obtain ⟨out, vals, same⟩ := ih _ _ _ _ read
                exact ⟨out, vals, fun j below => (same j (by omega)).trans (stored _ _ _ _ set j below)⟩

/-- A text that is there puts a value into the first slot. -/
theorem readVals_first (n : Nat) (key : Bytes) (fuel : Nat) (line : Bytes) (s : Nat) (c : UInt8) (e : TextEntry)
    (positive : 0 < n) (here : (line)[s]? = some c) (visible : c ≠ 0)
    (read : readVals n key fuel line s 0 (slotsOf [] n) = some (.row e)) :
    ∃ out v, e.vals = some out ∧ out[0]? = some (some v) := by
  cases fuel with
  | zero => cases read
  | succ fuel =>
      have room : ¬ (n : Int) ≤ (0 : Nat) := by omega
      simp only [readVals, here, if_neg visible, if_neg room] at read
      split at read
      · cases read
      · rename_i stop _
        have value := setSlot_value [] n (cstring (line.set stop 0) (skipBlanksFrom line s))
        rw [List.length_nil, if_pos positive] at value
        simp only [value] at read
        obtain ⟨out, vals, same⟩ := readVals_keeps _ _ _ _ _ _ _ _ read
        exact ⟨out, _, vals, (same 0 (by omega)).trans rfl⟩

/-! ### The lines that are read right -/

/-- In the buffer the text of the line stands in front of a NUL. -/
theorem eatNewline_shape (raw : RawLine) (visible : raw.bytes.head? ≠ some 0) :
    ∃ junk, eatNewline (raw.bytes ++ [0]) = lineText raw.bytes ++ 0 :: junk ∧ 0 ∉ lineText raw.bytes ∧
      strlen (raw.bytes ++ [0]) ≠ 0 ∧ junk.head? = (raw.bytes ++ [0])[(lineText raw.bytes).length + 1]? := by
  obtain ⟨all, split, stop⟩ := takeWhile_split (· != 0) raw.bytes
  have word : (raw.bytes ++ [0]).takeWhile (· != 0) = raw.bytes.takeWhile (· != 0) :=
    takeWhile_before _ raw.bytes [] (by decide)
  rw [lineText, eatNewline, strlen, word]
  generalize raw.bytes.takeWhile (· != 0) = text at *
  have plain : 0 ∉ text := fun member => by simpa using all 0 member
  obtain ⟨junk, whole⟩ : ∃ junk, raw.bytes ++ [0] = text ++ 0 :: junk := by
    cases rest : raw.bytes.drop text.length with
    | nil => exact ⟨[], by nth_rewrite 1 [split]; simp [rest]⟩
    | cons c rest' =>
        have zero : c = 0 := by simpa using stop c (by simp [rest])
        exact ⟨rest' ++ [0], by nth_rewrite 1 [split]; simp [rest, zero]⟩
  have some : text ≠ [] := by
    rintro rfl
    obtain ⟨c, more, bytes⟩ := List.exists_cons_of_ne_nil raw.some
    rw [bytes] at whole visible
    simp only [List.cons_append, List.nil_append, List.cons.injEq] at whole
    exact visible (by simp [whole.1])
  obtain ⟨front, b, same⟩ := (List.eq_nil_or_concat text).resolve_left some
  rw [List.concat_eq_append] at same
  subst same
  have last : at0 (raw.bytes ++ [0]) ((front ++ [b]).length - 1) = b := by
    rw [whole, List.append_assoc, List.length_append, List.length_singleton, Nat.add_sub_cancel]
    exact at0_append front _ b
  have long : (front ++ [b]).length ≠ 0 := by simp
  simp only [last, List.getLast?_concat, List.dropLast_concat, Option.some.injEq]
  by_cases newline : b = 10
  · subst newline
    refine ⟨0 :: junk, ?_, fun member => plain (List.mem_append_left _ member), long, ?_⟩
    · rw [if_pos rfl, if_pos rfl, whole]
      simp
    · rw [if_pos rfl, whole]
      simp
  · rw [if_neg newline, if_neg newline]
    refine ⟨junk, whole, plain, long, ?_⟩
    rw [whole, List.getElem?_append_right (Nat.le_add_right _ 1), Nat.add_sub_cancel_left, List.getElem?_cons_succ,
      List.head?_eq_getElem?]

theorem rowOf_blank {text : Bytes} (cols : Int) (blank : text.dropWhile isBlank = []) : rowOf text cols = .none := by
  rw [rowOf, blank, if_pos (.inl rfl)]

theorem Worded.rest {text lead g : Bytes} {y : UInt8} (w : Worded text lead y g) : text.dropWhile isBlank = y :: g := by
  rw [w.split, List.dropWhile_append_of_pos w.blank]
  simp [w.first]

theorem Worded.trim {text lead g : Bytes} {y : UInt8} (w : Worded text lead y g) :
    trimBlanks text = trimBlanks (y :: g) := by
  have word : (y :: g).dropWhile isBlank = y :: g := by simp [w.first]
  rw [trimBlanks, trimBlanks, w.rest, word]

theorem Worded.rowOf {text lead g : Bytes} {y : UInt8} (w : Worded text lead y g) (cols : Int) (code : y ≠ 35) :
    rowOf text cols =
      if cols = 0 ∨ cols = 1 ∨ 58 ∉ text then .pair (trimBlanks (y :: g)) []
      else if 0 ≤ cols ∧ cols - 1 < (commaTexts ((text.dropWhile (· != 58)).drop 1)).length then .tooMany
      else .pair (trimBlanks (text.takeWhile (· != 58)))
        ((commaTexts ((text.dropWhile (· != 58)).drop 1)).map trimBlanks) := by
  rw [IcapService.rowOf, w.rest, if_neg (by simp [code]), w.trim]

/-- A text without a colon is read right with one column, and with more when a NUL stands behind its own. -/
theorem readColumns_whole_iff {text lead g : Bytes} {y : UInt8} (w : Worded text lead y g) (junk : Bytes) (cols : Int)
    (none_ : 58 ∉ text) :
    (∃ r, readColumns (text ++ 0 :: junk) lead.length cols = some r ∧ r.Means (.pair (trimBlanks (y :: g)) [])) ↔
      cols < 0 ∨ cols = 0 ∨ cols = 1 ∨ junk.head? = some 0 := by
  have columns := rowColumns_whole junk cols w.plain none_
  by_cases one : (if cols < 0 then 1 else cols) ≤ 1
  · rw [readColumns_key w junk cols (by omega)]
    exact iff_of_true ⟨_, rfl, rfl, rfl⟩ (by split at one <;> omega)
  · have two : 2 ≤ cols := by split at one <;> omega
    obtain ⟨n, rfl⟩ := Int.eq_ofNat_of_zero_le (by omega : 0 ≤ cols)
    obtain ⟨done, fuel, long, read⟩ := readColumns_whole w junk n (by omega) none_
    have here : (done ++ 0 :: junk)[done.length + 1]? = junk.head? := by
      rw [List.getElem?_append_right (by omega), Nat.add_sub_cancel_left, List.getElem?_cons_succ,
        List.head?_eq_getElem?]
    rw [read]
    cases first : junk.head? with
    | none =>
        rw [first] at here
        simp only [readVals, here]
        exact iff_of_false (by simp) (by simp only [reduceCtorEq, or_false]; omega)
    | some c =>
        rw [first] at here
        by_cases zero : c = 0
        · subst zero
          have ends := readVals_end n (trimBlanks (y :: g)) fuel (done ++ 0 :: junk) (done.length + 1) [] n here
          rw [List.length_nil, if_pos (by omega)] at ends
          rw [ends]
          exact iff_of_true ⟨_, rfl, (holds_slots _ _ [] [] n (by omega)).mpr ⟨rfl, rfl⟩⟩ (.inr (.inr (.inr rfl)))
        · refine iff_of_false ?_ (by simp only [Option.some.injEq, zero, or_false]; omega)
          rintro ⟨r, result, means⟩
          cases r with
          | noRow => exact means
          | rejected => exact means
          | row e =>
              obtain ⟨out, v, vals, stored⟩ := readVals_first n _ _ _ _ c e (by omega) here zero result
              obtain ⟨-, held⟩ := means
              rw [vals] at held
              obtain ⟨more, slots⟩ := held
              rw [slots] at stored
              cases stored

/-- A text with a colon is read right when there is a key, the texts are kept and there is room for them. -/
theorem readColumns_colon_iff (lead k rest junk : Bytes) (cols : Int) (plain : 0 ∉ k ++ 58 :: rest) (before : 58 ∉ k)
    (blank : ∀ b ∈ lead, isBlank b) (first : ∀ b ∈ k.head?, isBlank b = false) (many : cols < 0 ∨ 2 ≤ cols) :
    (∃ r, readColumns (lead ++ (k ++ 58 :: (rest ++ 0 :: junk))) lead.length cols = some r ∧
        r.Means (if 0 ≤ cols ∧ cols - 1 < (commaTexts rest).length then .tooMany
          else .pair (trimBlanks k) ((commaTexts rest).map trimBlanks))) ↔
      k ≠ [] ∧ TextsKept (commaTexts rest) ∧ (cols < 0 ∨ (commaTexts rest).length < cols) := by
  have leadColon : 58 ∉ lead := fun member => absurd (blank 58 member) (by decide)
  have leadNul : 0 ∉ lead := fun member => absurd (blank 0 member) (by decide)
  have columns := rowColumns_colon (lead ++ k) rest junk cols (by simpa [leadNul] using plain)
    (by simpa [leadColon] using before)
  have texts : 0 < (commaTexts rest).length := List.length_pos_iff.mpr (commaTexts_some rest)
  obtain ⟨n, same, two⟩ : ∃ n : Nat, columnsOf rest cols = n ∧ 2 ≤ n := by
    refine ⟨(columnsOf rest cols).toNat, ?_, ?_⟩ <;> simp only [columnsOf] <;> split <;> omega
  have shape : lead ++ k ++ 58 :: rest ++ 0 :: junk = lead ++ (k ++ 58 :: (rest ++ 0 :: junk)) := by simp
  rw [shape, same] at columns
  cases k with
  | nil =>
      have left := readColumns_no_key lead rest junk cols plain blank (by
        have moved : lead ++ (58 :: rest ++ 0 :: junk) = lead ++ ([] ++ 58 :: (rest ++ 0 :: junk)) := by simp
        rw [moved, columns]
        omega)
      rw [List.nil_append, ← List.cons_append, left]
      simp
  | cons y g =>
      rw [readColumns_colon lead g rest junk n cols plain before (first y rfl) two columns]
      by_cases fits : (codeValues (commaTexts rest)).length < n
      · rw [if_pos fits]
        have kept : TextsKept (commaTexts rest) ∧ ¬ (0 ≤ cols ∧ cols - 1 < (commaTexts rest).length) ↔
            y :: g ≠ [] ∧ TextsKept (commaTexts rest) ∧ (cols < 0 ∨ (commaTexts rest).length < cols) := by
          rw [and_iff_right (List.cons_ne_nil y g)]
          exact and_congr_right (fun _ => by omega)
        rw [← kept]
        by_cases many : 0 ≤ cols ∧ cols - 1 < (commaTexts rest).length
        · rw [if_pos many]
          refine iff_of_false ?_ (fun right => right.2 many)
          rintro ⟨r, result, means⟩
          cases result
          exact means
        · rw [if_neg many, and_iff_left many, ← codeValues_iff _ (commaTexts_some rest)]
          constructor
          · rintro ⟨r, result, means⟩
            cases result
            exact ((holds_slots _ _ _ _ _ (by omega)).mp means).2
          · intro values
            exact ⟨_, rfl, (holds_slots _ _ _ _ _ (by omega)).mpr ⟨rfl, values⟩⟩
      · rw [if_neg fits]
        refine iff_of_false (by simp) ?_
        rintro ⟨-, kept, room⟩
        have values := congrArg List.length ((codeValues_iff _ (commaTexts_some rest)).mpr kept)
        rw [List.length_map] at values
        rw [columnsOf] at same
        split at same <;> omega

/-- The text in front of the first colon, and behind it. -/
theorem Worded.colon {text lead g : Bytes} {y : UInt8} (w : Worded text lead y g) (colon : 58 ∈ text) :
    ∃ k, y :: g = k ++ 58 :: (text.dropWhile (· != 58)).drop 1 ∧ 58 ∉ k ∧ (∀ b ∈ k.head?, isBlank b = false) ∧
      trimBlanks (text.takeWhile (· != 58)) = trimBlanks k ∧ (trimBlanks k = [] ↔ k = []) := by
  have away : ∀ b ∈ lead, (b != 58) = true := by
    intro b member
    have other : b ≠ 58 := by
      rintro rfl
      exact absurd (w.blank 58 member) (by decide)
    simpa using other
  have split : (y :: g).takeWhile (· != 58) ++ (y :: g).dropWhile (· != 58) = y :: g := List.takeWhile_append_dropWhile
  have before : 58 ∉ (y :: g).takeWhile (· != 58) := fun member => by
    simpa using (List.mem_takeWhile_imp member)
  have front : text.takeWhile (· != 58) = lead ++ (y :: g).takeWhile (· != 58) := by
    rw [w.split, List.takeWhile_append_of_pos away]
  have back : text.dropWhile (· != 58) = (y :: g).dropWhile (· != 58) := by
    rw [w.split, List.dropWhile_append_of_pos away]
  obtain ⟨rest, behind⟩ : ∃ rest, (y :: g).dropWhile (· != 58) = 58 :: rest := by
    cases shape : (y :: g).dropWhile (· != 58) with
    | nil =>
        rw [shape, List.append_nil] at split
        have inside : 58 ∈ lead ++ y :: g := w.split ▸ colon
        rcases List.mem_append.mp inside with member | member
        · exact absurd (away 58 member) (by decide)
        · exact absurd (by rw [split]; exact member) before
    | cons c rest =>
        have stop := List.head?_dropWhile_not (· != 58) (y :: g)
        simp only [shape, List.head?_cons, bne_eq_false_iff_eq] at stop
        exact ⟨rest, by rw [stop]⟩
  rw [back, behind, List.drop_succ_cons, List.drop_zero, front]
  rw [behind] at split
  generalize (y :: g).takeWhile (· != 58) = k at *
  have first : ∀ b ∈ k.head?, isBlank b = false := by
    intro b member
    obtain ⟨more, rfl⟩ := List.head?_eq_some_iff.mp member
    simp only [List.cons_append, List.cons.injEq] at split
    exact split.1 ▸ w.first
  refine ⟨k, split.symm, before, first, ?_, ?_⟩
  · rw [trimBlanks, trimBlanks, List.dropWhile_append_of_pos w.blank]
  · constructor
    · intro empty
      cases k with
      | nil => rfl
      | cons b more =>
          obtain ⟨x, h, -, -, kept, -⟩ := solid_split (fun all : ∀ c ∈ b :: more, isBlank c =>
            absurd ((first b rfl).symm.trans (all b List.mem_cons_self)) (by decide))
          rw [kept] at empty
          cases empty
    · rintro rfl
      rfl

/-- A line is read as it is meant exactly when it is one of the lines that are kept. -/
theorem read_iff (raw : RawLine) (cols : Int) : raw.Read cols ↔ raw.Kept cols := by
  by_cases visible : raw.bytes.head? = some 0
  · obtain ⟨more, bytes⟩ := List.head?_eq_some_iff.mp visible
    have empty : strlen (raw.bytes ++ [0]) = 0 := by rw [bytes]; rfl
    refine iff_of_false ?_ (fun kept => kept.1 visible)
    rintro ⟨r, read, -⟩
    rw [readRow, if_pos empty] at read
    cases read
  · obtain ⟨junk, line, plain, long, behind⟩ := eatNewline_shape raw visible
    simp only [RawLine.Read, RawLine.Kept, readRow, if_neg long, line, ← behind, and_iff_right visible]
    generalize lineText raw.bytes = text at *
    have split : text.takeWhile isBlank ++ text.dropWhile isBlank = text := List.takeWhile_append_dropWhile
    have start : skipBlanksFrom (text ++ 0 :: junk) 0 = (text.takeWhile isBlank).length := by
      rw [skipBlanksFrom, List.drop_zero, takeWhile_before isBlank text junk isBlank_zero, Nat.zero_add]
    rw [start]
    cases body : text.dropWhile isBlank with
    | nil =>
        rw [body, List.append_nil] at split
        rw [split, at0_append, if_neg (by decide), if_pos rfl, rowOf_blank cols body]
        exact iff_of_true ⟨_, rfl, trivial⟩ (.inl rfl)
    | cons y g =>
        have blank : ∀ b ∈ text.takeWhile isBlank, isBlank b := fun b member => List.mem_takeWhile_imp member
        have first : isBlank y = false := by
          have stop := List.head?_dropWhile_not isBlank text
          simpa [body] using stop
        rw [body] at split
        generalize text.takeWhile isBlank = lead at *
        have w : Worded text lead y g := ⟨split.symm, plain, blank, first⟩
        have here : at0 (text ++ 0 :: junk) lead.length = y := by
          rw [← split, List.append_assoc]
          exact at0_append lead _ y
        rw [here]
        by_cases comment : y = 35
        · rw [if_pos comment]
          have none_ : rowOf text cols = .none := by rw [rowOf, body, if_pos (.inr (by simp [comment]))]
          rw [none_]
          exact iff_of_true ⟨_, rfl, trivial⟩ (.inl rfl)
        · have visible : y ≠ 0 := fun zero => w.inner (by simp [zero])
          have some : rowOf text cols ≠ .none := by
            rw [w.rowOf cols comment]
            split
            · simp
            · split <;> simp
          rw [if_neg comment, if_neg visible]
          simp only [some, false_or]
          by_cases colon : 58 ∈ text
          · by_cases one : cols = 0 ∨ cols = 1
            · have columns : rowColumns (text ++ 0 :: junk) cols = cols := if_neg (by omega)
              rw [readColumns_key w junk cols (by omega), w.rowOf cols comment, if_pos (by omega)]
              exact iff_of_true ⟨_, rfl, rfl, rfl⟩ (by omega)
            · obtain ⟨k, whole, before, start, key, empty⟩ := w.colon colon
              obtain ⟨zero, one⟩ := not_or.mp one
              simp only [w.rowOf cols comment, zero, one, colon, not_true_eq_false, or_self, if_false, key, ne_eq, empty,
                false_and, false_or, true_and]
              generalize (text.dropWhile (· != 58)).drop 1 = rest at *
              have inner := w.inner
              rw [whole] at inner
              have shape : text ++ 0 :: junk = lead ++ (k ++ 58 :: (rest ++ 0 :: junk)) := by
                rw [w.split, whole]
                simp
              rw [shape]
              exact readColumns_colon_iff lead k rest junk cols inner before blank start (by omega)
          · rw [w.rowOf cols comment, if_pos (.inr (.inr colon)), readColumns_whole_iff w junk cols colon]
            simp only [colon, not_false_eq_true, true_and, false_and, or_false]
            rw [or_left_comm]
            exact or_congr_right or_left_comm

/-- The text `k: ,b`. -/
def blankField : RawLine := ⟨ascii "k: ,b
", by decide, by decide, by decide⟩

/-- The blank text before the comma is stored as `,b`. -/
theorem blank_field_takes_rest :
    ¬ blankField.Read (-1) ∧
      readRow blankField.bytes (-1) =
        some (.row ⟨[107], some [some [44, 98], some [98], none]⟩) := by
  refine ⟨fun read => ?_, by decide +kernel⟩
  obtain ⟨-, kept⟩ := (read_iff blankField (-1)).mp read
  revert kept
  decide +kernel

end IcapService
