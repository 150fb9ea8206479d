import IcapService.HeaderLines

/-! Runs of header list operations, from an empty list or from an unpacked block, against a plain
list of lines. -/

namespace IcapService

open CString

/-! ### Blocks whose lines end in CRLF -/

/-- What is left of a plain block: an LF behind the first byte has a CR before it, and no line is
empty. -/
structure Tidy (rest : Bytes) : Prop where
  noBareLf : ∀ before after, rest = before ++ lf :: after → before ≠ [] → ∃ front, before = front ++ [cr]
  noEmptyLine : ¬ crlf ++ crlf <:+: rest

theorem Tidy.tail {c : UInt8} {rest : Bytes} (tidy : Tidy (c :: rest)) : Tidy rest where
  noBareLf before after split some := by
    obtain ⟨front, shape⟩ := tidy.noBareLf (c :: before) after (by rw [split, List.cons_append]) (by simp)
    cases front with
    | nil =>
        simp only [List.nil_append, List.cons.injEq] at shape
        exact absurd shape.2 some
    | cons d front =>
        simp only [List.cons_append, List.cons.injEq] at shape
        exact ⟨front, shape.2⟩
  noEmptyLine inside := tidy.noEmptyLine (inside.trans (List.suffix_cons c rest).isInfix)

inductive HeaderOp where
  | add (line : Bytes)
  | addheaders (headers : HeadersList)
  | remove (name : Bytes)
  | search (name : Bytes)
  | reset
  deriving DecidableEq

/-- What an operation returns: a pointer to a line, a flag, or for the search the pointers of
`ci_headers_search` and `ci_headers_value`. -/
inductive HeaderAnswer where
  | line (p : Option Nat)
  | flag (b : Bool)
  | found (line value : Option Nat)
  | none
  deriving DecidableEq

namespace HeaderOp

def run (fresh : Nat → UInt8) (h : HeadersList) : HeaderOp → HeaderAnswer × HeadersList
  | add line => (.line (h.add fresh line).1, (h.add fresh line).2)
  | addheaders g => (.flag (h.addheaders fresh g).1, (h.addheaders fresh g).2)
  | remove name => (.flag (h.remove name).1, (h.remove name).2)
  | search name => (.found (h.headersSearch name) (h.headersValue name), h)
  | reset => (.none, h.reset)

/-- The operation on a plain list of lines. -/
def onLines (lines : List Bytes) : HeaderOp → List Bytes
  | add line => lines ++ [line]
  | addheaders g => lines ++ g.lines
  | remove name => lines.eraseP (named name)
  | search _ => lines
  | reset => []

/-- The pointers a search in a list of lines is expected to return. -/
def Found (h : HeadersList) (lines : List Bytes) (name : Bytes) (line value : Option Nat) : Prop :=
  match lines.findIdx? (named name) with
  | none => line = none ∧ value = none
  | some i => line = h.headers[i]? ∧ ∃ v, value = some v ∧ cstring h.buf v = lineValue name (lines.getD i [])

/-- The answer is the one of a plain list of lines. -/
def Answers (lines : List Bytes) (before after : HeadersList) : HeaderOp → HeaderAnswer → Prop
  | add _, .line p => p.isSome ∧ p = after.headers.getLast?
  | addheaders _, .flag b => b = true
  | remove name, .flag b => b = lines.any (named name)
  | search name, .found line value => Found before lines name line value
  | reset, .none => True
  | _, _ => False

/-- Lines that are added have no CR, LF or NUL, and names are C strings. -/
def Valid : HeaderOp → Prop
  | add line => ∀ c ∈ line, c ≠ 0 ∧ c ≠ cr ∧ c ≠ lf
  | addheaders g => ∃ lines, Holds g lines ∧ ∀ line ∈ lines, ∀ c ∈ line, c ≠ 0 ∧ c ≠ cr ∧ c ≠ lf
  | remove name => 0 ∉ name
  | search name => 0 ∉ name
  | reset => True

end HeaderOp

/-- The header list behaves as the list of lines: each pointer of the index is the start of its line,
which lies with its NUL in the used bytes of the buffer. -/
structure Shows (h : HeadersList) (lines : List Bytes) : Prop where
  text : h.lines = lines
  inside : ∀ (i : Nat) (line : Bytes), lines[i]? = some line → ∃ p, h.headers[i]? = some p ∧ p + line.length < h.bufused
  fits : h.bufused ≤ h.buf.length

/-- Through the whole run the header list behaves as the list of lines. -/
def Refines (fresh : Nat → UInt8) : HeadersList → List Bytes → List HeaderOp → Prop
  | h, lines, [] => Shows h lines
  | h, lines, op :: ops =>
      Shows h lines ∧ op.Answers lines h (op.run fresh h).2 (op.run fresh h).1 ∧
        Refines fresh (op.run fresh h).2 (op.onLines lines) ops

theorem Holds.shows {h : HeadersList} {lines : List Bytes} (holds : Holds h lines) : Shows h lines where
  text := holds.lines
  inside i line here := by
    obtain ⟨small, rfl⟩ := List.getElem?_eq_some_iff.mp here
    have split : lines = lines.take i ++ lines[i] :: lines.drop (i + 1) := by
      rw [← List.drop_eq_getElem_cons small, List.take_append_drop]
    have index : (lines.take i).length = i := by
      rw [List.length_take]
      omega
    have pointer := (split ▸ holds : Holds h (lines.take i ++ lines[i] :: lines.drop (i + 1))).pointer
    rw [index] at pointer
    exact ⟨_, pointer⟩
  fits := holds.inside

/-- One operation keeps the layout, and its answer is right. -/
theorem Holds.step {h : HeadersList} {lines : List Bytes} (holds : Holds h lines) (fresh : Nat → UInt8) (op : HeaderOp)
    (valid : op.Valid) (asked : op ≠ .search []) :
    Holds (op.run fresh h).2 (op.onLines lines) ∧ op.Answers lines h (op.run fresh h).2 (op.run fresh h).1 := by
  cases op with
  | add line =>
      have plain : 0 ∉ line := fun member => (valid 0 member).1 rfl
      obtain ⟨kept, pointer⟩ := holds.add fresh line plain
      have last : (h.add fresh line).2.headers.getLast? = some h.bufused := by
        rw [kept.index, List.map_append, offsets_append, holds.bufused]
        simp [offsets, storedAll]
      refine ⟨kept, ?_, ?_⟩
      · rw [pointer]
        rfl
      · rw [pointer]
        exact last.symm
  | addheaders g =>
      obtain ⟨more, added, -⟩ := valid
      obtain ⟨kept, flag⟩ := holds.addheaders added fresh
      refine ⟨?_, flag⟩
      rw [HeaderOp.onLines, added.lines]
      exact kept
  | remove name => exact holds.remove name valid
  | search name =>
      refine ⟨holds, ?_⟩
      simp only [HeaderOp.Answers, HeaderOp.Found, HeaderOp.run]
      have some : name ≠ [] := by
        rintro rfl
        exact asked rfl
      cases found : lines.findIdx? (named name) with
      | none => exact holds.search_none name valid found
      | some i =>
          obtain ⟨before, line, after, rfl, rfl, hit, -⟩ := findIdx_split found
          obtain ⟨pointer, value⟩ := holds.search valid some found hit
          refine ⟨pointer.trans holds.pointer.1.symm, ?_⟩
          simpa using value
  | reset => exact ⟨holds.reset, trivial⟩

theorem Holds.refines {h : HeadersList} {lines : List Bytes} (holds : Holds h lines) (fresh : Nat → UInt8)
    (ops : List HeaderOp) (valid : ∀ op ∈ ops, op.Valid) (asked : ∀ op ∈ ops, op ≠ .search []) :
    Refines fresh h lines ops := by
  induction ops generalizing h lines with
  | nil => exact holds.shows
  | cons op ops ih =>
      obtain ⟨kept, answer⟩ := holds.step fresh op (valid op (by simp)) (asked op (by simp))
      exact ⟨holds.shows, answer, ih kept (fun other member => valid other (by simp [member]))
        (fun other member => asked other (by simp [member]))⟩

end IcapService
