import IcapService.HeaderBlock

/-! The header list as a list of lines.

Every line lies in the buffer with a NUL and an LF behind it, and the index has the offset of each.
`ci_headers_add`, `ci_headers_addheaders`, `ci_headers_remove` and `ci_headers_reset` keep this
layout, and so does `ci_headers_unpack` on a block whose lines all end in CRLF. -/

namespace IcapService

open CString

/-- A line as it lies in the buffer. -/
def stored (line : Bytes) : Bytes := line ++ [0, lf]

def storedAll (lines : List Bytes) : Bytes := (lines.map stored).flatten

/-- The line has the name, in any case, in front of a colon. -/
def named (name text : Bytes) : Bool :=
  (text.take name.length).map toLower == name.map toLower && text[name.length]? == some 58

/-- A header list holds exactly these lines. -/
structure Holds (h : HeadersList) (lines : List Bytes) : Prop where
  editable : h.packed = false
  text : h.content = storedAll lines
  inside : h.bufused ≤ h.buf.length
  index : h.headers = offsets 0 (lines.map stored)
  plain : ∀ line ∈ lines, 0 ∉ line

@[simp] theorem stored_length (line : Bytes) : (stored line).length = line.length + 2 := by simp [stored]

@[simp] theorem storedAll_append (a b : List Bytes) : storedAll (a ++ b) = storedAll a ++ storedAll b := by
  simp [storedAll]

@[simp] theorem storedAll_cons (line : Bytes) (lines : List Bytes) :
    storedAll (line :: lines) = stored line ++ storedAll lines := by
  simp [storedAll]

@[simp] theorem storedAll_nil : storedAll [] = [] := rfl

namespace Holds

variable {h : HeadersList} {lines : List Bytes}

theorem bufused (holds : Holds h lines) : h.bufused = (storedAll lines).length := by
  have size := congrArg List.length holds.text
  rw [HeadersList.content, List.length_take, Nat.min_eq_left holds.inside] at size
  exact size

theorem buf (holds : Holds h lines) : ∃ rest, h.buf = storedAll lines ++ rest := by
  refine ⟨h.buf.drop h.bufused, ?_⟩
  rw [← holds.text, HeadersList.content, List.take_append_drop]

theorem used (holds : Holds h lines) : h.used = lines.length := by
  rw [HeadersList.used, holds.index, offsets_length, List.length_map]

end Holds

/-! ### The index -/

theorem strlen_stored (front line rest : Bytes) (plain : 0 ∉ line) :
    strlen ((front ++ (stored line ++ rest)).drop front.length) = line.length := by
  rw [List.drop_left, stored, List.append_assoc]
  exact strlen_append line (lf :: rest) plain

/-- The formula of `ci_headers_add` and `ci_headers_addheaders` finds every line. -/
theorem reindex_stored (lines : List Bytes) (front rest : Bytes) (plain : ∀ line ∈ lines, 0 ∉ line) :
    HeadersList.reindex (front ++ (storedAll lines ++ rest)) lines.length front.length =
      offsets front.length (lines.map stored) := by
  induction lines generalizing front with
  | nil => rfl
  | cons line lines ih =>
      have here := strlen_stored front line (storedAll lines ++ rest) (plain line (by simp))
      have tail := ih (front ++ stored line) (fun other member => plain other (by simp [member]))
      simp only [List.length_cons, HeadersList.reindex, storedAll_cons, List.append_assoc, List.map_cons, offsets]
      rw [here]
      simp only [List.append_assoc, List.length_append, stored_length] at tail
      rw [show front.length + line.length + 2 = front.length + (line.length + 2) by omega, tail, stored_length]

/-- The formula of `ci_headers_remove` finds every line behind one that it knows. -/
theorem rescan_stored (lines : List Bytes) (front line rest : Bytes) (first : 0 ∉ line)
    (plain : ∀ line ∈ lines, 0 ∉ line) :
    HeadersList.rescan (front ++ (stored line ++ (storedAll lines ++ rest))) lines.length front.length =
      offsets (front.length + (line.length + 2)) (lines.map stored) := by
  induction lines generalizing front line with
  | nil => rfl
  | cons next lines ih =>
      have here := strlen_stored front line (storedAll (next :: lines) ++ rest) first
      have tail := ih (front ++ stored line) next (plain next (by simp))
        (fun other member => plain other (by simp [member]))
      have ending : at0 (front ++ (stored line ++ (storedAll (next :: lines) ++ rest)))
          (front.length + line.length + 1) = lf := by
        rw [Nat.add_assoc, ← at0_drop, List.drop_left, stored, List.append_assoc, ← at0_drop, List.drop_left]
        rfl
      simp only [List.length_cons, HeadersList.rescan, here, ending, if_true, List.map_cons, offsets]
      simp only [storedAll_cons, List.append_assoc, List.length_append, stored_length] at tail ⊢
      rw [show front.length + line.length + 1 + 1 = front.length + (line.length + 2) by omega, tail]

/-! ### The search -/

theorem named_length {name line : Bytes} (hit : named name line) : name.length < line.length := by
  simp only [named, Bool.and_eq_true, beq_iff_eq] at hit
  exact (List.getElem?_eq_some_iff.mp hit.2).1

/-- The comparison sees a name of a line in the buffer just when the line has it. -/
theorem isNamed_stored (h : HeadersList) (name front line rest : Bytes) (plainName : 0 ∉ name)
    (buf : h.buf = front ++ (stored line ++ rest)) :
    h.isNamed name front.length = named name line := by
  have memory : h.buf.drop front.length = line ++ 0 :: lf :: rest := by
    rw [buf, List.drop_left, stored, List.append_assoc]
    rfl
  rw [Bool.eq_iff_iff, HeadersList.isNamed, named, ← at0_drop, memory, Bool.and_eq_true, Bool.and_eq_true,
    strncaseeq_iff name _ plainName, beq_iff_eq, beq_iff_eq, beq_iff_eq]
  constructor
  · rintro ⟨colon, n, tail, split, same⟩
    have size : n.length = name.length := by simpa using congrArg List.length same
    have plain : 0 ∉ n := by
      intro member
      have lower : toLower 0 ∈ name.map toLower := same ▸ List.mem_map_of_mem member
      obtain ⟨c, inName, zero⟩ := List.mem_map.mp lower
      exact plainName (toLower_eq_zero zero ▸ inName)
    -- the name ends before the NUL of the line
    have short : n.length ≤ line.length := by
      by_contra long
      have nul : (n ++ tail)[line.length]? = some 0 := by
        rw [← split]
        simp
      rw [List.getElem?_append_left (by omega)] at nul
      exact plain (List.mem_of_getElem? nul)
    have front : n = line.take name.length := by
      have taken := congrArg (List.take name.length) split
      rwa [List.take_left' size, List.take_append_of_le_length (by omega), eq_comm] at taken
    have before : name.length < line.length := by
      rcases Nat.lt_or_ge name.length line.length with less | more
      · exact less
      · have stop : name.length = line.length := by omega
        rw [stop, at0_append] at colon
        cases colon
    refine ⟨front ▸ same, ?_⟩
    rw [at0_eq_getElem (by rw [List.length_append]; omega), List.getElem_append_left before] at colon
    rw [List.getElem?_eq_getElem before, colon]
  · rintro ⟨same, colon⟩
    obtain ⟨before, value⟩ := List.getElem?_eq_some_iff.mp colon
    refine ⟨?_, line.take name.length, line.drop name.length ++ 0 :: lf :: rest, ?_, same⟩
    · rw [at0_eq_getElem (by rw [List.length_append]; omega), List.getElem_append_left before, value]
    · rw [← List.append_assoc, List.take_append_drop]

theorem find_stored (h : HeadersList) (name rest : Bytes) (plainName : 0 ∉ name) (lines : List Bytes)
    (front : Bytes) (i : Nat) (buf : h.buf = front ++ (storedAll lines ++ rest))
    (bufused : h.bufused = front.length + (storedAll lines).length) :
    h.find name (offsets front.length (lines.map stored)) i =
      (lines.findIdx? (named name)).map (· + i) := by
  induction lines generalizing front i with
  | nil => rfl
  | cons line lines ih =>
      have here : h.isNamed name front.length = named name line :=
        isNamed_stored h name front line (storedAll lines ++ rest) plainName (by rw [buf]; simp)
      have tail := ih (front ++ stored line) (i + 1) (by rw [buf]; simp)
        (by rw [bufused]; simp [Nat.add_assoc])
      rw [List.length_append] at tail
      rw [List.map_cons, offsets, HeadersList.find, here, tail]
      by_cases short : h.bufused < front.length + name.length
      · have none : (line :: lines).findIdx? (named name) = none := by
          rw [List.findIdx?_eq_none_iff]
          intro other member
          by_contra hit
          have small : name.length < other.length := named_length (by simpa using hit)
          have part : (stored other).length ≤ (storedAll (line :: lines)).length :=
            (List.sublist_flatten_of_mem (List.mem_map_of_mem member)).length_le
          rw [stored_length] at part
          omega
        rw [if_pos short, none]
        rfl
      · rw [if_neg short, List.findIdx?_cons]
        by_cases hit : named name line
        · simp [hit]
        · simp only [hit, Bool.false_eq_true, if_false, Option.map_map]
          congr 1
          funext k
          simp only [Function.comp]
          omega

theorem Holds.find {h : HeadersList} {lines : List Bytes} (holds : Holds h lines) (name : Bytes)
    (plainName : 0 ∉ name) : h.find name h.headers 0 = lines.findIdx? (named name) := by
  obtain ⟨rest, buf⟩ := holds.buf
  have found := find_stored h name rest plainName lines [] 0 buf (by simpa using holds.bufused)
  rw [holds.index]
  simpa using found

/-! ### The operations -/

theorem Holds.reset {h : HeadersList} {lines : List Bytes} (_ : Holds h lines) : Holds h.reset [] :=
  ⟨rfl, rfl, Nat.zero_le _, rfl, by simp⟩

theorem holds_of_buf {h : HeadersList} {lines : List Bytes} (rest : Bytes) (editable : h.packed = false)
    (buf : h.buf = storedAll lines ++ rest) (bufused : h.bufused = (storedAll lines).length)
    (index : h.headers = offsets 0 (lines.map stored)) (plain : ∀ line ∈ lines, 0 ∉ line) : Holds h lines := by
  refine ⟨editable, ?_, ?_, index, plain⟩
  · rw [HeadersList.content, buf, bufused, List.take_left]
  · rw [buf, bufused, List.length_append]
    exact Nat.le_add_right _ _

/-- What `ci_headers_add` writes behind the used bytes. -/
theorem add_writes (front rest line : Bytes) (room : front.length + (line.length + 4) ≤ (front ++ rest).length) :
    ∃ y tail, ((poke (front ++ rest) front.length (line ++ [0])).set (front.length + line.length + 1) lf).set
      (front.length + line.length + 3) lf = front ++ (stored line ++ y :: lf :: tail) := by
  rw [List.length_append] at room
  have long : 3 ≤ (rest.drop (line ++ [0]).length).length := by
    simp only [List.length_drop, List.length_append, List.length_cons, List.length_nil]
    omega
  rcases behind : rest.drop (line ++ [0]).length with _ | ⟨x, _ | ⟨y, _ | ⟨z, tail⟩⟩⟩
  · rw [behind] at long
    simp at long
  · rw [behind] at long
    simp at long
  · rw [behind] at long
    simp at long
  · refine ⟨y, tail, ?_⟩
    rw [poke_append, behind]
    have shape : front ++ (line ++ [0] ++ x :: y :: z :: tail) = (front ++ line ++ [0]) ++ x :: y :: z :: tail := by
      simp
    have first : front.length + line.length + 1 = (front ++ line ++ [0]).length + 0 := by simp; omega
    have third : front.length + line.length + 3 = (front ++ line ++ [0]).length + 2 := by simp; omega
    rw [shape, first, List.set_append_right _ _ (by omega), third, List.set_append_right _ _ (by omega)]
    simp [stored]

theorem Holds.add {h : HeadersList} {lines : List Bytes} (holds : Holds h lines) (fresh : Nat → UInt8) (line : Bytes)
    (plain : 0 ∉ line) : Holds (h.add fresh line).2 (lines ++ [line]) ∧ (h.add fresh line).1 = some h.bufused := by
  obtain ⟨rest, buf⟩ := holds.buf
  have bufused := holds.bufused
  obtain ⟨more, grown, room⟩ := grow_keeps fresh headsBufSize h.buf (h.bufused + (line.length + 4)) (by decide)
  rw [buf, List.append_assoc] at room
  rw [bufused] at room
  obtain ⟨y, tail, written⟩ := add_writes (storedAll lines) (rest ++ more) line room
  have headers : (if h.buf.length < grow headsBufSize h.buf.length (h.bufused + (line.length + 4)) then
      HeadersList.reindex (h.buf ++ more) h.used 0 else h.headers) = offsets 0 (lines.map stored) := by
    split
    · have index := reindex_stored lines [] (rest ++ more) holds.plain
      rwa [List.nil_append, List.length_nil, ← List.append_assoc, ← buf, ← holds.used] at index
    · exact holds.index
  rw [HeadersList.add, holds.editable]
  simp only [Bool.false_eq_true, if_false, grown, headers, and_true]
  apply holds_of_buf (y :: lf :: tail)
  · rfl
  · rw [buf, List.append_assoc, bufused, written]
    simp
  · simp [bufused, Nat.add_assoc]
  · simp [offsets_append, offsets, bufused, storedAll]
  · intro other member
    rcases List.mem_append.mp member with old | new
    · exact holds.plain other old
    · rw [List.mem_singleton.mp new]
      exact plain

theorem Holds.addheaders {h g : HeadersList} {lines more : List Bytes} (holds : Holds h lines) (added : Holds g more)
    (fresh : Nat → UInt8) : Holds (h.addheaders fresh g).2 (lines ++ more) ∧ (h.addheaders fresh g).1 = true := by
  obtain ⟨rest, buf⟩ := holds.buf
  obtain ⟨behind, source⟩ := added.buf
  have bufused := holds.bufused
  have size := added.bufused
  obtain ⟨extra, grown, room⟩ := grow_keeps fresh headsBufSize h.buf (h.bufused + (g.bufused + 2)) (by decide)
  have copied : g.buf.take (g.bufused + 2) = storedAll more ++ behind.take 2 := by
    rw [source, size, List.take_length_add_append]
  have plain : ∀ line ∈ lines ++ more, 0 ∉ line := by
    intro line member
    rcases List.mem_append.mp member with old | new
    · exact holds.plain line old
    · exact added.plain line new
  -- the memory behind the copied lines
  obtain ⟨tail, memory⟩ : ∃ tail, poke (h.buf ++ extra) h.bufused (storedAll more ++ behind.take 2) =
      storedAll (lines ++ more) ++ tail := by
    rw [buf, List.append_assoc, bufused, poke_append, storedAll_append]
    exact ⟨_, by rw [List.append_assoc, List.append_assoc]⟩
  have index : HeadersList.reindex (storedAll (lines ++ more) ++ tail) (h.used + g.used) 0 =
      offsets 0 ((lines ++ more).map stored) := by
    have found := reindex_stored (lines ++ more) [] tail plain
    rwa [List.nil_append, List.length_nil, List.length_append, ← holds.used, ← added.used] at found
  rw [HeadersList.addheaders, holds.editable]
  simp only [Bool.false_eq_true, if_false, grown, copied, memory, index, and_true]
  exact holds_of_buf tail rfl rfl (by simp [bufused, size]) rfl plain

/-- The first line of a header, with the lines around it. -/
theorem findIdx_split {lines : List Bytes} {name : Bytes} {i : Nat}
    (found : lines.findIdx? (named name) = some i) :
    ∃ before line after, lines = before ++ line :: after ∧ before.length = i ∧ named name line ∧
      lines.eraseP (named name) = before ++ after := by
  obtain ⟨inside, hit, first⟩ := List.findIdx?_eq_some_iff_getElem.mp found
  refine ⟨lines.take i, lines[i], lines.drop (i + 1), ?_, ?_, hit, ?_⟩
  · rw [← List.drop_eq_getElem_cons inside, List.take_append_drop]
  · rw [List.length_take]
    omega
  · have before : ∀ line ∈ lines.take i, ¬ named name line := by
      intro line member
      obtain ⟨j, small, rfl⟩ := List.getElem_of_mem member
      rw [List.getElem_take]
      exact first j (by simp only [List.length_take] at small; omega)
    have split : lines = lines.take i ++ lines[i] :: lines.drop (i + 1) := by
      rw [← List.drop_eq_getElem_cons inside, List.take_append_drop]
    conv => lhs; rw [split]
    rw [List.eraseP_append_right _ before, List.eraseP_cons_of_pos hit]

theorem offsets_getD (front : List Bytes) (line : Bytes) (rest : List Bytes) :
    (offsets 0 ((front ++ line :: rest).map stored)).getD front.length 0 = (storedAll front).length := by
  have found := offsets_getElem 0 ((front ++ line :: rest).map stored) front.length (by simp)
  rw [List.getD_eq_getElem?_getD, found, List.map_append, List.take_left' (by simp)]
  simp [storedAll]

theorem Holds.remove {h : HeadersList} {lines : List Bytes} (holds : Holds h lines) (name : Bytes)
    (plainName : 0 ∉ name) :
    Holds (h.remove name).2 (lines.eraseP (named name)) ∧ (h.remove name).1 = lines.any (named name) := by
  have found := holds.find name plainName
  rw [HeadersList.remove, holds.editable, found]
  simp only [Bool.false_eq_true, if_false]
  cases hit : lines.findIdx? (named name) with
  | none =>
      have absent := List.findIdx?_eq_none_iff.mp hit
      refine ⟨?_, ?_⟩
      · rw [List.eraseP_of_forall_not (by simpa using absent)]
        exact holds
      · symm
        simpa using absent
  | some i =>
      obtain ⟨before, line, after, rfl, rfl, isNamed, erased⟩ := findIdx_split hit
      obtain ⟨rest, buf⟩ := holds.buf
      have bufused := holds.bufused
      have some : (before ++ line :: after).any (named name) = true := by simp [isNamed]
      have phead : h.headers.getD before.length 0 = (storedAll before).length := by
        rw [holds.index, offsets_getD]
      have plain : ∀ line ∈ before ++ after, 0 ∉ line := by
        intro other member
        exact holds.plain other (by
          rcases List.mem_append.mp member with old | new
          · simp [old]
          · simp [new])
      rw [erased, some]
      simp only [phead, holds.used]
      cases after with
      | nil =>
          rw [if_pos (by simp)]
          refine ⟨?_, rfl⟩
          simp only [List.append_nil] at plain ⊢
          apply holds_of_buf (crlf ++ (stored line ++ rest).drop crlf.length)
          · rfl
          · rw [buf, storedAll_append, List.append_assoc, poke_append, storedAll_cons, storedAll_nil,
              List.append_nil]
          · rfl
          · rw [holds.index, List.map_append, offsets_append, List.take_left' (by simp)]
          · exact plain
      | cons next after =>
          rw [if_neg (by simp)]
          refine ⟨?_, rfl⟩
          have nextStart : h.headers.getD (before.length + 1) 0 = (storedAll before).length + (line.length + 2) := by
            have at1 := offsets_getD (before ++ [line]) next after
            rw [holds.index]
            simpa using at1
          have moved : (h.buf.drop ((storedAll before).length + (line.length + 2))).take
              (h.bufused - ((storedAll before).length + (line.length + 2))) = storedAll (next :: after) := by
            have split : h.buf = (storedAll before ++ stored line) ++ (storedAll (next :: after) ++ rest) := by
              rw [buf]
              simp
            have width : (storedAll before ++ stored line).length = (storedAll before).length + (line.length + 2) := by
              simp
            have left : h.bufused - ((storedAll before).length + (line.length + 2)) =
                (storedAll (next :: after)).length := by
              rw [bufused, storedAll_append, storedAll_cons, List.length_append, List.length_append, stored_length]
              omega
            rw [split, List.drop_left' width, left, List.take_left]
          obtain ⟨tail, memory⟩ : ∃ tail, poke h.buf (storedAll before).length (storedAll (next :: after)) =
              storedAll before ++ (storedAll (next :: after) ++ tail) := by
            rw [buf, storedAll_append, List.append_assoc, poke_append]
            exact ⟨_, rfl⟩
          have index := rescan_stored after (storedAll before) next tail (plain next (by simp))
            (fun other member => plain other (by simp [member]))
          rw [nextStart, moved, memory]
          apply holds_of_buf tail
          · rfl
          · simp
          · simp only [bufused, storedAll_append, storedAll_cons, List.length_append, stored_length]
            omega
          · have rescanned : HeadersList.rescan (storedAll before ++ (storedAll (next :: after) ++ tail))
                after.length (storedAll before).length =
                offsets ((storedAll before).length + (next.length + 2)) (after.map stored) := by
              rw [← index, storedAll_cons, List.append_assoc]
            have count : (before ++ line :: next :: after).length - before.length - 2 = after.length := by
              simp only [List.length_append, List.length_cons]
              omega
            have kept : h.headers.take (before.length + 1) =
                offsets 0 (before.map stored) ++ [(storedAll before).length] := by
              rw [holds.index, List.map_append, offsets_append,
                show before.length + 1 = (offsets 0 (before.map stored)).length + 1 by simp,
                List.take_length_add_append]
              simp [offsets, storedAll]
            simp only [count, rescanned, kept]
            simp [offsets_append, offsets, storedAll]
          · exact plain

/-! ### What the index shows -/

/-- The lines the index points at. -/
def HeadersList.lines (h : HeadersList) : List Bytes := h.headers.map (cstring h.buf)

theorem map_cstring_stored (lines : List Bytes) (front rest : Bytes) (plain : ∀ line ∈ lines, 0 ∉ line) :
    (offsets front.length (lines.map stored)).map (cstring (front ++ (storedAll lines ++ rest))) = lines := by
  induction lines generalizing front with
  | nil => rfl
  | cons line lines ih =>
      have tail := ih (front ++ stored line) (fun other member => plain other (by simp [member]))
      have here : cstring (front ++ (storedAll (line :: lines) ++ rest)) front.length = line := by
        rw [storedAll_cons, stored, List.append_assoc, List.append_assoc]
        exact cstring_append front line _ (plain line (by simp))
      rw [storedAll_cons, List.append_assoc] at here
      simp only [List.append_assoc, List.length_append] at tail
      simp only [List.map_cons, offsets, storedAll_cons, List.append_assoc, here, tail]

theorem Holds.lines {h : HeadersList} {lines : List Bytes} (holds : Holds h lines) : h.lines = lines := by
  obtain ⟨rest, buf⟩ := holds.buf
  have shown := map_cstring_stored lines [] rest holds.plain
  rw [HeadersList.lines, holds.index, buf]
  exact shown

/-- The index has the start of a line, and the line with its NUL lies in the used bytes. -/
theorem Holds.pointer {h : HeadersList} {before after : List Bytes} {line : Bytes}
    (holds : Holds h (before ++ line :: after)) :
    h.headers[before.length]? = some (storedAll before).length ∧
      (storedAll before).length + line.length < h.bufused := by
  refine ⟨?_, ?_⟩
  · rw [holds.index, offsets_getElem 0 _ _ (by simp), List.map_append, List.take_left' (by simp)]
    simp [storedAll]
  · rw [holds.bufused, storedAll_append, storedAll_cons, List.length_append, List.length_append, stored_length]
    omega

/-- The value of a header: what follows the colon and the blanks behind it. -/
def lineValue (name line : Bytes) : Bytes := (line.drop (name.length + 1)).dropWhile isBlank

theorem takeWhile_blank_nul (text rest : Bytes) :
    (text ++ 0 :: rest).takeWhile isBlank = text.takeWhile isBlank := by
  rw [List.takeWhile_append]
  split
  · rename_i all
    have whole : text.takeWhile isBlank = text := (List.takeWhile_prefix _).eq_of_length all
    rw [whole]
    simp [isBlank]
  · rfl

/-- `ci_headers_search` and `ci_headers_value` on the first line of a header. -/
theorem Holds.search {h : HeadersList} {before after : List Bytes} {name line : Bytes}
    (holds : Holds h (before ++ line :: after)) (plainName : 0 ∉ name) (some : name ≠ [])
    (found : (before ++ line :: after).findIdx? (named name) = .some before.length) (hit : named name line) :
    h.headersSearch name = .some (storedAll before).length ∧
      ∃ v, h.headersValue name = .some v ∧ cstring h.buf v = lineValue name line := by
  obtain ⟨rest, buf⟩ := holds.buf
  obtain ⟨pointer, inside⟩ := holds.pointer
  have small := named_length hit
  have filled : name.isEmpty = false := by simpa using some
  have phead : h.headers.getD before.length 0 = (storedAll before).length := by
    rw [List.getD_eq_getElem?_getD, pointer]
    rfl
  let lval := (storedAll before).length + name.length + 1
  let blanks := ((line.drop (name.length + 1)).takeWhile isBlank).length
  have memory : h.buf.drop lval =
      line.drop (name.length + 1) ++ 0 :: (lf :: (storedAll after ++ rest)) := by
    have shape : h.buf = storedAll before ++ (line ++ 0 :: (lf :: (storedAll after ++ rest))) := by
      rw [buf]
      simp [stored]
    rw [shape, show lval = (storedAll before).length + (name.length + 1) from rfl, ← List.drop_drop,
      List.drop_left, List.drop_append_of_le_length (by omega)]
  have scan : (((h.buf.take (h.bufused + 1)).drop lval).takeWhile isBlank).length = blanks := by
    have window : (h.buf.take (h.bufused + 1)).drop lval =
        line.drop (name.length + 1) ++ 0 :: (lf :: (storedAll after ++ rest)).take
          (h.bufused - lval - (line.drop (name.length + 1)).length) := by
      have more : h.bufused + 1 - lval = (line.drop (name.length + 1)).length +
          (h.bufused - lval - (line.drop (name.length + 1)).length + 1) := by
        simp only [List.length_drop]
        omega
      rw [List.drop_take, memory, more, List.take_length_add_append]
      rfl
    rw [window, takeWhile_blank_nul]
  have result : h.search name = .some ((storedAll before).length, lval + blanks) := by
    rw [HeadersList.search, filled, holds.find name plainName, found]
    simp only [Bool.false_eq_true, if_false, Option.map_some, phead]
    rw [scan]
  refine ⟨by rw [HeadersList.headersSearch, result]; rfl, lval + blanks, by
    rw [HeadersList.headersValue, result]; rfl, ?_⟩
  have plain : 0 ∉ lineValue name line := by
    intro member
    have part : 0 ∈ line := List.mem_of_mem_drop ((List.dropWhile_sublist _).subset member)
    exact holds.plain line (by simp) part
  have value : (line.drop (name.length + 1)).drop blanks = lineValue name line := by
    rw [lineValue]
    have parts : (line.drop (name.length + 1)).takeWhile isBlank ++ (line.drop (name.length + 1)).dropWhile isBlank =
        line.drop (name.length + 1) := List.takeWhile_append_dropWhile
    conv => lhs; rw [← parts]
    exact List.drop_left' rfl
  rw [cstring, ← List.drop_drop, memory, List.drop_append_of_le_length (List.takeWhile_prefix _).length_le, value]
  exact takeWhile_nul _ _ plain

theorem Holds.search_none {h : HeadersList} {lines : List Bytes} (holds : Holds h lines) (name : Bytes)
    (plainName : 0 ∉ name) (absent : lines.findIdx? (named name) = none) :
    h.headersSearch name = none ∧ h.headersValue name = none := by
  have result : h.search name = none := by
    rw [HeadersList.search, holds.find name plainName, absent]
    simp
  rw [HeadersList.headersSearch, HeadersList.headersValue, result]
  exact ⟨rfl, rfl⟩

end IcapService
