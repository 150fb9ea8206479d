import IcapService.Lib.Words

/-! The arguments of a directive: `split_args` of `cfg_param.c`.

The line is what lies at `end`, up to its NUL. An escaped quote is unescaped in place: the backslash is overwritten by
what follows it, so that `end` goes on behind the quote. -/

namespace IcapService

open CString

def maxArgs : Nat := 50

/-- An argument in double quotes, from behind the first of them, and what is left at `end`. -/
def quotedArg : Bytes → Bytes × Bytes
  | [] => ([], [])
  | c :: rest =>
      if c = 34 then ([], c :: rest)
      else match c, rest with
        | 92, 34 :: rest => (34 :: (quotedArg rest).1, (quotedArg rest).2)
        | c, rest => (c :: (quotedArg rest).1, (quotedArg rest).2)

/-- An argument without quotes; blanks belong to it while a brace is open. -/
def bareArg (brkt : Bool) : Bytes → Bytes × Bytes
  | [] => ([], [])
  | c :: rest =>
      if !isSpace c || brkt then
        let arg := bareArg (if c = 123 then true else if brkt && c == 125 then false else brkt) rest
        (c :: arg.1, arg.2)
      else ([], c :: rest)

/-- The argument at `end`. -/
def nextArg (line : Bytes) : Bytes × Bytes :=
  match line with
  | 34 :: rest => quotedArg rest
  | line => bareArg false line

/-- Behind an argument its quote is skipped, then the blanks. -/
def skipArg (rest : Bytes) : Bytes := (if at0 rest 0 = 34 then rest.tail else rest).dropWhile isSpace

/-- The loop of `split_args`, with room for this many arguments. -/
def splitLoop : Nat → Bytes → List Bytes
  | 0, _ => []
  | room + 1, line =>
      if room = 0 ∨ skipArg (nextArg line).2 = [] then [(nextArg line).1]
      else (nextArg line).1 :: splitLoop room (skipArg (nextArg line).2)

/-- `split_args` -/
def splitArgs (line : Bytes) : List Bytes := splitLoop maxArgs line

/-! ### Lines of arguments -/

/-- Its double quotes escaped. -/
def escapeArg (arg : Bytes) : Bytes := arg.flatMap fun c => if c = 34 then [92, 34] else [c]

def quoteArg (arg : Bytes) : Bytes := 34 :: escapeArg arg ++ [34]

/-- The blanks between two arguments. -/
structure Blanks where
  bytes : Bytes
  blank : bytes.all isSpace = true
  some : bytes ≠ []

/-- The arguments in double quotes. -/
def quotedLine (blanks : Blanks) (args : List CText) : Bytes :=
  List.intercalate blanks.bytes (args.map fun arg => quoteArg arg.bytes)

/-- The arguments as they are. -/
def bareLine (blanks : Blanks) (args : List CText) : Bytes := List.intercalate blanks.bytes (args.map CText.bytes)

/-- Not empty, and without blanks, quotes and braces. -/
def bareWord (arg : Bytes) : Bool := arg != [] && arg.all fun c => !isSpace c && c != 34 && c != 123 && c != 125

/-! ### One argument -/

theorem quotedArg_quote (rest : Bytes) : quotedArg (34 :: rest) = ([], 34 :: rest) := by
  rw [quotedArg, if_pos rfl]
  exact fun _ backslash => absurd backslash (by decide)

theorem quotedArg_escaped (rest : Bytes) :
    quotedArg (92 :: 34 :: rest) = (34 :: (quotedArg rest).1, (quotedArg rest).2) := by
  rw [quotedArg, if_neg (by decide)]

theorem quotedArg_cons {c : UInt8} {rest : Bytes} (quote : c ≠ 34) (escape : c = 92 → at0 rest 0 ≠ 34) :
    quotedArg (c :: rest) = (c :: (quotedArg rest).1, (quotedArg rest).2) := by
  rw [quotedArg, if_neg quote]
  rintro others backslash rfl
  exact escape backslash rfl

/-- What follows an escaped argument or lies inside it is no quote, up to the closing one. -/
theorem escapeArg_head {arg : Bytes} (some : arg ≠ []) (rest : Bytes) : at0 (escapeArg arg ++ rest) 0 ≠ 34 := by
  cases arg with
  | nil => exact absurd rfl some
  | cons c arg =>
      rw [escapeArg, List.flatMap_cons]
      split
      · exact (by decide : (92 : UInt8) ≠ 34)
      · rename_i other
        exact other

/-- An escaped argument is read up to its closing quote. -/
theorem quotedArg_escapeArg (arg rest : Bytes) (last : arg.getLast? ≠ some 92) :
    quotedArg (escapeArg arg ++ 34 :: rest) = (arg, 34 :: rest) := by
  induction arg with
  | nil => exact quotedArg_quote rest
  | cons c arg ih =>
      have inner : quotedArg (escapeArg arg ++ 34 :: rest) = (arg, 34 :: rest) := by
        cases arg with
        | nil => exact quotedArg_quote rest
        | cons d arg => exact ih (by rwa [List.getLast?_cons_cons] at last)
      by_cases quote : c = 34
      · subst quote
        show quotedArg (92 :: 34 :: (escapeArg arg ++ 34 :: rest)) = _
        rw [quotedArg_escaped, inner]
      · have step : escapeArg (c :: arg) ++ 34 :: rest = c :: (escapeArg arg ++ 34 :: rest) := by
          rw [escapeArg, List.flatMap_cons, if_neg quote]
          rfl
        have escape : c = 92 → at0 (escapeArg arg ++ 34 :: rest) 0 ≠ 34 := by
          rintro rfl
          refine escapeArg_head (fun none => last ?_) _
          rw [none]
          rfl
        rw [step, quotedArg_cons quote escape, inner]

/-- A word is read up to the blanks behind it. -/
theorem bareArg_word (arg rest : Bytes) (word : arg.all (fun c => !isSpace c && c != 34 && c != 123 && c != 125) = true)
    (stop : rest = [] ∨ isSpace (at0 rest 0) = true) : bareArg false (arg ++ rest) = (arg, rest) := by
  induction arg with
  | nil =>
      cases rest with
      | nil => rfl
      | cons c rest =>
          have blank : isSpace c = true := by
            rcases stop with none | blank
            · cases none
            · exact blank
          show bareArg false (c :: rest) = _
          rw [bareArg, blank]
          rfl
  | cons c arg ih =>
      rw [List.all_cons, Bool.and_eq_true] at word
      obtain ⟨here, others⟩ := word
      simp only [Bool.and_eq_true, Bool.not_eq_true', bne_iff_ne] at here
      obtain ⟨⟨⟨space, -⟩, brace⟩, -⟩ := here
      show bareArg false (c :: (arg ++ rest)) = _
      rw [bareArg, if_pos (by rw [space]; rfl), if_neg brace]
      show (c :: (bareArg false (arg ++ rest)).1, (bareArg false (arg ++ rest)).2) = _
      rw [ih others]

/-! ### A line of arguments -/

theorem Blanks.skip (blanks : Blanks) {rest : Bytes} (some : rest ≠ []) (start : isSpace (at0 rest 0) = false) :
    (blanks.bytes ++ rest).dropWhile isSpace = rest := by
  rw [List.dropWhile_append_of_pos (List.all_eq_true.mp blanks.blank)]
  cases rest with
  | nil => exact absurd rfl some
  | cons c rest => exact List.dropWhile_cons_of_neg (by rw [show isSpace c = false from start]; decide)

theorem Blanks.head (blanks : Blanks) (rest : Bytes) : isSpace (at0 (blanks.bytes ++ rest) 0) = true := by
  obtain ⟨bytes, blank, some⟩ := blanks
  cases bytes with
  | nil => exact absurd rfl some
  | cons c bytes => exact List.all_eq_true.mp blank c List.mem_cons_self

/-- How arguments are written so that `split_args` finds them: what it reads of one, and what it leaves of it. -/
structure WrittenArg (write : CText → Bytes) (left : Bytes) (arg : CText) : Prop where
  start : write arg ≠ [] ∧ isSpace (at0 (write arg) 0) = false
  read : ∀ rest, rest = [] ∨ isSpace (at0 rest 0) = true → nextArg (write arg ++ rest) = (arg.bytes, left ++ rest)

variable {write : CText → Bytes} {left : Bytes}

theorem at0_front {s : Bytes} (some : s ≠ []) (rest : Bytes) : at0 (s ++ rest) 0 = at0 s 0 := by
  cases s with
  | nil => exact absurd rfl some
  | cons c s => rfl

/-- The first argument of a line starts it. -/
theorem line_start (blanks : Blanks) {arg : CText} (written : WrittenArg write left arg) (args : List CText) :
    List.intercalate blanks.bytes ((arg :: args).map write) ≠ [] ∧
      isSpace (at0 (List.intercalate blanks.bytes ((arg :: args).map write)) 0) = false := by
  obtain ⟨some, start⟩ := written.start
  cases args with
  | nil => simpa only [List.map_cons, List.map_nil, List.intercalate_singleton] using written.start
  | cons b args =>
      rw [List.map_cons, List.map_cons, List.intercalate_cons_cons, List.append_assoc, at0_front some]
      exact ⟨List.append_ne_nil_of_left_ne_nil some _, start⟩

/-- Behind an argument of a line the next one is found. -/
theorem skipArg_left (quote : left = [] ∨ left = [34]) (blanks : Blanks) {rest : Bytes} (some : rest ≠ [])
    (start : isSpace (at0 rest 0) = false) : skipArg (left ++ (blanks.bytes ++ rest)) = rest := by
  rcases quote with rfl | rfl
  · have other : at0 (blanks.bytes ++ rest) 0 ≠ 34 := by
      intro quote
      have blank := blanks.head rest
      rw [quote] at blank
      exact absurd blank (by decide)
    rw [List.nil_append, skipArg, if_neg other]
    exact blanks.skip some start
  · exact blanks.skip some start

theorem splitLoop_line (quote : left = [] ∨ left = [34]) (blanks : Blanks) {args : List CText} (some : args ≠ [])
    (written : ∀ arg ∈ args, WrittenArg write left arg) (room : Nat) :
    splitLoop room (List.intercalate blanks.bytes (args.map write)) = (args.map CText.bytes).take room := by
  induction args generalizing room with
  | nil => exact absurd rfl some
  | cons arg args ih =>
      have first := written arg List.mem_cons_self
      cases room with
      | zero => rfl
      | succ room =>
          cases args with
          | nil =>
              have read := first.read [] (.inl rfl)
              have skipped : skipArg (left ++ []) = [] := by
                rcases quote with rfl | rfl <;> rfl
              rw [List.append_nil] at read
              rw [List.map_cons, List.map_nil, List.intercalate_singleton, splitLoop, read,
                if_pos (.inr skipped), List.map_cons, List.take_succ_cons, List.map_nil, List.take_nil]
          | cons next args =>
              obtain ⟨more, start⟩ := line_start blanks (written next (by simp)) args
              have read := first.read (blanks.bytes ++ List.intercalate blanks.bytes ((next :: args).map write))
                (.inr (blanks.head _))
              have skipped := skipArg_left quote blanks more start
              have others := ih (List.cons_ne_nil _ _) (fun a member => written a (List.mem_cons_of_mem _ member)) room
              rw [List.map_cons, List.map_cons, List.intercalate_cons_cons, ← List.map_cons, List.append_assoc,
                splitLoop, read, skipped]
              by_cases full : room = 0
              · subst full
                rw [if_pos (.inl rfl)]
                rfl
              · rw [if_neg (not_or.mpr ⟨full, more⟩), others]
                rfl

theorem written_quote {arg : CText} (last : arg.bytes.getLast? ≠ some 92) :
    WrittenArg (fun arg => quoteArg arg.bytes) [34] arg := by
  refine ⟨⟨List.cons_ne_nil _ _, rfl⟩, fun rest _ => ?_⟩
  show quotedArg ((escapeArg arg.bytes ++ [34]) ++ rest) = _
  rw [List.append_assoc]
  exact quotedArg_escapeArg arg.bytes rest last

theorem written_bare {arg : CText} (word : bareWord arg.bytes = true) : WrittenArg CText.bytes [] arg := by
  rw [bareWord, Bool.and_eq_true, bne_iff_ne] at word
  obtain ⟨some, all⟩ := word
  obtain ⟨c, bytes, shape⟩ := List.exists_cons_of_ne_nil some
  have first := List.all_eq_true.mp all c (by rw [shape]; exact List.mem_cons_self)
  simp only [Bool.and_eq_true, Bool.not_eq_true', bne_iff_ne] at first
  refine ⟨⟨some, by rw [shape]; exact first.1.1.1⟩, fun rest stop => ?_⟩
  have read := bareArg_word arg.bytes rest all stop
  rw [shape] at read ⊢
  rw [List.nil_append, ← read]
  show nextArg (c :: (bytes ++ rest)) = _
  rw [nextArg]
  · rfl
  · rintro others quote
    exact first.1.1.2 (List.cons.inj quote).1

/-- Arguments that are written in double quotes or as they are come back from `split_args`. -/
def ArgsRoundTrip (blanks : Blanks) (args : List CText) : Prop :=
  (args.length < maxArgs → (∀ arg ∈ args, arg.bytes.getLast? ≠ some 92) →
    splitArgs (quotedLine blanks args) = args.map CText.bytes) ∧
  ((∀ arg ∈ args, bareWord arg.bytes = true) → splitArgs (bareLine blanks args) = args.map CText.bytes)

/-- Of a line of words there is room for the first `MAX_ARGS`. -/
theorem split_args_round_trip (blanks : Blanks) (args : List CText) (some : args ≠ []) :
    (args.length < maxArgs → (∀ arg ∈ args, arg.bytes.getLast? ≠ Option.some 92) →
      splitArgs (quotedLine blanks args) = args.map CText.bytes) ∧
    ((∀ arg ∈ args, bareWord arg.bytes = true) →
      splitArgs (bareLine blanks args) = (args.map CText.bytes).take maxArgs) := by
  constructor
  · intro short last
    have split := splitLoop_line (.inr rfl) blanks some (fun arg member => written_quote (last arg member)) maxArgs
    rwa [List.take_of_length_le (by rw [List.length_map]; exact Nat.le_of_lt short)] at split
  · intro words
    exact splitLoop_line (.inl rfl) blanks some (fun arg member => written_bare (words arg member)) maxArgs

/-- An empty argument and one with an escaped quote. -/
theorem split_args_round_trip_quoted :
    splitArgs (quotedLine ⟨[32], rfl, by decide⟩ [⟨[], by decide⟩, ⟨[97, 34], by decide⟩]) = [[], [97, 34]] :=
  (split_args_round_trip ⟨[32], rfl, by decide⟩ [⟨[], by decide⟩, ⟨[97, 34], by decide⟩] (by decide)).1
    (by decide) (by decide)

/-- No argument is read as an empty one, and the last of fifty-one words is left out. -/
theorem no_args_and_too_many :
    ¬ArgsRoundTrip ⟨[32], rfl, by decide⟩ [] ∧
      ¬ArgsRoundTrip ⟨[32], rfl, by decide⟩ (List.replicate 51 ⟨[97], by decide⟩) := by
  constructor
  · rintro ⟨quoted, -⟩
    exact absurd (quoted (by decide) (by decide)) (by decide)
  · rintro ⟨-, bare⟩
    have words := bare (fun arg member => by rw [List.eq_of_mem_replicate member]; rfl)
    have split := splitLoop_line (.inl rfl) ⟨[32], rfl, by decide⟩
      (show List.replicate 51 (⟨[97], by decide⟩ : CText) ≠ [] by decide) (fun arg member => by rw [List.eq_of_mem_replicate member]; exact written_bare rfl) maxArgs
    have same := words.symm.trans split
    rw [List.map_replicate, List.take_replicate] at same
    exact absurd (congrArg List.length same) (by decide)

end IcapService
