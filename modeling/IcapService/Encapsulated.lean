import IcapService.Headers
import IcapService.Lib.Machine

/-! The Encapsulated header: `get_encaps_type`, the entity table of a request and
`process_encapsulated`. -/

namespace IcapService

open CString CInt Machine

/-- An encapsulated entity; `list` is the header list of a header entity, and unused otherwise. -/
structure EncapsEntity where
  type : EncapsType
  start : Int
  list : HeadersList
  deriving DecidableEq

/-- Position of a kind in `ci_encapsulated_entities`. -/
def EncapsType.index : EncapsType → Nat
  | .reqHdr => 0
  | .resHdr => 1
  | .reqBody => 2
  | .resBody => 3
  | .nullBody => 4
  | .optBody => 5

def entitiesSize : Nat := 5

/-- The five pointers of `entities` and, behind them in the struct, the seven of `trash_entities`. -/
structure EntityTable where
  cells : List (Option EncapsEntity)
  size : cells.length = entitiesSize + 7
  deriving DecidableEq

namespace EntityTable

def empty : EntityTable := ⟨List.replicate 12 none, rfl⟩

def get (t : EntityTable) (i : Nat) : Option EncapsEntity := t.cells.getD i none

def set (t : EntityTable) (i : Nat) (e : Option EncapsEntity) : EntityTable :=
  ⟨t.cells.set i e, by rw [List.length_set, t.size]⟩

/-- A walk `for (i = 0; entities[i] != NULL; i++)`: the index it stops at. -/
def walk (t : EntityTable) : Nat := (t.cells.takeWhile Option.isSome).length

/-- `ci_request_alloc_entity`: an entity of the kind is taken from the trash, its header list reset,
or made anew. -/
def alloc (fresh : Nat → UInt8) (t : EntityTable) (type : EncapsType) (val : Int) : EncapsEntity × EntityTable :=
  match t.get (entitiesSize + type.index) with
  | some e => ({ type := type, start := val, list := e.list.reset }, t.set (entitiesSize + type.index) none)
  | none => ({ type := type, start := val, list := HeadersList.create fresh }, t)

theorem get_set (t : EntityTable) (i j : Nat) (e : Option EncapsEntity) (inside : i < 12) :
    (t.set i e).get j = if i = j then e else t.get j := by
  have size : i < t.cells.length := by
    rw [t.size]
    exact inside
  by_cases same : i = j
  · subst same
    simp [get, set, size]
  · simp [get, set, List.getElem?_set_ne same, same]

theorem takeWhile_isSome_lt (l : List (Option EncapsEntity)) (k : Nat) :
    (l.takeWhile Option.isSome).length < k ↔ ∃ i < k, l.getD i none = none := by
  induction l generalizing k with
  | nil => exact ⟨fun some => ⟨0, some, rfl⟩, fun ⟨i, small, _⟩ => Nat.zero_lt_of_lt small⟩
  | cons e l ih =>
      cases e with
      | none =>
          simp only [List.takeWhile_cons, Option.isSome_none, Bool.false_eq_true, if_false, List.length_nil]
          exact ⟨fun some => ⟨0, some, rfl⟩, fun ⟨i, small, _⟩ => by omega⟩
      | some e =>
          simp only [List.takeWhile_cons, Option.isSome_some, if_true, List.length_cons]
          cases k with
          | zero => simp
          | succ k =>
              rw [Nat.add_lt_add_iff_right, ih k]
              constructor
              · rintro ⟨i, small, empty⟩
                exact ⟨i + 1, by omega, empty⟩
              · rintro ⟨i, small, empty⟩
                cases i with
                | zero => cases empty
                | succ i => exact ⟨i, by omega, empty⟩

/-- A walk stays inside `entities` just when one of its pointers is NULL. -/
theorem walk_lt_iff (t : EntityTable) : t.walk < entitiesSize ↔ ∃ i < entitiesSize, t.get i = none :=
  takeWhile_isSome_lt t.cells entitiesSize

/-- Taking an entity from the trash leaves `entities` alone. -/
theorem alloc_get (fresh : Nat → UInt8) (t : EntityTable) (type : EncapsType) (val : Int) (i : Nat)
    (inside : i < entitiesSize) : (t.alloc fresh type val).2.get i = t.get i := by
  rw [alloc]
  split
  · have apart : entitiesSize + type.index ≠ i := by omega
    rw [get_set _ _ _ _ (by cases type <;> decide), if_neg apart]
  · rfl

end EntityTable

/-- One name of `get_encaps_type`: the kind, the value and the offset of `*endpoint`. -/
def encapsTypeNamed (type : EncapsType) (name buf : Bytes) : Option (EncapsType × Int × Nat) :=
  if name.isPrefixOf buf then
    let number := strtol 10 (buf.drop (name.length + 1))
    some (type, wrap32 number.1, name.length + 1 + number.2)
  else none

/-- `get_encaps_type`: no result is its -1. -/
def getEncapsType (buf : Bytes) : Option (EncapsType × Int × Nat) :=
  (encapsTypeNamed .reqHdr (ascii "req-hdr") buf).or <|
    (encapsTypeNamed .resHdr (ascii "res-hdr") buf).or <|
      (encapsTypeNamed .reqBody (ascii "req-body") buf).or <|
        (encapsTypeNamed .resBody (ascii "res-body") buf).or <|
          encapsTypeNamed .nullBody (ascii "null-body") buf

/-- The state of `process_encapsulated`: `rest` is `pos`. `stores` records the indices of `entities`
that are written; the program has no such variable. -/
structure Encapsulating where
  rest : Bytes
  num : Nat
  hasbody : Bool
  table : EntityTable
  stores : List Nat

/-- What `process_encapsulated` leaves: `hasbody` is not set when the value is rejected. -/
structure Encapsulated where
  status : Ec
  hasbody : Option Bool
  table : EntityTable
  stores : List Nat

def skipSeparators (s : Bytes) : Bytes := s.dropWhile (fun c => isSpace c || c == 44)

/-- One pass of the loop of `process_encapsulated`. -/
def encapsStep (fresh : Nat → UInt8) (s : Encapsulating) : Step Encapsulating Encapsulated :=
  if at0 s.rest 0 = 0 then .done ⟨.ec100, some s.hasbody, s.table, s.stores⟩
  else
    match getEncapsType s.rest with
    | none => .done ⟨.ec400, none, s.table, s.stores⟩
    | some (type, val, stop) =>
        if 5 < s.num then .done ⟨.ec100, some s.hasbody, s.table, s.stores⟩
        else
          let alloced := s.table.alloc fresh type val
          .next
            { rest := skipSeparators (s.rest.drop stop)
              num := s.num + 1
              hasbody := if type = .nullBody then false else s.hasbody
              table := alloced.2.set s.num (some alloced.1)
              stores := s.stores ++ [s.num] }

def encapsStart (t : EntityTable) (buf : Bytes) : Encapsulating where
  rest := (buf.drop 13).dropWhile isSpace
  num := 0
  hasbody := true
  table := t
  stores := []

/-- `process_encapsulated` on a header line and the memory behind it. Every pass moves over a name, so
that the passes are fewer than the bytes. -/
def processEncapsulated (fresh : Nat → UInt8) (t : EntityTable) (buf : Bytes) : Option Encapsulated :=
  run (encapsStep fresh) (buf.length + 1) (encapsStart t buf)

/-! ### The entries of a value -/

/-- The number of entries that can be read from the front of a list, and whether a malformed one follows
them, in at most `fuel` entries. -/
def scanEntries : Nat → Bytes → Nat × Bool
  | 0, _ => (0, false)
  | fuel + 1, rest =>
      if at0 rest 0 = 0 then (0, false)
      else
        match getEncapsType rest with
        | none => (0, true)
        | some (_, _, stop) =>
            let later := scanEntries fuel (skipSeparators (rest.drop stop))
            (later.1 + 1, later.2)

/-- The entries of a whole Encapsulated line. -/
def encapsEntries (buf : Bytes) : Nat × Bool := scanEntries (buf.length + 1) ((buf.drop 13).dropWhile isSpace)

theorem encapsTypeNamed_stop {type kind : EncapsType} {name buf : Bytes} {val : Int} {stop : Nat}
    (named : encapsTypeNamed type name buf = some (kind, val, stop)) (long : 7 ≤ name.length) :
    8 ≤ stop ∧ 7 ≤ buf.length := by
  rw [encapsTypeNamed] at named
  split at named
  · rename_i front
    have size := (List.isPrefixOf_iff_prefix.mp front).length_le
    simp only [Option.some.injEq, Prod.mk.injEq] at named
    omega
  · cases named

/-- An entry is at least as long as the shortest name and one byte. -/
theorem getEncapsType_stop {buf : Bytes} {type : EncapsType} {val : Int} {stop : Nat}
    (found : getEncapsType buf = some (type, val, stop)) : 8 ≤ stop ∧ 7 ≤ buf.length := by
  simp only [getEncapsType, Option.or_eq_some_iff] at found
  rcases found with hit | ⟨-, hit | ⟨-, hit | ⟨-, hit | ⟨-, hit⟩⟩⟩⟩
  · exact encapsTypeNamed_stop hit (by decide)
  · exact encapsTypeNamed_stop hit (by decide)
  · exact encapsTypeNamed_stop hit (by decide)
  · exact encapsTypeNamed_stop hit (by decide)
  · exact encapsTypeNamed_stop hit (by decide)

theorem skipSeparators_length (s : Bytes) : (skipSeparators s).length ≤ s.length :=
  (List.dropWhile_sublist _).length_le

/-- Every entry makes the rest shorter. -/
theorem entry_shorter {buf : Bytes} {type : EncapsType} {val : Int} {stop : Nat}
    (found : getEncapsType buf = some (type, val, stop)) :
    (skipSeparators (buf.drop stop)).length < buf.length := by
  obtain ⟨long, some⟩ := getEncapsType_stop found
  have skipped := skipSeparators_length (buf.drop stop)
  rw [List.length_drop] at skipped
  omega

/-- The outcome of the loop by the entries that are left: at most six are stored in all, and a
malformed entry is seen only when it comes before the seventh well-formed one. -/
structure Encapsulates (s : Encapsulating) (entries : Nat × Bool) (out : Encapsulated) : Prop where
  stores : out.stores = s.stores ++ List.range' s.num (min entries.1 (6 - s.num))
  status : out.status = if entries.2 = true ∧ s.num + entries.1 ≤ 6 then .ec400 else .ec100
  filled : ∀ i < entitiesSize, (out.table.get i).isSome =
    ((s.table.get i).isSome || decide (s.num ≤ i ∧ i < s.num + min entries.1 (6 - s.num)))

theorem encapsStep_run (fresh : Nat → UInt8) (fuel : Nat) (s : Encapsulating) (enough : s.rest.length < fuel)
    (small : s.num ≤ 6) :
    ∃ out, run (encapsStep fresh) fuel s = some out ∧ Encapsulates s (scanEntries fuel s.rest) out := by
  induction fuel generalizing s with
  | zero => omega
  | succ fuel ih =>
      rw [scanEntries]
      by_cases ended : at0 s.rest 0 = 0
      · rw [if_pos ended]
        refine ⟨_, run_done fuel (if_pos ended), ?_⟩
        constructor
        · simp
        · simp
        · intro i inside
          rw [decide_eq_false (by omega), Bool.or_false]
      · rw [if_neg ended]
        cases found : getEncapsType s.rest with
        | none =>
            have pass : encapsStep fresh s = .done ⟨.ec400, none, s.table, s.stores⟩ := by
              rw [encapsStep, if_neg ended, found]
            refine ⟨_, run_done fuel pass, ?_⟩
            constructor
            · simp
            · simp [small]
            · intro i inside
              simp only [Nat.zero_min, Nat.add_zero]
              rw [decide_eq_false (by omega), Bool.or_false]
        | some entry =>
            obtain ⟨type, val, stop⟩ := entry
            by_cases many : 5 < s.num
            · have pass : encapsStep fresh s = .done ⟨.ec100, some s.hasbody, s.table, s.stores⟩ := by
                rw [encapsStep, if_neg ended, found]
                exact if_pos many
              have six : s.num = 6 := by omega
              refine ⟨_, run_done fuel pass, ?_⟩
              constructor
              · simp [six]
              · simp [six]
              · intro i inside
                rw [decide_eq_false (by omega), Bool.or_false]
            · let next : Encapsulating :=
                { rest := skipSeparators (s.rest.drop stop)
                  num := s.num + 1
                  hasbody := if type = .nullBody then false else s.hasbody
                  table := (s.table.alloc fresh type val).2.set s.num (some (s.table.alloc fresh type val).1)
                  stores := s.stores ++ [s.num] }
              have pass : encapsStep fresh s = .next next := by
                rw [encapsStep, if_neg ended, found]
                exact if_neg many
              have shorter := entry_shorter found
              obtain ⟨out, result, stores, status, filled⟩ := ih next (by
                change (skipSeparators (s.rest.drop stop)).length < fuel
                omega) (by change s.num + 1 ≤ 6; omega)
              refine ⟨out, (run_next fuel pass).trans result, ?_⟩
              have count : min ((scanEntries fuel next.rest).1 + 1) (6 - s.num) =
                  min (scanEntries fuel next.rest).1 (6 - (s.num + 1)) + 1 := by omega
              constructor
              · rw [stores]
                simp only [next, count, List.range'_succ, List.append_assoc, List.singleton_append]
              · rw [status]
                have order : s.num + 1 + (scanEntries fuel next.rest).1 =
                    s.num + ((scanEntries fuel next.rest).1 + 1) := by omega
                simp only [next] at order ⊢
                rw [order]
              · intro i inside
                have old : next.table.get i = if s.num = i then some (s.table.alloc fresh type val).1 else s.table.get i := by
                  change ((s.table.alloc fresh type val).2.set s.num _).get i = _
                  rw [EntityTable.get_set _ _ _ _ (by omega), EntityTable.alloc_get fresh _ _ _ _ inside]
                rw [filled i inside, old, Bool.eq_iff_iff]
                change ((if s.num = i then _ else _ : Option EncapsEntity).isSome ||
                  decide (s.num + 1 ≤ i ∧ i < s.num + 1 + min (scanEntries fuel next.rest).1 (6 - (s.num + 1)))) = true ↔
                  ((s.table.get i).isSome || decide (s.num ≤ i ∧ i < s.num +
                    min ((scanEntries fuel next.rest).1 + 1) (6 - s.num))) = true
                rw [count]
                by_cases here : s.num = i
                · simp only [if_pos here, Option.isSome_some, Bool.true_or, true_iff, Bool.or_eq_true,
                    decide_eq_true_eq]
                  omega
                · simp only [if_neg here, Bool.or_eq_true, decide_eq_true_eq]
                  apply or_congr_right
                  omega

/-- Entities are stored inside the array only, and a NULL of the array follows the last of them. -/
def Encapsulated.Contained (out : Encapsulated) : Prop :=
  (∀ i ∈ out.stores, i < entitiesSize) ∧
    ∃ k < entitiesSize, (∀ i ∈ out.stores, i < k) ∧ out.table.get k = none

/-- The run ends, and a value is rejected or contained exactly when it has at most four entries, or a
malformed one among its first seven. A later walk over the entities stays inside the array exactly
when at most four well-formed entries come first. -/
theorem processEncapsulated_contained_iff (fresh : Nat → UInt8) (t : EntityTable) (buf : Bytes)
    (terminated : t.get 4 = none) :
    ∃ out, processEncapsulated fresh t buf = some out ∧
      ((out.status = .ec400 ∨ out.Contained) ↔
        (encapsEntries buf).1 ≤ 4 ∨ (encapsEntries buf).2 = true ∧ (encapsEntries buf).1 ≤ 6) ∧
      (out.table.walk < entitiesSize ↔ (encapsEntries buf).1 ≤ 4) := by
  have enough : (encapsStart t buf).rest.length < buf.length + 1 := by
    have skipped : (encapsStart t buf).rest.length ≤ (buf.drop 13).length := (List.dropWhile_sublist _).length_le
    rw [List.length_drop] at skipped
    omega
  obtain ⟨out, result, stores, status, filled⟩ := encapsStep_run fresh (buf.length + 1) (encapsStart t buf) enough
    (Nat.zero_le _)
  change _ = [] ++ List.range' 0 (min (encapsEntries buf).1 6) at stores
  change _ = if (encapsEntries buf).2 = true ∧ 0 + (encapsEntries buf).1 ≤ 6 then _ else _ at status
  change ∀ i < entitiesSize, _ = ((t.get i).isSome || decide (0 ≤ i ∧ i < 0 + min (encapsEntries buf).1 6)) at filled
  have member : ∀ i, i ∈ out.stores ↔ i < min (encapsEntries buf).1 6 := by
    intro i
    rw [stores, List.nil_append, List.mem_range'_1]
    omega
  have ending : out.table.get 4 = none ↔ (encapsEntries buf).1 ≤ 4 := by
    have four := filled 4 (by decide)
    rw [terminated] at four
    rw [← Option.not_isSome_iff_eq_none, four]
    simp only [Option.isSome_none, Bool.false_or, decide_eq_true_eq]
    omega
  refine ⟨out, result, ?_, ?_⟩
  · constructor
    · rintro (rejected | ⟨-, k, small, before, -⟩)
      · rw [status] at rejected
        split at rejected
        · rename_i bad
          exact .inr ⟨bad.1, by omega⟩
        · cases rejected
      · left
        by_contra many
        have last := before 4 ((member 4).mpr (by omega))
        simp only [entitiesSize] at small
        omega
    · rintro (few | ⟨bad, few⟩)
      · refine .inr ⟨fun i stored => ?_, 4, by decide, fun i stored => ?_, ending.mpr few⟩
        · have := (member i).mp stored
          simp only [entitiesSize]
          omega
        · have := (member i).mp stored
          omega
      · left
        rw [status, if_pos ⟨bad, by omega⟩]
  · rw [EntityTable.walk_lt_iff]
    constructor
    · rintro ⟨i, small, empty⟩
      have slot := filled i small
      rw [empty] at slot
      have outside : ¬ i < min (encapsEntries buf).1 6 := by
        intro inside
        simp [inside] at slot
      simp only [entitiesSize] at small
      omega
    · intro few
      exact ⟨4, by decide, ending.mpr few⟩

theorem processEncapsulated_contained_iff_reqmod :
    ∃ out, processEncapsulated (fun _ => 0) EntityTable.empty (ascii "Encapsulated: req-hdr=0, req-body=170") = some out ∧
      ((out.status = .ec400 ∨ out.Contained) ↔
        (encapsEntries (ascii "Encapsulated: req-hdr=0, req-body=170")).1 ≤ 4 ∨
          (encapsEntries (ascii "Encapsulated: req-hdr=0, req-body=170")).2 = true ∧
            (encapsEntries (ascii "Encapsulated: req-hdr=0, req-body=170")).1 ≤ 6) ∧
      (out.table.walk < entitiesSize ↔ (encapsEntries (ascii "Encapsulated: req-hdr=0, req-body=170")).1 ≤ 4) :=
  processEncapsulated_contained_iff _ _ _ rfl

def sixEntries : Bytes :=
  ascii "Encapsulated: req-hdr=0, req-hdr=1, req-hdr=2, req-hdr=3, req-hdr=4, req-body=5"

/-- Six entries are accepted: the sixth is stored behind the array, and no NULL is left in it. -/
theorem processEncapsulated_six_entries :
    ∃ out, processEncapsulated (fun _ => 0) EntityTable.empty sixEntries = some out ∧
      out.status = .ec100 ∧ 5 ∈ out.stores ∧ ¬ (out.status = .ec400 ∨ out.Contained) := by
  have ends : (processEncapsulated (fun _ => 0) EntityTable.empty sixEntries).map (fun out => (out.status, out.stores)) =
      some (.ec100, [0, 1, 2, 3, 4, 5]) := by
    decide +kernel
  obtain ⟨out, result, values⟩ := Option.map_eq_some_iff.mp ends
  simp only [Prod.mk.injEq] at values
  refine ⟨out, result, values.1, by simp [values.2], ?_⟩
  rintro (rejected | ⟨inside, -⟩)
  · rw [values.1] at rejected
    cases rejected
  · exact absurd (inside 5 (by simp [values.2])) (by decide)

end IcapService
