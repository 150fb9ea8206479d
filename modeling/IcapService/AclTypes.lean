import IcapService.Lib.CString
import IcapService.Lib.Transition
import Mathlib.Data.List.Nodup

/-! The registry of the acl types in `acl.c`.

The records lie in one block of memory that grows; the specs that were created keep pointers to them. -/

namespace IcapService

open CString Transition

/-- A `ci_acl_type_t`: functions and operations are pointers, and the one that frees test data may be null. -/
structure AclTypeRecord where
  name : Bytes
  getTestData : Nat
  freeTestData : Option Nat
  type : Nat
  deriving DecidableEq

/-- `MAX_NAME_LEN` and the number of records by which the block grows. -/
def maxNameLen : Nat := 31
def typeStep : Nat := 32

/-- A type that is added: its name is a text in the field of the record. -/
structure NewAclType where
  record : AclTypeRecord
  text : record.name.length ≤ maxNameLen

/-- A `struct ci_acl_type_list` with the records of its block, how many of them the block has room for, and how often
the block has been moved. -/
structure AclTypeList where
  block : Nat
  room : Nat
  size : Nat
  num : Nat
  records : Nat → AclTypeRecord

/-- What `realloc` does: it fails, or the block has its new size with something in the added part, where it was or
elsewhere. -/
inductive Realloc where
  | failed
  | grown (moved : Bool) (fresh : Nat → AclTypeRecord)

namespace AclTypeList

/-- `ci_acl_typelist_init`; where `malloc` fails nothing fits. -/
def init (allocated : Bool) (fresh : Nat → AclTypeRecord) : AclTypeList :=
  ⟨0, if allocated then typeStep else 0, typeStep, 0, fresh⟩

/-- `ci_acl_typelist_search`: the place of the record. -/
def search (l : AclTypeList) (name : Bytes) : Option Nat :=
  (List.range l.num).find? fun i => (l.records i).name == name

/-- The part of `ci_acl_typelist_add` that makes room; nothing where it returns 0. -/
def grow (l : AclTypeList) (alloc : Realloc) : Option AclTypeList × AclTypeList :=
  if l.num = l.size then
    match alloc with
    | .failed => (none, { l with size := l.size + typeStep })
    | .grown moved fresh =>
        let l :=
          { l with
            block := if moved then l.block + 1 else l.block
            room := l.size + typeStep
            size := l.size + typeStep
            records := fun i => if i < l.room then l.records i else fresh i }
        (some l, l)
  else (some l, l)

/-- The copy of the fields into the next record. -/
def put (l : AclTypeList) (type : AclTypeRecord) : AclTypeList :=
  { l with
    num := l.num + 1
    records := Function.update l.records l.num
      { l.records l.num with
        name := type.name.take maxNameLen
        type := type.type
        getTestData := type.getTestData } }

/-- `ci_acl_typelist_add`; there is no result where it writes behind the block. -/
def add (l : AclTypeList) (type : AclTypeRecord) (alloc : Realloc) : Option (Bool × AclTypeList) :=
  if (l.search type.name).isSome then some (false, l)
  else
    match l.grow alloc with
    | (none, l) => some (false, l)
    | (some l, _) => if l.num < l.room then some (true, l.put type) else none

end AclTypeList

/-- A `ci_acl_spec_t`: its type is a pointer into a block. -/
structure AclTypeSpec where
  name : Bytes
  parameter : Option Bytes
  block : Nat
  index : Nat
  deriving DecidableEq

/-- `ci_acl_spec_new`; `allocated` says whether there is memory for the spec and its parameter. -/
def ciAclSpecNew (l : AclTypeList) (name type : Bytes) (parameter : Option Bytes) (allocated : Bool) :
    Option AclTypeSpec :=
  (l.search type).bind fun index =>
    if allocated then some ⟨name.take maxNameLen, parameter, l.block, index⟩ else none

/-- The record that the type of a spec designates; a block that has been moved is no longer there. -/
def AclTypeSpec.record (spec : AclTypeSpec) (l : AclTypeList) : Option AclTypeRecord :=
  if spec.block = l.block then some (l.records spec.index) else none

/-! ### Runs -/

inductive RegistryOp where
  | add (type : NewAclType) (alloc : Realloc)
  | newSpec (name type : Bytes) (parameter : Option Bytes) (allocated : Bool)

/-- The registry with the types that were added, and the specs with the names of their types. -/
structure Registry where
  list : AclTypeList
  added : List AclTypeRecord
  specs : List (AclTypeSpec × Bytes)

namespace Registry

def start (allocated : Bool) (fresh : Nat → AclTypeRecord) : Registry := ⟨.init allocated fresh, [], []⟩

def step (s : Registry) : RegistryOp → Option Registry
  | .add type alloc =>
      (s.list.add type.record alloc).map fun out =>
        { s with list := out.2, added := if out.1 then s.added ++ [type.record] else s.added }
  | .newSpec name type parameter allocated =>
      match ciAclSpecNew s.list name type parameter allocated with
      | none => some s
      | some spec => some { s with specs := s.specs ++ [(spec, type)] }

/-- Every type that was added is found with all its fields, and every spec designates the record of its type. -/
structure Sound (s : Registry) : Prop where
  found : ∀ type ∈ s.added, ∃ i, s.list.search type.name = some i ∧ s.list.records i = type
  designates : ∀ spec ∈ s.specs, ∃ type ∈ s.added, type.name = spec.2 ∧ spec.1.record s.list = some type

/-- A new record fits the block, and its memory already holds the function that frees test data; the block is not
moved once there are specs. -/
def Allowed (s : Registry) : RegistryOp → Prop
  | .add type alloc =>
      (s.list.search type.record.name).isSome = true ∨
        match s.list.grow alloc with
        | (none, _) => True
        | (some l, _) =>
            l.num < l.room ∧ (l.records l.num).freeTestData = type.record.freeTestData ∧
              (l.block = s.list.block ∨ s.specs = [])
  | .newSpec _ _ _ _ => True

/-- The records are the types that were added, in their order. -/
structure Inv (s : Registry) : Prop where
  num : s.added.length = s.list.num
  room : s.list.num ≤ s.list.room
  records : ∀ i (inside : i < s.added.length), s.list.records i = s.added[i]
  distinct : (s.added.map AclTypeRecord.name).Nodup
  specs : ∀ spec ∈ s.specs, spec.1.block = s.list.block ∧
    ∃ inside : spec.1.index < s.added.length, s.added[spec.1.index].name = spec.2

variable {s t : Registry}

/-- A search finds the place of a type in the list. -/
theorem Inv.search (inv : s.Inv) (name : Bytes) :
    match s.list.search name with
    | none => ∀ type ∈ s.added, type.name ≠ name
    | some i => ∃ inside : i < s.added.length, s.added[i].name = name := by
  cases searched : s.list.search name with
  | none =>
      intro type member same
      obtain ⟨i, inside, rfl⟩ := List.mem_iff_getElem.mp member
      have missed := List.find?_eq_none.mp searched i (List.mem_range.mpr (inv.num ▸ inside))
      rw [inv.records i inside] at missed
      exact missed (beq_iff_eq.mpr same)
  | some i =>
      have inside : i < s.added.length := by
        rw [inv.num]
        exact List.mem_range.mp (List.mem_of_find?_eq_some searched)
      have same := List.find?_some searched
      rw [inv.records i inside] at same
      exact ⟨inside, beq_iff_eq.mp same⟩

theorem Inv.sound (inv : s.Inv) : s.Sound := by
  refine ⟨fun type member => ?_, fun spec member => ?_⟩
  · have searched := inv.search type.name
    cases result : s.list.search type.name with
    | none =>
        rw [result] at searched
        exact absurd rfl (searched type member)
    | some i =>
        rw [result] at searched
        obtain ⟨inside, same⟩ := searched
        refine ⟨i, rfl, ?_⟩
        rw [inv.records i inside]
        exact List.inj_on_of_nodup_map inv.distinct (List.getElem_mem inside) member same
  · obtain ⟨block, inside, same⟩ := inv.specs spec member
    refine ⟨s.added[spec.1.index], List.getElem_mem inside, same, ?_⟩
    rw [AclTypeSpec.record, if_pos block, inv.records _ inside]

theorem start_inv (allocated : Bool) (fresh : Nat → AclTypeRecord) : (start allocated fresh).Inv where
  num := rfl
  room := Nat.zero_le _
  records i inside := absurd inside (Nat.not_lt_zero i)
  distinct := List.nodup_nil
  specs _ member := absurd member List.not_mem_nil

/-- Room is made behind the records. -/
theorem grow_some {l l' after : AclTypeList} {alloc : Realloc} (grown : l.grow alloc = (some l', after)) :
    l'.num = l.num ∧ (l.num ≤ l.room → ∀ i < l.num, l'.records i = l.records i) := by
  simp only [AclTypeList.grow] at grown
  split at grown
  · split at grown
    · cases grown
    · cases grown
      refine ⟨rfl, fun fits i inside => ?_⟩
      exact if_pos (by omega)
  · cases grown
    exact ⟨rfl, fun _ _ _ => rfl⟩

theorem grow_none {l after : AclTypeList} {alloc : Realloc} (failed : l.grow alloc = (none, after)) :
    after = { l with size := l.size + typeStep } := by
  simp only [AclTypeList.grow] at failed
  split at failed
  · split at failed
    · cases failed
      rfl
    · cases failed
  · cases failed

/-- The three ways of an addition: the name is known, there is no memory, or the record is put behind the others. -/
theorem step_add {type : NewAclType} {alloc : Realloc} (pass : s.step (.add type alloc) = some t) :
    (s.list.search type.record.name).isSome = true ∧ t = s ∨
      s.list.search type.record.name = none ∧
        ((∃ after, s.list.grow alloc = (none, after) ∧ t = { s with list := { s.list with size := s.list.size + typeStep } }) ∨
          ∃ l after, s.list.grow alloc = (some l, after) ∧ l.num < l.room ∧
            t = { s with list := l.put type.record, added := s.added ++ [type.record] }) := by
  obtain ⟨out, added, rfl⟩ := Option.map_eq_some_iff.mp pass
  simp only [AclTypeList.add] at added
  cases known : s.list.search type.record.name with
  | some i =>
      simp only [known, Option.isSome_some, if_true, Option.some.injEq] at added
      subst added
      exact .inl ⟨rfl, rfl⟩
  | none =>
      simp only [known, Option.isSome_none, Bool.false_eq_true, if_false] at added
      refine .inr ⟨rfl, ?_⟩
      split at added
      · rename_i after failed
        cases added
        exact .inl ⟨_, failed, by rw [grow_none failed]; rfl⟩
      · rename_i l after grown
        split at added
        · rename_i inside
          cases added
          exact .inr ⟨l, after, grown, inside, rfl⟩
        · cases added

/-- The record that was put, with what the memory held before. -/
theorem put_last (l : AclTypeList) (type : NewAclType) :
    (l.put type.record).records l.num =
      { type.record with freeTestData := (l.records l.num).freeTestData } := by
  have whole : type.record.name.take maxNameLen = type.record.name := List.take_of_length_le type.text
  simp only [AclTypeList.put, Function.update_self, whole]

theorem Inv.put {type : NewAclType} {l : AclTypeList} (inv : s.Inv) (num : l.num = s.list.num)
    (same : ∀ i < s.list.num, l.records i = s.list.records i) (unknown : s.list.search type.record.name = none)
    (inside : l.num < l.room) (held : (l.records l.num).freeTestData = type.record.freeTestData)
    (block : l.block = s.list.block ∨ s.specs = []) :
    Inv { s with list := l.put type.record, added := s.added ++ [type.record] } := by
  have missed := inv.search type.record.name
  rw [unknown] at missed
  refine ⟨?_, inside, fun i bound => ?_, ?_, fun spec member => ?_⟩
  · simp only [List.length_append, List.length_singleton, inv.num, AclTypeList.put, num]
  · simp only [List.length_append, List.length_singleton] at bound
    rw [List.getElem_append]
    split
    · rename_i old
      rw [← inv.records i old, ← same i (inv.num ▸ old)]
      exact Function.update_of_ne (by have count := inv.num; omega) _ _
    · have last : i = l.num := by
        have count := inv.num
        omega
      subst last
      simp only [List.getElem_singleton]
      rw [put_last, held]
  · rw [List.map_append, List.map_singleton]
    refine List.Nodup.append inv.distinct (List.nodup_singleton _) ?_
    intro name first second
    rw [List.mem_singleton] at second
    obtain ⟨old, member, rfl⟩ := List.mem_map.mp first
    exact missed old member second
  · rcases block with still | no_specs
    · obtain ⟨place, bound, asked⟩ := inv.specs spec member
      refine ⟨place.trans still.symm, by simp only [List.length_append]; omega, ?_⟩
      simp only [List.getElem_append_left bound]
      exact asked
    · simp only [no_specs, List.not_mem_nil] at member

theorem Inv.step {op : RegistryOp} (inv : s.Inv) (allowed : s.Allowed op) (pass : s.step op = some t) : t.Inv := by
  cases op with
  | add type alloc =>
      rcases step_add pass with ⟨-, rfl⟩ | ⟨unknown, ⟨after, failed, rfl⟩ | ⟨l, after, grown, inside, rfl⟩⟩
      · exact inv
      · exact ⟨inv.num, inv.room, inv.records, inv.distinct, inv.specs⟩
      · obtain ⟨num, same⟩ := grow_some grown
        simp only [Allowed, unknown, Option.isSome_none, Bool.false_eq_true, false_or, grown] at allowed
        exact inv.put num (same inv.room) unknown inside allowed.2.1 allowed.2.2
  | newSpec name type parameter allocated =>
      simp only [Registry.step] at pass
      split at pass
      · cases pass
        exact inv
      · rename_i spec made
        cases pass
        obtain ⟨i, searched, made⟩ := Option.bind_eq_some_iff.mp made
        split at made
        · cases made
          have found := inv.search type
          rw [searched] at found
          refine ⟨inv.num, inv.room, inv.records, inv.distinct, fun spec member => ?_⟩
          rcases List.mem_append.mp member with member | member
          · exact inv.specs spec member
          · rw [List.mem_singleton.mp member]
            exact ⟨rfl, found⟩
        · cases made

/-- A step that leaves the registry sound meets the condition. -/
theorem Inv.allowed {op : RegistryOp} (inv : s.Inv) (pass : s.step op = some t) (sound : t.Sound) : s.Allowed op := by
  cases op with
  | newSpec name type parameter allocated => trivial
  | add type alloc =>
      rcases step_add pass with ⟨known, -⟩ | ⟨unknown, ⟨after, failed, -⟩ | ⟨l, after, grown, inside, rfl⟩⟩
      · exact .inl known
      · exact .inr (by rw [failed]; trivial)
      · obtain ⟨num, same⟩ := grow_some grown
        have missed := inv.search type.record.name
        rw [unknown] at missed
        obtain ⟨i, searched, record⟩ := sound.found type.record (by simp)
        have below : i < l.num + 1 := List.mem_range.mp (List.mem_of_find?_eq_some searched)
        have last : i = l.num := by
          by_contra other
          have count := inv.num
          have old : i < s.added.length := by omega
          refine missed s.added[i] (List.getElem_mem old) ?_
          rw [← inv.records i old, ← same inv.room i (by omega), ← record]
          exact congrArg AclTypeRecord.name (Function.update_of_ne other _ _).symm
        subst last
        rw [put_last] at record
        refine .inr ?_
        rw [grown]
        have held : (l.records l.num).freeTestData = type.record.freeTestData := by rw [← record]
        refine ⟨inside, held, ?_⟩
        cases specs : s.specs with
        | nil => exact .inr rfl
        | cons spec rest =>
            have member : spec ∈ s.specs := by rw [specs]; exact List.mem_cons_self
            obtain ⟨type', -, -, designated⟩ := sound.designates spec member
            simp only [AclTypeSpec.record] at designated
            split at designated
            · rename_i still
              exact .inl (still.symm.trans (inv.specs spec member).1)
            · cases designated

theorem Allowed.passes {op : RegistryOp} (allowed : s.Allowed op) : ∃ t, s.step op = some t := by
  cases op with
  | newSpec name type parameter allocated =>
      simp only [Registry.step]
      split
      · exact ⟨_, rfl⟩
      · exact ⟨_, rfl⟩
  | add type alloc =>
      simp only [Registry.step, AclTypeList.add]
      rcases allowed with known | fits
      · rw [if_pos known]
        exact ⟨_, rfl⟩
      · split
        · exact ⟨_, rfl⟩
        · split
          · exact ⟨_, rfl⟩
          · rename_i grown
            rw [grown] at fits
            rw [if_pos fits.1]
            exact ⟨_, rfl⟩

end Registry

open Registry

/-- In every run in which each record finds its function in the memory it is put into, inside of the block, and in
which the block does not move once there are specs, the types are found as they were added and the specs designate
them. A step keeps this only if it meets the condition. -/
theorem acl_types_kept (allocated : Bool) (fresh : Nat → AclTypeRecord) (s : Registry)
    (reached : Reaches step Registry.Allowed (start allocated fresh) s) :
    s.Sound ∧ ∀ op, (∃ t, s.step op = some t ∧ t.Sound) ↔ s.Allowed op := by
  have inv := reached.inv (P := Inv) (start_inv allocated fresh)
    (fun _ _ _ held allowed pass => held.step allowed pass)
  refine ⟨inv.sound, fun op => ⟨?_, fun allowed => ?_⟩⟩
  · rintro ⟨t, pass, sound⟩
    exact inv.allowed pass sound
  · obtain ⟨t, pass⟩ := allowed.passes
    exact ⟨t, pass, (inv.step allowed pass).sound⟩

/-- A type without and one with a function that frees its test data. -/
def srcType : NewAclType := ⟨⟨ascii "src", 1, none, 7⟩, by decide⟩

def lengthType : NewAclType := ⟨⟨ascii "content_length", 2, some 3, 8⟩, by decide⟩

/-- Memory of zeros. -/
def zeroRecord : AclTypeRecord := ⟨[], 0, none, 0⟩

theorem acl_types_kept_src :
    ∃ s, (start true fun _ => zeroRecord).step (.add srcType .failed) = some s ∧ s.Sound ∧
      s.added = [srcType.record] := by
  have allowed : (start true fun _ => zeroRecord).Allowed (.add srcType .failed) :=
    .inr ⟨by decide, rfl, .inl rfl⟩
  obtain ⟨s, pass⟩ := allowed.passes
  have added : s.added = [srcType.record] := by
    have computed : (start true fun _ => zeroRecord).step (.add srcType .failed) = some _ := rfl
    rw [computed] at pass
    cases pass
    rfl
  exact ⟨s, pass, (acl_types_kept true (fun _ => zeroRecord) s (.later .here allowed pass)).1, added⟩

/-- The function that frees the test data is not the one of the type. -/
theorem free_function_lost :
    ∃ s, (start true fun _ => zeroRecord).step (.add lengthType .failed) = some s ∧
      s.list.search lengthType.record.name = some 0 ∧ (s.list.records 0).freeTestData = none ∧ ¬ s.Sound := by
  refine ⟨_, rfl, by decide, rfl, fun sound => ?_⟩
  obtain ⟨i, searched, same⟩ := sound.found lengthType.record List.mem_cons_self
  have first : i = 0 := by
    have below := List.mem_range.mp (List.mem_of_find?_eq_some searched)
    exact Nat.lt_one_iff.mp below
  subst first
  have held := congrArg AclTypeRecord.freeTestData same
  cases held

end IcapService
