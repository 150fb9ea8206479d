import IcapService.LookupTable

/-! The group membership of `http_auth.c`.

The sources are asked in order, by user or by group, and the first that knows the searched name decides. A table
answers with a row, whose values may be missing. -/

namespace IcapService

open CString

/-- `INDEX_BY_GROUP` and `INDEX_BY_USER`. -/
inductive GroupIndex where
  | byGroup
  | byUser
  deriving DecidableEq

/-- The search of a lookup table: the row found, with its array of values, if it has one. -/
abbrev TableSearch := Bytes → Option (Option (List Bytes))

/-- A `struct group_source`; `group_source_add` only keeps sources whose table is open. -/
structure GroupSource where
  type : GroupIndex
  db : Option TableSearch
  opened : db.isSome = true

/-- The walk over the values of a row: whether the name is among them. Missing values have no result. -/
def listsName (vals : Option (List Bytes)) (name : Bytes) : Option Int :=
  vals.map (fun values => if name ∈ values then 1 else 0)

/-- `check_user_group`. -/
def checkUserGroup : List GroupSource → Bytes → Bytes → Option Int
  | [], _, _ => some 0
  | gsrc :: rest, user, group =>
      match gsrc.db with
      | none => some 0
      | some search =>
          match gsrc.type with
          | .byUser =>
              match search user with
              | some groups => listsName groups group
              | none => checkUserGroup rest user group
          | .byGroup =>
              match search group with
              | some users => listsName users user
              | none => checkUserGroup rest user group

/-! ### Who is a member -/

/-- The name that is searched in a source, and the name looked for among its values. -/
def GroupSource.searched (g : GroupSource) (user group : Bytes) : Bytes :=
  match g.type with
  | .byUser => user
  | .byGroup => group

def GroupSource.other (g : GroupSource) (user group : Bytes) : Bytes :=
  match g.type with
  | .byUser => group
  | .byGroup => user

/-- The row that the source has for the searched name. -/
def GroupSource.row (g : GroupSource) (user group : Bytes) : Option (Option (List Bytes)) :=
  (g.db.get g.opened) (g.searched user group)

/-- The first source that knows the searched name, and its row. -/
def FirstRow (sources : List GroupSource) (user group : Bytes) (g : GroupSource) (vals : Option (List Bytes)) : Prop :=
  ∃ before after, sources = before ++ g :: after ∧ (∀ b ∈ before, b.row user group = none) ∧
    g.row user group = some vals

/-- The first source that knows the searched name lists the other. -/
def Member (sources : List GroupSource) (user group : Bytes) : Prop :=
  ∃ g values, FirstRow sources user group g (some values) ∧ g.other user group ∈ values

/-- The check returns one for members and zero for all others. -/
def MembershipDecided (sources : List GroupSource) (user group : Bytes) : Prop :=
  (Member sources user group → checkUserGroup sources user group = some 1) ∧
    (¬ Member sources user group → checkUserGroup sources user group = some 0)

/-- One source decides, or leaves it to the rest. -/
theorem checkUserGroup_cons (g : GroupSource) (rest : List GroupSource) (user group : Bytes) :
    checkUserGroup (g :: rest) user group =
      match g.row user group with
      | some vals => listsName vals (g.other user group)
      | none => checkUserGroup rest user group := by
  obtain ⟨type, db, opened⟩ := g
  obtain ⟨search, rfl⟩ := Option.isSome_iff_exists.mp opened
  cases type <;> rfl

theorem firstRow_known {g g' : GroupSource} {rest : List GroupSource} {user group : Bytes}
    {vals vals' : Option (List Bytes)} (known : g.row user group = some vals) :
    FirstRow (g :: rest) user group g' vals' ↔ g' = g ∧ vals' = vals := by
  constructor
  · rintro ⟨before, after, split, none_, row⟩
    cases before with
    | nil =>
        simp only [List.nil_append, List.cons.injEq] at split
        obtain ⟨rfl, -⟩ := split
        exact ⟨rfl, Option.some.inj (row.symm.trans known)⟩
    | cons b before =>
        simp only [List.cons_append, List.cons.injEq] at split
        obtain ⟨rfl, -⟩ := split
        rw [none_ g List.mem_cons_self] at known
        cases known
  · rintro ⟨rfl, rfl⟩
    exact ⟨[], rest, rfl, by simp, known⟩

theorem firstRow_unknown {g g' : GroupSource} {rest : List GroupSource} {user group : Bytes}
    {vals : Option (List Bytes)} (unknown : g.row user group = none) :
    FirstRow (g :: rest) user group g' vals ↔ FirstRow rest user group g' vals := by
  constructor
  · rintro ⟨before, after, split, none_, row⟩
    cases before with
    | nil =>
        simp only [List.nil_append, List.cons.injEq] at split
        obtain ⟨rfl, -⟩ := split
        rw [unknown] at row
        cases row
    | cons b before =>
        simp only [List.cons_append, List.cons.injEq] at split
        exact ⟨before, after, split.2, fun c member => none_ c (List.mem_cons_of_mem _ member), row⟩
  · rintro ⟨before, after, rfl, none_, row⟩
    exact ⟨g :: before, after, rfl, List.forall_mem_cons.mpr ⟨unknown, none_⟩, row⟩

/-- The check decides membership exactly when the row that decides, if there is one, has values. -/
theorem membership_decided_iff (sources : List GroupSource) (user group : Bytes) :
    MembershipDecided sources user group ↔ ∀ g, ¬ FirstRow sources user group g none := by
  induction sources with
  | nil =>
      have none_ : ∀ g vals, ¬ FirstRow [] user group g vals := by
        rintro g vals ⟨before, after, split, -⟩
        simp at split
      have outside : ¬ Member [] user group := fun ⟨g, values, first, _⟩ => none_ g _ first
      exact iff_of_true ⟨fun member => absurd member outside, fun _ => rfl⟩ (fun g => none_ g _)
  | cons g rest ih =>
      rw [MembershipDecided, checkUserGroup_cons]
      cases row : g.row user group with
      | none =>
          have member : Member (g :: rest) user group ↔ Member rest user group := by
            simp only [Member, firstRow_unknown row]
          simp only [member, firstRow_unknown row]
          exact ih
      | some vals =>
          simp only [Member, firstRow_known row]
          cases vals with
          | none => simp [listsName]
          | some values =>
              have listed : (∃ g' values', (g' = g ∧ some values' = some values) ∧ g'.other user group ∈ values') ↔
                  g.other user group ∈ values := by simp
              rw [listed]
              refine iff_of_true ?_ (fun g' first => nomatch first.2)
              simp only [listsName, Option.map_some]
              exact ⟨fun member => by rw [if_pos member], fun other => by rw [if_neg other]⟩

/-- The search of a loaded table. -/
def TextTable.search (t : TextTable) : TableSearch := fun key => (fileTableSearch (some t) key).map TextEntry.valueList

/-- The line `b` alone: a row that holds only a key. -/
def keyOnlyTable : TextTable := ⟨[⟨[98], none⟩], 1⟩

/-- For a user whose row holds only a key the check walks values that are not there. -/
theorem key_only_row_is_walked :
    fileTableOpen (-1) [98, 10] = some (some keyOnlyTable) ∧
      ¬ MembershipDecided [⟨.byUser, some keyOnlyTable.search, rfl⟩] [98] [103] ∧
      checkUserGroup [⟨.byUser, some keyOnlyTable.search, rfl⟩] [98] [103] = none := by
  refine ⟨by decide +kernel, fun decided => ?_, rfl⟩
  refine (membership_decided_iff _ _ _).mp decided ⟨.byUser, some keyOnlyTable.search, rfl⟩ ?_
  exact ⟨[], [], rfl, by simp, rfl⟩

end IcapService
