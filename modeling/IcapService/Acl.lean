import IcapService.Lib.CString

/-! The access lists of `acl.c`, `access.c` and `default_acl.c`.

An access entry allows or denies the requests that match all its specs. The lists are searched from
their head. -/

namespace IcapService

open CString

/-- A `ci_acl_type_t`: how the tested data is taken from a request of type `ρ`, if it is there, and how
an item of an acl is compared with it. -/
structure AclType (ρ : Type) where
  Item : Type
  Test : Type
  getTestData : ρ → Option Bytes → Option Test
  equal : Item → Test → Bool

/-- A `ci_acl_spec_t`. -/
structure AclSpec (ρ : Type) where
  type : AclType ρ
  parameter : Option Bytes
  data : List type.Item

/-- An element of a `ci_specs_list_t`. -/
structure SpecEntry (ρ : Type) where
  spec : AclSpec ρ
  negate : Bool

/-- `CI_ACCESS_ALLOW` and so on. -/
inductive Access where
  | allow
  | unknown
  | deny
  | part
  | httpAuth
  deriving DecidableEq

theorem Access.deny_decided : Access.deny = .allow ∨ Access.deny = .deny := .inr rfl

/-- A `ci_access_entry_t`. -/
structure AccessEntry (ρ : Type) where
  type : Access
  specList : List (SpecEntry ρ)
  decided : type = .allow ∨ type = .deny

variable {ρ : Type}

/-- The loop of `spec_data_check`. -/
def AclType.dataCheck (type : AclType ρ) (test : type.Test) : List type.Item → Bool
  | [] => false
  | item :: rest => if type.equal item test then true else type.dataCheck test rest

/-- `spec_data_check`. -/
def specDataCheck (spec : AclSpec ρ) (test : spec.type.Test) : Bool := spec.type.dataCheck test spec.data

/-- `request_match_specslist`. -/
def requestMatchSpecslist (req : ρ) : List (SpecEntry ρ) → Bool
  | [] => true
  | s :: rest =>
      match s.spec.type.getTestData req s.spec.parameter with
      | none => false
      | some test =>
          let checkResult := specDataCheck s.spec test
          if checkResult = false ∧ s.negate = false then false
          else if checkResult = true ∧ s.negate = true then false
          else requestMatchSpecslist req rest

/-- The loop of `ci_access_entry_match_request`. -/
def matchEntries (req : ρ) : List (AccessEntry ρ) → Access
  | [] => .unknown
  | e :: rest =>
      if e.specList ≠ [] ∧ requestMatchSpecslist req e.specList then e.type else matchEntries req rest

/-- `ci_access_entry_match_request`. -/
def ciAccessEntryMatchRequest (entries : List (AccessEntry ρ)) (req : ρ) : Access :=
  if entries = [] then .allow else matchEntries req entries

/-- Some item of the acl matches the data of the request. -/
def AclSpec.Holds (spec : AclSpec ρ) (req : ρ) : Prop :=
  ∃ test, spec.type.getTestData req spec.parameter = some test ∧ ∃ item ∈ spec.data, spec.type.equal item test = true

/-- The verdict of a list under a meaning of its specs: that of the first entry which has specs that all
match, or the default. -/
inductive FirstMatch (matches_ : SpecEntry ρ → ρ → Prop) (default : Access) (req : ρ) :
    List (AccessEntry ρ) → Access → Prop where
  | none : FirstMatch matches_ default req [] default
  | found {e : AccessEntry ρ} {rest : List (AccessEntry ρ)} (some : e.specList ≠ [])
      (all : ∀ s ∈ e.specList, matches_ s req) : FirstMatch matches_ default req (e :: rest) e.type
  | later {e : AccessEntry ρ} {rest : List (AccessEntry ρ)} {verdict : Access}
      (other : ¬ (e.specList ≠ [] ∧ ∀ s ∈ e.specList, matches_ s req))
      (next : FirstMatch matches_ default req rest verdict) : FirstMatch matches_ default req (e :: rest) verdict

/-- What a verdict of an access list becomes behind the other controllers. -/
def Access.orAllow (a : Access) : Access := if a ≠ .unknown then a else .allow

/-- The verdict of a list is unique. -/
theorem FirstMatch.unique {matches_ : SpecEntry ρ → ρ → Prop} {default : Access} {req : ρ}
    {entries : List (AccessEntry ρ)} {v w : Access} (first : FirstMatch matches_ default req entries v)
    (second : FirstMatch matches_ default req entries w) : v = w := by
  induction first with
  | none =>
      cases second
      rfl
  | found some all =>
      cases second with
      | found => rfl
      | later other => exact absurd ⟨some, all⟩ other
  | later other next ih =>
      cases second with
      | found some all => exact absurd ⟨some, all⟩ other
      | later _ next' => exact ih next'

/-- The comparison of `content_length{>}` and so on. -/
inductive LengthOperator where
  | equal
  | greater
  | less
  deriving DecidableEq

/-- `acl_cmp_uint64_equal`: the length of the request against that of the acl. -/
def aclCmpUint64Equal (item : Nat) (test : Nat × LengthOperator) : Bool :=
  match test.2 with
  | .greater => decide (item < test.1)
  | .less => decide (test.1 < item)
  | .equal => decide (item = test.1)

/-- `get_content_length` for a request that is known by the length it states; where the parameter is none of
the three signs the program leaves the operator unset. -/
def getContentLength (length : Option Nat) (parameter : Option Bytes) : Option (Nat × LengthOperator) :=
  length.map fun n => (n,
    if parameter = some (ascii ">") then .greater else if parameter = some (ascii "<") then .less else .equal)

def aclContentLength : AclType (Option Nat) where
  Item := Nat
  Test := Nat × LengthOperator
  getTestData := getContentLength
  equal := aclCmpUint64Equal

end IcapService
