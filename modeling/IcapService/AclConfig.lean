import IcapService.Acl

/-! The `client_access` and `icap_access` directives of `default_acl.c`.

A directive appends an entry to its list and fills it with the acls it names. The check of their types looks
at the name as it is written, the addition at the name without the `!`. -/

namespace IcapService

open CString

variable {ρ : Type}

/-- A `ci_acl_spec_t` under its name, with the name of its type. -/
structure NamedSpec (ρ : Type) where
  name : Bytes
  typeName : Bytes
  spec : AclSpec ρ

/-- `acl_connection_access_list` and `acl_access_list`. -/
structure AccessLists (ρ : Type) where
  connection : List (AccessEntry ρ)
  access : List (AccessEntry ρ)

/-- `ci_acl_search`. -/
def ciAclSearch (specs : List (NamedSpec ρ)) (name : Bytes) : Option (NamedSpec ρ) :=
  specs.find? (fun s => s.name == name)

/-- `ci_access_entry_add_acl`. -/
def AccessEntry.addAcl (e : AccessEntry ρ) (acl : AclSpec ρ) (negate : Bool) : AccessEntry ρ :=
  { e with specList := e.specList ++ [⟨acl, negate⟩] }

/-- The `!` in front of the name of an acl, and the name. -/
def aclNegation (name : Bytes) : Bool × Bytes :=
  match name with
  | c :: rest => if c = 33 then (true, rest) else (false, name)
  | [] => (false, name)

/-- `ci_access_entry_add_acl_by_name`. -/
def AccessEntry.addAclByName (specs : List (NamedSpec ρ)) (e : AccessEntry ρ) (name : Bytes) : Bool × AccessEntry ρ :=
  match ciAclSearch specs (aclNegation name).2 with
  | none => (false, e)
  | some acl => (true, e.addAcl acl.spec (aclNegation name).1)

/-- The types allowed in `client_access`. -/
def connectionTypes : List Bytes := [ascii "port", ascii "src", ascii "srvip"]

/-- The acl of this name is not for `client_access`. -/
def wrongType (specs : List (NamedSpec ρ)) (onlyConnection : Bool) (name : Bytes) : Bool :=
  match ciAclSearch specs name with
  | none => false
  | some acl => onlyConnection && !connectionTypes.contains acl.typeName

/-- The loop over the names of a directive: the entry, and whether an error was seen. -/
def addSpecs (specs : List (NamedSpec ρ)) (onlyConnection : Bool) :
    List Bytes → AccessEntry ρ → Bool → AccessEntry ρ × Bool
  | [], e, error => (e, error)
  | name :: rest, e, error =>
      if wrongType specs onlyConnection name then addSpecs specs onlyConnection rest e true
      else addSpecs specs onlyConnection rest (e.addAclByName specs name).2 error

/-- `cfg_default_acl_access` behind its checks. -/
def appendAccess (specs : List (NamedSpec ρ)) (onlyConnection : Bool) (lists : AccessLists ρ) (e : AccessEntry ρ)
    (names : List Bytes) : Bool × AccessLists ρ :=
  let out := addSpecs specs onlyConnection names e false
  (!out.2, if onlyConnection then { lists with connection := lists.connection ++ [out.1] }
    else { lists with access := lists.access ++ [out.1] })

/-- `ci_access_entry_new`. -/
def AccessEntry.new (type : Access) (decided : type = .allow ∨ type = .deny) : AccessEntry ρ := ⟨type, [], decided⟩

/-- `cfg_default_acl_access`. -/
def cfgDefaultAclAccess (specs : List (NamedSpec ρ)) (lists : AccessLists ρ) (directive : Bytes) (argv : List Bytes) :
    Bool × AccessLists ρ :=
  match argv with
  | action :: name :: names =>
      if directive = ascii "client_access" ∨ directive = ascii "icap_access" then
        let onlyConnection := decide (directive = ascii "client_access")
        if action = ascii "allow" then
          appendAccess specs onlyConnection lists (.new .allow (.inl rfl)) (name :: names)
        else if action = ascii "deny" then
          appendAccess specs onlyConnection lists (.new .deny Access.deny_decided) (name :: names)
        else (false, lists)
      else (false, lists)
  | _ => (false, lists)

/-! ### What a directive asks for -/

/-- An acl that may stand in the directive. -/
def NamedSpec.Usable (acl : NamedSpec ρ) (onlyConnection : Bool) : Prop :=
  onlyConnection = true → acl.typeName ∈ connectionTypes

/-- The spec that a name of the directive asks for. -/
def AsksFor (specs : List (NamedSpec ρ)) (onlyConnection : Bool) (name : Bytes) (s : SpecEntry ρ) : Prop :=
  ∃ acl, ciAclSearch specs (aclNegation name).2 = some acl ∧ acl.Usable onlyConnection ∧
    s = ⟨acl.spec, (aclNegation name).1⟩

/-- The name is that of an acl that is defined and may stand in the directive. -/
def Allowed (specs : List (NamedSpec ρ)) (onlyConnection : Bool) (name : Bytes) : Prop :=
  ∃ s, AsksFor specs onlyConnection name s

/-- A rule is left behind in none of the lists: nothing is, or an entry without specs. -/
def AccessLists.Spared (before after : AccessLists ρ) : Prop :=
  after = before ∨ ∃ e : AccessEntry ρ, e.specList = [] ∧
    (after = { before with connection := before.connection ++ [e] } ∨
      after = { before with access := before.access ++ [e] })

/-- A directive is honoured: a success appends the entry it asks for, and with an acl that is not defined or may
not stand there it fails and leaves no rule behind. -/
structure Honoured (specs : List (NamedSpec ρ)) (lists : AccessLists ρ) (directive : Bytes) (argv : List Bytes) :
    Prop where
  success : (cfgDefaultAclAccess specs lists directive argv).1 = true →
    ∃ (e : AccessEntry ρ) (action : Bytes) (names : List Bytes), argv = action :: names ∧
      (action = ascii "allow" ∧ e.type = .allow ∨ action = ascii "deny" ∧ e.type = .deny) ∧
      (directive = ascii "client_access" ∧
          List.Forall₂ (AsksFor specs true) names e.specList ∧
          (cfgDefaultAclAccess specs lists directive argv).2 =
            { lists with connection := lists.connection ++ [e] } ∨
        directive = ascii "icap_access" ∧
          List.Forall₂ (AsksFor specs false) names e.specList ∧
          (cfgDefaultAclAccess specs lists directive argv).2 = { lists with access := lists.access ++ [e] })
  failure : (∃ name ∈ argv.tail, ¬ Allowed specs (decide (directive = ascii "client_access")) name) →
    (cfgDefaultAclAccess specs lists directive argv).1 = false ∧
      lists.Spared (cfgDefaultAclAccess specs lists directive argv).2

/-- A directive that gets past its checks. -/
def WellFormed (directive : Bytes) (argv : List Bytes) : Prop :=
  (directive = ascii "client_access" ∨ directive = ascii "icap_access") ∧
    (argv.head? = some (ascii "allow") ∨ argv.head? = some (ascii "deny")) ∧ argv.tail ≠ []

/-- The names keep off the defects of the handler: all of them are allowed, or one of them is refused for its type
and the others are not defined. -/
def KeepsOff (specs : List (NamedSpec ρ)) (onlyConnection : Bool) (names : List Bytes) : Prop :=
  (∀ name ∈ names, Allowed specs onlyConnection name) ∨
    (∃ name ∈ names, wrongType specs onlyConnection name = true) ∧
      ∀ name ∈ names, wrongType specs onlyConnection name = false → ciAclSearch specs (aclNegation name).2 = none

/-! ### What the handler does -/

/-- The spec that the loop adds for a name. -/
def addedSpec (specs : List (NamedSpec ρ)) (onlyConnection : Bool) (name : Bytes) : Option (SpecEntry ρ) :=
  if wrongType specs onlyConnection name then none
  else (ciAclSearch specs (aclNegation name).2).map (fun acl => ⟨acl.spec, (aclNegation name).1⟩)

/-- An entry without specs leaves the verdicts of its list as they are. -/
theorem matchEntries_append_empty (req : ρ) (entries : List (AccessEntry ρ)) {e : AccessEntry ρ} (empty : e.specList = []) :
    matchEntries req (entries ++ [e]) = matchEntries req entries := by
  induction entries with
  | nil => simp [matchEntries, empty]
  | cons first rest ih => rw [List.cons_append, matchEntries, matchEntries, ih]

theorem ciAccessEntryMatchRequest_append_empty (req : ρ) (entries : List (AccessEntry ρ)) {e : AccessEntry ρ}
    (empty : e.specList = []) :
    (ciAccessEntryMatchRequest (entries ++ [e]) req).orAllow = (ciAccessEntryMatchRequest entries req).orAllow := by
  rw [ciAccessEntryMatchRequest, ciAccessEntryMatchRequest, if_neg (by simp), matchEntries_append_empty req entries empty]
  split
  · rename_i none
    rw [none]
    rfl
  · rfl

/-- What a directive leaves behind when the lists are spared decides nothing. -/
theorem AccessLists.Spared.verdicts {before after : AccessLists ρ} (spared : before.Spared after) (req : ρ) :
    (ciAccessEntryMatchRequest after.connection req).orAllow =
        (ciAccessEntryMatchRequest before.connection req).orAllow ∧
      (ciAccessEntryMatchRequest after.access req).orAllow = (ciAccessEntryMatchRequest before.access req).orAllow := by
  rcases spared with rfl | ⟨e, empty, rfl | rfl⟩
  · exact ⟨rfl, rfl⟩
  · exact ⟨ciAccessEntryMatchRequest_append_empty req before.connection empty, rfl⟩
  · exact ⟨rfl, ciAccessEntryMatchRequest_append_empty req before.access empty⟩

section

variable {specs : List (NamedSpec ρ)} {onlyConnection : Bool} {lists : AccessLists ρ} {names : List Bytes}

theorem addSpecs_eq (e : AccessEntry ρ) (error : Bool) :
    addSpecs specs onlyConnection names e error =
      ({ e with specList := e.specList ++ names.filterMap (addedSpec specs onlyConnection) },
        error || names.any (wrongType specs onlyConnection)) := by
  induction names generalizing e error with
  | nil => simp [addSpecs]
  | cons name rest ih =>
      rw [addSpecs]
      cases wrong : wrongType specs onlyConnection name with
      | true =>
          rw [if_pos rfl, ih]
          simp [addedSpec, wrong]
      | false =>
          rw [if_neg (by decide), ih, AccessEntry.addAclByName]
          cases found : ciAclSearch specs (aclNegation name).2 with
          | none => simp [addedSpec, wrong, found]
          | some acl => simp [addedSpec, wrong, found, AccessEntry.addAcl]

/-- A name that is allowed and passes the check of its type gets the spec it asks for. -/
theorem Allowed.added {name : Bytes} (allowed : Allowed specs onlyConnection name)
    (passes : wrongType specs onlyConnection name = false) :
    ∃ s, addedSpec specs onlyConnection name = some s ∧ AsksFor specs onlyConnection name s := by
  obtain ⟨s, acl, found, usable, same⟩ := allowed
  refine ⟨s, ?_, acl, found, usable, same⟩
  rw [addedSpec, if_neg (by rw [passes]; decide), found, same]
  rfl

theorem asksFor_all (allowed : ∀ name ∈ names, Allowed specs onlyConnection name)
    (passes : ∀ name ∈ names, wrongType specs onlyConnection name = false) :
    List.Forall₂ (AsksFor specs onlyConnection) names (names.filterMap (addedSpec specs onlyConnection)) := by
  induction names with
  | nil => exact .nil
  | cons name rest ih =>
      obtain ⟨s, added, asked⟩ := (allowed name List.mem_cons_self).added (passes name List.mem_cons_self)
      rw [List.filterMap_cons, added]
      exact .cons asked (ih (fun n member => allowed n (List.mem_cons_of_mem _ member))
        (fun n member => passes n (List.mem_cons_of_mem _ member)))

variable (specs lists) in
/-- The entry a directive appends, and whether it succeeds. -/
theorem cfgDefaultAclAccess_eq {directive : Bytes} {argv : List Bytes} (formed : WellFormed directive argv) :
    ∃ (e : AccessEntry ρ) (action : Bytes), argv = action :: argv.tail ∧
      (action = ascii "allow" ∧ e.type = .allow ∨ action = ascii "deny" ∧ e.type = .deny) ∧
      e.specList = argv.tail.filterMap (addedSpec specs (decide (directive = ascii "client_access"))) ∧
      cfgDefaultAclAccess specs lists directive argv =
        (!argv.tail.any (wrongType specs (decide (directive = ascii "client_access"))),
          if directive = ascii "client_access" then { lists with connection := lists.connection ++ [e] }
          else { lists with access := lists.access ++ [e] }) := by
  obtain ⟨known, action, some⟩ := formed
  match argv, action, some with
  | [_], _, some => exact absurd rfl some
  | act :: name :: rest, action, _ =>
      simp only [List.head?_cons, Option.some.injEq] at action
      have apart : ascii "deny" ≠ ascii "allow" := by decide
      simp only [cfgDefaultAclAccess, if_pos known, appendAccess, addSpecs_eq, List.tail_cons, decide_eq_true_eq]
      rcases action with rfl | rfl
      · rw [if_pos rfl]
        exact ⟨_, _, rfl, .inl ⟨rfl, rfl⟩, rfl, rfl⟩
      · rw [if_neg apart, if_pos rfl]
        exact ⟨_, _, rfl, .inr ⟨rfl, rfl⟩, rfl, rfl⟩

variable (specs lists) in
/-- A directive that does not get past the checks fails and changes nothing. -/
theorem cfgDefaultAclAccess_refused {directive : Bytes} {argv : List Bytes} (malformed : ¬ WellFormed directive argv) :
    cfgDefaultAclAccess specs lists directive argv = (false, lists) := by
  match argv with
  | [] => rfl
  | [_] => rfl
  | action :: name :: rest =>
      rw [cfgDefaultAclAccess]
      by_cases known : directive = ascii "client_access" ∨ directive = ascii "icap_access"
      · have neither : ¬ (action = ascii "allow" ∨ action = ascii "deny") := by
          intro either
          refine malformed ⟨known, either.imp (congrArg some) (congrArg some), List.cons_ne_nil _ _⟩
        rw [if_pos known, if_neg (fun allow => neither (.inl allow)), if_neg (fun deny => neither (.inr deny))]
      · rw [if_neg known]

/-- An appended entry is spared exactly when it has no specs. -/
theorem spared_append {e : AccessEntry ρ} {directive : Bytes}
    (spared : lists.Spared (if directive = ascii "client_access" then { lists with connection := lists.connection ++ [e] }
      else { lists with access := lists.access ++ [e] })) : e.specList = [] := by
  have longer : ∀ l : List (AccessEntry ρ), l ++ [e] ≠ l := by
    intro l same
    have length := congrArg List.length same
    rw [List.length_append, List.length_singleton] at length
    omega
  rcases spared with same | ⟨other, empty, same | same⟩
  · split at same
    · exact absurd (congrArg AccessLists.connection same) (longer _)
    · exact absurd (congrArg AccessLists.access same) (longer _)
  · split at same
    · have last := List.append_cancel_left (congrArg AccessLists.connection same)
      cases last
      exact empty
    · exact absurd (congrArg AccessLists.access same) (longer _)
  · split at same
    · exact absurd (congrArg AccessLists.connection same) (longer _)
    · have last := List.append_cancel_left (congrArg AccessLists.access same)
      cases last
      exact empty

end

/-- A directive is honoured exactly when it does not get past the checks of its form, or its names keep off the
defects of the handler. -/
theorem directive_honoured_iff (specs : List (NamedSpec ρ)) (lists : AccessLists ρ) (directive : Bytes)
    (argv : List Bytes) :
    Honoured specs lists directive argv ↔
      (WellFormed directive argv → KeepsOff specs (decide (directive = ascii "client_access")) argv.tail) := by
  by_cases formed : WellFormed directive argv
  · obtain ⟨e, action, shape, type, specList, result⟩ := cfgDefaultAclAccess_eq specs lists formed
    generalize client : decide (directive = ascii "client_access") = onlyConnection at *
    have passes : (cfgDefaultAclAccess specs lists directive argv).1 = true ↔
        ∀ name ∈ argv.tail, wrongType specs onlyConnection name = false := by
      rw [result]
      simp
    constructor
    · rintro honoured -
      by_cases all : ∀ name ∈ argv.tail, Allowed specs onlyConnection name
      · exact .inl all
      · obtain ⟨bad, member, refused⟩ : ∃ name ∈ argv.tail, ¬ Allowed specs onlyConnection name := by
          simpa using all
        obtain ⟨fails, spared⟩ := honoured.failure ⟨bad, member, by rw [client]; exact refused⟩
        rw [result] at spared
        have empty := spared_append spared
        rw [specList, List.filterMap_eq_nil_iff] at empty
        refine .inr ⟨?_, fun name member passed => ?_⟩
        · by_contra none
          rw [passes.mpr (fun name member => by simpa using fun wrong => none ⟨name, member, wrong⟩)] at fails
          cases fails
        · have added := empty name member
          rw [addedSpec, if_neg (by rw [passed]; decide)] at added
          exact Option.map_eq_none_iff.mp added
    · intro keeps
      have off := keeps formed
      refine ⟨fun succeeds => ?_, ?_⟩
      · have passed := passes.mp succeeds
        have allowed := off.resolve_right (fun other => by
          obtain ⟨name, member, wrong⟩ := other.1
          rw [passed name member] at wrong
          cases wrong)
        have asked := asksFor_all allowed passed
        rw [← specList] at asked
        refine ⟨e, action, argv.tail, shape, type, ?_⟩
        rw [result]
        by_cases here : directive = ascii "client_access"
        · rw [decide_eq_true here] at client
          subst client
          exact .inl ⟨here, asked, if_pos here⟩
        · rw [decide_eq_false here] at client
          subst client
          exact .inr ⟨formed.1.resolve_left here, asked, if_neg here⟩
      · rw [client]
        rintro ⟨bad, member, refused⟩
        obtain ⟨⟨name, named, wrong⟩, others⟩ := off.resolve_left (fun all => refused (all bad member))
        have empty : e.specList = [] := by
          rw [specList, List.filterMap_eq_nil_iff]
          intro other member
          rw [addedSpec]
          split
          · rfl
          · rename_i passed
            rw [others other member (by simpa using passed)]
            rfl
        refine ⟨?_, .inr ⟨e, empty, ?_⟩⟩
        · by_contra succeeds
          rw [passes.mp (by simpa using succeeds) name named] at wrong
          cases wrong
        · rw [result]
          by_cases here : directive = ascii "client_access"
          · exact .inl (if_pos here)
          · exact .inr (if_neg here)
  · have refused := cfgDefaultAclAccess_refused specs lists formed
    refine iff_of_true ⟨fun succeeds => ?_, fun _ => ?_⟩ (fun other => absurd other formed)
    · rw [refused] at succeeds
      cases succeeds
    · rw [refused]
      exact ⟨rfl, .inl rfl⟩

/-- `acl Big content_length{>} 1000`. -/
def bigSpecs : List (NamedSpec (Option Nat)) :=
  [⟨ascii "Big", ascii "content_length", ⟨aclContentLength, some (ascii ">"), [(1000 : Nat)]⟩⟩]

/-- An acl that is not defined is dropped from its rule, and a negated one of the wrong type gets into
`client_access`. -/
theorem undefined_acl_is_dropped :
    ¬ Honoured bigSpecs ⟨[], []⟩ (ascii "icap_access") [ascii "allow", ascii "Big", ascii "Missing"] ∧
    ¬ Honoured bigSpecs ⟨[], []⟩ (ascii "client_access") [ascii "allow", ascii "!Big"] := by
  constructor
  · intro honoured
    have missing : ciAclSearch bigSpecs (aclNegation (ascii "Missing")).2 = none := rfl
    obtain ⟨fails, -⟩ := honoured.failure ⟨ascii "Missing", by decide, by
      rintro ⟨s, acl, found, -⟩
      rw [missing] at found
      cases found⟩
    exact absurd fails (by decide)
  · intro honoured
    obtain ⟨fails, -⟩ := honoured.failure ⟨ascii "!Big", by decide, by
      rintro ⟨s, acl, found, usable, -⟩
      cases found
      exact absurd (usable (by decide)) (by decide)⟩
    exact absurd fails (by decide)

end IcapService
