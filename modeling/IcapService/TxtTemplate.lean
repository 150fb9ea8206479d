import IcapService.Lib.CString
import Mathlib.Data.List.Basic

/-! The cache of the templates of `txtTemplate.c`.

A slot holds a buffer with the text of a template; a caller that has got a template locks its slot until it
releases it. -/

namespace IcapService

open CString

/-- The service, the page and the language of a template. -/
structure TemplateNames where
  service : Bytes
  page : Bytes
  language : Bytes
  deriving DecidableEq

/-- A buffer; every load makes a new one. -/
structure TemplateBuf where
  id : Nat
  text : Bytes
  deriving DecidableEq

/-- A `txtTemplate_t`. -/
structure TxtTemplate where
  names : Option TemplateNames
  data : Option TemplateBuf
  lastUsed : Int
  loaded : Int
  modified : Int
  locked : Int
  mustFree : Bool
  nonCached : Bool
  deriving DecidableEq

namespace TxtTemplate

/-- A slot of `ci_txt_template_init`; two of its times are left as they were. -/
def blank (lastUsed modified : Int) : TxtTemplate := ⟨none, none, lastUsed, 0, modified, 0, false, false⟩

/-- `templateFree`. -/
def free (t : TxtTemplate) : TxtTemplate := if t.data = none then t else { t with names := none, data := none }

/-- `templateExpired`: the file has been changed since it was loaded; `mtime` is what `stat` says, if it works. -/
def expired (t : TxtTemplate) (reloadTime now : Int) (mtime : Option Int) : Bool :=
  match mtime with
  | none => false
  | some mtime => decide (reloadTime ≤ now - t.loaded) && decide (t.modified < mtime)

/-- The test of `templateFind`. -/
def shows (t : TxtTemplate) (names : TemplateNames) : Bool :=
  t.data.isSome && !t.mustFree && decide (t.names = some names)

@[simp] theorem free_data (t : TxtTemplate) : t.free.data = none := by
  rw [free]
  split
  · assumption
  · rfl

@[simp] theorem free_locked (t : TxtTemplate) : t.free.locked = t.locked := by
  rw [free]
  split <;> rfl

@[simp] theorem free_lastUsed (t : TxtTemplate) : t.free.lastUsed = t.lastUsed := by
  rw [free]
  split <;> rfl

end TxtTemplate

/-- `templateFind`. -/
def templateFind (slots : List TxtTemplate) (names : TemplateNames) : Option Nat :=
  slots.findIdx? (fun t => t.shows names)

/-- The second loop of `templateFindFree`, from the slot `i` on. -/
def findOldest (i : Nat) (oldest : Int) (useme : Option Nat) : List TxtTemplate → Option Nat
  | [] => useme
  | t :: rest =>
      if t.lastUsed < oldest ∧ t.locked ≤ 0 then findOldest (i + 1) t.lastUsed (some i) rest
      else findOldest (i + 1) oldest useme rest

/-- `templateFindFree`: an empty slot, or the least recently used one that is not locked, which is freed. The
search for it starts at the time 0. -/
def templateFindFree (slots : List TxtTemplate) : Option Nat × List TxtTemplate :=
  match slots.findIdx? (fun t => t.data.isNone) with
  | some i => (some i, slots)
  | none =>
      match findOldest 0 0 none slots with
      | none => (none, slots)
      | some i => (some i, slots.modify i TxtTemplate.free)

/-! ### Eviction -/

/-- An unlocked slot that was not used after any other unlocked slot. -/
structure Oldest (slots : List TxtTemplate) (i : Nat) : Prop where
  unlocked : ∃ t, slots[i]? = some t ∧ t.locked ≤ 0
  least : ∀ t, slots[i]? = some t → ∀ u ∈ slots, u.locked ≤ 0 → t.lastUsed ≤ u.lastUsed

/-- The loop ends with the first unlocked slot that is older than the time it started with, and with the oldest of
those, if there is one. -/
theorem findOldest_spec (rest front : List TxtTemplate) (oldest : Int) (useme : Option Nat)
    (chosen : ∀ i, useme = some i → ∃ t, front[i]? = some t ∧ t.locked ≤ 0 ∧ t.lastUsed = oldest)
    (least : ∀ u ∈ front, u.locked ≤ 0 → oldest ≤ u.lastUsed) :
    match findOldest front.length oldest useme rest with
    | none => useme = none ∧ ∀ u ∈ rest, u.locked ≤ 0 → oldest ≤ u.lastUsed
    | some i => Oldest (front ++ rest) i := by
  induction rest generalizing front oldest useme with
  | nil =>
      rw [findOldest, List.append_nil]
      cases useme with
      | none => exact ⟨rfl, fun u member => absurd member List.not_mem_nil⟩
      | some i =>
          obtain ⟨t, found, unlocked, same⟩ := chosen i rfl
          refine ⟨⟨t, found, unlocked⟩, fun t' found' u member free => ?_⟩
          cases found.symm.trans found'
          rw [same]
          exact least u member free
  | cons t rest ih =>
      have longer : front.length + 1 = (front ++ [t]).length := by simp
      have split_at : front ++ t :: rest = (front ++ [t]) ++ rest := by simp
      rw [findOldest]
      by_cases older : t.lastUsed < oldest ∧ t.locked ≤ 0
      · rw [if_pos older]
        have kept := ih (front ++ [t]) t.lastUsed (some front.length)
          (fun i same => by
            cases same
            exact ⟨t, by simp, older.2, rfl⟩)
          (fun u member free => by
            rcases List.mem_append.mp member with member | member
            · exact Int.le_trans (Int.le_of_lt older.1) (least u member free)
            · exact Int.le_of_eq (congrArg TxtTemplate.lastUsed (List.mem_singleton.mp member)).symm)
        rw [← longer, ← split_at] at kept
        cases found : findOldest (front.length + 1) t.lastUsed (some front.length) rest with
        | none =>
            rw [found] at kept
            cases kept.1
        | some i =>
            rw [found] at kept
            exact kept
      · rw [if_neg older]
        have stays : t.locked ≤ 0 → oldest ≤ t.lastUsed := by
          intro free
          by_contra before
          exact older ⟨by omega, free⟩
        have kept := ih (front ++ [t]) oldest useme
          (fun i same => by
            obtain ⟨u, found, unlocked⟩ := chosen i same
            have inside := (List.getElem?_eq_some_iff.mp found).1
            exact ⟨u, by rw [List.getElem?_append_left inside, found], unlocked⟩)
          (fun u member free => by
            rcases List.mem_append.mp member with member | member
            · exact least u member free
            · rw [List.mem_singleton.mp member] at free ⊢
              exact stays free)
        rw [← longer, ← split_at] at kept
        cases found : findOldest (front.length + 1) oldest useme rest with
        | none =>
            rw [found] at kept
            refine ⟨kept.1, fun u member free => ?_⟩
            rcases List.mem_cons.mp member with rfl | member
            · exact stays free
            · exact kept.2 u member free
        | some i =>
            rw [found] at kept
            exact kept

theorem findOldest_young (rest : List TxtTemplate) (i : Nat) (oldest : Int) (useme : Option Nat)
    (young : ∀ u ∈ rest, u.locked ≤ 0 → oldest ≤ u.lastUsed) : findOldest i oldest useme rest = useme := by
  induction rest generalizing i with
  | nil => rfl
  | cons t rest ih =>
      have after := young t List.mem_cons_self
      rw [findOldest, if_neg (by omega)]
      exact ih (i + 1) (fun u member => young u (List.mem_cons_of_mem _ member))

/-- What `templateFindFree` does when no slot is empty. -/
theorem templateFindFree_full {slots : List TxtTemplate} (full : ∀ t ∈ slots, t.data ≠ none) :
    (∃ i, templateFindFree slots = (some i, slots.modify i TxtTemplate.free) ∧ Oldest slots i) ∧
        (∃ t ∈ slots, t.locked ≤ 0 ∧ t.lastUsed < 0) ∨
      templateFindFree slots = (none, slots) ∧ ∀ u ∈ slots, u.locked ≤ 0 → 0 ≤ u.lastUsed := by
  have nowhere : slots.findIdx? (fun t => t.data.isNone) = none := by
    rw [List.findIdx?_eq_none_iff]
    intro t member
    have held := full t member
    cases same : t.data with
    | none => exact absurd same held
    | some buf => rfl
  have spec := findOldest_spec slots [] 0 none (fun i same => by cases same)
    (fun u member => absurd member List.not_mem_nil)
  simp only [List.length_nil, List.nil_append] at spec
  simp only [templateFindFree, nowhere]
  cases found : findOldest 0 0 none slots with
  | none =>
      rw [found] at spec
      exact .inr ⟨rfl, spec.2⟩
  | some i =>
      rw [found] at spec
      refine .inl ⟨⟨i, rfl, spec⟩, ?_⟩
      by_contra none_old
      have young : ∀ u ∈ slots, u.locked ≤ 0 → 0 ≤ u.lastUsed := fun u member free =>
        Int.not_lt.mp fun old => none_old ⟨u, member, free, old⟩
      rw [findOldest_young slots 0 0 none young] at found
      cases found

/-- `templateFindFree` evicts the oldest unlocked template. -/
def Evicts (slots : List TxtTemplate) : Prop :=
  (∃ t ∈ slots, t.locked ≤ 0) →
    ∃ i, templateFindFree slots = (some i, slots.modify i TxtTemplate.free) ∧ Oldest slots i

/-- The loop only finds a slot that was last used before the time 0. -/
theorem evicts_iff {slots : List TxtTemplate} (full : ∀ t ∈ slots, t.data ≠ none) :
    Evicts slots ↔ ((∃ t ∈ slots, t.locked ≤ 0) → ∃ t ∈ slots, t.locked ≤ 0 ∧ t.lastUsed < 0) := by
  rcases templateFindFree_full full with ⟨evicted, old⟩ | ⟨missed, young⟩
  · exact ⟨fun _ _ => old, fun _ _ => evicted⟩
  · refine ⟨fun evicts free => ?_, fun old free => ?_⟩
    · obtain ⟨i, found, -⟩ := evicts free
      rw [missed] at found
      cases found
    · obtain ⟨t, member, unlocked, before⟩ := old free
      have after := young t member unlocked
      omega

end IcapService
