import IcapService.Lib.Transition
import IcapService.TxtTemplate

/-! Callers that load and release templates of one cache.

Each section that holds the mutex is one step. A caller looks for its template, reads the file if it is not there,
and puts it into a slot; when it releases the template it decides first whether the slot is to be freed. -/

namespace IcapService

open CString Transition

/-- Where a caller stands; what it has got is a slot and the buffer in it, or a template of its own. -/
inductive TemplateCaller where
  | idle
  | missed (names : TemplateNames) (now : Int)
  | holds (slot : Nat) (buf : TemplateBuf)
  | owns (buf : TemplateBuf)
  | releasing (slot : Nat) (buf : TemplateBuf) (mustFree : Bool)
  deriving DecidableEq

namespace TemplateCaller

/-- The slot it has obtained and not yet released. -/
def place : TemplateCaller → Option (Nat × TemplateBuf)
  | .holds slot buf => some (slot, buf)
  | .releasing slot buf _ => some (slot, buf)
  | _ => none

def uses (slot : Nat) (c : TemplateCaller) : Bool := (c.place.map Prod.fst) == some slot

end TemplateCaller

structure TemplateCache where
  slots : List TxtTemplate
  callers : List TemplateCaller
  nextBuf : Nat

inductive TemplateOp where
  /-- The first section of `templateTryLoadText`. -/
  | find (c : Nat) (names : TemplateNames) (now : Int)
  /-- The file cannot be read. -/
  | abandon (c : Nat)
  /-- The second section, with the text and the time of the file. -/
  | load (c : Nat) (text : Bytes) (modified : Int) (allocated : Bool)
  /-- `template_release` up to its section. -/
  | check (c : Nat) (now : Int) (mtime : Option Int)
  | release (c : Nat)
  | reset

namespace TemplateCache

/-- `ci_txt_template_init`; the slots keep times that they had before. -/
def init (times : List (Int × Int)) (callers : Nat) : TemplateCache :=
  ⟨times.map fun t => .blank t.1 t.2, List.replicate callers .idle, 0⟩

/-- A caller goes on. -/
def moves (s : TemplateCache) (c : Nat) (caller : TemplateCaller) : TemplateCache :=
  { s with callers := s.callers.set c caller }

/-- What `templateTryLoadText` writes into a slot. -/
def fill (names : TemplateNames) (buf : TemplateBuf) (now modified : Int) (t : TxtTemplate) : TxtTemplate where
  names := some names
  data := some buf
  lastUsed := now
  loaded := now
  modified := modified
  locked := t.locked + 1
  mustFree := false
  nonCached := false

/-- The second section of `templateTryLoadText`. -/
def loadText (s : TemplateCache) (c : Nat) (names : TemplateNames) (now : Int) (text : Bytes) (modified : Int)
    (allocated : Bool) : TemplateCache :=
  let buf : TemplateBuf := ⟨s.nextBuf, text⟩
  let found := templateFindFree s.slots
  match found.1 with
  | some i =>
      { (s.moves c (.holds i buf)) with
        slots := found.2.modify i (fill names buf now modified)
        nextBuf := s.nextBuf + 1 }
  | none => { (s.moves c (if allocated then .owns buf else .idle)) with nextBuf := s.nextBuf + 1 }

/-- The section of `template_release`. -/
def unlock (mustFree : Bool) (t : TxtTemplate) : TxtTemplate :=
  let locked := max (t.locked - 1) 0
  if mustFree ∧ locked = 0 then TxtTemplate.free { t with locked := locked }
  else { t with locked := locked, mustFree := mustFree }

def step (reloadTime : Int) (s : TemplateCache) : TemplateOp → Option TemplateCache
  | .find c names now =>
      match s.callers[c]? with
      | some .idle =>
          match templateFind s.slots names with
          | none => some (s.moves c (.missed names now))
          | some i =>
              (s.slots[i]?.bind TxtTemplate.data).map fun buf =>
                { (s.moves c (.holds i buf)) with
                  slots := s.slots.modify i fun t => { t with lastUsed := now, locked := t.locked + 1 } }
      | _ => none
  | .abandon c =>
      match s.callers[c]? with
      | some (.missed _ _) => some (s.moves c .idle)
      | _ => none
  | .load c text modified allocated =>
      match s.callers[c]? with
      | some (.missed names now) => some (s.loadText c names now text modified allocated)
      | _ => none
  | .check c now mtime =>
      match s.callers[c]? with
      | some (.owns _) => some (s.moves c .idle)
      | some (.holds i buf) =>
          s.slots[i]?.map fun t => s.moves c (.releasing i buf (t.mustFree || t.expired reloadTime now mtime))
      | _ => none
  | .release c =>
      match s.callers[c]? with
      | some (.releasing i _ mustFree) =>
          some { (s.moves c .idle) with slots := s.slots.modify i (unlock mustFree) }
      | _ => none
  -- `ci_txt_template_reset`
  | .reset => some { s with slots := s.slots.map TxtTemplate.free }

/-- The number of callers that have a slot. -/
def users (s : TemplateCache) (slot : Nat) : Nat := s.callers.countP (TemplateCaller.uses slot)

/-- What callers hold is still in its slot, and the count of each slot is the number of its users. -/
structure Safe (s : TemplateCache) : Prop where
  held : ∀ c ∈ s.callers, ∀ i buf, c.place = some (i, buf) → ∃ slot, s.slots[i]? = some slot ∧ slot.data = some buf
  counted : ∀ i (slot : TxtTemplate), s.slots[i]? = some slot → slot.locked = (s.users i : Int)

/-- A reset finds no template in use. -/
def Allowed (s : TemplateCache) : TemplateOp → Prop
  | .reset => ∀ t ∈ s.slots, t.locked ≤ 0
  | _ => True

variable {s t : TemplateCache} {reloadTime : Int}

theorem users_set {c : Nat} {old : TemplateCaller} (new : TemplateCaller) (found : s.callers[c]? = some old) (slot : Nat) :
    (s.moves c new).users slot + (if old.uses slot then 1 else 0) =
      s.users slot + if new.uses slot then 1 else 0 := by
  obtain ⟨inside, same⟩ := List.getElem?_eq_some_iff.mp found
  have counted : old.uses slot = true → 0 < s.users slot := fun used =>
    List.countP_pos_iff.mpr ⟨old, List.mem_of_getElem? found, used⟩
  simp only [users, moves, List.countP_set inside, same] at counted ⊢
  split
  · rename_i used
    have positive := counted used
    omega
  · omega

theorem Safe.unused {i : Nat} (free : s.users i = 0) {c : TemplateCaller} (member : c ∈ s.callers) (buf : TemplateBuf) :
    c.place ≠ some (i, buf) := by
  intro placed
  have used : 0 < s.users i := List.countP_pos_iff.mpr ⟨c, member, by simp [TemplateCaller.uses, placed]⟩
  omega

/-- A caller that has no slot, before and behind the step. -/
theorem Safe.moves {c : Nat} {old : TemplateCaller} (new : TemplateCaller) (safe : s.Safe)
    (found : s.callers[c]? = some old) (place : new.place = old.place) : (s.moves c new).Safe := by
  have same : ∀ slot, (s.moves c new).users slot = s.users slot := by
    intro slot
    have counts := users_set new found slot
    have alike : new.uses slot = old.uses slot := by simp only [TemplateCaller.uses, place]
    rw [alike] at counts
    omega
  refine ⟨fun d member i buf placed => ?_, fun i t present => ?_⟩
  · rcases List.mem_or_eq_of_mem_set member with member | rfl
    · exact safe.held d member i buf placed
    · exact safe.held old (List.mem_of_getElem? found) i buf (place ▸ placed)
  · rw [same]
    exact safe.counted i t present

theorem uses_iff {c : TemplateCaller} {i : Nat} : c.uses i = true ↔ ∃ buf, c.place = some (i, buf) := by
  simp only [TemplateCaller.uses, beq_iff_eq, Option.map_eq_some_iff]
  constructor
  · rintro ⟨⟨j, buf⟩, placed, rfl⟩
    exact ⟨buf, placed⟩
  · rintro ⟨buf, placed⟩
    exact ⟨(i, buf), placed, rfl⟩

/-- A slot changes with the caller that has it before or behind the step. What it holds changes only if no other
caller has it. -/
theorem Safe.change {c i : Nat} {old : TemplateCaller} (new : TemplateCaller) {f : TxtTemplate → TxtTemplate}
    (safe : Safe s) (found : s.callers[c]? = some old) (oldPlace : ∀ j buf, old.place = some (j, buf) → j = i)
    (newPlace : ∀ j buf, new.place = some (j, buf) → j = i ∧ ∃ slot, s.slots[i]? = some slot ∧ (f slot).data = some buf)
    (locked : ∀ slot, s.slots[i]? = some slot →
      (f slot).locked + (if old.uses i then 1 else 0) = slot.locked + if new.uses i then 1 else 0)
    (kept : ∀ slot, s.slots[i]? = some slot → (f slot).data = slot.data ∨ s.users i ≤ if old.uses i then 1 else 0) :
    Safe { (s.moves c new) with slots := s.slots.modify i f } := by
  refine ⟨fun d member j buf placed => ?_, fun j slot stands => ?_⟩
  · obtain ⟨k, at_⟩ := List.mem_iff_getElem?.mp member
    simp only [TemplateCache.moves] at at_
    by_cases own : c = k
    · subst own
      rw [List.getElem?_set_self (List.getElem?_eq_some_iff.mp found).1] at at_
      cases at_
      obtain ⟨rfl, slot, present, data⟩ := newPlace j buf placed
      exact ⟨f slot, by simp [present], data⟩
    · rw [List.getElem?_set_ne own] at at_
      obtain ⟨slot, present, data⟩ := safe.held d (List.mem_of_getElem? at_) j buf placed
      by_cases here : i = j
      · subst here
        refine ⟨f slot, by simp [present], ?_⟩
        rcases kept slot present with same | alone
        · rw [same, data]
        · have counts := users_set .idle found i
          have nobody : TemplateCaller.uses i .idle = false := rfl
          rw [nobody] at counts
          have unused : (s.moves c .idle).users i = 0 := by
            simp only [Bool.false_eq_true, if_false] at counts
            omega
          have still : d ∈ (s.moves c .idle).callers := by
            refine List.mem_of_getElem? (i := k) ?_
            rw [TemplateCache.moves, List.getElem?_set_ne own, at_]
          exact absurd placed (Safe.unused unused still buf)
      · exact ⟨slot, by simp [present, here], data⟩
  · have counts := users_set new found j
    by_cases here : i = j
    · subst here
      obtain ⟨before, present, rfl⟩ : ∃ before, s.slots[i]? = some before ∧ f before = slot := by
        simpa using stands
      have more := locked before present
      have counted := safe.counted i before present
      change _ = ((s.moves c new).users i : Int)
      split at more <;> split at more
      all_goals simp_all
      all_goals omega
    · have unchanged : s.slots[j]? = some slot := by simpa [here] using stands
      have counted := safe.counted j slot unchanged
      have notOld : old.uses j = false := by
        by_contra used
        obtain ⟨buf, placed⟩ := uses_iff.mp (Bool.not_eq_false _ ▸ used)
        exact here (oldPlace j buf placed).symm
      have notNew : new.uses j = false := by
        by_contra used
        obtain ⟨buf, placed⟩ := uses_iff.mp (Bool.not_eq_false _ ▸ used)
        exact here (newPlace j buf placed).1.symm
      rw [notOld, notNew] at counts
      change _ = ((s.moves c new).users j : Int)
      simp only [Bool.false_eq_true, if_false, Nat.add_zero] at counts
      rw [counts]
      exact counted

theorem uses_place_none {c : TemplateCaller} (nothing : c.place = none) (i : Nat) : c.uses i = false := by
  simp [TemplateCaller.uses, nothing]

/-- Where `templateFindFree` leads: nothing in the slot is lost for a caller, and the other slots stay. -/
theorem templateFindFree_slot {slots : List TxtTemplate} {i : Nat} (found : (templateFindFree slots).1 = some i) :
    ∃ slot, slots[i]? = some slot ∧
      (slot.data = none ∧ (templateFindFree slots).2 = slots ∨
        slot.locked ≤ 0 ∧ (templateFindFree slots).2 = slots.modify i TxtTemplate.free) := by
  cases empty : slots.findIdx? (fun t => t.data.isNone) with
  | some j =>
      simp only [templateFindFree, empty, Option.some.injEq, and_true] at found ⊢
      subst found
      obtain ⟨inside, missing, -⟩ := List.findIdx?_eq_some_iff_getElem.mp empty
      exact ⟨slots[j], List.getElem?_eq_getElem inside, .inl (Option.isNone_iff_eq_none.mp missing)⟩
  | none =>
      have full : ∀ t ∈ slots, t.data ≠ none := by
        intro t member missing
        have held := List.findIdx?_eq_none_iff.mp empty t member
        simp [missing] at held
      rcases templateFindFree_full full with ⟨⟨j, freed, oldest⟩, -⟩ | ⟨missed, -⟩
      · rw [freed] at found ⊢
        cases found
        obtain ⟨slot, present, unlocked⟩ := oldest.unlocked
        exact ⟨slot, present, .inr ⟨unlocked, rfl⟩⟩
      · rw [missed] at found
        cases found

theorem Safe.load {c : Nat} {names : TemplateNames} {now modified : Int} {text : Bytes} {allocated : Bool}
    (safe : Safe s) (found : s.callers[c]? = some (.missed names now)) :
    Safe (s.loadText c names now text modified allocated) := by
  simp only [loadText]
  split
  · rename_i i free
    obtain ⟨slot, present, kind⟩ := templateFindFree_slot free
    have counted := safe.counted i slot present
    -- the slot has no user: it is empty or unlocked
    have unused : s.users i = 0 := by
      rcases kind with ⟨missing, -⟩ | ⟨unlocked, -⟩
      · by_contra some_
        obtain ⟨d, member, used⟩ := List.countP_pos_iff.mp (Nat.pos_of_ne_zero some_)
        obtain ⟨buf, placed⟩ := uses_iff.mp used
        obtain ⟨slot', present', data⟩ := safe.held d member i buf placed
        cases present.symm.trans present'
        rw [missing] at data
        cases data
      · omega
    have same : ∃ f : TxtTemplate → TxtTemplate,
        (templateFindFree s.slots).2.modify i (fill names ⟨s.nextBuf, text⟩ now modified) = s.slots.modify i f ∧
          ∀ t, (f t).data = some ⟨s.nextBuf, text⟩ ∧ (f t).locked = t.locked + 1 := by
      rcases kind with ⟨-, same⟩ | ⟨-, same⟩
      · exact ⟨_, by rw [same], fun t => ⟨rfl, rfl⟩⟩
      · refine ⟨fun t => fill names ⟨s.nextBuf, text⟩ now modified t.free, ?_, fun t => ⟨rfl, ?_⟩⟩
        · rw [same, List.modify_modify_eq]
          rfl
        · simp [fill]
    obtain ⟨f, same, filled⟩ := same
    rw [same]
    have place : ∀ buf, (TemplateCaller.holds i buf).place = some (i, buf) := fun _ => rfl
    have kept := Safe.change (.holds i ⟨s.nextBuf, text⟩) (f := f) safe found
      (fun j buf placed => by cases placed)
      (fun j buf placed => by
        rw [place] at placed
        cases placed
        exact ⟨rfl, slot, present, (filled slot).1⟩)
      (fun slot _ => by
        rw [(filled slot).2, uses_place_none rfl, uses_iff.mpr ⟨_, place _⟩]
        simp)
      (fun slot _ => .inr (by rw [unused]; exact Nat.zero_le _))
    exact ⟨kept.held, kept.counted⟩
  · have kept := Safe.moves (if allocated then .owns ⟨s.nextBuf, text⟩ else .idle) safe found (by
      split <;> rfl)
    exact ⟨kept.held, kept.counted⟩

theorem Safe.find {c i : Nat} {now : Int} {buf : TemplateBuf} (safe : Safe s)
    (found : s.callers[c]? = some .idle) (data : s.slots[i]?.bind TxtTemplate.data = some buf) :
    Safe { (s.moves c (.holds i buf)) with
      slots := s.slots.modify i fun t => { t with lastUsed := now, locked := t.locked + 1 } } := by
  obtain ⟨slot, present, data⟩ := Option.bind_eq_some_iff.mp data
  refine Safe.change _ safe found (fun j b placed => by cases placed) (fun j b placed => ?_) (fun slot _ => ?_)
    (fun slot _ => .inl rfl)
  · cases (show some (i, buf) = some (j, b) from placed)
    exact ⟨rfl, slot, present, data⟩
  · rw [uses_place_none rfl, uses_iff.mpr ⟨buf, rfl⟩]
    simp

theorem Safe.release {c i : Nat} {buf : TemplateBuf} {mustFree : Bool} (safe : Safe s)
    (found : s.callers[c]? = some (.releasing i buf mustFree)) :
    Safe { (s.moves c .idle) with slots := s.slots.modify i (unlock mustFree) } := by
  have used : TemplateCaller.uses i (.releasing i buf mustFree) = true := uses_iff.mpr ⟨buf, rfl⟩
  have positive : 0 < s.users i := List.countP_pos_iff.mpr ⟨_, List.mem_of_getElem? found, used⟩
  refine Safe.change _ safe found (fun j b placed => ?_) (fun j b placed => by cases placed) (fun slot present => ?_)
    (fun slot present => ?_)
  · cases (show some (i, buf) = some (j, b) from placed)
    rfl
  · have counted := safe.counted i slot present
    have lower : (unlock mustFree slot).locked = max (slot.locked - 1) 0 := by
      simp only [unlock]
      split
      · simp
      · rfl
    rw [lower, used, uses_place_none rfl]
    simp only [Bool.false_eq_true, if_true, if_false]
    omega
  · have counted := safe.counted i slot present
    simp only [unlock]
    split
    · rename_i freed
      refine .inr ?_
      omega
    · exact .inl rfl

theorem Safe.reset (safe : Safe s) (unused : ∀ t ∈ s.slots, t.locked ≤ 0) :
    Safe { s with slots := s.slots.map TxtTemplate.free } := by
  refine ⟨fun c member i buf placed => ?_, fun i slot present => ?_⟩
  · obtain ⟨slot, present, -⟩ := safe.held c member i buf placed
    have free := unused slot (List.mem_of_getElem? present)
    have counted := safe.counted i slot present
    have nobody : s.users i = 0 := by omega
    exact absurd placed (Safe.unused nobody member buf)
  · obtain ⟨before, was, rfl⟩ := Option.map_eq_some_iff.mp (List.getElem?_map ▸ present)
    rw [TxtTemplate.free_locked]
    exact safe.counted i before was

theorem init_safe (times : List (Int × Int)) (callers : Nat) : Safe (init times callers) := by
  have idle : ∀ c ∈ (init times callers).callers, c = .idle := fun c member => (List.mem_replicate.mp member).2
  refine ⟨fun c member i buf placed => ?_, fun i slot present => ?_⟩
  · rw [idle c member] at placed
    cases placed
  · obtain ⟨time, -, rfl⟩ := Option.map_eq_some_iff.mp (List.getElem?_map ▸ present)
    have nobody : (init times callers).users i = 0 := by
      refine List.countP_eq_zero.mpr fun c member => ?_
      rw [idle c member, uses_place_none rfl]
      decide
    rw [nobody]
    rfl

theorem Safe.step {op : TemplateOp} (safe : Safe s) (allowed : s.Allowed op) (pass : step reloadTime s op = some t) :
    Safe t := by
  cases op with
  | find c names now =>
      simp only [TemplateCache.step] at pass
      split at pass
      · rename_i found
        split at pass
        · cases pass
          exact Safe.moves _ safe found rfl
        · obtain ⟨buf, data, rfl⟩ := Option.map_eq_some_iff.mp pass
          exact Safe.find safe found data
      · cases pass
  | abandon c =>
      simp only [TemplateCache.step] at pass
      split at pass
      · rename_i found
        cases pass
        exact Safe.moves _ safe found rfl
      · cases pass
  | load c text modified allocated =>
      simp only [TemplateCache.step] at pass
      split at pass
      · rename_i found
        cases pass
        exact Safe.load safe found
      · cases pass
  | check c now mtime =>
      simp only [TemplateCache.step] at pass
      split at pass
      · rename_i found
        cases pass
        exact Safe.moves _ safe found rfl
      · rename_i found
        obtain ⟨slot, -, rfl⟩ := Option.map_eq_some_iff.mp pass
        exact Safe.moves _ safe found rfl
      · cases pass
  | release c =>
      simp only [TemplateCache.step] at pass
      split at pass
      · rename_i found
        cases pass
        exact Safe.release safe found
      · cases pass
  | reset =>
      cases pass
      exact Safe.reset safe allowed

/-- A reset frees what a caller has. -/
theorem Safe.allowed {op : TemplateOp} (safe : Safe s) (pass : TemplateCache.step reloadTime s op = some t)
    (after : Safe t) : s.Allowed op := by
  cases op with
  | reset =>
      intro slot member
      cases pass
      by_contra locked
      obtain ⟨i, present⟩ := List.mem_iff_getElem?.mp member
      have counted := safe.counted i slot present
      have positive : 0 < s.users i := by omega
      obtain ⟨c, inside, used⟩ := List.countP_pos_iff.mp positive
      obtain ⟨buf, placed⟩ := uses_iff.mp used
      obtain ⟨freed, stands, data⟩ := after.held c inside i buf placed
      obtain ⟨before, -, rfl⟩ := Option.map_eq_some_iff.mp (List.getElem?_map ▸ stands)
      rw [TxtTemplate.free_data] at data
      cases data
  | find c names now => trivial
  | abandon c => trivial
  | load c text modified allocated => trivial
  | check c now mtime => trivial
  | release c => trivial

end TemplateCache

open TemplateCache

/-- In every run whose resets find no template in use, a template that a caller has is neither freed nor overwritten
and the count of a slot is that of its users; a reset that finds one in use breaks this. -/
theorem templates_kept (reloadTime : Int) (times : List (Int × Int)) (callers : Nat) (s : TemplateCache)
    (reached : Reaches (step reloadTime) TemplateCache.Allowed (init times callers) s) :
    Safe s ∧ ∀ op t, step reloadTime s op = some t → (Safe t ↔ s.Allowed op) := by
  have safe := reached.inv (P := Safe) (init_safe times callers) (fun _ _ _ held allowed pass => held.step allowed pass)
  exact ⟨safe, fun op t pass => ⟨fun after => safe.allowed pass after, fun allowed => safe.step allowed pass⟩⟩

/-- Two pages. -/
def pageNames (page : String) : TemplateNames := ⟨ascii "svc", ascii page, ascii "en"⟩

/-- Two callers load a page each with one slot between them, the first is done, and the cache is reset. -/
def loadTwice : List TemplateOp :=
  [.find 0 (pageNames "A") 5, .load 0 (ascii "a") 1 true, .find 1 (pageNames "B") 6, .load 1 (ascii "b") 1 true,
    .check 0 7 none, .release 0, .reset, .check 1 8 none]

def TemplateCache.allows (s : TemplateCache) (op : TemplateOp) : Bool :=
  match op with
  | .reset => decide (∀ t ∈ s.slots, t.locked ≤ 0)
  | _ => true

theorem templates_kept_twice :
    ∃ s, replay (step 360) TemplateCache.allows (init [(0, 0)] 2) loadTwice = some s ∧ Safe s ∧
      s.callers = [.idle, .idle] := by
  have some_ : (replay (step 360) TemplateCache.allows (init [(0, 0)] 2) loadTwice).isSome = true := by decide +kernel
  obtain ⟨s, replayed⟩ := Option.isSome_iff_exists.mp some_
  have callers : (replay (step 360) TemplateCache.allows (init [(0, 0)] 2) loadTwice).map (·.callers) =
      some [.idle, .idle] := by decide +kernel
  rw [replayed] at callers
  have passes : ∀ s op, TemplateCache.allows s op = true → s.Allowed op := by
    intro s op allowed
    cases op with
    | reset =>
        have unused : ∀ t ∈ s.slots, t.locked ≤ 0 := of_decide_eq_true allowed
        exact unused
    | find c names now => trivial
    | abandon c => trivial
    | load c text modified allocated => trivial
    | check c now mtime => trivial
    | release c => trivial
  exact ⟨s, replayed, (templates_kept 360 [(0, 0)] 2 s (Reaches.of_replay passes .here replayed)).1,
    Option.some.inj callers⟩

/-- A reset while the first caller has its template; the second caller then loads another one into the slot. -/
def resetInUse : List TemplateOp :=
  [.find 0 (pageNames "A") 5, .load 0 (ascii "a") 1 true, .reset, .find 1 (pageNames "B") 6, .load 1 (ascii "b") 1 true]

theorem template_overwritten :
    ∃ s, replay (step 360) (fun _ _ => true) (init [(0, 0)] 2) resetInUse = some s ∧
      s.callers = [.holds 0 ⟨0, ascii "a"⟩, .holds 0 ⟨1, ascii "b"⟩] ∧
      s.slots.map (·.data) = [some ⟨1, ascii "b"⟩] ∧ ¬ Safe s := by
  have shown : (replay (step 360) (fun _ _ => true) (init [(0, 0)] 2) resetInUse).map
      (fun s => (s.callers, s.slots.map (·.data))) =
      some ([.holds 0 ⟨0, ascii "a"⟩, .holds 0 ⟨1, ascii "b"⟩], [some ⟨1, ascii "b"⟩]) := by decide +kernel
  obtain ⟨s, replayed, both⟩ := Option.map_eq_some_iff.mp shown
  simp only [Prod.mk.injEq] at both
  obtain ⟨callers, data⟩ := both
  refine ⟨s, replayed, callers, data, fun safe => ?_⟩
  have first : TemplateCaller.holds 0 ⟨0, ascii "a"⟩ ∈ s.callers := by
    rw [callers]
    exact List.mem_cons_self
  obtain ⟨slot, present, held⟩ := safe.held _ first 0 ⟨0, ascii "a"⟩ rfl
  have stored : (s.slots.map (·.data))[0]? = some slot.data := by rw [List.getElem?_map, present]; rfl
  rw [data, held] at stored
  simp at stored

/-! ### Loads -/

/-- A caller has got a slot of the cache. -/
def TemplateCache.Cached (s : TemplateCache) (c : Nat) : Prop := ∃ i buf, s.callers[c]? = some (.holds i buf)

/-- A load is cached unless every slot is in use. -/
def TemplateCache.Caches (s : TemplateCache) (c : Nat) (t : TemplateCache) : Prop :=
  (∃ slot ∈ s.slots, slot.locked ≤ 0) → t.Cached c

theorem templateFindFree_isSome (slots : List TxtTemplate) :
    (templateFindFree slots).1.isSome = true ↔
      (∃ t ∈ slots, t.data = none) ∨ ∃ t ∈ slots, t.locked ≤ 0 ∧ t.lastUsed < 0 := by
  by_cases full : ∀ t ∈ slots, t.data ≠ none
  · have nowhere : ¬ ∃ t ∈ slots, t.data = none := fun ⟨t, member, missing⟩ => full t member missing
    rcases templateFindFree_full full with ⟨⟨i, found, -⟩, old⟩ | ⟨missed, young⟩
    · simp [found, old]
    · have none_old : ¬ ∃ t ∈ slots, t.locked ≤ 0 ∧ t.lastUsed < 0 := by
        rintro ⟨t, member, unlocked, before⟩
        have after := young t member unlocked
        omega
      simp [missed, nowhere, none_old]
  · obtain ⟨t, member, missing⟩ : ∃ t ∈ slots, t.data = none := by
      by_contra nowhere
      exact full fun t member missing => nowhere ⟨t, member, missing⟩
    refine iff_of_true ?_ (.inl ⟨t, member, missing⟩)
    cases empty : slots.findIdx? (fun t => t.data.isNone) with
    | none =>
        have held := List.findIdx?_eq_none_iff.mp empty t member
        simp [missing] at held
    | some i => simp [templateFindFree, empty]

theorem loadText_cached {s : TemplateCache} {c : Nat} {names : TemplateNames} {now modified : Int} {text : Bytes}
    {allocated : Bool} (inside : c < s.callers.length) :
    (s.loadText c names now text modified allocated).Cached c ↔ (templateFindFree s.slots).1.isSome = true := by
  simp only [loadText]
  split
  · rename_i i found
    refine iff_of_true ⟨i, ⟨s.nextBuf, text⟩, ?_⟩ (by rw [found]; rfl)
    exact List.getElem?_set_self inside
  · rename_i missed
    refine iff_of_false ?_ (by rw [missed]; simp)
    rintro ⟨i, buf, cached⟩
    simp only [moves, List.getElem?_set_self inside, Option.some.injEq] at cached
    split at cached <;> cases cached

/-- When every slot holds a template, an unlocked one is evicted only if one was last used before the time 0. A load
is cached, unless all slots are in use, only if there is an empty slot or such an unlocked one. -/
theorem template_eviction_iff (reloadTime : Int) (s t : TemplateCache) (c : Nat) (text : Bytes) (modified : Int)
    (allocated : Bool) (pass : step reloadTime s (.load c text modified allocated) = some t) :
    ((∀ slot ∈ s.slots, slot.data ≠ none) →
      (Evicts s.slots ↔
        ((∃ slot ∈ s.slots, slot.locked ≤ 0) → ∃ slot ∈ s.slots, slot.locked ≤ 0 ∧ slot.lastUsed < 0))) ∧
      (s.Caches c t ↔ ((∃ slot ∈ s.slots, slot.locked ≤ 0) →
        (∃ slot ∈ s.slots, slot.data = none) ∨ ∃ slot ∈ s.slots, slot.locked ≤ 0 ∧ slot.lastUsed < 0)) := by
  refine ⟨evicts_iff, ?_⟩
  simp only [step] at pass
  split at pass
  · rename_i names now found
    cases pass
    rw [Caches, loadText_cached (List.getElem?_eq_some_iff.mp found).1, templateFindFree_isSome]
  · cases pass

/-- A slot that is not in use, with a template that was last used at the time 6. -/
def usedSlot : TxtTemplate := ⟨some (pageNames "A"), some ⟨0, ascii "a"⟩, 6, 5, 1, 0, false, false⟩

theorem template_eviction_iff_empty :
    ∃ t, step 360 ⟨[usedSlot, .blank 0 0], [.missed (pageNames "B") 9], 1⟩ (.load 0 (ascii "b") 1 true) = some t ∧
      TemplateCache.Caches ⟨[usedSlot, .blank 0 0], [.missed (pageNames "B") 9], 1⟩ 0 t := by
  refine ⟨_, rfl, ?_⟩
  refine (template_eviction_iff 360 _ _ 0 (ascii "b") 1 true rfl).2.mpr fun _ => .inl ⟨.blank 0 0, ?_, rfl⟩
  exact List.mem_cons_of_mem _ List.mem_cons_self

/-- The only slot is not in use, and is not evicted: the second page is not cached. -/
theorem unlocked_slot_kept :
    (¬ Evicts [usedSlot]) ∧
      (step 360 ⟨[usedSlot], [.missed (pageNames "B") 9], 1⟩ (.load 0 (ascii "b") 1 true)).map (·.callers) =
        some [.owns ⟨1, ascii "b"⟩] := by
  refine ⟨fun evicts => ?_, rfl⟩
  obtain ⟨i, found, -⟩ := evicts ⟨usedSlot, List.mem_cons_self, by decide⟩
  have missed : templateFindFree [usedSlot] = (none, [usedSlot]) := rfl
  rw [missed] at found
  cases found

end IcapService
