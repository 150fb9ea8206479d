import IcapService.Lib.CString
import IcapService.Lib.Machine
import Mathlib.Data.List.TakeWhile

/-! The search of `txtTemplate.c` for the template of a language, and the paths it opens. -/

namespace IcapService

open CString Machine

def comma : UInt8 := 44
def slash : UInt8 := 47

/-- A byte of a language in the header `Accept-Language`. -/
def isLanguageByte (c : UInt8) : Bool := c != comma && c != 59 && !isSpace c

/-- `CI_MAX_PATH`. -/
def ciMaxPath : Nat := 4096

/-- The directory of the templates, the service and the page that are looked up, and the default language. -/
structure TemplateQuery where
  dir : Bytes
  service : Bytes
  page : Bytes
  defaultLang : Bytes

namespace TemplateQuery

variable (q : TemplateQuery)

/-- The path with a language in it. -/
def path (lang : Bytes) : Bytes := q.dir ++ [slash] ++ q.service ++ [slash] ++ lang ++ [slash] ++ q.page

/-- `makeTemplatePathFileName`. -/
def makeTemplatePathFileName (lang : Bytes) : Bytes := (q.path lang).take (ciMaxPath - 1)

end TemplateQuery

/-- One pass over the header in `templateLoadText`: the language in front, cut to the 31 bytes of `preferred`, and
the header behind the next comma. -/
def nextLanguage (s : Bytes) : Bytes × Bytes :=
  let s := s.dropWhile isSpace
  let preferred := (s.takeWhile isLanguageByte).take 31
  (preferred, ((s.drop preferred.length).dropWhile (· != comma)).drop 1)

/-- What `templateTryLoadText` does: the template is in the cache, its file is opened and loaded, or it is opened in
vain. -/
inductive TryAnswer where
  | cached
  | loaded
  | failed
  deriving DecidableEq

/-- Where the search stands: the rest of the header, and the paths that were opened with the number of the try. -/
structure TemplateSearch where
  rest : Bytes
  tries : Nat
  opened : List (Nat × Bytes)
  deriving DecidableEq

section

variable (q : TemplateQuery) (answers : Nat → TryAnswer)

/-- `templateTryLoadText`: whether there is a template, and the paths opened. -/
def templateTryLoadText (s : TemplateSearch) (lang : Bytes) : Bool × List (Nat × Bytes) :=
  let path := q.makeTemplatePathFileName lang
  match answers s.tries with
  | .cached => (true, s.opened)
  | .loaded => (true, s.opened ++ [(s.tries, path)])
  | .failed => (false, s.opened ++ [(s.tries, path)])

/-- A pass of the loop of `templateLoadText`; at the end of the header the default language is tried. -/
def templateLoadStep (s : TemplateSearch) : Step TemplateSearch (Bool × List (Nat × Bytes)) :=
  if s.rest = [] then .done (templateTryLoadText q answers s q.defaultLang)
  else
    let next := nextLanguage s.rest
    let out := templateTryLoadText q answers s next.1
    if out.1 then .done out else .next ⟨next.2, s.tries + 1, out.2⟩

/-- `templateLoadText`; a request without the header has an empty one. -/
def templateLoadText (fuel : Nat) (header : Bytes) : Option (Bool × List (Nat × Bytes)) :=
  run (templateLoadStep q answers) fuel ⟨header, 0, []⟩

end

/-! ### The list of the header -/

/-- The items between the commas; nothing follows a comma at the end. -/
def headerItems (s : Bytes) : List Bytes :=
  if s = [] then []
  else s.takeWhile (· != comma) :: headerItems ((s.dropWhile (· != comma)).drop 1)
termination_by s.length
decreasing_by
  rename_i filled
  have shorter := (List.dropWhile_sublist (l := s) (· != comma)).length_le
  have positive := List.length_pos_iff.mpr filled
  simp only [List.length_drop]
  omega

/-- The language of an item: what stands before a blank or a semicolon. -/
def itemLanguage (item : Bytes) : Bytes := (item.dropWhile isSpace).takeWhile isLanguageByte

theorem takeWhile_takeWhile_of_imp {p r : UInt8 → Bool} (s : Bytes) (imp : ∀ c, p c = true → r c = true) :
    (s.takeWhile r).takeWhile p = s.takeWhile p := by
  induction s with
  | nil => rfl
  | cons c s ih =>
      by_cases inside : p c = true
      · rw [List.takeWhile_cons_of_pos (imp c inside), List.takeWhile_cons_of_pos inside,
          List.takeWhile_cons_of_pos inside, ih]
      · rw [List.takeWhile_cons_of_neg inside]
        by_cases other : r c = true
        · rw [List.takeWhile_cons_of_pos other, List.takeWhile_cons_of_neg inside]
        · rw [List.takeWhile_cons_of_neg other]
          rfl

theorem dropWhile_takeWhile_of_imp {p r : UInt8 → Bool} (s : Bytes) (imp : ∀ c, p c = true → r c = true) :
    (s.takeWhile r).dropWhile p = (s.dropWhile p).takeWhile r := by
  induction s with
  | nil => rfl
  | cons c s ih =>
      by_cases inside : p c = true
      · rw [List.takeWhile_cons_of_pos (imp c inside), List.dropWhile_cons_of_pos inside,
          List.dropWhile_cons_of_pos inside, ih]
      · rw [List.dropWhile_cons_of_neg inside]
        by_cases other : r c = true
        · rw [List.takeWhile_cons_of_pos other, List.dropWhile_cons_of_neg inside]
        · rw [List.takeWhile_cons_of_neg other]
          rfl

/-- Bytes without a comma in front do not matter for the next comma. -/
theorem dropWhile_drop {r : UInt8 → Bool} (s : Bytes) (n : Nat) (within : ∀ c ∈ s.take n, r c = true) :
    (s.drop n).dropWhile r = s.dropWhile r := by
  induction n generalizing s with
  | zero => rfl
  | succ n ih =>
      cases s with
      | nil => rfl
      | cons c s =>
          rw [List.drop_succ_cons, List.dropWhile_cons_of_pos (within c (by simp))]
          exact ih s (fun d member => within d (by simp [member]))

theorem dropWhile_dropWhile_of_imp {p r : UInt8 → Bool} (s : Bytes) (imp : ∀ c, p c = true → r c = true) :
    (s.dropWhile p).dropWhile r = s.dropWhile r := by
  induction s with
  | nil => rfl
  | cons c s ih =>
      by_cases inside : p c = true
      · rw [List.dropWhile_cons_of_pos inside, List.dropWhile_cons_of_pos (imp c inside), ih]
      · rw [List.dropWhile_cons_of_neg inside]

/-- A pass takes the language of the first item, and goes on behind that item. -/
theorem nextLanguage_eq (s : Bytes) :
    nextLanguage s = ((itemLanguage (s.takeWhile (· != comma))).take 31, (s.dropWhile (· != comma)).drop 1) := by
  have spaces : ∀ c, isSpace c = true → (c != comma) = true := by
    intro c space
    rw [bne_iff_ne]
    rintro rfl
    cases space
  have language : ∀ c, isLanguageByte c = true → (c != comma) = true := by
    intro c byte
    simp only [isLanguageByte, Bool.and_eq_true] at byte
    exact byte.1.1
  have whole : (s.dropWhile isSpace).takeWhile isLanguageByte = itemLanguage (s.takeWhile (· != comma)) := by
    rw [itemLanguage, dropWhile_takeWhile_of_imp s spaces, takeWhile_takeWhile_of_imp _ language]
  simp only [nextLanguage, whole, Prod.mk.injEq, true_and]
  rw [← dropWhile_dropWhile_of_imp s spaces]
  congr 1
  refine dropWhile_drop _ _ (fun c member => language c ?_)
  -- the bytes that were copied are bytes of the language
  have copied : (s.dropWhile isSpace).take ((itemLanguage (s.takeWhile (· != comma))).take 31).length <+:
      (s.dropWhile isSpace).takeWhile isLanguageByte := by
    refine List.prefix_of_prefix_length_le (List.take_prefix _ _) (List.takeWhile_prefix _) ?_
    rw [← whole]
    simp only [List.length_take]
    omega
  exact List.mem_takeWhile_imp (copied.subset member)

/-! ### What is opened -/

section

variable (q : TemplateQuery) (answers : Nat → TryAnswer)

/-- The tries for the rest of the items, and then for the default language. -/
def tryItems (n : Nat) : List Bytes → Bool × List (Nat × Bytes)
  | [] => templateTryLoadText q answers ⟨[], n, []⟩ q.defaultLang
  | item :: rest =>
      let out := templateTryLoadText q answers ⟨[], n, []⟩ ((itemLanguage item).take 31)
      if out.1 then out
      else
        let more := tryItems (n + 1) rest
        (more.1, out.2 ++ more.2)

theorem templateTryLoadText_eq (s : TemplateSearch) (lang : Bytes) :
    templateTryLoadText q answers s lang =
      ((templateTryLoadText q answers ⟨[], s.tries, []⟩ lang).1,
        s.opened ++ (templateTryLoadText q answers ⟨[], s.tries, []⟩ lang).2) := by
  simp only [templateTryLoadText]
  split <;> simp

/-- The search ends: it tries one item of the header after the other. -/
theorem templateLoad_tries (s : TemplateSearch) (fuel : Nat) (enough : s.rest.length < fuel) :
    run (templateLoadStep q answers) fuel s =
      some ((tryItems q answers s.tries (headerItems s.rest)).1,
        s.opened ++ (tryItems q answers s.tries (headerItems s.rest)).2) := by
  induction fuel generalizing s with
  | zero => omega
  | succ fuel ih =>
      rw [headerItems]
      by_cases ended : s.rest = []
      · have pass : templateLoadStep q answers s = .done (templateTryLoadText q answers s q.defaultLang) := by
          rw [templateLoadStep, if_pos ended]
        rw [run_done _ pass, if_pos ended, tryItems, ← templateTryLoadText_eq]
      · have next := nextLanguage_eq s.rest
        have shorter := (List.dropWhile_sublist (l := s.rest) (· != comma)).length_le
        have positive := List.length_pos_iff.mpr ended
        have tried := templateTryLoadText_eq q answers s ((itemLanguage (s.rest.takeWhile (· != comma))).take 31)
        rw [if_neg ended, tryItems]
        dsimp only
        generalize one : templateTryLoadText q answers ⟨[], s.tries, []⟩
          ((itemLanguage (s.rest.takeWhile (· != comma))).take 31) = out at tried
        by_cases found : out.1 = true
        · have pass : templateLoadStep q answers s = .done (out.1, s.opened ++ out.2) := by
            rw [templateLoadStep, if_neg ended]
            simp only [next, tried, found, if_true]
          rw [run_done _ pass, if_pos found]
        · have pass : templateLoadStep q answers s =
              .next ⟨(s.rest.dropWhile (· != comma)).drop 1, s.tries + 1, s.opened ++ out.2⟩ := by
            rw [templateLoadStep, if_neg ended]
            simp only [next, tried, found, Bool.false_eq_true, if_false]
          rw [run_next _ pass, if_neg found, ih _ (by simp only [List.length_drop]; omega)]
          simp only [List.append_assoc]

end

/-! ### Where the paths lead -/

/-- A name that leads from a directory into a directory in it. -/
def Component (name : Bytes) : Prop := name ≠ [] ∧ slash ∉ name ∧ name ≠ ascii "." ∧ name ≠ ascii ".."

namespace TemplateQuery

variable (q : TemplateQuery) (header : Bytes)

/-- The paths opened are those of the languages of the header, in its order and each of them whole and a single
component, and the one of the default language behind them. -/
def Confined (opened : List (Nat × Bytes)) : Prop :=
  ∀ n path, (n, path) ∈ opened →
    (∃ item, (headerItems header)[n]? = some item ∧ Component (itemLanguage item) ∧ path = q.path (itemLanguage item)) ∨
      n = (headerItems header).length ∧ path = q.path q.defaultLang

/-- The languages of the header are single components that fit the buffers. -/
structure Tame : Prop where
  items : ∀ item ∈ headerItems header,
    Component (itemLanguage item) ∧ (itemLanguage item).length ≤ 31 ∧ (q.path (itemLanguage item)).length < ciMaxPath
  default : (q.path q.defaultLang).length < ciMaxPath

end TemplateQuery

section

variable {q : TemplateQuery} {answers : Nat → TryAnswer}

theorem templateTryLoadText_opened {n k : Nat} {lang path : Bytes}
    (opened : (k, path) ∈ (templateTryLoadText q answers ⟨[], n, []⟩ lang).2) :
    k = n ∧ path = q.makeTemplatePathFileName lang := by
  simp only [templateTryLoadText] at opened
  split at opened <;> simp_all

/-- A path that was opened belongs to the item of that try. -/
theorem tryItems_opened (items : List Bytes) (n : Nat) {k : Nat} {path : Bytes}
    (opened : (k, path) ∈ (tryItems q answers n items).2) :
    (∃ i item, k = n + i ∧ items[i]? = some item ∧ path = q.makeTemplatePathFileName ((itemLanguage item).take 31)) ∨
      k = n + items.length ∧ path = q.makeTemplatePathFileName q.defaultLang := by
  induction items generalizing n with
  | nil => exact .inr (templateTryLoadText_opened opened)
  | cons item rest ih =>
      have first : (k, path) ∈ (templateTryLoadText q answers ⟨[], n, []⟩ ((itemLanguage item).take 31)).2 →
          ∃ i item', k = n + i ∧ (item :: rest)[i]? = some item' ∧
            path = q.makeTemplatePathFileName ((itemLanguage item').take 31) := by
        intro opened
        obtain ⟨rfl, same⟩ := templateTryLoadText_opened opened
        exact ⟨0, item, rfl, rfl, same⟩
      simp only [tryItems] at opened
      split at opened
      · exact .inl (first opened)
      · rcases List.mem_append.mp opened with opened | opened
        · exact .inl (first opened)
        · rcases ih (n + 1) opened with ⟨i, item', rfl, found, same⟩ | ⟨rfl, same⟩
          · exact .inl ⟨i + 1, item', by omega, found, same⟩
          · exact .inr ⟨by simp only [List.length_cons]; omega, same⟩

/-- When every file is missing, every item is tried. -/
theorem tryItems_all (items : List Bytes) (n : Nat) :
    (∀ i item, items[i]? = some item → (n + i, q.makeTemplatePathFileName ((itemLanguage item).take 31)) ∈
      (tryItems q (fun _ => .failed) n items).2) ∧
      (n + items.length, q.makeTemplatePathFileName q.defaultLang) ∈ (tryItems q (fun _ => .failed) n items).2 := by
  induction items generalizing n with
  | nil => exact ⟨fun i item found => (by simp at found), by simp [tryItems, templateTryLoadText]⟩
  | cons item rest ih =>
      obtain ⟨later, last⟩ := ih (n + 1)
      simp only [tryItems, templateTryLoadText, Bool.false_eq_true, if_false, List.nil_append, List.singleton_append,
        List.mem_cons]
      refine ⟨fun i item' found => ?_, .inr ?_⟩
      · cases i with
        | zero =>
            cases found
            exact .inl rfl
        | succ i =>
            have there := later i item' found
            rw [show n + 1 + i = n + (i + 1) by omega] at there
            exact .inr there
      · rw [List.length_cons, show n + (rest.length + 1) = n + 1 + rest.length by omega]
        exact last

theorem path_length (q : TemplateQuery) (lang : Bytes) :
    (q.path lang).length = q.dir.length + q.service.length + q.page.length + 3 + lang.length := by
  simp only [TemplateQuery.path, List.length_append, List.length_singleton]
  omega

/-- The path in the buffer is that of the whole language only if both fit. -/
theorem makeTemplatePathFileName_whole (q : TemplateQuery) (lang : Bytes) :
    q.makeTemplatePathFileName (lang.take 31) = q.path lang ↔ lang.length ≤ 31 ∧ (q.path lang).length < ciMaxPath := by
  constructor
  · intro same
    have long := congrArg List.length same
    simp only [TemplateQuery.makeTemplatePathFileName, List.length_take, path_length, ciMaxPath] at long ⊢
    omega
  · rintro ⟨short, fits⟩
    rw [TemplateQuery.makeTemplatePathFileName, List.take_of_length_le short, List.take_of_length_le (by omega)]

theorem makeTemplatePathFileName_fits (q : TemplateQuery) (lang : Bytes) :
    q.makeTemplatePathFileName lang = q.path lang ↔ (q.path lang).length < ciMaxPath := by
  rw [TemplateQuery.makeTemplatePathFileName, List.take_eq_self_iff, ciMaxPath]
  omega

end

/-- The lookup ends for every header. It only opens the paths of whole languages of the header if and only if each of
them is a single component that fits the buffers. -/
theorem template_lookup_iff (q : TemplateQuery) (header : Bytes) :
    (∀ answers, (templateLoadText q answers (header.length + 1) header).isSome = true) ∧
      ((∀ answers fuel out, templateLoadText q answers fuel header = some out → q.Confined header out.2) ↔
        q.Tame header) := by
  have ends : ∀ answers, templateLoadText q answers (header.length + 1) header =
      some (tryItems q answers 0 (headerItems header)) := by
    intro answers
    have tried := templateLoad_tries q answers ⟨header, 0, []⟩ (header.length + 1) (Nat.lt_succ_self _)
    simpa [templateLoadText] using tried
  refine ⟨fun answers => by rw [ends]; rfl, fun confined => ?_, fun tame answers fuel out result => ?_⟩
  · have within := confined (fun _ => .failed) _ _ (ends _)
    obtain ⟨all, last⟩ := tryItems_all (q := q) (headerItems header) 0
    refine ⟨fun item member => ?_, ?_⟩
    · obtain ⟨i, found⟩ := List.mem_iff_getElem?.mp member
      rcases within _ _ (all i item found) with ⟨item', found', component, same⟩ | ⟨outside, -⟩
      · rw [Nat.zero_add, found] at found'
        cases found'
        exact ⟨component, (makeTemplatePathFileName_whole q _).mp same⟩
      · have inside := (List.getElem?_eq_some_iff.mp found).1
        omega
    · rcases within _ _ last with ⟨item', found', -⟩ | ⟨-, same⟩
      · have inside := (List.getElem?_eq_some_iff.mp found').1
        omega
      · exact (makeTemplatePathFileName_fits q _).mp same
  · have same : out = tryItems q answers 0 (headerItems header) := by
      have more := run_mono (ends answers) (Nat.le_max_left (header.length + 1) fuel)
      have result' := run_mono result (Nat.le_max_right (header.length + 1) fuel)
      exact Option.some.inj (result'.symm.trans more)
    intro n path opened
    rw [same] at opened
    rcases tryItems_opened _ 0 opened with ⟨i, item, rfl, found, rfl⟩ | ⟨rfl, rfl⟩
    · obtain ⟨component, fits⟩ := tame.items item (List.mem_of_getElem? found)
      exact .inl ⟨item, by rw [Nat.zero_add]; exact found, component, (makeTemplatePathFileName_whole q _).mpr fits⟩
    · exact .inr ⟨Nat.zero_add _, (makeTemplatePathFileName_fits q _).mpr tame.default⟩

/-- A query for a page of a service. -/
def pageQuery : TemplateQuery := ⟨ascii "/usr/share/templates", ascii "svc", ascii "DENIED", ascii "en"⟩

/-- A header that leads out of the directory of the templates. -/
theorem header_leaves_directory :
    templateLoadText pageQuery (fun _ => .loaded) 40 (ascii "../../../../etc;q=1") =
        some (true, [(0, ascii "/usr/share/templates/svc/../../../../etc/DENIED")]) ∧
      ¬ pageQuery.Confined (ascii "../../../../etc;q=1") [(0, ascii "/usr/share/templates/svc/../../../../etc/DENIED")] := by
  have items : headerItems (ascii "../../../../etc;q=1") = [ascii "../../../../etc;q=1"] := by
    rw [headerItems, headerItems]
    decide +kernel
  refine ⟨by decide +kernel, fun confined => ?_⟩
  rcases confined 0 _ List.mem_cons_self with ⟨item, found, component, -⟩ | ⟨none_, -⟩
  · rw [items] at found
    cases found
    exact component.2.1 (by decide +kernel)
  · rw [items] at none_
    cases none_

end IcapService
