import Mathlib.Logic.Function.Basic
import IcapService.AdaptationOutcome

/-! `NativeProxyApplication` of the proxy application: the input file is copied to a store, the adaptation
service is asked for its outcome, and a rebuilt file is copied from the other store to the output.

The outcome of every call is left to the environment. -/

namespace IcapService

open CString DotNet

abbrev Path := Text

/-- The content of every file that exists. -/
abbrev FileSystem := Path → Option Bytes

/-- The exceptions that `RunAsync` tells apart. -/
inductive RunException where
  | operationCanceled
  | other
  deriving DecidableEq

/-- `Path.Combine` with a name that is not rooted. -/
def combine (dir name : Path) : Path :=
  if dir = [] then name else if dir.getLast? = some '/' then dir ++ name else dir ++ '/' :: name

/-- A run of the application: its settings, a new file id, and what happens in its calls. A store path may
be null. A copy that fails leaves something at its destination. The adaptation service works on the files
while it is asked. The id is new, so the output is not a file of a store. -/
structure RunEnv where
  originalStorePath : Option Path
  rebuiltStorePath : Option Path
  inputFilepath : Path
  outputFilepath : Path
  fileId : Path
  files : FileSystem
  storeCopy : Option (Option Bytes)
  connect : Except RunException Unit
  request : Except RunException ReturnOutcome
  service : FileSystem → FileSystem
  outputCopy : Option (Option Bytes)
  deleteFails : Path → Bool
  named : fileId ≠ []
  fresh : ∀ dir, combine dir fileId ≠ outputFilepath

/-- `File.Copy` with `overwrite`; `left` is what a copy that fails leaves. -/
def fileCopy (files : FileSystem) (source destination : Path) (left : Option (Option Bytes)) :
    Except RunException Unit × FileSystem :=
  match left with
  | some part => (.error .other, Function.update files destination part)
  | none =>
      match files source with
      | none => (.error .other, files)
      | some content => (.ok (), Function.update files destination (some content))

/-- A copy that succeeds copies the content. -/
theorem fileCopy_ok {files : FileSystem} {source destination : Path} {left : Option (Option Bytes)}
    (copied : (fileCopy files source destination left).1 = .ok ()) :
    ∃ content, files source = some content ∧ (fileCopy files source destination left).2 destination = some content := by
  cases left with
  | some part => cases copied
  | none =>
      cases found : files source with
      | none => simp [fileCopy, found] at copied
      | some content => exact ⟨content, rfl, by simp [fileCopy, found]⟩

namespace RunEnv

variable (env : RunEnv)

/-- `ClearStores`: an exception of the first deletion ends it. -/
def clearStores (original rebuilt : Path) (files : FileSystem) : FileSystem :=
  if original ≠ [] ∧ env.deleteFails original then files
  else
    let files := if original ≠ [] then Function.update files original none else files
    if rebuilt ≠ [] ∧ env.deleteFails rebuilt then files
    else if rebuilt ≠ [] then Function.update files rebuilt none
    else files

/-- The files when the adaptation service has answered. -/
def answered (original : Path) : FileSystem :=
  env.service (fileCopy env.files env.inputFilepath original env.storeCopy).2

/-- `RunAsync` between the building of the store paths and the clearing of the stores. -/
def exchange (original rebuilt : Path) : Except RunException ReturnOutcome × FileSystem :=
  let stored := fileCopy env.files env.inputFilepath original env.storeCopy
  match stored.1 with
  | .error e => (.error e, stored.2)
  | .ok () =>
      match env.connect with
      | .error e => (.error e, stored.2)
      | .ok () =>
          match env.request with
          | .error e => (.error e, env.answered original)
          | .ok outcome =>
              if outcome = .rebuilt then
                let copied := fileCopy (env.answered original) rebuilt env.outputFilepath env.outputCopy
                match copied.1 with
                | .error e => (.error e, copied.2)
                | .ok () => (.ok outcome, copied.2)
              else (.ok outcome, env.answered original)

/-- The exit code: both handlers return `GW_ERROR`. -/
def exitCode : Except RunException ReturnOutcome → Int
  | .ok outcome => outcome.code
  | .error .operationCanceled => ReturnOutcome.error.code
  | .error .other => ReturnOutcome.error.code

/-- The paths of the two files in the stores, where both can be built. -/
def storePaths : Option (Path × Path) :=
  match env.originalStorePath, env.rebuiltStorePath with
  | some original, some rebuilt => some (combine original env.fileId, combine rebuilt env.fileId)
  | _, _ => none

/-- `RunAsync`: the exit code and the files behind it. -/
def runAsync : Int × FileSystem :=
  match env.originalStorePath with
  | none => (exitCode (.error .other), env.clearStores [] [] env.files)
  | some dir =>
      let original := combine dir env.fileId
      match env.rebuiltStorePath with
      | none => (exitCode (.error .other), env.clearStores original [] env.files)
      | some dir =>
          let rebuilt := combine dir env.fileId
          let out := env.exchange original rebuilt
          (exitCode out.1, env.clearStores original rebuilt out.2)

/-- A call that was reached has thrown. -/
def Throws : Prop :=
  match env.storePaths with
  | none => True
  | some (original, rebuilt) => ∃ e, (env.exchange original rebuilt).1 = .error e

/-- The rebuilt file is returned as it was in the store, an exception gives `GW_ERROR`, and every file of a
store that can be deleted is. -/
structure Tidy : Prop where
  rebuilt : env.runAsync.1 = ReturnOutcome.rebuilt.code → ∃ original rebuilt content,
    env.storePaths = some (original, rebuilt) ∧ env.answered original rebuilt = some content ∧
      env.runAsync.2 env.outputFilepath = some content
  error : env.Throws → env.runAsync.1 = ReturnOutcome.error.code
  cleared : ∀ original rebuilt, env.storePaths = some (original, rebuilt) →
    (env.deleteFails original = false → env.runAsync.2 original = none) ∧
      (env.deleteFails rebuilt = false → env.runAsync.2 rebuilt = none)

/-- The adaptation service is asked: the input was stored and the client is connected. -/
def Asked : Prop := env.storeCopy = none ∧ (env.files env.inputFilepath).isSome = true ∧ env.connect = .ok ()

/-- Nothing was put at a path before the run, by the first copy or by the adaptation service where it is
asked. -/
def Vacant (original p : Path) : Prop :=
  (env.Asked → env.answered original p = none) ∧
    (¬ env.Asked → (fileCopy env.files env.inputFilepath original env.storeCopy).2 p = none)

/-- Where the original cannot be deleted, the rebuilt file cannot be deleted either or is not there. -/
def Deletable : Prop :=
  ∀ original rebuilt, env.storePaths = some (original, rebuilt) → env.deleteFails original = true →
    env.deleteFails rebuilt = true ∨ env.Vacant original rebuilt

variable {env}

theorem combine_ne_nil (dir : Path) : combine dir env.fileId ≠ [] := by
  have named := env.named
  rw [combine]
  split
  · exact named
  · split <;> simp [named]

theorem storePaths_some {original rebuilt : Path} (built : env.storePaths = some (original, rebuilt)) :
    ∃ dir dir', env.originalStorePath = some dir ∧ env.rebuiltStorePath = some dir' ∧
      original = combine dir env.fileId ∧ rebuilt = combine dir' env.fileId := by
  simp only [storePaths] at built
  split at built
  · rename_i dir dir' first second
    cases built
    exact ⟨dir, dir', first, second, rfl, rfl⟩
  · cases built

/-- With both paths the exchange is run and the stores are cleared. -/
theorem runAsync_built {original rebuilt : Path} (built : env.storePaths = some (original, rebuilt)) :
    env.runAsync = (exitCode (env.exchange original rebuilt).1,
      env.clearStores original rebuilt (env.exchange original rebuilt).2) := by
  obtain ⟨dir, dir', first, second, rfl, rfl⟩ := storePaths_some built
  simp only [runAsync, first, second]

theorem runAsync_unbuilt (unbuilt : env.storePaths = none) : env.runAsync.1 = ReturnOutcome.error.code := by
  simp only [storePaths] at unbuilt
  cases first : env.originalStorePath with
  | none => simp only [runAsync, first, exitCode]
  | some dir =>
      cases second : env.rebuiltStorePath with
      | none => simp only [runAsync, first, second, exitCode]
      | some dir' =>
          rw [first, second] at unbuilt
          cases unbuilt

/-- What `ClearStores` does to one file. -/
theorem clearStores_apply {original rebuilt : Path} (first : original ≠ []) (second : rebuilt ≠ [])
    (files : FileSystem) (p : Path) :
    env.clearStores original rebuilt files p =
      if env.deleteFails original = true then files p
      else if p = rebuilt ∧ env.deleteFails rebuilt = false then none
      else if p = original then none
      else files p := by
  simp only [clearStores, first, second, ne_eq, not_false_eq_true, true_and, if_true]
  by_cases failed : env.deleteFails original = true
  · rw [if_pos failed, if_pos failed]
  · rw [if_neg failed, if_neg failed]
    by_cases failed' : env.deleteFails rebuilt = true
    · rw [if_pos failed', if_neg (by simp [failed'])]
      by_cases same : p = original
      · rw [if_pos same, same, Function.update_self]
      · rw [if_neg same, Function.update_of_ne same]
    · rw [if_neg failed']
      have works : env.deleteFails rebuilt = false := by simpa using failed'
      by_cases here : p = rebuilt
      · rw [if_pos ⟨here, works⟩, here, Function.update_self]
      · rw [if_neg (fun both => here both.1), Function.update_of_ne here]
        by_cases same : p = original
        · rw [if_pos same, same, Function.update_self]
        · rw [if_neg same, Function.update_of_ne same]

/-- The files behind a run with both paths. -/
theorem runAsync_file {original rebuilt : Path} (built : env.storePaths = some (original, rebuilt)) (p : Path) :
    env.runAsync.2 p =
      if env.deleteFails original = true then (env.exchange original rebuilt).2 p
      else if p = rebuilt ∧ env.deleteFails rebuilt = false then none
      else if p = original then none
      else (env.exchange original rebuilt).2 p := by
  obtain ⟨dir, dir', -, -, first, second⟩ := storePaths_some built
  rw [runAsync_built built]
  exact clearStores_apply (first ▸ combine_ne_nil dir) (second ▸ combine_ne_nil dir') _ p

/-- The first copy succeeds exactly when nothing goes wrong and the input is there. -/
theorem stored_ok_iff (original : Path) :
    (fileCopy env.files env.inputFilepath original env.storeCopy).1 = .ok () ↔
      env.storeCopy = none ∧ (env.files env.inputFilepath).isSome = true := by
  cases left : env.storeCopy with
  | some part => simp [fileCopy]
  | none => cases found : env.files env.inputFilepath <;> simp [fileCopy, found]

/-- A copy leaves every other file as it was. -/
theorem fileCopy_other {files : FileSystem} {source destination p : Path} (other : p ≠ destination)
    (left : Option (Option Bytes)) : (fileCopy files source destination left).2 p = files p := by
  cases left with
  | some part => exact Function.update_of_ne other ..
  | none => cases found : files source <;> simp [fileCopy, found, Function.update_of_ne other]

/-- The exchange leaves no file at a path exactly when nothing was put there. -/
theorem exchange_vacant_iff {original rebuilt p : Path} (other : p ≠ env.outputFilepath) :
    (env.exchange original rebuilt).2 p = none ↔ env.Vacant original p := by
  cases stored : (fileCopy env.files env.inputFilepath original env.storeCopy).1 with
  | error e =>
      have unasked : ¬ env.Asked := fun asked => by
        rw [(stored_ok_iff original).2 ⟨asked.1, asked.2.1⟩] at stored
        cases stored
      simp [exchange, stored, Vacant, unasked]
  | ok _ =>
      have kept := (stored_ok_iff original).1 stored
      cases connected : env.connect with
      | error e =>
          have unasked : ¬ env.Asked := fun asked => by
            have live := asked.2.2
            rw [connected] at live
            cases live
          simp [exchange, stored, connected, Vacant, unasked]
      | ok _ =>
          have asked : env.Asked := ⟨kept.1, kept.2, connected⟩
          have reached : (env.exchange original rebuilt).2 p = env.answered original p := by
            cases replied : env.request with
            | error e => simp [exchange, stored, connected, replied]
            | ok outcome =>
                simp only [exchange, stored, connected, replied]
                split
                · split <;> exact fileCopy_other other _
                · rfl
          simp [reached, Vacant, asked]

/-- A rebuilt outcome comes with the copy of the rebuilt file. -/
theorem exchange_rebuilt {original rebuilt : Path} (outcome : (env.exchange original rebuilt).1 = .ok .rebuilt) :
    ∃ content, env.answered original rebuilt = some content ∧
      (env.exchange original rebuilt).2 env.outputFilepath = some content := by
  cases stored : (fileCopy env.files env.inputFilepath original env.storeCopy).1 with
  | error e => simp [exchange, stored] at outcome
  | ok _ =>
      cases connected : env.connect with
      | error e => simp [exchange, stored, connected] at outcome
      | ok _ =>
          cases asked : env.request with
          | error e => simp [exchange, stored, connected, asked] at outcome
          | ok answer =>
              by_cases same : answer = .rebuilt
              · cases copied : (fileCopy (env.answered original) rebuilt env.outputFilepath env.outputCopy).1 with
                | error e => simp [exchange, stored, connected, asked, same, copied] at outcome
                | ok _ =>
                    simp only [exchange, stored, connected, asked, if_pos same, copied]
                    exact fileCopy_ok copied
              · simp [exchange, stored, connected, asked, same] at outcome

theorem exitCode_rebuilt {result : Except RunException ReturnOutcome}
    (code : exitCode result = ReturnOutcome.rebuilt.code) : result = .ok .rebuilt := by
  cases result with
  | ok outcome =>
      cases outcome with
      | rebuilt => rfl
      | unprocessed | failed | error => cases code
  | error e => cases e <;> cases code

theorem exitCode_error (e : RunException) : exitCode (.error e) = ReturnOutcome.error.code := by cases e <;> rfl

/-- The application is tidy exactly when no deletion of a rebuilt file is skipped. -/
theorem run_tidy_iff (env : RunEnv) : env.Tidy ↔ env.Deletable := by
  constructor
  · intro tidy original rebuilt built failed
    by_cases failed' : env.deleteFails rebuilt = true
    · exact .inl failed'
    · have gone := (tidy.cleared _ _ built).2 (by simpa using failed')
      rw [runAsync_file built, if_pos failed] at gone
      obtain ⟨dir, dir', -, -, -, rfl⟩ := storePaths_some built
      exact .inr ((exchange_vacant_iff (env.fresh dir')).1 gone)
  · intro deletable
    refine ⟨fun code => ?_, fun throws => ?_, fun original rebuilt built => ⟨fun works => ?_, fun works => ?_⟩⟩
    · cases built : env.storePaths with
      | none =>
          rw [runAsync_unbuilt built] at code
          cases code
      | some paths =>
          obtain ⟨original, rebuilt⟩ := paths
          rw [runAsync_built built] at code
          obtain ⟨content, stored, copied⟩ := exchange_rebuilt (exitCode_rebuilt code)
          obtain ⟨dir, dir', -, -, rfl, rfl⟩ := storePaths_some built
          refine ⟨_, _, content, rfl, stored, ?_⟩
          rw [runAsync_file built]
          split
          · exact copied
          · rw [if_neg (fun both => env.fresh dir' both.1.symm), if_neg (env.fresh dir).symm]
            exact copied
    · cases built : env.storePaths with
      | none => exact runAsync_unbuilt built
      | some paths =>
          obtain ⟨original, rebuilt⟩ := paths
          rw [Throws, built] at throws
          obtain ⟨e, raised⟩ := throws
          rw [runAsync_built built, raised]
          exact exitCode_error e
    · rw [runAsync_file built, if_neg (by simp [works]), if_pos rfl, ite_self]
    · rw [runAsync_file built]
      split
      · rename_i failed
        have vacant := (deletable _ _ built failed).resolve_left (by simp [works])
        obtain ⟨dir, dir', -, -, -, rfl⟩ := storePaths_some built
        exact (exchange_vacant_iff (env.fresh dir')).2 vacant
      · exact if_pos ⟨rfl, works⟩

/-- The file of the original store cannot be deleted. -/
def stuckOriginal : RunEnv where
  originalStorePath := some "/o".toList
  rebuiltStorePath := some "/r".toList
  inputFilepath := "/in".toList
  outputFilepath := "/out".toList
  fileId := "id".toList
  files := fun p => if p = "/in".toList then some (ascii "secret") else none
  storeCopy := none
  connect := .ok ()
  request := .ok .rebuilt
  service := fun files => Function.update files "/r/id".toList (some (ascii "clean"))
  outputCopy := none
  deleteFails := fun p => decide (p = "/o/id".toList)
  named := by decide
  fresh := by
    intro dir
    rw [combine]
    split
    · decide
    · intro same
      have last := congrArg (fun p => p.reverse.take 2) same
      split at last
      · simp at last
      · simp at last

/-- The rebuilt file then stays in its store. -/
theorem rebuilt_file_left_behind :
    stuckOriginal.runAsync.1 = ReturnOutcome.rebuilt.code ∧ stuckOriginal.deleteFails "/r/id".toList = false ∧
      stuckOriginal.runAsync.2 "/r/id".toList = some (ascii "clean") ∧ ¬ stuckOriginal.Tidy := by
  have left : stuckOriginal.runAsync.2 "/r/id".toList = some (ascii "clean") := by decide
  refine ⟨by decide, by decide, left, fun tidy => ?_⟩
  have gone := (tidy.cleared "/o/id".toList "/r/id".toList (by decide)).2 (by decide)
  rw [left] at gone
  cases gone

end RunEnv

end IcapService
