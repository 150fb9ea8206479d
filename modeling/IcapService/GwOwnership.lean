import IcapService.GwLifecycle

/-! The ownership of the temporary files of `gw_rebuild`.

The two handles of a body own one file each, until a rebuilt file takes the place of the store: both handles
are then the same. -/

namespace IcapService

open CString Machine Ledger

/-- Every file is destroyed at most once and not used behind that. -/
structure Disposed (log : List Event) : Prop where
  once : ∀ x, log.count (.destroyed x) ≤ 1
  unused : ∀ later earlier x, log = later ++ .destroyed x :: earlier → .used x ∉ later

theorem disposed_of_disciplined {log : List Event} (disciplined : Disciplined log) : Disposed log where
  once := disciplined.destroyed_once
  unused later earlier x same := by
    subst same
    exact disciplined.unused_behind

/-- The files of a body whose handles are distinct. -/
def BodyFiles.live (files : BodyFiles) : List Nat := files.store.toList ++ files.rebuild.toList

theorem BodyFiles.store_live (files : BodyFiles) : ∀ x ∈ files.store, x ∈ files.live := by
  intro x member
  exact List.mem_append_left _ (by simpa using member)

theorem BodyFiles.rebuild_live (files : BodyFiles) : ∀ x ∈ files.rebuild, x ∈ files.live := by
  intro x member
  exact List.mem_append_right _ (by simpa using member)

/-- The files of the body are the ones alive. -/
structure BodyFiles.Owns (files : BodyFiles) (l : Ledger) : Prop where
  decoded : files.decoded = none
  holds : l.Holds files.live

namespace LifeState

def Tracked (t : LifeState) : Prop :=
  match t.data with
  | none => t.ledger.Holds []
  | some d => d.files.Owns t.ledger

/-- Before the preview handler. -/
def Blank (t : LifeState) : Prop := t.Tracked ∧ ∀ d, t.data = some d → d.files = .null

/-- The rebuilt file is the store. -/
def Aliased (t : LifeState) : Prop :=
  ∃ d, t.data = some d ∧ d.files.decoded = none ∧ d.files.store = d.files.rebuild ∧
    t.ledger.Holds d.files.rebuild.toList

end LifeState

open LifeState

section

variable {env : LifeEnv} {S : Setting LifeState} {t : LifeState} {files : BodyFiles} {l : Ledger}

theorem tracked_some {d : LifeData} (found : t.data = some d) : t.Tracked ↔ d.files.Owns t.ledger := by
  rw [Tracked, found]

theorem tracked_none (missing : t.data = none) : t.Tracked ↔ t.ledger.Holds [] := by
  rw [Tracked, missing]

theorem bodyDataNew_owns (creates : Nat → Bool) (holds : l.Holds []) :
    (bodyDataNew creates l).1.Owns (bodyDataNew creates l).2 := by
  have made := (holds.new (creates l.attempts)).new (creates (l.new (creates l.attempts)).2.attempts)
  refine ⟨rfl, made.perm ?_⟩
  rw [List.append_nil]
  exact List.perm_append_comm

theorem bodyDataDestroy_holds (owns : files.Owns l) : (bodyDataDestroy files l).2.Holds [] := by
  have first : (l.destroy files.store).Holds files.rebuild.toList := owns.holds.destroy
  have second : ((l.destroy files.store).destroy files.decoded).Holds files.rebuild.toList := by
    rw [owns.decoded]
    exact Holds.destroy first
  exact Holds.destroy (by rw [List.append_nil]; exact second)

theorem BodyFiles.Owns.useStore (owns : files.Owns l) : files.Owns (l.use files.store) :=
  ⟨owns.decoded, owns.holds.use files.store_live⟩

theorem BodyFiles.Owns.useRebuild (owns : files.Owns l) : files.Owns (l.use files.rebuild) :=
  ⟨owns.decoded, owns.holds.use files.rebuild_live⟩

/-- The preview handler creates the files of a blank request. -/
theorem checkPreview_tracked (view : View) (preview : Bytes) (blank : t.Blank) :
    (env.checkPreview view preview t).ret = .continue ∧ (env.checkPreview view preview t).data.Tracked ∨
      ((env.checkPreview view preview t).ret = .allow204 ∨ (env.checkPreview view preview t).ret = .error) ∧
        (env.checkPreview view preview t).data.Tracked := by
  simp only [LifeEnv.checkPreview]
  split
  · exact .inr ⟨.inl rfl, blank.1⟩
  · rename_i d found
    split
    · exact .inr ⟨.inl rfl, blank.1⟩
    · rename_i hasbody
      have null := blank.2 d found
      have holds : t.ledger.Holds [] := by
        have owns := (tracked_some found).mp blank.1
        rw [null] at owns
        exact owns.holds
      have made := bodyDataNew_owns env.creates holds
      have ledger := previewLedger_kept preview (fun l owns => BodyFiles.Owns.useStore owns) made
      have body : view.info.hasbody = true := by simpa using hasbody
      dsimp only
      rw [body, gwPreview_continue]
      generalize (if preview = [] then (bodyDataNew env.creates t.ledger).2.use (bodyDataNew env.creates t.ledger).1.store
          else ((bodyDataNew env.creates t.ledger).2.use (bodyDataNew env.creates t.ledger).1.store).use
            (bodyDataNew env.creates t.ledger).1.store) = l at ledger
      split
      · exact .inr ⟨.inr rfl, ledger⟩
      · exact .inl ⟨rfl, ledger⟩

theorem rebuildIo_tracked (c : IoCall) (tracked : t.Tracked) : (LifeEnv.rebuildIo t c).2.Tracked := by
  cases found : t.data with
  | none =>
      rw [rebuildIo_absent found]
      exact tracked
  | some d =>
      obtain ⟨held, gw, same⟩ := rebuildIo_kept (P := d.files.Owns) found (fun _ owns => owns.useStore)
        ((tracked_some found).mp tracked) c
      exact (tracked_some same).mpr held

theorem rebuildIo_aliased (c : IoCall) (aliased : t.Aliased) : (LifeEnv.rebuildIo t c).2.Aliased := by
  obtain ⟨d, found, decoded, same, holds⟩ := aliased
  have use : ∀ l : Ledger, l.Holds d.files.rebuild.toList → (l.use d.files.store).Holds d.files.rebuild.toList := by
    intro l held
    rw [same]
    exact held.use (fun x member => by simpa using member)
  obtain ⟨held, gw, data⟩ := rebuildIo_kept (P := fun l => l.Holds d.files.rebuild.toList) found use holds c
  exact ⟨_, data, decoded, same, held⟩

/-- The error page gets new files. -/
theorem errorPageFiles_owns (owns : files.Owns l) :
    (env.errorPageFiles files l).1.Owns (env.errorPageFiles files l).2 := by
  have made := bodyDataNew_owns env.creates (bodyDataDestroy_holds owns)
  exact made.useStore.useStore

/-- The end-of-data handler keeps the files apart, or a rebuilt file becomes the store. -/
theorem endOfData_owned (env : LifeEnv) (view : View) (tracked : t.Tracked) :
    (env.endOfData view t).data.Tracked ∨ env.proxy.Replaces ∧ (env.endOfData view t).data.Aliased := by
  cases found : t.data with
  | none =>
      refine .inl ?_
      simp only [LifeEnv.endOfData, found]
      have used : (t.ledger.use none).Holds [] := ((tracked_none found).mp tracked).use (fun x member =>
        absurd member (by simp))
      exact used
  | some d =>
      have owns := (tracked_some found).mp tracked
      have error := rebuildStatus_error env.fresh env.proxy t.http d.gw
      have useStore : ∀ l : Ledger, d.files.Owns l → d.files.Owns (l.use d.files.store) := fun _ held => held.useStore
      have useRebuild : ∀ l : Ledger, d.files.Owns l → d.files.Owns (l.use d.files.rebuild) :=
        fun _ held => held.useRebuild
      simp only [LifeEnv.endOfData, found]
      by_cases replaced : env.proxy.Replaces
      · obtain ⟨files, used, held, ledger⟩ := rebuildFiles_replaced useStore useRebuild replaced owns
        refine .inr ⟨replaced, ?_⟩
        have holds : ((used.destroy d.files.store).use d.files.rebuild).Holds d.files.rebuild.toList :=
          held.holds.destroy.use (fun x member => by simpa using member)
        simp only [LifeEnv.endFiles, if_neg (fun failed => (error.mp failed).2 replaced), files, ledger]
        refine ⟨_, rfl, owns.decoded, rfl, ?_⟩
        dsimp only
        split
        · exact holds
        · exact holds.use (fun x member => by simpa using member)
      · refine .inl ?_
        obtain ⟨files, held⟩ := rebuildFiles_kept useStore useRebuild replaced owns
        have owned : (env.endFiles (rebuildRequestBody env.fresh env.proxy t.http d.gw).1 d t.ledger).1.Owns
            (env.endFiles (rebuildRequestBody env.fresh env.proxy t.http d.gw).1 d t.ledger).2 := by
          simp only [LifeEnv.endFiles]
          split
          · exact errorPageFiles_owns (by rw [files]; exact held)
          · rw [files]
            exact held
        refine (tracked_some rfl).mpr ?_
        dsimp only
        split
        · exact owned
        · exact owned.useStore

/-- Where files are cleaned up, no rebuilt file becomes the store. -/
theorem files_ordered (svc : S.svc = lifeService env) (sole : env.dataCleanup = false ∨ ¬ env.proxy.Replaces) :
    S.Ordered env.checkPreview env.endOfData Blank Tracked Tracked
      (fun t => t.Tracked ∨ env.dataCleanup = false ∧ t.Aliased) where
  checkPreview := by rw [svc]; rfl
  endOfData := by rw [svc]; rfl
  checked view data t _ blank := checkPreview_tracked view data blank
  ended view t _ stands := by
    have tracked : t.Tracked := stands.elim id And.left
    rcases endOfData_owned env view tracked with kept | ⟨replaced, aliased⟩
    · exact .inl kept
    · exact .inr ⟨sole.resolve_right (not_not_intro replaced), aliased⟩
  going t c tracked := by
    rw [svc]
    change (LifeEnv.rebuildIo t c).2.Tracked
    exact rebuildIo_tracked c tracked
  passed t c tracked := by
    rw [svc]
    change (LifeEnv.rebuildIo t c).2.Tracked
    exact rebuildIo_tracked c tracked
  behind t c ended := by
    rw [svc]
    change (LifeEnv.rebuildIo t c).2.Tracked ∨ env.dataCleanup = false ∧ (LifeEnv.rebuildIo t c).2.Aliased
    rcases ended with tracked | ⟨off, aliased⟩
    · exact .inl (rebuildIo_tracked c tracked)
    · exact .inr ⟨off, rebuildIo_aliased c aliased⟩

theorem LifeState.Tracked.disciplined (tracked : t.Tracked) : Disciplined t.ledger.log := by
  cases found : t.data with
  | none => exact ((tracked_none found).mp tracked).disciplined
  | some d => exact ((tracked_some found).mp tracked).holds.disciplined

/-- The clean-up destroys what is left. -/
theorem release_holds (cleanup : env.dataCleanup = true) (tracked : t.Tracked) :
    (env.releaseRequestData t).ledger.Holds [] := by
  simp only [LifeEnv.releaseRequestData]
  split
  · rename_i missing
    exact (tracked_none missing).mp tracked
  · rename_i d found
    rw [if_pos cleanup]
    exact bodyDataDestroy_holds ((tracked_some found).mp tracked)

theorem release_kept (kept : env.dataCleanup = false) : (env.releaseRequestData t).ledger = t.ledger := by
  simp only [LifeEnv.releaseRequestData]
  split
  · rfl
  · rw [if_neg (by simp [kept])]

end

/-- Each file is destroyed at most once and not used behind that; where files are cleaned up, each is destroyed by
the end of the request. -/
theorem files_owned_once (S : Setting LifeState) (env : LifeEnv) (allocated : Bool) (gw : GwData) (http : HttpSide)
    (q0 : Exchange (RequestData LifeState)) (svc : S.svc = lifeService env)
    (start : q0.data.service = initRequestData S.info.hasbody allocated gw http)
    (sole : env.dataCleanup = false ∨ ¬ env.proxy.Replaces) :
    (∀ t, S.Passes q0 t → Disposed t.ledger.log) ∧
      ∀ out, S.Results q0 out →
        Disposed (env.releaseRequestData out.2.data.service).ledger.log ∧
          (env.dataCleanup = true → (env.releaseRequestData out.2.data.service).ledger.crashed = false →
            ∀ x, .created x ∈ (env.releaseRequestData out.2.data.service).ledger.log →
              (env.releaseRequestData out.2.data.service).ledger.log.count (.destroyed x) = 1) := by
  have null : BodyFiles.null.Owns .empty := ⟨rfl, empty_holds⟩
  have blank : q0.data.service.Blank := by
    rw [start, initRequestData]
    split
    · refine ⟨null, fun d found => ?_⟩
      cases found
      rfl
    · refine ⟨(tracked_none rfl).mpr empty_holds, fun d found => ?_⟩
      cases found
  have stands : ∀ t, S.Passes q0 t → t.Tracked ∨ env.dataCleanup = false ∧ t.Aliased := by
    intro t passes
    rcases (files_ordered svc sole).passes blank passes with fresh | going | passed | ended
    · exact .inl fresh.1
    · exact .inl going
    · exact .inl passed
    · exact ended
  have disciplined : ∀ t, S.Passes q0 t → Disciplined t.ledger.log := by
    intro t passes
    rcases stands t passes with tracked | ⟨-, d, -, -, -, holds⟩
    · exact tracked.disciplined
    · exact holds.disciplined
  refine ⟨fun t passes => disposed_of_disciplined (disciplined t passes), fun out result => ?_⟩
  cases cleanup : env.dataCleanup with
  | false =>
      rw [release_kept cleanup]
      exact ⟨disposed_of_disciplined (disciplined _ (.result result)), nofun⟩
  | true =>
      have tracked : out.2.data.service.Tracked :=
        (stands _ (.result result)).resolve_right (fun aliased => by rw [cleanup] at aliased; cases aliased.1)
      have holds := release_holds cleanup tracked
      exact ⟨disposed_of_disciplined holds.disciplined, fun _ running x made => holds.all_destroyed running made⟩

/-- The proxy program fails, the two files are replaced and all four are destroyed. -/
theorem files_owned_once_failed :
    ∃ out, (lifeSetting failedEnv).Results lifeRequest out ∧
      (failedEnv.releaseRequestData out.2.data.service).ledger.attempts = 4 ∧
      Disposed (failedEnv.releaseRequestData out.2.data.service).ledger.log := by
  have computed : (lifeRun failedEnv).map
      (fun out => (failedEnv.releaseRequestData out.2.data.service).ledger.attempts) = some 4 := by decide +kernel
  obtain ⟨out, found, attempts⟩ := Option.map_eq_some_iff.mp computed
  have result := lifeRequest_result found
  have sole : ¬ failedEnv.proxy.Replaces := fun replaced => absurd replaced.1 (by decide)
  have owned := files_owned_once (lifeSetting failedEnv) failedEnv true lifeData lifeHttp lifeRequest rfl rfl (.inr sole)
  exact ⟨out, result, attempts, (owned.2 out result).1⟩

/-- The proxy program has rebuilt the file. -/
def rebuiltEnv : LifeEnv := .running ⟨gwRebuilt, some (ascii "clean")⟩ true

/-- The clean-up destroys the rebuilt file by both of its handles. -/
theorem rebuilt_file_destroyed_twice :
    ∃ out, (lifeSetting rebuiltEnv).Results lifeRequest out ∧
      (rebuiltEnv.releaseRequestData out.2.data.service).ledger.crashed = false ∧
      (rebuiltEnv.releaseRequestData out.2.data.service).ledger.log.count (.destroyed 1) = 2 ∧
      ¬ Disposed (rebuiltEnv.releaseRequestData out.2.data.service).ledger.log := by
  have computed : (lifeRun rebuiltEnv).map (fun out =>
      ((rebuiltEnv.releaseRequestData out.2.data.service).ledger.crashed,
        (rebuiltEnv.releaseRequestData out.2.data.service).ledger.log.count (.destroyed 1))) =
      some (false, 2) := by decide +kernel
  obtain ⟨out, found, seen⟩ := Option.map_eq_some_iff.mp computed
  obtain ⟨running, twice⟩ := Prod.mk.inj seen
  refine ⟨out, lifeRequest_result found, running, twice, fun disposed => ?_⟩
  have once := disposed.once 1
  rw [twice] at once
  exact absurd once (by decide)

end IcapService
