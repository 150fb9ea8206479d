import IcapService.GwService
import IcapService.HandlerOrder
import IcapService.Lib.Ledger

/-! The service data and the temporary files of `gw_rebuild` over the life of a request.

The data may be missing, and so may each of the files. The contents are those of the service; here the
handles are followed, with a ledger of what is done to the files behind them. -/

namespace IcapService

open CString Machine Ledger

/-- The handles of `gw_body_data_t`. -/
structure BodyFiles where
  store : Option Nat
  rebuild : Option Nat
  decoded : Option Nat
  deriving DecidableEq

def BodyFiles.null : BodyFiles := ⟨none, none, none⟩

/-- `gw_body_data_new`; `creates` says which of the calls of `ci_simple_file_new` succeed. -/
def bodyDataNew (creates : Nat → Bool) (l : Ledger) : BodyFiles × Ledger :=
  let store := l.new (creates l.attempts)
  let rebuild := store.2.new (creates store.2.attempts)
  (⟨store.1, rebuild.1, none⟩, rebuild.2)

/-- `gw_body_data_destroy`. -/
def bodyDataDestroy (files : BodyFiles) (l : Ledger) : BodyFiles × Ledger :=
  (.null, ((l.destroy files.store).destroy files.decoded).destroy files.rebuild)

/-- `replace_request_body`. -/
def replaceRequestBody (files : BodyFiles) (l : Ledger) : BodyFiles × Ledger :=
  ({ files with store := files.rebuild }, l.destroy files.store)

/-- The data of a request with its handles. -/
structure LifeData where
  gw : GwData
  files : BodyFiles

/-- The service data, or null, the HTTP headers of the request and the ledger of its files. -/
structure LifeState where
  data : Option LifeData
  http : HttpSide
  ledger : Ledger

structure LifeEnv extends GwEnv where
  creates : Nat → Bool
  dataCleanup : Bool

/-- `gw_rebuild_init_request_data`; the allocation of the data may fail. -/
def initRequestData (hasbody allocated : Bool) (gw : GwData) (http : HttpSide) : LifeState :=
  ⟨if hasbody ∧ allocated then some ⟨gw, .null⟩ else none, http, .empty⟩

/-- The proxy program has left a rebuilt file that takes the place of the store. -/
def ProxyResult.Replaces (proxy : ProxyResult) : Prop :=
  proxy.status = gwRebuilt ∧ ∃ file, proxy.output = some file ∧ 0 < CInt.wrap32 file.length

namespace LifeEnv

variable (env : LifeEnv)

/-- `gw_rebuild_check_preview_handler`. -/
def checkPreview (view : View) (preview : Bytes) (t : LifeState) : Effect LifeState :=
  match t.data with
  | none => ⟨.allow204, t, view.entities, view.dataLocked⟩
  | some d =>
      if view.info.hasbody = false then ⟨.allow204, t, view.entities, view.dataLocked⟩
      else
        let made := bodyDataNew env.creates t.ledger
        -- `gw_body_data_lock_all`, and the write of the preview
        let l := made.2.use made.1.store
        let l := if preview = [] then l else l.use made.1.store
        let out := d.gw.checkPreviewHandler view.info.hasbody view.hasalldata preview
        ⟨if l.crashed then .error else out.1, { t with data := some ⟨out.2, made.1⟩, ledger := l },
          view.entities, view.dataLocked⟩

/-- The uses of the store in `gw_rebuild_io`: the read half, and the write half behind one that works. -/
def ioLedger (d : LifeData) (c : IoCall) (l : Ledger) : Ledger :=
  let l := if c.offered.isSome ∨ c.iseof then l.use d.files.store else l
  if (d.gw.ioRead c).isSome ∧ c.room.isSome then l.use d.files.store else l

/-- `gw_rebuild_io`. Where the process ends the answer is that of a call that fails. -/
def rebuildIo (t : LifeState) (c : IoCall) : IoAnswer × LifeState :=
  match t.data with
  | none =>
      if c.offered.isSome ∨ c.iseof then (⟨true, .untouched, 0, c.dataLocked⟩, t)
      else (⟨false, if c.room.isSome then .error else .bytes [], 0, c.dataLocked⟩, t)
  | some d =>
      let l := ioLedger d c t.ledger
      if l.crashed then (⟨true, .untouched, 0, c.dataLocked⟩, { t with ledger := l })
      else
        let out := d.gw.gwRebuildIo c
        (out.1, { t with data := some { d with gw := out.2 }, ledger := l })

/-- What `rebuild_request_body` does to the files: their names go to the proxy program, and a file that was
rebuilt replaces the store. -/
def rebuildFiles (d : LifeData) (l : Ledger) : BodyFiles × Ledger :=
  let l := ((l.use d.files.store).use d.files.store).use d.files.rebuild
  if env.proxy.status = gwRebuilt then
    -- `refresh_externally_updated_file`
    let l := l.use d.files.rebuild
    match d.gw.body.rebuild.refreshExternallyUpdated env.proxy.output with
    | none => (d.files, l)
    | some rebuild =>
        let l := l.use d.files.rebuild
        if rebuild.endpos = 0 then (d.files, l)
        else
          let out := replaceRequestBody d.files l
          -- `rebuild_content_length`
          (out.1, out.2.use out.1.store)
  else (d.files, l)

/-- What the error page does to the files. -/
def errorPageFiles (files : BodyFiles) (l : Ledger) : BodyFiles × Ledger :=
  let destroyed := bodyDataDestroy files l
  let made := bodyDataNew env.creates destroyed.2
  -- `gw_body_data_write` and `rebuild_content_length`
  (made.1, (made.2.use made.1.store).use made.1.store)

/-- The files behind `rebuild_request_body` and, if it has failed, the error page. -/
def endFiles (status : RebuildStatus) (d : LifeData) (l : Ledger) : BodyFiles × Ledger :=
  let rebuilt := env.rebuildFiles d l
  if status = .error then env.errorPageFiles rebuilt.1 rebuilt.2 else rebuilt

/-- `gw_rebuild_end_of_data_handler`. Without data it writes to a field of the data that is not there. -/
def endOfData (view : View) (t : LifeState) : Effect LifeState :=
  match t.data with
  | none => ⟨.error, { t with ledger := t.ledger.use none }, view.entities, view.dataLocked⟩
  | some d =>
      let files := env.endFiles (rebuildRequestBody env.fresh env.proxy t.http d.gw).1 d t.ledger
      let out := gwRebuildEndOfData env.fresh env.page env.proxy t.http d.gw
      -- `gw_body_data_unlock_all`
      let l := if out.1 = .allow204 then files.2 else files.2.use files.1.store
      ⟨if l.crashed then .error else out.1, ⟨some ⟨out.2.2, files.1⟩, out.2.1, l⟩, env.entities out.2.1,
        if out.1 = .allow204 then view.dataLocked else false⟩

/-- `gw_rebuild_release_request_data`, which is called for data that is not null. -/
def releaseRequestData (t : LifeState) : LifeState :=
  match t.data with
  | none => t
  | some d =>
      if env.dataCleanup then { t with data := none, ledger := (bodyDataDestroy d.files t.ledger).2 }
      else { t with data := none }

end LifeEnv

/-! ### The callback -/

theorem rebuildIo_cases (t : LifeState) (c : IoCall) :
    ((LifeEnv.rebuildIo t c).1.failed = true ∧ (LifeEnv.rebuildIo t c).1.produced = .untouched ∧
        (LifeEnv.rebuildIo t c).1.taken = 0) ∨
      ((LifeEnv.rebuildIo t c).1.produced = .error ∨ (LifeEnv.rebuildIo t c).1.produced = .bytes []) ∧
        (LifeEnv.rebuildIo t c).1.taken = 0 ∨
      ∃ d : GwData, (LifeEnv.rebuildIo t c).1 = (d.gwRebuildIo c).1 := by
  simp only [LifeEnv.rebuildIo]
  split
  · split
    · exact .inl ⟨rfl, rfl, rfl⟩
    · refine .inr (.inl ⟨?_, rfl⟩)
      dsimp only
      split
      · exact .inl rfl
      · exact .inr rfl
  · rename_i d present
    split
    · exact .inl ⟨rfl, rfl, rfl⟩
    · exact .inr (.inr ⟨d.gw, rfl⟩)

def lifeIo : IoModule LifeState where
  io := LifeEnv.rebuildIo
  room t c data produced := by
    rcases rebuildIo_cases t c with ⟨-, untouched, -⟩ | ⟨error | nothing, -⟩ | ⟨d, same⟩
    · rw [untouched] at produced
      cases produced
    · rw [error] at produced
      cases produced
    · rw [nothing] at produced
      cases produced
      exact Nat.zero_le _
    · rw [same] at produced
      exact d.gwRebuildIo_room c data produced
  taken t c := by
    rcases rebuildIo_cases t c with ⟨-, -, taken⟩ | ⟨-, taken⟩ | ⟨d, same⟩
    · rw [taken]
      exact Nat.zero_le _
    · rw [taken]
      exact Nat.zero_le _
    · rw [same]
      exact d.gwRebuildIo_taken c
  touched t c untouched := by
    rcases rebuildIo_cases t c with ⟨failed, -, -⟩ | ⟨error | nothing, -⟩ | ⟨d, same⟩
    · exact failed
    · rw [error] at untouched
      cases untouched
    · rw [nothing] at untouched
      cases untouched
    · rw [same] at untouched ⊢
      exact d.gwRebuildIo_touched c untouched

def lifeService (env : LifeEnv) : Service LifeState where
  io := lifeIo
  checkPreviewHandler := some env.checkPreview
  endOfDataHandler := some env.endOfData

/-! ### The outcome of the proxy program -/

/-- The size of a file that was refreshed. -/
theorem refresh_endpos {f rebuild : SimpleFile} {file : Bytes}
    (found : f.refreshExternallyUpdated (some file) = some rebuild) :
    0 ≤ CInt.wrap32 file.length ∧ rebuild.endpos = (CInt.wrap32 file.length).toNat := by
  simp only [SimpleFile.refreshExternallyUpdated] at found
  generalize CInt.wrap32 file.length = size at found
  split at found
  · cases found
  · rename_i positive
    cases found
    exact ⟨Int.not_lt.mp positive, rfl⟩

theorem replaces_iff (proxy : ProxyResult) (f : SimpleFile) (rebuilt : proxy.status = gwRebuilt) :
    proxy.Replaces ↔ ∃ rebuild, f.refreshExternallyUpdated proxy.output = some rebuild ∧ rebuild.endpos ≠ 0 := by
  constructor
  · rintro ⟨-, file, output, positive⟩
    rw [output]
    cases found : f.refreshExternallyUpdated (some file) with
    | none =>
        simp only [SimpleFile.refreshExternallyUpdated] at found
        generalize CInt.wrap32 file.length = size at found positive
        split at found
        · omega
        · cases found
    | some rebuild =>
        have size := refresh_endpos found
        generalize CInt.wrap32 file.length = n at size positive
        exact ⟨rebuild, rfl, by omega⟩
  · rintro ⟨rebuild, found, nonempty⟩
    cases output : proxy.output with
    | none =>
        rw [output] at found
        cases found
    | some file =>
        rw [output] at found
        have size := refresh_endpos found
        refine ⟨rebuilt, file, output, ?_⟩
        generalize CInt.wrap32 file.length = n at size ⊢
        omega

/-- When the error page is sent. -/
theorem rebuildStatus_error (fresh : Nat → UInt8) (proxy : ProxyResult) (r : HttpSide) (d : GwData) :
    (rebuildRequestBody fresh proxy r d).1 = .error ↔ proxy.status ≠ gwUnprocessed ∧ ¬ proxy.Replaces := by
  simp only [rebuildRequestBody]
  split
  · rename_i unprocessed
    simp [unprocessed]
  · rename_i processed
    split
    · rename_i rebuilt
      have replaces := replaces_iff proxy d.body.rebuild rebuilt
      split
      · rename_i missing
        simp only [missing] at replaces
        simpa [processed] using replaces
      · rename_i rebuild found
        simp only [found, Option.some.injEq, exists_eq_left'] at replaces
        split
        · rename_i empty
          simpa [processed, empty] using replaces
        · rename_i nonempty
          simp [replaces.mpr nonempty]
    · rename_i other
      simp [ProxyResult.Replaces, processed, other]

section

variable {env : LifeEnv} {d : LifeData} {l : Ledger} {P : Ledger → Prop}
  (store : ∀ l, P l → P (l.use d.files.store)) (rebuild : ∀ l, P l → P (l.use d.files.rebuild))

include store rebuild

/-- Without a rebuilt file the files are used and kept. -/
theorem rebuildFiles_kept (kept : ¬ env.proxy.Replaces) (holds : P l) :
    (env.rebuildFiles d l).1 = d.files ∧ P (env.rebuildFiles d l).2 := by
  have named := rebuild _ (store _ (store _ holds))
  simp only [LifeEnv.rebuildFiles]
  split
  · rename_i rebuilt
    have replaces := replaces_iff env.proxy d.gw.body.rebuild rebuilt
    split
    · exact ⟨rfl, rebuild _ named⟩
    · rename_i file found
      rw [if_pos]
      · exact ⟨rfl, rebuild _ (rebuild _ named)⟩
      · by_contra nonempty
        exact kept (replaces.mpr ⟨file, found, nonempty⟩)
  · exact ⟨rfl, named⟩

/-- A rebuilt file takes the place of the store, which is destroyed. -/
theorem rebuildFiles_replaced (replaced : env.proxy.Replaces) (holds : P l) :
    (env.rebuildFiles d l).1 = { d.files with store := d.files.rebuild } ∧
      ∃ used, P used ∧ (env.rebuildFiles d l).2 = (used.destroy d.files.store).use d.files.rebuild := by
  have named := rebuild _ (store _ (store _ holds))
  obtain ⟨file, found, nonempty⟩ := (replaces_iff env.proxy d.gw.body.rebuild replaced.1).mp replaced
  simp only [LifeEnv.rebuildFiles, if_pos replaced.1, found, if_neg nonempty]
  exact ⟨rfl, _, rebuild _ (rebuild _ named), rfl⟩

end

/-! ### Null handles -/

/-- What the handlers find: with data, the two files of the preview handler and the store of an error page
are created; without data, nothing is called behind the preview handler. -/
structure Setting.Provided (S : Setting LifeState) (env : LifeEnv) (present : Bool) : Prop where
  files : present = true → env.creates 0 = true ∧ env.creates 1 = true
  page : present = true → env.proxy.status ≠ gwUnprocessed → ¬ env.proxy.Replaces → env.creates 2 = true
  absent : present = false → ¬ S.GoesOn

namespace LifeState

/-- Before the preview handler. -/
def Untouched (present : Bool) (t : LifeState) : Prop := t.ledger.Running 0 ∧ t.data.isSome = present

/-- Behind the preview handler, with data. -/
def Stored (present : Bool) (t : LifeState) : Prop :=
  present = true ∧ t.ledger.Running 2 ∧
    ∃ d, t.data = some d ∧ d.files.store.isSome = true ∧ d.files.rebuild.isSome = true

/-- Behind the preview handler, without data. -/
def Absent (present : Bool) (t : LifeState) : Prop := present = false ∧ t.ledger.crashed = false ∧ t.data = none

/-- Behind the end-of-data handler. -/
def Finished (t : LifeState) : Prop :=
  ∃ n, t.ledger.Running n ∧ ∃ d, t.data = some d ∧ d.files.store.isSome = true

end LifeState

section

variable {env : LifeEnv} {present : Bool} {S : Setting LifeState}

theorem bodyDataNew_running (creates : Nat → Bool) {l : Ledger} {n : Nat} (running : l.Running n) :
    (bodyDataNew creates l).1.store.isSome = creates n ∧ (bodyDataNew creates l).1.rebuild.isSome = creates (n + 1) ∧
      (bodyDataNew creates l).2.Running (n + 2) := by
  have first := running.new (creates l.attempts)
  have second := first.2.new (creates (l.new (creates l.attempts)).2.attempts)
  refine ⟨first.1.trans (by rw [running.2]), second.1.trans (by rw [first.2.2]), second.2⟩

/-- The preview is written to the store it has locked. -/
theorem previewLedger_kept {h : Option Nat} (preview : Bytes) {P : Ledger → Prop} (use : ∀ l, P l → P (l.use h)) {l : Ledger}
    (holds : P l) : P (if preview = [] then l.use h else (l.use h).use h) := by
  split
  · exact use l holds
  · exact use _ (use l holds)

/-- The preview handler with data. -/
theorem checkPreview_stored (provided : S.Provided env present) (view : View) (preview : Bytes) {t : LifeState}
    (hasbody : present = true → view.info.hasbody = true) (untouched : t.Untouched present) :
    (env.checkPreview view preview t).ret = .continue ∧ (env.checkPreview view preview t).data.Stored present ∨
      (env.checkPreview view preview t).ret = .allow204 ∧ (env.checkPreview view preview t).data.Absent present := by
  obtain ⟨running, data⟩ := untouched
  simp only [LifeEnv.checkPreview]
  split
  · rename_i missing
    rw [missing] at data
    exact .inr ⟨rfl, data.symm, running.1, missing⟩
  · rename_i d found
    rw [found] at data
    have here : present = true := data.symm
    have body := hasbody here
    obtain ⟨store, rebuild, made⟩ := bodyDataNew_running env.creates running
    rw [(provided.files here).1] at store
    rw [(provided.files here).2] at rebuild
    have ledger := previewLedger_kept preview (fun l (run : l.Running 2) => run.use store) made
    rw [if_neg (by simp [body])]
    refine .inl ⟨?_, here, ledger, _, rfl, store, rebuild⟩
    dsimp only
    rw [if_neg (by simp [ledger.1]), body]
    exact gwPreview_continue d.gw view.hasalldata preview

theorem ioLedger_kept {d : LifeData} {c : IoCall} {P : Ledger → Prop} (use : ∀ l, P l → P (l.use d.files.store))
    {l : Ledger} (holds : P l) : P (LifeEnv.ioLedger d c l) := by
  have first : P (if c.offered.isSome ∨ c.iseof then l.use d.files.store else l) := by
    split
    · exact use l holds
    · exact holds
  simp only [LifeEnv.ioLedger]
  split
  · exact use _ first
  · exact first

/-- The callback keeps the handles and what the use of the store keeps. -/
theorem rebuildIo_kept {t : LifeState} {d : LifeData} {P : Ledger → Prop} (found : t.data = some d)
    (use : ∀ l, P l → P (l.use d.files.store)) (holds : P t.ledger) (c : IoCall) :
    P (LifeEnv.rebuildIo t c).2.ledger ∧ ∃ gw, (LifeEnv.rebuildIo t c).2.data = some ⟨gw, d.files⟩ := by
  have kept := ioLedger_kept (c := c) use holds
  simp only [LifeEnv.rebuildIo, found]
  split
  · exact ⟨kept, d.gw, rfl⟩
  · exact ⟨kept, _, rfl⟩

theorem rebuildIo_absent {t : LifeState} (missing : t.data = none) (c : IoCall) : (LifeEnv.rebuildIo t c).2 = t := by
  simp only [LifeEnv.rebuildIo, missing]
  split <;> rfl

theorem errorPageFiles_running {files : BodyFiles} {l : Ledger} {n : Nat} (running : l.Running n)
    (created : env.creates n = true) :
    (env.errorPageFiles files l).1.store.isSome = true ∧ (env.errorPageFiles files l).2.Running (n + 2) := by
  have destroyed := ((running.destroy files.store).destroy files.decoded).destroy files.rebuild
  obtain ⟨store, -, made⟩ := bodyDataNew_running env.creates destroyed
  rw [created] at store
  exact ⟨store, (made.use store).use store⟩

/-- Whatever the proxy program does, there is a store behind it. -/
theorem endFiles_running (provided : S.Provided env present) (here : present = true) {d : LifeData} {l : Ledger}
    (running : l.Running 2) (store : d.files.store.isSome = true) (rebuild : d.files.rebuild.isSome = true)
    (http : HttpSide) :
    ∃ n, (env.endFiles (rebuildRequestBody env.fresh env.proxy http d.gw).1 d l).1.store.isSome = true ∧
      (env.endFiles (rebuildRequestBody env.fresh env.proxy http d.gw).1 d l).2.Running n := by
  have error := rebuildStatus_error env.fresh env.proxy http d.gw
  have useStore : ∀ l : Ledger, l.Running 2 → (l.use d.files.store).Running 2 := fun _ held => held.use store
  have useRebuild : ∀ l : Ledger, l.Running 2 → (l.use d.files.rebuild).Running 2 := fun _ held => held.use rebuild
  simp only [LifeEnv.endFiles]
  by_cases replaced : env.proxy.Replaces
  · obtain ⟨files, used, held, ledger⟩ := rebuildFiles_replaced useStore useRebuild replaced running
    rw [if_neg (fun failed => (error.mp failed).2 replaced), files, ledger]
    exact ⟨2, rebuild, (held.destroy d.files.store).use rebuild⟩
  · obtain ⟨files, held⟩ := rebuildFiles_kept useStore useRebuild replaced running
    split
    · rename_i failed
      have created := provided.page here (error.mp failed).1 replaced
      exact ⟨4, errorPageFiles_running held created⟩
    · rw [files]
      exact ⟨2, store, held⟩

theorem endOfData_finished (provided : S.Provided env present) (view : View) {t : LifeState}
    (stored : t.Stored present) : (env.endOfData view t).data.Finished := by
  obtain ⟨here, running, d, found, store, rebuild⟩ := stored
  obtain ⟨n, left, held⟩ := endFiles_running provided here running store rebuild t.http
  simp only [LifeEnv.endOfData, found]
  refine ⟨n, ?_, _, rfl, left⟩
  dsimp only
  split
  · exact held
  · exact held.use left

/-- The handlers of the service find what they use. -/
theorem life_ordered (svc : S.svc = lifeService env) (provided : S.Provided env present)
    (hasbody : present = true → S.info.hasbody = true) :
    S.Ordered env.checkPreview env.endOfData (LifeState.Untouched present) (LifeState.Stored present)
      (LifeState.Absent present) LifeState.Finished where
  checkPreview := by rw [svc]; rfl
  endOfData := by rw [svc]; rfl
  checked view data t same untouched := by
    rcases checkPreview_stored provided view data (same ▸ hasbody) untouched with going | ⟨ret, absent⟩
    · exact .inl going
    · exact .inr ⟨.inl ret, absent⟩
  ended view t _ stands := by
    rcases stands with stored | ⟨absent, on⟩
    · exact endOfData_finished provided view stored
    · exact absurd on (provided.absent absent.1)
  going t c stored := by
    obtain ⟨here, running, d, found, store, rebuild⟩ := stored
    rw [svc]
    obtain ⟨held, gw, same⟩ := rebuildIo_kept (P := fun l => l.Running 2) found (fun _ held => held.use store) running c
    exact ⟨here, held, _, same, store, rebuild⟩
  passed t c absent := by
    rw [svc]
    change (LifeEnv.rebuildIo t c).2.Absent present
    rw [rebuildIo_absent absent.2.2]
    exact absent
  behind t c finished := by
    obtain ⟨n, running, d, found, store⟩ := finished
    rw [svc]
    obtain ⟨held, gw, same⟩ := rebuildIo_kept (P := fun l => l.Running n) found (fun _ held => held.use store) running c
    exact ⟨n, held, _, same, store⟩

end

/-- No handler of `gw_rebuild` uses data or a file that is not there. -/
theorem handlers_find_files (S : Setting LifeState) (env : LifeEnv) (allocated : Bool) (gw : GwData) (http : HttpSide)
    (q0 : Exchange (RequestData LifeState)) (svc : S.svc = lifeService env)
    (start : q0.data.service = initRequestData S.info.hasbody allocated gw http)
    (provided : S.Provided env (S.info.hasbody && allocated)) (t : LifeState) (passes : S.Passes q0 t) :
    t.ledger.crashed = false := by
  have ordered := life_ordered svc provided (fun here => by simp only [Bool.and_eq_true] at here; exact here.1)
  have untouched : q0.data.service.Untouched (S.info.hasbody && allocated) := by
    rw [start]
    refine ⟨⟨rfl, rfl⟩, ?_⟩
    cases S.info.hasbody <;> cases allocated <;> rfl
  rcases ordered.passes untouched passes with fresh | stored | absent | ⟨n, finished, -⟩
  · exact fresh.1.1
  · exact stored.2.1.1
  · exact absent.2.1
  · exact finished.1

/-- A service whose proxy program has the given result; every file is created. -/
def LifeEnv.running (proxy : ProxyResult) (dataCleanup : Bool) : LifeEnv where
  fresh := fun _ => 0
  page := somePage
  proxy := proxy
  pack := fun _ => []
  creates := fun _ => true
  dataCleanup := dataCleanup

/-- A request with a preview of three bytes and two bytes behind it. -/
def lifeSetting (env : LifeEnv) : Setting LifeState where
  conf := ⟨false, false, fun _ => []⟩
  texts := ⟨fun ec => statusLine ec ++ crlf⟩
  svc := lifeService env
  info := ⟨true, some 3, false, false⟩
  size := 67
  fuel := 30

def lifeData : GwData := ⟨.new 0, false, 0, none, true, 100⟩

def lifeHttp : HttpSide := ⟨.respmod, .empty, false⟩

def lifeRequest : Exchange (RequestData LifeState) :=
  .fresh (ascii "3\r\nabc\r\n0\r\n\r\n") ⟨[], ascii "2\r\nde\r\n0\r\n\r\n", [],
    [.ready none (some (.bytes 100)), .ready (some (.bytes 100)) (some (.bytes 100)),
      .ready none (some (.bytes 1000)), .ready none (some (.bytes 1000)), .ready none (some (.bytes 1000))]⟩
    ⟨initRequestData true true lifeData lifeHttp, none⟩ true

/-- A run of the request. -/
def lifeRun (env : LifeEnv) : Option (CiRet × Exchange (RequestData LifeState)) :=
  run (lifeSetting env).step 60 (.preview (.start lifeRequest))

theorem lifeRequest_result {env : LifeEnv} {out : CiRet × Exchange (RequestData LifeState)}
    (computed : lifeRun env = some out) : (lifeSetting env).Results lifeRequest out := by
  obtain ⟨p, visited, done⟩ := Visits.of_run computed
  exact .stepped rfl visited done

/-- The proxy program fails. -/
def failedEnv : LifeEnv := .running ⟨gwFailed, none⟩ true

/-- The error page is sent. -/
theorem handlers_find_files_failed :
    ∃ t, (lifeSetting failedEnv).Passes lifeRequest t ∧ t.ledger.attempts = 4 ∧ t.ledger.crashed = false := by
  have computed : (lifeRun failedEnv).map (fun out => out.2.data.service.ledger.attempts) = some 4 := by decide +kernel
  obtain ⟨out, found, attempts⟩ := Option.map_eq_some_iff.mp computed
  have passes := Setting.Passes.result (lifeRequest_result found)
  have provided : (lifeSetting failedEnv).Provided failedEnv true :=
    ⟨fun _ => ⟨rfl, rfl⟩, fun _ _ _ => rfl, nofun⟩
  exact ⟨out.2.data.service, passes, attempts, handlers_find_files (lifeSetting failedEnv) failedEnv true lifeData
    lifeHttp lifeRequest rfl rfl provided _ passes⟩

/-- A request without a body, without a preview and without `Allow: 204`. -/
def bodylessSetting (env : LifeEnv) : Setting LifeState :=
  { lifeSetting env with info := ⟨false, none, false, false⟩ }

def bodylessRequest : Exchange (RequestData LifeState) :=
  let q := Exchange.fresh [] ⟨[], [], [], []⟩ ⟨initRequestData false true lifeData ⟨.reqmod, .empty, false⟩, none⟩ true
  { q with write := { q.write with type := .reqmod, entities := [⟨.reqHdr, ascii "GET / HTTP/1.1\r\n\r\n"⟩] } }

/-- Its end-of-data handler writes to data that is not there. -/
theorem bodyless_request_crashes (env : LifeEnv) :
    ∃ t, (bodylessSetting env).Passes bodylessRequest t ∧ t.data.isNone ∧ t.ledger.crashed = true :=
  ⟨_, .result (.entered rfl), rfl, rfl⟩

/-- So the handlers do not always find their data. -/
theorem absent_data_used :
    ¬ ∀ (S : Setting LifeState) (env : LifeEnv) (allocated : Bool) (gw : GwData) (http : HttpSide)
      (q0 : Exchange (RequestData LifeState)), S.svc = lifeService env →
      q0.data.service = initRequestData S.info.hasbody allocated gw http →
      ∀ t, S.Passes q0 t → t.ledger.crashed = false := by
  intro claim
  obtain ⟨t, passes, -, crashed⟩ := bodyless_request_crashes failedEnv
  have fine := claim (bodylessSetting failedEnv) failedEnv true lifeData
    ⟨.reqmod, .empty, false⟩ bodylessRequest rfl rfl t passes
  rw [crashed] at fine
  cases fine

end IcapService
