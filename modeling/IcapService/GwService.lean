import IcapService.GwRebuild
import IcapService.OneStatus
import IcapService.Received

/-! `gw_rebuild` as a service of `do_request`, and what is sent before its end-of-data handler has
returned. -/

namespace IcapService

open CString Machine

/-- The data of the service, and the HTTP headers of its request. -/
structure GwState where
  data : GwData
  http : HttpSide
  deriving DecidableEq

/-- What the service depends on: the memory of the header lists, the error page, the run of the proxy
program and the packed text of an entity. -/
structure GwEnv where
  fresh : Nat → UInt8
  page : ErrorPage
  proxy : ProxyResult
  pack : EncapsEntity → Bytes

/-- `gw_rebuild_check_preview_handler`. -/
def gwCheckPreviewHandler (view : View) (preview : Bytes) (t : GwState) : Effect GwState :=
  let out := t.data.checkPreviewHandler view.info.hasbody view.hasalldata preview
  ⟨out.1, { t with data := out.2 }, view.entities, view.dataLocked⟩

namespace GwEnv

variable (env : GwEnv)

/-- The entities of a request as they are sent. -/
def entities (r : HttpSide) : List Entity := r.table.entities.map (fun e => ⟨e.type, env.pack e⟩)

/-- `gw_rebuild_end_of_data_handler`; the data is unlocked unless it answers 204. -/
def endOfDataHandler (view : View) (t : GwState) : Effect GwState :=
  let out := gwRebuildEndOfData env.fresh env.page env.proxy t.http t.data
  ⟨out.1, ⟨out.2.2, out.2.1⟩, env.entities out.2.1, if out.1 = .allow204 then view.dataLocked else false⟩

end GwEnv

/-- `gw_rebuild_io` on the data of the service. -/
def gwStateIo : IoModule GwState where
  io t c :=
    let out := gwIo.io t.data c
    (out.1, { t with data := out.2 })
  room t := gwIo.room t.data
  taken t := gwIo.taken t.data
  touched t := gwIo.touched t.data

def gwService (env : GwEnv) : Service GwState where
  io := gwStateIo
  checkPreviewHandler := some gwCheckPreviewHandler
  endOfDataHandler := some env.endOfDataHandler

/-! ### The lock -/

theorem gwRebuildIo_lock (d : GwData) (c : IoCall) : (d.gwRebuildIo c).1.dataLocked = c.dataLocked := by
  simp only [GwData.gwRebuildIo]
  split
  · rfl
  · split
    · rfl
    · split <;> rfl

theorem requestIo_keepsLock {σ : Type} {svc : Service σ} (keeps : svc.io.KeepsLock) : (requestIo svc).KeepsLock := by
  intro t c
  change (requestCall svc t c).1.dataLocked = c.dataLocked
  simp only [requestCall]
  split
  · rfl
  · exact keeps _ _

theorem gwService_keepsLock (env : GwEnv) : (requestIo (gwService env)).KeepsLock :=
  requestIo_keepsLock (fun t c => gwRebuildIo_lock t.data c)

theorem gwPreview_continue (d : GwData) (hasalldata : Bool) (preview : Bytes) :
    (d.checkPreviewHandler true hasalldata preview).1 = .continue := by
  simp only [GwData.checkPreviewHandler]
  rw [if_neg (by decide)]
  split <;> rfl

/-! ### Before the handler has returned -/

namespace Setting

variable (S : Setting GwState) (q0 : Exchange (RequestData GwState))

/-- A request that is held back. -/
structure Withheld (q : Exchange (RequestData GwState)) : Prop where
  output : q.conn.output = q0.conn.output
  locked : q.write.dataLocked = true
  idle : q.write.remainSendBlockBytes = 0

/-- Nothing but a part of the `100 Continue` line has been sent. -/
def Interim (q : Exchange (RequestData GwState)) : Prop :=
  ∃ interim, interim <+: continueText ∧ q.conn.output = q0.conn.output ++ interim

/-- Nothing but parts of the `100 Continue` line and of an error status has been sent. -/
def Refusal (q : Exchange (RequestData GwState)) : Prop :=
  ∃ interim ec sent, interim <+: continueText ∧ ec.isError = true ∧ sent <+: S.conf.responceText ec ∧
    q.conn.output = q0.conn.output ++ (interim ++ sent)

/-- What holds before the handler. -/
inductive FrontQuiet : Front GwState → Prop where
  | preview {p : PreviewLoop (RequestData GwState)} (withheld : Withheld q0 p.q) : FrontQuiet (.preview p)
  | body {s : BodyLoop (RequestData GwState)} {interim : Bytes} (part : interim <+: continueText)
      (quiet : Quiet (q0.conn.output ++ interim) s) : FrontQuiet (.body s)

def OutcomeQuiet : Outcome GwState → Prop
  | .ended out => S.Refusal q0 out.2
  | .received q => Interim q0 q

end Setting

section

variable {S : Setting GwState} {q0 q : Exchange (RequestData GwState)}

open Setting

theorem Setting.Interim.refusal (interim : Interim q0 q) : S.Refusal q0 q := by
  obtain ⟨sent, part, output⟩ := interim
  exact ⟨sent, .ec500, [], part, rfl, List.nil_prefix, by rw [output, List.append_nil]⟩

theorem Setting.Withheld.interim (withheld : Withheld q0 q) : Interim q0 q :=
  ⟨[], List.nil_prefix, by rw [withheld.output, List.append_nil]⟩

/-- An error status is sent. -/
theorem Setting.Withheld.refuse (withheld : Withheld q0 q) (ec : Ec) (error : ec.isError = true) :
    S.Refusal q0 (ecResponce S.conf q ec).2 := by
  obtain ⟨sent, responded⟩ := ecResponce_responded S.conf q ec
  have code : S.conf.responceCode ec = ec := by
    rw [Conf.responceCode, if_neg]
    rintro ⟨rfl, -⟩
    cases error
  have part := responded.part
  rw [code] at part
  exact ⟨[], ec, sent, List.nil_prefix, error, part, by rw [responded.output, withheld.output, List.nil_append]⟩

/-- The request goes on with its body. -/
theorem previewedFront_quiet {interim : Bytes} (hasbody : S.info.hasbody = true) (part : interim <+: continueText)
    (output : q.conn.output = q0.conn.output ++ interim) (locked : q.write.dataLocked = true)
    (idle : q.write.remainSendBlockBytes = 0) (code : q.write.returnCode = .ec100) :
    (S.previewedFront .ok q).All (FrontQuiet q0) (S.OutcomeQuiet q0) := by
  have quiet := Quiet.start (q := q.setCode .ec200) locked idle
  rw [show (q.setCode .ec200).conn.output = q0.conn.output ++ interim from output] at quiet
  rw [S.previewedFront_continue hasbody code]
  exact .body part quiet

theorem Setting.Withheld.handled (withheld : Withheld q0 q) (t : GwState) (preview : Bytes) :
    Withheld q0 (handled q (gwCheckPreviewHandler (S.view q) preview t)) :=
  ⟨withheld.output, withheld.locked, withheld.idle⟩

theorem gwPreview_answer (hasbody : S.info.hasbody = true) (preview : Bytes) (t : GwState) :
    (gwCheckPreviewHandler (S.view q) preview t).ret = .continue := by
  change (t.data.checkPreviewHandler S.info.hasbody _ preview).1 = .continue
  rw [hasbody]
  exact gwPreview_continue _ _ _

section

variable {env : GwEnv} (gw : S.svc = gwService env) (hasbody : S.info.hasbody = true)
include gw hasbody

/-- A preview that has been read is answered by the service. -/
theorem gwRequestPreview {status : CiRet} {data : Bytes} (works : status ≠ .error) :
    S.doRequestPreview status q data = (status, if status = .eof then
      handled q (gwCheckPreviewHandler (S.view q) data q.data.service)
      else ecResponceContinue (handled q (gwCheckPreviewHandler (S.view q) data q.data.service))) := by
  have found : S.svc.checkPreviewHandler = some gwCheckPreviewHandler := by rw [gw]; rfl
  simp only [doRequestPreview, if_neg works, found, gwPreview_answer hasbody, previewAnswer]
  rfl

theorem previewReadFront_quiet {status : CiRet} {data : Bytes} (withheld : Withheld q0 q)
    (known : status = .ok ∨ status = .eof ∨ status = .error) :
    (S.previewReadFront status q data).All (FrontQuiet q0) (S.OutcomeQuiet q0) := by
  by_cases failed : status = .error
  · rw [previewReadFront, doRequestPreview, if_pos failed, previewedFront_error]
    exact withheld.refuse .ec408 rfl
  · have later := withheld.handled (S := S) q.data.service data
    rw [previewReadFront, gwRequestPreview gw hasbody failed]
    generalize handled q (gwCheckPreviewHandler (S.view q) data q.data.service) = q at later
    rcases known with ok | eof | error
    · rw [ok]
      have written := writeEvents_prefix q.conn.sched continueText
      have output : (ecResponceContinue q).conn.output = q0.conn.output ++ (writeEvents q.conn.sched continueText).2.1 := by
        rw [← later.output]
        simp only [ecResponceContinue]
        split <;> rfl
      exact previewedFront_quiet hasbody written.1 output later.locked later.idle rfl
    · rw [eof]
      simp only [if_true, previewedFront_eof]
      exact ⟨[], List.nil_prefix, by rw [List.append_nil]; exact later.output⟩
    · exact absurd error failed

theorem enterFront_quiet (withheld : Withheld q0 q0) : (S.enterFront q0).All (FrontQuiet q0) (S.OutcomeQuiet q0) := by
  have found : S.svc.checkPreviewHandler = some gwCheckPreviewHandler := by rw [gw]; rfl
  cases asked : S.info.preview with
  | some size =>
      simp only [enterFront, asked, hasbody, if_true]
      exact .preview ⟨withheld.output, withheld.locked, withheld.idle⟩
  | none =>
      have later := withheld.handled (S := S) q0.data.service []
      simp only [enterFront, asked, found, gwPreview_answer hasbody, fakeAnswerFront]
      have nothing : ([] : Bytes) <+: continueText := List.nil_prefix
      refine previewedFront_quiet hasbody nothing ?_ later.locked later.idle ?_
      · rw [List.append_nil]
        exact later.output
      · simp [setContinue, Exchange.setCode, hasbody]

theorem stepFront_quiet (f : Front GwState) (quiet : FrontQuiet q0 f) :
    (S.stepFront f).All (FrontQuiet q0) (S.OutcomeQuiet q0) := by
  cases quiet with
  | @preview p withheld =>
      have kept : ∀ q', Untouched p.q q' → Withheld q0 q' := by
        intro q' same
        refine ⟨same.output.trans withheld.output, ?_, ?_⟩
        · rw [same.write]
          exact withheld.locked
        · rw [same.write]
          exact withheld.idle
      refine ((previewStep_untouched S.size S.fuel p).and (previewStep_ret S.size S.fuel p)).within ?_ ?_
      · rintro p' ⟨same, -⟩
        exact .preview (kept _ same)
      · rintro out ⟨same, known⟩
        exact previewReadFront_quiet gw hasbody (kept _ same) known
  | @body s interim part quiet =>
      have keeps := gwService_keepsLock env
      rw [← gw] at keeps
      refine (bodyStep_quiet keeps quiet).within (fun t quiet => .body part quiet) (fun out left => ?_)
      have sent : Interim q0 out.2 := ⟨interim, part, left.output⟩
      simp only [exchangedFront]
      split
      · exact sent.refusal
      · exact sent

end

/-- Before the end-of-data handler of `gw_rebuild` has returned only the `100 Continue` line or an error
status is sent. -/
theorem no_early_leak (S : Setting GwState) (env : GwEnv) (q0 : Exchange (RequestData GwState))
    (gw : S.svc = gwService env) (hasbody : S.info.hasbody = true) (locked : q0.write.dataLocked = true)
    (idle : q0.write.remainSendBlockBytes = 0) :
    (∀ q, S.Before q0 q → Interim q0 q) ∧ (∀ q, S.Ends q0 (.received q) → Interim q0 q) ∧
      ∀ out, S.Ends q0 (.ended out) → S.Refusal q0 out.2 := by
  have withheld : Withheld q0 q0 := ⟨rfl, locked, idle⟩
  have entered := enterFront_quiet gw hasbody withheld
  have pass : ∀ f, FrontQuiet q0 f → (S.stepFront f).All (FrontQuiet q0) (S.OutcomeQuiet q0) :=
    stepFront_quiet gw hasbody
  have visits : ∀ first f, S.enterFront q0 = .next first → Visits S.stepFront first f → FrontQuiet q0 f := by
    intro first f start visited
    rw [start] at entered
    exact visited.inv pass entered
  have ends : ∀ o, S.Ends q0 o → S.OutcomeQuiet q0 o := by
    intro o ends
    cases ends with
    | entered result =>
        rw [result] at entered
        exact entered
    | @front first f _ start visited result =>
        have kept := pass f (visits first f start visited)
        rw [result] at kept
        exact kept
  refine ⟨fun q before => ?_, fun q => ends _, fun out => ends _⟩
  cases before with
  | start => exact withheld.interim
  | @front first f start visited =>
      cases visits first f start visited with
      | preview withheld => exact withheld.interim
      | @body s interim part quiet => exact ⟨interim, part, quiet.output⟩

/-- A service whose proxy program fails. -/
def failingEnv : GwEnv where
  fresh := fun _ => 0
  page := somePage
  proxy := ⟨gwFailed, none⟩
  pack := fun _ => []

/-- A request with a preview of three bytes and two bytes behind it. -/
def previewSetting : Setting GwState where
  conf := ⟨false, false, fun _ => []⟩
  texts := ⟨fun ec => statusLine ec ++ crlf⟩
  svc := gwService failingEnv
  info := ⟨true, some 3, false, false⟩
  size := 67
  fuel := 30

def previewRequest : Exchange (RequestData GwState) :=
  .fresh (ascii "3\r\nabc\r\n0\r\n\r\n") ⟨[], ascii "2\r\nde\r\n0\r\n\r\n", [],
    [.ready none (some (.bytes 100)), .ready (some (.bytes 100)) (some (.bytes 100))]⟩
    ⟨⟨⟨.new 0, false, 0, none, true, 100⟩, ⟨.respmod, .empty, false⟩⟩, none⟩ true

theorem no_early_leak_preview :
    ∃ q, previewSetting.Ends previewRequest (.received q) ∧ q.conn.output = continueText ∧
      Interim previewRequest q := by
  have computed : (run previewSetting.stepFront 30 (.preview (.start previewRequest))).bind
      (fun o => match o with
        | .received q => some q.conn.output
        | .ended _ => none) = some continueText := by decide +kernel
  obtain ⟨o, result, output⟩ := Option.bind_eq_some_iff.mp computed
  obtain ⟨f, visited, done⟩ := Visits.of_run result
  cases o with
  | ended out => cases output
  | received q =>
      have ends : previewSetting.Ends previewRequest (.received q) := .front rfl visited done
      exact ⟨q, ends, Option.some.inj output,
        (no_early_leak previewSetting failingEnv previewRequest rfl rfl rfl rfl).2.1 q ends⟩

end

end IcapService
