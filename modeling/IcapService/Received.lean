import IcapService.DoRequest

/-! A request up to its end-of-data handler.

The part of `do_request` before the call of the handler is a loop of its own: it ends without the
call, or with the request the handler is called for. -/

namespace IcapService

open CString Machine

variable {σ : Type}

/-- Where a request stands before the handler. -/
inductive Front (σ : Type) where
  | preview (p : PreviewLoop (RequestData σ))
  | skip (s : BodyLoop (RequestData σ))
  | body (s : BodyLoop (RequestData σ))

def Front.phase : Front σ → Phase σ
  | .preview p => .preview p
  | .skip s => .skip s
  | .body s => .body s

def Front.exchange : Front σ → Exchange (RequestData σ)
  | .preview p => p.q
  | .skip s => s.q
  | .body s => s.q

/-- The end of that part: without the handler, or with the call of it. -/
inductive Outcome (σ : Type) where
  | ended (out : CiRet × Exchange (RequestData σ))
  | received (q : Exchange (RequestData σ))

def Outcome.exchange : Outcome σ → Exchange (RequestData σ)
  | .ended out => out.2
  | .received q => q

namespace Setting

variable (S : Setting σ)

/-- `previewed` up to the handler. -/
def previewedFront (status : CiRet) (q : Exchange (RequestData σ)) : Step (Front σ) (Outcome σ) :=
  let q := if status = .eof then q.setCode .ec200 else q
  if status = .error then .done (.ended (.error, q))
  else if q.write.returnCode = .ec204 then .done (.ended (.ok, q))
  else if q.write.returnCode ≠ .ec100 ∧ q.write.returnCode ≠ .ec200 ∧ q.write.returnCode ≠ .ec206 then
    .done (.ended (.error, (ecResponce S.conf q .ec500).2))
  else if q.write.returnCode = .ec100 ∧ S.info.hasbody ∧ status ≠ .eof then
    .next (.body (.start (q.setCode .ec200)))
  else .done (.received q)

def previewReadFront (status : CiRet) (q : Exchange (RequestData σ)) (data : Bytes) : Step (Front σ) (Outcome σ) :=
  let out := S.doRequestPreview status q data
  S.previewedFront out.1 out.2

def fakeAnswerFront (q : Exchange (RequestData σ)) (ret : ModRet) : Step (Front σ) (Outcome σ) :=
  if ret = .allow204 ∧ S.info.allow204 then
    let out := ecResponce S.conf q .ec204
    if out.1 = false then S.previewedFront .error out.2
    else if S.info.hasbody then .next (.skip (.start out.2))
    else S.previewedFront .ok (out.2.setCode .ec204)
  else if ret = .allow204 ∧ S.info.hasbody ∧ S.conf.fakeAllow204 then
    S.previewedFront .ok (Exchange.setCode
      { q with data := { q.data with echoBody := some (.new echoSize echoSize_pos) } } .ec100)
  else if ret = .allow204 ∧ S.info.hasbody = false then S.previewedFront .ok (q.setCode .ec200)
  else if ret = .allow206 ∧ S.info.allow204 ∧ S.info.allow206 then S.previewedFront .ok (q.setCode .ec206)
  else if ret = .continue then S.previewedFront .ok (S.setContinue q)
  else S.previewedFront .error (ecResponce S.conf q .ec500).2

def enterFront (q : Exchange (RequestData σ)) : Step (Front σ) (Outcome σ) :=
  match S.info.preview with
  | none =>
      match S.svc.checkPreviewHandler with
      | none => S.previewedFront .ok (S.setContinue q)
      | some handler =>
          let e := handler (S.view q) [] q.data.service
          S.fakeAnswerFront (handled q e) e.ret
  | some _ =>
      if S.info.hasbody then .next (.preview (.start q))
      else S.previewReadFront .eof q []

def skippedFront (out : CiRet × Exchange (RequestData σ)) : Step (Front σ) (Outcome σ) :=
  if out.1 = .error then S.previewedFront .error out.2 else S.previewedFront .ok (out.2.setCode .ec204)

def exchangedFront (out : CiRet × Exchange (RequestData σ)) : Step (Front σ) (Outcome σ) :=
  if out.1 = .error then .done (.ended out) else .done (.received out.2)

/-- One step of `do_request` before the handler. -/
def stepFront : Front σ → Step (Front σ) (Outcome σ)
  | .preview p => (previewStep S.size S.fuel p).within .preview
      (fun out => S.previewReadFront out.1 out.2.q out.2.previewData)
  | .skip s => (bodyStep S.texts (modNullIo _) S.fuel s).within .skip S.skippedFront
  | .body s => (bodyStep S.texts (requestIo S.svc) S.fuel s).within .body exchangedFront

/-- What `do_request` does with the outcome. -/
def finish : Outcome σ → Step (Phase σ) (CiRet × Exchange (RequestData σ))
  | .ended out => .done out
  | .received q => S.bodyReceived q

/-- The states of a request before the handler has returned. -/
inductive Before (q0 : Exchange (RequestData σ)) : Exchange (RequestData σ) → Prop where
  | start : Before q0 q0
  | front {first f : Front σ} (entered : S.enterFront q0 = .next first) (visited : Visits S.stepFront first f) :
      Before q0 f.exchange

/-- The outcomes of a request before the handler has returned. -/
inductive Ends (q0 : Exchange (RequestData σ)) : Outcome σ → Prop where
  | entered {o : Outcome σ} (result : S.enterFront q0 = .done o) : Ends q0 o
  | front {first f : Front σ} {o : Outcome σ} (entered : S.enterFront q0 = .next first)
      (visited : Visits S.stepFront first f) (result : S.stepFront f = .done o) : Ends q0 o

/-! ### Behind the preview -/

theorem previewedFront_error (q : Exchange (RequestData σ)) :
    S.previewedFront .error q = .done (.ended (.error, q)) := by
  simp [previewedFront]

theorem previewedFront_eof (q : Exchange (RequestData σ)) :
    S.previewedFront .eof q = .done (.received (q.setCode .ec200)) := by
  simp [previewedFront, Exchange.setCode]

theorem previewedFront_continue {q : Exchange (RequestData σ)} (hasbody : S.info.hasbody = true)
    (code : q.write.returnCode = .ec100) :
    S.previewedFront .ok q = .next (.body (.start (q.setCode .ec200))) := by
  simp [previewedFront, hasbody, code]

/-- `read_preview_data` returns one of three values. -/
theorem previewStep_ret {τ : Type} (size fuel : Nat) (p : PreviewLoop τ) :
    (previewStep size fuel p).All (fun _ => True) (fun out => out.1 = .ok ∨ out.1 = .eof ∨ out.1 = .error) := by
  simp only [previewStep]
  split
  · simp only [IcapService.previewRead]
    split
    · split
      · exact .inr (.inr rfl)
      · trivial
    · exact .inr (.inr rfl)
  · split
    · trivial
    · simp only [previewTake]
      split
      · exact .inr (.inr rfl)
      · split
        · exact .inr (.inr rfl)
        · split
          · dsimp only [Step.All]
            split
            · exact .inr (.inl rfl)
            · exact .inl rfl
          · trivial

/-! ### The part is a part of `do_request` -/

theorem previewed_front (status : CiRet) (q : Exchange (RequestData σ)) :
    S.previewed status q = (S.previewedFront status q).within Front.phase S.finish := by
  simp only [previewed, previewedFront]
  generalize (if status = .eof then q.setCode .ec200 else q) = q
  split
  · rfl
  · split
    · rfl
    · split
      · rfl
      · split <;> rfl

theorem fakeAnswer_front (q : Exchange (RequestData σ)) (ret : ModRet) :
    S.fakeAnswer q ret = (S.fakeAnswerFront q ret).within Front.phase S.finish := by
  simp only [fakeAnswer, fakeAnswerFront, previewed_front]
  split
  · split
    · rfl
    · split <;> rfl
  · split
    · rfl
    · split
      · rfl
      · split
        · rfl
        · split <;> rfl

/-- A request enters `do_request` as it enters this part. -/
theorem enter_front (q : Exchange (RequestData σ)) :
    S.enter q = (S.enterFront q).within Front.phase S.finish := by
  simp only [enter, enterFront, doFakePreview, Setting.previewRead, previewReadFront, previewed_front, fakeAnswer_front]
  cases S.info.preview with
  | none => cases S.svc.checkPreviewHandler <;> rfl
  | some size =>
      dsimp only
      split <;> rfl

/-- A step of `do_request` is a step of this part, with the handler behind its end. -/
theorem step_front (f : Front σ) : S.step f.phase = (S.stepFront f).within Front.phase S.finish := by
  cases f with
  | preview p =>
      simp only [Front.phase, step, stepFront, Setting.previewRead, previewReadFront, previewed_front]
      cases previewStep S.size S.fuel p <;> rfl
  | skip s =>
      simp only [Front.phase, step, stepFront]
      cases bodyStep S.texts (modNullIo _) S.fuel s with
      | next t => rfl
      | done out =>
          simp only [Step.within, skipped, skippedFront, previewed_front]
          split <;> rfl
  | body s =>
      simp only [Front.phase, step, stepFront]
      cases bodyStep S.texts (requestIo S.svc) S.fuel s with
      | next t => rfl
      | done out =>
          simp only [Step.within, exchanged, exchangedFront]
          split <;> rfl

end Setting

end IcapService
