import IcapService.BodyRound
import IcapService.PreviewRun
import IcapService.Received

/-! The order in which `do_request` calls the handlers of a service.

The preview handler comes first and once, the callback any number of times behind it, and the end-of-data
handler at most once. -/

namespace IcapService

open CString Machine

/-! ### The data of the callback -/

section

variable {τ : Type} {texts : Texts} {m : IoModule τ} {P : τ → Prop}

theorem BodyLoop.GoesOn.data {v t : BodyLoop τ} (goes : v.GoesOn t) : t.q.data = v.q.data := by
  rcases goes with ⟨rfl, -, -⟩ | rfl
  · rfl
  · rfl

/-- A step of `get_send_body` keeps what the callback keeps. -/
theorem bodyStep_data (keeps : ∀ t c, P t → P (m.io t c).2) {s : BodyLoop τ} {fuel : Nat} (holds : P s.q.data) :
    (bodyStep texts m fuel s).All (fun t => P t.q.data) (fun out => P out.2.data) := by
  simp only [bodyStep]
  split
  · refine (bodyTop_moved (kept_always texts) trivial).imp ?_ ?_
    · rintro t ⟨-, entered⟩
      rw [entered.data]
      exact holds
    · rintro out ⟨-, -, data⟩
      rw [data]
      exact holds
  · split
    · exact holds
    · rename_i parsed result
      have parsing : parsed.All (fun t => P t.q.data) (fun out => P out.2.data) := by
        refine (bodyParse_frame result).imp (fun t parsed => ?_) ?_
        · rw [parsed.data]
          exact holds
        · rintro out ⟨-, -, -, data, -⟩
          rw [data]
          exact holds
      refine parsing.bind (fun u held => (bodyServe_served u).imp ?_ ?_)
      · rintro t ⟨v, c, a, served, goes⟩
        have kept := keeps u.q.data c held
        rw [served.answer] at kept
        rw [goes.data]
        exact kept
      · rintro out ⟨c, a, refused⟩
        have kept := keeps u.q.data c held
        rw [refused.answer] at kept
        exact kept
  · simp only [bodyTest]
    split <;> exact holds

/-- A step of `send_remaining_response` keeps what the callback keeps. -/
theorem sendStep_data (keeps : ∀ t c, P t → P (m.io t c).2) {q : Exchange τ} (holds : P q.data) :
    (sendStep texts m q).All (fun t => P t.data) (fun out => P out.2.data) := by
  have update : ∀ q : Exchange τ, P q.data →
      (sendUpdate texts q).All (fun t => P t.data) (fun out => P out.2.data) := by
    intro q held
    simp only [sendUpdate]
    split <;> exact held
  simp only [sendStep]
  split
  · split
    · split <;> exact holds
    · exact holds
  · refine Step.All.bind (P := fun t => P t.data) ?_ update
    simp only [sendFill]
    split
    · have kept : P (q.call m extraChunkSize (sendCall q)).2.data := keeps q.data (sendCall q) holds
      generalize q.call m extraChunkSize (sendCall q) = called at kept
      simp only [sendTake]
      split
      · exact kept
      · split <;> exact kept
    · exact holds

end

/-! ### The points of a run -/

variable {σ : Type}

def Phase.service : Phase σ → σ
  | .preview p => p.q.data.service
  | .skip s => s.q.data.service
  | .body s => s.q.data.service
  | .rest q => q.data.service

namespace Setting

variable (S : Setting σ)

/-- The results of a run. -/
inductive Results (q0 : Exchange (RequestData σ)) : CiRet × Exchange (RequestData σ) → Prop where
  | entered {out : CiRet × Exchange (RequestData σ)} (result : S.enter q0 = .done out) : Results q0 out
  | stepped {first p : Phase σ} {out : CiRet × Exchange (RequestData σ)} (entered : S.enter q0 = .next first)
      (visited : Visits S.step first p) (result : S.step p = .done out) : Results q0 out

/-- The data of the service at the points of a run: between two steps, and with a result. -/
inductive Passes (q0 : Exchange (RequestData σ)) : σ → Prop where
  | start : Passes q0 q0.data.service
  | phase {first p : Phase σ} (entered : S.enter q0 = .next first) (visited : Visits S.step first p) :
      Passes q0 p.service
  | result {out : CiRet × Exchange (RequestData σ)} (result : S.Results q0 out) : Passes q0 out.2.data.service

/-- Behind a preview handler that allows a 204 the request goes on: the 204 is turned into a 200, or the
client does not take a 204 and the body, if there is one, is echoed. -/
def GoesOn : Prop :=
  match S.info.preview with
  | some _ => S.conf.allow204As200 = true
  | none => S.info.allow204 = false ∧ (S.info.hasbody = true → S.conf.fakeAllow204 = true)

/-- A service whose handlers take its data from `Fresh` over `Going` or `Passed` to `Ended`, or to `Failed`: the
preview handler lets the request go on, allows a 204 or fails, and behind a failure no handler is called. -/
structure Staged (check : View → Bytes → σ → Effect σ) (last : View → σ → Effect σ)
    (Fresh Going Passed Failed Ended : σ → Prop) : Prop where
  checkPreview : S.svc.checkPreviewHandler = some check
  endOfData : S.svc.endOfDataHandler = some last
  checked : ∀ (view : View) data t, view.info = S.info → Fresh t →
    (check view data t).ret = .continue ∧ Going (check view data t).data ∨
      (check view data t).ret = .allow204 ∧ Passed (check view data t).data ∨
      (check view data t).ret = .error ∧ Failed (check view data t).data
  ended : ∀ (view : View) t, view.info = S.info → Going t ∨ Passed t ∧ S.GoesOn → Ended (last view t).data
  going : ∀ t c, Going t → Going (S.svc.io.io t c).2
  passed : ∀ t c, Passed t → Passed (S.svc.io.io t c).2
  behind : ∀ t c, Ended t → Ended (S.svc.io.io t c).2

/-- A service whose handlers take its data from `Fresh` over `Going` or `Passed` to `Ended`: the preview
handler lets the request go on, or it allows a 204 or fails. -/
structure Ordered (check : View → Bytes → σ → Effect σ) (last : View → σ → Effect σ)
    (Fresh Going Passed Ended : σ → Prop) : Prop where
  checkPreview : S.svc.checkPreviewHandler = some check
  endOfData : S.svc.endOfDataHandler = some last
  checked : ∀ (view : View) data t, view.info = S.info → Fresh t →
    (check view data t).ret = .continue ∧ Going (check view data t).data ∨
      ((check view data t).ret = .allow204 ∨ (check view data t).ret = .error) ∧ Passed (check view data t).data
  ended : ∀ (view : View) t, view.info = S.info → Going t ∨ Passed t ∧ S.GoesOn → Ended (last view t).data
  going : ∀ t c, Going t → Going (S.svc.io.io t c).2
  passed : ∀ t c, Passed t → Passed (S.svc.io.io t c).2
  behind : ∀ t c, Ended t → Ended (S.svc.io.io t c).2

end Setting

section

variable {S : Setting σ} {check : View → Bytes → σ → Effect σ} {last : View → σ → Effect σ}
  {Fresh Going Passed Failed Ended : σ → Prop}

theorem requestIo_service {P : σ → Prop} {svc : Service σ} (keeps : ∀ t c, P t → P (svc.io.io t c).2)
    (t : RequestData σ) (c : IoCall) (holds : P t.service) : P ((requestIo svc).io t c).2.service := by
  change P (requestCall svc t c).2.service
  simp only [requestCall]
  split
  · exact holds
  · exact keeps t.service c holds

namespace Setting

/-- The stages of the data. -/
def Stands (S : Setting σ) (Fresh Going Passed Ended : σ → Prop) : Phase σ → Prop
  | .preview p => Fresh p.q.data.service ∧ ∃ n, S.info.preview = some n
  | .skip s => Passed s.q.data.service
  | .body s => Going s.q.data.service ∨ Passed s.q.data.service ∧ S.GoesOn
  | .rest q => Ended q.data.service

/-- The data of a result. -/
def Left (Fresh Going Passed Ended : σ → Prop) (t : σ) : Prop := Fresh t ∨ Going t ∨ Passed t ∨ Ended t

/-- The data of a result, behind a preview handler that may have failed. -/
inductive Leaves (Fresh Going Passed Failed Ended : σ → Prop) (t : σ) : Prop where
  | fresh (fresh : Fresh t)
  | going (going : Going t)
  | passed (passed : Passed t)
  | failed (failed : Failed t)
  | ended (ended : Ended t)

theorem endOfDataAnswer_data (q : Exchange (RequestData σ)) (ret : ModRet) :
    (S.endOfDataAnswer q ret).2.data = q.data := by
  simp only [endOfDataAnswer]
  split
  · rfl
  · split
    · rfl
    · split
      · rfl
      · dsimp only
        split <;> rfl

variable (staged : S.Staged check last Fresh Going Passed Failed Ended)

include staged

theorem Staged.bodyReceived {q : Exchange (RequestData σ)}
    (holds : Going q.data.service ∨ Passed q.data.service ∧ S.GoesOn) :
    (S.bodyReceived q).All (S.Stands Fresh Going Passed Ended)
      (fun out => Leaves Fresh Going Passed Failed Ended out.2.data.service) := by
  have ended : Ended (S.doEndOfData q).2.data.service := by
    simp only [doEndOfData, staged.endOfData]
    rw [endOfDataAnswer_data]
    exact staged.ended (S.view q) q.data.service rfl holds
  simp only [Setting.bodyReceived]
  split
  · exact .ended ended
  · split
    · exact .ended ended
    · split
      · exact .ended ended
      · exact ended

/-- Behind the preview: a request that goes on has data that may go on. -/
theorem Staged.previewed {status : CiRet} {q : Exchange (RequestData σ)}
    (left : Leaves Fresh Going Passed Failed Ended q.data.service)
    (goes : status ≠ .error → (status = .eof ∨ q.write.returnCode ≠ .ec204) →
      Going q.data.service ∨ Passed q.data.service ∧ S.GoesOn) :
    (S.previewed status q).All (S.Stands Fresh Going Passed Ended)
      (fun out => Leaves Fresh Going Passed Failed Ended out.2.data.service) := by
  have data : (if status = .eof then q.setCode .ec200 else q).data = q.data := by split <;> rfl
  simp only [Setting.previewed]
  by_cases failed : status = .error
  · rw [if_pos failed]
    change Leaves Fresh Going Passed Failed Ended (if status = .eof then q.setCode .ec200 else q).data.service
    rw [data]
    exact left
  · rw [if_neg failed]
    have on : (if status = .eof then q.setCode .ec200 else q).write.returnCode ≠ .ec204 →
        Going q.data.service ∨ Passed q.data.service ∧ S.GoesOn := by
      intro code
      refine goes failed ?_
      by_cases ended : status = .eof
      · exact .inl ended
      · rw [if_neg ended] at code
        exact .inr code
    generalize (if status = .eof then q.setCode .ec200 else q) = q' at data on
    rw [← data] at left on
    split
    · exact left
    · rename_i code
      split
      · exact left
      · split
        · exact on code
        · exact staged.bodyReceived (on code)

/-- Behind the preview handler, with a preview. -/
theorem Staged.previewRead {status : CiRet} {q : Exchange (RequestData σ)} {n : Nat} (data : Bytes)
    (inside : S.info.preview = some n) (fresh : Fresh q.data.service) :
    (S.previewRead status q data).All (S.Stands Fresh Going Passed Ended)
      (fun out => Leaves Fresh Going Passed Failed Ended out.2.data.service) := by
  simp only [Setting.previewRead, doRequestPreview]
  split
  · exact staged.previewed (.fresh fresh) (fun works => absurd rfl works)
  · simp only [staged.checkPreview]
    rcases staged.checked (S.view q) data q.data.service rfl fresh with
      ⟨ret, going⟩ | ⟨ret, passed⟩ | ⟨ret, failed⟩
    · rw [ret, previewAnswer, if_neg (by decide), if_neg (by simp), if_neg (by simp)]
      have kept : Going (if status = .eof then handled q (check (S.view q) data q.data.service)
          else ecResponceContinue (handled q (check (S.view q) data q.data.service))).data.service := by
        split <;> exact going
      exact staged.previewed (.going kept) (fun _ _ => .inl kept)
    · rw [ret, previewAnswer, if_pos rfl]
      refine staged.previewed (.passed passed) (fun works answered => .inr ⟨passed, ?_⟩)
      rw [GoesOn, inside]
      by_contra plain
      have code : (ecResponce S.conf (handled q (check (S.view q) data q.data.service)) .ec204).2.write.returnCode =
          .ec204 := by simp [ecResponce, plain]
      rcases answered with eof | other
      · dsimp only at eof
        split at eof <;> cases eof
      · exact other code
    · rw [ret, previewAnswer, if_neg (by decide), if_neg (by simp), if_pos (by decide)]
      exact staged.previewed (.failed failed) (fun works => absurd rfl works)

/-- Behind the preview handler, without a preview. -/
theorem Staged.fakeAnswer {q : Exchange (RequestData σ)} {ret : ModRet} (outside : S.info.preview = none)
    (checked : ret = .continue ∧ Going q.data.service ∨ ret = .allow204 ∧ Passed q.data.service ∨
      ret = .error ∧ Failed q.data.service) :
    (S.fakeAnswer q ret).All (S.Stands Fresh Going Passed Ended)
      (fun out => Leaves Fresh Going Passed Failed Ended out.2.data.service) := by
  rcases checked with ⟨rfl, going⟩ | ⟨rfl, passed⟩ | ⟨rfl, failed⟩
  · rw [Setting.fakeAnswer, if_neg (by simp), if_neg (by simp), if_neg (by simp), if_neg (by simp), if_pos rfl]
    exact staged.previewed (.going going) (fun _ _ => .inl going)
  · have left : Leaves Fresh Going Passed Failed Ended q.data.service := .passed passed
    rw [Setting.fakeAnswer]
    split
    · dsimp only
      split
      · exact staged.previewed left (fun works => absurd rfl works)
      · split
        · exact passed
        · exact staged.previewed left (fun _ answered => absurd rfl (answered.resolve_left (by decide)))
    · rename_i refused
      have untaken : S.info.allow204 = false := by simpa using refused
      split
      · rename_i echoed
        have on : S.GoesOn := by
          rw [GoesOn, outside]
          exact ⟨untaken, fun _ => echoed.2.2⟩
        exact staged.previewed left (fun _ _ => .inr ⟨passed, on⟩)
      · split
        · rename_i bodyless
          have on : S.GoesOn := by
            rw [GoesOn, outside]
            exact ⟨untaken, fun hasbody => absurd (hasbody.symm.trans bodyless.2) (by decide)⟩
          exact staged.previewed left (fun _ _ => .inr ⟨passed, on⟩)
        · rw [if_neg (by simp), if_neg (by decide)]
          exact staged.previewed left (fun works => absurd rfl works)
  · rw [Setting.fakeAnswer, if_neg (by simp), if_neg (by simp), if_neg (by simp), if_neg (by simp),
      if_neg (by decide)]
    exact staged.previewed (.failed failed) (fun works => absurd rfl works)

theorem Staged.enter {q : Exchange (RequestData σ)} (fresh : Fresh q.data.service) :
    (S.enter q).All (S.Stands Fresh Going Passed Ended)
      (fun out => Leaves Fresh Going Passed Failed Ended out.2.data.service) := by
  simp only [Setting.enter]
  split
  · rename_i outside
    simp only [doFakePreview, staged.checkPreview]
    exact staged.fakeAnswer outside (staged.checked (S.view q) [] q.data.service rfl fresh)
  · rename_i n inside
    split
    · exact ⟨fresh, n, inside⟩
    · exact staged.previewRead [] inside fresh

/-- A step takes the data from one stage to the next. -/
theorem Staged.step {p : Phase σ} (stands : S.Stands Fresh Going Passed Ended p) :
    (S.step p).All (S.Stands Fresh Going Passed Ended)
      (fun out => Leaves Fresh Going Passed Failed Ended out.2.data.service) := by
  cases p with
  | preview p =>
      obtain ⟨fresh, n, inside⟩ := stands
      refine (previewStep_untouched S.size S.fuel p).within (fun p' same => ⟨?_, n, inside⟩) (fun out same => ?_)
      · rw [same.data]
        exact fresh
      · refine staged.previewRead _ inside ?_
        rw [same.data]
        exact fresh
  | skip s =>
      refine (bodyStep_data (P := fun t : RequestData σ => Passed t.service) (fun _ _ held => held) stands).within
        (fun _ held => held) (fun out passed => ?_)
      simp only [skipped]
      split
      · exact staged.previewed (.passed passed) (fun works => absurd rfl works)
      · exact staged.previewed (.passed passed)
          (fun _ answered => absurd rfl (answered.resolve_left (by decide)))
  | body s =>
      refine (bodyStep_data (P := fun t : RequestData σ => Going t.service ∨ Passed t.service ∧ S.GoesOn)
        (fun t c held => ?_) stands).within (fun _ held => held) (fun out held => ?_)
      · rcases held with going | ⟨passed, on⟩
        · exact .inl (requestIo_service staged.going t c going)
        · exact .inr ⟨requestIo_service staged.passed t c passed, on⟩
      · simp only [exchanged]
        split
        · exact held.elim .going (fun passed => .passed passed.1)
        · exact staged.bodyReceived held
  | rest q =>
      exact (sendStep_data (P := fun t : RequestData σ => Ended t.service)
        (requestIo_service staged.behind) stands).within (fun _ held => held)
        (fun _ held => .ended held)

omit staged in
theorem Stands.leaves {p : Phase σ} (stands : S.Stands Fresh Going Passed Ended p) :
    Leaves Fresh Going Passed Failed Ended p.service := by
  cases p with
  | preview p => exact .fresh stands.1
  | skip s => exact .passed stands
  | body s => exact stands.elim .going (fun passed => .passed passed.1)
  | rest q => exact .ended stands

/-- At every point of a run the data stands in one of the stages. -/
theorem Staged.passes {q0 : Exchange (RequestData σ)} (fresh : Fresh q0.data.service) {t : σ} (passes : S.Passes q0 t) :
    Leaves Fresh Going Passed Failed Ended t := by
  have entering := staged.enter fresh
  have visits : ∀ first p, S.enter q0 = .next first → Visits S.step first p → S.Stands Fresh Going Passed Ended p := by
    intro first p entered visited
    rw [entered] at entering
    exact visited.inv (fun _ stands => staged.step stands) entering
  cases passes with
  | start => exact .fresh fresh
  | phase entered visited => exact (visits _ _ entered visited).leaves
  | result result =>
      cases result with
      | entered result =>
          rw [result] at entering
          exact entering
      | stepped entered visited result =>
          have kept := staged.step (visits _ _ entered visited)
          rw [result] at kept
          exact kept

omit staged

variable (ordered : S.Ordered check last Fresh Going Passed Ended)

include ordered

theorem Ordered.toStaged : S.Staged check last Fresh Going Passed Passed Ended where
  checkPreview := ordered.checkPreview
  endOfData := ordered.endOfData
  checked view data t same fresh := by
    rcases ordered.checked view data t same fresh with going | ⟨allowed | failed, passed⟩
    · exact .inl going
    · exact .inr (.inl ⟨allowed, passed⟩)
    · exact .inr (.inr ⟨failed, passed⟩)
  ended := ordered.ended
  going := ordered.going
  passed := ordered.passed
  behind := ordered.behind

theorem Ordered.passes {q0 : Exchange (RequestData σ)} (fresh : Fresh q0.data.service) {t : σ} (passes : S.Passes q0 t) :
    Left Fresh Going Passed Ended t := by
  cases ordered.toStaged.passes fresh passes with
  | fresh fresh => exact .inl fresh
  | going going => exact .inr (.inl going)
  | passed passed => exact .inr (.inr (.inl passed))
  | failed passed => exact .inr (.inr (.inl passed))
  | ended ended => exact .inr (.inr (.inr ended))

end Setting

end

end IcapService
