import IcapService.BodyStore
import IcapService.GwService
import IcapService.PreviewRun
import IcapService.WholeBlocks

/-! The body of a request in the store of `gw_rebuild`, when the proxy program is called.

The preview and the blocks of the body reach the store by two handlers. A plan says what holds of the store
between the calls; one is for a body within the limit, the other for a longer one. -/

namespace IcapService

open CString Machine Chunked

/-! ### The blocks -/

/-- A request whose headers have been read, with the front of its body behind them. -/
structure Exchange.Arrived (q : Exchange (RequestData GwState)) : Prop where
  atBody : q.read.AtBody
  small : q.read.unread.length ≤ bufsize
  open_ : q.read.eofReceived = false
  fresh : q.calls = []
  plain : q.data.echoBody = none

namespace Setting

variable (S : Setting GwState) (q0 : Exchange (RequestData GwState))

/-- How a client sends a body: without a preview, with all of it in a preview that says so, or with the rest
of it once the server asks for it. -/
inductive Sends : Bytes → Bool → Prop where
  | plain (k : Coding) (rest : Bytes) (fits : Fits k) (asked : S.info.preview = none)
      (stream : q0.read.unread ++ q0.conn.input = k.encode ++ rest) : Sends k.body false
  | complete (k : Coding) (rest : Bytes) (n : Nat) (fits : Fits k) (asked : S.info.preview = some n)
      (room : k.body.length ≤ S.size) (stream : q0.read.unread ++ q0.conn.input = k.encode ++ rest)
      (final : k.last.final = true) : Sends k.body true
  | continued (front k : Coding) (rest : Bytes) (n : Nat) (fits : Fits front) (asked : S.info.preview = some n)
      (room : front.body.length ≤ S.size) (stream : q0.read.unread ++ q0.conn.input = front.encode)
      (open_ : front.last.final = false) (fits' : Fits k) (held : q0.conn.held = k.encode ++ rest) :
      Sends (front.body ++ k.body) false

/-- What the client sends behind a preview of `front`. -/
def Behind (body : Bytes) (complete : Bool) (front rest held : Bytes) (last : LastChunk) : Prop :=
  last.final = true ∧ complete = true ∧ front = body ∨
    last.final = false ∧ complete = false ∧ rest = [] ∧
      ∃ (k : Coding) (rest' : Bytes), Fits k ∧ held = k.encode ++ rest' ∧ body = front ++ k.body

/-- How the body of a request is collected: `I front` holds of the service while it takes what follows
`front`, `X` of the loop between its steps, and `R` of the end. -/
structure Plan (calm : Prop) (d : GwData) (body : Bytes) (complete : Bool)
    (I : Bytes → RequestData GwState → List (IoCall × IoAnswer) → Prop) (X : BodyLoop (RequestData GwState) → Prop)
    (R : Outcome GwState → Prop) : Prop where
  start : ∀ q : Exchange (RequestData GwState), q.read.writeToModulePending = 0 → q.read.eofReceived = false →
    X (.start q)
  checked : complete = false → ∀ (t : RequestData GwState) (front : Bytes), front <+: body → t.echoBody = none →
    t.service.data = (d.checkPreviewHandler true false front).2 → I front t []
  whole : complete = true → ∀ q : Exchange (RequestData GwState),
    q.data.service.data = (d.checkPreviewHandler true true body).2 → R (.received q)
  ended : ∀ q : Exchange (RequestData GwState), (calm → q.conn.sched = []) → R (.ended (.error, q))
  step : ∀ (s : BodyLoop (RequestData GwState)) (front left rest : Bytes) (last : LastChunk), body = front ++ left →
    Delivering calm (I front) rest left last s → X s →
    (∃ t, bodyStep S.texts (requestIo S.svc) S.fuel s = .next t ∧ Delivering calm (I front) rest left last t ∧ X t ∧
      t.weight left < s.weight left) ∨
    ∃ out, bodyStep S.texts (requestIo S.svc) S.fuel s = .done out ∧ (exchangedFront out).All (fun _ => False) R

variable (calm : Prop) (body : Bytes) (complete : Bool)
  (I : Bytes → RequestData GwState → List (IoCall × IoAnswer) → Prop) (X : BodyLoop (RequestData GwState) → Prop)

/-- Where a request with this body stands before the handler. -/
inductive Collecting (d : GwData) : Nat → Front GwState → Prop where
  | preview {p : PreviewLoop (RequestData GwState)} {front rest : Bytes} {last : LastChunk} {n : Nat}
      (state : Previewing calm rest front last p) (room : front.length ≤ S.size) (fresh : p.q.calls = [])
      (plain : p.q.data.echoBody = none) (data : p.q.data.service.data = d)
      (behind : Behind body complete front rest p.q.conn.held last)
      (rank : 2 * p.weight front + 3 * body.length + 4 ≤ n) : Collecting d n (.preview p)
  | body {s : BodyLoop (RequestData GwState)} {front left rest : Bytes} {last : LastChunk} {n : Nat}
      (state : Delivering calm (I front) rest left last s) (kept : X s) (split : body = front ++ left)
      (rank : s.weight left ≤ n) : Collecting d n (.body s)
  | starving {s : BodyLoop (RequestData GwState)} {n : Nat} (starving : s.q.Starving)
      (cut : calm → s.point = .top ∧ s.action.any = true ∧ s.q.conn.sched = []) : Collecting d n (.body s)

/-- A step of such a request; on a calm socket it lowers the rank. -/
def Lower (d : GwData) (R : Outcome GwState → Prop) (n : Nat) (x : Step (Front GwState) (Outcome GwState)) : Prop :=
  x.All (fun f => ∃ m, S.Collecting calm body complete I X d m f ∧ (calm → m < n)) R

end Setting

section

variable {S : Setting GwState} {q0 q : Exchange (RequestData GwState)} {calm : Prop} {d : GwData} {body : Bytes}
  {complete : Bool} {I : Bytes → RequestData GwState → List (IoCall × IoAnswer) → Prop}
  {X : BodyLoop (RequestData GwState) → Prop} {R : Outcome GwState → Prop}

open Setting

theorem writeEvents_suffix (sched : List NetEvent) (data : Bytes) : (writeEvents sched data).2.2 <:+ sched := by
  fun_induction writeEvents sched data with
  | case1 sched => exact List.suffix_rfl
  | case2 data => exact List.suffix_rfl
  | case3 rest data => exact List.suffix_cons _ _
  | case4 _ rest data _ ih => exact ih.trans (List.suffix_cons _ _)
  | case5 _ rest data => exact List.suffix_cons _ _
  | case6 _ n rest data _ out ih => exact ih.trans (List.suffix_cons _ _)

/-- A write on a socket that does not fail is cut off by the end of the schedule only. -/
theorem writeEvents_exhausted (sched : List NetEvent) (data : Bytes) (steady : ∀ e ∈ sched, e.steady = true)
    (cut : (writeEvents sched data).1 = false) : (writeEvents sched data).2.2 = [] := by
  fun_induction writeEvents sched data with
  | case1 sched => cases cut
  | case2 data => rfl
  | case3 rest data => exact absurd (steady _ List.mem_cons_self) (by decide)
  | case4 _ rest data _ ih => exact ih (fun e member => steady e (List.mem_cons_of_mem _ member)) cut
  | case5 read rest data =>
      have here := steady _ List.mem_cons_self
      simp [NetEvent.steady] at here
  | case6 _ n rest data _ out ih => exact ih (fun e member => steady e (List.mem_cons_of_mem _ member)) cut

section

variable (plan : S.Plan calm d body complete I X R)
include plan

/-- The loop over the body is entered. -/
theorem start_collecting {k : Coding} {front rest : Bytes} {n : Nat} (fits : Fits k) (atBody : q.read.AtBody)
    (stream : q.read.unread ++ q.conn.input = k.encode ++ rest) (small : q.read.unread.length ≤ bufsize)
    (open_ : q.read.eofReceived = false) (fresh : q.calls = []) (service : I front q.data [])
    (steady : calm → ∀ e ∈ q.conn.sched, e.steady = true) (split : body = front ++ k.body)
    (rank : 3 * q.conn.sched.length + 3 * body.length + 3 ≤ n) :
    S.Collecting calm body complete I X d n (.body (.start q)) := by
  refine .body (BodyLoop.start_delivering k fits atBody stream small open_ fresh service steady)
    (plan.start q atBody.idle open_) split ?_
  have length := congrArg List.length split
  rw [List.length_append] at length
  simp only [BodyLoop.weight, BodyLoop.start, fresh, takenData, List.map_nil, List.flatten_nil, List.length_nil,
    atBody.idle, if_true]
  split <;> split <;> omega

/-- The client is asked for the rest of the body. -/
theorem continue_collecting {k : Coding} {front rest : Bytes} {n : Nat} (fits : Fits k) (atBody : q.read.AtBody)
    (none : q.read.unread = []) (input : q.conn.input = []) (open_ : q.read.eofReceived = false) (fresh : q.calls = [])
    (held : q.conn.held = k.encode ++ rest) (service : I front q.data [])
    (steady : calm → ∀ e ∈ q.conn.sched, e.steady = true) (split : body = front ++ k.body)
    (rank : 3 * q.conn.sched.length + 3 * body.length + 3 ≤ n) :
    S.Collecting calm body complete I X d n (.body (.start ((ecResponceContinue q).setCode .ec200))) := by
  have suffix := writeEvents_suffix q.conn.sched continueText
  have later : calm → ∀ e ∈ (writeEvents q.conn.sched continueText).2.2, e.steady = true :=
    fun quiet e member => steady quiet e (suffix.subset member)
  have shorter := suffix.length_le
  have conn : ((ecResponceContinue q).setCode .ec200).conn =
      if (writeEvents q.conn.sched continueText).1 then
        { (q.conn.write continueText).2 with input := q.conn.input ++ q.conn.held, held := [] }
      else (q.conn.write continueText).2 := rfl
  cases sent : (writeEvents q.conn.sched continueText).1 with
  | true =>
      rw [sent, if_pos rfl] at conn
      have stream : ((ecResponceContinue q).setCode .ec200).read.unread ++
          ((ecResponceContinue q).setCode .ec200).conn.input = k.encode ++ rest := by
        rw [conn]
        change q.read.unread ++ (q.conn.input ++ q.conn.held) = k.encode ++ rest
        rw [none, input, held]
        rfl
      refine start_collecting plan fits atBody stream ?_ open_ fresh service ?_ split ?_
      · change q.read.unread.length ≤ bufsize
        rw [none]
        exact Nat.zero_le _
      · rw [conn]
        exact later
      · rw [conn]
        change 3 * (writeEvents q.conn.sched continueText).2.2.length + _ + _ ≤ n
        omega
  | false =>
      rw [sent, if_neg (by decide)] at conn
      have count := atBody.placed.unread_length
      rw [none] at count
      have empty : q.read.pstrblockReadLen = 0 := by simpa using count.symm
      refine .starving ⟨empty, ?_, open_⟩ (fun quiet => ⟨rfl, ?_, ?_⟩)
      · change ((ecResponceContinue q).setCode .ec200).conn.input = []
        rw [conn]
        exact input
      · change (if q.read.pstrblockReadLen = 0 then Wait.forRead else Wait.none).any = true
        rw [if_pos empty]
        rfl
      · change ((ecResponceContinue q).setCode .ec200).conn.sched = []
        rw [conn]
        exact writeEvents_exhausted _ _ (steady quiet) sent

variable {env : GwEnv} (gw : S.svc = gwService env) (hasbody : S.info.hasbody = true)
include gw hasbody

omit plan gw in
/-- What the preview handler leaves. -/
theorem handled_data (q : Exchange (RequestData GwState)) (preview : Bytes) :
    (handled q (gwCheckPreviewHandler (S.view q) preview q.data.service)).data.service.data =
      (q.data.service.data.checkPreviewHandler true q.read.eofReceived preview).2 := by
  change (q.data.service.data.checkPreviewHandler S.info.hasbody q.read.eofReceived preview).2 = _
  rw [hasbody]

/-- The preview has been read. -/
theorem previewReadFront_lower {out : CiRet × PreviewLoop (RequestData GwState)} {front rest : Bytes}
    {last : LastChunk} {n : Nat} (previewed : Previewed calm rest front last out) (fresh : out.2.q.calls = [])
    (plain : out.2.q.data.echoBody = none) (data : out.2.q.data.service.data = d)
    (behind : Behind body complete front rest out.2.q.conn.held last)
    (rank : 3 * out.2.q.conn.sched.length + 3 * body.length + 3 < n) :
    S.Lower calm body complete I X d R n (S.previewReadFront out.1 out.2.q out.2.previewData) := by
  obtain ⟨ret, stored, eof, atBody, none, input, steady⟩ := previewed
  generalize out.2.q = q at *
  rw [stored]
  have left := handled_data hasbody q front
  rw [data, eof] at left
  rcases behind with ⟨final, asked, rfl⟩ | ⟨open_, asked, rfl, k, rest', fits, held, split⟩
  · rw [final] at left
    rw [final, if_pos rfl] at ret
    rw [ret, previewReadFront, gwRequestPreview gw hasbody (by decide), if_pos rfl, previewedFront_eof]
    exact plan.whole asked _ left
  · rw [open_] at left eof
    rw [open_, if_neg (by decide)] at ret
    rw [ret, previewReadFront, gwRequestPreview gw hasbody (by decide), if_neg (by decide),
      S.previewedFront_continue hasbody rfl]
    exact ⟨_, continue_collecting plan fits atBody none (List.suffix_nil.mp input) eof fresh held
      (plan.checked asked _ front ⟨k.body, split.symm⟩ plain left) steady split (Nat.le_refl _), fun _ => rank⟩

/-- A step on the way to the handler. -/
theorem stepFront_lower {f : Front GwState} {n : Nat} (enough : 2 * bufsize + 1 < S.fuel)
    (state : S.Collecting calm body complete I X d n f) : S.Lower calm body complete I X d R n (S.stepFront f) := by
  cases state with
  | @preview p front rest last n state small fresh plain data behind rank =>
      have untouched := previewStep_untouched S.size S.fuel p
      rcases previewStep_previewing state enough small with ⟨p', next, state', less⟩ | ⟨out, done, previewed, conn⟩ |
        ⟨p', done, exhausted⟩
      · rw [next] at untouched
        rw [stepFront, next]
        refine ⟨2 * p'.weight front + 3 * body.length + 4, .preview state' small (untouched.calls.trans fresh) ?_ ?_ ?_
          (Nat.le_refl _), fun _ => by omega⟩
        · rw [untouched.data]
          exact plain
        · rw [untouched.data]
          exact data
        · rw [untouched.held]
          exact behind
      · rw [done] at untouched
        rw [stepFront, done]
        refine previewReadFront_lower plan gw hasbody previewed (untouched.calls.trans fresh) ?_ ?_ ?_ ?_
        · rw [untouched.data]
          exact plain
        · rw [untouched.data]
          exact data
        · rw [untouched.held]
          exact behind
        · rw [conn]
          simp only [PreviewLoop.weight] at rank
          omega
      · rw [stepFront, done]
        change S.Lower calm body complete I X d R n (S.previewReadFront .error p'.q p'.previewData)
        rw [previewReadFront, doRequestPreview, if_pos rfl, previewedFront_error]
        refine plan.ended _ (fun quiet => ?_)
        have none : (ecResponce S.conf p'.q .ec408).2.conn.sched <:+ p'.q.conn.sched := writeEvents_suffix _ _
        rw [exhausted quiet] at none
        exact List.suffix_nil.mp none
  | @body s front left rest last n state kept split rank =>
      rcases plan.step s front left rest last split state kept with ⟨t, next, state', kept', less⟩ | ⟨out, done, result⟩
      · rw [stepFront, next]
        exact ⟨t.weight left, .body state' kept' split (Nat.le_refl _), fun _ => by omega⟩
      · rw [stepFront, done]
        exact result.imp (fun _ never => never.elim) (fun _ holds => holds)
  | @starving s n starving cut =>
      by_cases quiet : calm
      · obtain ⟨top, any, none⟩ := cut quiet
        have timeout : s.TimedOut := ⟨top, any, by simp only [Connection.waitForData, none]; rfl⟩
        rw [stepFront, timeout.done, BodyLoop.leave, starving.open_]
        refine plan.ended _ (fun _ => ?_)
        change (waitEvents s.action s.q.conn.sched).2 = []
        rw [none]
        rfl
      · rw [stepFront]
        refine (bodyStep_starving S.texts (requestIo S.svc) S.fuel starving).within (fun t starving => ?_)
          (fun out failed => ?_)
        · exact ⟨n, .starving starving (fun calm => absurd calm quiet), fun calm => absurd calm quiet⟩
        · obtain ⟨ret, q⟩ := out
          change ret = .error at failed
          subst failed
          exact plan.ended q (fun calm => absurd calm quiet)

end

/-- The way to the handler begins. -/
theorem enterFront_lower {env : GwEnv} (gw : S.svc = gwService env) (hasbody : S.info.hasbody = true)
    (plan : S.Plan calm q0.data.service.data body complete I X R) (arrived : q0.Arrived)
    (sends : S.Sends q0 body complete) (steady : calm → ∀ e ∈ q0.conn.sched, e.steady = true) :
    ∃ n, S.Lower calm body complete I X q0.data.service.data R n (S.enterFront q0) := by
  have found : S.svc.checkPreviewHandler = some gwCheckPreviewHandler := by rw [gw]; rfl
  cases sends with
  | plain k rest fits asked stream =>
      simp only [enterFront, asked, found, gwPreview_answer hasbody, fakeAnswerFront]
      rw [if_neg (by simp), if_neg (by simp), if_neg (by simp), if_neg (by simp), if_pos trivial,
        S.previewedFront_continue hasbody (by simp [setContinue, Exchange.setCode, hasbody])]
      have left := handled_data hasbody q0 []
      rw [arrived.open_] at left
      have service : I [] ((S.setContinue (handled q0 (gwCheckPreviewHandler (S.view q0) [] q0.data.service))).setCode
          .ec200).data [] := plan.checked rfl _ [] List.nil_prefix arrived.plain left
      exact ⟨_, _, start_collecting plan fits arrived.atBody stream arrived.small arrived.open_ arrived.fresh service
        steady rfl (Nat.le_refl _), fun _ => Nat.lt_succ_self _⟩
  | complete k rest n fits asked small stream final =>
      simp only [enterFront, asked, hasbody, if_true]
      have state := PreviewLoop.start_previewing k fits arrived.atBody stream arrived.small arrived.open_ steady
      exact ⟨_, _, .preview state small arrived.fresh arrived.plain rfl (.inl ⟨final, rfl, rfl⟩) (Nat.le_refl _),
        fun _ => Nat.lt_succ_self _⟩
  | continued front k rest n fits asked small stream open_ fits' held =>
      simp only [enterFront, asked, hasbody, if_true]
      rw [← List.append_nil front.encode] at stream
      have state := PreviewLoop.start_previewing front fits arrived.atBody stream arrived.small arrived.open_ steady
      exact ⟨_, _, .preview state small arrived.fresh arrived.plain rfl
        (.inr ⟨open_, rfl, rfl, k, rest, fits', held, rfl⟩) (Nat.le_refl _), fun _ => Nat.lt_succ_self _⟩

/-- Every end of the way is one of the plan, and on a calm socket the way ends. -/
theorem Setting.Plan.ends {env : GwEnv} (gw : S.svc = gwService env) (hasbody : S.info.hasbody = true)
    (plan : S.Plan calm q0.data.service.data body complete I X R) (arrived : q0.Arrived)
    (sends : S.Sends q0 body complete) (steady : calm → ∀ e ∈ q0.conn.sched, e.steady = true)
    (enough : 2 * bufsize + 1 < S.fuel) :
    (∀ o, S.Ends q0 o → R o) ∧ (calm → ∃ o, S.Ends q0 o) := by
  obtain ⟨n, entered⟩ := enterFront_lower gw hasbody plan arrived sends steady
  have pass : ∀ f, (∃ n, S.Collecting calm body complete I X q0.data.service.data n f) →
      (S.stepFront f).All (fun f => ∃ n, S.Collecting calm body complete I X q0.data.service.data n f) R := by
    rintro f ⟨n, state⟩
    exact (stepFront_lower plan gw hasbody enough state).imp (fun _ kept => ⟨_, kept.choose_spec.1⟩) (fun _ holds => holds)
  constructor
  · intro o ends
    cases ends with
    | entered result =>
        rw [result] at entered
        exact entered
    | @front first f _ start visited result =>
        rw [start] at entered
        have kept := pass f (visited.inv pass ⟨_, entered.choose_spec.1⟩)
        rw [result] at kept
        exact kept
  · intro quiet
    cases start : S.enterFront q0 with
    | done o => exact ⟨o, .entered start⟩
    | next first =>
        rw [start] at entered
        obtain ⟨m, state, -⟩ := entered
        obtain ⟨o, result, -⟩ := run_ranked S.stepFront
          (fun n f => S.Collecting calm body complete I X q0.data.service.data n f) (fun _ => True) (fun n f state => by
            have lower := stepFront_lower plan gw hasbody enough state
            cases way : S.stepFront f with
            | next t =>
                rw [way] at lower
                obtain ⟨k, kept, less⟩ := lower
                exact .inl ⟨t, rfl, k, less quiet, kept⟩
            | done o => exact .inr ⟨o, rfl, trivial⟩) state (Nat.lt_succ_self m)
        obtain ⟨f, visited, done⟩ := Visits.of_run result
        exact ⟨o, .front start visited done⟩

/-! ### Bodies within the limit and above it -/

/-- The body is below the limit, or all of it is in the preview and not above the limit. -/
def GwData.Admits (d : GwData) (size : Nat) (complete : Bool) : Prop :=
  d.sizelimit = false ∨ (size < d.maxObjectSize ∨ complete = true ∧ size ≤ d.maxObjectSize) ∧ d.HasRoom size

theorem GwData.Admits.room (admits : d.Admits body.length complete) : d.HasRoom body.length := by
  rcases admits with off | ⟨-, room⟩
  · rw [HasRoom, storeSize, off]
    exact .inl rfl
  · exact room

theorem GwData.Admits.fits {size : Nat} (admits : d.Admits size false) : d.Fits size := by
  rcases admits with off | ⟨below | ⟨whole, -⟩, -⟩
  · exact .inl off
  · exact .inr below
  · cases whole

end

end IcapService
