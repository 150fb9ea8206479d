import IcapService.Relay
import IcapService.WholeBody

/-! The echo service of `srv_echo.c`, from the headers of a request to the end of its response.

The static `whattodo` decides whether a request with a preview is echoed; it is part of the data of the service. The
ring of a request without a body is a null pointer, and its callback is never called. -/

namespace IcapService

open CString Machine Chunked

def echoBodySize : Nat := 4096

theorem echoBodySize_pos : 0 < echoBodySize := by decide

/-- `struct echo_req_data` -/
structure EchoReqData where
  body : Option (Ring echoBodySize)
  eof : Bool

/-- The data of a request, and `whattodo`. -/
structure EchoState where
  whattodo : Bool
  data : EchoReqData

/-- `echo_init_request_data` -/
def echoInitRequestData (hasbody : Bool) : EchoReqData where
  body := if hasbody then some (.new echoBodySize echoBodySize_pos) else none
  eof := false

/-- `echo_check_preview_handler` -/
def echoCheckPreviewHandler (v : View) (previewData : Bytes) (t : EchoState) : Effect EchoState :=
  if v.info.hasbody = false then ⟨.allow204, t, v.entities, v.dataLocked⟩
  else if previewData = [] then ⟨.continue, t, v.entities, false⟩
  else if t.whattodo = false then
    ⟨.continue, ⟨true, ⟨t.data.body.map fun ring => (ring.write previewData).1, v.hasalldata⟩⟩, v.entities, false⟩
  else ⟨.allow204, { t with whattodo := false }, v.entities, false⟩

/-- `echo_end_of_data_handler` -/
def echoEndOfDataHandler (v : View) (t : EchoState) : Effect EchoState :=
  ⟨.done, { t with data := { t.data with eof := true } }, v.entities, v.dataLocked⟩

/-- `echo_io` -/
def echoIo (t : EchoState) (c : IoCall) : IoAnswer × EchoState :=
  match t.data.body with
  | none => (⟨true, .error, 0, c.dataLocked⟩, t)
  | some ring =>
      let written := ring.write c.data
      let out := written.1.read c.space
      (⟨false, echoProduced c.room t.data.eof out.1, written.2, c.dataLocked⟩,
        { t with data := { t.data with body := some out.2 } })

def echoModule : IoModule EchoState where
  io := echoIo
  room t c data produced := by
    rw [echoIo] at produced
    split at produced
    · cases produced
    · simp only [echoProduced] at produced
      split at produced
      · cases produced
      · cases produced
        exact Ring.read_le _ _
  taken t c := by
    rw [echoIo]
    split
    · exact Nat.zero_le _
    · exact Ring.write_le _ _
  touched t c untouched := by
    rw [echoIo] at untouched
    split at untouched
    · cases untouched
    · simp only [echoProduced] at untouched
      split at untouched <;> cases untouched

/-- The service as `echo_module` lists its handlers. -/
def echoService : Service EchoState where
  io := echoModule
  checkPreviewHandler := some echoCheckPreviewHandler
  endOfDataHandler := some echoEndOfDataHandler

/-! ### The ring as a buffer -/

/-- The ring of a request holds these bytes, and the end of the body has been seen or not. -/
def EchoHolds (eof : Bool) (t : RequestData EchoState) (held : Bytes) : Prop :=
  t.echoBody = none ∧ t.service.data.eof = eof ∧
    ∃ ring, t.service.data.body = some ring ∧ ring.Sound ∧ ring.content = held

variable {t : RequestData EchoState} {held : Bytes}

theorem requestCall_echo (plain : t.echoBody = none) (c : IoCall) :
    (requestIo echoService).io t c = ((echoIo t.service c).1, { t with service := (echoIo t.service c).2 }) := by
  change requestCall echoService t c = _
  rw [requestCall, plain]
  rfl

theorem EchoHolds.io {eof : Bool} (holds : EchoHolds eof t held) (c : IoCall) :
    ∃ k, k ≤ c.data.length ∧ (k < c.data.length → held ++ c.data.take k ≠ []) ∧
      ∃ t', (requestIo echoService).io t c =
        (⟨false, echoProduced c.room eof ((held ++ c.data.take k).take c.space), k, c.dataLocked⟩, t') ∧
        EchoHolds eof t' ((held ++ c.data.take k).drop c.space) := by
  obtain ⟨plain, flag, ring, here, sound, rfl⟩ := holds
  obtain ⟨amount, content, sound'⟩ := ring.write_spec sound c.data
  obtain ⟨front, rest, sound''⟩ := (ring.write c.data).1.read_spec sound' c.space
  rw [← amount] at content
  refine ⟨(ring.write c.data).2, ring.write_le c.data, fun less => ?_, { t with service := { t.service with
    data := { t.service.data with body := some ((ring.write c.data).1.read c.space).2 } } }, ?_, plain, flag, _, rfl,
    sound'', ?_⟩
  · intro nothing
    obtain ⟨empty, none⟩ := List.append_eq_nil_iff.mp nothing
    have room := sound.content_length.2 (by rw [empty]; exact ring.some)
    have taken := congrArg List.length none
    rw [List.length_take, List.length_nil] at taken
    omega
  · rw [requestCall_echo plain, echoIo, here, ← content, ← front, flag]
  · rw [rest, content]

theorem echo_relaying : Relaying (requestIo echoService) (EchoHolds false) := by
  intro t held c holds
  obtain ⟨k, -, full, t', answer, holds'⟩ := holds.io c
  have open_ : echoProduced c.room false ((held ++ c.data.take k).take c.space) =
      .bytes ((held ++ c.data.take k).take c.space) := by
    rw [echoProduced, if_neg (fun eof => Bool.false_ne_true eof.2.2)]
  exact ⟨by rw [answer], by rw [answer], by rw [answer]; exact open_, by rw [answer]; exact holds',
    by rw [answer]; exact full⟩

/-- Behind the end of the body the ring is emptied. -/
theorem echo_draining : Draining (requestIo echoService) true (EchoHolds true) := by
  intro t left locked holds
  obtain ⟨k, -, -, t', answer, holds'⟩ := holds.io ⟨some maxChunkSize, none, true, true, locked⟩
  have same : left ++ (IoCall.data ⟨some maxChunkSize, none, true, true, locked⟩).take k = left := by
    change left ++ List.take k [] = left
    rw [List.take_nil, List.append_nil]
  rw [same] at answer holds'
  rw [Gives, answer]
  refine ⟨rfl, ?_⟩
  have positive : 0 < maxChunkSize := by decide
  by_cases empty : left = []
  · left
    subst empty
    exact ⟨rfl, rfl, holds'⟩
  · right
    have some := List.length_pos_iff.mpr empty
    have nonempty : left.take maxChunkSize ≠ [] := by
      intro none
      have length := congrArg List.length none
      rw [List.length_take, List.length_nil] at length
      omega
    refine ⟨left.take maxChunkSize, left.drop maxChunkSize, nonempty, (List.take_append_drop _ _).symm, ?_, holds'⟩
    exact if_neg (fun eof => nonempty eof.2.1)

/-! ### A request -/

/-- What is left of a request ends with `R`. -/
def Setting.Concludes {σ : Type} (S : Setting σ) (R : CiRet × Exchange (RequestData σ) → Prop)
    (x : Step (Phase σ) (CiRet × Exchange (RequestData σ))) : Prop :=
  match x with
  | .done out => R out
  | .next phase => ∃ n out, run S.step n phase = some out ∧ R out

/-- A phase ends, and what is behind it ends with `R`. -/
theorem Setting.Concludes.within {σ α β : Type} {S : Setting σ} {R : CiRet × Exchange (RequestData σ) → Prop}
    {inner : α → Step α β} {inside : α → Phase σ} {behind : β → Step (Phase σ) (CiRet × Exchange (RequestData σ))}
    (part : ∀ a, S.step (inside a) = (inner a).within inside behind) {n : Nat} {a : α} {r : β}
    (result : run inner n a = some r) (rest : S.Concludes R (behind r)) : S.Concludes R (.next (inside a)) := by
  cases way : behind r with
  | done out =>
      rw [way] at rest
      exact ⟨n + 0, out, run_within part result (.inl way), rest⟩
  | next t =>
      rw [way] at rest
      obtain ⟨k, out, final, holds⟩ := rest
      exact ⟨n + k, out, run_within part result (.inr ⟨t, way, final⟩), holds⟩

/-- The response carries `total` behind what was sent before it; nothing but the end of the schedule prevents it. -/
def Setting.Echoes (S : Setting EchoState) (base total : Bytes)
    (out : CiRet × Exchange (RequestData EchoState)) : Prop :=
  Answered S.texts base .ec200 total out ∨ out.1 = .error ∧ out.2.conn.sched = []

section

variable {S : Setting EchoState} {q q0 : Exchange (RequestData EchoState)} {base total front body : Bytes}
variable {last : LastChunk}

open Setting

/-- What the handler for the end of the data leaves to be sent. -/
def Exchange.echoRest (q : Exchange (RequestData EchoState)) : Exchange (RequestData EchoState) :=
  { q with
    data := { q.data with service := (echoEndOfDataHandler (S.view q) q.data.service).data }
    write := { q.write with dataLocked := false } }

variable (svc : S.svc = echoService)
include svc

theorem bodyReceived_echo (ready : q.write.Ready S.texts .ec200) :
    S.bodyReceived q = .next (.rest (q.echoRest (S := S))) := by
  have ended : S.doEndOfData q = (.ok, handled q (echoEndOfDataHandler (S.view q) q.data.service)) := by
    rw [doEndOfData, svc]
    rfl
  have code : (handled q (echoEndOfDataHandler (S.view q) q.data.service)).write.returnCode ≠ .ec204 := by
    change q.write.returnCode ≠ .ec204
    rw [ready.returnCode]
    decide
  have open_ : (handled q (echoEndOfDataHandler (S.view q) q.data.service)).write.status ≠ .eof := ready.open_
  rw [bodyReceived, ended]
  dsimp only
  rw [if_neg (by decide), if_neg code, if_neg (fun past => open_ past.1)]
  rfl

/-- The rest of the response, when the ring holds the rest of its body. -/
theorem bodyReceived_echoes {eof : Bool} {blocks : List Bytes} {left : Bytes}
    (emitted : Emitted S.texts base q.write q.conn.output blocks) (produced : producedData q.calls = blocks.flatten)
    (holds : EchoHolds eof q.data left) (whole : producedData q.calls ++ left = total)
    (ready : q.write.Ready S.texts .ec200) (ended : q.read.eofReceived = true)
    (steady : ∀ e ∈ q.conn.sched, e.steady = true) : S.Concludes (S.Echoes base total) (S.bodyReceived q) := by
  obtain ⟨plain, -, ring, here, sound, content⟩ := holds
  have state : Remaining S.texts base true (EchoHolds true) .ec200 total (q.echoRest (S := S)) :=
    { wire := ⟨blocks, emitted.relock false, produced⟩
      left := ⟨left, ⟨plain, rfl, ring, here, sound, content⟩, whole, fun past => absurd past ready.open_⟩
      bodied := ready.bodied.same rfl rfl rfl rfl
      received := ended
      code := ready.returnCode }
  have draining : Draining (requestIo S.svc) true (EchoHolds true) := by
    rw [svc]
    exact echo_draining
  obtain ⟨out, result, final⟩ := rest_ends draining state steady (Nat.lt_succ_self _)
  rw [bodyReceived_echo svc ready]
  have done : S.Concludes (S.Echoes base total) (.done out) := final
  exact Concludes.within (fun _ => rfl) result done

/-- A request whose schedule is over while something is to be sent ends with an error. -/
theorem bodyReceived_cut (past : q.conn.sched = []) (busy : 0 < q.write.remainSendBlockBytes)
    (ready : q.write.Ready S.texts .ec200) : S.Concludes (S.Echoes base total) (S.bodyReceived q) := by
  obtain ⟨out, cut, none⟩ := sendStep_cut S.texts (requestIo S.svc) (q := q.echoRest (S := S)) past busy
  rw [bodyReceived_echo svc ready]
  have done : S.Concludes (S.Echoes base total) (.done (.error, out)) := .inr ⟨rfl, none⟩
  exact Concludes.within (fun _ => rfl) (run_done 0 cut) done

/-- The loop over the body, and what follows it. -/
theorem body_echoes {s : BodyLoop (RequestData EchoState)} (enough : 2 * bufsize + 1 < S.fuel)
    (state : s.Relay S.texts .ec200 (EchoHolds false) base front body last) :
    S.Concludes (S.Echoes base (front ++ body)) (.next (.body s)) := by
  have relaying : Relaying (requestIo S.svc) (EchoHolds false) := by
    rw [svc]
    exact echo_relaying
  obtain ⟨out, result, final⟩ := relay_ends relaying enough state (Nat.lt_succ_self _)
  refine Concludes.within (fun _ => rfl) result ?_
  obtain ⟨ret, q⟩ := out
  rw [exchanged]
  rcases final with ⟨ok, ⟨blocks, emitted, produced⟩, ⟨left, holds, whole⟩, ready, ended, steady⟩ | ⟨past, unsent⟩
  · rw [if_neg (by rw [ok]; decide)]
    exact bodyReceived_echoes svc emitted produced holds whole ready ended steady
  · split
    · rename_i error
      exact .inr ⟨error, past⟩
    · rename_i works
      obtain ⟨busy, ready⟩ := unsent works
      exact bodyReceived_cut svc past busy ready

/-- A request with a body, as the service is given it. -/
structure Setting.Echoable (S : Setting EchoState) (q : Exchange (RequestData EchoState)) : Prop where
  atBody : q.read.AtBody
  small : q.read.unread.length ≤ bufsize
  open_ : q.read.eofReceived = false
  fresh : q.calls = []
  plain : q.data.echoBody = none
  data : q.data.service.data = echoInitRequestData true
  nothing : q.write.status = .nothing
  idle : q.write.remainSendBlockBytes = 0
  ready : ({ q.write with returnCode := .ec200, dataLocked := false } : WriteSide).Ready S.texts .ec200
  steady : ∀ e ∈ q.conn.sched, e.steady = true

/-- How the client sends `front` in a preview and `body` behind it: without a preview, with all of it in a preview
that says so, or with the rest once the server asks for it by `interim`. -/
inductive Setting.Carries (S : Setting EchoState) (q : Exchange (RequestData EchoState)) :
    Bytes → Bytes → Bytes → Prop where
  | plain (k : Coding) (fits : Fits k) (asked : S.info.preview = none)
      (stream : q.read.unread ++ q.conn.input = k.encode) : Carries S q [] k.body []
  | complete (k : Coding) (n : Nat) (fits : Fits k) (asked : S.info.preview = some n)
      (room : k.body.length ≤ S.size) (stream : q.read.unread ++ q.conn.input = k.encode)
      (final : k.last.final = true) : Carries S q k.body [] []
  | continued (front k : Coding) (n : Nat) (fits : Fits front) (asked : S.info.preview = some n)
      (room : front.body.length ≤ S.size) (stream : q.read.unread ++ q.conn.input = front.encode)
      (open_ : front.last.final = false) (fits' : Fits k) (held : q.conn.held = k.encode) :
      Carries S q front.body k.body continueText

omit svc in
/-- The preview handler takes a request up: it unlocks the data and keeps what the ring takes of the preview. -/
theorem echo_takes_up (hasbody : S.info.hasbody = true) (plain : q.data.echoBody = none)
    (data : q.data.service.data = echoInitRequestData true) {preview : Bytes}
    (takes : q.data.service.whattodo = false ∨ preview = []) :
    ∃ d, echoCheckPreviewHandler (S.view q) preview q.data.service = ⟨.continue, d, q.write.entities, false⟩ ∧
      EchoHolds (if preview = [] then false else q.read.eofReceived) { q.data with service := d }
        (preview.take echoBodySize) := by
  have ring : q.data.service.data.body = some (.new echoBodySize echoBodySize_pos) := by
    rw [data, echoInitRequestData, if_pos rfl]
  have eof : q.data.service.data.eof = false := by rw [data]; rfl
  have body : (S.view q).info.hasbody ≠ false := by
    change S.info.hasbody ≠ false
    rw [hasbody]
    decide
  rw [echoCheckPreviewHandler, if_neg body]
  by_cases empty : preview = []
  · rw [if_pos empty, if_pos empty]
    refine ⟨_, rfl, plain, eof, _, ring, Ring.new_sound _, ?_⟩
    rw [Ring.new_content, empty, List.take_nil]
  · rw [if_neg empty, if_neg empty, if_pos (takes.resolve_right empty)]
    obtain ⟨amount, content, sound⟩ := (Ring.new echoBodySize echoBodySize_pos).write_spec (Ring.new_sound _) preview
    refine ⟨_, rfl, plain, rfl, _, by rw [ring]; rfl, sound, ?_⟩
    rw [content, Ring.new_content, List.nil_append, Ring.room, Ring.new, if_pos ⟨rfl, rfl⟩, Nat.sub_zero,
      Nat.min_comm, ← List.take_eq_take_min]

omit svc in
theorem Untouched.trans {q1 q2 q3 : Exchange (RequestData EchoState)} (first : Untouched q1 q2)
    (second : Untouched q2 q3) :
    Untouched q1 q3 :=
  ⟨second.write.trans first.write, second.calls.trans first.calls, second.data.trans first.data,
    second.output.trans first.output, second.held.trans first.held⟩

omit svc in
/-- The preview is read as a whole, or the schedule ends before. -/
theorem preview_ends {size fuel : Nat} {rest : Bytes} {p : PreviewLoop (RequestData EchoState)}
    (state : Previewing True rest front last p) (enough : 2 * bufsize + 1 < fuel) (fits : front.length ≤ size) :
    ∃ n out, run (previewStep size fuel) n p = some out ∧ Untouched p.q out.2.q ∧
      (Previewed True rest front last out ∨ out.1 = .error ∧ out.2.q.conn.sched = []) := by
  refine ⟨_, run_spec (previewStep size fuel) (PreviewLoop.weight front)
    (fun p' => Previewing True rest front last p' ∧ Untouched p.q p'.q) _ ?_ (p.weight front + 1) p
    ⟨state, ⟨rfl, rfl, rfl, rfl, rfl⟩⟩ (Nat.lt_succ_self _)⟩
  rintro p' ⟨state, untouched⟩
  have kept := previewStep_untouched size fuel p'
  rcases previewStep_previewing state enough fits with ⟨p2, next, state', less⟩ | ⟨out, done, previewed, -⟩ |
    ⟨p2, done, past⟩
  · rw [next] at kept
    exact .inl ⟨p2, next, ⟨state', untouched.trans kept⟩, less⟩
  · rw [done] at kept
    exact .inr ⟨out, done, untouched.trans kept, .inl previewed⟩
  · rw [done] at kept
    exact .inr ⟨_, done, untouched.trans kept, .inr ⟨rfl, past trivial⟩⟩

omit svc in
/-- Without an event a body of which nothing has been received is not received. -/
theorem start_cut (empty : q.read.pstrblockReadLen = 0) (past : q.conn.sched = [])
    (open_ : q.read.eofReceived = false) :
    S.Concludes (S.Echoes base total) (.next (.body (.start q))) := by
  have action : (BodyLoop.start q).action = .forRead := if_pos empty
  have wait : (BodyLoop.start q).q.conn.waitForData (BodyLoop.start q).action =
      (none, { q.conn with sched := [] }) := by
    rw [Connection.waitForData, action]
    change ((waitEvents .forRead q.conn.sched).1, { q.conn with sched := (waitEvents .forRead q.conn.sched).2 }) = _
    rw [past]
    rfl
  have timeout : (BodyLoop.start q).TimedOut := ⟨rfl, by rw [action]; rfl, by rw [wait]⟩
  have ended := timeout.done S.texts (requestIo S.svc) S.fuel
  rw [wait] at ended
  let q' : Exchange (RequestData EchoState) := { (BodyLoop.start q).q with conn := { q.conn with sched := [] } }
  change _ = Step.done (if q.read.eofReceived then CiRet.ok else .error, q') at ended
  rw [open_, if_neg (by decide)] at ended
  have done : S.Concludes (S.Echoes base total) (S.exchanged (.error, q')) := .inr ⟨rfl, rfl⟩
  exact Concludes.within (fun _ => rfl) (run_done 0 ended) done

/-- The client is asked for the rest of the body. -/
theorem continue_echoes {k : Coding} (enough : 2 * bufsize + 1 < S.fuel) (fits : Fits k) (atBody : q.read.AtBody)
    (empty : q.read.unread = []) (input : q.conn.input = []) (held : q.conn.held = k.encode)
    (open_ : q.read.eofReceived = false) (fresh : q.calls = []) (holds : EchoHolds false q.data front)
    (nothing : q.write.status = .nothing) (idle : q.write.remainSendBlockBytes = 0)
    (ready : ({ q.write with returnCode := .ec200 } : WriteSide).Ready S.texts .ec200)
    (steady : ∀ e ∈ q.conn.sched, e.steady = true) :
    S.Concludes (S.Echoes (q.conn.output ++ continueText) (front ++ k.body))
      (.next (.body (.start ((ecResponceContinue q).setCode .ec200)))) := by
  have conn : ((ecResponceContinue q).setCode .ec200).conn =
      if (writeEvents q.conn.sched continueText).1 then
        { (q.conn.write continueText).2 with input := q.conn.input ++ q.conn.held, held := [] }
      else (q.conn.write continueText).2 := rfl
  have suffix := writeEvents_suffix q.conn.sched continueText
  have written := writeEvents_prefix q.conn.sched continueText
  cases sent : (writeEvents q.conn.sched continueText).1 with
  | true =>
      rw [sent, if_pos rfl] at conn
      have output : ((ecResponceContinue q).setCode .ec200).conn.output = q.conn.output ++ continueText := by
        rw [conn]
        exact congrArg _ (written.2 sent)
      rw [← output]
      refine body_echoes svc enough (BodyLoop.start_relay k fits atBody ?_ ?_ open_ fresh holds ?_ nothing idle
        (ready.of_same rfl rfl rfl rfl rfl ready.unlocked))
      · rw [conn]
        change q.read.unread ++ (q.conn.input ++ q.conn.held) = k.encode
        rw [empty, input, held]
        rfl
      · change q.read.unread.length ≤ bufsize
        rw [empty]
        exact Nat.zero_le _
      · rw [conn]
        exact fun e member => steady e (suffix.subset member)
  | false =>
      rw [sent, if_neg (by decide)] at conn
      have count := atBody.placed.unread_length
      rw [empty] at count
      have zero : q.read.pstrblockReadLen = 0 := by simpa using count.symm
      refine start_cut zero ?_ open_
      rw [conn]
      exact writeEvents_exhausted _ _ steady sent

omit svc in
/-- An answer behind the end of the schedule. -/
theorem previewRead_cut {data : Bytes} (past : q.conn.sched = []) :
    S.Concludes (S.Echoes base total) (S.previewRead .error q data) := by
  have read : S.previewRead .error q data = .done (.error, (ecResponce S.conf q .ec408).2) := by
    simp [Setting.previewRead, doRequestPreview, previewed]
  rw [read]
  refine .inr ⟨rfl, ?_⟩
  have suffix : (ecResponce S.conf q .ec408).2.conn.sched <:+ q.conn.sched := writeEvents_suffix _ _
  rw [past] at suffix
  exact List.suffix_nil.mp suffix

/-- The preview has been read and the request is taken up. -/
theorem previewRead_takes {status : CiRet} {preview : Bytes} {d : EchoState} (works : status ≠ .error)
    (answer : echoCheckPreviewHandler (S.view q) preview q.data.service = ⟨.continue, d, q.write.entities, false⟩) :
    S.previewRead status q preview = S.previewed status
      (if status = .eof then handled q ⟨.continue, d, q.write.entities, false⟩
        else ecResponceContinue (handled q ⟨.continue, d, q.write.entities, false⟩)) := by
  have handler : S.svc.checkPreviewHandler = some echoCheckPreviewHandler := by rw [svc]; rfl
  have read : S.doRequestPreview status q preview = (status,
      if status = .eof then handled q ⟨.continue, d, q.write.entities, false⟩
      else ecResponceContinue (handled q ⟨.continue, d, q.write.entities, false⟩)) := by
    rw [doRequestPreview, if_neg works, handler]
    dsimp only
    rw [answer]
    dsimp only
    rw [previewAnswer, if_neg (by decide), if_neg (fun both => by cases both.1), if_neg (by simp)]
  rw [Setting.previewRead, read]

/-- What the client sent behind the headers has been read as a preview. -/
theorem preview_echoes {p : PreviewLoop (RequestData EchoState)} {status : CiRet} (hasbody : S.info.hasbody = true)
    (enough : 2 * bufsize + 1 < S.fuel) (echoable : S.Echoable q0) (untouched : Untouched q0 p.q)
    (takes : q0.data.service.whattodo = false ∨ front = []) (previewed : Previewed True [] front last (status, p)) :
    (last.final = true → S.Concludes (S.Echoes q0.conn.output (front.take echoBodySize))
      (S.previewRead status p.q p.previewData)) ∧
    ∀ k : Coding, last.final = false → Fits k → q0.conn.held = k.encode →
      S.Concludes (S.Echoes (q0.conn.output ++ continueText) (front.take echoBodySize ++ k.body))
        (S.previewRead status p.q p.previewData) := by
  obtain ⟨ret, stored, eof, atBody, empty, input, steady⟩ := previewed
  dsimp only at ret stored eof atBody empty input steady
  rw [stored]
  rw [← untouched.data] at takes
  obtain ⟨d, answer, holds⟩ := echo_takes_up (S := S) (q := p.q) hasbody
    (by rw [untouched.data]; exact echoable.plain)
    (by rw [untouched.data]; exact echoable.data) takes
  have ready := echoable.ready
  have nothing := echoable.nothing
  have idle := echoable.idle
  rw [← untouched.write] at ready nothing idle
  have fresh := untouched.calls.trans echoable.fresh
  rw [← untouched.output]
  constructor
  · intro final
    rw [final, if_pos rfl] at ret
    rw [ret, previewRead_takes svc (by decide) answer, if_pos rfl, S.previewed_front, S.previewedFront_eof]
    refine bodyReceived_echoes svc (.nothing nothing idle rfl) ?_ holds ?_ ready (eof.trans final) (steady trivial)
    · change producedData p.q.calls = _
      rw [fresh]
      rfl
    · change producedData p.q.calls ++ _ = _
      rw [fresh]
      rfl
  · intro k open_ fits held
    rw [open_, if_neg (by decide)] at ret
    rw [open_] at eof
    rw [eof, ite_self] at holds
    rw [ret, previewRead_takes svc (by decide) answer, if_neg (by decide), S.previewed_front,
      S.previewedFront_continue hasbody rfl]
    exact continue_echoes svc enough fits atBody empty (List.suffix_nil.mp input) (untouched.held.trans held) eof
      fresh holds nothing idle ready (steady trivial)

omit svc in
theorem Setting.Concludes.request {R : CiRet × Exchange (RequestData EchoState) → Prop}
    (enters : S.Concludes R (S.enter q0)) : ∃ n out, S.doRequest n q0 = some out ∧ R out := by
  cases way : S.enter q0 with
  | done out =>
      rw [way] at enters
      exact ⟨0, out, by rw [doRequest, way], enters⟩
  | next phase =>
      rw [way] at enters
      obtain ⟨n, out, result, final⟩ := enters
      exact ⟨n, out, by rw [doRequest, way]; exact result, final⟩

/-- Where a request that the service takes up ends. -/
theorem echo_enters {interim : Bytes} (hasbody : S.info.hasbody = true) (enough : 2 * bufsize + 1 < S.fuel)
    (echoable : S.Echoable q0) (carries : S.Carries q0 front body interim)
    (takes : q0.data.service.whattodo = false ∨ front = []) :
    S.Concludes (S.Echoes (q0.conn.output ++ interim) (front.take echoBodySize ++ body)) (S.enter q0) := by
  have handler : S.svc.checkPreviewHandler = some echoCheckPreviewHandler := by rw [svc]; rfl
  cases carries with
  | plain k fits asked stream =>
      have takes : q0.data.service.whattodo = false ∨ ([] : Bytes) = [] := .inr rfl
      obtain ⟨d, answer, holds⟩ := echo_takes_up (S := S) hasbody echoable.plain echoable.data takes
      have entered : S.enter q0 = .next (.body (.start ((S.setContinue (handled q0 ⟨.continue, d, q0.write.entities,
          false⟩)).setCode .ec200))) := by
        rw [enter, asked]
        dsimp only
        rw [doFakePreview, handler]
        dsimp only
        rw [answer]
        dsimp only
        rw [fakeAnswer, if_neg (by simp), if_neg (by simp), if_neg (by simp), if_neg (by simp), if_pos rfl,
          S.previewed_front, S.previewedFront_continue hasbody (by simp [setContinue, Exchange.setCode, hasbody])]
        rfl
      rw [entered, List.append_nil]
      exact body_echoes svc enough (BodyLoop.start_relay (q := (S.setContinue (handled q0 ⟨.continue, d,
        q0.write.entities, false⟩)).setCode .ec200) k fits echoable.atBody stream echoable.small echoable.open_
        echoable.fresh holds echoable.steady echoable.nothing echoable.idle echoable.ready)
  | complete k n fits asked room stream final =>
      have entered : S.enter q0 = .next (.preview (.start q0)) := by rw [enter, asked]; exact if_pos hasbody
      rw [← List.append_nil k.encode] at stream
      have state : Previewing True [] k.body k.last (.start q0) := PreviewLoop.start_previewing k fits
        echoable.atBody stream echoable.small echoable.open_ (fun _ => echoable.steady)
      obtain ⟨n, ⟨status, p⟩, result, untouched, previewed | ⟨rfl, past⟩⟩ := preview_ends state enough room
      · have kept : Untouched q0 p.q :=
          ⟨untouched.write, untouched.calls, untouched.data, untouched.output, untouched.held⟩
        rw [entered, List.append_nil, List.append_nil]
        exact Concludes.within (fun _ => rfl) result
          ((preview_echoes svc hasbody enough echoable kept takes previewed).1 final)
      · rw [entered]
        exact Concludes.within (fun _ => rfl) result (previewRead_cut past)
  | continued front k n fits asked room stream open_ fits' held =>
      have entered : S.enter q0 = .next (.preview (.start q0)) := by rw [enter, asked]; exact if_pos hasbody
      rw [← List.append_nil front.encode] at stream
      have state : Previewing True [] front.body front.last (.start q0) := PreviewLoop.start_previewing
        front fits echoable.atBody stream echoable.small echoable.open_ (fun _ => echoable.steady)
      obtain ⟨n, ⟨status, p⟩, result, untouched, previewed | ⟨rfl, past⟩⟩ := preview_ends state enough room
      · have kept : Untouched q0 p.q :=
          ⟨untouched.write, untouched.calls, untouched.data, untouched.output, untouched.held⟩
        rw [entered]
        exact Concludes.within (fun _ => rfl) result
          ((preview_echoes svc hasbody enough echoable kept takes previewed).2 k open_ fits' held)
      · rw [entered]
        exact Concludes.within (fun _ => rfl) result (previewRead_cut past)

end

/-- Three bytes in a preview and two behind it, on a socket that takes a few bytes at a time. -/
def echoSetting : Setting EchoState where
  conf := ⟨false, false, fun _ => []⟩
  texts := ⟨fun ec => statusLine ec ++ crlf⟩
  svc := echoService
  info := ⟨true, some 3, false, false⟩
  size := 67
  fuel := 8194

def echoRequest : Exchange (RequestData EchoState) :=
  .fresh (ascii "3\r\nabc\r\n0\r\n\r\n") ⟨[], ascii "2\r\nde\r\n0\r\n\r\n", [],
    .replicate 8 (.ready (some (.bytes 9)) (some (.bytes 30)))⟩ ⟨⟨false, echoInitRequestData true⟩, none⟩ true

theorem echoRequest_echoable : echoSetting.Echoable echoRequest where
  atBody := ⟨⟨by decide, by decide, by decide⟩, rfl, rfl, rfl⟩
  small := by decide
  open_ := rfl
  fresh := rfl
  plain := rfl
  data := rfl
  nothing := rfl
  idle := rfl
  ready :=
    { bodied := ⟨by decide, by decide, fun begun => absurd rfl begun⟩
      unlocked := rfl
      open_ := by decide
      returnCode := rfl
      responceHeader := by decide
      heads := by decide }
  steady := by decide

end IcapService
