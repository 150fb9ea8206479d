import IcapService.Emission

/-! `send_remaining_response` behind `get_send_body`: what a client has received when the pair of them
is over, for every service. -/

namespace IcapService

open CString Machine Chunked

variable {τ : Type} {texts : Texts} {m : IoModule τ} {base : Bytes}

/-- The chunks of a response and its last chunk are the coding of its data. -/
theorem chunkTexts_coding (blocks : List Bytes) (l : LastChunk) (each : ∀ b ∈ blocks, Block b) :
    ∃ k : Coding, chunkTexts blocks ++ l.encode = k.encode ∧ k.body = blocks.flatten := by
  induction blocks with
  | nil => exact ⟨⟨[], l⟩, by simp [chunkTexts, Coding.encode], by simp [Coding.body]⟩
  | cons b bs ih =>
      obtain ⟨⟨chunks, last⟩, code, body⟩ := ih (fun x member => each x (List.mem_cons_of_mem _ member))
      have nonempty := (each b List.mem_cons_self).1
      refine ⟨⟨chunkOf b nonempty :: chunks, last⟩, ?_, ?_⟩
      · have first : chunkTexts (b :: bs) = (chunkOf b nonempty).encode ++ chunkTexts bs := by
          rw [chunkOf_encode]
          rfl
        rw [first, List.append_assoc, code, Coding.encode_cons]
        rfl
      · rw [Coding.body_cons, body]
        rfl

/-! ### The end-of-data handler -/

/-- What may happen between the two loops. The end-of-data handler changes the headers only while
nothing has been sent. -/
structure Handled (q q' : Exchange τ) : Prop where
  conn : q'.conn = q.conn
  calls : q'.calls = q.calls
  write : q'.write = { q.write with dataLocked := q'.write.dataLocked } ∨
    q.write.status = .nothing ∧ q'.write.status = .nothing ∧ q'.write.remainSendBlockBytes = 0

theorem Handled.emitted {q q' : Exchange τ} {blocks : List Bytes} (handled : Handled q q')
    (emitted : Emitted texts base q.write q.conn.output blocks) :
    Emitted texts base q'.write q'.conn.output blocks := by
  rw [handled.conn]
  rcases handled.write with same | ⟨fresh, fresh', idle⟩
  · rw [same]
    exact emitted.relock _
  · cases emitted with
    | nothing status _ sent => exact .nothing fresh' idle sent
    | heads status hasbody loaded sent =>
        rw [fresh] at status
        cases status
    | body status headed hasbody loaded each sent =>
        rw [fresh] at status
        cases status
    | last status headed hasbody loaded each sent =>
        rw [fresh] at status
        cases status
    | nobody status headed hasbody loaded sent =>
        rw [fresh] at status
        cases status

/-! ### `send_remaining_response` -/

/-- An answer `send_remaining_response` takes for what it is. It looks at `*wlen` alone, and takes
no data for the end of the response. -/
def Heeded (a : IoAnswer) : Prop := a.produced = .error ∨ a.failed = false ∧ a.produced ≠ .bytes []

instance (a : IoAnswer) : Decidable (Heeded a) := inferInstanceAs (Decidable (_ ∨ _))

/-- What `send_remaining_response` leaves behind, with the calls made by it. -/
structure RestEmitted (texts : Texts) (base : Bytes) (new : List (IoCall × IoAnswer))
    (out : CiRet × Exchange τ) : Prop where
  wire : OnWire texts base out.2
  whole : out.1 = .ok → out.2.write.responceHasbody = true → ∃ t k, Headed texts out.2.write t ∧
    out.2.conn.output = base ++ t ++ Coding.encode k ∧ k.body = producedData out.2.calls
  failure : ∀ c ∈ new, c.2.reported = true → out.1 = .error
  before : ∀ c ∈ new.dropLast, c.2.reported = false

/-- A state of the loop whose calls have all been taken for what they are. -/
structure RestOpen (texts : Texts) (base : Bytes) (new : List (IoCall × IoAnswer)) (q : Exchange τ) :
    Prop where
  emitted : ∃ blocks, Emitted texts base q.write q.conn.output blocks ∧ producedData q.calls = blocks.flatten
  quiet : ∀ c ∈ new, c.2.reported = false

theorem RestOpen.error {new : List (IoCall × IoAnswer)} {q : Exchange τ} (state : RestOpen texts base new q) :
    RestEmitted texts base new (.error, q) := by
  obtain ⟨blocks, emitted, produced⟩ := state.emitted
  exact ⟨emitted.onWire (produced ▸ List.prefix_rfl), fun ok => (nomatch ok), fun _ _ _ => rfl,
    fun c member => state.quiet c (List.mem_of_mem_dropLast member)⟩

/-- The response is over once its last block has been sent. -/
theorem RestOpen.finished {new : List (IoCall × IoAnswer)} {q : Exchange τ} (state : RestOpen texts base new q)
    (status : q.write.status = .eof) (idle : q.write.remainSendBlockBytes = 0) :
    RestEmitted texts base new (.ok, q) := by
  obtain ⟨blocks, emitted, produced⟩ := state.emitted
  refine ⟨emitted.onWire (produced ▸ List.prefix_rfl), fun _ hasbody => ?_, fun c member reported => ?_,
    fun c member => state.quiet c (List.mem_of_mem_dropLast member)⟩
  · cases emitted with
    | nothing status' _ sent =>
        rw [status] at status'
        cases status'
    | heads status' hasbody loaded sent =>
        rw [status] at status'
        cases status'
    | body status' headed hasbody loaded each sent =>
        rw [status] at status'
        cases status'
    | @last t _ l status' headed hasbody' loaded each sent =>
        obtain ⟨k, code, body⟩ := chunkTexts_coding blocks l each
        rw [pending_idle idle, List.append_nil, code] at sent
        exact ⟨t, k, headed, sent, body.trans produced.symm⟩
    | nobody status' headed hasbody' loaded sent =>
        rw [hasbody'] at hasbody
        cases hasbody
  · rw [state.quiet c member] at reported
    cases reported

/-- Where the loop can be: either a call was not taken for what it is, or the wire is in order. -/
def RestState (texts : Texts) (base : Bytes) (old : List (IoCall × IoAnswer)) (q : Exchange τ) : Prop :=
  ∃ new, q.calls = old ++ new ∧ ((∃ c ∈ new, ¬ Heeded c.2) ∨ RestOpen texts base new q)

def RestResult (texts : Texts) (base : Bytes) (old : List (IoCall × IoAnswer)) (out : CiRet × Exchange τ) :
    Prop :=
  ∃ new, out.2.calls = old ++ new ∧ ((∃ c ∈ new, ¬ Heeded c.2) ∨ RestEmitted texts base new out)

theorem reported_append {new : List (IoCall × IoAnswer)} {c : IoCall × IoAnswer}
    (quiet : ∀ c ∈ new, c.2.reported = false) (last : c.2.reported = false) :
    ∀ d ∈ new ++ [c], d.2.reported = false := by
  intro d member
  rcases List.mem_append.mp member with old | new
  · exact quiet d old
  · rw [List.mem_singleton.mp new]
    exact last

theorem frameBody_status (original : Int) (w : WriteSide) :
    (frameBody original w).status = w.status ∨ (frameBody original w).status = .eof := by
  have same := formatBodyChunk_same original w
  simp only [frameBody]
  split
  · exact .inr rfl
  · rename_i result
    rw [result] at same
    exact .inl same.status

theorem Exchange.call_spec {q q' : Exchange τ} {offset : Nat} {c : IoCall} {a : IoAnswer}
    (call : q.call m offset c = (a, q')) :
    (m.io q.data c).1 = a ∧ q'.read = q.read ∧ q'.conn = q.conn ∧ q'.calls = q.calls ++ [(c, a)] ∧
      q'.write = { q.write with wbuf := q.write.wbuf.write offset a.produced.data, dataLocked := a.dataLocked } := by
  simp only [Exchange.call, Prod.mk.injEq] at call
  obtain ⟨rfl, rfl⟩ := call
  exact ⟨rfl, rfl, rfl, rfl, rfl⟩

/-- The answer to a refill is framed, or ends the loop with an error. -/
theorem sendTake_heeded {blocks : List Bytes} {q q' : Exchange τ} {a : IoAnswer}
    (emitted : Emitted texts base q.write q.conn.output blocks) (produced : producedData q.calls = blocks.flatten)
    (body : q.write.status = .body) (idle : q.write.remainSendBlockBytes = 0)
    (call : q.call m extraChunkSize (sendCall q) = (a, q')) (heeded : Heeded a) :
    (∃ w blocks', sendTake q' a = .next { q' with write := w } ∧ a.reported = false ∧
      Emitted texts base w q'.conn.output blocks' ∧ producedData q'.calls = blocks'.flatten ∧
      (w.status = .body ∨ w.status = .eof)) ∨
    sendTake q' a = .done (.error, { q' with write := q'.write.refilled a }) := by
  obtain ⟨answer, -, conn, calls, write⟩ := Exchange.call_spec call
  have filling := emitted.filling body idle
  have status : (q'.write.refilled a).status = .body := by
    rw [write]
    exact body
  have kept := frameBody_status q'.read.i206UseOriginalBody (q'.write.refilled a)
  rw [status] at kept
  have log : producedData q'.calls = blocks.flatten ++ a.output := by rw [calls, producedData_append, produced]
  by_cases error : a.produced = .error
  · exact .inr (by simp [sendTake, WriteSide.refilled, error, Produced.length])
  · obtain ⟨works, some⟩ := heeded.resolve_left error
    have quiet : a.reported = false := by simp [IoAnswer.reported, works, error]
    have output : q'.conn.output = q.conn.output := by rw [conn]
    rw [output, log]
    cases done : a.produced with
    | error => exact absurd done error
    | untouched =>
        have failed := m.touched q.data (sendCall q) (by rw [answer, done])
        rw [answer, works] at failed
        cases failed
    | eof =>
        refine .inl ⟨frameBody q'.read.i206UseOriginalBody (q'.write.refilled a), blocks, ?_, quiet, ?_, ?_, kept⟩
        · simp [sendTake, WriteSide.refilled, done, Produced.length, ciEof]
        · obtain ⟨t, headed, sent⟩ := filling.sent
          refine frameBody_last (t := t) _ ?_ ?_ ?_ filling.each sent
          · rw [write]
            exact headed
          · rw [write]
            exact filling.hasbody
          · rw [WriteSide.refilled, done, Produced.length]
        · simp [IoAnswer.output, done, Produced.data]
    | bytes data =>
        have nonempty : data ≠ [] := fun empty => some (by rw [done, empty])
        have positive := List.length_pos_iff.mpr nonempty
        have small : data.length ≤ maxChunkSize :=
          m.room q.data (sendCall q) data (by rw [answer, done])
        refine .inl ⟨frameBody q'.read.i206UseOriginalBody (q'.write.refilled a), blocks ++ [data], ?_, quiet, ?_, ?_,
          kept⟩
        · have count : (q'.write.refilled a).remainSendBlockBytes = data.length := by
            rw [WriteSide.refilled, done, Produced.length]
          simp only [sendTake, count]
          rw [if_neg (by omega), if_neg (by omega)]
        · refine Filling.data ?_ _ nonempty
          have added := filling.add data a.dataLocked (by simpa using small)
          refine ⟨status, ?_, ?_, ?_, small, filling.each, ?_⟩
          · rw [write]
            exact filling.hasbody
          · rw [WriteSide.refilled, done, Produced.length]
          · simp only [WriteSide.refilled, write, done, Produced.data]
            simpa using added.filled
          · obtain ⟨t, headed, sent⟩ := filling.sent
            refine ⟨t, ?_, sent⟩
            rw [write]
            exact headed
        · simp [IoAnswer.output, works, done, Produced.data]

theorem sendTake_calls (q : Exchange τ) (a : IoAnswer) :
    (sendTake q a).All (fun q' => q'.calls = q.calls) (fun out => out.2.calls = q.calls) := by
  simp only [sendTake]
  split
  · rfl
  · split <;> rfl

theorem sendUpdate_calls (q : Exchange τ) :
    (sendUpdate texts q).All (fun q' => q'.calls = q.calls) (fun out => out.2.calls = q.calls) := by
  simp only [sendUpdate]
  split <;> rfl

/-- The calls of the service are only added to. -/
theorem sendStep_calls (q : Exchange τ) :
    (sendStep texts m q).All (fun q' => q.calls <+: q'.calls) (fun out => q.calls <+: out.2.calls) := by
  simp only [sendStep]
  split
  · split
    · split <;> exact List.prefix_rfl
    · exact List.prefix_rfl
  · have filled : (sendFill m q).All (fun q' => q.calls <+: q'.calls) (fun out => q.calls <+: out.2.calls) := by
      simp only [sendFill]
      split
      · exact (sendTake_calls _ _).imp (fun _ same => ⟨_, same.symm⟩) (fun _ same => ⟨_, same.symm⟩)
      · exact List.prefix_rfl
    refine filled.bind (fun q' grown => ?_)
    exact (sendUpdate_calls q').imp (fun _ same => same ▸ grown) (fun _ same => same ▸ grown)

/-- The next block is taken, or the response is over. -/
theorem sendUpdate_state {old new : List (IoCall × IoAnswer)} {q : Exchange τ} (calls : q.calls = old ++ new)
    (state : RestOpen texts base new q)
    (ready : q.write.remainSendBlockBytes = 0 ∨ q.write.status = .body ∨ q.write.status = .eof) :
    (sendUpdate texts q).All (RestState texts base old) (RestResult texts base old) := by
  obtain ⟨blocks, emitted, produced⟩ := state.emitted
  obtain ⟨emitted', answer⟩ := emitted.update ready
  simp only [sendUpdate]
  split
  · rename_i w updated
    rw [updated] at answer
    rcases answer with ok | ⟨eof, -, -⟩
    · cases ok
    · cases eof
  · rename_i w updated
    rw [updated] at answer emitted'
    rcases answer with ok | ⟨-, status, idle⟩
    · cases ok
    · exact ⟨new, calls, .inr (RestOpen.finished (q := { q with write := w })
        ⟨⟨blocks, emitted', produced⟩, state.quiet⟩ status idle)⟩
  · rename_i w _ _ updated
    rw [updated] at emitted'
    exact ⟨new, calls, .inr ⟨⟨blocks, emitted', produced⟩, state.quiet⟩⟩

/-- A refill of `wbuf` keeps the wire in order, as long as its answer is heeded. -/
theorem sendRefill_state {old new : List (IoCall × IoAnswer)} {q : Exchange τ} (calls : q.calls = old ++ new)
    (state : RestOpen texts base new q) (idle : q.write.remainSendBlockBytes = 0) :
    (sendRefill texts m q).All (RestState texts base old) (RestResult texts base old) := by
  by_cases body : q.write.status = .body
  · obtain ⟨blocks, emitted, produced⟩ := state.emitted
    cases call : q.call m extraChunkSize (sendCall q) with
    | mk a q' =>
        obtain ⟨-, -, conn, calls', write⟩ := Exchange.call_spec call
        have grown : q'.calls = old ++ (new ++ [(sendCall q, a)]) := by
          rw [calls', calls, List.append_assoc]
        have fill : sendFill m q = sendTake q' a := by
          simp only [sendFill, if_pos body, call]
        rw [sendRefill, fill]
        by_cases heeded : Heeded a
        · rcases sendTake_heeded emitted produced body idle call heeded with
            ⟨w, blocks', next, quiet, emitted', produced', status⟩ | done
          · rw [next]
            exact sendUpdate_state (q := { q' with write := w }) grown
              ⟨⟨blocks', emitted', produced'⟩, reported_append state.quiet quiet⟩ (.inr status)
          · rw [done]
            refine ⟨new ++ [(sendCall q, a)], grown, .inr ⟨?_, fun ok => (nomatch ok), fun _ _ _ => rfl, ?_⟩⟩
            swap
            · rw [List.dropLast_concat]
              exact state.quiet
            have part : blocks.flatten <+: producedData q'.calls := by
              rw [calls', producedData_append, produced]
              exact List.prefix_append _ _
            obtain ⟨t, blocks', tail, headed, sent, each, ended, part'⟩ :=
              emitted.onWire (q := q) (produced ▸ List.prefix_rfl)
            refine ⟨t, blocks', tail, ?_, ?_, each, ended, part'.trans (produced ▸ part)⟩
            · rcases headed with none | some
              · exact .inl none
              · refine .inr ?_
                simp only [Headed, WriteSide.refilled, write]
                exact some
            · simp only [conn]
              exact sent
        · have bad : ∃ c ∈ new ++ [(sendCall q, a)], ¬ Heeded c.2 :=
            ⟨(sendCall q, a), List.mem_append_right _ (List.mem_singleton.mpr rfl), heeded⟩
          have first : (sendTake q' a).All (fun q'' => q''.calls = q'.calls) (RestResult texts base old) :=
            (sendTake_calls q' a).imp (fun _ same => same)
              (fun out same => ⟨new ++ [(sendCall q, a)], same.trans grown, .inl bad⟩)
          refine first.bind (fun q'' same => ?_)
          exact (sendUpdate_calls q'').imp
            (fun _ same' => ⟨new ++ [(sendCall q, a)], (same'.trans same).trans grown, .inl bad⟩)
            (fun _ same' => ⟨new ++ [(sendCall q, a)], (same'.trans same).trans grown, .inl bad⟩)
  · have fill : sendFill m q = .next q := by rw [sendFill, if_neg body]
    rw [sendRefill, fill]
    exact sendUpdate_state calls state (.inl idle)

/-- A step of `send_remaining_response` keeps the wire in order. -/
theorem sendStep_state {old : List (IoCall × IoAnswer)} {q : Exchange τ} (state : RestState texts base old q) :
    (sendStep texts m q).All (RestState texts base old) (RestResult texts base old) := by
  obtain ⟨new, calls, bad | open_⟩ := state
  · have keep : ∀ calls' : List (IoCall × IoAnswer), q.calls <+: calls' →
        ∃ more, calls' = old ++ (new ++ more) ∧ ∃ c ∈ new ++ more, ¬ Heeded c.2 := by
      rintro calls' ⟨more, grown⟩
      obtain ⟨c, member, unheeded⟩ := bad
      exact ⟨more, by rw [← grown, calls, List.append_assoc], c, List.mem_append_left _ member, unheeded⟩
    refine (sendStep_calls q).imp (fun q' grown => ?_) (fun out grown => ?_)
    · obtain ⟨more, whole, bad'⟩ := keep _ grown
      exact ⟨new ++ more, whole, .inl bad'⟩
    · obtain ⟨more, whole, bad'⟩ := keep _ grown
      exact ⟨new ++ more, whole, .inl bad'⟩
  · obtain ⟨blocks, emitted, produced⟩ := open_.emitted
    simp only [sendStep]
    split
    · split
      · rename_i read res conn wait
        have output : conn.output = q.conn.output := by
          rw [Connection.waitForData_frame wait]
        have waited : Emitted texts base q.write conn.output blocks := output ▸ emitted
        split
        · exact ⟨new, calls, .inr (RestOpen.error (q := { q with conn := conn })
            ⟨⟨blocks, waited, produced⟩, open_.quiet⟩)⟩
        · rename_i w conn' sent
          exact ⟨new, calls, .inr ⟨⟨blocks, waited.send sent, produced⟩, open_.quiet⟩⟩
      · rename_i conn _ wait
        have output : conn.output = q.conn.output := by
          rw [Connection.waitForData_frame wait]
        exact ⟨new, calls, .inr (RestOpen.error (q := { q with conn := conn })
          ⟨⟨blocks, output ▸ emitted, produced⟩, open_.quiet⟩)⟩
    · rename_i none
      have idle : q.write.remainSendBlockBytes = 0 := by
        have count := emitted.count_nonneg
        omega
      exact sendRefill_state calls open_ idle

/-- What `send_remaining_response` returns, from a response whose wire is in order. -/
theorem sendRemainingResponse_result {old : List (IoCall × IoAnswer)} {q : Exchange τ} {fuel : Nat}
    {out : CiRet × Exchange τ} (calls : q.calls = old) (state : RestOpen texts base [] q)
    (result : sendRemainingResponse texts m fuel q = some out) : RestResult texts base old out := by
  simp only [sendRemainingResponse] at result
  split at result
  · rename_i finished
    cases result
    exact ⟨[], by simp [calls], .inr (state.finished finished.1 finished.2)⟩
  · exact run_post (sendStep texts m) (RestState texts base old) (RestResult texts base old)
      (fun s state => sendStep_state state) fuel q out ⟨[], by simp [calls], .inr state⟩ result

/-! ### The pair -/

/-- What holds of the wire and of the calls of a loop while it goes on. -/
structure Sending (texts : Texts) (base : Bytes) (calls : List (IoCall × IoAnswer)) (q : Exchange τ) : Prop where
  wire : OnWire texts base q
  quiet : ∀ c ∈ calls, c.2.reported = false

/-- What holds when a loop returns: an error that the service reported is the result, and nothing
was done behind it. -/
structure Returned (texts : Texts) (base : Bytes) (calls : List (IoCall × IoAnswer)) (out : CiRet × Exchange τ) :
    Prop where
  wire : OnWire texts base out.2
  failure : ∀ c ∈ calls, c.2.reported = true → out.1 = .error
  before : ∀ c ∈ calls.dropLast, c.2.reported = false

/-- An error is reported to `get_send_body` in the return value. -/
def Signalled (a : IoAnswer) : Prop := a.produced = .error → a.failed = true

instance (a : IoAnswer) : Decidable (Signalled a) := inferInstanceAs (Decidable (_ → _))

theorem Signalled.reported {a : IoAnswer} (signalled : Signalled a) (works : a.failed = false) :
    a.reported = false := by
  have none : a.produced ≠ .error := by
    intro error
    rw [signalled error] at works
    cases works
  simp [IoAnswer.reported, works, none]

theorem Signalled.failed {a : IoAnswer} (signalled : Signalled a) (reported : a.reported = true) :
    a.failed = true := by
  cases works : a.failed with
  | true => rfl
  | false =>
      rw [signalled.reported works] at reported
      cases reported

/-- The body of the response is what the service produced, for every service that reports its
errors where the loops look for them and always has data or an end. -/
theorem response_is_produced (texts : Texts) (m : IoModule τ) (fuel : Nat) (q : Exchange τ)
    (fresh : q.calls = []) (idle : q.write.remainSendBlockBytes = 0) :
    (∀ s, Visits (bodyStep texts m fuel) (.start q) s → (∀ c ∈ s.q.calls, Signalled c.2) →
      Sending texts q.conn.output s.q.calls s.q) ∧
    (∀ out, getSendBody texts m fuel q = some out → (∀ c ∈ out.2.calls, Signalled c.2) →
      Returned texts q.conn.output out.2.calls out) ∧
    ∀ q1 q2, getSendBody texts m fuel q = some (.ok, q1) → Handled q1 q2 →
      (∀ s, Visits (sendStep texts m) q2 s → (∀ c ∈ s.calls.drop q1.calls.length, Heeded c.2) →
        Sending texts q.conn.output (s.calls.drop q1.calls.length) s) ∧
      ∀ fuel out, sendRemainingResponse texts m fuel q2 = some out →
        (∀ c ∈ out.2.calls.drop q1.calls.length, Heeded c.2) →
        Returned texts q.conn.output (out.2.calls.drop q1.calls.length) out ∧
        (out.1 = .ok → out.2.write.responceHasbody = true → ∃ t k, Headed texts out.2.write t ∧
          out.2.conn.output = q.conn.output ++ t ++ Coding.encode k ∧ k.body = producedData out.2.calls) := by
  have start : LoopOpen texts q.conn.output (.start q) := by
    refine ⟨.settled [] (.nothing rfl idle rfl) ?_ (fun inner => (nomatch inner)), ?_⟩
    · simp [BodyLoop.start, fresh, producedData]
    · simp [BodyLoop.start, fresh, Working]
  refine ⟨fun s visited signalled => ?_, fun out result signalled => ?_, fun q1 q2 result handled => ?_⟩
  · obtain ⟨emitted, works⟩ := visited.inv (fun s state => bodyStep_emitted state) start
    exact ⟨(emitted.begun rfl rfl rfl List.prefix_rfl).onWire,
      fun c member => (signalled c member).reported (works c member)⟩
  · have done := getSendBody_emitted fresh idle result
    exact ⟨done.wire.onWire, fun c member reported => done.failure c member ((signalled c member).failed reported),
      fun c member => (signalled c (List.mem_of_mem_dropLast member)).reported (done.before c member)⟩
  · obtain ⟨blocks, emitted, produced⟩ := (getSendBody_emitted fresh idle result).whole rfl
    have state : RestOpen texts q.conn.output [] q2 := by
      refine ⟨⟨blocks, handled.emitted emitted, ?_⟩, by simp⟩
      rw [handled.calls]
      exact produced
    refine ⟨fun s visited heeded => ?_, fun fuel out result' heeded => ?_⟩
    · obtain ⟨new, calls, kept⟩ := visited.inv (fun s state => sendStep_state state)
        (⟨[], by simp [handled.calls], .inr state⟩ : RestState texts q.conn.output q1.calls q2)
      rw [calls, List.drop_left] at heeded ⊢
      rcases kept with ⟨c, member, unheeded⟩ | open_
      · exact absurd (heeded c member) unheeded
      · obtain ⟨blocks', emitted', produced'⟩ := open_.emitted
        exact ⟨emitted'.onWire (produced' ▸ List.prefix_rfl), open_.quiet⟩
    · obtain ⟨new, calls, kept⟩ := sendRemainingResponse_result handled.calls state result'
      rw [calls, List.drop_left] at heeded ⊢
      rcases kept with ⟨c, member, unheeded⟩ | done
      · exact absurd (heeded c member) unheeded
      · exact ⟨⟨done.wire, done.failure, done.before⟩, calls ▸ done.whole⟩

/-- The data is unlocked behind the end-of-data handler. -/
def Exchange.unlockData (q : Exchange τ) : Exchange τ := { q with write := { q.write with dataLocked := false } }

theorem Exchange.unlockData_handled (q : Exchange τ) : Handled q q.unlockData := ⟨rfl, rfl, .inl rfl⟩

/-- The two loops, with nothing to do at the end of the data. -/
def sendBoth (texts : Texts) (m : IoModule τ) (fuel : Nat) (q : Exchange τ) :
    Option ((CiRet × Exchange τ) × (CiRet × Exchange τ)) :=
  (getSendBody texts m fuel q).bind
    (fun first => (sendRemainingResponse texts m fuel first.2.unlockData).map (first, ·))

/-- A service that takes a body of five bytes and answers with two. -/
theorem response_is_produced_hi :
    ∃ q1 q2, sendBoth ⟨fun _ => ascii "ICAP/1.0 200 OK\r\n\r\n"⟩ .scripted 20
        (.fresh (ascii "5\r\nhello\r\n0\r\n\r\n")
          ⟨[], [], [], List.replicate 4 (.ready none (some (.bytes 30)))⟩
          [⟨false, .bytes [], 5, true⟩, ⟨false, .bytes (ascii "hi"), 0, true⟩] true) =
        some ((.ok, q1), (.ok, q2)) ∧
      ∃ t k, q2.conn.output = t ++ Coding.encode k ∧ k.body = ascii "hi" := by
  have computed : (sendBoth ⟨fun _ => ascii "ICAP/1.0 200 OK\r\n\r\n"⟩ .scripted 20
        (.fresh (ascii "5\r\nhello\r\n0\r\n\r\n")
          ⟨[], [], [], List.replicate 4 (.ready none (some (.bytes 30)))⟩
          [⟨false, .bytes [], 5, true⟩, ⟨false, .bytes (ascii "hi"), 0, true⟩] true)).map
      (fun out => (out.1.1, out.2.1, out.2.2.write.responceHasbody, producedData out.2.2.calls,
        (out.2.2.calls.drop out.1.2.calls.length).all (fun c => decide (Heeded c.2)))) =
      some (.ok, .ok, true, ascii "hi", true) := by decide +kernel
  obtain ⟨⟨⟨ret1, q1⟩, ⟨ret2, q2⟩⟩, both, values⟩ := Option.map_eq_some_iff.mp computed
  simp only [Prod.mk.injEq, List.all_eq_true, decide_eq_true_eq] at values
  obtain ⟨rfl, rfl, hasbody, produced, heeded⟩ := values
  obtain ⟨first, one, rest⟩ := Option.bind_eq_some_iff.mp both
  obtain ⟨second, two, same⟩ := Option.map_eq_some_iff.mp rest
  cases same
  obtain ⟨t, k, -, output, body⟩ := ((((response_is_produced _ _ 20 _ rfl rfl).2.2 q1 _ one
    q1.unlockData_handled).2 20 _ two) heeded).2 rfl hasbody
  exact ⟨q1, q2, both, t, k, output, body.trans produced⟩

/-- A service that fails while the rest of its body is asked for: what `wbuf` holds is sent in its
place and the request succeeds. -/
theorem failed_refill_sends_stale_chunk :
    ∃ q1 q2, sendBoth ⟨fun _ => ascii "ICAP/1.0 200 OK\r\n\r\n"⟩ .scripted 20
        (.fresh (ascii "0\r\n\r\n") ⟨[], [], [], List.replicate 4 (.ready none (some (.bytes 5000)))⟩
          [⟨false, .bytes [], 0, true⟩, ⟨true, .untouched, 0, true⟩] true) =
        some ((.ok, q1), (.ok, q2)) ∧
      (∃ c ∈ q2.calls, c.2.failed = true) ∧ producedData q2.calls = [] ∧
      q2.conn.output.take 25 = ascii "ICAP/1.0 200 OK\r\n\r\nfe0\r\n\x00" := by
  have computed : (sendBoth ⟨fun _ => ascii "ICAP/1.0 200 OK\r\n\r\n"⟩ .scripted 20
        (.fresh (ascii "0\r\n\r\n") ⟨[], [], [], List.replicate 4 (.ready none (some (.bytes 5000)))⟩
          [⟨false, .bytes [], 0, true⟩, ⟨true, .untouched, 0, true⟩] true)).map
      (fun out => (out.1.1, out.2.1, out.2.2.calls.any (fun c => c.2.failed), producedData out.2.2.calls,
        out.2.2.conn.output.take 25)) =
      some (.ok, .ok, true, [], ascii "ICAP/1.0 200 OK\r\n\r\nfe0\r\n\x00") := by decide +kernel
  obtain ⟨⟨⟨ret1, q1⟩, ⟨ret2, q2⟩⟩, both, values⟩ := Option.map_eq_some_iff.mp computed
  simp only [Prod.mk.injEq, List.any_eq_true] at values
  obtain ⟨rfl, rfl, failed, produced, output⟩ := values
  exact ⟨q1, q2, both, failed, produced, output⟩

end IcapService
