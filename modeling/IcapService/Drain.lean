import IcapService.Delivery
import IcapService.SendRemaining

/-! `send_remaining_response` with a service that holds the rest of a body.

The loop takes the rest from the service block by block and ends behind the last chunk, unless the
socket fails. -/

namespace IcapService

open CString Machine Chunked

variable {τ : Type} {texts : Texts} {m : IoModule τ} {base : Bytes}

/-- A service that holds `left` answers a call with the front of it, or with the end if nothing is left. -/
def Gives (m : IoModule τ) (Holds : τ → Bytes → Prop) (t : τ) (left : Bytes) (c : IoCall) : Prop :=
  (m.io t c).1.failed = false ∧
    ((left = [] ∧ (m.io t c).1.produced = .eof ∧ Holds (m.io t c).2 []) ∨
      ∃ data left', data ≠ [] ∧ left = data ++ left' ∧ (m.io t c).1.produced = .bytes data ∧
        Holds (m.io t c).2 left')

/-- The service gives away what it holds. -/
def Draining (m : IoModule τ) (ended : Bool) (Holds : τ → Bytes → Prop) : Prop :=
  ∀ t left locked, Holds t left → Gives m Holds t left ⟨some maxChunkSize, none, true, ended, locked⟩

/-! ### The headers of a response with a body -/

/-- The entities of the response; the header of the HTTP request is taken out with the first block. -/
def WriteSide.responceEntities (w : WriteSide) : List Entity :=
  if w.status = .nothing then (mkResponceHeader w).entities else w.entities

/-- The response has a body behind at most two headers. -/
structure WriteSide.Bodied (w : WriteSide) : Prop where
  body : respCheckBody w.responceEntities = true
  heads : ∀ e, w.responceEntities[2]? = some e → e.isHeader = false
  hasbody : w.status ≠ .nothing → w.responceHasbody = true

/-- The blocks that come before the end of a response. -/
def SendStatus.stage : SendStatus → Nat
  | .nothing => 6
  | .resphead => 5
  | .head1 => 4
  | .head2 => 3
  | .head3 => 2
  | .body => 1
  | .eof => 0

namespace WriteSide.Bodied

variable {w w' : WriteSide}

/-- Behind the first block only the list of entities and the body matter. -/
theorem started (bodied : w.Bodied) (status : w.status ≠ .nothing) (status' : w'.status ≠ .nothing)
    (entities : w'.entities = w.entities) (hasbody : w'.responceHasbody = w.responceHasbody) : w'.Bodied where
  body := by
    rw [responceEntities, if_neg status', entities]
    have body := bodied.body
    rwa [responceEntities, if_neg status] at body
  heads := by
    rw [responceEntities, if_neg status', entities]
    have heads := bodied.heads
    rwa [responceEntities, if_neg status] at heads
  hasbody := fun _ => by rw [hasbody, bodied.hasbody status]

theorem same (bodied : w.Bodied) (type : w'.type = w.type) (status : w'.status = w.status)
    (entities : w'.entities = w.entities) (hasbody : w'.responceHasbody = w.responceHasbody) : w'.Bodied := by
  have list : w'.responceEntities = w.responceEntities := by
    simp only [responceEntities, mkResponceHeader, status, type, entities]
    split
    · split
      · split <;> simp [entities]
      · simp [entities]
    · rfl
  exact ⟨list ▸ bodied.body, list ▸ bodied.heads, by rw [status, hasbody]; exact bodied.hasbody⟩

theorem headsOver (bodied : w.Bodied) (status : w.status ≠ .nothing) :
    (headsOver w).2.Bodied ∧ (IcapService.headsOver w).2.status = .body := by
  have hasbody := bodied.hasbody status
  rw [IcapService.headsOver, if_pos hasbody]
  exact ⟨bodied.started status (by simp) rfl rfl, rfl⟩

theorem sendHead (bodied : w.Bodied) (status : w.status ≠ .nothing) (next : SendStatus) (real : next ≠ .nothing)
    (i : Nat) :
    (IcapService.sendHead w next i).2.Bodied ∧ ((IcapService.sendHead w next i).2.status = .body ∨
      (IcapService.sendHead w next i).2.status = next ∧ ∃ e, w.entities[i]? = some e ∧ e.isHeader = true) := by
  have last := bodied.headsOver status
  simp only [IcapService.sendHead]
  split
  · rename_i e entity
    split
    · rename_i header
      exact ⟨bodied.started status real rfl rfl, .inr ⟨rfl, e, entity, header⟩⟩
    · exact ⟨last.1, .inl last.2⟩
  · exact ⟨last.1, .inl last.2⟩

/-- `update_send_status` goes on to the next block, up to the body. -/
theorem update (bodied : w.Bodied) (texts : Texts) :
    (updateSendStatus texts w).2.Bodied ∧
      ((updateSendStatus texts w).2 = w ∧ (w.status = .body ∨ w.status = .eof) ∨
        (updateSendStatus texts w).2.status.stage < w.status.stage ∧
          (updateSendStatus texts w).2.status ≠ .eof) := by
  cases status : w.status with
  | nothing =>
      have list : w.responceEntities = (mkResponceHeader w).entities := if_pos status
      simp only [updateSendStatus, status]
      refine ⟨⟨?_, ?_, ?_⟩, .inr ⟨by simp [SendStatus.stage], by simp⟩⟩
      · rw [responceEntities, if_neg (by simp)]
        exact list ▸ bodied.body
      · rw [responceEntities, if_neg (by simp)]
        exact list ▸ bodied.heads
      · exact fun _ => list ▸ bodied.body
  | body =>
      simp only [updateSendStatus, status]
      exact ⟨bodied, .inl ⟨trivial, .inl trivial⟩⟩
  | eof =>
      simp only [updateSendStatus, status]
      exact ⟨bodied, .inl ⟨trivial, .inr trivial⟩⟩
  | resphead =>
      obtain ⟨bodied', moved⟩ := bodied.sendHead (by simp [status]) .head1 (by simp) 0
      simp only [updateSendStatus, status]
      refine ⟨bodied', .inr ?_⟩
      rcases moved with body | ⟨next, -⟩
      · simp [body, SendStatus.stage]
      · simp [next, SendStatus.stage]
  | head1 =>
      obtain ⟨bodied', moved⟩ := bodied.sendHead (by simp [status]) .head2 (by simp) 1
      simp only [updateSendStatus, status]
      refine ⟨bodied', .inr ?_⟩
      rcases moved with body | ⟨next, -⟩
      · simp [body, SendStatus.stage]
      · simp [next, SendStatus.stage]
  | head2 =>
      obtain ⟨bodied', moved⟩ := bodied.sendHead (by simp [status]) .head3 (by simp) 2
      simp only [updateSendStatus, status]
      refine ⟨bodied', .inr ?_⟩
      rcases moved with body | ⟨next, -⟩
      · simp [body, SendStatus.stage]
      · simp [next, SendStatus.stage]
  | head3 =>
      obtain ⟨bodied', moved⟩ := bodied.sendHead (by simp [status]) .head3 (by simp) 2
      simp only [updateSendStatus, status]
      refine ⟨bodied', .inr ?_⟩
      rcases moved with body | ⟨-, e, entity, header⟩
      · simp [body, SendStatus.stage]
      · have list : w.responceEntities = w.entities := if_neg (by simp [status])
        rw [bodied.heads e (list ▸ entity)] at header
        cases header

theorem frame (bodied : w.Bodied) (status : w.status ≠ .nothing) (original : Int) :
    (frameBody original w).Bodied := by
  have same := formatBodyChunk_same original w
  simp only [frameBody]
  split
  · rename_i w' result
    rw [result] at same
    exact bodied.started status (by simp) same.entities same.hasbody
  · rename_i w' _ result
    rw [result] at same
    exact bodied.started status (by rw [same.status]; exact status) same.entities same.hasbody

end WriteSide.Bodied

/-! ### The loop -/

/-- A response of which `total` is the body and the service holds what has not been produced. -/
structure Remaining (texts : Texts) (base : Bytes) (ended : Bool) (Holds : τ → Bytes → Prop) (code : Ec)
    (total : Bytes) (q : Exchange τ) : Prop where
  wire : ∃ blocks, Emitted texts base q.write q.conn.output blocks ∧ producedData q.calls = blocks.flatten
  left : ∃ left, Holds q.data left ∧ producedData q.calls ++ left = total ∧ (q.write.status = .eof → left = [])
  bodied : q.write.Bodied
  received : q.read.eofReceived = ended
  code : q.write.returnCode = code

/-- The socket does not take the current block: the wait or the write fails. -/
def Exchange.Broken (q : Exchange τ) : Prop :=
  0 < q.write.remainSendBlockBytes ∧
    ∀ read n conn, q.conn.waitForData .forWrite ≠ (some (read, some (.bytes n)), conn)

/-- The whole response has been sent. -/
def Answered (texts : Texts) (base : Bytes) (code : Ec) (total : Bytes) (out : CiRet × Exchange τ) : Prop :=
  out.1 = .ok ∧ out.2.write.returnCode = code ∧ ∃ t k, Headed texts out.2.write t ∧
    out.2.conn.output = base ++ t ++ Coding.encode k ∧ k.body = total

/-- What is left to do: events of the socket, data of the service and blocks of the response. -/
def Exchange.work (total : Bytes) (q : Exchange τ) : Nat :=
  q.conn.sched.length + (total.length - (producedData q.calls).length) + q.write.status.stage

variable {ended : Bool} {Holds : τ → Bytes → Prop} {code : Ec} {total : Bytes}

theorem updateSendStatus_code (texts : Texts) (w : WriteSide) :
    (updateSendStatus texts w).2.returnCode = w.returnCode := by
  have last : (headsOver w).2.returnCode = w.returnCode := by
    simp only [headsOver]
    split <;> rfl
  have head : ∀ status i, (sendHead w status i).2.returnCode = w.returnCode := by
    intro status i
    simp only [sendHead]
    split
    · split
      · rfl
      · exact last
    · exact last
  cases status : w.status with
  | nothing =>
      simp only [updateSendStatus, status, mkResponceHeader]
      split
      · split <;> rfl
      · rfl
  | body => simp only [updateSendStatus, status]
  | eof => simp only [updateSendStatus, status]
  | resphead => simpa only [updateSendStatus, status] using head .head1 0
  | head1 => simpa only [updateSendStatus, status] using head .head2 1
  | head2 => simpa only [updateSendStatus, status] using head .head3 2
  | head3 => simpa only [updateSendStatus, status] using head .head3 2

theorem Remaining.answered {q : Exchange τ} (state : Remaining texts base ended Holds code total q)
    (status : q.write.status = .eof) (idle : q.write.remainSendBlockBytes = 0) :
    Answered texts base code total (.ok, q) := by
  obtain ⟨left, holds, whole, none⟩ := state.left
  obtain ⟨blocks, emitted, produced⟩ := state.wire
  have open_ : RestOpen texts base [] q := ⟨⟨blocks, emitted, produced⟩, by simp⟩
  obtain ⟨t, k, headed, sent, body⟩ :=
    (open_.finished status idle).whole rfl (state.bodied.hasbody (by simp [status]))
  rw [none status, List.append_nil] at whole
  exact ⟨rfl, state.code, t, k, headed, sent, body.trans whole⟩

/-- A write to the socket. -/
theorem Remaining.send {q : Exchange τ} {w : WriteSide} {c c' : Connection} {n : Nat}
    (state : Remaining texts base ended Holds code total q) (output : c.output = q.conn.output)
    (sent : sendCurrentBlockData q.write c (.bytes n) = some (w, c')) :
    Remaining texts base ended Holds code total { q with write := w, conn := c' } ∧ w.status = q.write.status := by
  obtain ⟨blocks, emitted, produced⟩ := state.wire
  have waited : Emitted texts base q.write c.output blocks := output ▸ emitted
  have same : w.type = q.write.type ∧ w.status = q.write.status ∧ w.entities = q.write.entities ∧
      w.responceHasbody = q.write.responceHasbody ∧ w.returnCode = q.write.returnCode := by
    simp only [sendCurrentBlockData] at sent
    split at sent
    · cases sent
      exact ⟨rfl, rfl, rfl, rfl, rfl⟩
    · cases sent
      exact ⟨rfl, rfl, rfl, rfl, rfl⟩
  obtain ⟨type, status, entities, hasbody, code'⟩ := same
  refine ⟨⟨⟨blocks, waited.send sent, produced⟩, ?_, state.bodied.same type status entities hasbody,
    state.received, code'.trans state.code⟩, status⟩
  obtain ⟨left, holds, whole, none⟩ := state.left
  exact ⟨left, holds, whole, fun last => none (status ▸ last)⟩

/-- The next block is taken, or the response is over. -/
theorem Remaining.update {q : Exchange τ} (state : Remaining texts base ended Holds code total q)
    (ready : q.write.remainSendBlockBytes = 0 ∨ q.write.status = .body ∨ q.write.status = .eof) :
    (∃ q', sendUpdate texts q = .next q' ∧ Remaining texts base ended Holds code total q' ∧
      (q'.work total < q.work total ∨ q' = q ∧ (q.write.status = .body ∨ q.write.status = .eof))) ∨
    ∃ out, sendUpdate texts q = .done out ∧ Answered texts base code total out := by
  obtain ⟨blocks, emitted, produced⟩ := state.wire
  obtain ⟨emitted', answer⟩ := emitted.update ready
  obtain ⟨bodied, moved⟩ := state.bodied.update texts
  have code' : (updateSendStatus texts q.write).2.returnCode = q.write.returnCode := updateSendStatus_code texts _
  obtain ⟨left, holds, whole, none⟩ := state.left
  cases updated : updateSendStatus texts q.write with
  | mk ret w =>
      rw [updated] at emitted' answer bodied moved code'
      have next : ret = .ok → sendUpdate texts q = .next { q with write := w } := by
        rintro rfl
        simp only [sendUpdate, updated]
      rcases moved with ⟨same, last⟩ | ⟨less, open_⟩
      · replace same : w = q.write := same
        rcases answer with ok | ⟨eof, status, idle⟩
        · subst same
          exact .inl ⟨q, next ok, state, .inr ⟨rfl, last⟩⟩
        · right
          subst same
          replace eof : ret = .eof := eof
          subst eof
          exact ⟨(.ok, q), by simp only [sendUpdate, updated], state.answered status idle⟩
      · left
        replace less : w.status.stage < q.write.status.stage := less
        rcases answer with ok | ⟨-, status, -⟩
        · refine ⟨_, next ok, ⟨⟨blocks, emitted', produced⟩, ⟨left, holds, whole, fun eof => absurd eof open_⟩, bodied,
            state.received, code'.trans state.code⟩, .inl ?_⟩
          simp only [Exchange.work]
          omega
        · exact absurd status open_

theorem frameBody_code (original : Int) (w : WriteSide) : (frameBody original w).returnCode = w.returnCode := by
  have same := formatBodyChunk_same original w
  simp only [frameBody]
  split
  · rename_i result
    rw [result] at same
    exact same.returnCode
  · rename_i result
    rw [result] at same
    exact same.returnCode

theorem frameBody_data_status (original : Int) {w : WriteSide} (hasbody : w.responceHasbody = true)
    (some : 0 < w.remainSendBlockBytes) : (frameBody original w).status = w.status := by
  have body : ¬ w.responceHasbody = false := by simp [hasbody]
  simp only [frameBody, formatBodyChunk]
  rw [if_neg body, if_pos some]
  rfl

theorem frameBody_eof_status (original : Int) {w : WriteSide} (hasbody : w.responceHasbody = true)
    (eof : w.remainSendBlockBytes = ciEof) : (frameBody original w).status = .eof := by
  have body : ¬ w.responceHasbody = false := by simp [hasbody]
  have none : ¬ 0 < w.remainSendBlockBytes := by simp [eof, ciEof]
  simp only [frameBody, formatBodyChunk]
  rw [if_neg body, if_neg none, if_pos eof]

/-- An answer that is neither an error nor empty is framed. -/
theorem sendTake_next (q : Exchange τ) (a : IoAnswer) (works : a.produced.length maxChunkSize ≠ -1)
    (some : a.produced.length maxChunkSize ≠ 0) :
    sendTake q a = .next { q with write := frameBody q.read.i206UseOriginalBody (q.write.refilled a) } :=
  (if_neg works).trans (if_neg some)

/-- A refill takes data from the service, or ends the body. -/
theorem Remaining.refill {q : Exchange τ} (draining : Draining m ended Holds)
    (state : Remaining texts base ended Holds code total q) (body : q.write.status = .body)
    (idle : q.write.remainSendBlockBytes = 0) :
    ∃ q', sendFill m q = .next q' ∧ Remaining texts base ended Holds code total q' ∧
      q'.work total < q.work total ∧ (q'.write.status = .body ∨ q'.write.status = .eof) := by
  obtain ⟨blocks, emitted, produced⟩ := state.wire
  obtain ⟨left, holds, whole, -⟩ := state.left
  have answers : Gives m Holds q.data left (sendCall q) := by
    have gives := draining q.data left q.write.dataLocked holds
    rwa [← state.received] at gives
  have fill : sendFill m q = sendTake (q.call m extraChunkSize (sendCall q)).2 (m.io q.data (sendCall q)).1 := by
    simp only [sendFill, if_pos body, Exchange.call]
  cases call : q.call m extraChunkSize (sendCall q) with
  | mk a q1 =>
      obtain ⟨answer, read, conn, calls, write⟩ := Exchange.call_spec call
      have data : q1.data = (m.io q.data (sendCall q)).2 := by
        simp only [Exchange.call, Prod.mk.injEq] at call
        rw [← call.2]
      have hasbody : (q1.write.refilled a).responceHasbody = true := by
        rw [write]
        exact state.bodied.hasbody (by simp [body])
      have status : (q1.write.refilled a).status = .body := by
        rw [write]
        exact body
      have bodied : (frameBody q1.read.i206UseOriginalBody (q1.write.refilled a)).Bodied := by
        refine WriteSide.Bodied.frame (state.bodied.same ?_ ?_ ?_ ?_) (by simp [status]) _ <;>
          simp only [write, WriteSide.refilled]
      have code' : (frameBody q1.read.i206UseOriginalBody (q1.write.refilled a)).returnCode = code := by
        rw [frameBody_code]
        simp only [write, WriteSide.refilled]
        exact state.code
      rw [Gives, ← data, answer] at answers
      rw [call, answer] at fill
      have received : q1.read.eofReceived = ended := read ▸ state.received
      obtain ⟨works, ⟨none, eof, holds'⟩ | ⟨block, left', some, front, bytes, holds'⟩⟩ := answers
      · have next := sendTake_next q1 a (by simp [eof, Produced.length, ciEof]) (by simp [eof, Produced.length, ciEof])
        obtain ⟨w, blocks', taken, -, emitted', produced', -⟩ | error := sendTake_heeded emitted produced body idle call
          (.inr ⟨works, by simp [eof]⟩)
        · rw [next, Step.next.injEq, Exchange.mk.injEq] at taken
          obtain ⟨-, rfl, -⟩ := taken
          have log : producedData q1.calls = producedData q.calls := by
            rw [calls, producedData_append]
            simp [IoAnswer.output, eof, Produced.data]
          have ending := frameBody_eof_status q1.read.i206UseOriginalBody hasbody
            (by simp [WriteSide.refilled, eof, Produced.length])
          refine ⟨_, fill.trans next, ⟨⟨blocks', emitted', produced'⟩, ⟨[], holds', ?_, fun _ => rfl⟩, bodied,
            received, code'⟩, ?_, .inr ending⟩
          · rw [log, ← whole, none]
          · simp only [Exchange.work, ending, conn, log, body, SendStatus.stage]
            omega
        · rw [next] at error
          cases error
      · have positive := List.length_pos_iff.mpr some
        have next := sendTake_next q1 a (by simp only [bytes, Produced.length]; omega)
          (by simp only [bytes, Produced.length]; omega)
        obtain ⟨w, blocks', taken, -, emitted', produced', -⟩ | error := sendTake_heeded emitted produced body idle call
          (.inr ⟨works, by simp [bytes, some]⟩)
        · rw [next, Step.next.injEq, Exchange.mk.injEq] at taken
          obtain ⟨-, rfl, -⟩ := taken
          have log : producedData q1.calls = producedData q.calls ++ block := by
            rw [calls, producedData_append]
            simp [IoAnswer.output, works, bytes, Produced.data]
          have staying := frameBody_data_status q1.read.i206UseOriginalBody hasbody
            (by simp only [WriteSide.refilled, bytes, Produced.length]; omega)
          rw [status] at staying
          refine ⟨_, fill.trans next, ⟨⟨blocks', emitted', produced'⟩, ⟨left', holds', ?_, ?_⟩, bodied,
            received, code'⟩, ?_, .inl staying⟩
          · rw [log, ← whole, front, List.append_assoc]
          · intro eof
            rw [staying] at eof
            cases eof
          · simp only [Exchange.work, staying, conn, log, body, ← whole, front, List.length_append]
            omega
        · rw [next] at error
          cases error

/-- A step of the loop goes on with less to do, ends with the whole response, or meets a broken socket. -/
theorem sendStep_remaining {q : Exchange τ} (draining : Draining m ended Holds)
    (state : Remaining texts base ended Holds code total q) :
    (∃ q', sendStep texts m q = .next q' ∧ Remaining texts base ended Holds code total q' ∧
      q'.work total < q.work total) ∨
    (∃ out, sendStep texts m q = .done out ∧ Answered texts base code total out) ∨
    ∃ out, sendStep texts m q = .done out ∧ out.1 = .error ∧ q.Broken := by
  obtain ⟨blocks, emitted, produced⟩ := state.wire
  have count := emitted.count_nonneg
  by_cases busy : 0 < q.write.remainSendBlockBytes
  · simp only [sendStep, if_pos busy]
    by_cases broken : q.Broken
    · right
      right
      split
      · rename_i read res conn wait
        cases res with
        | bytes n => exact absurd wait (broken.2 read n conn)
        | fail =>
            have failed : sendCurrentBlockData q.write conn .fail = none := by
              simp only [sendCurrentBlockData, Connection.writeNonblock]
              rw [if_neg (by omega)]
            rw [failed]
            exact ⟨_, rfl, rfl, broken⟩
      · exact ⟨_, rfl, rfl, broken⟩
    · left
      simp only [Exchange.Broken, busy, true_and, not_forall, not_not] at broken
      obtain ⟨read, n, conn, wait⟩ := broken
      obtain ⟨⟨w, conn'⟩, sent⟩ := sendCurrentBlockData_some q.write conn n
      have output : conn.output = q.conn.output := by rw [Connection.waitForData_frame wait]
      obtain ⟨state', status⟩ := state.send output sent
      have events : waitEvents .forWrite q.conn.sched = (some (read, some (.bytes n)), conn.sched) := by
        simp only [Connection.waitForData, Prod.mk.injEq] at wait
        rw [← wait.2]
        exact Prod.ext wait.1 rfl
      have shorter := waitEvents_shorter events
      have sched : conn'.sched = conn.sched := (sendCurrentBlockData_conn sent).2
      refine ⟨{ q with write := w, conn := conn' }, by simp only [wait, sent], state', ?_⟩
      simp only [Exchange.work, sched, status]
      omega
  · have idle : q.write.remainSendBlockBytes = 0 := by omega
    simp only [sendStep, if_neg busy, sendRefill]
    by_cases body : q.write.status = .body
    · obtain ⟨q1, fill, state1, less, kind⟩ := state.refill draining body idle
      rw [fill]
      rcases state1.update (.inr kind) with ⟨q2, next, state2, less' | ⟨same, -⟩⟩ | done
      · exact .inl ⟨q2, next, state2, by omega⟩
      · exact .inl ⟨q2, next, state2, same ▸ less⟩
      · exact .inr (.inl done)
    · have fill : sendFill m q = .next q := by rw [sendFill, if_neg body]
      rw [fill]
      rcases state.update (.inl idle) with ⟨q2, next, state2, less | ⟨same, kind⟩⟩ | done
      · exact .inl ⟨q2, next, state2, less⟩
      · exfalso
        have eof := kind.resolve_left body
        simp [sendUpdate, updateSendStatus, eof, idle] at next
      · exact .inr (.inl done)

/-- The loop ends with the whole response, unless the socket breaks on the way. -/
theorem sendStep_drains {q : Exchange τ} (draining : Draining m ended Holds)
    (state : Remaining texts base ended Holds code total q) (fuel : Nat) (enough : q.work total < fuel) :
    ∃ out, run (sendStep texts m) fuel q = some out ∧ (Answered texts base code total out ∨
      out.1 = .error ∧ ∃ q', Visits (sendStep texts m) q q' ∧ q'.Broken) := by
  refine run_spec (sendStep texts m) (Exchange.work total)
    (fun q' => Remaining texts base ended Holds code total q' ∧ Visits (sendStep texts m) q q') _ ?_ fuel q
    ⟨state, .here q⟩ enough
  rintro q' ⟨state', visited⟩
  rcases sendStep_remaining draining state' with ⟨q'', next, state'', less⟩ | ⟨out, done, whole⟩ |
    ⟨out, done, error, broken⟩
  · exact .inl ⟨q'', next, ⟨state'', visited.snoc next⟩, less⟩
  · exact .inr ⟨out, done, .inl whole⟩
  · exact .inr ⟨out, done, .inr ⟨error, q', visited, broken⟩⟩

end IcapService
