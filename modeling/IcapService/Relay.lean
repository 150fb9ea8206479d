import IcapService.BodyRound
import IcapService.Drain

/-! `get_send_body` with a service that passes its body on through a buffer.

The service takes of a block what its buffer has room for and gives what the buffer holds. A block may wait for room
that only a write to the socket makes, so a round may move nothing but data of the service. -/

namespace IcapService

open CString Machine Chunked

variable {τ : Type} {texts : Texts} {m : IoModule τ} {Holds : τ → Bytes → Prop} {calm : Prop}
variable {code : Ec} {base front body : Bytes} {last : LastChunk}

/-- A call puts the front of a block behind what the buffer holds and gives the front of that away. Only a buffer that
holds something leaves a part of the block. -/
structure Passes (m : IoModule τ) (Holds : τ → Bytes → Prop) (t : τ) (held : Bytes) (c : IoCall) : Prop where
  works : (m.io t c).1.failed = false
  lock : (m.io t c).1.dataLocked = c.dataLocked
  produced : (m.io t c).1.produced = .bytes ((held ++ c.data.take (m.io t c).1.taken).take c.space)
  holds : Holds (m.io t c).2 ((held ++ c.data.take (m.io t c).1.taken).drop c.space)
  full : (m.io t c).1.taken < c.data.length → held ++ c.data.take (m.io t c).1.taken ≠ []

/-- The service passes on what it is given. -/
def Relaying (m : IoModule τ) (Holds : τ → Bytes → Prop) : Prop := ∀ t held c, Holds t held → Passes m Holds t held c

/-- The buffer holds what lies between the data that was taken and the data that was produced; `front` was in it at
first. -/
def Relayed (Holds : τ → Bytes → Prop) (front : Bytes) (t : τ) (calls : List (IoCall × IoAnswer)) : Prop :=
  ∃ held, Holds t held ∧ front ++ takenData calls = producedData calls ++ held

theorem Relayed.call {t : τ} {calls : List (IoCall × IoAnswer)} (relaying : Relaying m Holds)
    (relayed : Relayed Holds front t calls) (c : IoCall) :
    Relayed Holds front (m.io t c).2 (calls ++ [(c, (m.io t c).1)]) := by
  obtain ⟨held, holds, flow⟩ := relayed
  have passes := relaying t held c holds
  refine ⟨_, passes.holds, ?_⟩
  have output : (m.io t c).1.output = (held ++ c.data.take (m.io t c).1.taken).take c.space := by
    rw [IoAnswer.output, passes.works, passes.produced]
    rfl
  rw [takenData_append, producedData_append, output, List.append_assoc, List.take_append_drop, ← List.append_assoc,
    flow, List.append_assoc]

theorem Relayed.length_le {t : τ} {calls : List (IoCall × IoAnswer)} (relayed : Relayed Holds front t calls) :
    (producedData calls).length ≤ front.length + (takenData calls).length := by
  obtain ⟨held, -, flow⟩ := relayed
  have lengths := congrArg List.length flow
  rw [List.length_append, List.length_append] at lengths
  omega

/-! ### The response -/

/-- A response that can be sent while its body is received: there is a body, and no header is empty. -/
structure WriteSide.Ready (texts : Texts) (code : Ec) (w : WriteSide) : Prop where
  bodied : w.Bodied
  unlocked : w.dataLocked = false
  open_ : w.status ≠ .eof
  returnCode : w.returnCode = code
  responceHeader : texts.responceHeader code ≠ []
  heads : ∀ e ∈ w.entities, e.isHeader = true → e.buf ≠ []

namespace WriteSide.Ready

variable {w w' : WriteSide}

theorem of_same (ready : w.Ready texts code) (type : w'.type = w.type) (status : w'.status = w.status)
    (entities : w'.entities = w.entities) (hasbody : w'.responceHasbody = w.responceHasbody)
    (same : w'.returnCode = w.returnCode) (lock : w'.dataLocked = false) : w'.Ready texts code where
  bodied := ready.bodied.same type status entities hasbody
  unlocked := lock
  open_ := status ▸ ready.open_
  returnCode := same.trans ready.returnCode
  responceHeader := ready.responceHeader
  heads := entities ▸ ready.heads

/-- An update keeps the lock and takes entities out at most. -/
theorem update_frame (texts : Texts) (w : WriteSide) :
    (updateSendStatus texts w).2.dataLocked = w.dataLocked ∧ (updateSendStatus texts w).2.entities ⊆ w.entities := by
  have last : (headsOver w).2.dataLocked = w.dataLocked ∧ (headsOver w).2.entities ⊆ w.entities := by
    rw [headsOver]
    split <;> exact ⟨rfl, List.Subset.refl _⟩
  have head : ∀ status i,
      (sendHead w status i).2.dataLocked = w.dataLocked ∧ (sendHead w status i).2.entities ⊆ w.entities := by
    intro status i
    rw [sendHead]
    split
    · split
      · exact ⟨rfl, List.Subset.refl _⟩
      · exact last
    · exact last
  cases status : w.status with
  | nothing =>
      simp only [updateSendStatus, status, mkResponceHeader]
      split
      · rename_i e rest _ list
        split
        · refine ⟨rfl, ?_⟩
          rw [list]
          exact List.subset_cons_self e rest
        · exact ⟨rfl, List.Subset.refl _⟩
      · exact ⟨rfl, List.Subset.refl _⟩
  | body =>
      rw [updateSendStatus, status]
      exact ⟨rfl, List.Subset.refl _⟩
  | eof =>
      rw [updateSendStatus, status]
      exact ⟨rfl, List.Subset.refl _⟩
  | resphead =>
      rw [updateSendStatus, status]
      exact head .head1 0
  | head1 =>
      rw [updateSendStatus, status]
      exact head .head2 1
  | head2 =>
      rw [updateSendStatus, status]
      exact head .head3 2
  | head3 =>
      rw [updateSendStatus, status]
      exact head .head3 2

theorem update (ready : w.Ready texts code) : (updateSendStatus texts w).2.Ready texts code := by
  obtain ⟨bodied, moved⟩ := ready.bodied.update texts
  refine ⟨bodied, (update_frame texts w).1.trans ready.unlocked, ?_,
    (updateSendStatus_code texts w).trans ready.returnCode,
    ready.responceHeader, ?_⟩
  · rcases moved with ⟨same, -⟩ | ⟨-, open_⟩
    · rw [same]
      exact ready.open_
    · exact open_
  · exact fun e member => ready.heads e ((update_frame texts w).2 member)

theorem send {c c' : Connection} {res : NetRes} (ready : w.Ready texts code)
    (sent : sendCurrentBlockData w c res = some (w', c')) : w'.Ready texts code := by
  rw [sendCurrentBlockData] at sent
  split at sent
  · cases sent
    exact ready
  · split at sent
    · cases sent
    · cases sent
      exact ready.of_same rfl rfl rfl rfl rfl ready.unlocked

theorem kept : Kept texts (fun w _ => w.Ready texts code) :=
  ⟨fun _ _ ready _ => ready.update, fun _ _ _ _ _ ready sent => ready.send sent⟩

/-- Behind an update there is something to send, or the body is being sent. -/
theorem update_moves (ready : w.Ready texts code) :
    (updateSendStatus texts w).2.status = .body ∨ (updateSendStatus texts w).2.remainSendBlockBytes ≠ 0 := by
  have some : ∀ t : Bytes, t ≠ [] → (t.length : Int) ≠ 0 := by
    intro t nonempty
    have positive := List.length_pos_iff.mpr nonempty
    omega
  have past : w.status ≠ .nothing → (headsOver w).2.status = .body := by
    intro begun
    rw [headsOver, if_pos (ready.bodied.hasbody begun)]
  have head : w.status ≠ .nothing → ∀ status i,
      (sendHead w status i).2.status = .body ∨ (sendHead w status i).2.remainSendBlockBytes ≠ 0 := by
    intro begun status i
    rw [sendHead]
    split
    · rename_i e entity
      split
      · rename_i header
        exact .inr (some _ (ready.heads e (List.mem_of_getElem? entity) header))
      · exact .inl (past begun)
    · exact .inl (past begun)
  cases status : w.status with
  | nothing =>
      right
      rw [updateSendStatus, status]
      have same : (mkResponceHeader w).returnCode = w.returnCode := by
        rw [mkResponceHeader]
        split
        · split <;> rfl
        · rfl
      refine some _ ?_
      rw [same, ready.returnCode]
      exact ready.responceHeader
  | body =>
      left
      rw [updateSendStatus, status]
      exact status
  | eof => exact absurd status ready.open_
  | resphead =>
      rw [updateSendStatus, status]
      exact head (by rw [status]; decide) .head1 0
  | head1 =>
      rw [updateSendStatus, status]
      exact head (by rw [status]; decide) .head2 1
  | head2 =>
      rw [updateSendStatus, status]
      exact head (by rw [status]; decide) .head3 2
  | head3 =>
      rw [updateSendStatus, status]
      exact head (by rw [status]; decide) .head3 2

/-- A block is framed with something to send behind it. -/
theorem frame (ready : w.Ready texts code) (body : w.status = .body) (some : 0 ≤ w.remainSendBlockBytes)
    (original : Int) :
    (frameBody original w).Ready texts code ∧
      (w.remainSendBlockBytes ≠ 0 → (frameBody original w).remainSendBlockBytes ≠ 0) := by
  have begun : w.status ≠ .nothing := by
    rw [body]
    decide
  have hasbody := ready.bodied.hasbody begun
  have bodied := ready.bodied.frame begun original
  have same := formatBodyChunk_same original w
  have ok : (formatBodyChunk original w).1 = .ok := by
    rw [formatBodyChunk, if_neg (by simp [hasbody])]
    split
    · rfl
    · rw [if_neg (by simp only [ciEof]; omega)]
  have framed : frameBody original w = (formatBodyChunk original w).2 := by
    rw [frameBody]
    split
    · rename_i result
      rw [result] at ok
      cases ok
    · rename_i result
      rw [result]
  rw [framed] at bodied ⊢
  refine ⟨⟨bodied, same.dataLocked.trans ready.unlocked, ?_, same.returnCode.trans ready.returnCode,
    ready.responceHeader,
    ?_⟩, fun busy => ?_⟩
  · rw [same.status]
    exact ready.open_
  · rw [same.entities]
    exact ready.heads
  · rw [formatBodyChunk_count original hasbody (by omega)]
    omega

end WriteSide.Ready

/-! ### The loop -/

/-- What keeps the loop from giving up on data that waits: there is something to send then. -/
structure BodyLoop.Flowing (texts : Texts) (code : Ec) (s : BodyLoop τ) : Prop where
  ready : s.q.write.Ready texts code
  open_ : s.serviceEof = false
  moving : s.point = .inner → s.q.write.status = .body ∨ s.q.write.remainSendBlockBytes ≠ 0
  formatted : s.point = .inner → s.hasFormatedData = true → s.q.write.remainSendBlockBytes ≠ 0
  writes : s.point = .top → s.action.write = true → s.q.write.remainSendBlockBytes ≠ 0
  flows : s.point = .test → s.q.read.writeToModulePending ≠ 0 → s.q.write.remainSendBlockBytes ≠ 0

/-- The state of a loop whose service passes on `body`, behind which the client sends nothing. -/
structure BodyLoop.Relay (texts : Texts) (code : Ec) (Holds : τ → Bytes → Prop) (base front body : Bytes)
    (last : LastChunk) (s : BodyLoop τ) : Prop where
  delivering : Delivering True (Relayed Holds front) [] body last s
  emitted : LoopOpen texts base s
  flowing : s.Flowing texts code

/-- What is left to do: events of the socket, bytes to take and to produce, and the way to the next of either. -/
def BodyLoop.effort (total : Nat) (s : BodyLoop τ) : Nat :=
  4 * s.q.conn.sched.length + 4 * (total - (takenData s.q.calls).length - (producedData s.q.calls).length) +
    match s.point with
    | .top => if s.action.any then 0 else 3
    | .inner => 2
    | .test => 1

theorem bodyTop_flowing {s : BodyLoop τ} (flowing : s.Flowing texts code) :
    (bodyTop texts s).All (BodyLoop.Flowing texts code) (fun _ => True) := by
  refine Step.All.bind ((bodyWait_moved WriteSide.Ready.kept flowing.ready).imp (fun _ moved => moved)
    (fun _ _ => trivial)) (fun q moved => ?_)
  have ready : q.write.Ready texts code := moved.kept
  simp only [bodyEnter]
  split
  · trivial
  · rename_i ret w _ updated
    by_cases idle : q.write.remainSendBlockBytes = 0
    · rw [if_pos ⟨ready.unlocked, idle⟩] at updated
      have entered : (updateSendStatus texts q.write).2 = w := by rw [updated]
      refine ⟨?_, flowing.open_, fun _ => ?_, fun _ => of_decide_eq_true, fun top => (by cases top),
        fun test => (by cases test)⟩
      · rw [← entered]
        exact ready.update
      · rw [← entered]
        exact ready.update_moves
    · rw [if_neg (fun both => idle both.2)] at updated
      cases updated
      exact ⟨ready, flowing.open_, fun _ => .inr idle, fun _ => of_decide_eq_true, fun top => (by cases top),
        fun test => (by cases test)⟩

section

variable {I : τ → List (IoCall × IoAnswer) → Prop} {rest : Bytes}

/-- The answer of a service that may take nothing. -/
theorem bodyTake_keeps (rbytes : Nat) {s : BodyLoop τ} {c : IoCall} {a : IoAnswer} {q : Exchange τ} {offset : Nat}
    (keeps : ∀ t calls c, I t calls → I (m.io t c).2 (calls ++ [(c, (m.io t c).1)]))
    (offering : Offering calm I rest body last s) (data : c.data = s.q.read.waiting s.wchunkdata)
    (ended : c.iseof = s.q.read.eofReceived) (call : s.q.call m offset c = (a, q)) :
    Holding calm I rest body last (bodyTake { s with q := q } rbytes a).q
      (bodyTake { s with q := q } rbytes a).wchunkdata := by
  simp only [Exchange.call, Prod.mk.injEq] at call
  obtain ⟨rfl, rfl⟩ := call
  have taken := m.taken s.q.data c
  rw [data] at taken
  have waiting := waiting_taken offering.pointer (m.io s.q.data c).1.taken taken
  refine ⟨?_, Ptr.add_offset offering.pointer _, ?_, Nat.le_of_lt offering.room, fun _ => offering.room,
    keeps _ _ _ offering.service, fun eof => ⟨s.q.calls, (c, (m.io s.q.data c).1), rfl, ended.trans eof⟩,
    offering.steady⟩
  · change ((s.q.read.accepted _).waiting (s.wchunkdata.add _)).length = (s.q.read.accepted _).writeToModulePending
    rw [waiting, List.length_drop, offering.block]
    rfl
  · change Ahead rest body last (s.q.read.accepted _) s.q.conn.input
      (takenData (s.q.calls ++ [(c, (m.io s.q.data c).1)])) ((s.q.read.accepted _).waiting (s.wchunkdata.add _))
    rw [takenData_append, waiting, data]
    exact offering.ahead.take _

/-- A round of the inner loop with such a service; if another one follows, it has moved data. -/
theorem bodyServe_keeps {s : BodyLoop τ}
    (keeps : ∀ t calls c, I t calls → I (m.io t c).2 (calls ++ [(c, (m.io t c).1)]))
    (offering : Offering calm I rest body last s) (inner : s.point = .inner) :
    (bodyServe m s).All (fun t => Delivering calm I rest body last t ∧
      t.q.conn.sched = s.q.conn.sched ∧ ∃ c a, m.io s.q.data c = (a, t.q.data) ∧ t.q.calls = s.q.calls ++ [(c, a)] ∧
        (t.point = .inner ∧ (a.produced.length (bodyRoom s).2 ≠ 0 ∨ a.taken ≠ 0) ∨ t.point = .test))
      (fun _ => True) := by
  obtain ⟨same, -, -, point⟩ := bodyRoom_frame s
  have offering' := offering.of_room
  have data := bodyCall_data (bodyRoom s).1 (bodyRoom s).2
  simp only [bodyServe]
  cases call : (bodyRoom s).1.q.call m ((bodyRoom s).1.rchunkdata.getD 0)
      (bodyCall (bodyRoom s).1 (bodyRoom s).2) with
  | mk a q =>
      dsimp only
      split
      · trivial
      · rename_i works
        have holding := bodyTake_keeps (bodyRoom s).2 keeps offering' data rfl call
        have taken := m.taken (bodyRoom s).1.q.data (bodyCall (bodyRoom s).1 (bodyRoom s).2)
        simp only [Exchange.call, Prod.mk.injEq] at call
        obtain ⟨rfl, rfl⟩ := call
        have room : (bodyRoom s).1.q.read.unread.length < bufsize := offering'.room
        have whole : (m.io (bodyRoom s).1.q.data (bodyCall (bodyRoom s).1 (bodyRoom s).2)).1.taken +
            ((bodyRoom s).1.q.read.writeToModulePending -
              (m.io (bodyRoom s).1.q.data (bodyCall (bodyRoom s).1 (bodyRoom s).2)).1.taken) =
            (bodyCall (bodyRoom s).1 (bodyRoom s).2).data.length := by
          rw [data, offering'.block] at taken ⊢
          omega
        rw [bodyRepeat]
        split
        · rename_i again
          refine ⟨⟨holding, by simp only [BodyLoop.Outer, bodyTake, point, inner]⟩, same.sched,
            bodyCall (bodyRoom s).1 (bodyRoom s).2,
            (m.io (bodyRoom s).1.q.data (bodyCall (bodyRoom s).1 (bodyRoom s).2)).1, ?_, ?_,
            .inl ⟨point.trans inner, ?_⟩⟩
          · rw [← same.data]
            rfl
          · change (bodyRoom s).1.q.calls ++ [(_, _)] = _
            rw [same.calls]
          · have moved := of_decide_eq_false again.1
            rwa [not_and_or] at moved
        · refine ⟨bodyFormat_delivering holding room ⟨_, _, _, rfl, by simpa using works, rfl, whole⟩, same.sched,
            bodyCall (bodyRoom s).1 (bodyRoom s).2,
            (m.io (bodyRoom s).1.q.data (bodyCall (bodyRoom s).1 (bodyRoom s).2)).1, ?_, ?_, .inr rfl⟩
          · rw [← same.data]
            rfl
          · change (bodyRoom s).1.q.calls ++ [(_, _)] = _
            rw [same.calls]

end

/-- The end of the inner loop leaves something to send if there was something. -/
theorem bodyFrame_ready {s : BodyLoop τ} (ready : s.q.write.Ready texts code) (open_ : s.serviceEof = false)
    (count : 0 ≤ s.q.write.remainSendBlockBytes) :
    (bodyFrame s).Ready texts code ∧
      (s.q.write.remainSendBlockBytes ≠ 0 → (bodyFrame s).remainSendBlockBytes ≠ 0) := by
  simp only [bodyFrame, open_, Bool.false_eq_true, and_false, if_false]
  split
  · rename_i body
    split
    · exact ⟨ready, id⟩
    · exact ready.frame body count _
  · exact ⟨ready, id⟩

theorem bodyServe_flowing {u : BodyLoop τ} (relaying : Relaying m Holds)
    (service : Relayed Holds front u.q.data u.q.calls)
    (block : (u.q.read.waiting u.wchunkdata).length = u.q.read.writeToModulePending)
    (count : 0 ≤ u.q.write.remainSendBlockBytes) (inner : u.point = .inner) (flowing : u.Flowing texts code) :
    (bodyServe m u).All (BodyLoop.Flowing texts code) (fun _ => False) := by
  obtain ⟨held, holds, -⟩ := service
  refine (bodyServe_served u).imp ?_ ?_
  · rintro t ⟨v, c, a, served, next⟩
    obtain ⟨-, lock, produced, -, full⟩ := relaying _ held c holds
    rw [served.answer] at lock produced full
    dsimp only at lock produced full
    have remain := served.remain
    have ready : v.q.write.Ready texts code := flowing.ready.of_same served.type served.status served.entities
      served.hasbody served.code (served.lock.trans (lock.trans (served.dataLocked.trans flowing.ready.unlocked)))
    have open_ : v.serviceEof = false := by
      rw [served.serviceEof, flowing.open_, produced]
      rfl
    have busy : u.q.write.remainSendBlockBytes ≠ 0 → v.q.write.remainSendBlockBytes ≠ 0 := fun _ => by omega
    -- a block that is not taken as a whole has met a buffer that holds something, and there was room for that
    have flows : v.q.read.writeToModulePending ≠ 0 → v.q.write.remainSendBlockBytes ≠ 0 := by
      intro waits
      by_cases idle : u.q.write.remainSendBlockBytes = 0
      · have body := (flowing.moving inner).resolve_right (fun some => some idle)
        have fresh : u.hasFormatedData = false := by
          by_contra formatted
          exact flowing.formatted inner (by simpa using formatted) idle
        have room := served.room body flowing.open_ idle fresh
        rw [served.read] at waits
        change u.q.read.writeToModulePending - a.taken ≠ 0 at waits
        have some := List.length_pos_iff.mpr (full (by rw [served.offered, block]; omega))
        have space : c.space = maxChunkSize := by rw [IoCall.space, room]; rfl
        have positive : 0 < maxChunkSize := by decide
        have data : a.produced.data = (held ++ c.data.take a.taken).take maxChunkSize := by rw [produced, space]; rfl
        have length : a.produced.data.length ≠ 0 := by
          rw [data, List.length_take]
          omega
        omega
      · exact busy idle
    rcases next with ⟨rfl, -, -⟩ | rfl
    · refine ⟨ready, open_, fun _ => ?_, fun _ formatted => ?_, fun top => ?_, fun test => ?_⟩
      · rw [served.status]
        exact (flowing.moving inner).imp id busy
      · rw [served.formatted] at formatted
        exact busy (flowing.formatted inner formatted)
      · rw [served.point, inner] at top
        cases top
      · rw [served.point, inner] at test
        cases test
    · obtain ⟨framed, some⟩ := bodyFrame_ready ready open_ (by omega)
      exact ⟨framed, open_, fun inner => (by cases inner), fun inner => (by cases inner), fun top => (by cases top),
        fun _ waits => some (flows waits)⟩
  · rintro out ⟨c, a, refused⟩
    have works := (relaying _ held c holds).works
    rw [refused.answer] at works
    exact Bool.false_ne_true (works.symm.trans refused.failed)

namespace BodyLoop.Relay

variable {s : BodyLoop τ}

/-- Nothing is sent behind the body, so the loop does not parse behind its end. -/
theorem within (state : s.Relay texts code Holds base front body last) : ¬ s.Overrun := by
  rintro ⟨-, ended, -, some⟩
  rcases state.delivering.1.ahead with ⟨open_, -⟩ | ⟨-, -, finished⟩
  · rw [ended] at open_
    cases open_
  · have none : s.q.read.unread = [] := (List.append_eq_nil_iff.mp finished.stream).1
    have count := finished.placed.unread_length
    rw [none] at count
    exact some (by simpa using count.symm)

theorem patient (state : s.Relay texts code Holds base front body last) : ¬ s.Stalled :=
  fun stalled => state.flowing.flows stalled.1 stalled.2.1 stalled.2.2.1

theorem count (state : s.Relay texts code Holds base front body last) : 0 ≤ s.q.write.remainSendBlockBytes := by
  cases state.emitted.1 with
  | settled blocks emitted _ _ => exact emitted.count_nonneg
  | filling blocks raw _ filling _ _ _ =>
      have remain := filling.count
      omega

end BodyLoop.Relay

/-- The whole body has been taken, and what has not been produced is in the buffer. -/
structure PassedOn (texts : Texts) (code : Ec) (Holds : τ → Bytes → Prop) (base total : Bytes)
    (out : CiRet × Exchange τ) : Prop where
  ret : out.1 = .ok
  wire : ∃ blocks, Emitted texts base out.2.write out.2.conn.output blocks ∧
    producedData out.2.calls = blocks.flatten
  left : ∃ left, Holds out.2.data left ∧ producedData out.2.calls ++ left = total
  ready : out.2.write.Ready texts code
  ended : out.2.read.eofReceived = true
  steady : ∀ e ∈ out.2.conn.sched, e.steady = true

/-- The schedule is over, and it was not the end of the response. -/
structure CutOff (texts : Texts) (code : Ec) (out : CiRet × Exchange τ) : Prop where
  sched : out.2.conn.sched = []
  unsent : out.1 ≠ .error → 0 < out.2.write.remainSendBlockBytes ∧ out.2.write.Ready texts code

variable {s : BodyLoop τ}

theorem BodyLoop.Relay.bodyTop (state : s.Relay texts code Holds base front body last) (top : s.point = .top) :
    (bodyTop texts s).All (fun t => t.Relay texts code Holds base front body last ∧ t.point = .inner ∧
        t.q.calls = s.q.calls ∧
        4 * t.q.conn.sched.length + 2 < 4 * s.q.conn.sched.length + if s.action.any then 0 else 3)
      (CutOff texts code) := by
  have emitted := bodyTop_emitted state.emitted top
  have flowing := bodyTop_flowing state.flowing
  have moved := bodyTop_moved (kept_always texts) (s := s) trivial
  rcases bodyTop_delivering texts state.delivering top with timeout | ⟨loud, -⟩ | ⟨t, next, delivering, less⟩
  · obtain ⟨-, any, none⟩ := timeout
    cases wait : s.q.conn.waitForData s.action with
    | mk result conn =>
        rw [wait] at none
        cases none
        simp only [IcapService.bodyTop, bodyWait, if_pos any, wait, Step.bind]
        have events : (waitEvents s.action s.q.conn.sched).1 = none ∧
            conn = { s.q.conn with sched := (waitEvents s.action s.q.conn.sched).2 } := by
          simp only [Connection.waitForData, Prod.mk.injEq] at wait
          exact ⟨wait.1, wait.2.symm⟩
        refine ⟨?_, fun works => ?_⟩
        · rw [BodyLoop.leave, events.2]
          exact waitEvents_exhausted (state.delivering.1.steady trivial) events.1
        · have ended : s.q.read.eofReceived = true := by
            by_contra open_
            rw [BodyLoop.leave, if_neg open_] at works
            exact works rfl
          have outer := state.delivering.2
          simp only [BodyLoop.Outer, top] at outer
          have writes : s.action.write = true := by
            cases reads : s.action.read with
            | true =>
                have open_ := (outer reads).2.1
                rw [ended] at open_
                cases open_
            | false =>
                rw [Wait.any, reads] at any
                simpa using any
          have some := state.flowing.writes top writes
          have count := state.count
          exact ⟨by change 0 < s.q.write.remainSendBlockBytes; omega, state.flowing.ready⟩
  · exact absurd trivial loud
  · rw [next] at emitted flowing moved ⊢
    obtain ⟨-, entered⟩ := moved
    refine ⟨⟨delivering, emitted, flowing⟩, entered.point, entered.calls, ?_⟩
    simp only [BodyLoop.weight, top, entered.point, entered.calls, entered.pending] at less
    by_cases any : s.action.any = true
    · rw [if_pos any] at less ⊢
      split at less <;> omega
    · rw [if_neg any] at less ⊢
      split at less <;> omega

theorem BodyLoop.Relay.bodyInner {fuel : Nat} (relaying : Relaying m Holds) (enough : 2 * bufsize + 1 < fuel)
    (state : s.Relay texts code Holds base front body last) (inner : s.point = .inner) :
    ∃ parsed, bodyParse fuel s = some parsed ∧ (parsed.bind (bodyServe m)).All
      (fun t => t.Relay texts code Holds base front body last ∧ t.q.conn.sched = s.q.conn.sched ∧
        ∃ moved, (takenData t.q.calls).length + (producedData t.q.calls).length =
          (takenData s.q.calls).length + (producedData s.q.calls).length + moved ∧
          (t.point = .inner ∧ 0 < moved ∨ t.point = .test)) (fun _ => False) := by
  obtain ⟨u, parsed, offering, -, calls, conn, -, -⟩ := bodyParse_delivering enough state.delivering.1 inner
    state.within
  refine ⟨_, parsed, ?_⟩
  have frame : BodyParsed s u := bodyParse_frame parsed
  obtain ⟨emitted, inner'⟩ : LoopOpen texts base u ∧ u.point = .inner := bodyParse_emitted state.emitted inner parsed
  have flowing : u.Flowing texts code := by
    obtain ⟨ready, open_, moving, formatted, -, -⟩ := state.flowing
    refine ⟨?_, ?_, ?_, ?_, fun top => ?_, fun test => ?_⟩
    · rw [frame.write]
      exact ready
    · rw [frame.serviceEof]
      exact open_
    · rw [frame.write]
      exact fun _ => moving inner
    · rw [frame.write, frame.formatted]
      exact fun _ => formatted inner
    · rw [inner'] at top
      cases top
    · rw [inner'] at test
      cases test
  have count : 0 ≤ u.q.write.remainSendBlockBytes := by
    rw [frame.write]
    exact state.count
  have served := ((bodyServe_keeps (fun t calls c relayed => relayed.call relaying c) offering inner').and
    (bodyServe_flowing relaying offering.service offering.block count inner' flowing)).and
    (bodyServe_emitted (m := m) emitted inner')
  refine served.imp ?_ (fun _ never => never.1.2)
  rintro t ⟨⟨⟨delivering, sched, c, a, answer, log, point⟩, flowing'⟩, emitted'⟩
  refine ⟨⟨delivering, emitted', flowing'⟩, sched.trans (congrArg _ conn), ?_⟩
  obtain ⟨held, holds, -⟩ := offering.service
  obtain ⟨works, -, produced, -, -⟩ := relaying _ held c holds
  have taken := m.taken u.q.data c
  rw [answer] at works produced taken
  dsimp only at works produced taken
  refine ⟨a.taken + a.produced.data.length, ?_, point.imp (fun again => ⟨again.1, ?_⟩) id⟩
  · rw [log, takenData_append, producedData_append, calls, List.length_append, List.length_append, List.length_take]
    have output : (c, a).2.output = a.produced.data := by
      rw [IoAnswer.output, works]
      rfl
    rw [output]
    dsimp only
    omega
  · have length : a.produced.length (bodyRoom u).2 = a.produced.data.length := by
      rw [produced]
      rfl
    rw [length] at again
    omega

theorem BodyLoop.Relay.bodyTest (relaying : Relaying m Holds) (state : s.Relay texts code Holds base front body last)
    (test : s.point = .test) :
    (bodyTest s).All (fun t => t.Relay texts code Holds base front body last ∧ t.point = .top ∧ t.action.any = true ∧
      t.q = s.q) (PassedOn texts code Holds base (front ++ body)) := by
  have emitted := bodyTest_emitted state.emitted test
  have outer := state.delivering.2
  simp only [BodyLoop.Outer, test] at outer
  obtain ⟨-, -, action⟩ := outer
  rcases bodyTest_delivering (m := m) state.delivering test with ⟨t, next, delivering, -⟩ | ⟨out, done, handed⟩ |
    ⟨-, stalled⟩
  · have shape : t = { s with point := .top } := by
      rw [IcapService.bodyTest] at next
      split at next
      · cases next
        rfl
      · cases next
    rw [next] at emitted ⊢
    subst shape
    refine ⟨⟨delivering, emitted, ⟨state.flowing.ready, state.flowing.open_, fun inner => (by cases inner),
      fun inner => (by cases inner), fun _ writes => ?_, fun test => (by cases test)⟩⟩, rfl, ?_, rfl⟩
    · change s.action.write = true at writes
      rw [action] at writes
      exact of_decide_eq_true writes
    · change s.action.any = true
      rw [action, Wait.any, Bool.or_eq_true, decide_eq_true_eq, decide_eq_true_eq]
      by_cases idle : s.q.read.writeToModulePending = 0
      · exact .inl idle
      · exact .inr (state.flowing.flows test idle)
  · have shape : out = BodyLoop.leave s.q := by
      rw [IcapService.bodyTest] at done
      split at done
      · cases done
      · cases done
        rfl
    rw [done] at emitted ⊢
    subst shape
    cases handed with
    | whole ret taken service ended finished =>
        obtain ⟨held, holds, flow⟩ := service
        rw [taken] at flow
        refine ⟨ret, emitted.whole ret, ⟨held, holds, flow.symm⟩, state.flowing.ready, ?_,
          state.delivering.1.steady trivial⟩
        by_contra open_
        rw [BodyLoop.leave] at ret open_
        rw [if_neg open_] at ret
        cases ret
    | failed ret calls c a t log service part final answer failure =>
        obtain ⟨held, holds, -⟩ := service
        have works := (relaying t held c holds).works
        rw [answer, failure] at works
        cases works
  · exact absurd stalled state.patient

theorem BodyLoop.Relay.bounded (state : s.Relay texts code Holds base front body last) :
    (takenData s.q.calls).length + (producedData s.q.calls).length ≤ front.length + 2 * body.length := by
  have part := state.delivering.1.ahead.part.length_le
  have flow := state.delivering.1.service.length_le
  rw [List.length_append] at part
  omega

/-- A pass of the loop goes on with less to do, or ends with the whole body or behind the end of the schedule. -/
theorem bodyStep_relay {fuel : Nat} (relaying : Relaying m Holds) (enough : 2 * bufsize + 1 < fuel)
    (state : s.Relay texts code Holds base front body last) :
    (bodyStep texts m fuel s).All (fun t => t.Relay texts code Holds base front body last ∧
        t.effort (front.length + 2 * body.length) < s.effort (front.length + 2 * body.length))
      (fun out => PassedOn texts code Holds base (front ++ body) out ∨ CutOff texts code out) := by
  rw [bodyStep]
  cases point : s.point with
  | top =>
      refine (state.bodyTop point).imp ?_ (fun _ cut => .inr cut)
      rintro t ⟨state', inner, calls, less⟩
      refine ⟨state', ?_⟩
      simp only [BodyLoop.effort, inner, point, calls]
      omega
  | inner =>
      obtain ⟨parsed, result, served⟩ := state.bodyInner relaying enough point
      simp only [result]
      refine served.imp ?_ (fun _ never => never.elim)
      rintro t ⟨state', sched, moved, flow, next⟩
      refine ⟨state', ?_⟩
      have bounded := state'.bounded
      rcases next with ⟨inner, some⟩ | test
      · simp only [BodyLoop.effort, inner, point, sched]
        omega
      · simp only [BodyLoop.effort, test, point, sched]
        omega
  | test =>
      refine (state.bodyTest relaying point).imp ?_ (fun _ whole => .inl whole)
      rintro t ⟨state', top, any, same⟩
      refine ⟨state', ?_⟩
      simp only [BodyLoop.effort, top, point, any, same, if_true]
      omega

/-- Every run of the loop ends with the whole body, or behind the end of the schedule. -/
theorem relay_ends {fuel n : Nat} (relaying : Relaying m Holds) (enough : 2 * bufsize + 1 < fuel)
    (state : s.Relay texts code Holds base front body last)
    (more : s.effort (front.length + 2 * body.length) < n) :
    ∃ out, run (bodyStep texts m fuel) n s = some out ∧
      (PassedOn texts code Holds base (front ++ body) out ∨ CutOff texts code out) := by
  refine run_spec (bodyStep texts m fuel) (BodyLoop.effort (front.length + 2 * body.length))
    (fun s => s.Relay texts code Holds base front body last) _ (fun s state => ?_) n s state more
  have pass := bodyStep_relay relaying enough state
  cases way : bodyStep texts m fuel s with
  | next t =>
      rw [way] at pass
      exact .inl ⟨t, rfl, pass⟩
  | done out =>
      rw [way] at pass
      exact .inr ⟨out, rfl, pass⟩

/-- The loop is entered with `front` in the buffer. -/
theorem BodyLoop.start_relay {q : Exchange τ} (k : Coding) (fits : Fits k) (atBody : q.read.AtBody)
    (stream : q.read.unread ++ q.conn.input = k.encode) (small : q.read.unread.length ≤ bufsize)
    (open_ : q.read.eofReceived = false) (fresh : q.calls = []) (holds : Holds q.data front)
    (steady : ∀ e ∈ q.conn.sched, e.steady = true) (nothing : q.write.status = .nothing)
    (idle : q.write.remainSendBlockBytes = 0) (ready : q.write.Ready texts code) :
    (BodyLoop.start q).Relay texts code Holds q.conn.output front k.body k.last where
  delivering := by
    rw [← List.append_nil k.encode] at stream
    exact BodyLoop.start_delivering k fits atBody stream small open_ fresh
      ⟨front, holds, by simp [takenData, producedData]⟩ (fun _ => steady)
  emitted := by
    refine ⟨.settled [] (.nothing rfl idle rfl) ?_ (fun inner => (by cases inner)), ?_⟩
    · simp [BodyLoop.start, fresh, producedData]
    · simp [BodyLoop.start, fresh, Working]
  flowing := by
    refine ⟨ready.of_same rfl nothing.symm rfl rfl rfl ready.unlocked, rfl, fun inner => (by cases inner),
      fun inner => (by cases inner), fun _ writes => ?_, fun test => (by cases test)⟩
    change (if q.read.pstrblockReadLen = 0 then Wait.forRead else Wait.none).write = true at writes
    split at writes <;> cases writes

/-! ### The rest of the response -/

theorem waitEvents_forWrite (sched : List NetEvent) :
    (waitEvents .forWrite sched).1 = none ∨ ∃ res, (waitEvents .forWrite sched).1 = some (none, some res) := by
  induction sched with
  | nil => exact .inl rfl
  | cons e es ih =>
      cases e with
      | timeout => exact .inl rfl
      | ready read write =>
          cases write with
          | none => exact ih
          | some res => exact .inr ⟨res, rfl⟩

/-- A refill does not touch the socket. -/
theorem sendRefill_conn (texts : Texts) (m : IoModule τ) (q : Exchange τ) :
    (sendRefill texts m q).All (fun q' => q'.conn = q.conn) (fun _ => True) := by
  have fill : (sendFill m q).All (fun q' => q'.conn = q.conn) (fun _ => True) := by
    rw [sendFill]
    split
    · dsimp only
      rw [sendTake]
      split
      · trivial
      · split
        · trivial
        · rfl
    · rfl
  refine Step.All.bind fill (fun q' same => ?_)
  rw [sendUpdate]
  split
  · trivial
  · trivial
  · exact same

/-- On a socket that does not fail a write is cut off by the end of the schedule only. -/
theorem sendStep_steady (texts : Texts) (m : IoModule τ) {q : Exchange τ}
    (steady : ∀ e ∈ q.conn.sched, e.steady = true) :
    (sendStep texts m q).All (fun q' => ∀ e ∈ q'.conn.sched, e.steady = true)
      (fun out => 0 < q.write.remainSendBlockBytes → out.2.conn.sched = []) := by
  by_cases busy : 0 < q.write.remainSendBlockBytes
  · rw [sendStep, if_pos busy]
    cases wait : q.conn.waitForData .forWrite with
    | mk result conn =>
        have events : waitEvents .forWrite q.conn.sched = (result, conn.sched) := by
          simp only [Connection.waitForData, Prod.mk.injEq] at wait
          rw [← wait.2]
          exact Prod.ext wait.1 rfl
        rcases waitEvents_forWrite q.conn.sched with none | ⟨res, ready⟩
        · have past := waitEvents_exhausted steady none
          rw [events] at none past
          dsimp only at none past
          subst none
          exact fun _ => past
        · rw [events] at ready
          dsimp only at ready
          subst ready
          have calm : True → ∀ e ∈ q.conn.sched, e.steady = true := fun _ => steady
          obtain ⟨works, -, -, later⟩ := waitEvents_steady calm events
          cases res with
          | fail => exact absurd rfl (works trivial).2
          | bytes n =>
              obtain ⟨⟨w, conn'⟩, sent⟩ := sendCurrentBlockData_some q.write conn n
              simp only [sent]
              change ∀ e ∈ conn'.sched, e.steady = true
              rw [(sendCurrentBlockData_conn sent).2]
              exact later trivial
  · rw [sendStep, if_neg busy]
    refine (sendRefill_conn texts m q).imp (fun q' same => ?_) (fun _ _ some => absurd some busy)
    rw [same]
    exact steady

/-- The loop sends the rest of the response, or meets the end of the schedule. -/
theorem rest_ends {ended : Bool} {total : Bytes} {q : Exchange τ} {n : Nat} (draining : Draining m ended Holds)
    (state : Remaining texts base ended Holds code total q) (steady : ∀ e ∈ q.conn.sched, e.steady = true)
    (more : q.work total < n) :
    ∃ out, run (sendStep texts m) n q = some out ∧
      (Answered texts base code total out ∨ out.1 = .error ∧ out.2.conn.sched = []) := by
  refine run_spec (sendStep texts m) (Exchange.work total) (fun q =>
    Remaining texts base ended Holds code total q ∧ ∀ e ∈ q.conn.sched, e.steady = true) _ ?_ n q ⟨state, steady⟩ more
  rintro q ⟨state, steady⟩
  have kept := sendStep_steady texts m steady
  rcases sendStep_remaining draining state with ⟨q', next, state', less⟩ | ⟨out, done, whole⟩ |
    ⟨out, done, error, broken⟩
  · rw [next] at kept
    exact .inl ⟨q', next, ⟨state', kept⟩, less⟩
  · exact .inr ⟨out, done, .inl whole⟩
  · rw [done] at kept
    exact .inr ⟨out, done, .inr ⟨error, kept broken.1⟩⟩

/-- Without an event nothing more is sent. -/
theorem sendStep_cut (texts : Texts) (m : IoModule τ) {q : Exchange τ} (past : q.conn.sched = [])
    (busy : 0 < q.write.remainSendBlockBytes) :
    ∃ out, sendStep texts m q = .done (.error, out) ∧ out.conn.sched = [] := by
  have wait : q.conn.waitForData .forWrite = (none, q.conn) := by
    have same : q.conn = { q.conn with sched := [] } := by rw [← past]
    rw [Connection.waitForData, past]
    exact Prod.ext rfl same.symm
  exact ⟨{ q with conn := q.conn }, by simp only [sendStep, if_pos busy, wait], past⟩

end IcapService
