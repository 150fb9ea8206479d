import IcapService.BodyReader
import IcapService.GetSendBody

/-! What `get_send_body` hands to the service.

In every state the body is what the service has taken, the block that waits for it and what the
parser still awaits. The loop loses part of it where it stalls, and reads too much where it runs over. -/

namespace IcapService

open CString Machine Chunked

/-- The data the service took in the calls of a run. -/
def takenData (calls : List (IoCall × IoAnswer)) : Bytes :=
  (calls.map (fun c => c.1.data.take c.2.taken)).flatten

theorem takenData_append (calls : List (IoCall × IoAnswer)) (c : IoCall × IoAnswer) :
    takenData (calls ++ [c]) = takenData calls ++ c.1.data.take c.2.taken := by
  simp [takenData]

/-- The socket does not fail. -/
def NetEvent.steady : NetEvent → Bool
  | .ready read write => read != some .fail && write != some .fail
  | .timeout => false

variable {τ : Type} {texts : Texts} {m : IoModule τ}

/-- A service with the invariant `I` takes something of each block it is offered, as long as it
works and the blocks are those of `body`. -/
def Accepting (m : IoModule τ) (I : τ → List (IoCall × IoAnswer) → Prop) (body : Bytes) : Prop :=
  ∀ t calls c, I t calls → takenData calls ++ c.data <+: body →
    (c.iseof = true → takenData calls ++ c.data = body) → (m.io t c).1.failed = false →
    (c.data ≠ [] → 0 < (m.io t c).1.taken) ∧ I (m.io t c).2 (calls ++ [(c, (m.io t c).1)])

/-- The block that waits for the service. -/
def ReadSide.waiting (r : ReadSide) (w : Ptr) : Bytes := (r.deref w).take r.writeToModulePending

/-- Where the read side stands: `taken` has been handed over and `block` waits. -/
def Ahead (rest body : Bytes) (last : LastChunk) (r : ReadSide) (input taken block : Bytes) : Prop :=
  (r.eofReceived = false ∧ ∃ left, body = taken ++ (block ++ left) ∧ Awaiting r input rest last false left) ∨
    (r.eofReceived = true ∧ body = taken ++ block ∧ Finished r input rest)

/-- The last call of the service was made with the block that waits. -/
def LastCall (q : Exchange τ) : Prop :=
  ∃ front c a, q.calls = front ++ [(c, a)] ∧ a.failed = false ∧ c.iseof = q.read.eofReceived ∧
    a.taken + q.read.writeToModulePending = c.data.length

/-- What the variables of the loop say at its three points. -/
def BodyLoop.Outer (s : BodyLoop τ) : Prop :=
  match s.point with
  | .inner => True
  | .test => s.q.read.unread.length < bufsize ∧ LastCall s.q ∧
      s.action = ⟨decide (s.q.read.writeToModulePending = 0), decide (s.q.write.remainSendBlockBytes ≠ 0)⟩
  | .top => s.action.read = true →
      s.q.read.writeToModulePending = 0 ∧ s.q.read.eofReceived = false ∧ s.q.read.unread.length < bufsize

/-- The state of a delivery of `body`, with the block at `w` waiting. -/
structure Holding (calm : Prop) (I : τ → List (IoCall × IoAnswer) → Prop) (rest body : Bytes) (last : LastChunk)
    (q : Exchange τ) (w : Ptr) : Prop where
  block : (q.read.waiting w).length = q.read.writeToModulePending
  pointer : 0 ≤ w.offset
  ahead : Ahead rest body last q.read q.conn.input (takenData q.calls) (q.read.waiting w)
  small : q.read.unread.length ≤ bufsize
  room : q.read.writeToModulePending ≠ 0 → q.read.unread.length < bufsize
  service : I q.data q.calls
  told : q.read.eofReceived = true → ∃ front c, q.calls = front ++ [c] ∧ c.1.iseof = true
  steady : calm → ∀ e ∈ q.conn.sched, e.steady = true

def Delivering (calm : Prop) (I : τ → List (IoCall × IoAnswer) → Prop) (rest body : Bytes) (last : LastChunk)
    (s : BodyLoop τ) : Prop :=
  Holding calm I rest body last s.q s.wchunkdata ∧ s.Outer

/-- The loop gives up on data that waits. -/
def BodyLoop.Stalled (s : BodyLoop τ) : Prop :=
  s.point = .test ∧ s.q.read.writeToModulePending ≠ 0 ∧ s.q.write.remainSendBlockBytes = 0 ∧
    s.lockStatus = s.q.write.dataLocked

instance (s : BodyLoop τ) : Decidable s.Stalled := inferInstanceAs (Decidable (_ ∧ _))

/-- The loop parses behind the end of the body. -/
def BodyLoop.Overrun (s : BodyLoop τ) : Prop :=
  s.point = .inner ∧ s.q.read.eofReceived = true ∧ s.q.read.writeToModulePending = 0 ∧
    s.q.read.pstrblockReadLen ≠ 0

instance (s : BodyLoop τ) : Decidable s.Overrun := inferInstanceAs (Decidable (_ ∧ _))

/-- The loop waits for the socket and the wait times out. -/
def BodyLoop.TimedOut (s : BodyLoop τ) : Prop :=
  s.point = .top ∧ s.action.any = true ∧ (s.q.conn.waitForData s.action).1 = none

/-- What is left to do: events of the socket, bytes of the body, and the way to the next of either. -/
def BodyLoop.weight (body : Bytes) (s : BodyLoop τ) : Nat :=
  3 * s.q.conn.sched.length + 3 * (body.length - (takenData s.q.calls).length) +
    match s.point with
    | .top => if s.action.any then 0 else if s.q.read.writeToModulePending = 0 then 3 else 2
    | .inner => if s.q.read.writeToModulePending = 0 then 2 else 1
    | .test => if s.q.read.writeToModulePending = 0 then 1 else 3

/-- How a delivery ends. -/
inductive Handed (m : IoModule τ) (I : τ → List (IoCall × IoAnswer) → Prop) (rest body : Bytes) (out : CiRet × Exchange τ) :
    Prop where
  | whole (ret : out.1 = .ok) (taken : takenData out.2.calls = body) (service : I out.2.data out.2.calls)
      (ended : ∃ front c, out.2.calls = front ++ [c] ∧ c.1.iseof = true)
      (finished : Finished out.2.read out.2.conn.input rest)
  | failed (ret : out.1 = .error) (front : List (IoCall × IoAnswer)) (c : IoCall) (a : IoAnswer) (t : τ)
      (calls : out.2.calls = front ++ [(c, a)]) (service : I t front) (part : takenData front ++ c.data <+: body)
      (final : c.iseof = true → takenData front ++ c.data = body)
      (answer : m.io t c = (a, out.2.data)) (failure : a.failed = true)

/-! ### The wait -/

/-- What a wait returns; on a calm socket nothing fails. -/
theorem waitEvents_steady {calm : Prop} {what : Wait} {sched rest : List NetEvent} {read write : Option NetRes}
    (steady : calm → ∀ e ∈ sched, e.steady = true) (wait : waitEvents what sched = (some (read, write), rest)) :
    (calm → read ≠ some .fail ∧ write ≠ some .fail) ∧ (read.isSome = true → what.read = true) ∧
      rest.length < sched.length ∧ (calm → ∀ e ∈ rest, e.steady = true) := by
  induction sched with
  | nil => cases wait
  | cons e es ih =>
      have later : calm → ∀ e ∈ es, e.steady = true :=
        fun quiet e member => steady quiet e (List.mem_cons_of_mem _ member)
      cases e with
      | timeout => cases wait
      | ready r w =>
          have first : calm → r ≠ some .fail ∧ w ≠ some .fail := by
            intro quiet
            have here := steady quiet _ List.mem_cons_self
            simpa only [NetEvent.steady, Bool.and_eq_true, bne_iff_ne] using here
          simp only [waitEvents] at wait
          by_cases ready : ((if what.read then r else none).isSome ||
              (if what.write then w else none).isSome) = true
          · rw [if_pos ready, Prod.mk.injEq, Option.some.injEq, Prod.mk.injEq] at wait
            obtain ⟨⟨rfl, rfl⟩, rfl⟩ := wait
            refine ⟨fun quiet => ⟨?_, ?_⟩, ?_, by simp, later⟩
            · split
              · exact (first quiet).1
              · simp
            · split
              · exact (first quiet).2
              · simp
            · intro asked
              split at asked
              · assumption
              · cases asked
          · rw [if_neg ready] at wait
            obtain ⟨noFail, asked, shorter, rest'⟩ := ih later wait
            exact ⟨noFail, asked, by simp only [List.length_cons]; omega, rest'⟩

/-- A wait on a socket that does not fail times out at the end of the schedule. -/
theorem waitEvents_exhausted {what : Wait} {sched : List NetEvent} (steady : ∀ e ∈ sched, e.steady = true)
    (wait : (waitEvents what sched).1 = none) : (waitEvents what sched).2 = [] := by
  induction sched with
  | nil => rfl
  | cons e es ih =>
      cases e with
      | timeout => exact absurd (steady .timeout List.mem_cons_self) (by decide)
      | ready r w =>
          simp only [waitEvents] at wait ⊢
          by_cases ready : ((if what.read then r else none).isSome ||
              (if what.write then w else none).isSome) = true
          · rw [if_pos ready] at wait
            cases wait
          · rw [if_neg ready] at wait ⊢
            exact ih (fun e member => steady e (List.mem_cons_of_mem _ member)) wait

/-- Nothing of the read side, the service and the client's data has changed. -/
structure SameRead (q q' : Exchange τ) : Prop where
  read : q'.read = q.read
  data : q'.data = q.data
  calls : q'.calls = q.calls
  input : q'.conn.input = q.conn.input
  sched : q'.conn.sched = q.conn.sched

theorem sendCurrentBlockData_conn {w w' : WriteSide} {c c' : Connection} {res : NetRes}
    (sent : sendCurrentBlockData w c res = some (w', c')) : c'.input = c.input ∧ c'.sched = c.sched := by
  simp only [sendCurrentBlockData] at sent
  split at sent
  · cases sent
    exact ⟨rfl, rfl⟩
  · cases res with
    | fail => simp [Connection.writeNonblock] at sent
    | bytes n =>
        simp only [Connection.writeNonblock, Option.some.injEq, Prod.mk.injEq] at sent
        rw [← sent.2]
        exact ⟨rfl, rfl⟩

theorem sendCurrentBlockData_some (w : WriteSide) (c : Connection) (n : Nat) :
    ∃ out, sendCurrentBlockData w c (.bytes n) = some out := by
  simp only [sendCurrentBlockData, Connection.writeNonblock]
  split <;> exact ⟨_, rfl⟩

theorem bodySend_frame (texts : Texts) (q : Exchange τ) (write : Option NetRes) :
    (∃ q', bodySend texts q write = .next q' ∧ SameRead q q') ∨
      write = some .fail ∧ ∃ q', bodySend texts q write = .done q' := by
  cases write with
  | none => exact .inl ⟨q, rfl, rfl, rfl, rfl, rfl, rfl⟩
  | some res =>
      simp only [bodySend]
      split
      · rename_i none
        cases res with
        | fail => exact .inr ⟨rfl, _, rfl⟩
        | bytes n =>
            obtain ⟨out, some⟩ := sendCurrentBlockData_some (if q.write.dataLocked = false ∧
              q.write.status = .nothing then (updateSendStatus texts q.write).2 else q.write) q.conn n
            rw [some] at none
            cases none
      · rename_i w conn sent
        obtain ⟨input, sched⟩ := sendCurrentBlockData_conn sent
        exact .inl ⟨_, rfl, rfl, rfl, rfl, input, sched⟩

/-- A read that fails ends the loop. -/
theorem bodyReceive_fail (q : Exchange τ) : ∃ q', bodyReceive q (some .fail) = .done q' := by
  simp only [bodyReceive, netDataRead, Connection.readNonblock]
  split
  · exact ⟨_, rfl⟩
  · rename_i fails result
    split at result
    · cases result
      exact absurd rfl fails
    · cases result
      exact absurd rfl fails

theorem headsOver_ret (w : WriteSide) : (headsOver w).1 ≠ .error := by
  simp only [headsOver]
  split <;> simp

theorem sendHead_ret (w : WriteSide) (status : SendStatus) (i : Nat) : (sendHead w status i).1 ≠ .error := by
  have last := headsOver_ret w
  simp only [sendHead]
  split
  · split
    · simp
    · exact last
  · exact last

/-- `update_send_status` cannot fail. -/
theorem updateSendStatus_ret (texts : Texts) (w : WriteSide) : (updateSendStatus texts w).1 ≠ .error := by
  cases status : w.status with
  | nothing => simp [updateSendStatus, status]
  | resphead => simpa [updateSendStatus, status] using sendHead_ret w .head1 0
  | head1 => simpa [updateSendStatus, status] using sendHead_ret w .head2 1
  | head2 => simpa [updateSendStatus, status] using sendHead_ret w .head3 2
  | head3 => simpa [updateSendStatus, status] using sendHead_ret w .head3 2
  | body => simp [updateSendStatus, status]
  | eof =>
      simp only [updateSendStatus, status]
      split <;> simp

theorem bodyEnter_frame (texts : Texts) (s : BodyLoop τ) (q : Exchange τ) :
    ∃ t, bodyEnter texts s q = .next t ∧ SameRead q t.q ∧ t.point = .inner ∧ t.wchunkdata = s.wchunkdata ∧
      t.parseChunkRet = .noStatus := by
  have ret := updateSendStatus_ret texts q.write
  simp only [bodyEnter]
  split
  · rename_i w updated
    split at updated
    · rw [updated] at ret
      exact absurd rfl ret
    · cases updated
  · exact ⟨_, rfl, ⟨rfl, rfl, rfl, rfl, rfl⟩, rfl, rfl, rfl⟩

variable {calm : Prop} {I : τ → List (IoCall × IoAnswer) → Prop} {rest body : Bytes} {last : LastChunk}

theorem Holding.of_same {q q' : Exchange τ} {w : Ptr} (holding : Holding calm I rest body last q w)
    (same : SameRead q q') : Holding calm I rest body last q' w where
  block := by
    rw [same.read]
    exact holding.block
  pointer := holding.pointer
  ahead := by
    rw [same.read, same.input, same.calls]
    exact holding.ahead
  small := by
    rw [same.read]
    exact holding.small
  room := by
    rw [same.read]
    exact holding.room
  service := by
    rw [same.data, same.calls]
    exact holding.service
  told := by
    rw [same.read, same.calls]
    exact holding.told
  steady := by
    rw [same.sched]
    exact holding.steady

theorem waiting_idle {r : ReadSide} (idle : r.writeToModulePending = 0) (w : Ptr) : r.waiting w = [] := by
  simp [ReadSide.waiting, idle]

/-- A read of the socket, made while nothing waits for the service. -/
theorem bodyReceive_holding {q : Exchange τ} {w : Ptr} {read : Option NetRes}
    (holding : Holding calm I rest body last q w) (works : read ≠ some .fail)
    (asked : read.isSome = true → q.read.writeToModulePending = 0 ∧ q.read.eofReceived = false ∧
      q.read.unread.length < bufsize) :
    ∃ q', bodyReceive q read = .next q' ∧ Holding calm I rest body last q' w ∧ q'.calls = q.calls ∧
      q'.conn.sched = q.conn.sched ∧ q'.read.writeToModulePending = q.read.writeToModulePending := by
  cases read with
  | none => exact ⟨q, rfl, holding, rfl, rfl, rfl⟩
  | some res =>
      obtain ⟨idle, open_, room⟩ := asked rfl
      cases res with
      | fail => exact absurd rfl works
      | bytes n =>
          rcases holding.ahead with ⟨-, left, split, awaiting⟩ | ⟨ended, -⟩
          · obtain ⟨got, amount, received, onward⟩ := netDataRead_awaiting q.conn n awaiting room
            obtain ⟨placed, unread⟩ := awaiting.placed.receive got
            have idle' : (q.read.receive got).writeToModulePending = 0 := idle
            refine ⟨{ q with
              read := q.read.receive got
              conn := { q.conn with input := q.conn.input.drop got.length } }, ?_, ⟨?_, holding.pointer, .inl
              ⟨open_, left, ?_, onward⟩, ?_, ?_, holding.service, holding.told, holding.steady⟩, rfl, rfl, rfl⟩
            · simp only [bodyReceive, received]
            · rw [waiting_idle idle', idle']
              rfl
            · rw [waiting_idle idle']
              rwa [waiting_idle idle] at split
            · change (q.read.receive got).unread.length ≤ bufsize
              rw [unread, List.length_append, amount, List.length_take]
              omega
            · intro busy
              exact absurd idle' busy
          · rw [open_] at ended
            cases ended

theorem bodyEnter_delivering (texts : Texts) (s : BodyLoop τ) {q : Exchange τ}
    (holding : Holding calm I rest body last q s.wchunkdata) :
    ∃ t, bodyEnter texts s q = .next t ∧ Delivering calm I rest body last t ∧
      t.weight body = 3 * q.conn.sched.length + 3 * (body.length - (takenData q.calls).length) +
        (if q.read.writeToModulePending = 0 then 2 else 1) := by
  obtain ⟨t, entered, same, inner, pointer, -⟩ := bodyEnter_frame texts s q
  refine ⟨t, entered, ⟨?_, ?_⟩, ?_⟩
  · rw [pointer]
    exact holding.of_same same
  · simp only [BodyLoop.Outer, inner]
  · simp only [BodyLoop.weight, inner, same.sched, same.calls, same.read]

/-- From the head of the outer loop to the inner one; only a time-out or a socket that fails ends it
here. -/
theorem bodyTop_delivering (texts : Texts) {s : BodyLoop τ} (state : Delivering calm I rest body last s) (top : s.point = .top) :
    s.TimedOut ∨ (¬ calm ∧ ∃ q, bodyTop texts s = .done (.error, q)) ∨
      ∃ t, bodyTop texts s = .next t ∧ Delivering calm I rest body last t ∧ t.weight body < s.weight body := by
  obtain ⟨holding, outer⟩ := state
  simp only [BodyLoop.Outer, top] at outer
  by_cases any : s.action.any = true
  · cases wait : s.q.conn.waitForData s.action with
    | mk result conn =>
        cases result with
        | none => exact .inl ⟨top, any, by rw [wait]⟩
        | some ready =>
            obtain ⟨read, write⟩ := ready
            right
            have frame := Connection.waitForData_frame wait
            have events : waitEvents s.action s.q.conn.sched = (some (read, write), conn.sched) := by
              simp only [Connection.waitForData, Prod.mk.injEq] at wait
              rw [← wait.2]
              exact Prod.ext wait.1 rfl
            obtain ⟨works, asked, shorter, steady⟩ := waitEvents_steady holding.steady events
            have waited : Holding calm I rest body last { s.q with conn := conn } s.wchunkdata := by
              refine ⟨holding.block, holding.pointer, ?_, holding.small, holding.room, holding.service,
                holding.told, steady⟩
              rw [frame]
              exact holding.ahead
            by_cases readFails : read = some .fail
            · subst readFails
              left
              obtain ⟨q1, received⟩ := bodyReceive_fail { s.q with conn := conn }
              refine ⟨fun quiet => (works quiet).1 rfl, q1, ?_⟩
              simp only [bodyTop, bodyWait, if_pos any, wait, bodyTransfer, received, Step.bind]
            · obtain ⟨q1, received, holding1, calls1, sched1, -⟩ :=
                bodyReceive_holding waited readFails (fun some => outer (asked some))
              rcases bodySend_frame texts q1 write with ⟨q2, sent, same⟩ | ⟨writeFails, q2, sent⟩
              · right
                obtain ⟨t, entered, state, weight⟩ :=
                  bodyEnter_delivering texts s (holding1.of_same same)
                refine ⟨t, ?_, state, ?_⟩
                · simp only [bodyTop, bodyWait, if_pos any, wait, bodyTransfer, received, Step.bind, sent]
                  exact entered
                · have sched : q2.conn.sched.length < s.q.conn.sched.length := by
                    rw [same.sched, sched1]
                    exact shorter
                  have calls : q2.calls = s.q.calls := same.calls.trans calls1
                  rw [weight, calls]
                  simp only [BodyLoop.weight, top, any, if_true]
                  split <;> omega
              · left
                refine ⟨fun quiet => (works quiet).2 writeFails, q2, ?_⟩
                simp only [bodyTop, bodyWait, if_pos any, wait, bodyTransfer, received, Step.bind, sent]
  · right
    right
    obtain ⟨t, entered, state, weight⟩ := bodyEnter_delivering texts s holding
    refine ⟨t, ?_, state, ?_⟩
    · simp only [bodyTop, bodyWait, if_neg any, Step.bind]
      exact entered
    · rw [weight]
      simp only [BodyLoop.weight, top, if_neg any]
      split <;> omega

/-! ### The inner loop -/

/-- The state between the parser and the service. If nothing is offered, the round is the last of
the inner loop. -/
structure Offering (calm : Prop) (I : τ → List (IoCall × IoAnswer) → Prop) (rest body : Bytes) (last : LastChunk)
    (s : BodyLoop τ) : Prop where
  block : (s.q.read.waiting s.wchunkdata).length = s.q.read.writeToModulePending
  pointer : 0 ≤ s.wchunkdata.offset
  ahead : Ahead rest body last s.q.read s.q.conn.input (takenData s.q.calls) (s.q.read.waiting s.wchunkdata)
  room : s.q.read.unread.length < bufsize
  service : I s.q.data s.q.calls
  steady : calm → ∀ e ∈ s.q.conn.sched, e.steady = true
  ready : s.q.read.writeToModulePending = 0 →
    s.q.read.pstrblockReadLen = 0 ∨ s.parseChunkRet = .needsMore ∨ s.parseChunkRet = .eof

theorem Ahead.placed {r : ReadSide} {input taken block : Bytes} (ahead : Ahead rest body last r input taken block) :
    r.Placed := by
  rcases ahead with ⟨-, left, -, awaiting⟩ | ⟨-, -, finished⟩
  · exact awaiting.placed
  · exact finished.placed

/-- A body that has not ended is longer than what follows it. -/
theorem Awaiting.longer {r : ReadSide} {input left : Bytes} {eof : Bool}
    (awaiting : Awaiting r input rest last eof left) : rest.length < r.unread.length + input.length := by
  obtain ⟨data, close, k, awaits, -⟩ := awaiting
  have stream := congrArg List.length awaits.stream
  have some := k.encode_pos
  simp only [List.length_append] at stream
  omega

/-- The parser is called when nothing waits, and cuts the next block off the body. -/
theorem bodyParse_delivering {s : BodyLoop τ} {fuel : Nat} (enough : 2 * bufsize + 1 < fuel)
    (holding : Holding calm I rest body last s.q s.wchunkdata)
    (inner : s.point = .inner) (within : ¬ s.Overrun) :
    ∃ t, bodyParse fuel s = some (.next t) ∧ Offering calm I rest body last t ∧ t.point = s.point ∧
      t.q.calls = s.q.calls ∧ t.q.conn = s.q.conn ∧
      (s.q.read.writeToModulePending ≠ 0 → t.q.read.writeToModulePending ≠ 0) ∧
      (t.q.read.eofReceived = true → s.q.read.eofReceived = true ∨ t.parseChunkRet = .eof) := by
  have count := holding.ahead.placed.unread_length
  have small := holding.small
  by_cases parses : s.q.read.pstrblockReadLen ≠ 0 ∧ s.q.read.writeToModulePending = 0
  · obtain ⟨some, idle⟩ := parses
    rcases holding.ahead with ⟨-, left, split, awaiting⟩ | ⟨ended, -⟩
    · obtain ⟨out, parsed, post⟩ := parseChunkData_awaiting awaiting idle fuel (by omega)
      have shorter := post.shorter
      rw [waiting_idle idle, List.nil_append] at split
      rcases post.ahead with ⟨ret, rfl, finished, -⟩ | ⟨left', rfl, onward, more⟩
      · have longer := awaiting.longer
        have stream := congrArg List.length finished.stream
        rw [List.length_append] at stream
        refine ⟨{ s with
          q := { s.q with read := { out.read with eofReceived := true } }
          wchunkdata := out.wdata
          parseChunkRet := .eof }, ?_, ⟨post.whole, post.pointer, .inr ⟨rfl, split, ?_⟩, ?_, holding.service,
          holding.steady, fun _ => .inr (.inr rfl)⟩, rfl, rfl, rfl, fun busy => absurd idle busy, fun _ => .inr rfl⟩
        · simp only [bodyParse, if_pos (And.intro some idle), parsed, ret]
        · exact ⟨⟨finished.placed.pointer, finished.placed.nonneg, finished.placed.room⟩, finished.stream,
            finished.current, finished.read⟩
        · change out.read.unread.length < bufsize
          omega
      · have count' := onward.placed.unread_length
        have same : out.read.eofReceived = false := by
          obtain ⟨data, close, k, -, -, same, -⟩ := onward
          exact same
        refine ⟨{ s with
          q := { s.q with read := out.read }
          wchunkdata := out.wdata
          parseChunkRet := out.ret }, ?_, ⟨post.whole, post.pointer, .inl ⟨same, left', split, onward⟩, ?_,
          holding.service, holding.steady, ?_⟩, rfl, rfl, rfl, fun busy => absurd idle busy, ?_⟩
        · rcases more with ⟨ret, -⟩ | ⟨ret, -⟩
          · simp only [bodyParse, if_pos (And.intro some idle), parsed, ret]
          · simp only [bodyParse, if_pos (And.intro some idle), parsed, ret]
        · change out.read.unread.length < bufsize
          rcases more with ⟨-, nonempty⟩ | ⟨-, starved⟩
          · have bytes := List.length_pos_iff.mpr nonempty
            have whole := post.whole
            omega
          · exact starved.room
        · intro none
          change out.read.writeToModulePending = 0 at none
          rcases more with ⟨-, nonempty⟩ | ⟨ret, -⟩
          · have bytes := List.length_pos_iff.mpr nonempty
            have whole := post.whole
            omega
          · exact .inr (.inl ret)
        · intro ended
          change out.read.eofReceived = true at ended
          rw [same] at ended
          cases ended
    · exact absurd ⟨inner, ended, idle, some⟩ within
  · refine ⟨s, by simp only [bodyParse, if_neg parses], ⟨holding.block, holding.pointer, holding.ahead, ?_,
      holding.service, holding.steady, ?_⟩, rfl, rfl, rfl, id, .inl⟩
    · by_cases idle : s.q.read.writeToModulePending = 0
      · have zero : s.q.read.pstrblockReadLen = 0 := by
          by_contra some
          exact parses ⟨some, idle⟩
        have some : 0 < bufsize := by decide
        omega
      · exact holding.room idle
    · intro idle
      left
      by_contra some
      exact parses ⟨some, idle⟩

theorem bodyRoom_frame (s : BodyLoop τ) :
    SameRead s.q (bodyRoom s).1.q ∧ (bodyRoom s).1.wchunkdata = s.wchunkdata ∧
      (bodyRoom s).1.parseChunkRet = s.parseChunkRet ∧ (bodyRoom s).1.point = s.point := by
  have anchor : SameRead s.q (bodyAnchor s).q ∧ (bodyAnchor s).wchunkdata = s.wchunkdata ∧
      (bodyAnchor s).parseChunkRet = s.parseChunkRet ∧ (bodyAnchor s).point = s.point := by
    rw [bodyAnchor]
    split <;> exact ⟨⟨rfl, rfl, rfl, rfl, rfl⟩, rfl, rfl, rfl⟩
  simp only [bodyRoom]
  split
  · split
    · exact anchor
    · exact ⟨⟨anchor.1.read, anchor.1.data, anchor.1.calls, anchor.1.input, anchor.1.sched⟩, anchor.2⟩
  · exact ⟨⟨rfl, rfl, rfl, rfl, rfl⟩, rfl, rfl, rfl⟩

/-- What is left of the block once the service has taken `k` bytes of it. -/
theorem waiting_taken {r : ReadSide} {w : Ptr} (pointer : 0 ≤ w.offset) (k : Nat)
    (room : k ≤ (r.waiting w).length) :
    (r.accepted k).waiting (w.add k) = (r.waiting w).drop k := by
  cases w with
  | null => simp [ReadSide.waiting, ReadSide.accepted, ReadSide.deref, ReadSide.region, Ptr.add]
  | rbuf o =>
      have offset : (o + (k : Int)).toNat = o.toNat + k := by
        simp only [Ptr.offset] at pointer
        omega
      simp only [ReadSide.waiting, ReadSide.accepted, ReadSide.deref, ReadSide.region, Ptr.add, Ptr.offset,
        offset, List.drop_take, List.drop_drop]
  | head o =>
      have offset : (o + (k : Int)).toNat = o.toNat + k := by
        simp only [Ptr.offset] at pointer
        omega
      simp only [ReadSide.waiting, ReadSide.accepted, ReadSide.deref, ReadSide.region, Ptr.add, Ptr.offset,
        offset, List.drop_take, List.drop_drop]

theorem Ptr.add_offset {w : Ptr} (pointer : 0 ≤ w.offset) (k : Nat) : 0 ≤ (w.add k).offset := by
  cases w with
  | null => exact Int.le_refl _
  | rbuf o =>
      simp only [Ptr.offset, Ptr.add] at pointer ⊢
      omega
  | head o =>
      simp only [Ptr.offset, Ptr.add] at pointer ⊢
      omega

theorem bodyCall_data (s : BodyLoop τ) (rbytes : Nat) :
    (bodyCall s rbytes).data = s.q.read.waiting s.wchunkdata := by
  by_cases null : s.wchunkdata = .null
  · simp [bodyCall, IoCall.data, null, ReadSide.waiting, ReadSide.deref, ReadSide.region]
  · simp [bodyCall, IoCall.data, null, ReadSide.waiting]

theorem Finished.take {r : ReadSide} {input : Bytes} (finished : Finished r input rest) (n : Nat) :
    Finished { r with writeToModulePending := n } input rest :=
  ⟨⟨finished.placed.pointer, finished.placed.nonneg, finished.placed.room⟩, finished.stream, finished.current,
    finished.read⟩

theorem Ahead.take {r : ReadSide} {input taken block : Bytes} (ahead : Ahead rest body last r input taken block)
    (k : Nat) : Ahead rest body last (r.accepted k) input (taken ++ block.take k) (block.drop k) := by
  rcases ahead with ⟨open_, left, split, awaiting⟩ | ⟨ended, split, finished⟩
  · refine .inl ⟨open_, left, ?_, awaiting.take _⟩
    rw [split, List.append_assoc, ← List.append_assoc (block.take k), List.take_append_drop]
  · refine .inr ⟨ended, ?_, finished.take _⟩
    rw [split, List.append_assoc, List.take_append_drop]

theorem Ahead.part {r : ReadSide} {input taken block : Bytes} (ahead : Ahead rest body last r input taken block) :
    taken ++ block <+: body := by
  rcases ahead with ⟨-, left, split, -⟩ | ⟨-, split, -⟩
  · exact ⟨left, by rw [split, List.append_assoc]⟩
  · exact ⟨[], by rw [split, List.append_nil]⟩

/-- At the end of the body everything that is left waits for the service. -/
theorem Ahead.final {r : ReadSide} {input taken block : Bytes} (ahead : Ahead rest body last r input taken block)
    (ended : r.eofReceived = true) : taken ++ block = body := by
  rcases ahead with ⟨open_, -⟩ | ⟨-, split, -⟩
  · rw [ended] at open_
    cases open_
  · exact split.symm

/-- The answer of the service is taken off the block that waits. -/
theorem bodyTake_holding (rbytes : Nat) {s : BodyLoop τ} {c : IoCall} {a : IoAnswer} {q : Exchange τ} {offset : Nat}
    (accepting : Accepting m I body) (offering : Offering calm I rest body last s)
    (data : c.data = s.q.read.waiting s.wchunkdata) (ended : c.iseof = s.q.read.eofReceived)
    (call : s.q.call m offset c = (a, q)) (works : a.failed = false) :
    Holding calm I rest body last (bodyTake { s with q := q } rbytes a).q (bodyTake { s with q := q } rbytes a).wchunkdata ∧
      (s.q.read.writeToModulePending ≠ 0 → 0 < a.taken) := by
  simp only [Exchange.call, Prod.mk.injEq] at call
  obtain ⟨rfl, rfl⟩ := call
  have part := offering.ahead.part
  have final := offering.ahead.final
  rw [← data] at part final
  rw [← ended] at final
  obtain ⟨accepts, kept⟩ := accepting _ _ _ offering.service part final works
  have taken := m.taken s.q.data c
  rw [data] at taken
  have waiting := waiting_taken offering.pointer (m.io s.q.data c).1.taken taken
  have length := offering.block
  constructor
  · refine ⟨?_, Ptr.add_offset offering.pointer _, ?_, Nat.le_of_lt offering.room, fun _ => offering.room, kept,
      fun eof => ⟨s.q.calls, (c, (m.io s.q.data c).1), rfl, ended.trans eof⟩, offering.steady⟩
    · change ((s.q.read.accepted _).waiting (s.wchunkdata.add _)).length =
        (s.q.read.accepted _).writeToModulePending
      rw [waiting, List.length_drop, length]
      rfl
    · change Ahead rest body last (s.q.read.accepted _) s.q.conn.input
        (takenData (s.q.calls ++ [(c, (m.io s.q.data c).1)])) ((s.q.read.accepted _).waiting (s.wchunkdata.add _))
      rw [takenData_append, waiting, data]
      exact offering.ahead.take _
  · intro busy
    apply accepts
    rw [data]
    intro empty
    rw [empty] at length
    exact busy length.symm

theorem Offering.of_room {s : BodyLoop τ} (offering : Offering calm I rest body last s) :
    Offering calm I rest body last (bodyRoom s).1 := by
  obtain ⟨same, pointer, ret, -⟩ := bodyRoom_frame s
  refine ⟨?_, ?_, ?_, ?_, ?_, ?_, ?_⟩
  · rw [same.read, pointer]
    exact offering.block
  · rw [pointer]
    exact offering.pointer
  · rw [same.read, same.input, same.calls, pointer]
    exact offering.ahead
  · rw [same.read]
    exact offering.room
  · rw [same.data, same.calls]
    exact offering.service
  · rw [same.sched]
    exact offering.steady
  · rw [same.read, ret]
    exact offering.ready

/-- The end of the inner loop keeps the delivery. -/
theorem bodyFormat_delivering {s : BodyLoop τ} (holding : Holding calm I rest body last s.q s.wchunkdata)
    (room : s.q.read.unread.length < bufsize) (call : LastCall s.q) :
    Delivering calm I rest body last (bodyFormat s) := by
  have same : SameRead s.q (bodyFormat s).q := ⟨rfl, rfl, rfl, rfl, rfl⟩
  refine ⟨?_, room, call, rfl⟩
  by_cases idle : s.q.read.writeToModulePending = 0
  · have dropped : (bodyFormat s).wchunkdata = .null := by simp [bodyFormat, idle]
    have held := holding.of_same same
    have idle' : (bodyFormat s).q.read.writeToModulePending = 0 := idle
    have none := waiting_idle idle'
    refine ⟨?_, ?_, ?_, held.small, held.room, held.service, held.told, held.steady⟩
    · rw [none, idle']
      rfl
    · rw [dropped]
      exact Int.le_refl _
    · rw [none, ← none s.wchunkdata]
      exact held.ahead
  · have kept : (bodyFormat s).wchunkdata = s.wchunkdata := by simp [bodyFormat, idle]
    rw [kept]
    exact holding.of_same same

/-- What the test of the inner loop does to a state behind the service. -/
theorem bodyRepeat_delivering {s : BodyLoop τ} {noIo : Bool} {sched taken pending : Nat}
    (holding : Holding calm I rest body last s.q s.wchunkdata) (inner : s.point = .inner)
    (room : s.q.read.unread.length < bufsize) (call : LastCall s.q)
    (ready : pending = 0 → s.q.read.pstrblockReadLen = 0 ∨ s.parseChunkRet = .needsMore ∨ s.parseChunkRet = .eof)
    (events : s.q.conn.sched.length = sched)
    (more : pending ≠ 0 → taken < (takenData s.q.calls).length)
    (none : pending = 0 → (takenData s.q.calls).length = taken ∧ s.q.read.writeToModulePending = 0) :
    Delivering calm I rest body last (bodyRepeat noIo s) ∧
      (bodyRepeat noIo s).weight body <
        3 * sched + 3 * (body.length - taken) + (if pending = 0 then 2 else 1) := by
  have part := holding.ahead.part.length_le
  rw [List.length_append] at part
  by_cases again : noIo = false ∧ s.q.read.pstrblockReadLen ≠ 0 ∧ s.parseChunkRet ≠ .needsMore ∧
      s.parseChunkRet ≠ .eof ∧ s.rchunkisfull = false
  · rw [bodyRepeat, if_pos again]
    have busy : pending ≠ 0 := by
      intro idle
      rcases ready idle with zero | needs | eof
      · exact again.2.1 zero
      · exact again.2.2.1 needs
      · exact again.2.2.2.1 eof
    have progress := more busy
    refine ⟨⟨holding, by simp only [BodyLoop.Outer, inner]⟩, ?_⟩
    simp only [BodyLoop.weight, inner, events, if_neg busy]
    split <;> omega
  · rw [bodyRepeat, if_neg again]
    refine ⟨bodyFormat_delivering holding room call, ?_⟩
    have weight : (bodyFormat s).weight body = 3 * s.q.conn.sched.length +
        3 * (body.length - (takenData s.q.calls).length) +
        (if s.q.read.writeToModulePending = 0 then 1 else 3) := rfl
    rw [weight, events]
    by_cases idle : pending = 0
    · obtain ⟨same, drained⟩ := none idle
      rw [if_pos idle, if_pos drained]
      omega
    · have progress := more idle
      rw [if_neg idle]
      split <;> omega

/-- A round of the inner loop: the service takes part of the block, or fails. -/
theorem bodyServe_delivering {s : BodyLoop τ} (accepting : Accepting m I body)
    (offering : Offering calm I rest body last s) (inner : s.point = .inner) :
    (∃ t, bodyServe m s = .next t ∧ Delivering calm I rest body last t ∧
      t.weight body < 3 * s.q.conn.sched.length + 3 * (body.length - (takenData s.q.calls).length) +
        (if s.q.read.writeToModulePending = 0 then 2 else 1)) ∨
    ∃ out, bodyServe m s = .done out ∧ Handed m I rest body out := by
  obtain ⟨same, pointer, ret, point⟩ := bodyRoom_frame s
  have offering' := offering.of_room
  have data := bodyCall_data (bodyRoom s).1 (bodyRoom s).2
  cases call : (bodyRoom s).1.q.call m ((bodyRoom s).1.rchunkdata.getD 0) (bodyCall (bodyRoom s).1 (bodyRoom s).2) with
  | mk a q =>
      have serve : bodyServe m s = if a.failed then .done (.error, q) else
          .next (bodyRepeat (decide (a.produced.length (bodyRoom s).2 = 0 ∧ a.taken = 0))
            (bodyTake { (bodyRoom s).1 with q := q } (bodyRoom s).2 a)) := by
        simp only [bodyServe, call]
      rw [serve]
      by_cases failed : a.failed = true
      · right
        refine ⟨_, if_pos failed, .failed rfl s.q.calls (bodyCall (bodyRoom s).1 (bodyRoom s).2) a s.q.data ?_
          offering.service ?_ ?_ ?_ failed⟩
        · simp only [Exchange.call, Prod.mk.injEq] at call
          rw [← call.2, ← call.1, same.calls]
        · rw [data, ← same.calls]
          exact offering'.ahead.part
        · rw [data, ← same.calls]
          exact offering'.ahead.final
        · simp only [Exchange.call, Prod.mk.injEq] at call
          rw [← call.2, ← call.1, same.data]
      · left
        rw [if_neg failed]
        have works : a.failed = false := by simpa using failed
        obtain ⟨holding, accepts⟩ := bodyTake_holding (bodyRoom s).2 accepting offering' data rfl call works
        have taken := m.taken (bodyRoom s).1.q.data (bodyCall (bodyRoom s).1 (bodyRoom s).2)
        simp only [Exchange.call, Prod.mk.injEq] at call
        obtain ⟨rfl, rfl⟩ := call
        rw [data, offering'.block, same.read] at taken
        have log : (takenData ((bodyRoom s).1.q.calls ++
            [(bodyCall (bodyRoom s).1 (bodyRoom s).2, (m.io (bodyRoom s).1.q.data
              (bodyCall (bodyRoom s).1 (bodyRoom s).2)).1)])).length = (takenData s.q.calls).length +
            (m.io (bodyRoom s).1.q.data (bodyCall (bodyRoom s).1 (bodyRoom s).2)).1.taken := by
          rw [takenData_append, List.length_append, same.calls, List.length_take, data, offering'.block, same.read]
          dsimp only
          omega
        rw [same.read] at accepts
        refine ⟨_, rfl, bodyRepeat_delivering holding (point.trans inner) ?_ ?_ ?_ ?_ ?_ ?_⟩
        · exact offering'.room
        · refine ⟨_, _, _, rfl, works, rfl, ?_⟩
          rw [data, offering'.block]
          change _ + ((bodyRoom s).1.q.read.writeToModulePending - _) = _
          rw [same.read]
          omega
        · intro idle
          have ready := offering'.ready (by rw [same.read]; exact idle)
          exact ready
        · exact congrArg List.length same.sched
        · intro busy
          have some := accepts busy
          change _ < (takenData (_ ++ [_])).length
          rw [log]
          omega
        · intro idle
          refine ⟨?_, ?_⟩
          · change (takenData (_ ++ [_])).length = _
            rw [log]
            omega
          · change (bodyRoom s).1.q.read.writeToModulePending - _ = 0
            rw [same.read]
            omega

/-- The test of the outer loop: it goes on, everything has been handed over, or it gives up. -/
theorem bodyTest_delivering {s : BodyLoop τ} (state : Delivering calm I rest body last s) (test : s.point = .test) :
    (∃ t, bodyTest s = .next t ∧ Delivering calm I rest body last t ∧ t.weight body < s.weight body) ∨
    (∃ out, bodyTest s = .done out ∧ Handed m I rest body out) ∨
    bodyTest s = .done (BodyLoop.leave s.q) ∧ s.Stalled := by
  obtain ⟨holding, outer⟩ := state
  simp only [BodyLoop.Outer, test] at outer
  obtain ⟨room, -, action⟩ := outer
  by_cases onward : (s.q.read.eofReceived = false ∨ s.q.read.writeToModulePending ≠ 0) ∧
      (s.action.any ∨ s.lockStatus ≠ s.q.write.dataLocked)
  · left
    refine ⟨_, if_pos onward, ⟨holding, ?_⟩, ?_⟩
    · intro reads
      change s.action.read = true at reads
      rw [action] at reads
      have idle : s.q.read.writeToModulePending = 0 := of_decide_eq_true reads
      exact ⟨idle, onward.1.resolve_right (fun busy => busy idle), room⟩
    · have any : s.q.read.writeToModulePending = 0 → s.action.any = true := by
        intro idle
        rw [action]
        simp [Wait.any, idle]
      simp only [BodyLoop.weight, test]
      by_cases idle : s.q.read.writeToModulePending = 0
      · rw [if_pos (any idle), if_pos idle]
        omega
      · rw [if_neg idle, if_neg idle]
        split <;> omega
  · right
    by_cases idle : s.q.read.writeToModulePending = 0
    · left
      have ended : s.q.read.eofReceived = true := by
        by_contra open_
        refine onward ⟨.inl (by simpa using open_), .inl ?_⟩
        rw [action]
        simp [Wait.any, idle]
      rcases holding.ahead with ⟨open_, -⟩ | ⟨-, split, finished⟩
      · rw [ended] at open_
        cases open_
      · rw [waiting_idle idle, List.append_nil] at split
        exact ⟨_, if_neg onward, .whole (by simp [BodyLoop.leave, ended]) split.symm holding.service
          (holding.told ended) finished⟩
    · right
      refine ⟨if_neg onward, test, idle, ?_, ?_⟩
      · by_contra writes
        refine onward ⟨.inr idle, .inl ?_⟩
        rw [action]
        simp [Wait.any, writes]
      · by_contra unlocked
        exact onward ⟨.inr idle, .inr unlocked⟩

/-- A step of a delivery goes on with less to do, hands the body over or gives up on it, or meets a
service that fails or a socket that times out. -/
theorem bodyStep_delivering (texts : Texts) (fuel : Nat) {s : BodyLoop τ} (enough : 2 * bufsize + 1 < fuel)
    (accepting : Accepting m I body) (state : Delivering calm I rest body last s) (within : ¬ s.Overrun) :
    (∃ t, bodyStep texts m fuel s = .next t ∧ Delivering calm I rest body last t ∧ t.weight body < s.weight body) ∨
    (∃ out, bodyStep texts m fuel s = .done out ∧ Handed m I rest body out) ∨
    (bodyStep texts m fuel s = .done (BodyLoop.leave s.q) ∧ s.Stalled) ∨ s.TimedOut ∨
    ¬ calm ∧ s.point = .top ∧ ∃ q, bodyStep texts m fuel s = .done (.error, q) := by
  simp only [bodyStep]
  cases point : s.point with
  | top =>
      rcases bodyTop_delivering texts state point with timeout | ⟨loud, failed⟩ | next
      · exact .inr (.inr (.inr (.inl timeout)))
      · exact .inr (.inr (.inr (.inr ⟨loud, rfl, failed⟩)))
      · exact .inl next
  | inner =>
      obtain ⟨t, parsed, offering, point', calls, conn, busy, -⟩ :=
        bodyParse_delivering enough state.1 point within
      simp only [parsed, Step.bind]
      rcases bodyServe_delivering accepting offering (point'.trans point) with ⟨u, next, state', less⟩ | done
      · refine .inl ⟨u, next, state', ?_⟩
        rw [calls, conn] at less
        have weight : s.weight body = 3 * s.q.conn.sched.length +
            3 * (body.length - (takenData s.q.calls).length) +
            (if s.q.read.writeToModulePending = 0 then 2 else 1) := by
          simp only [BodyLoop.weight, point]
        rw [weight]
        by_cases idle : s.q.read.writeToModulePending = 0
        · rw [if_pos idle]
          split at less <;> omega
        · rw [if_neg (busy idle)] at less
          rw [if_neg idle]
          exact less
      · exact .inr (.inl done)
  | test =>
      rcases bodyTest_delivering (m := m) state point with next | done | stalled
      · exact .inl next
      · exact .inr (.inl done)
      · exact .inr (.inr (.inl stalled))

/-! ### Whole runs -/

/-- The start of a delivery. -/
theorem BodyLoop.start_delivering {q : Exchange τ} (k : Coding) (fits : Fits k) (atBody : q.read.AtBody)
    (stream : q.read.unread ++ q.conn.input = k.encode ++ rest) (small : q.read.unread.length ≤ bufsize)
    (open_ : q.read.eofReceived = false) (fresh : q.calls = []) (service : I q.data [])
    (steady : calm → ∀ e ∈ q.conn.sched, e.steady = true) :
    Delivering calm I rest k.body k.last (.start q) := by
  have awaiting := atBody.awaiting fits stream
  rw [open_] at awaiting
  have idle := atBody.idle
  have none : q.read.waiting .null = [] := waiting_idle idle _
  refine ⟨⟨?_, Int.le_refl _, .inl ⟨open_, k.body, ?_, awaiting⟩, small, fun busy => absurd idle busy, ?_, ?_,
    steady⟩, ?_⟩
  · change (q.read.waiting .null).length = q.read.writeToModulePending
    rw [none, idle]
    rfl
  · change k.body = takenData q.calls ++ (q.read.waiting .null ++ k.body)
    simp [none, fresh, takenData]
  · change I q.data q.calls
    rw [fresh]
    exact service
  · intro ended
    change q.read.eofReceived = true at ended
    rw [open_] at ended
    cases ended
  · intro reads
    change (if q.read.pstrblockReadLen = 0 then Wait.forRead else Wait.none).read = true at reads
    have count := atBody.placed.unread_length
    have some : 0 < bufsize := by decide
    split at reads
    · refine ⟨idle, open_, ?_⟩
      change q.read.unread.length < bufsize
      omega
    · cases reads

theorem BodyLoop.TimedOut.done (texts : Texts) (m : IoModule τ) (fuel : Nat) {s : BodyLoop τ} (timeout : s.TimedOut) :
    bodyStep texts m fuel s =
      .done (BodyLoop.leave { s.q with conn := (s.q.conn.waitForData s.action).2 }) := by
  obtain ⟨top, any, none⟩ := timeout
  cases wait : s.q.conn.waitForData s.action with
  | mk result conn =>
      rw [wait] at none
      cases none
      simp only [bodyStep, top, bodyTop, bodyWait, if_pos any, wait, Step.bind]

/-- Every state of a run that does not run over is one of a delivery. -/
theorem Delivering.visits {s t : BodyLoop τ} {fuel : Nat} (enough : 2 * bufsize + 1 < fuel)
    (accepting : Accepting m I body) (state : Delivering calm I rest body last s)
    (within : ∀ u, Visits (bodyStep texts m fuel) s u → ¬ u.Overrun)
    (visited : Visits (bodyStep texts m fuel) s t) : Delivering calm I rest body last t := by
  have pass : ∀ u, Delivering calm I rest body last u ∧ Visits (bodyStep texts m fuel) s u →
      (bodyStep texts m fuel u).All
        (fun u => Delivering calm I rest body last u ∧ Visits (bodyStep texts m fuel) s u) (fun _ => True) := by
    rintro u ⟨state', visited'⟩
    rcases bodyStep_delivering texts fuel enough accepting state' (within u visited') with
      ⟨v, next, state'', -⟩ | ⟨out, done, -⟩ | ⟨done, -⟩ | timeout | ⟨-, -, q, done⟩
    · rw [next]
      exact ⟨state'', visited'.snoc next⟩
    · rw [done]
      exact trivial
    · rw [done]
      exact trivial
    · rw [timeout.done texts m fuel]
      exact trivial
    · rw [done]
      exact trivial
  exact (visited.inv pass ⟨state, .here s⟩).1

end IcapService
