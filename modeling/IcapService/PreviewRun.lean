import IcapService.Delivery
import IcapService.DoRequest

/-! `read_preview_data` reads a preview, however its bytes arrive. -/

namespace IcapService

open CString Machine Chunked

variable {τ : Type}

/-- The preview leaves the write side, the service, the output and what the client holds back alone. -/
structure Untouched (q q' : Exchange τ) : Prop where
  write : q'.write = q.write
  calls : q'.calls = q.calls
  data : q'.data = q.data
  output : q'.conn.output = q.conn.output
  held : q'.conn.held = q.conn.held

theorem netDataRead_held (r : ReadSide) (c : Connection) (res : NetRes) :
    (netDataRead r c res).2.2.held = c.held ∧ (netDataRead r c res).2.2.output = c.output := by
  simp only [netDataRead]
  split
  · exact ⟨rfl, rfl⟩
  · cases res with
    | fail => exact ⟨rfl, rfl⟩
    | bytes n => exact ⟨rfl, rfl⟩

theorem previewStep_untouched (size fuel : Nat) (p : PreviewLoop τ) :
    (previewStep size fuel p).All (fun p' => Untouched p.q p'.q) (fun out => Untouched p.q out.2.q) := by
  simp only [previewStep]
  split
  · simp only [previewRead]
    split
    · rename_i res write conn wait
      obtain ⟨held, output⟩ := netDataRead_held p.q.read conn res
      rw [Connection.waitForData_frame wait] at held output
      split
      · rename_i read conn' result
        rw [Connection.waitForData_frame wait] at result
        rw [result] at held output
        exact ⟨rfl, rfl, rfl, output, held⟩
      · rename_i ret read conn' _ result
        rw [Connection.waitForData_frame wait] at result
        rw [result] at held output
        exact ⟨rfl, rfl, rfl, output, held⟩
    · rename_i conn _ wait
      have frame := Connection.waitForData_frame wait
      refine ⟨rfl, rfl, rfl, ?_, ?_⟩
      · change conn.output = p.q.conn.output
        rw [frame]
      · change conn.held = p.q.conn.held
        rw [frame]
  · split
    · exact ⟨rfl, rfl, rfl, rfl, rfl⟩
    · simp only [previewTake]
      split
      · exact ⟨rfl, rfl, rfl, rfl, rfl⟩
      · split
        · exact ⟨rfl, rfl, rfl, rfl, rfl⟩
        · split <;> exact ⟨rfl, rfl, rfl, rfl, rfl⟩

/-- Where the loop stands in a preview that carries `body`. -/
structure Previewing (calm : Prop) (rest body : Bytes) (last : LastChunk) (p : PreviewLoop τ) : Prop where
  idle : p.q.read.writeToModulePending = 0
  ahead : ∃ left, body = p.previewData ++ left ∧ Awaiting p.q.read p.q.conn.input rest last false left
  small : p.q.read.unread.length ≤ bufsize
  room : p.reading = true → p.q.read.unread.length < bufsize
  steady : calm → ∀ e ∈ p.q.conn.sched, e.steady = true

/-- The preview has been read: `body` is there, and what was received behind it has been dropped. -/
structure Previewed (calm : Prop) (rest body : Bytes) (last : LastChunk) (out : CiRet × PreviewLoop τ) : Prop where
  ret : out.1 = if last.final then .eof else .ok
  data : out.2.previewData = body
  eof : out.2.q.read.eofReceived = last.final
  atBody : out.2.q.read.AtBody
  none : out.2.q.read.unread = []
  input : out.2.q.conn.input <:+ rest
  steady : calm → ∀ e ∈ out.2.q.conn.sched, e.steady = true

/-- What is left to do: events of the socket and bytes of the preview. -/
def PreviewLoop.weight (body : Bytes) (p : PreviewLoop τ) : Nat :=
  2 * p.q.conn.sched.length + 2 * (body.length - p.previewData.length) + if p.reading then 0 else 1

variable {calm : Prop} {rest body : Bytes} {last : LastChunk} {size fuel : Nat} {p : PreviewLoop τ}

theorem waitEvents_forRead (sched : List NetEvent) :
    (waitEvents .forRead sched).1 = none ∨ ∃ res, (waitEvents .forRead sched).1 = some (some res, none) := by
  induction sched with
  | nil => exact .inl rfl
  | cons e es ih =>
      cases e with
      | timeout => exact .inl rfl
      | ready read write =>
          cases read with
          | none => exact ih
          | some res => exact .inr ⟨res, rfl⟩

/-- The read of the socket brings more of the preview, or fails. -/
theorem previewRead_previewing (state : Previewing calm rest body last p) (reading : p.reading = true) :
    (∃ p', previewRead p = .next p' ∧ Previewing calm rest body last p' ∧ p'.weight body < p.weight body) ∨
      ∃ p', previewRead p = .done (.error, p') ∧ (calm → p'.q.conn.sched = []) := by
  obtain ⟨idle, ⟨left, split, awaiting⟩, small, room, steady⟩ := state
  have space := room reading
  simp only [previewRead]
  split
  · rename_i res write conn wait
    have frame := Connection.waitForData_frame wait
    have events : waitEvents .forRead p.q.conn.sched = (some (some res, write), conn.sched) := by
      simp only [Connection.waitForData, Prod.mk.injEq] at wait
      rw [← wait.2]
      exact Prod.ext wait.1 rfl
    obtain ⟨works, -, shorter, later⟩ := waitEvents_steady steady events
    have input : conn.input = p.q.conn.input := by rw [frame]
    cases res with
    | fail =>
        have failed : (netDataRead p.q.read conn .fail).1 = .error := by
          simp only [netDataRead, Connection.readNonblock]
          split <;> rfl
        split
        · exact .inr ⟨_, rfl, fun quiet => absurd rfl (works quiet).1⟩
        · rename_i other result
          rw [result] at failed
          exact absurd failed other
    | bytes n =>
        rw [← input] at awaiting
        obtain ⟨got, amount, received, onward⟩ := netDataRead_awaiting conn n awaiting space
        obtain ⟨-, unread⟩ := awaiting.placed.receive got
        rw [received]
        refine .inl ⟨_, rfl, ⟨idle, ⟨left, split, onward⟩, ?_, (fun again => absurd again Bool.false_ne_true), later⟩, ?_⟩
        · change (p.q.read.receive got).unread.length ≤ bufsize
          rw [unread, List.length_append, amount, List.length_take]
          omega
        · simp only [PreviewLoop.weight, reading, if_true]
          rw [if_neg (by decide)]
          omega
  · rename_i result conn other wait
    refine .inr ⟨_, rfl, fun quiet => ?_⟩
    simp only [Connection.waitForData, Prod.mk.injEq] at wait
    change conn.sched = []
    rw [← wait.2]
    refine waitEvents_exhausted (steady quiet) ((waitEvents_forRead p.q.conn.sched).resolve_right ?_)
    rintro ⟨res, ready⟩
    exact other res none (wait.1.symm.trans ready)

/-- A call of the parser takes a part of the preview, or its end. -/
theorem previewTake_previewing (state : Previewing calm rest body last p) (enough : 2 * bufsize + 1 < fuel)
    (fits : body.length ≤ size) :
    ∃ out, parseChunkData fuel p.q.read = some out ∧
      ((∃ p', previewTake size p out = .next p' ∧ Previewing calm rest body last p' ∧
        (p.reading = false → p'.weight body < p.weight body)) ∨
      ∃ result, previewTake size p out = .done result ∧ Previewed calm rest body last result ∧
        result.2.q.conn = p.q.conn) := by
  obtain ⟨idle, ⟨left, split, awaiting⟩, small, -, steady⟩ := state
  have count := awaiting.placed.unread_length
  obtain ⟨out, parsed, post⟩ := parseChunkData_awaiting awaiting idle fuel (by omega)
  have shorter := post.shorter
  have whole := post.whole
  have block : (out.read.deref out.wdata).take out.read.writeToModulePending = out.data := rfl
  refine ⟨out, parsed, ?_⟩
  simp only [previewTake, block]
  rcases post.ahead with ⟨ret, rfl, finished, eof⟩ | ⟨left', rfl, onward, more⟩
  · right
    have length := congrArg List.length split
    rw [List.length_append] at length
    rw [if_neg (by rw [ret]; decide), if_neg (by omega), if_pos ret]
    have flag : out.read.eofReceived = last.final := by simpa using eof
    refine ⟨_, rfl, ⟨?_, split.symm, flag, ⟨⟨Int.le_refl _, Int.le_refl _, Int.natCast_nonneg _⟩, finished.current,
      finished.read, rfl⟩, rfl, ⟨out.read.unread, finished.stream⟩, steady⟩, rfl⟩
    rw [← flag]
  · left
    have length := congrArg List.length split
    simp only [List.length_append] at length
    have count' := onward.placed.unread_length
    have continues : out.ret ≠ .error ∧ out.ret ≠ .eof := by
      rcases more with ⟨ret, -⟩ | ⟨ret, -⟩ <;> rw [ret] <;> exact ⟨by decide, by decide⟩
    rw [if_neg continues.1, if_neg (by omega), if_neg continues.2]
    refine ⟨_, rfl, ⟨rfl, ⟨left', ?_, onward.take 0⟩, ?_, ?_, steady⟩, ?_⟩
    · rw [split, List.append_assoc]
    · change out.read.unread.length ≤ bufsize
      omega
    · intro again
      change out.read.unread.length < bufsize
      rcases more with ⟨ret, -⟩ | ⟨ret, starved⟩
      · rw [ret] at again
        cases again
      · exact starved.room
    · intro parsing
      simp only [PreviewLoop.weight, parsing, List.length_append]
      rcases more with ⟨ret, nonempty⟩ | ⟨ret, -⟩
      · have bytes := List.length_pos_iff.mpr nonempty
        rw [ret]
        simp only [reduceCtorEq, decide_false, Bool.false_eq_true, if_false]
        omega
      · rw [ret]
        simp only [decide_true, if_true, Bool.false_eq_true, if_false]
        omega

/-- A step goes on with less to do, ends behind the preview, or meets a socket that times out or fails. -/
theorem previewStep_previewing (state : Previewing calm rest body last p) (enough : 2 * bufsize + 1 < fuel)
    (fits : body.length ≤ size) :
    (∃ p', previewStep size fuel p = .next p' ∧ Previewing calm rest body last p' ∧ p'.weight body < p.weight body) ∨
    (∃ out, previewStep size fuel p = .done out ∧ Previewed calm rest body last out ∧ out.2.q.conn = p.q.conn) ∨
    ∃ p', previewStep size fuel p = .done (.error, p') ∧ (calm → p'.q.conn.sched = []) := by
  cases reading : p.reading with
  | true =>
      simp only [previewStep, reading, if_true]
      rcases previewRead_previewing state reading with next | failed
      · exact .inl next
      · exact .inr (.inr failed)
  | false =>
      obtain ⟨out, parsed, ⟨p', next, state', less⟩ | done⟩ := previewTake_previewing state enough fits
      · refine .inl ⟨p', ?_, state', less reading⟩
        simp only [previewStep, reading, Bool.false_eq_true, if_false, parsed]
        exact next
      · refine .inr (.inl ?_)
        simp only [previewStep, reading, Bool.false_eq_true, if_false, parsed]
        exact done

/-- The start of a preview. -/
theorem PreviewLoop.start_previewing {q : Exchange τ} (k : Coding) (fits : Fits k) (atBody : q.read.AtBody)
    (stream : q.read.unread ++ q.conn.input = k.encode ++ rest) (small : q.read.unread.length ≤ bufsize)
    (open_ : q.read.eofReceived = false) (steady : calm → ∀ e ∈ q.conn.sched, e.steady = true) :
    Previewing calm rest k.body k.last (PreviewLoop.start q) := by
  have awaiting := atBody.awaiting fits stream
  rw [open_] at awaiting
  have same : (PreviewLoop.start q).q.read = q.read := by
    have expanded : q.read = { q.read with
        currentChunkLen := q.read.currentChunkLen
        chunkBytesRead := q.read.chunkBytesRead
        writeToModulePending := q.read.writeToModulePending } := rfl
    rw [atBody.current, atBody.read, atBody.idle] at expanded
    exact expanded.symm
  refine ⟨rfl, ⟨k.body, rfl, ?_⟩, ?_, ?_, steady⟩
  · rw [same]
    exact awaiting
  · rw [same]
    exact small
  · intro reading
    rw [same]
    have zero : q.read.pstrblockReadLen = 0 := of_decide_eq_true reading
    have count := atBody.placed.unread_length
    have some : 0 < bufsize := by decide
    omega

end IcapService
