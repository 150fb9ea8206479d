import IcapService.BodyReader

/-! The byte counters of the chunk parser.

What the parser counts as parsed and what it has not parsed yet add up to the same, whatever has been received. The one
exception is a last chunk whose size line is there and whose final CRLF is not: the parser counts the line, asks for
more and counts it again. -/

namespace IcapService

open CString CInt Machine Chunked

/-- The bytes counted as parsed, and the received ones behind them. -/
def ReadSide.tally (r : ReadSide) : Int := r.requestBytesIn + r.pstrblockReadLen

/-- The parser has counted the payload in `writeToModulePending`, and nothing else. -/
structure SamePayload (s r : ReadSide) : Prop where
  http : s.httpBytesIn = r.httpBytesIn
  body : s.bodyBytesIn = r.bodyBytesIn
  pending : s.writeToModulePending = r.writeToModulePending

variable {r s : ReadSide} {input rest : Bytes}

/-! ### The chunk definition -/

theorem readZeroChunk_tally {chunkLen stop used stop' : Nat}
    (passed : readZeroChunk r chunkLen stop = .next (s, used, stop')) :
    s.requestBytesIn = r.requestBytesIn + 2 ∧ used = chunkLen + 2 ∧ s.pstrblockReadLen = r.pstrblockReadLen ∧
      SamePayload s r := by
  simp only [readZeroChunk] at passed
  split at passed
  · cases passed
  · split at passed
    · cases passed
    · split at passed
      · split at passed
        · cases passed
        · rename_i t stop'' extension
          obtain ⟨offset, rfl⟩ := readExtension_next extension
          cases passed
          exact ⟨rfl, rfl, rfl, rfl, rfl, rfl⟩
      · cases passed
        exact ⟨rfl, rfl, rfl, rfl, rfl, rfl⟩

theorem closeChunkDef_tally {used stop : Nat} (passed : closeChunkDef r used stop = .next s) :
    s.tally = r.tally - used ∧ SamePayload s r := by
  simp only [closeChunkDef] at passed
  split at passed
  · cases passed
  · cases passed
    refine ⟨?_, rfl, rfl, rfl⟩
    simp only [ReadSide.tally, ReadSide.advance]
    omega

/-- A chunk definition that goes on has counted what it has passed over. -/
theorem readChunkDef_next_tally (passed : readChunkDef r = .next s) : s.tally = r.tally ∧ SamePayload s r := by
  simp only [readChunkDef] at passed
  split at passed
  · cases passed
  · rename_i i found
    split at passed
    · cases passed
    · split at passed
      · split at passed
        · cases passed
        · rename_i t used stop zero
          obtain ⟨count, rfl, len, same⟩ := readZeroChunk_tally zero
          obtain ⟨tally, same'⟩ := closeChunkDef_tally passed
          refine ⟨?_, same'.http.trans same.http, same'.body.trans same.body, same'.pending.trans same.pending⟩
          simp only [ReadSide.tally] at tally ⊢
          rw [tally, count, len]
          push_cast
          omega
      · obtain ⟨tally, same⟩ := closeChunkDef_tally passed
        refine ⟨?_, same.http, same.body, same.pending⟩
        simp only [ReadSide.tally] at tally ⊢
        rw [tally]
        push_cast
        omega

/-- A chunk definition that asks for more: the line is incomplete, or the second CRLF of a zero chunk is, and the line
has been counted. -/
theorem readChunkDef_needsMore_tally (stopped : readChunkDef r = .done (.needsMore, s)) :
    (strnstr crlf r.block r.pstrblockReadLen.toNat = none ∧ s = r) ∨
      ∃ i : Nat, strnstr crlf r.block r.pstrblockReadLen.toNat = some i ∧ r.pstrblockReadLen - (i + 2 : Nat) < 2 ∧
        s.tally = r.tally + (i + 2) ∧ SamePayload s r := by
  simp only [readChunkDef] at stopped
  split at stopped
  · rename_i missing
    simp only [Step.done.injEq, Prod.mk.injEq] at stopped
    exact .inl ⟨missing, stopped.2.symm⟩
  · rename_i i found
    split at stopped
    · cases stopped
    · split at stopped
      · split at stopped
        · rename_i out zero
          cases stopped
          simp only [readZeroChunk] at zero
          split at zero
          · rename_i short
            cases zero
            refine .inr ⟨i, found, short, ?_, rfl, rfl, rfl⟩
            simp only [ReadSide.tally]
            push_cast
            omega
          · split at zero
            · cases zero
            · split at zero
              · split at zero
                · rename_i out extension
                  have failed := readExtension_done extension
                  cases zero
                  cases failed
                · cases zero
              · cases zero
        · simp only [closeChunkDef] at stopped
          split at stopped <;> cases stopped
      · simp only [closeChunkDef] at stopped
        split at stopped <;> cases stopped

/-! ### The definitions of a coding -/

variable {data close body : Bytes} {k : Coding} {last : LastChunk} {eof : Bool} {r0 : ReadSide}

/-- One or two bytes of the coding are still to be received. -/
def EndCut (input rest : Bytes) : Prop := rest.length < input.length ∧ input.length ≤ rest.length + 2

theorem Coding.encode_long (k : Coding) : 4 < k.encode.length := by
  have digits := List.length_pos_iff.mpr k.last.some
  simp only [Coding.encode, LastChunk.encode, LastChunk.line, SizeText.text, crlf, List.length_append, List.length_cons,
    List.length_nil]
  omega

theorem Awaits.missing_length (awaits : Awaits r input rest data close k) :
    input.length + r.unread.length = data.length + close.length + k.encode.length + rest.length := by
  have total := congrArg List.length awaits.stream
  simp only [List.length_append] at total
  omega

/-- The parser asks for more at a size line: either it is incomplete, or only the final CRLF is and the line has been
counted. -/
theorem Awaits.needsMore_tally (awaits : Awaits r input rest [] [] k)
    (stopped : readChunkDef r = .done (.needsMore, s)) :
    SamePayload s r ∧ (s.tally = r.tally ∧ ¬ EndCut input rest ∨ r.tally < s.tally ∧ EndCut input rest) := by
  have missing := awaits.missing_length
  have len := awaits.placed.unread_length
  obtain ⟨chunks, last⟩ := k
  cases chunks with
  | nil =>
      have code : Coding.encode ⟨[], last⟩ = last.encode := by simp [Coding.encode]
      have total : last.encode.length = last.line.length + 4 := by simp [LastChunk.encode, crlf]
      have stream : r.unread ++ input = last.line ++ crlf ++ (crlf ++ rest) := by
        rw [awaits.stream, code]
        simp [LastChunk.encode]
      have found := strnstr_unread awaits.placed stream last.line_ne_cr
      rw [code, total] at missing
      rcases readChunkDef_needsMore_tally stopped with ⟨incomplete, rfl⟩ | ⟨i, line, short, tally, same⟩
      · rw [incomplete] at found
        split at found
        · cases found
        · refine ⟨⟨rfl, rfl, rfl⟩, .inl ⟨rfl, fun cut => ?_⟩⟩
          have near := cut.2
          simp only [List.length_nil] at missing
          omega
      · rw [line] at found
        split at found
        · cases found
          refine ⟨same, .inr ⟨by omega, ?_⟩⟩
          simp only [List.length_nil] at missing
          exact ⟨by omega, by omega⟩
        · cases found
  | cons c cs =>
      have code := Coding.encode_cons c cs last
      have stream : r.unread ++ input =
          c.text ++ crlf ++ (c.data ++ crlf ++ (Coding.encode ⟨cs, last⟩ ++ rest)) := by
        rw [awaits.stream, code]
        simp
      rcases readChunkDef_chunk c awaits.placed stream (awaits.fits.size c (by simp)) (awaits.fits.line c (by simp)) with
        ⟨short, incomplete⟩ | ⟨-, count, passed⟩
      · rw [incomplete] at stopped
        cases stopped
        refine ⟨⟨rfl, rfl, rfl⟩, .inl ⟨rfl, fun cut => ?_⟩⟩
        have near := cut.2
        have long := Coding.encode_long ⟨cs, last⟩
        simp only [code, List.length_append, List.length_nil, crlf, List.length_cons] at missing
        omega
      · rw [passed] at stopped
        cases stopped

/-! ### A call of the parser -/

/-- Within a call that started at `r0`. -/
structure Tallied (r0 : ReadSide) (p : ParseState) : Prop where
  tally : p.read.tally = r0.tally
  http : p.read.httpBytesIn = r0.httpBytesIn + p.read.writeToModulePending
  body : p.read.bodyBytesIn = r0.bodyBytesIn + p.read.writeToModulePending

/-- Behind a call that started at `r0`. -/
structure Settled (r0 : ReadSide) (input rest : Bytes) (out : ParseOut) : Prop where
  tally : out.read.tally = r0.tally ∧ (out.ret = .needsMore → ¬ EndCut input rest) ∨
    out.ret = .needsMore ∧ r0.tally < out.read.tally ∧ EndCut input rest
  http : out.read.httpBytesIn = r0.httpBytesIn + out.read.writeToModulePending
  body : out.read.bodyBytesIn = r0.bodyBytesIn + out.read.writeToModulePending

theorem Tallied.samePayload {p : ParseState} (tallied : Tallied r0 p) (same : SamePayload s p.read) :
    s.httpBytesIn = r0.httpBytesIn + s.writeToModulePending ∧ s.bodyBytesIn = r0.bodyBytesIn + s.writeToModulePending := by
  rw [same.http, same.body, same.pending]
  exact ⟨tallied.http, tallied.body⟩

theorem parseStep_head_tallied {w : Ptr} (awaiting : Awaiting r input rest last eof body)
    (tallied : Tallied r0 ⟨.head, r, w⟩) :
    (parseStep ⟨.head, r, w⟩).All (Tallied r0) (Settled r0 input rest) := by
  simp only [parseStep]
  split
  case isTrue equal =>
    rcases readChunkDef_awaiting awaiting equal with ⟨s, stopped, -⟩ | ⟨s, passed, -⟩
    · obtain ⟨data, close, k, awaits, -⟩ := awaiting
      obtain ⟨rfl, rfl⟩ := awaits.at_line equal
      obtain ⟨same, tally⟩ := awaits.needsMore_tally stopped
      obtain ⟨http, body⟩ := tallied.samePayload same
      rw [stopped]
      refine ⟨?_, http, body⟩
      rw [← tallied.tally]
      exact tally.imp (fun kept => ⟨kept.1, fun _ => kept.2⟩) fun lost => ⟨rfl, lost⟩
    · obtain ⟨tally, same⟩ := readChunkDef_next_tally passed
      obtain ⟨http, body⟩ := tallied.samePayload same
      rw [passed]
      exact ⟨tally.trans tallied.tally, http, body⟩
  case isFalse => exact ⟨tallied.tally, tallied.http, tallied.body⟩

theorem parseStep_data_tallied {w : Ptr} (awaiting : Awaiting r input rest last eof body)
    (owes : r.currentChunkLen ≠ r.chunkBytesRead) (tallied : Tallied r0 ⟨.data, r, w⟩) :
    (parseStep ⟨.data, r, w⟩).All (Tallied r0) (Settled r0 input rest) := by
  obtain ⟨data, close, k, awaits, -⟩ := awaiting
  have owed := awaits.owed
  have len := awaits.placed.unread_length
  have missing := awaits.missing_length
  have long := Coding.encode_long k
  have nonzero : r.currentChunkLen ≠ 0 := by omega
  simp only [parseStep, if_neg nonzero]
  split
  case isTrue busy => exact ⟨.inl ⟨tallied.tally, fun more => by cases more⟩, tallied.http, tallied.body⟩
  case isFalse idle =>
    replace idle : r.writeToModulePending = 0 := not_not.mp idle
    split
    case isTrue none =>
      refine ⟨.inl ⟨tallied.tally, fun _ cut => ?_⟩, tallied.http, tallied.body⟩
      have near := cut.2
      omega
    case isFalse some =>
      have moved := readChunkData_eq awaits.placed data.length close.length
        (min (data.length + close.length) r.unread.length) owed awaits.int awaits.close_length (by omega) rfl (by omega)
      have passed := awaits.data_pass (by omega) _ rfl (by omega)
      generalize min (data.length + close.length) r.unread.length = m at moved passed
      have tally : (readChunkData r).tally = r0.tally := by
        rw [← tallied.tally, moved]
        simp only [ReadSide.tally, ReadSide.advance]
        push_cast
        omega
      have http : (readChunkData r).httpBytesIn = r0.httpBytesIn + (readChunkData r).writeToModulePending := by
        have before := tallied.http
        simp only [idle] at before
        rw [moved, before]
        rfl
      have body : (readChunkData r).bodyBytesIn = r0.bodyBytesIn + (readChunkData r).writeToModulePending := by
        have before := tallied.body
        simp only [idle] at before
        rw [moved, before]
        rfl
      split
      case isTrue empty =>
        refine ⟨.inl ⟨tally, fun _ cut => ?_⟩, http, body⟩
        have near := cut.2
        have missing' := passed.1.missing_length
        have len' := passed.1.placed.unread_length
        omega
      case isFalse => exact ⟨tally, http, body⟩

theorem parseStep_tallied {p : ParseState} {len : Int} (holds : ParseInv input rest last eof body len p)
    (tallied : Tallied r0 p) : (parseStep p).All (Tallied r0) (Settled r0 input rest) := by
  obtain ⟨point, r, w⟩ := p
  rcases holds.ahead with ⟨left, -, awaiting, owes⟩ | ⟨here, -, finished, -⟩
  · cases point with
    | head => exact parseStep_head_tallied awaiting tallied
    | data => exact parseStep_data_tallied awaiting (owes rfl) tallied
  · cases here
    simp only [parseStep, if_pos finished.current]
    exact ⟨.inl ⟨tallied.tally, fun more => by cases more⟩, tallied.http, tallied.body⟩

/-- One call of the parser, whatever part of the coding is there. -/
theorem parseChunkData_settled (awaiting : Awaiting r input rest last eof body) (idle : r.writeToModulePending = 0)
    {fuel : Nat} {out : ParseOut} (result : parseChunkData fuel r = some out) :
    ParsePost input rest last eof body r.pstrblockReadLen out ∧ Settled r input rest out := by
  obtain ⟨out', result', post⟩ := parseChunkData_awaiting awaiting idle (max fuel (2 * r.pstrblockReadLen.toNat + 2))
    (by omega)
  have block : ParseState.block ⟨.head, r, .null⟩ = [] := by simp [ParseState.block, idle]
  have start : ParseInv input rest last eof body r.pstrblockReadLen ⟨.head, r, .null⟩ :=
    ⟨by simp [idle], Int.le_refl _, by rw [block]; exact idle.symm,
      .inl ⟨body, by rw [block]; rfl, awaiting, fun point => by cases point⟩⟩
  have tallied : Tallied r ⟨.head, r, .null⟩ := ⟨rfl, by simp [idle], by simp [idle]⟩
  simp only [parseChunkData, idle, ne_eq, not_true_eq_false, if_false] at result result'
  have same := run_mono result (Nat.le_max_left fuel (2 * r.pstrblockReadLen.toNat + 2))
  rw [result'] at same
  cases same
  refine ⟨post, run_post parseStep (fun p => ParseInv input rest last eof body r.pstrblockReadLen p ∧ Tallied r p)
    (Settled r input rest) ?_ _ _ out ⟨start, tallied⟩ result⟩
  rintro p ⟨holds, kept⟩
  refine Step.All.imp (Step.All.and (P := ParseInv input rest last eof body r.pstrblockReadLen) (R := fun _ => True) ?_
    (parseStep_tallied holds kept)) (fun _ both => both) fun _ both => both.2
  obtain ⟨point, s, w⟩ := p
  cases point with
  | head =>
      rcases parseStep_head s w _ holds with ⟨q, next, inv, -⟩ | ⟨out, done, -⟩
      · rw [next]
        exact inv
      · rw [done]
        trivial
  | data =>
      rcases parseStep_data s w _ holds with ⟨q, next, inv, -⟩ | ⟨out, done, -⟩
      · rw [next]
        exact inv
      · rw [done]
        trivial

/-! ### The loop -/

/-- The bytes counted as parsed, and those that are still to be parsed. -/
def Receiver.tally (s : Receiver) : Int := s.read.tally + s.conn.input.length

def Receipt.tally (out : Receipt) : Int := out.read.tally + out.conn.input.length

/-- Where the loop stands in a coding of `body`, with the payload counted from `http` and `counted` on. -/
structure Receiver.Counts (rest body : Bytes) (last : LastChunk) (eof : Bool) (http counted : Nat) (s : Receiver) :
    Prop where
  idle : s.read.writeToModulePending = 0
  ahead : ∃ left, body = s.blocks.flatten ++ left ∧ Awaiting s.read s.conn.input rest last eof left
  http : s.read.httpBytesIn = http + s.blocks.flatten.length
  body : s.read.bodyBytesIn = counted + s.blocks.flatten.length

/-- The loop has ended behind the last chunk of a coding of `body`. -/
structure Receipt.Counts (rest body : Bytes) (http counted : Nat) (out : Receipt) : Prop where
  behind : out.read.unread.length + out.conn.input.length = rest.length
  placed : out.read.Placed
  http : out.read.httpBytesIn = http + body.length
  body : out.read.bodyBytesIn = counted + body.length

variable {http counted : Nat}

/-- A call of the parser in the loop: it ends behind the last chunk, or goes on with everything counted once, or goes on
from a cut last chunk with its line counted too often. -/
theorem receiveStep_counts (fuel : Nat) {s : Receiver} (holds : s.Counts rest body last eof http counted) :
    (receiveStep fuel s).All
      (fun t => t.Counts rest body last eof http counted ∧
        (t.tally = s.tally ∧ (EndCut s.conn.input rest → t.conn.input = s.conn.input) ∨
          s.tally < t.tally ∧ EndCut s.conn.input rest))
      (fun out => out.ret = .eof → out.Counts rest body http counted ∧ out.tally = s.tally ∧ ¬ EndCut s.conn.input rest) := by
  obtain ⟨idle, ⟨left, split, awaiting⟩, https, count⟩ := id holds
  simp only [receiveStep]
  split
  · exact ⟨holds, .inl ⟨rfl, fun _ => rfl⟩⟩
  · rename_i out call
    obtain ⟨post, settled⟩ := parseChunkData_settled awaiting idle call
    have blocks : (s.blocks ++ [out.data]).flatten = s.blocks.flatten ++ out.data := by simp
    have https' : out.read.httpBytesIn = http + (s.blocks ++ [out.data]).flatten.length := by
      rw [settled.http, https, blocks, List.length_append, post.whole, Nat.add_assoc]
    have count' : out.read.bodyBytesIn = counted + (s.blocks ++ [out.data]).flatten.length := by
      rw [settled.body, count, blocks, List.length_append, post.whole, Nat.add_assoc]
    rcases post.ahead with ⟨ret, rfl, finished, -⟩ | ⟨left', rfl, onward, more⟩
    · rw [ret]
      intro _
      have kept := settled.tally.resolve_right fun lost => by rw [ret] at lost; cases lost.1
      have stream := congrArg List.length finished.stream
      rw [List.length_append] at stream
      refine ⟨⟨stream, ⟨finished.placed.pointer, finished.placed.nonneg, finished.placed.room⟩, ?_, ?_⟩, ?_, ?_⟩
      · rw [split, ← blocks]
        exact https'
      · rw [split, ← blocks]
        exact count'
      · simp only [Receipt.tally, Receiver.tally, ← kept.1]
        rfl
      · rintro ⟨short, -⟩
        omega
    · rw [← List.append_assoc, ← blocks] at split
      have taken := onward.take 0
      rcases more with ⟨ret, -⟩ | ⟨ret, starved⟩
      · rw [ret]
        have kept := settled.tally.resolve_right fun lost => by rw [ret] at lost; cases lost.1
        refine ⟨⟨rfl, ⟨left', split, taken⟩, https', count'⟩, .inl ⟨?_, fun _ => rfl⟩⟩
        simp only [Receiver.tally, ← kept.1]
        rfl
      · rw [ret]
        cases schedule : s.reads with
        | nil => exact fun ended => by cases ended
        | cons n reads =>
            obtain ⟨got, amount, read, later⟩ := netDataRead_awaiting s.conn n taken starved.room
            have whole : got.length + (s.conn.input.drop got.length).length = s.conn.input.length := by
              rw [amount, List.length_drop, List.length_take]
              omega
            have tally : Receiver.tally ⟨ReadSide.receive { out.read with writeToModulePending := 0 } got,
                { s.conn with input := s.conn.input.drop got.length }, reads, s.blocks ++ [out.data]⟩ =
                out.read.tally + s.conn.input.length := by
              simp only [Receiver.tally, ReadSide.tally, ReadSide.receive]
              omega
            simp only [read]
            refine ⟨⟨rfl, ⟨left', split, later⟩, https', count'⟩, ?_⟩
            rw [tally]
            simp only [Receiver.tally]
            rcases settled.tally with ⟨kept, uncut⟩ | ⟨-, lost, cut⟩
            · exact .inl ⟨by rw [kept], fun cut => absurd cut (uncut ret)⟩
            · exact .inr ⟨by omega, cut⟩

/-- A run to the end of the body: the payload is counted once, and so is every byte of the coding just when no call finds
the last chunk cut. -/
theorem receive_counts {fuel n : Nat} {s : Receiver} {out : Receipt} (holds : s.Counts rest body last eof http counted)
    (result : run (receiveStep fuel) n s = some out) (ended : out.ret = .eof) :
    out.Counts rest body http counted ∧ s.tally ≤ out.tally ∧
      (out.tally = s.tally ↔ ∀ t, Visits (receiveStep fuel) s t → ¬ EndCut t.conn.input rest) := by
  induction n generalizing s with
  | zero => cases result
  | succ n ih =>
      have all := receiveStep_counts fuel holds
      cases pass : receiveStep fuel s with
      | done r =>
          rw [run_done n pass] at result
          cases result
          rw [pass] at all
          obtain ⟨counts, same, whole⟩ := all ended
          refine ⟨counts, Int.le_of_eq same.symm, iff_of_true same fun t visited => ?_⟩
          rwa [visited.eq_of_done (by rw [pass]; rfl)]
      | next t =>
          rw [run_next n pass] at result
          rw [pass] at all
          obtain ⟨counts, grown, onward⟩ := ih all.1 result
          refine ⟨counts, ?_⟩
          rcases all.2 with ⟨same, stays⟩ | ⟨lost, cut⟩
          · rw [← same]
            refine ⟨grown, onward.trans ⟨fun uncut u visited => ?_, fun uncut u visited => uncut u (.later pass visited)⟩⟩
            rcases visited.cases_next pass with rfl | later
            · intro cut
              have here := uncut t (.here t)
              rw [stays cut] at here
              exact here cut
            · exact uncut u later
          · exact ⟨by omega, iff_of_false (by omega) fun uncut => uncut s (.here s) cut⟩

/-- The counters have grown by the payload and by the bytes of the coding. -/
structure Receipt.Accounted (k : Coding) (s : Receiver) (out : Receipt) : Prop where
  http : out.read.httpBytesIn = s.read.httpBytesIn + k.body.length
  body : out.read.bodyBytesIn = s.read.bodyBytesIn + k.body.length
  request : out.read.requestBytesIn = s.read.requestBytesIn + k.encode.length

/-- However a coding arrives, its payload is counted right; its bytes are just when the parser is never called with one or
two bytes of the coding still to be received. -/
theorem coding_accounted_iff (k : Coding) (fits : Fits k) (rest : Bytes) (s : Receiver) (start : s.read.AtBody)
    (stream : s.read.unread ++ s.conn.input = k.encode ++ rest) (fresh : s.blocks = []) (fuel : Nat) (out : Receipt)
    (result : receive fuel s = some out) (ended : out.ret = .eof) :
    (out.read.httpBytesIn = s.read.httpBytesIn + k.body.length ∧
        out.read.bodyBytesIn = s.read.bodyBytesIn + k.body.length) ∧
      (out.Accounted k s ↔ ∀ t, Visits (receiveStep fuel) s t → ¬ EndCut t.conn.input rest) := by
  have first : s.Counts rest k.body k.last s.read.eofReceived s.read.httpBytesIn s.read.bodyBytesIn :=
    ⟨start.idle, ⟨k.body, by simp [fresh], start.awaiting fits stream⟩, by simp [fresh], by simp [fresh]⟩
  obtain ⟨counts, -, uncut⟩ := receive_counts first result ended
  have ahead := congrArg List.length stream
  simp only [List.length_append] at ahead
  have len := start.placed.unread_length
  have len' := counts.placed.unread_length
  have behind := counts.behind
  have request : out.read.requestBytesIn = s.read.requestBytesIn + k.encode.length ↔ out.tally = s.tally := by
    simp only [Receipt.tally, Receiver.tally, ReadSide.tally]
    omega
  refine ⟨⟨counts.http, counts.body⟩, ?_⟩
  rw [← uncut, ← request]
  exact ⟨fun accounted => accounted.request, fun same => ⟨counts.http, counts.body, same⟩⟩

def helloCoding : Coding := ⟨[chunkOf (ascii "hello") (by decide)], lastOf .none⟩

theorem helloCoding_fits : Fits helloCoding :=
  ⟨by simp [helloCoding, chunkOf, ascii], by simp [helloCoding, chunkOf, SizeText.text, ascii, bufsize]; decide, by decide⟩

def helloReceiver (received coming : Bytes) : Receiver := ⟨.bodyStart received, ⟨coming, [], [], []⟩, [40], []⟩

theorem coding_accounted_iff_hello :
    ∃ out, receive 100 (helloReceiver (ascii "5\r\nhel") (ascii "lo\r\n0\r\n\r\n")) = some out ∧
      (out.read.httpBytesIn = 5 ∧ out.read.bodyBytesIn = 5) := by
  have computed : (receive 100 (helloReceiver (ascii "5\r\nhel") (ascii "lo\r\n0\r\n\r\n"))).map Receipt.ret =
      some .eof := by decide +kernel
  obtain ⟨out, result, ended⟩ := Option.map_eq_some_iff.mp computed
  exact ⟨out, result, (coding_accounted_iff helloCoding helloCoding_fits [] _
    ⟨⟨by decide, by decide, by decide⟩, rfl, rfl, rfl⟩ (by decide +kernel) rfl 100 out result ended).1⟩

/-- The same fifteen bytes in two segmentations: when the final CRLF arrives by itself, the line before it is counted
twice. -/
theorem last_line_counted_twice :
    (receive 100 (helloReceiver (ascii "5\r\nhello\r\n") (ascii "0\r\n\r\n"))).map
        (fun out => (out.ret, out.read.requestBytesIn)) = some (.eof, 15) ∧
      (receive 100 (helloReceiver (ascii "5\r\nhello\r\n0\r\n") (ascii "\r\n"))).map
        (fun out => (out.ret, out.read.requestBytesIn)) = some (.eof, 18) := by
  decide +kernel

end IcapService
