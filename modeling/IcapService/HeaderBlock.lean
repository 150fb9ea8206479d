import IcapService.Headers

/-! How `ci_headers_unpack` reads a block of header lines.

The loop is followed by a cut of the block into lines and the endings between them. In the buffer an
ending has lost its first byte to a NUL, and every NUL of the text is a space, except one at the
start of a line behind the first, which the loop passes over. -/

namespace IcapService

open CString

/-- The ending of a line: CRLF, LF, or LF with a second LF that the loop takes for its part. -/
inductive Ending where
  | crlf
  | lf
  | lfLf
  deriving DecidableEq, Repr

namespace Ending

def bytes : Ending → Bytes
  | crlf => CString.crlf
  | lf => [CString.lf]
  | lfLf => [CString.lf, CString.lf]

/-- The ending in an unpacked buffer. -/
def opened : Ending → Bytes
  | crlf => [0, CString.lf]
  | lf => [0]
  | lfLf => [0, CString.lf]

end Ending

/-- The first line of a text, and the endings and lines behind it. -/
structure Cut where
  first : Bytes
  more : List (Ending × Bytes)
  deriving DecidableEq

namespace Cut

def push (c : UInt8) (k : Cut) : Cut := { k with first := c :: k.first }

def newline (e : Ending) (k : Cut) : Cut := ⟨[], (e, k.first) :: k.more⟩

def bytes (k : Cut) : Bytes := k.first ++ (k.more.map (fun line => line.1.bytes ++ line.2)).flatten

def texts (k : Cut) : List Bytes := k.first :: k.more.map (·.2)

end Cut

/-- Where the loop stands: inside a line, before the LF of an ending, or at the start of a line. -/
inductive Mode where
  | inside
  | pair
  | start
  deriving DecidableEq

/-- A line ends at the byte `c` in front of `rest`. -/
def endsHere (c : UInt8) (rest : Bytes) : Bool :=
  if c == cr && at0 rest 0 == lf then !isBlank (at0 rest 1)
  else c == lf && !isBlank (at0 rest 0)

def endingAt (c : UInt8) (rest : Bytes) : Ending :=
  if c = cr then .crlf else if at0 rest 0 = lf then .lfLf else .lf

/-- The lines the loop sees. The first byte of a line behind the first belongs to it whatever it is. -/
def cut : Mode → Bytes → Cut
  | _, [] => ⟨[], []⟩
  | .start, c :: rest => (cut .inside rest).push c
  | .pair, _ :: rest => cut .start rest
  | .inside, c :: rest =>
      if endsHere c rest then
        (cut (if at0 rest 0 = lf then .pair else .start) rest).newline (endingAt c rest)
      else (cut .inside rest).push c

/-- A NUL of the text becomes a space. -/
def blankNul (c : UInt8) : UInt8 := if c = 0 then 32 else c

def clean (text : Bytes) : Bytes := text.map blankNul

/-- The text of a line behind the first as it is left in the buffer. -/
def cleanTail : Bytes → Bytes
  | [] => []
  | c :: rest => c :: clean rest

/-- The pieces of an unpacked buffer that the index points at: each line with its ending, the last
one with what follows the text. -/
def pieces (tail : Bytes) : Bytes → List (Ending × Bytes) → List Bytes
  | text, [] => [text ++ tail]
  | text, (e, next) :: more => (text ++ e.opened) :: pieces tail (cleanTail next) more

def Cut.pieces (k : Cut) (tail : Bytes) : List Bytes := IcapService.pieces tail (clean k.first) k.more

theorem pieces_cons (tail : Bytes) (c : UInt8) (text : Bytes) (more : List (Ending × Bytes)) :
    ∃ head later, pieces tail text more = head :: later ∧ pieces tail (c :: text) more = (c :: head) :: later := by
  cases more with
  | nil => exact ⟨text ++ tail, [], rfl, rfl⟩
  | cons line more => exact ⟨text ++ line.1.opened, pieces tail (cleanTail line.2) more, rfl, rfl⟩

/-- What follows the text is part of the last piece. -/
theorem pieces_tail (text : Bytes) (more : List (Ending × Bytes)) :
    ∃ front last, ∀ tail, pieces tail text more = front ++ [last ++ tail] := by
  induction more generalizing text with
  | nil => exact ⟨[], text, fun tail => rfl⟩
  | cons line more ih =>
      obtain ⟨front, last, same⟩ := ih (cleanTail line.2)
      refine ⟨(text ++ line.1.opened) :: front, last, fun tail => ?_⟩
      rw [pieces, same tail, List.cons_append]

theorem endsHere_cases {c : UInt8} {rest : Bytes} (ends : endsHere c rest) :
    (c = cr ∧ at0 rest 0 = lf) ∨ c = lf := by
  simp only [endsHere] at ends
  split at ends
  · rename_i both
    simp only [Bool.and_eq_true, beq_iff_eq] at both
    exact .inl both
  · simp only [Bool.and_eq_true, beq_iff_eq] at ends
    exact .inr ends.1

/-- Reads up to the NUL behind the text see the text. -/
theorem at0_text (done todo rest : Bytes) (j : Nat) (inside : j ≤ todo.length) :
    at0 (done ++ (todo ++ 0 :: rest)) (done.length + j) = at0 todo j := by
  rw [← at0_drop, List.drop_left]
  by_cases before : j < todo.length
  · simp [at0, List.getElem?_append_left before]
  · have stop : j = todo.length := by omega
    simp [at0, stop]

theorem eoh_text (done todo rest : Bytes) (c : UInt8) (s : HeadersList.Unpacking)
    (buf : s.buf = done ++ (c :: todo ++ 0 :: rest)) (str : s.str = done.length) :
    s.eoh (done.length + (c :: todo).length) = endsHere c todo := by
  have here : at0 s.buf s.str = c := by
    rw [buf, str]
    exact at0_text done (c :: todo) rest 0 (Nat.zero_le _)
  have next : at0 s.buf (s.str + 1) = at0 todo 0 := by
    rw [buf, str]
    exact at0_text done (c :: todo) rest 1 (by simp)
  simp only [HeadersList.Unpacking.eoh, endsHere, here, next]
  by_cases short : todo.length < 2
  · have ended : done.length + (c :: todo).length ≤ s.str + 2 := by
      simp only [List.length_cons, str]
      omega
    have past : at0 todo 1 = 0 := by
      simp only [at0, List.getD_eq_getElem?_getD]
      rw [List.getElem?_eq_none (by omega)]
      rfl
    rw [decide_eq_true ended, past]
    simp [isBlank]
  · have third : at0 s.buf (s.str + 2) = at0 todo 1 := by
      rw [buf, str]
      exact at0_text done (c :: todo) rest 2 (by simp only [List.length_cons]; omega)
    have more : ¬ done.length + (c :: todo).length ≤ s.str + 2 := by
      simp only [List.length_cons, str]
      omega
    rw [decide_eq_false more, third, Bool.false_or]

/-- What the loop does to the text it has not passed: it opens the lines, and points at each one
behind the first. -/
def Opens (ebuf fuel : Nat) (s : HeadersList.Unpacking) (done : Bytes) (later : List Bytes) : Prop :=
  (s.loop ebuf fuel).buf = done ++ later.flatten ∧
    (s.loop ebuf fuel).headers = s.headers ++ (offsets done.length later).tail

/-- Opening goes on behind a byte of a line. -/
theorem Opens.push {ebuf fuel : Nat} {s : HeadersList.Unpacking} {done tail : Bytes} {c : UInt8} {text : Bytes}
    {more : List (Ending × Bytes)} (opens : Opens ebuf fuel s (done ++ [c]) (pieces tail text more)) :
    Opens ebuf fuel s done (pieces tail (c :: text) more) := by
  obtain ⟨head, later, before, after⟩ := pieces_cons tail c text more
  obtain ⟨buf, headers⟩ := opens
  rw [before] at buf headers
  rw [after]
  refine ⟨?_, ?_⟩
  · rw [buf]
    simp
  · rw [headers]
    simp only [offsets, List.tail_cons, List.length_append, List.length_cons, List.length_nil]
    rw [show done.length + (head.length + 1) = done.length + (0 + 1) + head.length by omega]

theorem loop_stop (ebuf fuel : Nat) (s : HeadersList.Unpacking) (passed : ebuf ≤ s.str) :
    s.loop ebuf fuel = s := by
  cases fuel with
  | zero => rfl
  | succ fuel =>
      have stop : ¬ s.str < ebuf := by omega
      simp only [HeadersList.Unpacking.loop, if_neg stop]

theorem loop_pass (ebuf fuel : Nat) (s : HeadersList.Unpacking) (inside : s.str < ebuf) :
    s.loop ebuf (fuel + 1) = (s.pass ebuf).loop ebuf fuel := by
  simp only [HeadersList.Unpacking.loop, if_pos inside]

/-- A pass that ends a line, and opening from the next line on. -/
theorem Opens.newline {ebuf fuel : Nat} {s t : HeadersList.Unpacking} {done tail : Bytes} {e : Ending} {next : Bytes}
    {more : List (Ending × Bytes)} (loop : s.loop ebuf (fuel + 1) = t.loop ebuf fuel)
    (headers : t.headers = s.headers ++ [done.length + e.opened.length])
    (opens : Opens ebuf fuel t (done ++ e.opened) (pieces tail (cleanTail next) more)) :
    Opens ebuf (fuel + 1) s done (pieces tail [] ((e, next) :: more)) := by
  obtain ⟨head, later, shape, -⟩ := pieces_cons tail 0 (cleanTail next) more
  obtain ⟨buf, index⟩ := opens
  rw [Opens, loop, pieces, buf, index, headers, shape]
  simp [offsets]

/-- The loop at the first byte of a line, which it has already passed. -/
theorem Opens.start {fuel : Nat} {done line rest : Bytes} {s : HeadersList.Unpacking}
    (buf : s.buf = done ++ (line ++ 0 :: rest)) (str : s.str = done.length + 1)
    (next : ∀ (done' todo : Bytes), s.buf = done' ++ (todo ++ 0 :: rest) → s.str = done'.length →
      todo.length < line.length →
      Opens (done'.length + todo.length) fuel s done' ((cut .inside todo).pieces (0 :: rest))) :
    Opens (done.length + line.length) fuel s done
      (pieces (0 :: rest) (cleanTail (cut .start line).first) (cut .start line).more) := by
  cases line with
  | nil =>
      rw [Opens, loop_stop _ _ s (by simp [str])]
      simp [cut, pieces, cleanTail, offsets, buf]
  | cons d line =>
      have opens := next (done ++ [d]) line (by simp [buf]) (by simp [str]) (by simp)
      rw [show (done ++ [d]).length + line.length = done.length + (d :: line).length by
        simp only [List.length_append, List.length_cons, List.length_nil]; omega] at opens
      exact opens.push

theorem loop_opens (fuel : Nat) (done todo rest : Bytes) (s : HeadersList.Unpacking)
    (buf : s.buf = done ++ (todo ++ 0 :: rest)) (str : s.str = done.length) (enough : todo.length ≤ fuel) :
    Opens (done.length + todo.length) fuel s done ((cut .inside todo).pieces (0 :: rest)) := by
  induction fuel generalizing done todo s with
  | zero =>
      have none : todo = [] := List.length_eq_zero_iff.mp (Nat.le_zero.mp enough)
      subst none
      simp [Opens, HeadersList.Unpacking.loop, cut, Cut.pieces, pieces, clean, offsets, buf]
  | succ fuel ih =>
      cases todo with
      | nil =>
          rw [Opens, loop_stop _ _ s (by simp [str])]
          simp [cut, Cut.pieces, pieces, clean, offsets, buf]
      | cons c todo =>
          have inside : s.str < done.length + (c :: todo).length := by simp [str]
          have eoh := eoh_text done todo rest c s buf str
          have here : at0 s.buf s.str = c := by
            rw [buf, str]
            exact at0_text done (c :: todo) rest 0 (Nat.zero_le _)
          have second : at0 s.buf (s.str + 1) = at0 todo 0 := by
            rw [buf, str]
            exact at0_text done (c :: todo) rest 1 (by simp)
          have store : ∀ d, s.buf.set done.length d = done ++ (d :: todo ++ 0 :: rest) := by
            intro d
            rw [buf, List.set_append_right _ _ (Nat.le_refl _), Nat.sub_self]
            rfl
          rw [cut]
          by_cases ends : endsHere c todo
          · rw [if_pos ends]
            by_cases pair : at0 todo 0 = lf
            · -- the ending has a second byte
              obtain ⟨line, rfl⟩ : ∃ line, todo = lf :: line := ⟨_, drop_of_at0 pair (by decide)⟩
              have opened : (endingAt c (lf :: line)).opened = [0, lf] := by
                rcases endsHere_cases ends with ⟨rfl, -⟩ | rfl <;> rfl
              rw [if_pos pair]
              let t : HeadersList.Unpacking :=
                { buf := (done ++ [0, lf]) ++ (line ++ 0 :: rest), str := (done ++ [0, lf]).length + 1,
                  headers := s.headers ++ [done.length + 2],
                  size := if s.size ≤ s.headers.length then s.size + headerStartSize else s.size }
              have pass : s.pass (done.length + (c :: lf :: line).length) = t := by
                rw [HeadersList.Unpacking.pass, eoh, if_pos ends, second, if_pos pair]
                simp [t, store, str]
              have opens : Opens ((done ++ [0, lf]).length + line.length) fuel t (done ++ [0, lf]) _ :=
                Opens.start rfl rfl (fun done' todo split start small =>
                  ih done' todo t split start (by simp only [List.length_cons] at enough; omega))
              rw [show (done ++ [0, lf]).length + line.length = done.length + (c :: lf :: line).length by
                simp only [List.length_append, List.length_cons, List.length_nil]; omega] at opens
              rw [← opened] at opens
              refine Opens.newline ((loop_pass _ _ s inside).trans (by rw [pass])) ?_ opens
              rw [opened]
              rfl
            · have only : c = lf := (endsHere_cases ends).resolve_left (fun both => pair both.2)
              have ending : endingAt c todo = .lf := by
                rw [endingAt, if_neg (by rw [only]; decide), if_neg pair]
              rw [if_neg pair, ending]
              let t : HeadersList.Unpacking :=
                { buf := (done ++ [0]) ++ (todo ++ 0 :: rest), str := (done ++ [0]).length + 1,
                  headers := s.headers ++ [done.length + 1],
                  size := if s.size ≤ s.headers.length then s.size + headerStartSize else s.size }
              have pass : s.pass (done.length + (c :: todo).length) = t := by
                rw [HeadersList.Unpacking.pass, eoh, if_pos ends, second, if_neg pair]
                simp [t, store, str]
              have opens : Opens ((done ++ Ending.lf.opened).length + todo.length) fuel t
                  (done ++ Ending.lf.opened) _ :=
                Opens.start rfl rfl (fun done' todo' split start small =>
                  ih done' todo' t split start (by simp only [List.length_cons] at enough; omega))
              rw [show (done ++ Ending.lf.opened).length + todo.length = done.length + (c :: todo).length by
                simp only [Ending.opened, List.length_append, List.length_cons, List.length_nil]; omega] at opens
              exact Opens.newline ((loop_pass _ _ s inside).trans (by rw [pass])) rfl opens
          · rw [if_neg ends, Opens, loop_pass _ _ s inside]
            have pass : s.pass (done.length + (c :: todo).length) =
                { s with buf := (done ++ [blankNul c]) ++ (todo ++ 0 :: rest), str := s.str + 1 } := by
              rw [HeadersList.Unpacking.pass, eoh, if_neg ends, here]
              by_cases nul : c = 0
              · simp [nul, str, store, blankNul]
              · simp [nul, buf, blankNul]
            rw [pass]
            have opens := ih (done ++ [blankNul c]) todo
              { s with buf := (done ++ [blankNul c]) ++ (todo ++ 0 :: rest), str := s.str + 1 } rfl
              (by simp [str]) (by simpa using enough)
            rw [show (done ++ [blankNul c]).length + todo.length = done.length + (c :: todo).length by
              simp only [List.length_append, List.length_cons, List.length_nil]; omega] at opens
            exact opens.push

/-- `ci_headers_unpack` on a block: it wants CR or LF before the last byte, and cuts what lies
before that. -/
theorem unpack_pieces (h : HeadersList) (body rest : Bytes) (c last : UInt8)
    (buf : h.buf = body ++ c :: last :: rest) (bufused : h.bufused = body.length + 2)
    (accepted : c = cr ∨ c = lf) :
    ∃ size, h.unpack = (.ec100,
      { size := size
        headers := offsets 0 ((cut .inside body).pieces [0, last])
        buf := ((cut .inside body).pieces [0, last]).flatten ++ rest
        bufused := h.bufused
        packed := false }) := by
  have long : ¬ h.bufused < 2 := by omega
  have ebuf : h.bufused - 2 = body.length := by omega
  have here : at0 h.buf body.length = c := by
    rw [buf]
    exact at0_append body (last :: rest) c
  have ending : (c != cr && c != lf) = false := by
    rcases accepted with rfl | rfl <;> decide
  have store : h.buf.set body.length 0 = body ++ 0 :: last :: rest := by
    rw [buf, List.set_append_right _ _ (Nat.le_refl _), Nat.sub_self]
    rfl
  let s : HeadersList.Unpacking := ⟨body ++ 0 :: last :: rest, 0, [0], h.size⟩
  have opens : Opens body.length body.length s [] ((cut .inside body).pieces (0 :: last :: rest)) := by
    have opens := loop_opens body.length [] body (last :: rest) s rfl rfl (Nat.le_refl _)
    rwa [List.length_nil, Nat.zero_add] at opens
  obtain ⟨front, piece, same⟩ := pieces_tail (clean (cut .inside body).first) (cut .inside body).more
  have longer : (cut .inside body).pieces (0 :: last :: rest) = front ++ [piece ++ 0 :: last :: rest] :=
    same _
  have cutOff : (cut .inside body).pieces [0, last] = front ++ [piece ++ [0, last]] := same _
  obtain ⟨loopBuf, loopHeaders⟩ := opens
  refine ⟨(s.loop body.length body.length).size, ?_⟩
  rw [HeadersList.unpack, if_neg long]
  simp only [ebuf, here, ending, store, Bool.false_eq_true, if_false]
  change (Ec.ec100, HeadersList.mk (s.loop body.length body.length).size (s.loop body.length body.length).headers
    (s.loop body.length body.length).buf h.bufused false) = _
  have index : (s.loop body.length body.length).headers = offsets 0 ((cut .inside body).pieces [0, last]) := by
    rw [loopHeaders, longer, cutOff]
    cases front with
    | nil => simp [s, offsets]
    | cons head front => simp [s, offsets, offsets_append]
  have text : (s.loop body.length body.length).buf = ((cut .inside body).pieces [0, last]).flatten ++ rest := by
    rw [loopBuf, longer, cutOff]
    simp
  rw [index, text]

/-- A header list into which a block has been read. -/
def HeadersList.received (block : Bytes) : HeadersList where
  size := headerStartSize
  headers := []
  buf := block ++ List.replicate (headsBufSize - block.length) 0
  bufused := block.length
  packed := false

end IcapService
