import IcapService.ChunkParser

/-! Termination and progress of the chunk parser.

The loop of `parse_chunk_data` moves the read pointer by amounts taken from the size lines. It
advances in every pass exactly as long as no size line names a number that is negative as an
`int` once the trailing CRLF is counted. -/

namespace IcapService

open CString CInt Machine

/-- The read pointer only moves forward, over received bytes, towards a fixed end. -/
structure Forward (a b : ReadSide) : Prop where
  pointer : a.pstrblockRead.offset ≤ b.pstrblockRead.offset
  shrinks : b.pstrblockReadLen ≤ a.pstrblockReadLen
  nonneg : 0 ≤ b.pstrblockReadLen
  sameEnd : b.pstrblockRead.offset + b.pstrblockReadLen =
    a.pstrblockRead.offset + a.pstrblockReadLen

/-- What every parser state of a body keeps: lengths in range, and no data behind a null
pointer. -/
structure ReadSide.Sane (r : ReadSide) : Prop where
  nonneg : 0 ≤ r.pstrblockReadLen
  null : r.pstrblockRead = .null → r.pstrblockReadLen = 0
  current : r.currentChunkLen < 4294967296
  read : r.chunkBytesRead < 4294967296

/-- The parser states reachable from the start of a body, by calls of the parser, by the service
taking data and by network reads, with any content of the buffers. -/
inductive BodyState : ReadSide → Prop where
  | start (r : ReadSide) (nonneg : 0 ≤ r.pstrblockReadLen)
      (null : r.pstrblockRead = .null → r.pstrblockReadLen = 0)
      (current : r.currentChunkLen = 0) (read : r.chunkBytesRead = 0)
      (pending : r.writeToModulePending = 0) : BodyState r
  | parsed {r : ReadSide} {fuel : Nat} {out : ParseOut} (before : BodyState r)
      (call : parseChunkData fuel r = some out) : BodyState out.read
  | taken {r : ReadSide} (k : Nat) (before : BodyState r) :
      BodyState { r with writeToModulePending := r.writeToModulePending - k }
  | received {r : ReadSide} (c : Connection) (res : NetRes) (before : BodyState r) :
      BodyState (netDataRead r c res).2.1

/-- One call terminates and moves the read pointer forward only, in each of its half passes. -/
structure ParseProgress (r : ReadSide) : Prop where
  returns : ∃ fuel out, parseChunkData fuel r = some out
  onward : ∀ p q, r.writeToModulePending = 0 → Visits parseStep ⟨.head, r, .null⟩ p →
    parseStep p = .next q → Forward p.read q.read
  result : ∀ p out, r.writeToModulePending = 0 → Visits parseStep ⟨.head, r, .null⟩ p →
    parseStep p = .done out → Forward p.read out.read

/-- A complete size line with received bytes behind it. -/
def ReadSide.SizeLine (r : ReadSide) (i : Nat) : Prop :=
  strnstr crlf r.block r.pstrblockReadLen.toNat = some i ∧
    at0 r.block (skipBlanks r.block (strtol 16 r.block).2) = cr ∧
    at0 r.block (skipBlanks r.block (strtol 16 r.block).2 + 1) = lf ∧
    (i + 2 : Int) < r.pstrblockReadLen

/-- At the head of a pass: a size line to be followed into its data names a number from -2 up to
the largest `int` minus two, and a chunk that is under way still owes a positive number. -/
def ReadSide.InRange (r : ReadSide) : Prop :=
  r.writeToModulePending = 0 →
    (r.currentChunkLen = r.chunkBytesRead → ∀ i, r.SizeLine i →
      -2 ≤ r.sizeValue ∧ r.sizeValue + 2 < 2147483648) ∧
    (r.currentChunkLen ≠ r.chunkBytesRead → r.currentChunkLen ≠ 0 → 0 < r.pstrblockReadLen →
      0 < r.owed)

theorem Forward.refl (r : ReadSide) (nonneg : 0 ≤ r.pstrblockReadLen) : Forward r r :=
  ⟨Int.le_refl _, Int.le_refl _, nonneg, rfl⟩

/-- Moving the pointer is a forward move exactly when the distance lies in the unread bytes. -/
theorem advance_forward (r : ReadSide) (k : Int)
    (null : r.pstrblockRead = .null → r.pstrblockReadLen = 0)
    (positive : 0 ≤ k) (room : k ≤ r.pstrblockReadLen) : Forward r (r.advance k) := by
  cases pointer : r.pstrblockRead with
  | null =>
      have len := null pointer
      have zero : k = 0 := by omega
      subst zero
      exact ⟨by simp [ReadSide.advance, pointer, Ptr.add, Ptr.offset],
        by simp [ReadSide.advance], by simp [ReadSide.advance, len],
        by simp [ReadSide.advance, pointer, Ptr.add, Ptr.offset]⟩
  | rbuf o =>
      constructor <;> simp only [ReadSide.advance, pointer, Ptr.add, Ptr.offset] <;> omega
  | head o =>
      constructor <;> simp only [ReadSide.advance, pointer, Ptr.add, Ptr.offset] <;> omega

/-! ### One half pass -/

theorem owed_ne_zero (r : ReadSide) (sane : r.Sane) (differ : r.currentChunkLen ≠ r.chunkBytesRead) :
    r.owed ≠ 0 := by
  have current := sane.current
  have read := sane.read
  unfold ReadSide.owed wrap32
  omega

/-- The data part moves the pointer over what is owed or over all that is there. -/
theorem readChunkData_forward (r : ReadSide) (sane : r.Sane) (owes : 0 < r.owed)
    (len : 0 < r.pstrblockReadLen) :
    Forward r (readChunkData r) ∧ (readChunkData r).pstrblockReadLen < r.pstrblockReadLen := by
  by_cases all : r.owed ≤ r.pstrblockReadLen
  · have moved := advance_forward r r.owed sane.null (by omega) all
    simp only [readChunkData, if_pos all]
    exact ⟨⟨moved.pointer, moved.shrinks, moved.nonneg, moved.sameEnd⟩,
      by simp only [ReadSide.advance]; omega⟩
  · have moved := advance_forward r r.pstrblockReadLen sane.null (by omega) (Int.le_refl _)
    simp only [readChunkData, if_neg all]
    exact ⟨⟨moved.pointer, moved.shrinks, moved.nonneg, moved.sameEnd⟩,
      by simp only [ReadSide.advance]; omega⟩

/-- A negative number of owed bytes moves the pointer backwards. -/
theorem readChunkData_backward (r : ReadSide) (owes : r.owed < 0) (len : 0 < r.pstrblockReadLen) :
    r.pstrblockReadLen < (readChunkData r).pstrblockReadLen := by
  have all : r.owed ≤ r.pstrblockReadLen := by omega
  simp only [readChunkData, if_pos all, ReadSide.advance]
  omega

theorem Ptr.add_eq_null {p : Ptr} {k : Int} (null : p.add k = .null) : p = .null := by
  cases p with
  | null => rfl
  | rbuf o => simp [Ptr.add] at null
  | head o => simp [Ptr.add] at null

theorem readChunkData_sane (r : ReadSide) (sane : r.Sane) (len : 0 < r.pstrblockReadLen) :
    (readChunkData r).Sane := by
  have pointer (k : Int) (null : r.pstrblockRead.add k = .null) : False := by
    have zero := sane.null (Ptr.add_eq_null null)
    omega
  by_cases all : r.owed ≤ r.pstrblockReadLen
  · simp only [readChunkData, if_pos all, ReadSide.advance]
    exact ⟨by simp only; omega, fun null => (pointer _ null).elim, sane.current, u32_lt _⟩
  · simp only [readChunkData, if_neg all, ReadSide.advance]
    exact ⟨by simp only; omega, fun null => (pointer _ null).elim, sane.current, u32_lt _⟩

theorem readChunkDef_next_sane {r s : ReadSide} (sane : r.Sane) (passed : readChunkDef r = .next s) :
    s.Sane := by
  obtain ⟨i, used, current, eof, offset, count, -, rfl, low, high, size⟩ := readChunkDef_next passed
  refine ⟨by simp only [ReadSide.advance]; omega, ?_, ?_, by simp⟩
  · intro null
    have zero := sane.null (Ptr.add_eq_null null)
    simp only [ReadSide.advance]
    omega
  · rcases size with ⟨-, rfl⟩ | ⟨-, rfl, -⟩
    · simp
    · exact u32_lt (u32 r.sizeValue + 2)

theorem readChunkDef_done_sane {r s : ReadSide} {ret : CiRet} (sane : r.Sane)
    (stopped : readChunkDef r = .done (ret, s)) : s.Sane := by
  obtain ⟨-, current, read, eof, offset, count, rfl, low, high⟩ := readChunkDef_done stopped
  refine ⟨sane.nonneg, sane.null, ?_, ?_⟩
  · rcases low with rfl | small
    · exact sane.current
    · exact small
  · rcases high with rfl | rfl
    · exact sane.read
    · simp

theorem parseStep_next_sane {p q : ParseState} (sane : p.read.Sane) (pass : parseStep p = .next q) :
    q.read.Sane := by
  obtain ⟨point, r, w⟩ := p
  cases point with
  | head =>
      simp only [parseStep] at pass
      split at pass
      · split at pass
        · cases pass
        · rename_i s passed
          cases pass
          exact readChunkDef_next_sane sane passed
      · cases pass
        exact sane
  | data =>
      simp only [parseStep] at pass
      split at pass
      · cases pass
      · split at pass
        · cases pass
        · split at pass
          · cases pass
          · rename_i len
            split at pass
            · cases pass
            · cases pass
              exact readChunkData_sane r sane (by simpa using len)

theorem parseStep_done_sane {p : ParseState} {out : ParseOut} (sane : p.read.Sane)
    (pass : parseStep p = .done out) : out.read.Sane := by
  obtain ⟨point, r, w⟩ := p
  cases point with
  | head =>
      simp only [parseStep] at pass
      split at pass
      · split at pass
        · rename_i ret s stopped
          cases pass
          exact readChunkDef_done_sane sane stopped
        · cases pass
      · cases pass
  | data =>
      simp only [parseStep] at pass
      split at pass
      · cases pass
        exact sane
      · split at pass
        · cases pass
          exact sane
        · split at pass
          · cases pass
            exact sane
          · rename_i len
            split at pass
            · cases pass
              exact readChunkData_sane r sane (by simpa using len)
            · cases pass

theorem netDataRead_sane (r : ReadSide) (c : Connection) (res : NetRes) (sane : r.Sane) :
    (netDataRead r c res).2.1.Sane := by
  have nonneg := sane.nonneg
  simp only [netDataRead]
  split
  · exact ⟨nonneg, fun null => by simp at null, sane.current, sane.read⟩
  · split
    · exact ⟨nonneg, fun null => by simp at null, sane.current, sane.read⟩
    · exact ⟨by simp only; omega, fun null => by simp at null, sane.current, sane.read⟩

theorem bodyState_sane {r : ReadSide} (reached : BodyState r) : r.Sane := by
  induction reached with
  | start r nonneg null current read pending =>
      exact ⟨nonneg, null, by omega, by omega⟩
  | parsed before call ih =>
      simp only [parseChunkData] at call
      split at call
      · cases call
        exact ih
      · refine run_post parseStep (fun p => p.read.Sane) (fun out => out.read.Sane) ?_ _ _ _ ih call
        intro p sane
        cases pass : parseStep p with
        | next t => exact parseStep_next_sane sane pass
        | done out => exact parseStep_done_sane sane pass
  | taken k before ih => exact ⟨ih.nonneg, ih.null, ih.current, ih.read⟩
  | received c res before ih => exact netDataRead_sane _ c res ih

/-! ### Runs -/

/-- Behind the chunk definition the owed number is positive, so the data part will advance. -/
def ParseState.Ready (p : ParseState) : Prop :=
  p.point = .data → p.read.currentChunkLen ≠ 0 → p.read.writeToModulePending = 0 →
    0 < p.read.pstrblockReadLen → 0 < p.read.owed

/-- The owed number right after a size line. -/
theorem owed_after_size (v : Int) (low : -2147483648 ≤ v) (high : v < 2147483648) :
    (u32 (u32 v + 2) = 0 ↔ v = -2) ∧
    (0 < wrap32 ((u32 (u32 v + 2) : Int) - (0 : Nat)) ↔ -1 ≤ v ∧ v + 2 < 2147483648) ∧
    (wrap32 ((u32 (u32 v + 2) : Int) - (0 : Nat)) < 0 ↔ v < -2 ∨ 2147483648 ≤ v + 2) := by
  unfold u32 wrap32
  omega

theorem parseStep_ready {p q : ParseState} (range : p.point = .head → p.read.InRange)
    (pass : parseStep p = .next q) : q.Ready := by
  obtain ⟨point, r, w⟩ := p
  cases point with
  | head =>
      simp only [parseStep] at pass
      split at pass
      · rename_i equal
        split at pass
        · cases pass
        · rename_i s passed
          cases pass
          intro _ nonzero pending len
          obtain ⟨i, used, current, eof, offset, count, found, rfl, low, high, size⟩ :=
            readChunkDef_next passed
          rcases size with ⟨-, rfl⟩ | ⟨-, rfl, rfl, closed, closed'⟩
          · exact absurd rfl nonzero
          · have bounds : -2 ≤ r.sizeValue ∧ r.sizeValue + 2 < 2147483648 := (range rfl pending).1 equal i
              ⟨found, closed, closed', by simp at len; omega⟩
            have int := wrap32_bounds (strtol 16 r.block).1
            have after := owed_after_size r.sizeValue int.1 int.2
            apply after.2.1.mpr
            have two : r.sizeValue ≠ -2 := fun h => nonzero (after.1.mpr h)
            omega
      · rename_i differ
        cases pass
        intro _ nonzero pending len
        exact (range rfl pending).2 differ nonzero len
  | data =>
      intro atData
      simp only [parseStep] at pass
      split at pass
      · cases pass
      · split at pass
        · cases pass
        · split at pass
          · cases pass
          · split at pass
            · cases pass
            · cases pass
              cases atData

/-- A pass that goes on moves forward and lowers the weight. -/
theorem parseStep_forward {p q : ParseState} (sane : p.read.Sane) (ready : p.Ready)
    (pass : parseStep p = .next q) : Forward p.read q.read ∧ q.weight < p.weight := by
  have nonneg := sane.nonneg
  obtain ⟨point, r, w⟩ := p
  cases point with
  | head =>
      simp only [parseStep] at pass
      split at pass
      · split at pass
        · cases pass
        · rename_i s passed
          cases pass
          obtain ⟨i, used, current, eof, offset, count, -, rfl, low, high, -⟩ :=
            readChunkDef_next passed
          have moved := advance_forward r used sane.null (by omega) high
          refine ⟨⟨moved.pointer, moved.shrinks, moved.nonneg, moved.sameEnd⟩, ?_⟩
          simp only [ParseState.weight, ReadSide.advance_pstrblockReadLen, reduceCtorEq, if_true, if_false]
          omega
      · cases pass
        exact ⟨Forward.refl r nonneg, by simp [ParseState.weight]⟩
  | data =>
      simp only [parseStep] at pass
      split at pass
      · cases pass
      · rename_i nonzero
        split at pass
        · cases pass
        · rename_i pending
          split at pass
          · cases pass
          · rename_i len
            split at pass
            · cases pass
            · cases pass
              have owes := ready rfl nonzero (by simpa using pending) (by simpa using len)
              obtain ⟨moved, smaller⟩ := readChunkData_forward r sane owes (by simpa using len)
              have rest := moved.nonneg
              refine ⟨moved, ?_⟩
              simp [ParseState.weight]
              omega

theorem parseStep_done_forward {p : ParseState} {out : ParseOut} (sane : p.read.Sane)
    (ready : p.Ready) (pass : parseStep p = .done out) : Forward p.read out.read := by
  have nonneg := sane.nonneg
  obtain ⟨point, r, w⟩ := p
  cases point with
  | head =>
      simp only [parseStep] at pass
      split at pass
      · split at pass
        · rename_i ret s stopped
          cases pass
          obtain ⟨-, current, read, eof, offset, count, rfl, -, -⟩ := readChunkDef_done stopped
          exact ⟨Int.le_refl _, Int.le_refl _, nonneg, rfl⟩
        · cases pass
      · cases pass
  | data =>
      simp only [parseStep] at pass
      split at pass
      · cases pass
        exact Forward.refl r nonneg
      · rename_i nonzero
        split at pass
        · cases pass
          exact Forward.refl r nonneg
        · rename_i pending
          split at pass
          · cases pass
            exact Forward.refl r nonneg
          · rename_i len
            split at pass
            · cases pass
              have owes := ready rfl nonzero (by simpa using pending) (by simpa using len)
              exact (readChunkData_forward r sane owes (by simpa using len)).1
            · cases pass

theorem visits_sane {p q : ParseState} (visited : Visits parseStep p q) (sane : p.read.Sane) :
    q.read.Sane := by
  induction visited with
  | here => exact sane
  | later pass rest ih => exact ih (parseStep_next_sane sane pass)

/-- Sanity and readiness hold throughout a call whose size lines are in range. -/
theorem visits_ready {p q : ParseState} (visited : Visits parseStep p q) (sane : p.read.Sane)
    (ready : p.Ready)
    (range : ∀ t, Visits parseStep p t → t.point = .head → t.read.InRange) :
    q.read.Sane ∧ q.Ready := by
  refine ⟨visits_sane visited sane, ?_⟩
  clear sane
  induction visited with
  | here => exact ready
  | later pass rest ih =>
      apply ih (parseStep_ready (range _ (.here _)) pass)
      intro t visited
      exact range t (.later pass visited)

/-- The data part with a negative owed number: the unread length grows, in the next state or in
the result. -/
theorem parseStep_backward (r : ReadSide) (w : Ptr) (nonzero : r.currentChunkLen ≠ 0)
    (pending : r.writeToModulePending = 0) (len : 0 < r.pstrblockReadLen) (owes : r.owed < 0) :
    (∃ q, parseStep ⟨.data, r, w⟩ = .next q ∧ ¬ Forward r q.read) ∨
    (∃ out, parseStep ⟨.data, r, w⟩ = .done out ∧ ¬ Forward r out.read) := by
  have grows := readChunkData_backward r owes len
  have unseen : ¬ Forward r (readChunkData r) := fun moved => by
    have shrinks := moved.shrinks
    omega
  have some : ¬ r.pstrblockReadLen ≤ 0 := by omega
  by_cases empty : (readChunkData r).pstrblockReadLen = 0
  · exact .inr ⟨⟨.needsMore, readChunkData r, r.pstrblockRead⟩,
      by simp [parseStep, nonzero, pending, some, empty], unseen⟩
  · exact .inl ⟨⟨.head, readChunkData r, r.pstrblockRead⟩,
      by simp [parseStep, nonzero, pending, some, empty], unseen⟩

/-- A size line that names a number other than zero is followed into its data. -/
theorem readChunkDef_size (r : ReadSide) (i : Nat) (line : r.SizeLine i) (nonzero : r.sizeValue ≠ 0) :
    ∃ s, readChunkDef r = .next s ∧ s.currentChunkLen = u32 (u32 r.sizeValue + 2) ∧
      s.chunkBytesRead = 0 ∧ s.writeToModulePending = r.writeToModulePending ∧
      0 < s.pstrblockReadLen := by
  obtain ⟨found, closed, closed', more⟩ := line
  have word : u32 (wrap32 (strtol 16 r.block).1) ≠ 0 := fun h => nonzero ((u32_eq_zero _).mp h)
  have value : ¬ (wrap32 (strtol 16 r.block).1 = 0 ∧ (strtol 16 r.block).2 = 0) :=
    fun h => nonzero h.1
  have shut : ¬ (at0 r.block (skipBlanks r.block (strtol 16 r.block).2) ≠ cr ∨
      at0 r.block (skipBlanks r.block (strtol 16 r.block).2 + 1) ≠ lf) := by
    simp only [not_or, not_not]
    exact ⟨closed, closed'⟩
  have passed : readChunkDef r = .next (ReadSide.advance { r with
      currentChunkLen := u32 (u32 r.sizeValue + 2), chunkBytesRead := 0,
      requestBytesIn := r.requestBytesIn + (i + 2) } ((i + 2 : Nat) : Int)) := by
    simp only [readChunkDef, found, if_neg value, if_neg word]
    exact if_neg shut
  exact ⟨_, passed, rfl, rfl, rfl, by simp; omega⟩

theorem visits_pending {p q : ParseState} (visited : Visits parseStep p q)
    (pending : p.read.writeToModulePending ≠ 0) : q.read.writeToModulePending ≠ 0 := by
  induction visited with
  | here => exact pending
  | @later s t u pass rest ih =>
      apply ih
      obtain ⟨point, r, w⟩ := s
      cases point with
      | head =>
          simp only [parseStep] at pass
          split at pass
          · split at pass
            · cases pass
            · rename_i moved passed
              cases pass
              obtain ⟨i, used, current, eof, offset, count, -, rfl, -⟩ := readChunkDef_next passed
              exact pending
          · cases pass
            exact pending
      | data =>
          simp only [parseStep, if_pos pending] at pass
          split at pass
          · cases pass
          · cases pass

/-- No visited state of a call that makes progress is behind a definition with a negative
number of owed bytes. -/
theorem ParseProgress.owed_nonneg {r : ReadSide} (progress : ParseProgress r)
    (idle : r.writeToModulePending = 0) {s : ReadSide} {w : Ptr}
    (visited : Visits parseStep ⟨.head, r, .null⟩ ⟨.data, s, w⟩) (nonzero : s.currentChunkLen ≠ 0)
    (pending : s.writeToModulePending = 0) (len : 0 < s.pstrblockReadLen) : 0 ≤ s.owed := by
  by_contra owes
  rcases parseStep_backward s w nonzero pending len (by omega) with
    ⟨q, pass, back⟩ | ⟨out, pass, back⟩
  · exact back (progress.onward _ q idle visited pass)
  · exact back (progress.result _ out idle visited pass)

theorem ParseProgress.inRange {r : ReadSide} (progress : ParseProgress r)
    {p : ParseState} (visited : Visits parseStep ⟨.head, r, .null⟩ p) (sane : p.read.Sane)
    (atHead : p.point = .head) : p.read.InRange := by
  intro pending
  have idle : r.writeToModulePending = 0 := by
    by_contra busy
    exact visits_pending visited busy pending
  obtain ⟨point, s, w⟩ := p
  cases atHead
  constructor
  · intro equal i line
    by_contra outside
    have int : -2147483648 ≤ s.sizeValue ∧ s.sizeValue < 2147483648 := wrap32_bounds _
    have beyond : s.sizeValue < -2 ∨ 2147483648 ≤ s.sizeValue + 2 := by
      change ¬ (-2 ≤ s.sizeValue ∧ s.sizeValue + 2 < 2147483648) at outside
      omega
    have after := owed_after_size s.sizeValue int.1 int.2
    obtain ⟨t, passed, current, read, same, len⟩ :=
      readChunkDef_size s i line (fun zero => by omega)
    have pass : parseStep ⟨.head, s, w⟩ = .next ⟨.data, t, w⟩ := by
      simp only [parseStep, if_pos equal, passed]
    have nonzero : t.currentChunkLen ≠ 0 := by
      rw [current]
      exact fun zero => by have two := after.1.mp zero; omega
    have owes := progress.owed_nonneg idle (visited.snoc pass) nonzero (same.trans pending) len
    have negative : t.owed < 0 := by
      rw [ReadSide.owed, current, read]
      exact after.2.2.mpr beyond
    exact absurd owes (Int.not_le.mpr negative)
  · intro differ nonzero len
    have pass : parseStep ⟨.head, s, w⟩ = .next ⟨.data, s, w⟩ := by
      simp only [parseStep, if_neg differ]
    have owes := progress.owed_nonneg idle (visited.snoc pass) nonzero pending len
    have some := owed_ne_zero s sane differ
    change 0 < s.owed
    omega

/-- One call makes progress exactly when every size line it follows, and the chunk it resumes,
is in range at the head of each pass. -/
theorem parseChunkData_progress_iff {r : ReadSide} (reached : BodyState r) :
    ParseProgress r ↔
      ∀ p, Visits parseStep ⟨.head, r, .null⟩ p → p.point = .head → p.read.InRange := by
  have sane := bodyState_sane reached
  constructor
  · intro progress p visited atHead
    have saneAt : p.read.Sane := visits_sane visited sane
    exact progress.inRange visited saneAt atHead
  · intro range
    have all {p : ParseState} (visited : Visits parseStep ⟨.head, r, .null⟩ p) :
        p.read.Sane ∧ p.Ready :=
      visits_ready visited sane (fun atData => by cases atData) range
    refine ⟨?_, ?_, ?_⟩
    · by_cases pending : r.writeToModulePending = 0
      · obtain ⟨fuel, out, result⟩ := halts_of_measure parseStep ParseState.weight
          ⟨.head, r, .null⟩ (fun t u visited pass =>
            (parseStep_forward (all visited).1 (all visited).2 pass).2)
        exact ⟨fuel, out, by simp only [parseChunkData, pending, ne_eq, not_true, if_false, result]⟩
      · exact ⟨0, ⟨.error, r, .null⟩, by simp only [parseChunkData, ne_eq, pending, not_false_iff, if_true]⟩
    · intro p q _ visited pass
      exact (parseStep_forward (all visited).1 (all visited).2 pass).1
    · intro p out _ visited pass
      exact parseStep_done_forward (all visited).1 (all visited).2 pass

theorem bodyState_bodyStart (received : Bytes) : BodyState (.bodyStart received) :=
  .start _ (Int.natCast_nonneg _) (fun null => by cases null) rfl rfl rfl

theorem parseChunkData_progress_incomplete :
    BodyState (.bodyStart (ascii "5")) ∧ ParseProgress (.bodyStart (ascii "5")) := by
  have reached := bodyState_bodyStart (ascii "5")
  have stops : parseStep ⟨.head, .bodyStart (ascii "5"), .null⟩ =
      .done ⟨.needsMore, .bodyStart (ascii "5"), .null⟩ := by rfl
  refine ⟨reached, (parseChunkData_progress_iff reached).mpr ?_⟩
  intro p visited _ _
  cases visited with
  | here =>
      refine ⟨fun _ i line => ?_, fun differ => absurd rfl differ⟩
      have found := line.1
      revert found
      simp [ReadSide.bodyStart, ReadSide.block, ReadSide.deref, ReadSide.region, Ptr.offset, ascii,
        strnstr, crlf]
  | later pass rest =>
      rw [stops] at pass
      cases pass

/-- The loop on the size line `-6` followed by one byte, with the read pointer at `offset`. -/
def negativeSizeRound (point : ParsePoint) (offset : Nat) (current read : Nat) (wdata : Ptr) :
    ParseState where
  point := point
  read := { ReadSide.bodyStart (ascii "-6\r\nX") with
    pstrblockRead := .rbuf offset
    pstrblockReadLen := 5 - offset
    currentChunkLen := current
    chunkBytesRead := read
    requestBytesIn := offset }
  wdata := wdata

/-- The data part goes back over the size line it has just read, and the loop reads it again. -/
theorem parseChunkData_negative_size_loops :
    BodyState (.bodyStart (ascii "-6\r\nX")) ∧
      (∀ fuel, parseChunkData fuel (.bodyStart (ascii "-6\r\nX")) = none) ∧
      ¬ ParseProgress (.bodyStart (ascii "-6\r\nX")) := by
  have trapped : ¬ Halts parseStep ⟨.head, .bodyStart (ascii "-6\r\nX"), .null⟩ := by
    apply not_halts_of_trap parseStep (fun p =>
      p = negativeSizeRound .head 0 0 0 .null ∨
      p = negativeSizeRound .head 0 4294967292 4294967292 (.rbuf 4) ∨
      p = negativeSizeRound .data 4 4294967292 0 .null ∨
      p = negativeSizeRound .data 4 4294967292 0 (.rbuf 4))
    · rintro s (rfl | rfl | rfl | rfl)
      · exact ⟨negativeSizeRound .data 4 4294967292 0 .null, by decide +kernel, by simp⟩
      · exact ⟨negativeSizeRound .data 4 4294967292 0 (.rbuf 4), by decide +kernel, by simp⟩
      · exact ⟨negativeSizeRound .head 0 4294967292 4294967292 (.rbuf 4), by decide +kernel, by simp⟩
      · exact ⟨negativeSizeRound .head 0 4294967292 4294967292 (.rbuf 4), by decide +kernel, by simp⟩
    · left
      rfl
  have forever (fuel : Nat) : parseChunkData fuel (.bodyStart (ascii "-6\r\nX")) = none := by
    cases result : parseChunkData fuel (.bodyStart (ascii "-6\r\nX")) with
    | none => rfl
    | some out => exact absurd ⟨fuel, out, result⟩ trapped
  refine ⟨bodyState_bodyStart _, forever, fun progress => ?_⟩
  obtain ⟨fuel, out, result⟩ := progress.returns
  rw [forever fuel] at result
  cases result

end IcapService
