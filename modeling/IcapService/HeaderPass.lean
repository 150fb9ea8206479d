import IcapService.HeaderBlock

/-! `ci_headers_pack` directly behind `ci_headers_unpack`: when the block comes back.

Packing writes over the first NUL from each pointer of the index on. That is the end of the line,
unless the line starts with a NUL of its own. -/

namespace IcapService

open CString

/-- A piece of the buffer with its first NUL written over. `rest` is what lies behind the piece. -/
def closePiece (piece rest : Bytes) : Bytes :=
  piece.set (strlen piece) (if at0 (piece ++ rest) (strlen piece + 1) = lf then cr else lf)

def closeAll : List Bytes → Bytes → Bytes
  | [], rest => rest
  | piece :: later, rest => closePiece piece (later.flatten ++ rest) ++ closeAll later rest

@[simp] theorem closePiece_length (piece rest : Bytes) : (closePiece piece rest).length = piece.length := by
  simp [closePiece]

/-- A piece with a NUL: its string, the NUL and the rest. -/
theorem closePiece_split (text tail rest : Bytes) (plain : 0 ∉ text) :
    closePiece (text ++ 0 :: tail) rest =
      text ++ (if at0 (tail ++ rest) 0 = lf then cr else lf) :: tail := by
  have behind : at0 (text ++ 0 :: tail ++ rest) (text.length + 1) = at0 (tail ++ rest) 0 := by
    rw [← at0_drop, List.append_assoc, List.drop_left]
    rfl
  rw [closePiece, strlen_append text tail plain, behind, List.set_append_right _ _ (Nat.le_refl _), Nat.sub_self]
  rfl

theorem packLine_split (front text tail rest : Bytes) (plain : 0 ∉ text) :
    HeadersList.packLine (front ++ (text ++ 0 :: tail ++ rest)) front.length =
      front ++ (closePiece (text ++ 0 :: tail) rest ++ rest) := by
  have stop : strlen ((front ++ (text ++ 0 :: tail ++ rest)).drop front.length) = text.length := by
    rw [List.drop_left, List.append_assoc]
    exact strlen_append text (tail ++ rest) plain
  have behind : at0 (front ++ (text ++ 0 :: tail ++ rest)) (front.length + text.length + 1) =
      at0 (tail ++ rest) 0 := by
    rw [Nat.add_assoc, ← at0_drop, List.drop_left, List.append_assoc, ← at0_drop, List.drop_left]
    rfl
  have store : ∀ c, (front ++ (text ++ 0 :: tail ++ rest)).set (front.length + text.length) c =
      front ++ (text ++ c :: tail ++ rest) := by
    intro c
    rw [List.set_append_right _ _ (by omega), Nat.add_sub_cancel_left, List.append_assoc,
      List.set_append_right _ _ (Nat.le_refl _), Nat.sub_self, List.append_assoc]
    rfl
  rw [HeadersList.packLine, stop, closePiece_split text tail rest plain]
  simp only [behind, store]
  split <;> rfl

/-- The loop of `ci_headers_pack` closes every piece the index points at. -/
theorem packLines_close (pieces : List Bytes) (front rest : Bytes) (nul : ∀ piece ∈ pieces, 0 ∈ piece) :
    (offsets front.length pieces).foldl HeadersList.packLine (front ++ (pieces.flatten ++ rest)) =
      front ++ closeAll pieces rest := by
  induction pieces generalizing front with
  | nil => rfl
  | cons piece later ih =>
      obtain ⟨text, tail, rfl, plain⟩ := List.eq_append_cons_of_mem (nul piece (by simp))
      have onward := ih (front ++ closePiece (text ++ 0 :: tail) (later.flatten ++ rest))
        (fun other member => nul other (by simp [member]))
      rw [List.length_append, closePiece_length, List.append_assoc] at onward
      rw [offsets, List.foldl_cons, List.flatten_cons, List.append_assoc (text ++ 0 :: tail),
        packLine_split front text tail _ plain, onward, closeAll, List.append_assoc]

/-- `ci_headers_pack` once its lines are closed: the empty line goes behind them. -/
theorem pack_content (h : HeadersList) (text rest : Bytes)
    (lines : h.headers.foldl HeadersList.packLine h.buf = text ++ rest) (size : text.length = h.bufused)
    (room : rest ≠ []) : h.pack.content = text ++ (if at0 rest 1 = lf then crlf else [lf]) := by
  obtain ⟨c, more, rfl⟩ := List.exists_cons_of_ne_nil room
  have behind : at0 (text ++ c :: more) (h.bufused + 1) = at0 (c :: more) 1 := by
    rw [← size, ← at0_drop, List.drop_left]
  have store : ∀ d, (text ++ c :: more).set h.bufused d = text ++ d :: more := by
    intro d
    rw [← size, List.set_append_right _ _ (Nat.le_refl _), Nat.sub_self]
    rfl
  simp only [HeadersList.pack, lines, behind]
  by_cases second : at0 (c :: more) 1 = lf
  · obtain ⟨tail, rfl⟩ : ∃ tail, more = lf :: tail := by
      cases more with
      | nil => cases second
      | cons d more => exact ⟨more, congrArg (· :: more) second⟩
    simp only [if_pos second, HeadersList.content, store]
    rw [← size, List.take_length_add_append]
    rfl
  · simp only [if_neg second, HeadersList.content, store]
    rw [← size, List.take_length_add_append]
    rfl

/-- An ending after packing. -/
def Ending.closed : Ending → Bytes
  | crlf => [cr, CString.lf]
  | lf => [CString.lf]
  | lfLf => [cr, CString.lf]

/-- What `ci_headers_pack` puts behind a block: the empty line, CRLF when the buffer still has its LF
there, and LF alone when it has not. -/
def closing (h : HeadersList) : Bytes := if at0 h.buf (h.bufused + 1) = lf then crlf else [lf]

end IcapService
