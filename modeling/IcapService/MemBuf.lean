import IcapService.Lib.Memory
import IcapService.Lib.Transition

/-! `ci_membuf` of `body.c` as a queue under locking.

An allocation never fails, and the positions stay within the range of `int`. What would assert, or would touch
memory outside of the buffer, has no result. -/

namespace IcapService

open CString Transition

/-- A `ci_membuf`; `buf` holds `bufsize` bytes. -/
structure MemBuf where
  buf : Bytes
  endpos : Int
  readpos : Int
  unlocked : Int
  hasEof : Bool
  nullTerminated : Bool
  readOnly : Bool
  deriving DecidableEq

namespace MemBuf

/-- `INCSTEP`. -/
def incStep : Nat := 4096

/-- `ci_membuf_new_sized`, and the flags that a user may set. -/
def new (buf : Bytes) (nullTerminated readOnly : Bool) : MemBuf := ⟨buf, 0, 0, -1, false, nullTerminated, readOnly⟩

/-- `memcpy` to a position of the buffer. -/
def memStore (buf : Bytes) (pos : Int) (data : Bytes) : Option Bytes :=
  if data = [] then some buf
  else if 0 ≤ pos ∧ pos + data.length ≤ buf.length then some (poke buf pos.toNat data) else none

/-- `memcpy` of `n` bytes from a position of the buffer. -/
def memLoad (buf : Bytes) (pos n : Int) : Option Bytes :=
  if n = 0 then some []
  else if 0 ≤ pos ∧ 0 ≤ n ∧ pos + n ≤ buf.length then some ((buf.drop pos.toNat).take n.toNat) else none

/-- The loop of `ci_membuf_write` that enlarges the buffer. -/
def growTo (fresh : Nat → UInt8) (buf : Bytes) (need : Nat) : Bytes :=
  if buf.length < grow incStep buf.length need then realloc fresh buf (grow incStep buf.length need) else buf

/-- `ci_membuf_write`; `fresh` tells what enlarged memory holds. -/
def write (fresh : Nat → UInt8) (b : MemBuf) (data : Bytes) (iseof : Bool) : Option (Nat × MemBuf) :=
  if b.readOnly then some (0, b)
  else if b.hasEof then some (0, b)
  else
    let terminate : Nat := if b.nullTerminated then 1 else 0
    if (b.buf.length : Int) - b.endpos - terminate < -1 then none
    else
      let endpos := b.endpos + data.length
      (memStore (growTo fresh b.buf (endpos + terminate).toNat) b.endpos data).bind fun buf =>
        (memStore buf endpos (if b.nullTerminated then [0] else [])).map fun buf =>
          (data.length, { b with buf := buf, endpos := endpos, hasEof := iseof })

/-- The bytes that `ci_membuf_read` takes for available. -/
def remains (b : MemBuf) : Int := if 0 ≤ b.unlocked then b.unlocked - b.readpos else b.endpos - b.readpos

/-- `ci_membuf_read`: the bytes, or nothing for `CI_EOF`. -/
def read (b : MemBuf) (len : Int) : Option (Option Bytes × MemBuf) :=
  if b.remains < 0 then none
  else if b.remains = 0 ∧ b.hasEof = true then some (none, b)
  else
    let copybytes := if len ≤ b.remains then len else b.remains
    (memLoad b.buf b.readpos copybytes).map fun bytes => (some bytes, { b with readpos := b.readpos + copybytes })

/-- `ci_membuf_truncate`. -/
def truncate (b : MemBuf) (newSize : Int) : Option (Nat × MemBuf) :=
  if b.endpos < newSize then some (0, b)
  else
    (memStore b.buf newSize (if b.nullTerminated then [0] else [])).map fun buf =>
      (1, { b with
        buf := buf
        endpos := newSize
        readpos := if newSize < b.readpos then newSize else b.readpos
        unlocked := if newSize < b.unlocked then newSize else b.unlocked })

/-- `ci_membuf_lock_all`. -/
def lockAll (b : MemBuf) : MemBuf := { b with unlocked := 0 }

/-- `ci_membuf_unlock`. -/
def unlock (b : MemBuf) (len : Int) : MemBuf := { b with unlocked := if len < b.readpos then b.readpos else len }

/-- `ci_membuf_unlock_all`. -/
def unlockAll (b : MemBuf) : MemBuf := { b with unlocked := -1 }

end MemBuf

/-! ### Runs -/

inductive MemOp where
  | write (data : Bytes) (iseof : Bool)
  | read (len : Int)
  | truncate (newSize : Int)
  | lockAll
  | unlock (len : Int)
  | unlockAll

/-- A buffer with its history. The bytes written are numbered as they come: `live` are the numbers of the bytes in
front of the end position, `cut` of those truncated away before they were read, `taken` of those that reads took. -/
structure MemRun where
  body : MemBuf
  written : Bytes
  live : List Nat
  cut : List Nat
  taken : List Nat
  returned : Bytes
  deriving DecidableEq

namespace MemRun

def new (buf : Bytes) (nullTerminated readOnly : Bool) : MemRun := ⟨.new buf nullTerminated readOnly, [], [], [], [], []⟩

/-- One call, without a result when an assertion fails or memory outside of the buffer is touched. -/
def step (fresh : Nat → UInt8) (s : MemRun) : MemOp → Option MemRun
  | .write data iseof => (s.body.write fresh data iseof).map fun out =>
      { s with
        body := out.2
        written := s.written ++ data.take out.1
        live := s.live ++ List.range' s.written.length out.1 }
  | .read len => (s.body.read len).map fun out =>
      { s with
        body := out.2
        taken := s.taken ++ (s.live.drop s.body.readpos.toNat).take (out.1.getD []).length
        returned := s.returned ++ out.1.getD [] }
  | .truncate newSize => (s.body.truncate newSize).map fun out =>
      if out.1 = 0 then { s with body := out.2 }
      else
        { s with
          body := out.2
          live := s.live.take newSize.toNat
          cut := s.cut ++ s.live.drop (max newSize.toNat s.body.readpos.toNat) }
  | .lockAll => some { s with body := s.body.lockAll }
  | .unlock len => some { s with body := s.body.unlock len }
  | .unlockAll => some { s with body := s.body.unlockAll }

/-- The condition on a call: a read finds the read position in front of the unlocked one, asks for no bytes behind the
end of the data, and finds data of a closed buffer unlocked; a truncation is to a size that is there, with room
for the NUL of a terminated buffer. -/
def Sound (s : MemRun) : MemOp → Prop
  | .read len => 0 ≤ len ∧ (0 ≤ s.body.unlocked → s.body.readpos ≤ s.body.unlocked ∧
      (s.body.unlocked ≤ s.body.endpos ∨ s.body.readpos + len ≤ s.body.endpos) ∧
      (s.body.unlocked = s.body.readpos → s.body.hasEof = true → s.body.readpos = s.body.endpos))
  | .truncate newSize => 0 ≤ newSize ∧ (s.body.nullTerminated = true → newSize ≤ s.body.endpos → newSize < s.body.buf.length)
  | _ => True

/-- The bytes returned are bytes that were written, in order and once each, and not truncated away before; no
assertion fails; and `CI_EOF` comes when end-of-file is set and every byte was taken or truncated away. -/
structure Fifo (fresh : Nat → UInt8) (s : MemRun) : Prop where
  bytes : s.returned.map some = s.taken.map (s.written[·]?)
  order : s.taken.Pairwise (· < ·)
  kept : ∀ i ∈ s.taken, i ∉ s.cut
  passes : ∀ op, s.Sound op → ∃ t, s.step fresh op = some t
  eof : ∀ len body, s.Sound (.read len) → s.body.read len = some (none, body) →
    s.body.hasEof = true ∧ ∀ i < s.written.length, i ∈ s.taken ∨ i ∈ s.cut

end MemRun

/-! ### The calls -/

namespace MemBuf

/-- The positions as offsets into the buffer. -/
structure At (b : MemBuf) (e r : Nat) : Prop where
  endpos : b.endpos = e
  readpos : b.readpos = r
  order : r ≤ e
  inside : e ≤ b.buf.length

theorem memStore_inside {buf : Bytes} {pos : Nat} {data : Bytes} (fits : pos + data.length ≤ buf.length) :
    memStore buf pos data = some (poke buf pos data) := by
  rw [memStore]
  split
  · rename_i none_
    simp [none_, poke]
  · rw [if_pos (by omega), Int.toNat_natCast]

theorem growTo_keeps (fresh : Nat → UInt8) (buf : Bytes) (need : Nat) :
    ∃ more, growTo fresh buf need = buf ++ more ∧ need ≤ (buf ++ more).length :=
  grow_keeps fresh incStep buf need (by decide)

/-- A write is refused and changes nothing, or puts its data behind the data that is there. -/
theorem write_eq (fresh : Nat → UInt8) {b : MemBuf} {e r : Nat} (places : b.At e r) (data : Bytes) (iseof : Bool) :
    b.write fresh data iseof = some (0, b) ∨
      ∃ buf, b.write fresh data iseof =
          some (data.length, { b with buf := buf, endpos := (e + data.length : Nat), hasEof := iseof }) ∧
        buf.take (e + data.length) = b.buf.take e ++ data ∧ e + data.length ≤ buf.length := by
  have inside := places.inside
  rw [write]
  split
  · exact .inl rfl
  · split
    · exact .inl rfl
    · refine .inr ?_
      have asserted : ¬ (b.buf.length : Int) - (e : Int) - (if b.nullTerminated then 1 else 0 : Nat) < -1 := by
        split <;> omega
      simp only [places.endpos, if_neg asserted]
      have need : ((e : Int) + data.length + (if b.nullTerminated then 1 else 0 : Nat)).toNat =
          e + data.length + (if b.nullTerminated then 1 else 0) := by
        split <;> omega
      rw [need]
      obtain ⟨more, grown, room⟩ := growTo_keeps fresh b.buf (e + data.length + if b.nullTerminated then 1 else 0)
      have fits : e + data.length ≤ (b.buf ++ more).length := by omega
      have first : e ≤ (b.buf ++ more).length := by omega
      have width : (poke (b.buf ++ more) e data).length = max (b.buf ++ more).length (e + data.length) :=
        poke_length first
      have last : (e : Int) + data.length = (e + data.length : Nat) := by omega
      have mark : (e + data.length) + (if b.nullTerminated then [(0 : UInt8)] else []).length ≤
          (poke (b.buf ++ more) e data).length := by
        rw [width]
        cases terminated : b.nullTerminated with
        | false => simp only [Bool.false_eq_true, if_false, List.length_nil]; omega
        | true =>
            simp only [terminated, if_true] at room
            simp only [if_true, List.length_singleton]
            omega
      rw [grown, memStore_inside fits, Option.bind_some, last, memStore_inside mark, Option.map_some]
      refine ⟨_, rfl, ?_, ?_⟩
      · rw [poke_front _ (by omega), poke_take _ _ _ first, List.take_append_of_le_length inside]
      · rw [poke_length (by omega)]
        omega

/-- A sound read finds the end, or takes bytes in front of the end position. -/
theorem read_eq {b : MemBuf} {e r : Nat} (places : b.At e r) {len : Int} (positive : 0 ≤ len)
    (sound : 0 ≤ b.unlocked → b.readpos ≤ b.unlocked ∧ (b.unlocked ≤ b.endpos ∨ b.readpos + len ≤ b.endpos) ∧
      (b.unlocked = b.readpos → b.hasEof = true → b.readpos = b.endpos)) :
    b.read len = some (none, b) ∧ b.hasEof = true ∧ r = e ∨
      ∃ c : Nat, r + c ≤ e ∧ b.read len = some (some ((b.buf.drop r).take c), { b with readpos := (r + c : Nat) }) := by
  obtain ⟨endpos, readpos, order, inside⟩ := places
  rw [endpos, readpos] at sound
  obtain ⟨known, room⟩ : 0 ≤ b.remains ∧ ((r : Int) + (if len ≤ b.remains then len else b.remains) ≤ e) := by
    rw [remains, endpos, readpos]
    split
    · rename_i locked
      obtain ⟨before, within, -⟩ := sound locked
      refine ⟨by omega, ?_⟩
      split <;> omega
    · refine ⟨by omega, ?_⟩
      split <;> omega
  have least : 0 ≤ (if len ≤ b.remains then len else b.remains) := by split <;> omega
  rw [read, if_neg (by omega)]
  split
  · rename_i ended
    refine .inl ⟨rfl, ended.2, ?_⟩
    have zero := ended.1
    rw [remains, endpos, readpos] at zero
    split at zero
    · rename_i locked
      have same := (sound locked).2.2 (by omega) ended.2
      omega
    · omega
  · generalize (if len ≤ b.remains then len else b.remains) = copy at room least
    obtain ⟨c, rfl⟩ := Int.eq_ofNat_of_zero_le least
    refine .inr ⟨c, by omega, ?_⟩
    have load : memLoad b.buf r c = some ((b.buf.drop r).take c) := by
      rw [memLoad]
      split
      · rename_i none_
        rw [Int.natCast_eq_zero.mp none_, List.take_zero]
      · rw [if_pos (by omega), Int.toNat_natCast, Int.toNat_natCast]
    simp only [readpos, load, Option.map_some]
    rfl

/-- A sound truncation is refused, or cuts the data and moves the positions back to its end. -/
theorem truncate_eq {b : MemBuf} {e r m : Nat} (places : b.At e r)
    (sound : b.nullTerminated = true → (m : Int) ≤ b.endpos → (m : Int) < b.buf.length) :
    e < m ∧ b.truncate m = some (0, b) ∨
      m ≤ e ∧ ∃ (buf : Bytes) (unlocked : Int), b.truncate m = some (1, { b with
          buf := buf, endpos := m, readpos := (min m r : Nat), unlocked := unlocked }) ∧
        buf.take m = b.buf.take m ∧ buf.length = b.buf.length := by
  obtain ⟨endpos, readpos, order, inside⟩ := places
  rw [truncate, endpos]
  rw [endpos] at sound
  by_cases refused : e < m
  · exact .inl ⟨refused, if_pos (by omega)⟩
  · refine .inr ⟨by omega, ?_⟩
    have mark : m + (if b.nullTerminated then [(0 : UInt8)] else []).length ≤ b.buf.length := by
      cases terminated : b.nullTerminated with
      | false => simp only [Bool.false_eq_true, if_false, List.length_nil]; omega
      | true =>
          have room := sound terminated (by omega)
          simp only [if_true, List.length_singleton]
          omega
    have back : (if (m : Int) < r then (m : Int) else r) = (min m r : Nat) := by
      split <;> omega
    rw [if_neg (by omega), memStore_inside mark, Option.map_some, readpos, back]
    refine ⟨_, _, rfl, poke_front _ (by omega), ?_⟩
    rw [poke_length (by omega)]
    omega

end MemBuf

/-! ### What holds in every run -/

namespace MemRun

/-- The bytes in front of the end position and their numbers, and what became of all others. -/
structure Held (s : MemRun) (e r : Nat) : Prop where
  places : s.body.At e r
  data : (s.body.buf.take e).map some = s.live.map (s.written[·]?)
  sorted : s.live.Pairwise (· < ·)
  known : ∀ i ∈ s.taken ++ s.cut ++ s.live, i < s.written.length
  bytes : s.returned.map some = s.taken.map (s.written[·]?)
  order : (s.taken ++ s.live.drop r).Pairwise (· < ·)
  kept : ∀ i ∈ s.cut, i ∉ s.taken ++ s.live
  covered : ∀ i < s.written.length, i ∈ s.taken ++ s.cut ++ s.live.drop r

theorem Held.width {s : MemRun} {e r : Nat} (held : s.Held e r) : s.live.length = e := by
  have same := congrArg List.length held.data
  have inside := held.places.inside
  rw [List.length_map, List.length_map, List.length_take] at same
  omega

/-- Bytes that are written later do not change those that are there. -/
theorem map_written {written more : Bytes} {l : List Nat} (known : ∀ i ∈ l, i < written.length) :
    l.map ((written ++ more)[·]?) = l.map (written[·]?) := by
  refine List.map_congr_left (fun i member => ?_)
  exact List.getElem?_append_left (known i member)

theorem map_range (written data : Bytes) :
    (List.range' written.length data.length).map ((written ++ data)[·]?) = data.map some := by
  induction data generalizing written with
  | nil => rfl
  | cons c data ih =>
      have rest := ih (written ++ [c])
      rw [List.length_append, List.length_singleton, List.append_assoc, List.singleton_append] at rest
      rw [List.length_cons, List.range'_succ, List.map_cons, rest]
      simp

/-- A change of the lock keeps what holds. -/
theorem Held.locked {s : MemRun} {e r : Nat} (held : s.Held e r) (unlocked : Int) :
    ({ s with body := { s.body with unlocked := unlocked } } : MemRun).Held e r := by
  obtain ⟨⟨endpos, readpos, order, inside⟩, data, sorted, known, bytes, takenOrder, kept, covered⟩ := held
  exact ⟨⟨endpos, readpos, order, inside⟩, data, sorted, known, bytes, takenOrder, kept, covered⟩

/-- An accepted write. -/
theorem Held.written {s : MemRun} {e r : Nat} (held : s.Held e r) {buf : Bytes} (d : Bytes) (iseof : Bool)
    (data : buf.take (e + d.length) = s.body.buf.take e ++ d) (inside : e + d.length ≤ buf.length) :
    ({ s with
        body := { s.body with buf := buf, endpos := (e + d.length : Nat), hasEof := iseof }
        written := s.written ++ d
        live := s.live ++ List.range' s.written.length d.length } : MemRun).Held (e + d.length) r := by
  have fresh : ∀ i ∈ List.range' s.written.length d.length, s.written.length ≤ i ∧ i < s.written.length + d.length := by
    intro i member
    simpa using List.mem_range'_1.mp member
  have long := held.width
  have order := held.places.order
  have dropped : (s.live ++ List.range' s.written.length d.length).drop r =
      s.live.drop r ++ List.range' s.written.length d.length := List.drop_append_of_le_length (by omega)
  have old : ∀ i ∈ s.taken ++ s.cut ++ s.live, i < s.written.length := held.known
  refine ⟨⟨rfl, held.places.readpos, by omega, inside⟩, ?_, ?_, ?_, ?_, ?_, ?_, ?_⟩
  · simp only [data, List.map_append, held.data, map_range]
    rw [map_written (fun i member => old i (List.mem_append_right _ member))]
  · refine List.pairwise_append.mpr ⟨held.sorted, List.pairwise_lt_range', fun a here b later => ?_⟩
    have below := old a (List.mem_append_right _ here)
    have above := fresh b later
    omega
  · intro i member
    rw [List.length_append]
    rw [← List.append_assoc, List.mem_append] at member
    rcases member with member | member
    · have below := old i member
      omega
    · exact (fresh i member).2
  · rw [held.bytes, map_written (fun i member => old i (List.mem_append_left _ (List.mem_append_left _ member)))]
  · simp only [dropped]
    rw [← List.append_assoc]
    refine List.pairwise_append.mpr ⟨held.order, List.pairwise_lt_range', fun a here b later => ?_⟩
    have above := fresh b later
    have below : a < s.written.length := by
      rcases List.mem_append.mp here with here | here
      · exact old a (List.mem_append_left _ (List.mem_append_left _ here))
      · exact old a (List.mem_append_right _ (List.mem_of_mem_drop here))
    omega
  · intro i member
    have below := old i (List.mem_append_left _ (List.mem_append_right _ member))
    rw [← List.append_assoc, List.mem_append, not_or]
    exact ⟨held.kept i member, fun later => absurd (fresh i later).1 (by omega)⟩
  · intro i below
    rw [List.length_append] at below
    simp only [dropped]
    rw [← List.append_assoc, List.mem_append]
    by_cases early : i < s.written.length
    · exact .inl (held.covered i early)
    · exact .inr (List.mem_range'_1.mpr ⟨by omega, below⟩)

/-- The bytes behind the read position and their numbers. -/
theorem Held.ahead {s : MemRun} {e r c : Nat} (held : s.Held e r) (fits : r + c ≤ e) :
    ((s.body.buf.drop r).take c).map some = ((s.live.drop r).take c).map (s.written[·]?) := by
  have cutOff : (s.body.buf.drop r).take c = ((s.body.buf.take e).drop r).take c := by
    rw [List.drop_take, List.take_take, Nat.min_eq_left (by omega)]
  rw [cutOff, List.map_take, List.map_drop, held.data, List.map_take, List.map_drop]

/-- A read. -/
theorem Held.returned {s : MemRun} {e r c : Nat} (held : s.Held e r) (fits : r + c ≤ e) :
    ({ s with
        body := { s.body with readpos := (r + c : Nat) }
        taken := s.taken ++ (s.live.drop r).take c
        returned := s.returned ++ (s.body.buf.drop r).take c } : MemRun).Held e (r + c) := by
  have split : (s.live.drop r).take c ++ s.live.drop (r + c) = s.live.drop r := by
    rw [← List.drop_drop, List.take_append_drop]
  have inner : ∀ i ∈ (s.live.drop r).take c, i ∈ s.live := fun i member => List.mem_of_mem_drop (List.mem_of_mem_take member)
  refine ⟨⟨held.places.endpos, rfl, fits, held.places.inside⟩, held.data, held.sorted, ?_, ?_, ?_, ?_, ?_⟩
  · intro i member
    refine held.known i ?_
    simp only [List.mem_append] at member ⊢
    have front := inner i
    tauto
  · simp only [List.map_append, held.bytes, held.ahead fits]
  · simp only [List.append_assoc, split]
    exact held.order
  · intro i member
    have apart := held.kept i member
    have front := inner i
    simp only [List.mem_append, not_or] at apart ⊢
    tauto
  · intro i below
    have here := held.covered i below
    rw [← split] at here
    simp only [List.mem_append] at here ⊢
    tauto

/-- A truncation. -/
theorem Held.truncated {s : MemRun} {e r m : Nat} (held : s.Held e r) {buf : Bytes} (unlocked : Int) (fits : m ≤ e)
    (data : buf.take m = s.body.buf.take m) (same : buf.length = s.body.buf.length) :
    ({ s with
        body := { s.body with buf := buf, endpos := m, readpos := (min m r : Nat), unlocked := unlocked }
        live := s.live.take m
        cut := s.cut ++ s.live.drop (max m r) } : MemRun).Held m (min m r) := by
  have inside := held.places.inside
  have sorted : (s.live.take m ++ s.live.drop m).Pairwise (· < ·) := by
    rw [List.take_append_drop]
    exact held.sorted
  have split : s.live.drop r = (s.live.take m).drop (min m r) ++ s.live.drop (max m r) := by
    rcases Nat.le_total r m with before | behind
    · rw [Nat.min_eq_right before, Nat.max_eq_left before]
      nth_rewrite 1 [← List.take_append_drop m s.live]
      rw [List.drop_append_of_le_length]
      rw [List.length_take, held.width]
      omega
    · rw [Nat.min_eq_left behind, Nat.max_eq_right behind, List.drop_eq_nil_of_le (List.length_take_le _ _),
        List.nil_append]
  have order := held.order
  rw [split, ← List.append_assoc] at order
  refine ⟨⟨rfl, rfl, Nat.min_le_left _ _, by simp only; omega⟩, ?_, ?_, ?_, held.bytes, ?_, ?_, ?_⟩
  · have whole : s.body.buf.take m = (s.body.buf.take e).take m := by rw [List.take_take, Nat.min_eq_left fits]
    simp only [data, whole, List.map_take, held.data]
  · exact held.sorted.sublist (List.take_sublist _ _)
  · intro i member
    refine held.known i ?_
    have front : i ∈ s.live.take m → i ∈ s.live := List.mem_of_mem_take
    have back : i ∈ s.live.drop (max m r) → i ∈ s.live := List.mem_of_mem_drop
    simp only [List.mem_append] at member ⊢
    tauto
  · exact order.sublist (List.sublist_append_left _ _)
  · intro i member
    rcases List.mem_append.mp member with member | member
    · have apart := held.kept i member
      have front : i ∈ s.live.take m → i ∈ s.live := List.mem_of_mem_take
      simp only [List.mem_append, not_or] at apart ⊢
      tauto
    · have later : i ∈ s.live.drop m := by
        rw [show max m r = m + (max m r - m) by omega, ← List.drop_drop] at member
        exact List.mem_of_mem_drop member
      rw [List.mem_append, not_or]
      constructor
      · intro early
        have less := (List.pairwise_append.mp order).2.2 i (List.mem_append_left _ early) i member
        omega
      · intro early
        have less := (List.pairwise_append.mp sorted).2.2 i early i later
        omega
  · intro i below
    have here := held.covered i below
    rw [split] at here
    simp only [List.mem_append] at here ⊢
    tauto

/-- A sound call goes through and keeps what holds. -/
theorem step_held (fresh : Nat → UInt8) {s : MemRun} {e r : Nat} (held : s.Held e r) {op : MemOp} (sound : s.Sound op) :
    ∃ t, s.step fresh op = some t ∧ ∃ e' r', t.Held e' r' := by
  cases op with
  | write data iseof =>
      simp only [step]
      rcases MemBuf.write_eq fresh held.places data iseof with refused | ⟨buf, accepted, front, inside⟩
      · refine ⟨s, ?_, e, r, held⟩
        rw [refused]
        simp
      · refine ⟨_, by rw [accepted, Option.map_some, List.take_length], _, _, held.written data iseof front inside⟩
  | read len =>
      simp only [step]
      rcases MemBuf.read_eq held.places sound.1 sound.2 with ⟨ended, -, -⟩ | ⟨c, fits, read⟩
      · refine ⟨s, ?_, e, r, held⟩
        rw [ended]
        simp
      · have inside := held.places.inside
        have long : ((s.body.buf.drop r).take c).length = c := by
          rw [List.length_take, List.length_drop]
          omega
        refine ⟨_, ?_, e, r + c, held.returned fits⟩
        rw [read, Option.map_some, held.places.readpos, Int.toNat_natCast, Option.getD_some, long]
  | truncate newSize =>
      simp only [step]
      obtain ⟨m, rfl⟩ := Int.eq_ofNat_of_zero_le sound.1
      rcases MemBuf.truncate_eq held.places sound.2 with ⟨-, refused⟩ | ⟨fits, buf, unlocked, cut, front, same⟩
      · refine ⟨s, ?_, e, r, held⟩
        rw [refused]
        rfl
      · refine ⟨_, ?_, m, min m r, held.truncated unlocked fits front same⟩
        rw [cut, Option.map_some, if_neg (by simp), held.places.readpos, Int.toNat_natCast, Int.toNat_natCast]
  | lockAll => exact ⟨_, rfl, e, r, held.locked _⟩
  | unlock len => exact ⟨_, rfl, e, r, held.locked _⟩
  | unlockAll => exact ⟨_, rfl, e, r, held.locked _⟩

theorem Held.fifo (fresh : Nat → UInt8) {s : MemRun} {e r : Nat} (held : s.Held e r) : s.Fifo fresh where
  bytes := held.bytes
  order := (List.pairwise_append.mp held.order).1
  kept i member cut := held.kept i cut (List.mem_append_left _ member)
  passes op sound := by
    obtain ⟨t, pass, -⟩ := step_held fresh held sound
    exact ⟨t, pass⟩
  eof len body sound read := by
    rcases MemBuf.read_eq held.places sound.1 sound.2 with ⟨-, ended, last⟩ | ⟨c, -, other⟩
    · refine ⟨ended, fun i below => ?_⟩
      have here := held.covered i below
      rw [last, List.drop_eq_nil_of_le (Nat.le_of_eq held.width), List.append_nil] at here
      exact List.mem_append.mp here
    · rw [other] at read
      cases read

instance (s : MemRun) : DecidablePred s.Sound
  | .read len => inferInstanceAs (Decidable (0 ≤ len ∧ (0 ≤ s.body.unlocked → s.body.readpos ≤ s.body.unlocked ∧
      (s.body.unlocked ≤ s.body.endpos ∨ s.body.readpos + len ≤ s.body.endpos) ∧
      (s.body.unlocked = s.body.readpos → s.body.hasEof = true → s.body.readpos = s.body.endpos))))
  | .truncate newSize => inferInstanceAs (Decidable (0 ≤ newSize ∧
      (s.body.nullTerminated = true → newSize ≤ s.body.endpos → newSize < s.body.buf.length)))
  | .write _ _ | .lockAll | .unlock _ | .unlockAll => inferInstanceAs (Decidable True)

end MemRun

end IcapService
