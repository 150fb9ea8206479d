import IcapService.Lib.CInt
import IcapService.Lib.Memory

/-! `ci_cached_file_t` of `body.c`: a body that is kept in memory until it grows out of its buffer.

A read or a write of the temporary file transfers all it is asked for, up to the end of the file. What would
assert, or would touch memory outside of the buffer, has no result. -/

namespace IcapService

open CString CInt

/-- The initial size of a body and `CI_BODY_MAX_MEM`, two values of type `int`. -/
structure BodyLimits where
  size : Int
  maxMem : Int
  small : size < 2147483648 ∧ maxMem < 2147483648

/-- A `ci_cached_file_t`: the buffer, or the bytes of the file once there is one. -/
structure CachedFile where
  buf : Bytes
  file : Option Bytes
  endpos : Nat
  readpos : Nat
  unlocked : Int
  hasEof : Bool
  useLock : Bool
  deriving DecidableEq

inductive CachedOp where
  | write (data : Bytes) (iseof : Bool)
  | read (len : Int)
  | lockAll
  | unlock (len : Int)
  | unlockAll

/-- What a call answers: the length written, the bytes read or `CI_EOF`. -/
inductive CachedAnswer where
  | wrote (len : Nat)
  | bytes (data : Bytes)
  | eof
  | done
  deriving DecidableEq

namespace CachedFile

/-- The size of the buffer of a new body; zero asks for all that is allowed. -/
def firstSize (l : BodyLimits) : Int := if l.size = 0 then l.maxMem else l.size

/-- `ci_cached_file_new`; `fresh` tells what new memory holds. -/
def new (fresh : Nat → UInt8) (l : BodyLimits) : CachedFile :=
  let memory := 0 < firstSize l ∧ firstSize l ≤ l.maxMem
  { buf := if memory then (List.range (firstSize l).toNat).map fresh else []
    file := if memory then none else some []
    endpos := 0
    readpos := 0
    unlocked := 0
    hasEof := false
    useLock := false }

/-- `ci_cached_file_write`. -/
def write (f : CachedFile) (data : Bytes) (iseof : Bool) : Option (CachedAnswer × CachedFile) :=
  let f := { f with hasEof := f.hasEof || iseof }
  if data = [] then some (.wrote 0, f)
  else
    match f.file with
    | some file =>
        some (.wrote data.length, { f with file := some (file ++ data), endpos := f.endpos + data.length })
    | none =>
        if f.buf.length < f.endpos then none
        else if f.buf.length - f.endpos < data.length then
          some (.wrote data.length, { f with
            file := some (f.buf.take f.endpos ++ data)
            endpos := f.endpos + data.length })
        else
          some (.wrote data.length, { f with buf := poke f.buf f.endpos data, endpos := f.endpos + data.length })

/-- What the lock lets a read take, converted to `int`; nothing without a lock. -/
def allowed (f : CachedFile) : Option Int :=
  if f.useLock = true ∧ 0 ≤ f.unlocked then some (wrap32 (f.unlocked - f.readpos)) else none

/-- `ci_cached_file_read`. -/
def read (f : CachedFile) (len : Int) : Option (CachedAnswer × CachedFile) :=
  if f.readpos = f.endpos ∧ f.hasEof = true then some (.eof, f)
  else if len = 0 then some (.bytes [], f)
  else
    match f.file with
    | some file =>
        let remains := f.allowed.getD len
        if remains < 0 then none
        else
          let bytes := if len < remains then len else remains
          if bytes < 0 then none
          else
            let data := (file.drop f.readpos).take bytes.toNat
            some (.bytes data, { f with readpos := f.readpos + data.length })
    | none =>
        let remains := f.allowed.getD (wrap32 ((f.endpos : Int) - f.readpos))
        if remains < 0 then none
        else
          let bytes := if len ≤ remains then len else remains
          if 0 < bytes then
            if f.readpos + bytes ≤ f.buf.length then
              some (.bytes ((f.buf.drop f.readpos).take bytes.toNat), { f with readpos := f.readpos + bytes.toNat })
            else none
          else some (.bytes [], f)

/-- One call. -/
def step (f : CachedFile) : CachedOp → Option (CachedAnswer × CachedFile)
  | .write data iseof => f.write data iseof
  | .read len => f.read len
  | .lockAll => some (.done, { f with useLock := true, unlocked := 0 })
  | .unlock len => some (.done, { f with unlocked := if len < f.readpos then f.readpos else len })
  | .unlockAll => some (.done, { f with useLock := false, unlocked := 0 })

/-- The answers to a list of calls, up to the first one that has none. -/
def answers : CachedFile → List CachedOp → List (Option CachedAnswer)
  | _, [] => []
  | f, op :: rest =>
      match f.step op with
      | none => [none]
      | some out => some out.1 :: answers out.2 rest

/-- A read of the end, or of a length that is not negative and under a lock, if it lets any be read, ends where the
data ends. -/
def Sound (f : CachedFile) : CachedOp → Prop
  | .read len => f.readpos = f.endpos ∧ f.hasEof = true ∨
      0 ≤ len ∧ ∀ remains ∈ f.allowed, 0 ≤ remains → f.readpos + min len remains ≤ f.endpos
  | _ => True

/-- Every call of the run is sound where it takes place. -/
def SoundRun : CachedFile → List CachedOp → Prop
  | _, [] => True
  | f, op :: rest =>
      f.Sound op ∧
        match f.step op with
        | none => True
        | some out => SoundRun out.2 rest

end CachedFile

/-! ### The body as it is meant -/

/-- A body without a place: its data, how much of it was read, and its lock. -/
structure PlainBody where
  data : Bytes
  readpos : Nat
  unlocked : Int
  hasEof : Bool
  useLock : Bool

namespace PlainBody

/-- What a read of a positive length may take. -/
def limit (b : PlainBody) (len : Int) : Int :=
  if b.useLock = true ∧ 0 ≤ b.unlocked then min len (wrap32 (b.unlocked - b.readpos)) else len

def read (b : PlainBody) (len : Int) : Option (CachedAnswer × PlainBody) :=
  if b.readpos = b.data.length ∧ b.hasEof = true then some (.eof, b)
  else if len = 0 then some (.bytes [], b)
  else if b.limit len < 0 then none
  else
    let data := (b.data.drop b.readpos).take (b.limit len).toNat
    some (.bytes data, { b with readpos := b.readpos + data.length })

def step (b : PlainBody) : CachedOp → Option (CachedAnswer × PlainBody)
  | .write data iseof => some (.wrote data.length, { b with data := b.data ++ data, hasEof := b.hasEof || iseof })
  | .read len => b.read len
  | .lockAll => some (.done, { b with useLock := true, unlocked := 0 })
  | .unlock len => some (.done, { b with unlocked := if len < b.readpos then b.readpos else len })
  | .unlockAll => some (.done, { b with useLock := false, unlocked := 0 })

end PlainBody

/-- The body holds its data in memory or in the file. -/
structure CachedFile.Refines (f : CachedFile) (b : PlainBody) : Prop where
  endpos : f.endpos = b.data.length
  readpos : f.readpos = b.readpos
  within : b.readpos ≤ b.data.length
  unlocked : f.unlocked = b.unlocked
  hasEof : f.hasEof = b.hasEof
  useLock : f.useLock = b.useLock
  stored : f.file = some b.data ∨
    f.file = none ∧ f.buf.take f.endpos = b.data ∧ f.endpos ≤ f.buf.length ∧ f.buf.length < 2147483648

namespace CachedFile

theorem new_refines (fresh : Nat → UInt8) (l : BodyLimits) : (new fresh l).Refines ⟨[], 0, 0, false, false⟩ := by
  refine ⟨rfl, rfl, Nat.le_refl _, rfl, rfl, rfl, ?_⟩
  by_cases memory : 0 < firstSize l ∧ firstSize l ≤ l.maxMem
  · refine .inr ⟨if_pos memory, by simp [new], Nat.zero_le _, ?_⟩
    have small := l.small
    simp only [new, if_pos memory, List.length_map, List.length_range]
    omega
  · exact .inl (if_neg memory)

theorem write_refines {f : CachedFile} {b : PlainBody} (refines : f.Refines b) (data : Bytes) (iseof : Bool) :
    ∃ g, f.write data iseof = some (.wrote data.length, g) ∧
      g.Refines { b with data := b.data ++ data, hasEof := b.hasEof || iseof } := by
  obtain ⟨endpos, readpos, within, unlocked, hasEof, useLock, stored⟩ := refines
  have ahead : b.readpos ≤ (b.data ++ data).length := by
    rw [List.length_append]
    omega
  have longer : f.endpos + data.length = (b.data ++ data).length := by rw [List.length_append, endpos]
  rw [write]
  by_cases empty : data = []
  · subst empty
    refine ⟨_, if_pos rfl, longer, readpos, ahead, unlocked, by simp only [hasEof], useLock, ?_⟩
    simpa using stored
  · rw [if_neg empty]
    rcases stored with file | ⟨memory, taken, inside, small⟩
    · simp only [file]
      exact ⟨_, rfl, longer, readpos, ahead, unlocked, by simp only [hasEof], useLock, .inl rfl⟩
    · simp only [memory, if_neg (Nat.not_lt.mpr inside)]
      split
      · exact ⟨_, rfl, longer, readpos, ahead, unlocked, by simp only [hasEof], useLock, .inl (by rw [taken])⟩
      · rename_i room
        have width : (poke f.buf f.endpos data).length = f.buf.length := by
          rw [poke_length inside]
          omega
        refine ⟨_, rfl, longer, readpos, ahead, unlocked, by simp only [hasEof], useLock, .inr ⟨rfl, ?_, ?_, ?_⟩⟩
        · rw [poke_take _ _ _ inside, taken]
        · simp only [width]
          omega
        · rw [width]
          exact small

/-- The plain body as it is after a read. -/
theorem read_moves {f : CachedFile} {b : PlainBody} (refines : f.Refines b) (n : Nat) :
    ({ f with readpos := f.readpos + ((b.data.drop b.readpos).take n).length } : CachedFile).Refines
      { b with readpos := b.readpos + ((b.data.drop b.readpos).take n).length } := by
  obtain ⟨endpos, readpos, within, unlocked, hasEof, useLock, stored⟩ := refines
  refine ⟨endpos, by rw [readpos], ?_, unlocked, hasEof, useLock, stored⟩
  simp only [List.length_take, List.length_drop]
  omega

/-- A read is limited by its length, or by the lock as well. -/
theorem limit_eq {f : CachedFile} {b : PlainBody} (refines : f.Refines b) (len : Int) :
    f.allowed = none ∧ b.limit len = len ∨ ∃ r, f.allowed = some r ∧ b.limit len = min len r := by
  rw [allowed, PlainBody.limit, refines.useLock, refines.unlocked, refines.readpos]
  split
  · exact .inr ⟨_, rfl, rfl⟩
  · exact .inl ⟨rfl, rfl⟩

/-- What is read from the buffer in front of the end position is the data. -/
theorem buffer_take {f : CachedFile} {b : PlainBody} (taken : f.buf.take f.endpos = b.data) {n : Nat}
    (fits : b.readpos + n ≤ f.endpos) (inside : f.endpos ≤ f.buf.length) :
    (f.buf.drop b.readpos).take n = (b.data.drop b.readpos).take n ∧
      ((b.data.drop b.readpos).take n).length = n := by
  rw [← taken]
  refine ⟨?_, ?_⟩
  · rw [List.drop_take, List.take_take, Nat.min_eq_left (by omega)]
  · rw [List.length_take, List.length_drop, List.length_take]
    omega

/-- A read of `n` bytes from memory. -/
theorem memory_read {f : CachedFile} {b : PlainBody} (refines : f.Refines b) (taken : f.buf.take f.endpos = b.data)
    (inside : f.endpos ≤ f.buf.length) {n : Nat} (fits : b.readpos + n ≤ b.data.length) :
    ∃ g, (if 0 < (n : Int) then
          if (f.readpos : Int) + n ≤ f.buf.length then
            some (CachedAnswer.bytes ((f.buf.drop f.readpos).take (n : Int).toNat),
              { f with readpos := f.readpos + (n : Int).toNat })
          else none
        else some (.bytes [], f)) = some (.bytes ((b.data.drop b.readpos).take n), g) ∧
      g.Refines { b with readpos := b.readpos + ((b.data.drop b.readpos).take n).length } := by
  have before := refines.endpos
  obtain ⟨same, long⟩ := buffer_take taken (n := n) (by omega) inside
  have moves := read_moves refines n
  rw [long] at moves ⊢
  by_cases some_ : 0 < (n : Int)
  · have room : (f.readpos : Int) + n ≤ f.buf.length := by
      rw [refines.readpos]
      omega
    rw [if_pos some_, if_pos room, Int.toNat_natCast, refines.readpos, same]
    rw [refines.readpos] at moves
    exact ⟨_, rfl, moves⟩
  · obtain rfl : n = 0 := by omega
    rw [if_neg some_, List.take_zero]
    exact ⟨f, rfl, refines⟩

/-- A sound read has the answer it has of the plain body. -/
theorem read_refines {f : CachedFile} {b : PlainBody} (refines : f.Refines b) {len : Int}
    (sound : f.Sound (.read len)) :
    f.read len = none ∧ b.read len = none ∨
      ∃ answer g c, f.read len = some (answer, g) ∧ b.read len = some (answer, c) ∧ g.Refines c := by
  rw [read, PlainBody.read]
  by_cases ended : f.readpos = f.endpos ∧ f.hasEof = true
  · have plain : b.readpos = b.data.length ∧ b.hasEof = true := by
      rwa [← refines.readpos, ← refines.endpos, ← refines.hasEof]
    rw [if_pos ended, if_pos plain]
    exact .inr ⟨_, _, _, rfl, rfl, refines⟩
  · have plain : ¬ (b.readpos = b.data.length ∧ b.hasEof = true) := by
      rwa [← refines.readpos, ← refines.endpos, ← refines.hasEof]
    rw [if_neg ended, if_neg plain]
    by_cases zero : len = 0
    · rw [if_pos zero, if_pos zero]
      exact .inr ⟨_, _, _, rfl, rfl, refines⟩
    · rw [if_neg zero, if_neg zero]
      obtain ⟨positive, fits⟩ := sound.resolve_left ended
      have moves := read_moves refines
      have within := refines.within
      rcases limit_eq refines len with ⟨allowed, limit⟩ | ⟨r, allowed, limit⟩
      · rw [allowed, limit]
        obtain ⟨n, rfl⟩ := Int.eq_ofNat_of_zero_le positive
        rcases refines.stored with file | ⟨memory, taken, inside, small⟩
        · simp only [file, refines.readpos] at moves
          simp only [file, Option.getD_none, if_neg (Int.not_lt.mpr positive), Int.toNat_natCast, refines.readpos,
            ite_self]
          exact .inr ⟨_, _, _, rfl, rfl, moves n⟩
        · have before := refines.endpos
          have here := refines.readpos
          have whole : wrap32 ((f.endpos : Int) - f.readpos) = (b.data.drop b.readpos).length := by
            rw [wrap32_of_range _ (by omega) (by omega), refines.readpos, before, List.length_drop]
            omega
          have least :
              (if (n : Int) ≤ (b.data.drop b.readpos).length then (n : Int) else (b.data.drop b.readpos).length) =
              (min n (b.data.drop b.readpos).length : Nat) := by
            split <;> omega
          obtain ⟨g, answer, after⟩ := memory_read refines taken inside
            (n := min n (b.data.drop b.readpos).length) (by
            rw [List.length_drop]
            omega)
          rw [← List.take_take, List.take_length] at answer after
          simp only [memory] at answer
          simp only [memory, Option.getD_none, whole, if_neg (Int.not_lt.mpr (Int.natCast_nonneg _)), least, answer]
          exact .inr ⟨_, g, _, rfl, rfl, after⟩
      · rw [allowed, limit]
        by_cases barred : r < 0
        · refine .inl ⟨?_, if_pos (by omega)⟩
          cases f.file with
          | none => exact if_pos barred
          | some file => exact if_pos barred
        · have fits := fits r allowed (Int.not_lt.mp barred)
          rw [refines.readpos, refines.endpos] at fits
          have least : (if len < r then len else r) = min len r ∧ (if len ≤ r then len else r) = min len r := by
            constructor <;> split <;> omega
          obtain ⟨n, count⟩ := Int.eq_ofNat_of_zero_le (show 0 ≤ min len r by omega)
          rw [count] at fits least
          have limited : ¬ (n : Int) < 0 := by omega
          rcases refines.stored with file | ⟨memory, taken, inside, small⟩
          · simp only [file, refines.readpos] at moves
            simp only [file, Option.getD_some, if_neg barred, least.1, count, if_neg limited, Int.toNat_natCast,
              refines.readpos]
            exact .inr ⟨_, _, _, rfl, rfl, moves n⟩
          · obtain ⟨g, answer, after⟩ := memory_read refines taken inside (n := n) (by omega)
            simp only [memory, Int.toNat_natCast] at answer
            simp only [memory, Option.getD_some, if_neg barred, least.2, count, if_neg limited, Int.toNat_natCast,
               answer]
            exact .inr ⟨_, g, _, rfl, rfl, after⟩

/-- Every sound call has the answer it has of the plain body. -/
theorem step_refines {f : CachedFile} {b : PlainBody} (refines : f.Refines b) {op : CachedOp} (sound : f.Sound op) :
    f.step op = none ∧ b.step op = none ∨
      ∃ answer g c, f.step op = some (answer, g) ∧ b.step op = some (answer, c) ∧ g.Refines c := by
  cases op with
  | write data iseof =>
      obtain ⟨g, written, after⟩ := write_refines refines data iseof
      exact .inr ⟨_, g, _, written, rfl, after⟩
  | read len => exact read_refines refines sound
  | lockAll =>
      obtain ⟨endpos, readpos, within, unlocked, hasEof, useLock, stored⟩ := refines
      exact .inr ⟨_, _, _, rfl, rfl, endpos, readpos, within, rfl, hasEof, rfl, stored⟩
  | unlock len =>
      obtain ⟨endpos, readpos, within, unlocked, hasEof, useLock, stored⟩ := refines
      exact .inr ⟨_, _, _, rfl, rfl, endpos, readpos, within, by simp only [readpos], hasEof, useLock, stored⟩
  | unlockAll =>
      obtain ⟨endpos, readpos, within, unlocked, hasEof, useLock, stored⟩ := refines
      exact .inr ⟨_, _, _, rfl, rfl, endpos, readpos, within, rfl, hasEof, rfl, stored⟩

theorem Refines.sound {f g : CachedFile} {b : PlainBody} (left : f.Refines b) (right : g.Refines b) {op : CachedOp}
    (sound : f.Sound op) : g.Sound op := by
  cases op with
  | read len =>
      have allowed : f.allowed = g.allowed := by
        rw [allowed, allowed, left.useLock, left.unlocked, left.readpos, right.useLock, right.unlocked,
          right.readpos]
      simp only [Sound, left.readpos, left.endpos, left.hasEof, allowed] at sound
      simp only [Sound, right.readpos, right.endpos, right.hasEof]
      exact sound
  | _ => trivial

/-- Two files that hold the same body answer alike in every sound run. -/
theorem answers_agree {f g : CachedFile} {b : PlainBody} (left : f.Refines b) (right : g.Refines b)
    (ops : List CachedOp) (sound : f.SoundRun ops) : f.answers ops = g.answers ops := by
  induction ops generalizing f g b with
  | nil => rfl
  | cons op rest ih =>
      obtain ⟨here, onward⟩ := sound
      rcases step_refines left here with ⟨fails, plain⟩ | ⟨answer, f', c, passes, plain, after⟩
      · rcases step_refines right (left.sound right here) with ⟨fails', -⟩ | ⟨answer', g', c', -, plain', -⟩
        · rw [answers, answers, fails, fails']
        · rw [plain] at plain'
          cases plain'
      · rcases step_refines right (left.sound right here) with ⟨-, plain'⟩ | ⟨answer', g', c', passes', plain', after'⟩
        · rw [plain] at plain'
          cases plain'
        · rw [plain] at plain'
          cases plain'
          rw [passes] at onward
          simp only [answers, passes, passes']
          rw [ih after after' onward]

/-- The calls are answered alike whatever the initial size, the memory allowed and the contents of new memory. -/
def SameAnswers (ops : List CachedOp) : Prop :=
  ∀ (fresh fresh' : Nat → UInt8) (l l' : BodyLimits), (new fresh l).answers ops = (new fresh' l').answers ops

/-- A run that is sound with one initial size has the same answers with all. -/
theorem cached_files_agree (fresh : Nat → UInt8) (l : BodyLimits) (ops : List CachedOp)
    (sound : (new fresh l).SoundRun ops) : SameAnswers ops := by
  intro memory memory' m m'
  rw [← answers_agree (new_refines fresh l) (new_refines memory m) ops sound]
  exact answers_agree (new_refines fresh l) (new_refines memory' m') ops sound

instance (f : CachedFile) : DecidablePred f.Sound
  | .read len => inferInstanceAs (Decidable (f.readpos = f.endpos ∧ f.hasEof = true ∨
      0 ≤ len ∧ ∀ remains ∈ f.allowed, 0 ≤ remains → f.readpos + min len remains ≤ f.endpos))
  | .write _ _ | .lockAll | .unlock _ | .unlockAll => inferInstanceAs (Decidable True)

instance decidableSoundRun : (f : CachedFile) → (ops : List CachedOp) → Decidable (f.SoundRun ops)
  | _, [] => inferInstanceAs (Decidable True)
  | f, op :: rest =>
      have : Decidable (match f.step op with
          | none => True
          | some out => SoundRun out.2 rest) :=
        match f.step op with
        | none => inferInstanceAs (Decidable True)
        | some out => decidableSoundRun out.2 rest
      inferInstanceAs (Decidable (_ ∧ _))

/-- Memory of four bytes, and none. -/
def fourBytes : BodyLimits := ⟨4, 8, by decide⟩

def noMemory : BodyLimits := ⟨0, 0, by decide⟩

/-- Writes that spill to disk between locked reads. -/
theorem cached_files_agree_spilled :
    SameAnswers [.write [1, 2, 3] false, .lockAll, .unlock 2, .read 5, .write [4, 5] true, .unlockAll, .read 5, .read 1] :=
  cached_files_agree (fun _ => 0) fourBytes _ (by decide +kernel)

/-- More bytes are unlocked than there are: from memory they are read, from disk not. -/
theorem unlocked_bytes_differ :
    (new (fun _ => 0) fourBytes).answers [.write [1, 2] false, .lockAll, .unlock 4, .read 4] =
        [some (.wrote 2), some .done, some .done, some (.bytes [1, 2, 0, 0])] ∧
      (new (fun _ => 0) noMemory).answers [.write [1, 2] false, .lockAll, .unlock 4, .read 4] =
        [some (.wrote 2), some .done, some .done, some (.bytes [1, 2])] ∧
      ¬ SameAnswers [.write [1, 2] false, .lockAll, .unlock 4, .read 4] := by
  refine ⟨by decide +kernel, by decide +kernel, fun same => ?_⟩
  exact absurd (same (fun _ => 0) (fun _ => 0) fourBytes noMemory) (by decide +kernel)

end CachedFile

end IcapService
