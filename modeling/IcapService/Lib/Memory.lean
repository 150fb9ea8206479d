import IcapService.Lib.CString

/-! Memory blocks that hold C strings.

A block is the list of its bytes. Strings are cut off at their NUL, stores keep the size of the
block, and pieces laid one behind the other are found at their running offsets. -/

namespace IcapService.CString

def strlen (s : Bytes) : Nat := (s.takeWhile (· != 0)).length

/-- The C string at an offset. -/
def cstring (b : Bytes) (i : Nat) : Bytes := (b.drop i).takeWhile (· != 0)

/-- Copy `data` to offset `i`. -/
def poke (b : Bytes) (i : Nat) (data : Bytes) : Bytes := b.take i ++ data ++ b.drop (i + data.length)

/-- `realloc` to `len` bytes; `fresh` tells what the new memory holds. -/
def realloc (fresh : Nat → UInt8) (b : Bytes) (len : Nat) : Bytes :=
  b.take len ++ (List.range' b.length (len - b.length)).map fresh

/-- The loop `while (len < need) len += step`, for at most `fuel` passes. -/
def growLoop (step need : Nat) : Nat → Nat → Nat
  | 0, len => len
  | fuel + 1, len => if len < need then growLoop step need fuel (len + step) else len

def grow (step len need : Nat) : Nat := growLoop step need need len

/-- Where each piece starts when they lie one behind the other from `start` on. -/
def offsets : Nat → List Bytes → List Nat
  | _, [] => []
  | start, piece :: rest => start :: offsets (start + piece.length) rest

def toLower (c : UInt8) : UInt8 := if 65 ≤ c && c ≤ 90 then c + 32 else c

/-- `strncasecmp(a, b, n) == 0`. -/
def strncaseeq : Nat → Bytes → Bytes → Bool
  | 0, _, _ => true
  | n + 1, a, b =>
      if toLower (at0 a 0) != toLower (at0 b 0) then false
      else if at0 a 0 == 0 then true
      else strncaseeq n (a.drop 1) (b.drop 1)

/-! ### Growth -/

theorem growLoop_enough (step need fuel len : Nat) (positive : 0 < step) (enough : need ≤ len + fuel) :
    need ≤ growLoop step need fuel len := by
  induction fuel generalizing len with
  | zero => exact enough
  | succ fuel ih =>
      by_cases small : len < need
      · simp only [growLoop, if_pos small]
        exact ih (len + step) (by omega)
      · simp only [growLoop, if_neg small]
        omega

theorem grow_enough (step len need : Nat) (positive : 0 < step) : need ≤ grow step len need :=
  growLoop_enough step need need len positive (Nat.le_add_left _ _)

theorem realloc_length (fresh : Nat → UInt8) (b : Bytes) (len : Nat) :
    (realloc fresh b len).length = len := by
  simp only [realloc, List.length_append, List.length_take, List.length_map, List.length_range']
  omega

/-- A block that grows keeps its bytes. -/
theorem realloc_keeps (fresh : Nat → UInt8) (b : Bytes) (len : Nat) (grows : b.length ≤ len) :
    ∃ more, realloc fresh b len = b ++ more := by
  refine ⟨(List.range' b.length (len - b.length)).map fresh, ?_⟩
  rw [realloc, List.take_of_length_le grows]

/-- A block enlarged to what is needed keeps its bytes. -/
theorem grow_keeps (fresh : Nat → UInt8) (step : Nat) (b : Bytes) (need : Nat) (positive : 0 < step) :
    ∃ more, (if b.length < grow step b.length need then realloc fresh b (grow step b.length need) else b) =
      b ++ more ∧ need ≤ (b ++ more).length := by
  have enough := grow_enough step b.length need positive
  split
  · rename_i grows
    obtain ⟨more, same⟩ := realloc_keeps fresh b _ (Nat.le_of_lt grows)
    refine ⟨more, same, ?_⟩
    rw [← same, realloc_length]
    exact enough
  · rename_i stays
    exact ⟨[], by simp, by simp only [List.append_nil]; omega⟩

theorem poke_append (front rest data : Bytes) :
    poke (front ++ rest) front.length data = front ++ (data ++ rest.drop data.length) := by
  rw [poke, List.take_left, ← List.drop_drop, List.drop_left, List.append_assoc]

/-- The bytes up to the end of what has been copied. -/
theorem poke_take (b : Bytes) (i : Nat) (data : Bytes) (fits : i ≤ b.length) :
    (poke b i data).take (i + data.length) = b.take i ++ data := by
  have width : (b.take i ++ data).length = i + data.length := by
    rw [List.length_append, List.length_take]
    omega
  rw [poke, List.take_left' width]

theorem poke_front {b : Bytes} {i : Nat} (data : Bytes) (fits : i ≤ b.length) : (poke b i data).take i = b.take i := by
  have width : (b.take i).length = i := by rw [List.length_take, Nat.min_eq_left fits]
  rw [poke, List.append_assoc, List.take_append_of_le_length (by omega), List.take_of_length_le (by omega)]

theorem poke_length {b : Bytes} {i : Nat} {data : Bytes} (fits : i ≤ b.length) :
    (poke b i data).length = max b.length (i + data.length) := by
  simp only [poke, List.length_append, List.length_take, List.length_drop]
  omega

theorem poke_drop {b : Bytes} {i j : Nat} {data : Bytes} (fits : i ≤ b.length) (behind : i + data.length ≤ j) :
    (poke b i data).drop j = b.drop j := by
  have width : (b.take i ++ data).length = i + data.length := by
    rw [List.length_append, List.length_take]
    omega
  obtain ⟨k, rfl⟩ : ∃ k, j = i + data.length + k := ⟨j - (i + data.length), by omega⟩
  rw [poke, ← List.drop_drop, ← width, List.drop_left, List.drop_drop]

/-! ### Strings -/

theorem takeWhile_nul (text rest : Bytes) (plain : 0 ∉ text) :
    (text ++ 0 :: rest).takeWhile (· != 0) = text := by
  apply takeWhile_append_stop
  · intro c member
    have other : c ≠ 0 := fun zero => plain (zero ▸ member)
    simpa using other
  · simp

theorem strlen_append (text rest : Bytes) (plain : 0 ∉ text) : strlen (text ++ 0 :: rest) = text.length := by
  rw [strlen, takeWhile_nul text rest plain]

theorem at0_eq_getElem {s : Bytes} {i : Nat} (inside : i < s.length) : at0 s i = s[i] := by
  simp [at0, inside]

theorem at0_drop (s : Bytes) (i j : Nat) : at0 (s.drop i) j = at0 s (i + j) := by
  simp [at0, List.getElem?_drop]

theorem toLower_eq_zero {c : UInt8} (nul : toLower c = 0) : c = 0 := by
  simp only [toLower] at nul
  split at nul
  · rename_i capital
    have bounds : 65 ≤ c ∧ c ≤ 90 := by simpa using capital
    have high : c.toNat ≤ 90 := UInt8.le_iff_toNat_le.mp bounds.2
    have value := congrArg UInt8.toNat nul
    simp only [UInt8.toNat_add, UInt8.reduceToNat] at value
    omega
  · exact nul

theorem cstring_append (front text rest : Bytes) (plain : 0 ∉ text) :
    cstring (front ++ (text ++ 0 :: rest)) front.length = text := by
  rw [cstring, List.drop_left, takeWhile_nul text rest plain]

/-- A name of a header matches without regard to case exactly when the text starts with it. -/
theorem strncaseeq_iff (name s : Bytes) (plain : 0 ∉ name) :
    strncaseeq name.length s name = true ↔
      ∃ n rest, s = n ++ rest ∧ n.map toLower = name.map toLower := by
  induction name generalizing s with
  | nil => simp [strncaseeq]
  | cons c name ih =>
      have tail : 0 ∉ name := fun member => plain (List.mem_cons_of_mem _ member)
      have zero : c ≠ 0 := fun same => plain (same ▸ List.mem_cons_self)
      have lower : toLower c ≠ 0 := mt toLower_eq_zero zero
      cases s with
      | nil =>
          have apart : (toLower (at0 ([] : Bytes) 0) != toLower (at0 (c :: name) 0)) = true := by
            simpa [at0, toLower] using lower.symm
          simp only [List.length_cons, strncaseeq, if_pos apart, Bool.false_eq_true, false_iff]
          rintro ⟨n, rest, empty, same⟩
          have none : n = [] := (List.append_eq_nil_iff.mp empty.symm).1
          subst none
          cases same
      | cons d s =>
          by_cases same : toLower d = toLower c
          · have some : d ≠ 0 := by
              rintro rfl
              exact lower (by simpa [toLower] using same.symm)
            have step : strncaseeq (c :: name).length (d :: s) (c :: name) = strncaseeq name.length s name := by
              simp [strncaseeq, at0, same, some]
            rw [step, ih s tail]
            constructor
            · rintro ⟨n, rest, rfl, equal⟩
              exact ⟨d :: n, rest, rfl, by simp [same, equal]⟩
            · rintro ⟨n, rest, split, equal⟩
              cases n with
              | nil => cases equal
              | cons e n =>
                  simp only [List.cons_append, List.cons.injEq] at split
                  simp only [List.map_cons, List.cons.injEq] at equal
                  exact ⟨n, rest, split.2, equal.2⟩
          · have step : strncaseeq (c :: name).length (d :: s) (c :: name) = false := by
              simp [strncaseeq, at0, same]
            rw [step]
            simp only [Bool.false_eq_true, false_iff]
            rintro ⟨n, rest, split, equal⟩
            cases n with
            | nil => cases equal
            | cons e n =>
                simp only [List.cons_append, List.cons.injEq] at split
                simp only [List.map_cons, List.cons.injEq] at equal
                exact same (split.1 ▸ equal.1)

/-! ### Pieces one behind the other -/

theorem offsets_append (start : Nat) (a b : List Bytes) :
    offsets start (a ++ b) = offsets start a ++ offsets (start + a.flatten.length) b := by
  induction a generalizing start with
  | nil => simp [offsets]
  | cons piece a ih => simp [offsets, ih, Nat.add_assoc]

@[simp] theorem offsets_length (start : Nat) (a : List Bytes) : (offsets start a).length = a.length := by
  induction a generalizing start with
  | nil => rfl
  | cons piece a ih => simp [offsets, ih]

/-- The `i`-th offset is the total length of the pieces before it. -/
theorem offsets_getElem (start : Nat) (a : List Bytes) (i : Nat) (inside : i < a.length) :
    (offsets start a)[i]? = some (start + (a.take i).flatten.length) := by
  induction a generalizing start i with
  | nil => cases inside
  | cons piece a ih =>
      cases i with
      | zero => simp [offsets]
      | succ i =>
          have rest := ih (start + piece.length) i (by simpa using inside)
          simpa [offsets, Nat.add_assoc] using rest

end IcapService.CString
