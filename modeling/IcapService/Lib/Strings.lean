import Mathlib.Data.List.TakeWhile
import IcapService.Lib.Memory

/-! Comparing, searching and copying C strings.

The strings are cut off at their NUL; a copy of at most `n` bytes is filled up with NULs to all `n`, and has none
behind it when the string is longer. -/

namespace IcapService.CString

/-- `strcmp(a, b) == 0`. -/
def streq (a b : Bytes) : Bool := cstring a 0 == cstring b 0

/-- `strcasecmp(a, b) == 0`. -/
def strcaseeq (a b : Bytes) : Bool := (cstring a 0).map toLower == (cstring b 0).map toLower

/-- `strncmp(a, b, n) == 0`. -/
def strncmpeq : Nat → Bytes → Bytes → Bool
  | 0, _, _ => true
  | n + 1, a, b =>
      if at0 a 0 != at0 b 0 then false
      else if at0 a 0 == 0 then true
      else strncmpeq n (a.drop 1) (b.drop 1)

/-- `strchr(s, c)` for a byte other than NUL, as the offset of the byte. -/
def strchr (s : Bytes) (c : UInt8) : Option Nat :=
  if c ∈ cstring s 0 then some ((cstring s 0).takeWhile (· != c)).length else none

/-- `strncpy(b, s, n)`. -/
def strncpy (n : Nat) (b s : Bytes) : Bytes :=
  let text := (cstring s 0).take n
  poke b 0 (text ++ List.replicate (n - text.length) 0)

theorem cstring_plain (b : Bytes) (i : Nat) : 0 ∉ cstring b i := by
  intro member
  have other := List.mem_takeWhile_imp member
  simp at other

theorem cstring_of_plain {s : Bytes} (plain : 0 ∉ s) : cstring s 0 = s := by
  rw [cstring, List.drop_zero, List.takeWhile_eq_self_iff]
  intro c member
  have other : c ≠ 0 := fun zero => plain (zero ▸ member)
  simpa using other

/-- Memory is the C string and what lies behind it. -/
theorem cstring_split (b : Bytes) :
    b = cstring b 0 ++ b.drop (cstring b 0).length ∧
      ∀ c ∈ (b.drop (cstring b 0).length).head?, (c != 0) = false := by
  rw [cstring, List.drop_zero]
  exact (takeWhile_split (· != 0) b).2

theorem cstring_behind {b : Bytes} {i : Nat} (inside : i ≤ (cstring b 0).length) :
    cstring (b.drop i) 0 = (cstring b 0).drop i := by
  obtain ⟨split, stop⟩ := cstring_split b
  have behind : b.drop i = (cstring b 0).drop i ++ b.drop (cstring b 0).length := by
    conv_lhs => rw [split]
    exact List.drop_append_of_le_length inside
  rw [cstring, List.drop_zero, behind]
  apply takeWhile_append_stop _ _ _ _ stop
  intro c member
  have other : c ≠ 0 := fun zero => cstring_plain b 0 (zero ▸ List.mem_of_mem_drop member)
  simpa using other

/-- A NUL stored in a C string cuts it off there. -/
theorem cstring_poke {b : Bytes} {i : Nat} (inside : i ≤ (cstring b 0).length) :
    cstring (poke b i [0]) 0 = (cstring b 0).take i := by
  have front : b.take i = (cstring b 0).take i := by
    conv_lhs => rw [(cstring_split b).1]
    exact List.take_append_of_le_length inside
  rw [cstring, List.drop_zero, poke, front, List.append_assoc]
  exact takeWhile_nul _ _ (fun member => cstring_plain b 0 (List.mem_of_mem_take member))

/-- Up to a NUL nothing behind it counts. -/
theorem cstring_stored (text rest : Bytes) : cstring (text ++ 0 :: rest) 0 = cstring text 0 := by
  simp only [cstring, List.drop_zero]
  induction text with
  | nil => rfl
  | cons c text ih =>
      simp only [List.cons_append, List.takeWhile_cons]
      rw [ih]

theorem cstring_take (s : Bytes) (n : Nat) : cstring (s.take n) 0 = (cstring s 0).take n := by
  simp only [cstring, List.drop_zero]
  induction s generalizing n with
  | nil => simp
  | cons c s ih =>
      cases n with
      | zero => rfl
      | succ n =>
          simp only [List.take_succ_cons, List.takeWhile_cons]
          split
          · rw [ih n, List.take_succ_cons]
          · rfl

theorem cut_clear (c : UInt8) (s : Bytes) : c ∉ s.takeWhile (· != c) := by
  intro member
  have other := List.mem_takeWhile_imp member
  simp at other

/-- A text is cut at the first occurrence of a byte. -/
theorem takeWhile_cut {c : UInt8} {s : Bytes} (member : c ∈ s) :
    s = s.takeWhile (· != c) ++ c :: s.drop ((s.takeWhile (· != c)).length + 1) := by
  obtain ⟨-, split, stop⟩ := takeWhile_split (· != c) s
  cases rest : s.drop (s.takeWhile (· != c)).length with
  | nil =>
      rw [rest, List.append_nil] at split
      rw [split] at member
      exact absurd member (cut_clear c s)
  | cons d more =>
      have same : d = c := by simpa [rest] using stop
      have behind : s.drop ((s.takeWhile (· != c)).length + 1) = more := by
        rw [← List.drop_drop, rest, List.drop_succ_cons, List.drop_zero]
      rw [behind]
      rwa [rest, same] at split

theorem takeWhile_front {c : UInt8} {front : Bytes} (rest : Bytes) (clear : c ∉ front) :
    (front ++ c :: rest).takeWhile (· != c) = front := by
  apply takeWhile_append_stop
  · intro d member
    have other : d ≠ c := fun same => clear (same ▸ member)
    simpa using other
  · simp

theorem strchr_front {c : UInt8} {front rest : Bytes} (plain : 0 ∉ front ++ c :: rest) (clear : c ∉ front) :
    strchr (front ++ c :: rest) c = some front.length := by
  rw [strchr, cstring_of_plain plain, if_pos (by simp), takeWhile_front _ clear]

/-- The first `n` bytes of a text that has none of the bytes of `b` cut off match when `b` starts with them. -/
theorem strncmpeq_iff (token rest b : Bytes) (plain : 0 ∉ token) :
    strncmpeq token.length (token ++ rest) b = true ↔ token <+: b := by
  induction token generalizing b with
  | nil => simp [strncmpeq]
  | cons c token ih =>
      have some : c ≠ 0 := fun same => plain (same ▸ List.mem_cons_self)
      have tail : 0 ∉ token := fun member => plain (List.mem_cons_of_mem _ member)
      cases b with
      | nil => simp [strncmpeq, at0, some]
      | cons d b =>
          by_cases same : c = d
          · subst same
            have step : strncmpeq (c :: token).length (c :: token ++ rest) (c :: b) =
                strncmpeq token.length (token ++ rest) b := by simp [strncmpeq, at0, some]
            rw [step, ih b tail, List.cons_prefix_cons]
            exact (and_iff_right rfl).symm
          · have step : strncmpeq (c :: token).length (c :: token ++ rest) (d :: b) = false := by
              simp [strncmpeq, at0, same]
            rw [step, List.cons_prefix_cons]
            exact iff_of_false Bool.false_ne_true (fun both => same both.1)

/-- The first `n` bytes of a copy are the string and the NULs behind it. -/
theorem strncpy_take (n : Nat) (b s : Bytes) :
    (strncpy n b s).take n = (cstring s 0).take n ++ List.replicate (n - ((cstring s 0).take n).length) 0 := by
  generalize data : (cstring s 0).take n ++ List.replicate (n - ((cstring s 0).take n).length) 0 = text
  have width : text.length = n := by
    rw [← data, List.length_append, List.length_replicate, List.length_take]
    omega
  have taken := poke_take b 0 text (Nat.zero_le _)
  rw [width, Nat.zero_add, List.take_zero, List.nil_append] at taken
  rw [strncpy, data, taken]

/-- A copy that is ended at `k` holds the first `k` bytes of the string. -/
theorem strncpy_ended {n k : Nat} (b s : Bytes) (inside : k ≤ n) :
    cstring (poke (strncpy n b s) k [0]) 0 = (cstring s 0).take k := by
  have plain : 0 ∉ (cstring s 0).take k := fun member => cstring_plain s 0 (List.mem_of_mem_take member)
  have written := strncpy_take n b s
  have front : (strncpy n b s).take k =
      (cstring s 0).take k ++ List.replicate (k - ((cstring s 0).take k).length) 0 := by
    rw [← Nat.min_eq_left inside, ← List.take_take, written, List.take_append, List.take_take, List.take_replicate,
      Nat.min_eq_left inside]
    congr 2
    simp only [List.length_take]
    omega
  rw [cstring, List.drop_zero, poke, front, List.append_assoc, List.append_assoc]
  cases filled : k - ((cstring s 0).take k).length with
  | zero => exact takeWhile_nul _ _ plain
  | succ more => exact takeWhile_nul _ _ plain

end IcapService.CString
