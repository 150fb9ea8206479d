import IcapService.Lib.Machine
import IcapService.Lib.Memory
import IcapService.Lib.Words

/-! The URL decoders of `decode.c`: `url_decoder` into a buffer, `url_decoder2` in place.

Their counters are of type `int`; a text on which one overflows has no result. -/

namespace IcapService

open CInt CString Machine

/-- The conversion of a `long` to a `char`. -/
def charOfLong (v : Int) : UInt8 := UInt8.ofNat (v % 256).toNat

/-- The byte that both decoders write for the one at `i`, and how far they go on. -/
def urlByte (m : Mem) (i : Nat) : UInt8 × Nat :=
  if m i = 37 then (charOfLong (strtol 16 [m (i + 1), m (i + 2), 0]).1, 3)
  else if m i = 43 then (32, 1)
  else (m i, 1)

/-- The indices that are read for it. -/
def urlReads (m : Mem) (i : Nat) : List Nat := (List.range (urlByte m i).2).map (i + ·)

/-- The variables of `url_decoder`, with the `k` bytes written so far and the indices of `input` that were read. -/
structure UrlState where
  i : Nat
  text : Bytes
  reads : List Nat

/-- A pass of the loop of `url_decoder`. -/
def urlPass (input : Mem) (outputLen : Int) (s : UrlState) : Step UrlState (Option UrlState) :=
  if input s.i ≠ 0 ∧ (s.text.length : Int) < outputLen - 1 then
    if intMax < s.i + (urlByte input s.i).2 then .done none
    else .next ⟨s.i + (urlByte input s.i).2, s.text ++ [(urlByte input s.i).1], s.reads ++ urlReads input s.i⟩
  else .done (some { s with reads := s.reads ++ [s.i] })

/-- What a decoder returns, what it leaves in `output`, and what it has read. -/
structure UrlDecoded where
  ret : Int
  output : Bytes
  reads : List Nat

/-- `url_decoder`, with at most `fuel` passes of its loop. -/
def urlDecoder (input : Mem) (output : Bytes) (outputLen : Int) (fuel : Nat) : Option UrlDecoded :=
  (run (urlPass input outputLen) fuel ⟨0, [], []⟩).join.map fun s =>
    ⟨if (s.text.length : Int) = outputLen - 1 then -1 else 1, poke output 0 (s.text ++ [0]), s.reads⟩

/-- The variables of `url_decoder2`, its argument among them. -/
structure UrlInPlace where
  i : Nat
  k : Nat
  input : Mem
  reads : List Nat

/-- A pass of the loop of `url_decoder2`; the NUL is written behind the last one. -/
def urlPassInPlace (s : UrlInPlace) : Step UrlInPlace (Option UrlInPlace) :=
  if s.input s.i ≠ 0 then
    if intMax < s.i + (urlByte s.input s.i).2 then .done none
    else .next ⟨s.i + (urlByte s.input s.i).2, s.k + 1, Function.update s.input s.k (urlByte s.input s.i).1,
      s.reads ++ urlReads s.input s.i⟩
  else .done (some { s with input := Function.update s.input s.k 0, reads := s.reads ++ [s.i] })

/-- `url_decoder2`, with at most `fuel` passes of its loop. -/
def urlDecoder2 (input : Mem) (fuel : Nat) : Option UrlInPlace := (run urlPassInPlace fuel ⟨0, 0, input, []⟩).join

/-! ### What is decoded -/

/-- Two bytes follow every `%` that starts an escape. -/
def escapesComplete : Bytes → Bool
  | [] => true
  | [c] => c != 37
  | [c, d] => c != 37 && d != 37
  | c :: d :: e :: rest => if c = 37 then escapesComplete rest else escapesComplete (d :: e :: rest)

/-- The decoded bytes of a text whose escapes are complete. -/
def urlText : Bytes → Bytes
  | c :: d :: e :: rest =>
      if c = 37 then charOfLong (strtol 16 [d, e, 0]).1 :: urlText rest
      else (if c = 43 then 32 else c) :: urlText (d :: e :: rest)
  | rest => rest.map (fun c => if c = 43 then 32 else c)

/-- `rest` lies in memory from `i` on, up to the NUL at `n`. -/
structure UrlAhead (m : Mem) (n i : Nat) (rest : Bytes) : Prop where
  bytes : m.load i (rest.length + 1) = rest ++ [0]
  plain : 0 ∉ rest
  place : i + rest.length = n

variable {m : Mem} {n i : Nat} {c d e : UInt8} {rest : Bytes}

theorem UrlAhead.cons (ahead : UrlAhead m n i (c :: rest)) : m i = c ∧ c ≠ 0 ∧ UrlAhead m n (i + 1) rest := by
  have bytes := ahead.bytes
  rw [List.length_cons, Mem.load_succ, List.cons_append] at bytes
  obtain ⟨first, others⟩ := List.cons_eq_cons.mp bytes
  have plain := ahead.plain
  have place := ahead.place
  rw [List.mem_cons, not_or] at plain
  rw [List.length_cons] at place
  exact ⟨first, Ne.symm plain.1, others, plain.2, by omega⟩

theorem UrlAhead.nil (ahead : UrlAhead m n i []) : m i = 0 ∧ i = n := by
  have bytes := ahead.bytes
  rw [List.length_nil, Mem.load_succ] at bytes
  exact ⟨(List.cons_eq_cons.mp bytes).1, ahead.place⟩

theorem UrlAhead.read (ahead : UrlAhead m n i (c :: rest)) (other : c ≠ 37) :
    urlByte m i = (if c = 43 then 32 else c, 1) ∧ urlReads m i = [i] := by
  obtain ⟨here, -, -⟩ := ahead.cons
  have byte : urlByte m i = (if c = 43 then 32 else c, 1) := by
    rw [urlByte, here, if_neg other]
    split <;> rfl
  refine ⟨byte, ?_⟩
  rw [urlReads, byte]
  rfl

theorem UrlAhead.readEscape (ahead : UrlAhead m n i (37 :: rest)) :
    urlByte m i = (charOfLong (strtol 16 [m (i + 1), m (i + 2), 0]).1, 3) ∧ urlReads m i = [i, i + 1, i + 2] := by
  obtain ⟨here, -, -⟩ := ahead.cons
  have byte : urlByte m i = (charOfLong (strtol 16 [m (i + 1), m (i + 2), 0]).1, 3) := by
    rw [urlByte, if_pos here]
  refine ⟨byte, ?_⟩
  rw [urlReads, byte]
  rfl

theorem urlText_cons (other : c ≠ 37) : urlText (c :: rest) = (if c = 43 then 32 else c) :: urlText rest := by
  match rest with
  | [] => rfl
  | [d] => rfl
  | d :: e :: rest => rw [urlText, if_neg other]

theorem escapesComplete_cons (other : c ≠ 37) : escapesComplete (c :: rest) = escapesComplete rest := by
  match rest with
  | [] => simpa [escapesComplete] using other
  | [d] => simp [escapesComplete, other]
  | d :: e :: rest => rw [escapesComplete, if_neg other]

theorem escapesComplete_escape (complete : escapesComplete (37 :: rest) = true) :
    ∃ d e others, rest = d :: e :: others ∧ escapesComplete others = true := by
  match rest with
  | [] => cases complete
  | [d] => cases complete
  | d :: e :: others =>
      rw [escapesComplete, if_pos rfl] at complete
      exact ⟨d, e, others, rfl, complete⟩

/-- A byte is decoded from what is still ahead of the NUL. -/
theorem UrlAhead.step (ahead : UrlAhead m n i (c :: rest)) (complete : escapesComplete (c :: rest) = true) :
    ∃ later, UrlAhead m n (i + (urlByte m i).2) later ∧ escapesComplete later = true ∧
      later.length < (c :: rest).length ∧ urlText (c :: rest) = (urlByte m i).1 :: urlText later ∧
      ∀ j ∈ urlReads m i, j ≤ n := by
  have place := ahead.place
  by_cases escape : c = 37
  · subst escape
    obtain ⟨d, e, later, rfl, complete'⟩ := escapesComplete_escape complete
    obtain ⟨byte, reads⟩ := ahead.readEscape
    obtain ⟨-, -, second⟩ := ahead.cons
    obtain ⟨first, -, third⟩ := second.cons
    obtain ⟨last, -, ahead'⟩ := third.cons
    rw [byte, reads]
    simp only [List.length_cons] at place
    refine ⟨later, ahead', complete', by simp only [List.length_cons]; omega, ?_, ?_⟩
    · rw [urlText, if_pos rfl, first, last]
    · intro j member
      simp only [List.mem_cons, List.not_mem_nil, or_false] at member
      omega
  · obtain ⟨byte, reads⟩ := ahead.read escape
    obtain ⟨-, -, ahead'⟩ := ahead.cons
    rw [byte, reads]
    rw [escapesComplete_cons escape] at complete
    rw [List.length_cons] at place
    refine ⟨rest, ahead', complete, Nat.lt_succ_self _, urlText_cons escape, ?_⟩
    intro j member
    rw [List.mem_singleton.mp member]
    omega

/-- A text in memory, with anything behind it. -/
theorem urlAhead_store (t : CText) (behind : Mem) :
    UrlAhead (behind.store 0 (t.bytes ++ [0])) t.bytes.length 0 t.bytes := by
  refine ⟨?_, t.plain, Nat.zero_add _⟩
  have stored := behind.load_store 0 (t.bytes ++ [0])
  rwa [List.length_append, List.length_singleton] at stored

/-! ### Into a buffer -/

/-- What `url_decoder` has done in front of the text that is still ahead. -/
structure Decoding (m : Mem) (t : CText) (s : UrlState) (rest : Bytes) : Prop where
  ahead : UrlAhead m t.bytes.length s.i rest
  complete : escapesComplete rest = true
  text : s.text ++ urlText rest = urlText t.bytes
  reads : ∀ j ∈ s.reads, j ≤ t.bytes.length

theorem UrlAhead.inside (ahead : UrlAhead m n i rest) : i ≤ n := by
  rw [← ahead.place]
  exact Nat.le_add_right _ _

theorem mem_reads_snoc {reads : List Nat} (old : ∀ j ∈ reads, j ≤ n) (new : i ≤ n) : ∀ j ∈ reads ++ [i], j ≤ n := by
  intro j member
  rcases List.mem_append.mp member with before | here
  · exact old j before
  · rwa [List.mem_singleton.mp here]

variable {t : CText} {s : UrlState}

theorem Decoding.pass (decoding : Decoding m t s rest) (fits : t.bytes.length ≤ intMax) (outputLen : Int) :
    (∃ s' rest', urlPass m outputLen s = .next s' ∧ Decoding m t s' rest' ∧ rest'.length < rest.length) ∨
      ∃ r, urlPass m outputLen s = .done (some r) ∧ (∀ j ∈ r.reads, j ≤ t.bytes.length) ∧
        ((urlText t.bytes).length + 2 ≤ outputLen → r.text = urlText t.bytes) := by
  have reads := mem_reads_snoc decoding.reads decoding.ahead.inside
  cases rest with
  | nil =>
      obtain ⟨nul, -⟩ := decoding.ahead.nil
      refine .inr ⟨_, if_neg (fun goes => goes.1 nul), reads, fun _ => ?_⟩
      have text := decoding.text
      rwa [show urlText [] = [] from rfl, List.append_nil] at text
  | cons c rest =>
      obtain ⟨here, other, -⟩ := decoding.ahead.cons
      by_cases room : (s.text.length : Int) < outputLen - 1
      · obtain ⟨later, ahead, complete, shorter, text, fresh⟩ := decoding.ahead.step decoding.complete
        have small : ¬intMax < s.i + (urlByte m s.i).2 := Nat.not_lt.mpr (Nat.le_trans ahead.inside fits)
        refine .inl ⟨_, later, by rw [urlPass, if_pos ⟨by rwa [here], room⟩, if_neg small],
          ⟨ahead, complete, ?_, ?_⟩, shorter⟩
        · rw [← decoding.text, text, List.append_assoc]
          rfl
        · intro j member
          rcases List.mem_append.mp member with old | new
          · exact decoding.reads j old
          · exact fresh j new
      · refine .inr ⟨_, if_neg (fun goes => room goes.2), reads, fun wide => ?_⟩
        have whole := congrArg List.length decoding.text
        rw [List.length_append] at whole
        omega

/-- A text whose escapes are complete is decoded from its own bytes. -/
theorem urlDecoder_text (behind : Mem) (output : Bytes) (outputLen : Int)
    (complete : escapesComplete t.bytes = true) (fits : t.bytes.length ≤ intMax) :
    ∃ fuel r, urlDecoder (behind.store 0 (t.bytes ++ [0])) output outputLen fuel = some r ∧
      (∀ j ∈ r.reads, j ≤ t.bytes.length) ∧
      ((urlText t.bytes).length + 2 ≤ outputLen → r.ret = 1 ∧ r.output = poke output 0 (urlText t.bytes ++ [0])) := by
  have start : Decoding (behind.store 0 (t.bytes ++ [0])) t ⟨0, [], []⟩ t.bytes :=
    ⟨urlAhead_store t behind, complete, rfl, fun _ member => absurd member List.not_mem_nil⟩
  obtain ⟨looped, ran, s, rfl, reads, text⟩ := run_ranked (urlPass (behind.store 0 (t.bytes ++ [0])) outputLen)
    (fun n s => ∃ rest, Decoding (behind.store 0 (t.bytes ++ [0])) t s rest ∧ rest.length = n)
    (fun r => ∃ s, r = some s ∧ (∀ j ∈ s.reads, j ≤ t.bytes.length) ∧
      ((urlText t.bytes).length + 2 ≤ outputLen → s.text = urlText t.bytes))
    (by
      rintro n s ⟨rest, decoding, rfl⟩
      rcases decoding.pass fits outputLen with ⟨s', rest', next, decoding', shorter⟩ | ⟨r, done, post⟩
      · exact .inl ⟨s', next, rest'.length, shorter, rest', decoding', rfl⟩
      · exact .inr ⟨some r, done, r, rfl, post⟩)
    ⟨t.bytes, start, rfl⟩ (Nat.lt_succ_self _)
  refine ⟨_, _, by rw [urlDecoder, ran]; rfl, reads, fun wide => ?_⟩
  have same := text wide
  rw [← same] at wide ⊢
  exact ⟨if_neg (by omega), rfl⟩

/-! ### In place -/

/-- A byte that is written in front of the text leaves it there. -/
theorem UrlAhead.update (ahead : UrlAhead m n i rest) {k : Nat} (front : k < i) (v : UInt8) :
    UrlAhead (Function.update m k v) n i rest := by
  refine ⟨?_, ahead.plain, ahead.place⟩
  rw [← ahead.bytes]
  refine Mem.load_congr (fun a low _ => Function.update_of_ne ?_ v m)
  omega

/-- A byte that is written behind the ones before it. -/
theorem load_update (m : Mem) (k : Nat) (v : UInt8) :
    Mem.load (Function.update m k v) 0 (k + 1) = m.load 0 k ++ [v] := by
  rw [Mem.load_snoc, Nat.zero_add, Function.update_self]
  congr 1
  refine Mem.load_congr (fun a _ high => Function.update_of_ne ?_ v m)
  omega

/-- What `url_decoder2` has done in front of the text that is still ahead. -/
structure DecodingInPlace (t : CText) (s : UrlInPlace) (rest : Bytes) : Prop where
  ahead : UrlAhead s.input t.bytes.length s.i rest
  complete : escapesComplete rest = true
  text : s.input.load 0 s.k ++ urlText rest = urlText t.bytes
  front : s.k ≤ s.i
  reads : ∀ j ∈ s.reads, j ≤ t.bytes.length

theorem urlByte_forward (m : Mem) (i : Nat) : 0 < (urlByte m i).2 := by
  unfold urlByte
  split
  · exact Nat.zero_lt_succ 2
  · split <;> exact Nat.zero_lt_one

theorem DecodingInPlace.pass {s : UrlInPlace} (decoding : DecodingInPlace t s rest) (fits : t.bytes.length ≤ intMax) :
    (∃ s' rest', urlPassInPlace s = .next s' ∧ DecodingInPlace t s' rest' ∧ rest'.length < rest.length) ∨
      ∃ r, urlPassInPlace s = .done (some r) ∧ (∀ j ∈ r.reads, j ≤ t.bytes.length) ∧
        r.input.load 0 (r.k + 1) = urlText t.bytes ++ [0] := by
  cases rest with
  | nil =>
      obtain ⟨nul, -⟩ := decoding.ahead.nil
      refine .inr ⟨_, if_neg (fun goes => goes nul), mem_reads_snoc decoding.reads decoding.ahead.inside, ?_⟩
      have text := decoding.text
      rw [show urlText [] = [] from rfl, List.append_nil] at text
      rw [← text]
      exact load_update s.input s.k 0
  | cons c rest =>
      obtain ⟨here, other, -⟩ := decoding.ahead.cons
      obtain ⟨later, ahead, complete, shorter, text, fresh⟩ := decoding.ahead.step decoding.complete
      have small : ¬intMax < s.i + (urlByte s.input s.i).2 := Nat.not_lt.mpr (Nat.le_trans ahead.inside fits)
      have front := decoding.front
      have forward := urlByte_forward s.input s.i
      refine .inl ⟨_, later, by rw [urlPassInPlace, if_pos (by rwa [here]), if_neg small],
        ⟨ahead.update (Nat.lt_of_le_of_lt front (Nat.lt_add_of_pos_right forward)) _, complete, ?_, ?_, ?_⟩, shorter⟩
      · rw [← decoding.text, text]
        show Mem.load (Function.update s.input s.k (urlByte s.input s.i).1) 0 (s.k + 1) ++ urlText later = _
        rw [load_update, List.append_assoc]
        rfl
      · show s.k + 1 ≤ s.i + (urlByte s.input s.i).2
        omega
      · intro j member
        rcases List.mem_append.mp member with old | new
        · exact decoding.reads j old
        · exact fresh j new

/-- A text whose escapes are complete is decoded in its own place. -/
theorem urlDecoder2_text (behind : Mem) (complete : escapesComplete t.bytes = true) (fits : t.bytes.length ≤ intMax) :
    ∃ fuel r, urlDecoder2 (behind.store 0 (t.bytes ++ [0])) fuel = some r ∧ (∀ j ∈ r.reads, j ≤ t.bytes.length) ∧
      r.input.load 0 (r.k + 1) = urlText t.bytes ++ [0] := by
  have start : DecodingInPlace t ⟨0, 0, behind.store 0 (t.bytes ++ [0]), []⟩ t.bytes :=
    ⟨urlAhead_store t behind, complete, rfl, Nat.le_refl 0, fun _ member => absurd member List.not_mem_nil⟩
  obtain ⟨looped, ran, r, rfl, post⟩ := run_ranked urlPassInPlace
    (fun n s => ∃ rest, DecodingInPlace t s rest ∧ rest.length = n)
    (fun r => ∃ s, r = some s ∧ (∀ j ∈ s.reads, j ≤ t.bytes.length) ∧
      s.input.load 0 (s.k + 1) = urlText t.bytes ++ [0])
    (by
      rintro n s ⟨rest, decoding, rfl⟩
      rcases decoding.pass fits with ⟨s', rest', next, decoding', shorter⟩ | ⟨r, done, post⟩
      · exact .inl ⟨s', next, rest'.length, shorter, rest', decoding', rfl⟩
      · exact .inr ⟨some r, done, r, rfl, post⟩)
    ⟨t.bytes, start, rfl⟩ (Nat.lt_succ_self _)
  exact ⟨_, r, by rw [urlDecoder2, ran]; rfl, post⟩

/-! ### Escapes that are cut off -/

/-- One byte further on, the rest is as complete as before, or the decoder has gone behind the NUL. -/
theorem UrlAhead.onward (ahead : UrlAhead m n i (c :: rest)) :
    (∃ later, UrlAhead m n (i + (urlByte m i).2) later ∧ escapesComplete later = escapesComplete (c :: rest)) ∨
      n + 1 ∈ urlReads m i ∨ i + (urlByte m i).2 = n + 1 := by
  have place := ahead.place
  by_cases escape : c = 37
  · subst escape
    obtain ⟨byte, reads⟩ := ahead.readEscape
    obtain ⟨-, -, second⟩ := ahead.cons
    rw [byte, reads]
    match rest with
    | [] =>
        refine .inr (.inl ?_)
        rw [List.length_singleton] at place
        rw [← place]
        exact List.mem_cons_of_mem _ (List.mem_cons_of_mem _ List.mem_cons_self)
    | [d] =>
        simp only [List.length_cons, List.length_nil] at place
        exact .inr (.inr (by omega))
    | d :: e :: later =>
        obtain ⟨-, -, third⟩ := second.cons
        obtain ⟨-, -, ahead'⟩ := third.cons
        refine .inl ⟨later, ahead', ?_⟩
        rw [escapesComplete, if_pos rfl]
  · obtain ⟨byte, -⟩ := ahead.read escape
    obtain ⟨-, -, ahead'⟩ := ahead.cons
    rw [byte]
    exact .inl ⟨rest, ahead', (escapesComplete_cons escape).symm⟩

theorem mem_urlReads (m : Mem) (i : Nat) : i ∈ urlReads m i := by
  have forward := urlByte_forward m i
  exact List.mem_map.mpr ⟨0, List.mem_range.mpr forward, Nat.add_zero i⟩

/-- Where `url_decoder` stands in a text, with whatever escapes it has. -/
def Onward (m : Mem) (t : CText) (s : UrlState) : Prop :=
  (∃ rest, UrlAhead m t.bytes.length s.i rest ∧ s.text.length ≤ s.i ∧ s.i ≤ intMax ∧
    escapesComplete rest = escapesComplete t.bytes) ∨
  t.bytes.length + 1 ∈ s.reads ∨ s.i = t.bytes.length + 1

theorem onward_pass (onward : Onward m t s) :
    (urlPass m (t.bytes.length + 2) s).All (Onward m t) (fun r => ∀ u, r = some u →
      (escapesComplete t.bytes = true ∧ t.bytes.length ≤ intMax) ∨ t.bytes.length + 1 ∈ u.reads) := by
  unfold urlPass
  split
  · rename_i goes
    split
    · exact fun u none => absurd none (by simp)
    · rename_i small
      rcases onward with ⟨rest, ahead, front, -, same⟩ | behind | past
      · cases rest with
        | nil => exact absurd ahead.nil.1 goes.1
        | cons c rest =>
            have forward := urlByte_forward m s.i
            rcases ahead.onward with ⟨later, ahead', kept⟩ | read | gone
            · refine .inl ⟨later, ahead', ?_, Nat.le_of_not_lt small, kept.trans same⟩
              simp only [List.length_append, List.length_singleton]
              omega
            · exact .inr (.inl (List.mem_append_right _ read))
            · exact .inr (.inr gone)
      · exact .inr (.inl (List.mem_append_left _ behind))
      · rw [← past]
        refine .inr (.inl (List.mem_append_right _ ?_))
        rw [past]
        exact mem_urlReads m _
  · rename_i stops
    intro u final
    cases final
    rcases onward with ⟨rest, ahead, front, small, same⟩ | behind | past
    · have inside := ahead.inside
      have nul : m s.i = 0 := by
        by_contra some
        exact stops ⟨some, by omega⟩
      cases rest with
      | nil =>
          rw [ahead.nil.2] at small
          exact .inl ⟨same.symm, small⟩
      | cons c rest =>
          obtain ⟨here, other, -⟩ := ahead.cons
          exact absurd (here.symm.trans nul) other
    · exact .inr (List.mem_append_left _ behind)
    · rw [← past]
      exact .inr (List.mem_append_right _ List.mem_cons_self)

theorem complete_of_urlDecoder {behind : Mem} {output : Bytes} {fuel : Nat} {r : UrlDecoded}
    (ran : urlDecoder (behind.store 0 (t.bytes ++ [0])) output (t.bytes.length + 2) fuel = some r)
    (reads : ∀ j ∈ r.reads, j ≤ t.bytes.length) : escapesComplete t.bytes = true ∧ t.bytes.length ≤ intMax := by
  rw [urlDecoder, Option.map_eq_some_iff] at ran
  obtain ⟨s, looped, rfl⟩ := ran
  have start : Onward (behind.store 0 (t.bytes ++ [0])) t ⟨0, [], []⟩ :=
    .inl ⟨t.bytes, urlAhead_store t behind, Nat.le_refl 0, Nat.zero_le _, rfl⟩
  rcases run_post _ _ _ (fun s onward => onward_pass onward) fuel _ _ start (Option.join_eq_some_iff.mp looped) s rfl with
    fine | bad
  · exact fine
  · exact absurd (reads _ bad) (by omega)

/-- Nothing behind the NUL is read, and with room enough both decoders give the same. -/
def UrlDecodes (t : CText) (behind : Mem) (output : Bytes) : Prop :=
  (∀ outputLen, ∃ fuel r, urlDecoder (behind.store 0 (t.bytes ++ [0])) output outputLen fuel = some r ∧
    ∀ j ∈ r.reads, j ≤ t.bytes.length) ∧
  ∃ fuel r, urlDecoder2 (behind.store 0 (t.bytes ++ [0])) fuel = some r ∧ (∀ j ∈ r.reads, j ≤ t.bytes.length) ∧
    ∀ outputLen : Int, r.k + 2 ≤ outputLen →
      ∃ fuel' r', urlDecoder (behind.store 0 (t.bytes ++ [0])) output outputLen fuel' = some r' ∧ r'.ret = 1 ∧
        ∃ rest, r'.output = r.input.load 0 r.k ++ 0 :: rest ∧ r.input r.k = 0

theorem url_decodes_iff (t : CText) (behind : Mem) (output : Bytes) :
    UrlDecodes t behind output ↔ escapesComplete t.bytes = true ∧ t.bytes.length ≤ intMax := by
  constructor
  · rintro ⟨every, -⟩
    obtain ⟨fuel, r, ran, reads⟩ := every (t.bytes.length + 2)
    exact complete_of_urlDecoder ran reads
  · rintro ⟨complete, fits⟩
    obtain ⟨fuel, r, ran, reads, text⟩ := urlDecoder2_text behind complete fits
    have size := congrArg List.length text
    rw [Mem.load_length, List.length_append, List.length_singleton] at size
    rw [Mem.load_snoc, Nat.zero_add] at text
    obtain ⟨front, last⟩ := List.append_inj' text rfl
    refine ⟨fun outputLen => ?_, fuel, r, ran, reads, fun outputLen wide => ?_⟩
    · obtain ⟨fuel', r', ran', reads', -⟩ := urlDecoder_text behind output outputLen complete fits
      exact ⟨fuel', r', ran', reads'⟩
    · obtain ⟨fuel', r', ran', -, same⟩ := urlDecoder_text behind output outputLen complete fits
      obtain ⟨one, out⟩ := same (by omega)
      refine ⟨fuel', r', ran', one, output.drop (r.k + 1), ?_, List.cons.inj last |>.1⟩
      rw [out, poke, front, List.length_append, List.length_singleton, ← size]
      simp

/-- A `%` at the end. -/
theorem percent_at_end_reads_behind : ¬UrlDecodes ⟨[37], by decide⟩ (fun _ => 0) [] := by
  rintro ⟨every, -⟩
  obtain ⟨fuel, r, ran, reads⟩ := every 3
  exact absurd (complete_of_urlDecoder (t := ⟨[37], by decide⟩) ran reads).1 (by decide)

end IcapService
