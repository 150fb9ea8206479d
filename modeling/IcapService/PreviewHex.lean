import IcapService.FormatText

/-! What `fmt_req_preview_hex` shows of the preview, and when it shows the preview at all. -/

namespace IcapService

open CString CInt

/-- The count that the parameter gives; without one it is five. -/
def previewCount (param : Option Bytes) : Int := param.elim 5 fun p => wrap32 (strtol 10 p).1

/-- `fmt_req_preview_hex`, with or without a parameter. -/
def fmtReqPreviewHexOf (q : FmtRequest) (m : Mem) (addr len : Nat) (param : Option Bytes) : Int × Mem :=
  if len = 0 then (0, m)
  else if q.previewData = [] then (1, m.store addr [45])
  else previewHex addr (previewCount param) q.previewData m 0 0 len

/-- The entry of the internal table always has a parameter. -/
theorem fmtReqPreviewHexOf_some (q : FmtRequest) (m : Mem) (addr len : Nat) (param : Bytes) :
    fmtReqPreviewHexOf q m addr len (some param) = fmtReqPreviewHex q m addr len param := rfl

def isPrint (c : UInt8) : Bool := 32 ≤ c && c ≤ 126

/-- A printable byte as itself, and the value of any other. -/
def hexShown (c : UInt8) : Bytes := if isPrint c then [c] else ascii "\\x" ++ hexByte c

/-- What is to be shown of a preview; a dash stands for one that is empty. -/
def previewShown (data : Bytes) (count : Int) : Bytes :=
  if data = [] then [45] else (data.take count.toNat).flatMap hexShown

/-- The output depends on the first bytes of the preview only, whatever the buffer holds. -/
def PreviewHexShown (q : FmtRequest) (param : Option Bytes) (len : Nat) : Prop :=
  ∀ m addr, (fmtReqPreviewHexOf q m addr len param).1 = ((previewShown q.previewData (previewCount param)).take len).length ∧
    (fmtReqPreviewHexOf q m addr len param).2.load addr (fmtReqPreviewHexOf q m addr len param).1.toNat =
      (previewShown q.previewData (previewCount param)).take len

/-! ### Printable bytes -/

theorem store_nil (m : Mem) (addr : Nat) : m.store addr [] = m := by
  funext a
  rw [Mem.store, if_neg (by simp)]

theorem store_cons (m : Mem) (addr : Nat) (c : UInt8) (data : Bytes) :
    (m.store addr [c]).store (addr + 1) data = m.store addr (c :: data) := by
  funext a
  simp only [Mem.store, List.length_cons, List.length_nil]
  by_cases first : a = addr
  · subst first
    rw [if_neg (by omega), if_pos (by omega), if_pos (by omega), Nat.sub_self]
    rfl
  · by_cases inside : addr + 1 ≤ a ∧ a < addr + 1 + data.length
    · rw [if_pos inside, if_pos (by omega), show a - addr = a - (addr + 1) + 1 by omega]
      rfl
    · rw [if_neg inside, if_neg (by omega), if_neg (by omega)]

/-- Printable bytes are stored as they are. -/
theorem previewHex_printable (addr : Nat) (num : Int) (front rest : Bytes) (m : Mem) (i n len : Nat)
    (print : ∀ c ∈ front, isPrint c = true) (counted : (i : Int) + front.length ≤ num ∨ front = [])
    (room : front.length ≤ len) :
    previewHex addr num (front ++ rest) m i n len =
      previewHex addr num rest (m.store (addr + n) front) (i + front.length) (n + front.length)
        (len - front.length) := by
  induction front generalizing m i n len with
  | nil => rw [store_nil]; rfl
  | cons c front ih =>
      have here := print c List.mem_cons_self
      rw [isPrint, Bool.and_eq_true, decide_eq_true_eq, decide_eq_true_eq] at here
      rcases counted with counted | none
      · rw [List.length_cons] at counted room
        rw [List.cons_append, previewHex, if_pos (by omega), if_pos here,
          ih _ _ _ _ (fun d member => print d (List.mem_cons_of_mem _ member)) (.inl (by push_cast; omega)) (by omega),
          Nat.add_assoc addr n 1 |>.symm, store_cons, List.length_cons]
        congr 1 <;> omega
      · cases none

theorem previewHex_stop (addr : Nat) (num : Int) (rest : Bytes) (m : Mem) (i n len : Nat)
    (stops : rest = [] ∨ num ≤ i ∨ len = 0) : previewHex addr num rest m i n len = ((n : Int), m) := by
  cases rest with
  | nil => rfl
  | cons c rest =>
      refine if_neg (fun goes => ?_)
      rcases stops with none | counted | full
      · cases none
      · omega
      · omega

theorem flatMap_hexShown {data : Bytes} {len : Nat} (print : ∀ c ∈ data.take len, isPrint c = true) :
    (data.flatMap hexShown).take len = data.take len := by
  induction data generalizing len with
  | nil => rfl
  | cons c data ih =>
      cases len with
      | zero => rfl
      | succ len =>
          rw [List.take_succ_cons] at print
          have here : hexShown c = [c] := if_pos (print c List.mem_cons_self)
          rw [List.flatMap_cons, here, List.singleton_append, List.take_succ_cons, List.take_succ_cons,
            ih (fun d member => print d (List.mem_cons_of_mem _ member))]

/-- The bytes of which the loop gets hold when all of them are printable. -/
def previewText (data : Bytes) (num : Int) (len : Nat) : Bytes := (data.take num.toNat).take len

theorem previewText_length (data : Bytes) (num : Int) (len : Nat) :
    (previewText data num len).length = min len (min num.toNat data.length) := by
  rw [previewText, List.length_take, List.length_take]

theorem previewText_split (data : Bytes) (num : Int) (len : Nat) :
    ∃ rest, data = previewText data num len ++ rest ∧
      (rest = [] ∨ num ≤ (previewText data num len).length ∨ len = (previewText data num len).length) := by
  refine ⟨data.drop (min len num.toNat), ?_, ?_⟩
  · rw [previewText, List.take_take, List.take_append_drop]
  · rw [previewText_length, List.drop_eq_nil_iff]
    omega

/-- A preview whose first bytes are printable is shown. -/
theorem shown_of_printable (q : FmtRequest) (param : Option Bytes) (len : Nat)
    (print : ∀ c ∈ previewText q.previewData (previewCount param) len, isPrint c = true) :
    PreviewHexShown q param len := by
  intro m addr
  by_cases space : len = 0
  · subst space
    rw [fmtReqPreviewHexOf, if_pos rfl, List.take_zero]
    exact ⟨rfl, rfl⟩
  · rw [fmtReqPreviewHexOf, if_neg space]
    by_cases empty : q.previewData = []
    · rw [if_pos empty, previewShown, if_pos empty, List.take_of_length_le (Nat.one_le_iff_ne_zero.mpr space)]
      exact ⟨rfl, m.load_store addr [45]⟩
    · rw [if_neg empty, previewShown, if_neg empty, flatMap_hexShown print]
      obtain ⟨rest, split, stops⟩ := previewText_split q.previewData (previewCount param) len
      have size := previewText_length q.previewData (previewCount param) len
      change _ = ((previewText q.previewData (previewCount param) len).length : Int) ∧
        _ = previewText q.previewData (previewCount param) len
      generalize previewText q.previewData (previewCount param) len = text at *
      have counted : ((0 : Nat) : Int) + text.length ≤ previewCount param ∨ text = [] := by
        by_cases some : text = []
        · exact .inr some
        · have positive := List.length_pos_iff.mpr some
          exact .inl (by omega)
      have looped := previewHex_printable addr (previewCount param) text rest m 0 0 len print counted (by omega)
      rw [Nat.zero_add, Nat.add_zero, ← split] at looped
      rw [looped, previewHex_stop]
      · exact ⟨rfl, m.load_store addr text⟩
      · rcases stops with none | counted | full
        · exact .inl none
        · exact .inr (.inl counted)
        · exact .inr (.inr (by omega))

/-! ### Other bytes -/

theorem hexByte_table : ∀ n : Fin 256, at0 (hexByte (UInt8.ofNat n)) 0 ≠ 0 ∧
    (at0 (hexByte (UInt8.ofNat n)) 0 = 48 ↔ n = 0) := by
  decide +kernel

/-- Only the value of the NUL starts with a zero. -/
theorem hexByte_head (c : UInt8) : at0 (hexByte c) 0 ≠ 0 ∧ (at0 (hexByte c) 0 = 48 ↔ c = 0) := by
  have entry := hexByte_table ⟨c.toNat, c.toNat_lt⟩
  rw [show UInt8.ofNat ((⟨c.toNat, c.toNat_lt⟩ : Fin 256) : Nat) = c from UInt8.ofNat_toNat] at entry
  refine ⟨entry.1, entry.2.trans ⟨fun zero => ?_, fun zero => ?_⟩⟩
  · exact UInt8.toNat_inj.mp (congrArg Fin.val zero)
  · subst zero
    rfl

theorem at0_load (m : Mem) (addr : Nat) {n k : Nat} (inside : k < n) : at0 (m.load addr n) k = m (addr + k) := by
  rw [at0, Mem.load, List.getD_eq_getElem _ _ (by simpa using inside), List.getElem_map, List.getElem_range]

/-- The last byte of three that are printed, or the NUL in its place or in front of it. -/
theorem snprintf_cut (x y d : UInt8) {len : Nat} (room : 0 < len) :
    at0 (snprintfText [x, y, d] len).2 (min 2 (len - 1)) = if len ≤ 3 then 0 else d := by
  match len with
  | 1 => rfl
  | 2 => rfl
  | 3 => rfl
  | len + 4 => rw [if_neg (by omega)]; rfl

/-- What is printed for a byte that is not printable is read from the buffer. -/
theorem previewHex_raw (addr : Nat) {num : Int} {c : UInt8} (rest : Bytes) (m : Mem) {i n len : Nat}
    (counted : (i : Int) < num) (room : 0 < len) (raw : isPrint c = false) {x y d : UInt8}
    (printed : ascii "\\x" ++ hexByte (m (addr + i)) = [x, y, d]) :
    (previewHex addr num (c :: rest) m i n len).2 (addr + n + min 2 (len - 1)) = if len ≤ 3 then 0 else d := by
  have other : ¬(32 ≤ c ∧ c ≤ 126) := by
    rintro ⟨low, high⟩
    rw [isPrint, decide_eq_true low, decide_eq_true high] at raw
    cases raw
  have size : (snprintfText [x, y, d] len).2.length = min len 4 := by
    rw [snprintfText, if_neg (Nat.ne_of_gt room), List.length_append, List.length_take]
    simp only [List.length_cons, List.length_nil]
    omega
  rw [previewHex, if_pos ⟨counted, room⟩, if_neg other, printed]
  dsimp only
  rw [previewHex_within]
  · rw [← snprintf_cut x y d room, Mem.store, if_pos (by omega), Nat.add_sub_cancel_left]
    rfl
  · refine .inl ?_
    show _ < addr + (n + min 3 len)
    omega

/-- The bytes at which the output goes wrong. -/
theorem shown_raw (front rest : Bytes) {c : UInt8} (raw : isPrint c = false) (print : ∀ d ∈ front, isPrint d = true)
    {k : Nat} (small : k ≤ 2) :
    at0 ((front ++ c :: rest).flatMap hexShown) (front.length + k) = at0 (ascii "\\x" ++ hexByte c) k := by
  have same := @flatMap_hexShown front ((front.flatMap hexShown).length + front.length)
    (fun d member => print d (List.mem_of_mem_take member))
  rw [List.take_of_length_le (Nat.le_add_right _ _), List.take_of_length_le (Nat.le_add_left _ _)] at same
  have here : hexShown c = ascii "\\x" ++ hexByte c := if_neg (by rw [raw]; decide)
  have long : k < (ascii "\\x" ++ hexByte c).length := by
    have head := (hexByte_head c).1
    match text : hexByte c with
    | [] => exact absurd (by rw [text]; rfl) head
    | d :: others =>
        rw [List.length_append, List.length_cons]
        exact Nat.lt_of_le_of_lt small (by simp [ascii])
  rw [List.flatMap_append, same, List.flatMap_cons, here, at0, List.getD_append_right _ _ _ _ (Nat.le_add_right _ _),
    Nat.add_sub_cancel_left, List.getD_append _ _ _ _ long]
  rfl

theorem at0_raw (c : UInt8) {k : Nat} (small : k ≤ 2) : at0 (ascii "\\x" ++ hexByte c) k ≠ 0 := by
  match k with
  | 0 => exact (by decide : (92 : UInt8) ≠ 0)
  | 1 => exact (by decide : (120 : UInt8) ≠ 0)
  | 2 => exact (hexByte_head c).1

theorem at0_take (s : Bytes) {k len : Nat} (inside : k < len) : at0 (s.take len) k = at0 s k := by
  rw [at0, at0, List.getD_eq_getElem?_getD, List.getD_eq_getElem?_getD, List.getElem?_take_of_lt inside]

theorem lt_length_of_at0 {s : Bytes} {k : Nat} (some : at0 s k ≠ 0) : k < s.length := by
  by_contra outside
  exact some (List.getD_eq_default _ _ (Nat.le_of_not_lt outside))

theorem take_counted {front : Bytes} (rest : Bytes) (c : UInt8) {count : Int} (counted : (front.length : Int) < count) :
    ∃ others, (front ++ c :: rest).take count.toNat = front ++ c :: others := by
  obtain ⟨n, more⟩ : ∃ n, count.toNat = front.length + (n + 1) := ⟨count.toNat - front.length - 1, by omega⟩
  refine ⟨rest.take n, ?_⟩
  rw [more, List.take_append, List.take_of_length_le (Nat.le_add_right _ _), Nat.add_sub_cancel_left,
    List.take_succ_cons]

/-- A byte that is not printable is shown by what the buffer held before. -/
theorem not_shown (q : FmtRequest) (param : Option Bytes) {len : Nat} {front rest : Bytes} {c : UInt8}
    (split : q.previewData = front ++ c :: rest) (print : ∀ d ∈ front, isPrint d = true) (raw : isPrint c = false)
    (counted : (front.length : Int) < previewCount param) (room : front.length < len) :
    ¬PreviewHexShown q param len := by
  intro shown
  obtain ⟨v, d, printed, differs⟩ : ∃ v d, ascii "\\x" ++ hexByte v = [92, 120, d] ∧ d ≠ at0 (hexByte c) 0 := by
    by_cases zero : c = 0
    · exact ⟨1, 49, rfl, by rw [((hexByte_head c).2).mpr zero]; decide⟩
    · exact ⟨0, 48, rfl, fun same => zero ((hexByte_head c).2.mp same.symm)⟩
  obtain ⟨ret, text⟩ := shown (fun _ => v) 0
  have empty : q.previewData ≠ [] := by
    rw [split]
    simp
  have stale : (Mem.store (fun _ => v) 0 front) (0 + front.length) = v := Mem.store_apart _ _ _ (.inr (Nat.le_refl _))
  have wrong := previewHex_raw 0 rest (Mem.store (fun _ => v) 0 front) counted (Nat.sub_pos_of_lt room) raw
    (n := front.length) (by rw [stale]; exact printed)
  have looped := previewHex_printable 0 (previewCount param) front (c :: rest) (fun _ => v) 0 0 len print
    (.inl (by omega)) (Nat.le_of_lt room)
  rw [Nat.zero_add, Nat.zero_add, ← split] at looped
  obtain ⟨others, counts⟩ := take_counted rest c counted
  rw [fmtReqPreviewHexOf, if_neg (by omega), if_neg empty, looped, previewShown, if_neg empty, split, counts] at ret text
  have long : front.length + 2 < ((front ++ c :: others).flatMap hexShown).length :=
    lt_length_of_at0 (by rw [shown_raw front others raw print (Nat.le_refl 2)]; exact at0_raw c (Nat.le_refl 2))
  have byte := congrArg (fun s => at0 s (front.length + min 2 (len - front.length - 1))) text
  rw [ret, at0_load _ _ (by rw [List.length_take]; omega), at0_take _ (by omega),
    shown_raw front others raw print (Nat.min_le_left 2 _), ← Nat.add_assoc, wrong] at byte
  by_cases short : len - front.length ≤ 3
  · rw [if_pos short] at byte
    exact at0_raw c (Nat.min_le_left 2 _) byte.symm
  · rw [if_neg short, Nat.min_eq_left (by omega)] at byte
    exact differs byte

/-- The preview is shown if and only if the bytes of it that the count and the buffer leave are printable. -/
theorem preview_hex_shown_iff (q : FmtRequest) (param : Option Bytes) (len : Nat) :
    PreviewHexShown q param len ↔ ∀ c ∈ previewText q.previewData (previewCount param) len, isPrint c = true := by
  constructor
  · intro shown
    by_contra raw
    obtain ⟨c, found⟩ : ∃ c, (previewText q.previewData (previewCount param) len).find? (fun c => !isPrint c) = some c := by
      rw [← Option.isSome_iff_exists, List.find?_isSome]
      simpa using raw
    obtain ⟨bad, front, rest, split, print⟩ := List.find?_eq_some_iff_append.mp found
    obtain ⟨behind, whole, -⟩ := previewText_split q.previewData (previewCount param) len
    have size := previewText_length q.previewData (previewCount param) len
    rw [split] at whole size
    rw [List.length_append, List.length_cons] at size
    rw [List.append_assoc, List.cons_append] at whole
    exact not_shown q param whole (by simpa using print) (by simpa using bad) (by omega) (by omega) shown
  · exact shown_of_printable q param len

/-- The preview of a binary file. -/
theorem binary_preview_not_shown :
    ¬PreviewHexShown { userRequest with preview := 4, previewData := [127, 69, 76, 70] } none 64 :=
  not_shown _ none (show [127, 69, 76, 70] = [] ++ 127 :: [69, 76, 70] from rfl) (by simp) (by decide) (by decide)
    (by decide)

end IcapService
