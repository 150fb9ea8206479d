import Mathlib.Algebra.GroupWithZero.Nat
import Mathlib.Algebra.BigOperators.Group.List.Basic
import IcapService.FormatTable
import IcapService.Lib.Machine

/-! `ci_format_text`: the bytes of a format and the values of its directives are written to a buffer. -/

namespace IcapService

open CString CInt Machine

/-- A part of a format that was processed, and the bytes it gave. -/
structure FormatPiece where
  text : Bytes
  output : Bytes

structure FormatState (σ : Type) where
  s : Bytes
  b : Nat
  remains : Int
  mem : Mem
  st : σ
  pieces : List FormatPiece

structure FormatOut (σ : Type) where
  ret : Int
  mem : Mem
  st : σ
  pieces : List FormatPiece

variable {σ : Type}

/-- The call of a handler at an address: a value that is not positive is a dash, a longer one is cut to the space. -/
def formatValue (e : FmtEntry σ) (st : σ) (m : Mem) (addr space : Nat) (parameter : Bytes) : Nat × Mem × σ :=
  let out := e.format st m addr space parameter
  let dash := fmtNone space
  let val := if out.1 ≤ 0 then (dash.1, out.2.1.store addr dash.2) else (out.1, out.2.1)
  (if (space : Int) < val.1 then space else val.1.toNat, val.2, out.2.2)

def blanks (n : Nat) : Bytes := List.replicate n 32

/-- A directive at an address: the bytes it takes. The memory that is allocated for a value that is aligned to the
right holds anything. -/
def formatDirective (fresh : Nat → Mem) (e : FmtEntry σ) (d : Directive) (st : σ) (m : Mem) (addr remains : Nat) :
    Nat × Mem × σ :=
  if d.width ≠ 0 then
    let width := if remains < d.width then remains else d.width
    if d.leftAlign then
      let val := formatValue e st m addr width d.parameter
      (width, val.2.1.store (addr + val.1) (blanks (width - val.1)), val.2.2)
    else
      let val := formatValue e st (fresh addr) 0 width d.parameter
      let m := m.store addr (blanks (width - val.1))
      (width, m.store (addr + (width - val.1)) (val.2.1.load 0 val.1), val.2.2)
  else formatValue e st m addr remains d.parameter

section

variable (view : σ → FmtRequest) (user : List (FmtEntry σ)) (fresh : Nat → Mem) (buffer len : Nat)

/-- A byte of the format that is copied. -/
def formatLiteral (f : FormatState σ) (c : UInt8) (rest : Bytes) : FormatState σ :=
  { f with
    s := rest
    b := f.b + 1
    remains := f.remains - 1
    mem := f.mem.store (buffer + f.b) [c]
    pieces := f.pieces ++ [⟨[c], [c]⟩] }

/-- A pass of the loop of `ci_format_text`. -/
def formatStep (f : FormatState σ) : Step (FormatState σ) (FormatOut σ) :=
  match f.s with
  | [] => .done ⟨len - f.remains, f.mem.store (buffer + f.b) [0], f.st, f.pieces⟩
  | c :: rest =>
      if f.remains ≤ 0 then .done ⟨len - f.remains, f.mem.store (buffer + f.b) [0], f.st, f.pieces⟩
      else if c = 37 then
        match checkTables view user f.s with
        | (some (e, directiveLen), d) =>
            let out := formatDirective fresh e d f.st f.mem (buffer + f.b) (u32 f.remains)
            .next
              { s := f.s.drop directiveLen
                b := f.b + out.1
                remains := f.remains - out.1
                mem := out.2.1
                st := out.2.2
                pieces := f.pieces ++ [⟨f.s.take directiveLen, out.2.1.load (buffer + f.b) out.1⟩] }
        | (none, _) => .next (formatLiteral buffer f c rest)
      else .next (formatLiteral buffer f c rest)

/-- `ci_format_text`, cut off after `fuel` passes. -/
def ciFormatText (fuel : Nat) (fmt : Bytes) (m : Mem) (st : σ) : Option (FormatOut σ) :=
  run (formatStep view user fresh buffer len) fuel ⟨fmt, 0, (len : Int) - 1, m, st, []⟩

end

/-! ### One directive -/

/-- A value takes at least one byte, and changes its space only. -/
theorem formatValue_spec (e : FmtEntry σ) (st : σ) (m : Mem) (addr space : Nat) (parameter : Bytes)
    (positive : 0 < space) :
    1 ≤ (formatValue e st m addr space parameter).1 ∧ (formatValue e st m addr space parameter).1 ≤ space ∧
      ∀ a, a < addr ∨ addr + space ≤ a → (formatValue e st m addr space parameter).2.1 a = m a := by
  have within := e.within st m addr space parameter
  have dash : fmtNone space = (1, [45]) := by
    rw [fmtNone, oneByte, if_neg (Nat.pos_iff_ne_zero.mp positive)]
  simp only [formatValue, dash]
  generalize e.format st m addr space parameter = out at within
  by_cases negative : out.1 ≤ 0
  · simp only [if_pos negative]
    refine ⟨?_, ?_, fun a outside => ?_⟩
    · split <;> omega
    · split <;> omega
    · rw [Mem.store_apart _ _ _ (by simp only [List.length_singleton]; omega)]
      exact within a outside
  · simp only [if_neg negative]
    refine ⟨?_, ?_, within⟩
    · split <;> omega
    · split <;> omega

theorem formatDirective_spec (fresh : Nat → Mem) (e : FmtEntry σ) (d : Directive) (st : σ) (m : Mem)
    (addr remains : Nat) (positive : 0 < remains) :
    1 ≤ (formatDirective fresh e d st m addr remains).1 ∧ (formatDirective fresh e d st m addr remains).1 ≤ remains ∧
      ∀ a, a < addr ∨ addr + remains ≤ a → (formatDirective fresh e d st m addr remains).2.1 a = m a := by
  simp only [formatDirective]
  by_cases wide : d.width ≠ 0
  · rw [if_pos wide]
    have least : 0 < (if remains < d.width then remains else d.width) := by split <;> omega
    have most : (if remains < d.width then remains else d.width) ≤ remains := by split <;> omega
    generalize (if remains < d.width then remains else d.width) = width at least most
    split
    · obtain ⟨-, short, within⟩ := formatValue_spec e st m addr width d.parameter least
      refine ⟨least, most, fun a outside => ?_⟩
      dsimp only
      rw [Mem.store_apart _ _ _ (by simp only [blanks, List.length_replicate]; omega)]
      exact within a (by omega)
    · obtain ⟨-, short, -⟩ := formatValue_spec e st (fresh addr) 0 width d.parameter least
      refine ⟨least, most, fun a outside => ?_⟩
      dsimp only
      rw [Mem.store_apart _ _ _ (by rw [Mem.load_length]; omega),
        Mem.store_apart _ _ _ (by simp only [blanks, List.length_replicate]; omega)]
  · rw [if_neg wide]
    exact formatValue_spec e st m addr remains d.parameter positive

/-! ### The loop -/

/-- The memory outside of the buffer is that of the call, and the buffer holds what the pieces gave. -/
structure FormatInv (m : Mem) (buffer len : Nat) (fmt : Bytes) (f : FormatState σ) : Prop where
  room : (f.b : Int) + f.remains = (len : Int) - 1
  left : 0 ≤ f.remains
  outside : ∀ a, a < buffer ∨ buffer + len ≤ a → f.mem a = m a
  shown : f.mem.load buffer f.b = (f.pieces.map (·.output)).flatten
  order : (f.pieces.map (·.text)).flatten ++ f.s = fmt

/-- What a call has done: `r` bytes are used, the last of them is the NUL, and those before it are what the parts of
the format gave, in their order. -/
structure Formatted (m : Mem) (buffer len : Nat) (fmt : Bytes) (out : FormatOut σ) (r : Nat) : Prop where
  ret : out.ret = r
  positive : 1 ≤ r
  bounded : r ≤ len
  terminated : out.mem (buffer + (r - 1)) = 0
  widths : r - 1 = (out.pieces.map (fun p => p.output.length)).sum
  shown : out.mem.load buffer (r - 1) = (out.pieces.map (·.output)).flatten
  order : (out.pieces.map (·.text)).flatten <+: fmt
  complete : r < len → (out.pieces.map (·.text)).flatten = fmt
  outside : ∀ a, a < buffer ∨ buffer + len ≤ a → out.mem a = m a

section

variable {view : σ → FmtRequest} {user : List (FmtEntry σ)} {fresh : Nat → Mem} {m : Mem} {buffer len : Nat}
  {fmt : Bytes} {f : FormatState σ}

theorem FormatInv.done (inv : FormatInv m buffer len fmt f) (ended : f.s = [] ∨ f.remains ≤ 0) :
    Formatted m buffer len fmt (⟨len - f.remains, f.mem.store (buffer + f.b) [0], f.st, f.pieces⟩ : FormatOut σ)
      (f.b + 1) := by
  have room := inv.room
  have left := inv.left
  have kept : (f.mem.store (buffer + f.b) [0]).load buffer f.b = f.mem.load buffer f.b :=
    Mem.load_store_apart _ _ _ (.inl (Nat.le_refl _))
  have last : (f.mem.store (buffer + f.b) [0]) (buffer + f.b) = 0 := by
    rw [Mem.store, if_pos ⟨Nat.le_refl _, by simp⟩]
    simp
  refine ⟨by simp only; omega, by omega, by omega, last, ?_, kept.trans inv.shown, ⟨f.s, inv.order⟩, fun short => ?_,
    fun a apart => ?_⟩
  · have size := congrArg List.length inv.shown
    rw [Mem.load_length, List.length_flatten, List.map_map] at size
    exact size
  · rcases ended with nothing | full
    · have order := inv.order
      rw [nothing, List.append_nil] at order
      exact order
    · omega
  · dsimp only
    rw [Mem.store_apart _ _ _ (by simp only [List.length_singleton]; omega)]
    exact inv.outside a apart

/-- A piece of `w` bytes behind the others. -/
theorem FormatInv.piece {text rest : Bytes} {w : Nat} {mem : Mem} {st : σ} (inv : FormatInv m buffer len fmt f)
    (fits : (w : Int) ≤ f.remains) (split_ : text ++ rest = f.s)
    (within : ∀ a, a < buffer + f.b ∨ buffer + f.b + f.remains.toNat ≤ a → mem a = f.mem a) :
    FormatInv m buffer len fmt
      ⟨rest, f.b + w, f.remains - w, mem, st, f.pieces ++ [⟨text, mem.load (buffer + f.b) w⟩]⟩ := by
  have room := inv.room
  refine ⟨?_, ?_, fun a apart => ?_, ?_, ?_⟩
  · dsimp only
    omega
  · dsimp only
    omega
  · dsimp only
    rw [within a (by omega)]
    exact inv.outside a apart
  · have first : mem.load buffer f.b = f.mem.load buffer f.b := Mem.load_congr (fun a _ high => within a (.inl high))
    have both : mem.load buffer (f.b + w) = mem.load buffer f.b ++ mem.load (buffer + f.b) w := by
      simp only [Mem.load, List.range_add, List.map_append, List.map_map]
      congr 1
      refine List.map_congr_left (fun i _ => ?_)
      simp only [Function.comp_apply, Nat.add_assoc]
    simp only [both, first, inv.shown, List.map_append, List.map_singleton, List.flatten_append, List.flatten_singleton]
  · simp only [List.map_append, List.map_singleton, List.flatten_append, List.flatten_singleton, List.append_assoc,
      split_]
    exact inv.order

theorem FormatInv.literal {c : UInt8} {rest : Bytes} (inv : FormatInv m buffer len fmt f) (next : f.s = c :: rest)
    (open_ : 0 < f.remains) : FormatInv m buffer len fmt (formatLiteral buffer f c rest) := by
  have stored : (f.mem.store (buffer + f.b) [c]).load (buffer + f.b) 1 = [c] := Mem.load_store f.mem (buffer + f.b) [c]
  have apart : ∀ a, a < buffer + f.b ∨ buffer + f.b + f.remains.toNat ≤ a →
      f.mem.store (buffer + f.b) [c] a = f.mem a := fun a apart =>
    Mem.store_apart _ _ _ (by simp only [List.length_singleton]; omega)
  have text : [c] ++ rest = f.s := next.symm
  have piece : FormatInv m buffer len fmt ⟨rest, f.b + 1, f.remains - (1 : Nat), f.mem.store (buffer + f.b) [c], f.st,
      f.pieces ++ [⟨[c], (f.mem.store (buffer + f.b) [c]).load (buffer + f.b) 1⟩]⟩ :=
    inv.piece (by omega) text apart
  rw [stored] at piece
  exact piece

/-- A pass leaves less space. -/
theorem FormatInv.step (view : σ → FmtRequest) (user : List (FmtEntry σ)) (fresh : Nat → Mem) (inv : FormatInv m buffer len fmt f) (small : len < 2147483648) :
    (formatStep view user fresh buffer len f).All
      (fun g => FormatInv m buffer len fmt g ∧ g.remains < f.remains)
      (fun out => ∃ r, Formatted m buffer len fmt out r) := by
  have room := inv.room
  simp only [formatStep]
  split
  · rename_i nothing
    exact ⟨_, inv.done (.inl nothing)⟩
  · rename_i c rest next
    by_cases full : f.remains ≤ 0
    · rw [if_pos full]
      exact ⟨_, inv.done (.inr full)⟩
    · have open_ : 0 < f.remains := Int.not_le.mp full
      have literal : FormatInv m buffer len fmt (formatLiteral buffer f c rest) ∧
          (formatLiteral buffer f c rest).remains < f.remains :=
        ⟨inv.literal next open_, Int.sub_one_lt_of_le (Int.le_refl _)⟩
      rw [if_neg full]
      split
      · split
        · rename_i e directiveLen d found
          have same : u32 f.remains = f.remains.toNat := by
            have range := u32_of_range f.remains (by omega) (by omega)
            omega
          rw [same]
          obtain ⟨least, most, within⟩ :=
            formatDirective_spec fresh e d f.st f.mem (buffer + f.b) f.remains.toNat (by omega)
          refine ⟨inv.piece (by omega) (List.take_append_drop _ _) within, ?_⟩
          simp only
          omega
        · exact literal
      · exact literal

theorem formatRun (fuel : Nat) (inv : FormatInv m buffer len fmt f) (small : len < 2147483648)
    (enough : f.remains.toNat < fuel) :
    ∃ out r, run (formatStep view user fresh buffer len) fuel f = some out ∧ Formatted m buffer len fmt out r := by
  induction fuel generalizing f with
  | zero => omega
  | succ fuel ih =>
      have pass := inv.step view user fresh small
      cases result : formatStep view user fresh buffer len f with
      | done out =>
          rw [result] at pass
          obtain ⟨r, formatted⟩ := pass
          exact ⟨out, r, run_done fuel result, formatted⟩
      | next g =>
          rw [result] at pass
          obtain ⟨kept, less⟩ := pass
          have left := kept.left
          obtain ⟨out, r, ran, formatted⟩ := ih kept (by omega)
          exact ⟨out, r, (run_next fuel result).trans ran, formatted⟩

end

/-- For every format and every table whose handlers stay in their space, `ci_format_text` ends, stays in its buffer,
and returns the number of bytes up to the NUL it ends with. -/
theorem format_text_safe (view : σ → FmtRequest) (user : List (FmtEntry σ)) (fresh : Nat → Mem) (fmt : Bytes)
    (m : Mem) (st : σ) (buffer len : Nat) (positive : 1 ≤ len) (small : len < 2147483648) :
    ∃ out r, ciFormatText view user fresh buffer len (len + 1) fmt m st = some out ∧
      Formatted m buffer len fmt out r := by
  refine formatRun (len + 1) ⟨by simp, by simp only; omega, fun _ _ => rfl, rfl, rfl⟩ small ?_
  simp only
  omega

/-- A request without anything to show but its user. -/
def userRequest : FmtRequest where
  remoteIp := none
  localIp := none
  method := ascii "REQMOD"
  service := ascii "svc"
  user := ascii "joe"
  args := []
  localtime := fun _ => []
  gmttime := fun _ => []
  spilled := []
  seconds := 0
  icapStatus := 200
  icapRequest := ⟨none, fun _ => none⟩
  icapResponse := ⟨none, fun _ => none⟩
  xheaders := none
  httpRequest := none
  httpResponse := none
  bytesIn := 0
  bytesOut := 0
  httpBytesIn := 0
  httpBytesOut := 0
  bodyBytesIn := 0
  bodyBytesOut := 0
  preview := -1
  previewData := []
  logStr := none
  attributes := fun _ => none

/-- The user in a field of five bytes, in a buffer of eight. -/
theorem format_text_safe_user :
    (∃ out r, ciFormatText (fun _ : Unit => userRequest) [] (fun _ _ => 0) 0 8 9 (ascii "<%-5un>ab") (fun _ => 0) () =
        some out ∧ Formatted (fun _ => 0) 0 8 (ascii "<%-5un>ab") out r) ∧
      (ciFormatText (fun _ : Unit => userRequest) [] (fun _ _ => 0) 0 8 9 (ascii "<%-5un>ab") (fun _ => 0) ()).map
        (fun out => (out.ret, out.mem.load 0 8)) = some (8, ascii "<joe  >" ++ [0]) :=
  ⟨format_text_safe (fun _ => userRequest) [] _ _ _ () 0 8 (by decide) (by decide), by decide +kernel⟩

end IcapService
