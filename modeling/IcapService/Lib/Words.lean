import IcapService.Lib.CString
import Mathlib.Data.List.GetD

/-! Memory as the byte at every address, and strings and words in it. -/

namespace IcapService.CString

abbrev Mem := Nat → UInt8

namespace Mem

/-- The `len` bytes from an address on. -/
def load (m : Mem) (addr len : Nat) : Bytes := (List.range len).map (fun i => m (addr + i))

/-- Put `data` at an address. -/
def store (m : Mem) (addr : Nat) (data : Bytes) : Mem := fun a =>
  if addr ≤ a ∧ a < addr + data.length then data.getD (a - addr) 0 else m a

/-- One store after the other. -/
def stores (m : Mem) (writes : List (Nat × Bytes)) : Mem := writes.foldl (fun m w => m.store w.1 w.2) m

variable (m : Mem) (addr : Nat) (data : Bytes)

@[simp] theorem load_length (len : Nat) : (m.load addr len).length = len := by simp [load]

theorem load_succ (i n : Nat) : m.load i (n + 1) = m i :: m.load (i + 1) n := by
  simp only [load, List.range_succ_eq_map, List.map_cons, List.map_map, Nat.add_zero]
  congr 1
  refine List.map_congr_left (fun j _ => ?_)
  show m (i + (j + 1)) = m (i + 1 + j)
  congr 1
  omega

theorem load_snoc (i n : Nat) : m.load i (n + 1) = m.load i n ++ [m (i + n)] := by
  simp only [load, List.range_succ, List.map_append, List.map_cons, List.map_nil]

theorem load_congr {m m' : Mem} {addr len : Nat} (same : ∀ a, addr ≤ a → a < addr + len → m a = m' a) :
    m.load addr len = m'.load addr len := by
  refine List.map_congr_left (fun i member => same _ (Nat.le_add_right _ _) ?_)
  have inside := List.mem_range.mp member
  omega

theorem store_apart {a : Nat} (apart : a < addr ∨ addr + data.length ≤ a) : m.store addr data a = m a := by
  rw [store, if_neg (by omega)]

theorem load_store : (m.store addr data).load addr data.length = data := by
  refine List.ext_getElem (by simp) (fun i first second => ?_)
  simp only [load, List.getElem_map, List.getElem_range, store]
  rw [if_pos (by omega), Nat.add_sub_cancel_left, List.getD_eq_getElem _ _ second]

theorem load_store_apart {at_ len : Nat} (apart : at_ + len ≤ addr ∨ addr + data.length ≤ at_) :
    (m.store addr data).load at_ len = m.load at_ len :=
  load_congr (fun a _ _ => m.store_apart addr data (by omega))

end Mem

/-! ### Strings -/

/-- A string without its NUL. -/
structure CText where
  bytes : Bytes
  plain : 0 ∉ bytes
  deriving DecidableEq

/-- The size of a string with its NUL. -/
def CText.size (text : CText) : Nat := text.bytes.length + 1

/-- The string that is stored at an address is this one. -/
def strEquals (m : Mem) (addr : Nat) (text : CText) : Bool := decide (m.load addr text.size = text.bytes ++ [0])

/-- Strings at one address are the same. -/
theorem text_unique {m : Mem} {addr : Nat} {text text' : CText} (first : m.load addr text.size = text.bytes ++ [0])
    (second : m.load addr text'.size = text'.bytes ++ [0]) : text = text' := by
  have shorter : ∀ {k k' : CText}, m.load addr k.size = k.bytes ++ [0] → m.load addr k'.size = k'.bytes ++ [0] →
      ¬ k.bytes.length < k'.bytes.length := by
    intro k k' first second short
    have nul := congrArg (fun l => l[k.bytes.length]?) first
    have byte := congrArg (fun l => l[k.bytes.length]?) second
    simp only [Mem.load, CText.size, List.getElem?_map, List.getElem?_range (Nat.lt_succ_self _),
      List.getElem?_range (show k.bytes.length < k'.bytes.length + 1 by omega), Option.map_some,
      List.getElem?_append_right (Nat.le_refl _), Nat.sub_self, List.getElem?_append_left short,
      List.getElem?_eq_getElem short] at nul byte
    rw [nul] at byte
    exact k'.plain (by rw [Option.some.inj byte]; exact List.getElem_mem short)
  have size : text.size = text'.size := by
    have low := shorter first second
    have high := shorter second first
    simp only [CText.size]
    omega
  rw [size, second] at first
  cases text
  cases text'
  simpa using (List.append_cancel_right first).symm

/-! ### Words -/

/-- The `n` bytes of a number, the lowest one first. -/
def wordBytes : Nat → Nat → Bytes
  | 0, _ => []
  | n + 1, v => UInt8.ofNat v :: wordBytes n (v / 256)

/-- The number of which these are the bytes. -/
def word : Bytes → Nat
  | [] => 0
  | b :: rest => b.toNat + 256 * word rest

end IcapService.CString
