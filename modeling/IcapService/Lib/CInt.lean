import Mathlib.Data.Int.Basic

/-! Conversions between C integers of 32 bits and mathematical integers. -/

namespace IcapService.CInt

/-- Conversion to a signed 32-bit `int`: the low 32 bits, read in two's complement. -/
def wrap32 (v : Int) : Int := (v + 2147483648) % 4294967296 - 2147483648

/-- The largest `int`. -/
def intMax : Nat := 2147483647

/-- Conversion to an `unsigned int` of 32 bits. -/
def u32 (v : Int) : Nat := (v % 4294967296).toNat

theorem wrap32_bounds (v : Int) : -2147483648 ≤ wrap32 v ∧ wrap32 v < 2147483648 := by
  unfold wrap32
  omega

theorem wrap32_of_range (v : Int) (low : -2147483648 ≤ v) (high : v < 2147483648) :
    wrap32 v = v := by
  unfold wrap32
  omega

theorem u32_lt (v : Int) : u32 v < 4294967296 := by
  unfold u32
  omega

theorem u32_of_range (v : Int) (low : 0 ≤ v) (high : v < 4294967296) : (u32 v : Int) = v := by
  unfold u32
  omega

theorem u32_eq_zero (v : Int) : u32 (wrap32 v) = 0 ↔ wrap32 v = 0 := by
  unfold u32 wrap32
  omega

end IcapService.CInt
