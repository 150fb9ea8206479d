import Mathlib.Data.Nat.Basic

/-! Networks of addresses that are bit vectors.

A network is an address and a mask: an address lies in it that agrees with its own on the bits of the mask. -/

namespace IcapService.Network

variable {w v : Nat}

/-- The address `a` lies in the network of `r` and the mask `m`. -/
def InNet (r m a : BitVec w) : Prop := r &&& m = a &&& m

instance (r m a : BitVec w) : Decidable (InNet r m a) := inferInstanceAs (Decidable (_ = _))

theorem append_eq_iff {x x' : BitVec w} {y y' : BitVec v} : x ++ y = x' ++ y' ↔ x = x' ∧ y = y' := by
  constructor
  · intro same
    have left := congrArg (BitVec.extractLsb' v w) same
    have right := congrArg (BitVec.extractLsb' 0 v) same
    rw [BitVec.extractLsb'_append_eq_left, BitVec.extractLsb'_append_eq_left] at left
    rw [BitVec.extractLsb'_append_eq_right, BitVec.extractLsb'_append_eq_right] at right
    exact ⟨left, right⟩
  · rintro ⟨rfl, rfl⟩
    rfl

/-- An address of two parts lies in a network when its parts do. -/
theorem inNet_append {r m a : BitVec w} {r' m' a' : BitVec v} :
    InNet (r ++ r') (m ++ m') (a ++ a') ↔ InNet r m a ∧ InNet r' m' a' := by
  simp only [InNet, BitVec.and_append, append_eq_iff]

theorem inNet_self (r m : BitVec w) : InNet r m r := rfl

/-- A network that lies in another with the same address has the larger mask. -/
theorem mask_of_subset {r m n : BitVec w} (subset : ∀ a, InNet r m a → InNet r n a) (i : Nat)
    (inside : n.getLsbD i = true) : m.getLsbD i = true := by
  -- the address that differs from `r` in all the bits outside `m`
  have agrees := subset (r ^^^ ~~~m) (by
    rw [InNet]
    ext i bound
    simp
    grind)
  have small := BitVec.lt_of_getLsbD inside
  rw [BitVec.getLsbD_eq_getElem small] at inside ⊢
  have bit := congrArg (fun x => x.getLsbD i) agrees
  simp only [BitVec.getLsbD_eq_getElem small, BitVec.getElem_and, BitVec.getElem_xor, BitVec.getElem_not, inside,
    Bool.and_true] at bit
  grind

/-- The mask of a network is determined by the addresses in it. -/
theorem mask_unique {r m n : BitVec w} (same : ∀ a, InNet r m a ↔ InNet r n a) : m = n := by
  apply BitVec.eq_of_getLsbD_eq
  intro i bound
  rw [Bool.eq_iff_iff]
  exact ⟨mask_of_subset (fun a => (same a).mpr) i, mask_of_subset (fun a => (same a).mp) i⟩

end IcapService.Network
