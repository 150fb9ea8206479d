import Mathlib.Data.List.Perm.Basic
import Mathlib.Data.List.Nodup

/-! The blocks a process has on its heap.

A block is an address; an allocator gives out no address that is in use, and an address that is not in use cannot be
freed. Who owns the blocks is a list of them in any order. -/

namespace IcapService

structure Heap where
  blocks : List Nat
  nodup : blocks.Nodup

namespace Heap

variable {h h' : Heap} {a : Nat} {owned others : List Nat}

def empty : Heap := ⟨[], List.nodup_nil⟩

/-- The allocator returns `a`. -/
def malloc (h : Heap) (a : Nat) : Option Heap :=
  if fresh : a ∉ h.blocks then some ⟨a :: h.blocks, List.nodup_cons.mpr ⟨fresh, h.nodup⟩⟩ else none

def free (h : Heap) (a : Nat) : Option Heap :=
  if a ∈ h.blocks then some ⟨h.blocks.erase a, h.nodup.erase a⟩ else none

/-- The blocks of a list are freed one after the other. -/
def freeAll (h : Heap) (l : List Nat) : Option Heap := l.foldlM free h

/-- All blocks, and each of them once. -/
def Owns (h : Heap) (owned : List Nat) : Prop := h.blocks.Perm owned

theorem empty_owns : empty.Owns [] := List.Perm.nil

theorem Owns.perm (owns : h.Owns owned) (same : owned.Perm others) : h.Owns others := List.Perm.trans owns same

theorem Owns.nodup (owns : h.Owns owned) : owned.Nodup := (List.Perm.nodup_iff owns).mp h.nodup

theorem Owns.mem (owns : h.Owns owned) : a ∈ h.blocks ↔ a ∈ owned := List.Perm.mem_iff owns

theorem Owns.malloc (owns : h.Owns owned) (fresh : a ∉ h.blocks) :
    ∃ h', h.malloc a = some h' ∧ h'.Owns (a :: owned) :=
  ⟨_, dif_pos fresh, List.Perm.cons a owns⟩

theorem Owns.free (owns : h.Owns (a :: owned)) : ∃ h', h.free a = some h' ∧ h'.Owns owned := by
  refine ⟨_, if_pos (owns.mem.mpr List.mem_cons_self), ?_⟩
  have erased := List.Perm.erase a owns
  rw [List.erase_cons_head] at erased
  exact erased

theorem Owns.freeAll (owns : h.Owns (others ++ owned)) : ∃ h', h.freeAll others = some h' ∧ h'.Owns owned := by
  induction others generalizing h with
  | nil => exact ⟨h, rfl, owns⟩
  | cons b rest ih =>
      obtain ⟨h1, freed, owns1⟩ := Owns.free owns
      obtain ⟨h2, rest', owns2⟩ := ih owns1
      exact ⟨h2, by rw [Heap.freeAll, List.foldlM_cons, freed]; exact rest', owns2⟩

end Heap

end IcapService
