import Mathlib.Data.List.Sort

/-! Stable insertion sort.

An element is put in front of the first one that is strictly above it, so it comes behind those that tie with it. -/

namespace IcapService.Insertion

variable {α : Type} (le : α → α → Prop) [DecidableRel le]

def insertLast (a : α) (l : List α) : List α := l.orderedInsert (fun a b => ¬le b a) a

/-- The elements are inserted from the first to the last. -/
def stableSort (l : List α) : List α := l.foldl (fun sorted a => insertLast le a sorted) []

/-- Whether an element ties with another one. -/
def tied (a b : α) : Bool := decide (le a b ∧ le b a)

variable {le} {a : α} {l x y : List α}

theorem insertLast_eq (before : ∀ b ∈ x, le b a) (stop : ∀ b, y.head? = some b → ¬le b a) :
    insertLast le a (x ++ y) = x ++ a :: y := by
  induction x with
  | nil =>
      cases y with
      | nil => rfl
      | cons b y => exact List.orderedInsert_cons_of_le _ _ (stop b rfl)
  | cons b x ih =>
      have below : ¬¬le b a := not_not_intro (before b List.mem_cons_self)
      calc insertLast le a (b :: x ++ y) = b :: insertLast le a (x ++ y) := List.orderedInsert_of_not_le _ _ below
        _ = b :: (x ++ a :: y) := by rw [ih (fun c member => before c (List.mem_cons_of_mem _ member))]

theorem insertLast_perm (a : α) (l : List α) : (insertLast le a l).Perm (a :: l) := List.perm_orderedInsert _ a l

theorem mem_insertLast {b : α} : b ∈ insertLast le a l ↔ b = a ∨ b ∈ l := List.mem_orderedInsert _

section Order

variable (total : ∀ a b, le a b ∨ le b a) (trans : ∀ a b c, le a b → le b c → le a c)
include total trans

theorem insertLast_sorted (sorted : l.Pairwise le) (a : α) : (insertLast le a l).Pairwise le := by
  induction l with
  | nil => exact List.pairwise_singleton _ _
  | cons b l ih =>
      obtain ⟨first, rest⟩ := List.pairwise_cons.mp sorted
      by_cases below : le b a
      · rw [insertLast, List.orderedInsert_of_not_le _ _ (not_not_intro below)]
        refine List.pairwise_cons.mpr ⟨fun c member => ?_, ih rest⟩
        rcases mem_insertLast.mp member with rfl | member
        · exact below
        · exact first c member
      · have above : le a b := (total a b).resolve_right below
        rw [insertLast, List.orderedInsert_cons_of_le _ _ below]
        refine List.pairwise_cons.mpr ⟨fun c member => ?_, sorted⟩
        rcases List.mem_cons.mp member with rfl | member
        · exact above
        · exact trans a b c above (first c member)

theorem insertLast_stable (sorted : l.Pairwise le) (a c : α) :
    (insertLast le a l).filter (tied le c) = l.filter (tied le c) ++ [a].filter (tied le c) := by
  induction l with
  | nil => rfl
  | cons b l ih =>
      obtain ⟨first, rest⟩ := List.pairwise_cons.mp sorted
      by_cases below : le b a
      · rw [insertLast, List.orderedInsert_of_not_le _ _ (not_not_intro below), List.filter_cons, List.filter_cons]
        split
        · exact congrArg (b :: ·) (ih rest)
        · exact ih rest
      · rw [insertLast, List.orderedInsert_cons_of_le _ _ below]
        by_cases ties : tied le c a = true
        · -- what follows is strictly above the element, so nothing of it ties
          have none : (b :: l).filter (tied le c) = [] := by
            refine List.filter_eq_nil_iff.mpr (fun d member same => below ?_)
            obtain ⟨-, down⟩ := of_decide_eq_true same
            have up : le c a := (of_decide_eq_true ties).1
            have through : le b d := by
              rcases List.mem_cons.mp member with rfl | member
              · exact (total d d).elim id id
              · exact first d member
            exact trans b c a (trans b d c through down) up
          rw [List.filter_cons_of_pos ties, List.filter_cons_of_pos ties, none]
          rfl
        · rw [List.filter_cons_of_neg ties, List.filter_cons_of_neg ties]
          simp

/-- The sort of some elements goes on from those that were sorted. -/
theorem foldl_insertLast (l : List α) {sorted : List α} (ordered : sorted.Pairwise le) :
    (l.foldl (fun sorted a => insertLast le a sorted) sorted).Pairwise le ∧
      ∀ c, (l.foldl (fun sorted a => insertLast le a sorted) sorted).filter (tied le c) =
        sorted.filter (tied le c) ++ l.filter (tied le c) := by
  induction l generalizing sorted with
  | nil => exact ⟨ordered, fun c => (List.append_nil _).symm⟩
  | cons a l ih =>
      obtain ⟨ordered', stable⟩ := ih (insertLast_sorted total trans ordered a)
      refine ⟨ordered', fun c => ?_⟩
      rw [List.foldl_cons, stable c, insertLast_stable total trans ordered, List.append_assoc, ← List.filter_append]
      rfl

theorem stableSort_sorted (l : List α) : (stableSort le l).Pairwise le :=
  (foldl_insertLast total trans l List.Pairwise.nil).1

theorem stableSort_stable (l : List α) (c : α) : (stableSort le l).filter (tied le c) = l.filter (tied le c) :=
  (foldl_insertLast total trans l List.Pairwise.nil).2 c

end Order

theorem foldl_insertLast_perm (l sorted : List α) :
    (l.foldl (fun sorted a => insertLast le a sorted) sorted).Perm (sorted ++ l) := by
  induction l generalizing sorted with
  | nil => rw [List.foldl_nil, List.append_nil]
  | cons a l ih =>
      calc ((a :: l).foldl (fun sorted a => insertLast le a sorted) sorted).Perm (insertLast le a sorted ++ l) := ih _
        _ |>.Perm (a :: sorted ++ l) := (insertLast_perm a sorted).append_right l
        _ |>.Perm (sorted ++ a :: l) := List.perm_middle.symm

theorem stableSort_perm (l : List α) : (stableSort le l).Perm l := foldl_insertLast_perm l []

end IcapService.Insertion
