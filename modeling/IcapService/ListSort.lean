import IcapService.CiList
import IcapService.Lib.Insertion

/-! `ci_list_sort2`: an insertion sort that links the items anew. -/

namespace IcapService

open Linked Insertion

variable {α : Type}

/-- A comparison function that orders the objects; objects may tie. -/
structure TotalPreorder (cmp : α → α → Int) : Prop where
  flip : ∀ a b, cmp a b < 0 ↔ 0 < cmp b a
  trans : ∀ a b c, cmp a b ≤ 0 → cmp b c ≤ 0 → cmp a c ≤ 0

theorem TotalPreorder.total {cmp : α → α → Int} (order : TotalPreorder cmp) (a b : α) : cmp a b ≤ 0 ∨ cmp b a ≤ 0 := by
  by_cases below : cmp a b ≤ 0
  · exact .inl below
  · exact .inr (Int.le_of_lt ((order.flip b a).mpr (Int.lt_of_not_ge below)))

/-- The variables of `ci_list_sort2`, and the links. -/
structure SortState where
  it : Option Nat
  sortedHead : Option Nat
  sortedTail : Option Nat
  next : Nat → Option Nat

namespace CiList

/-- A pass of the outer loop for the item `currentHead`. `currentSorted` leads to `sortedHead`, or to the link of the
item the walk came from. -/
def sortPass (cmp : α → α → Int) (item : Nat → α) (steps : Nat) (s : SortState) (currentHead : Nat) :
    Option SortState :=
  match seek s.next (fun q => decide (cmp (item currentHead) (item q) < 0)) steps none s.sortedHead with
  | none => none
  | some (prev, currentSorted) =>
      let linked := Function.update s.next currentHead currentSorted
      let placed : SortState :=
        match prev with
        | some prev => { s with next := Function.update linked prev (some currentHead) }
        | none => { s with sortedHead := some currentHead, next := linked }
      some { placed with
        it := s.next currentHead
        sortedTail := if placed.next currentHead = none then some currentHead else s.sortedTail }

section Pass

variable {cmp : α → α → Int} {item : Nat → α} {s : SortState} {c p steps : Nat} {stop : Option Nat}

theorem sortPass_first
    (found : seek s.next (fun q => decide (cmp (item c) (item q) < 0)) steps none s.sortedHead = some (none, stop)) :
    sortPass cmp item steps s c = some
      { it := s.next c
        sortedHead := some c
        sortedTail := if stop = none then some c else s.sortedTail
        next := Function.update s.next c stop } := by
  simp only [sortPass, found, Function.update_self]

theorem sortPass_behind (other : c ≠ p)
    (found : seek s.next (fun q => decide (cmp (item c) (item q) < 0)) steps none s.sortedHead =
      some (some p, stop)) :
    sortPass cmp item steps s c = some
      { it := s.next c
        sortedHead := s.sortedHead
        sortedTail := if stop = none then some c else s.sortedTail
        next := Function.update (Function.update s.next c stop) p (some c) } := by
  simp only [sortPass, found, Function.update_of_ne other, Function.update_self]

end Pass

def sortLoop (cmp : α → α → Int) (item : Nat → α) (steps : Nat) : Nat → SortState → Option SortState
  | 0, _ => none
  | fuel + 1, s =>
      match s.it with
      | none => some s
      | some currentHead => (sortPass cmp item steps s currentHead).bind (sortLoop cmp item steps fuel)

/-- `fuel` bounds the passes of each loop. -/
def sort2 (cmp : α → α → Int) (fuel : Nat) (l : CiList α) : Option (CiList α) :=
  match l.items with
  | none => some l
  | some first =>
      match l.next first with
      | none => some l
      | some _ => (sortLoop cmp l.item fuel fuel ⟨some first, none, none, l.next⟩).map (fun s =>
          { l with items := s.sortedHead, last := s.sortedTail, next := s.next })

/-- `ci_list_sort` -/
def sort (h : ListHandlers α) (fuel : Nat) (l : CiList α) : Option (CiList α) := sort2 h.cmp fuel l

/-- Whether an item may stand in front of another one. -/
def InOrder (cmp : α → α → Int) (item : Nat → α) (a b : Nat) : Prop := cmp (item a) (item b) ≤ 0

instance (cmp : α → α → Int) (item : Nat → α) : DecidableRel (InOrder cmp item) :=
  fun a b => inferInstanceAs (Decidable (cmp (item a) (item b) ≤ 0))

/-- The items sorted so far are a list that ends at `sortedTail`, those still to come are another one. -/
structure Sorting (s : SortState) (sorted rest : List Nat) : Prop where
  head : Chain s.next s.sortedHead sorted
  tail : s.sortedTail = sorted.getLast?
  it : Chain s.next s.it rest
  apart : ∀ a ∈ rest, a ∉ sorted

section Sorting

variable {cmp : α → α → Int} (order : TotalPreorder cmp) (item : Nat → α) {s : SortState} {sorted rest : List Nat}
  {c steps : Nat}
include order

theorem lt_iff (a b : Nat) : cmp (item a) (item b) < 0 ↔ ¬InOrder cmp item b a := by
  rw [order.flip, InOrder, Int.not_le]

/-- A pass inserts the item behind those it ties with. -/
theorem sortPass_spec (sorting : Sorting s sorted (c :: rest)) (enough : sorted.length < steps) :
    ∃ t, sortPass cmp item steps s c = some t ∧ Sorting t (insertLast (InOrder cmp item) c sorted) rest := by
  obtain ⟨x, y, rfl, misses, stop, found⟩ :=
    sorting.head.seek_split (fun q => decide (cmp (item c) (item q) < 0)) none enough
  have place : insertLast (InOrder cmp item) c (x ++ y) = x ++ c :: y := by
    refine insertLast_eq (fun b member => ?_) (fun b first => ?_)
    · exact not_not.mp (fun above => of_decide_eq_false (misses b member) ((lt_iff order item c b).mpr above))
    · exact (lt_iff order item c b).mp (of_decide_eq_true (stop b first))
  have fresh : c ∉ x ++ y := sorting.apart c List.mem_cons_self
  have unseen : c ∉ rest := (List.nodup_cons.mp sorting.it.nodup).1
  have apart : ∀ a ∈ rest, a ∉ x ++ c :: y := by
    intro a member
    rw [List.mem_append, List.mem_cons, or_left_comm, ← List.mem_append]
    rintro (rfl | old)
    · exact unseen member
    · exact sorting.apart a (List.mem_cons_of_mem _ member) old
  have tail : (if y.head? = none then some c else s.sortedTail) = (x ++ c :: y).getLast? := by
    rw [sorting.tail]
    cases y with
    | nil => simp
    | cons b y => simp
  rw [place]
  rcases List.eq_nil_or_concat' x with rfl | ⟨x, p, rfl⟩
  · have chain := sorting.head.push fresh
    rw [sorting.head.head] at chain
    exact ⟨_, sortPass_first found, chain, tail, Chain.update sorting.it.2 unseen _, apart⟩
  · have other : c ≠ p := by
      rintro rfl
      exact fresh (by simp)
    have unseen' : p ∉ rest := by
      intro member
      exact sorting.apart p (List.mem_cons_of_mem _ member) (by simp)
    rw [List.getLast?_concat] at found
    have head := sorting.head.update fresh y.head?
    rw [List.append_assoc] at head fresh
    have link : Function.update s.next c y.head? c = Function.update s.next c y.head? p := by
      rw [head.next_eq]
      exact Function.update_self _ _ _
    have chain := head.insert fresh link
    refine ⟨_, sortPass_behind other found, ?_, tail, ?_, apart⟩
    · rw [List.append_assoc]
      exact chain
    · exact Chain.update (Chain.update sorting.it.2 unseen _) unseen' _

theorem sortLoop_spec {fuel : Nat} (sorting : Sorting s sorted rest) (passes : rest.length < fuel)
    (enough : sorted.length + rest.length ≤ steps) :
    ∃ t, sortLoop cmp item steps fuel s = some t ∧
      Sorting t (rest.foldl (fun sorted a => insertLast (InOrder cmp item) a sorted) sorted) [] := by
  induction rest generalizing s sorted fuel with
  | nil =>
      cases fuel with
      | zero => cases passes
      | succ fuel =>
          refine ⟨s, ?_, sorting⟩
          rw [sortLoop, show s.it = none from sorting.it]
  | cons c rest ih =>
      cases fuel with
      | zero => cases passes
      | succ fuel =>
          rw [List.length_cons] at passes enough
          obtain ⟨t, pass, sorting'⟩ := sortPass_spec order item sorting (by omega : sorted.length < steps)
          have longer : (insertLast (InOrder cmp item) c sorted).length = (c :: sorted).length :=
            (insertLast_perm c sorted).length_eq
          rw [List.length_cons] at longer
          obtain ⟨u, result, finished⟩ := ih sorting' (by omega : rest.length < fuel) (by omega)
          refine ⟨u, ?_, finished⟩
          have stands : s.it = some c := sorting.it.1
          simp only [sortLoop, stands, pass, Option.bind_some]
          exact result

end Sorting

/-- The items are linked in an order that `cmp` allows; those that tie stand as before. -/
structure Rearranged (cmp : α → α → Int) (l l' : CiList α) (nodes sorted : List Nat) : Prop where
  chain : Chain l'.next l'.items sorted
  item : l'.item = l.item
  perm : sorted.Perm nodes
  ordered : sorted.Pairwise (fun a b => cmp (l.item a) (l.item b) ≤ 0)
  stable : ∀ c, sorted.filter (fun a => decide (cmp (l.item c) (l.item a) = 0)) =
    nodes.filter (fun a => decide (cmp (l.item c) (l.item a) = 0))

theorem tied_iff {cmp : α → α → Int} (order : TotalPreorder cmp) (item : Nat → α) (c : Nat) :
    tied (InOrder cmp item) c = fun a => decide (cmp (item c) (item a) = 0) := by
  funext a
  refine decide_eq_decide.mpr ⟨fun ⟨below, above⟩ => ?_, fun same => ?_⟩
  · have notless : ¬cmp (item c) (item a) < 0 := fun less => absurd ((order.flip _ _).mp less) (Int.not_lt.mpr above)
    exact Int.le_antisymm below (Int.not_lt.mp notless)
  · refine ⟨Int.le_of_eq same, Int.not_lt.mp (fun less => ?_)⟩
    have under := (order.flip _ _).mpr less
    rw [same] at under
    exact Int.lt_irrefl 0 under

/-- A list of at most one item is in order as it is. -/
theorem Rearranged.refl {cmp : α → α → Int} {l : CiList α} {nodes : List Nat} (chain : Chain l.next l.items nodes)
    (short : nodes.length ≤ 1) : Rearranged cmp l l nodes nodes := by
  refine ⟨chain, rfl, .refl _, ?_, fun _ => rfl⟩
  cases nodes with
  | nil => exact .nil
  | cons a rest =>
      have none : rest = [] := List.length_eq_zero_iff.mp (by rw [List.length_cons] at short; omega)
      rw [none]
      exact List.pairwise_singleton _ _

end CiList

open CiList

/-- `ci_list_sort2` ends and leaves the items sorted, those that tie in their order. `last` is right then, unless it
was wrong before and there was nothing to sort. -/
theorem list_sort2_last_iff {cmp : α → α → Int} (order : TotalPreorder cmp) (l : CiList α) {nodes : List Nat}
    (chain : Chain l.next l.items nodes) {fuel : Nat} (enough : nodes.length < fuel) :
    ∃ l' sorted, sort2 cmp fuel l = some l' ∧ Rearranged cmp l l' nodes sorted ∧
      (l'.last = sorted.getLast? ↔ 2 ≤ nodes.length ∨ l.last = nodes.getLast?) := by
  cases nodes with
  | nil =>
      have empty : l.items = none := chain
      refine ⟨l, [], by rw [sort2, empty], .refl chain (Nat.zero_le _), ?_⟩
      simp
  | cons a rest =>
      have first : l.items = some a := chain.1
      cases rest with
      | nil =>
          have only : l.next a = none := chain.2
          refine ⟨l, [a], by simp only [sort2, first, only], .refl chain (Nat.le_refl _), ?_⟩
          simp
      | cons b rest =>
          have more : l.next a = some b := chain.2.1
          rw [first] at chain
          have start : Sorting ⟨some a, none, none, l.next⟩ [] (a :: b :: rest) :=
            ⟨rfl, rfl, chain, fun _ _ => List.not_mem_nil⟩
          have steps : ([] : List Nat).length + (a :: b :: rest).length ≤ fuel := by
            rw [List.length_nil, Nat.zero_add]
            exact Nat.le_of_lt enough
          obtain ⟨t, result, finished⟩ := sortLoop_spec order l.item start enough steps
          have sorted : sort2 cmp fuel l = some { l with items := t.sortedHead, last := t.sortedTail, next := t.next } := by
            simp only [sort2, first, more, result, Option.map_some]
          have total : ∀ x y, InOrder cmp l.item x y ∨ InOrder cmp l.item y x := fun x y => order.total _ _
          have trans : ∀ x y z, InOrder cmp l.item x y → InOrder cmp l.item y z → InOrder cmp l.item x z :=
            fun x y z => order.trans _ _ _
          refine ⟨_, stableSort (InOrder cmp l.item) (a :: b :: rest), sorted,
            ⟨finished.head, rfl, stableSort_perm _, stableSort_sorted total trans _, fun c => ?_⟩, ?_⟩
          · rw [← tied_iff order]
            exact stableSort_stable total trans _ c
          · exact ⟨fun _ => .inl (by simp), fun _ => finished.tail⟩

theorem int_sub_preorder : TotalPreorder (fun a b : Int => a - b) where
  flip := fun a b => by omega
  trans := fun a b c => by omega

/-- Two elements that are out of order. -/
def outOfOrder : CiList Int where
  items := some 0
  last := some 1
  trash := none
  cursor := none
  next := fun a => if a = 0 then some 1 else none
  item := fun a => if a = 0 then 2 else 1
  allocated := 2

theorem list_sort2_last_iff_out_of_order :
    ∃ l' sorted, sort2 (fun a b : Int => a - b) 3 outOfOrder = some l' ∧
      Rearranged (fun a b : Int => a - b) outOfOrder l' [0, 1] sorted ∧
      (l'.last = sorted.getLast? ↔ 2 ≤ [0, 1].length ∨ outOfOrder.last = [0, 1].getLast?) :=
  list_sort2_last_iff int_sub_preorder outOfOrder
    (show Chain outOfOrder.next outOfOrder.items [0, 1] from ⟨rfl, rfl, rfl⟩) (by decide)

/-- The second of two elements is removed, and the list of one element is sorted: `last` leads to the removed one. -/
theorem sort_keeps_stale_last :
    ∃ r l', ([.pushBack 1 true, .pushBack 2 true, .remove 2] : List (ListOp Int)).foldlM
        (ListRun.step ⟨fun a b => a - b, id, id⟩) (ListRun.create fun _ => 0) = some r ∧
      sort2 (fun a b => a - b) 2 r.list = some l' ∧
      ∀ sorted, Chain l'.next l'.items sorted → l'.last ≠ sorted.getLast? := by
  refine ⟨_, _, rfl, rfl, fun sorted chain => ?_⟩
  have only : sorted = [0] := chain.unique ⟨rfl, rfl⟩
  rw [only]
  exact (by decide : some 1 ≠ some 0)

end IcapService
