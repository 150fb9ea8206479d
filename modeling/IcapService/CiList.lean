import Mathlib.Logic.Function.Basic
import IcapService.Lib.Linked

/-! The lists of `array.c`.

A pointer to a `ci_list_item_t` is the number of the item. The items of a list are never given back to its
allocator, a removed one goes to the trash. What would follow a NULL pointer or fail an assertion has no result. -/

namespace IcapService

open Linked

/-- The functions of a list. `copy` is `memcpy` and `copy_func` together; a list of pointers calls neither `copy`
nor `free`, and they change nothing there. -/
structure ListHandlers (α : Type) where
  cmp : α → α → Int
  copy : α → α
  free : α → α

/-- A `ci_list_t`, with the items its allocator has given it: those below `allocated`. -/
structure CiList (α : Type) where
  items : Option Nat
  last : Option Nat
  trash : Option Nat
  cursor : Option Nat
  next : Nat → Option Nat
  item : Nat → α
  allocated : Nat

/-- What a call gives back: an object or NULL, or whether something was removed. -/
inductive ListAnswer (α : Type) where
  | object (o : Option α)
  | removed (found : Bool)
  deriving DecidableEq, Repr

variable {α : Type}

namespace CiList

/-- `ci_list_create`; `memory` is what the memory of the items holds before they are written. -/
def create (memory : Nat → α) : CiList α where
  items := none
  last := none
  trash := none
  cursor := none
  next := fun _ => none
  item := memory
  allocated := 0

/-- `list_alloc_item`; `room` is whether the allocator has an item left. -/
def allocItem (h : ListHandlers α) (room : Bool) (l : CiList α) (data : α) : Option (Nat × CiList α) :=
  match l.trash with
  | some it => some (it, { l with
      trash := l.next it
      next := Function.update l.next it none
      item := Function.update l.item it (h.copy data) })
  | none =>
      if room then
        some (l.allocated, { l with
          allocated := l.allocated + 1
          next := Function.update l.next l.allocated none
          item := Function.update l.item l.allocated (h.copy data) })
      else none

def push (h : ListHandlers α) (room : Bool) (l : CiList α) (data : α) : CiList α × Option α :=
  match allocItem h room l data with
  | none => (l, none)
  | some (it, l) =>
      match l.items with
      | some first => ({ l with next := Function.update l.next it (some first), items := some it }, some (l.item it))
      | none => ({ l with items := some it, last := some it }, some (l.item it))

def pushBack (h : ListHandlers α) (room : Bool) (l : CiList α) (data : α) : CiList α × Option α :=
  match allocItem h room l data with
  | none => (l, none)
  | some (it, l) =>
      match l.last with
      | some last => ({ l with next := Function.update l.next last (some it), last := some it }, some (l.item it))
      | none => ({ l with items := some it, last := some it }, some (l.item it))

section Added

variable {h : ListHandlers α} {room : Bool} {l m : CiList α} {data : α} {it a : Nat}

theorem push_empty (got : allocItem h room l data = some (it, m)) (first : m.items = none) :
    push h room l data = ({ m with items := some it, last := some it }, some (m.item it)) := by
  simp only [push, got, first]

theorem push_front (got : allocItem h room l data = some (it, m)) (first : m.items = some a) :
    push h room l data =
      ({ m with next := Function.update m.next it (some a), items := some it }, some (m.item it)) := by
  simp only [push, got, first]

theorem pushBack_empty (got : allocItem h room l data = some (it, m)) (last : m.last = none) :
    pushBack h room l data = ({ m with items := some it, last := some it }, some (m.item it)) := by
  simp only [pushBack, got, last]

theorem pushBack_behind (got : allocItem h room l data = some (it, m)) (last : m.last = some a) :
    pushBack h room l data =
      ({ m with next := Function.update m.next a (some it), last := some it }, some (m.item it)) := by
  simp only [pushBack, got, last]

end Added

/-- An item that was taken off goes to the trash, and what it held is freed. -/
def discard (h : ListHandlers α) (l : CiList α) (it : Nat) : CiList α :=
  { l with
    next := Function.update l.next it l.trash
    trash := some it
    item := Function.update l.item it (h.free (l.item it)) }

def pop (h : ListHandlers α) (l : CiList α) : CiList α × Option α :=
  match l.items with
  | none => (l, none)
  | some it =>
      let taken :=
        if l.last = l.items then { l with last := none, items := none, cursor := none }
        else { l with cursor := if l.cursor = l.items then l.next it else l.cursor, items := l.next it }
      (discard h taken it, some (h.copy (l.item it)))

section Popped

variable (h : ListHandlers α) {l : CiList α} {it : Nat}

theorem pop_only (first : l.items = some it) (last : l.last = some it) :
    pop h l = (discard h { l with last := none, items := none, cursor := none } it, some (h.copy (l.item it))) := by
  simp only [pop, first, last, if_true]

theorem pop_first (first : l.items = some it) (last : l.last ≠ some it) :
    pop h l = (discard h
      { l with cursor := if l.cursor = some it then l.next it else l.cursor, items := l.next it } it,
      some (h.copy (l.item it))) := by
  simp only [pop, first, last, if_false]

end Popped

/-- No walk along a list meets more items than were allocated. -/
def steps (l : CiList α) : Nat := l.allocated + 1

def popBack (h : ListHandlers α) (l : CiList α) : Option (CiList α × Option α) :=
  match l.items with
  | none => some (l, none)
  | some _ =>
      if l.last = l.items then
        l.last.map (fun it => (discard h { l with last := none, items := none, cursor := none } it,
          some (h.copy (l.item it))))
      else
        let cursor := if l.cursor = l.last then none else l.cursor
        -- the assertion is that the loop has found the item in front of the last one
        match seek l.next (fun tmp => decide (l.next tmp = l.last)) l.steps none l.items, l.last with
        | some (_, some tmp), some it =>
            some (discard h { l with cursor := cursor, last := some tmp, next := Function.update l.next tmp none } it,
              some (h.copy (l.item it)))
        | _, _ => none

theorem popBack_behind (h : ListHandlers α) {l : CiList α} {it tmp a : Nat} {prev : Option Nat}
    (first : l.items = some a) (last : l.last = some it) (other : l.last ≠ l.items)
    (found : seek l.next (fun tmp => decide (l.next tmp = l.last)) l.steps none l.items = some (prev, some tmp)) :
    popBack h l = some (discard h { l with
      cursor := if l.cursor = some it then none else l.cursor
      last := some tmp
      next := Function.update l.next tmp none } it, some (h.copy (l.item it))) := by
  rw [last, first] at found other
  simp only [popBack, first, last, if_neg other, found]

/-- Whether `cmp_func` takes an item for the object. -/
def same (h : ListHandlers α) (obj a : α) : Bool := h.cmp a obj == 0

/-- `last` is not looked at. -/
def remove (h : ListHandlers α) (l : CiList α) (obj : α) : Option (CiList α × Bool) :=
  match seek l.next (fun it => same h obj (l.item it)) l.steps none l.items with
  | none => none
  | some (_, none) => some (l, false)
  | some (prev, some it) =>
      let unlinked : CiList α :=
        match prev with
        | some prev => { l with next := Function.update l.next prev (l.next it) }
        | none => { l with items := l.next it }
      let moved : CiList α := { unlinked with cursor := if l.cursor = some it then unlinked.next it else l.cursor }
      some (discard h moved it, true)

section Removed

variable {h : ListHandlers α} {l : CiList α} {obj : α} {p it : Nat}

theorem remove_first
    (found : seek l.next (fun it => same h obj (l.item it)) l.steps none l.items = some (none, some it)) :
    remove h l obj = some (discard h
      { l with items := l.next it, cursor := if l.cursor = some it then l.next it else l.cursor } it, true) := by
  simp only [remove, found]

theorem remove_behind
    (found : seek l.next (fun it => same h obj (l.item it)) l.steps none l.items = some (some p, some it)) :
    remove h l obj = some (discard h { l with
      next := Function.update l.next p (l.next it)
      cursor := if l.cursor = some it then Function.update l.next p (l.next it) it else l.cursor } it, true) := by
  simp only [remove, found]

end Removed

def search (h : ListHandlers α) (l : CiList α) (data : α) : Option (Option α) :=
  match seek l.next (fun it => same h data (l.item it)) l.steps none l.items with
  | none => none
  | some (_, it) => some (it.map l.item)

/-- The items reached from `items`. -/
def nodes (l : CiList α) : List Nat := walk l.next l.allocated l.items

end CiList

/-- A call, or a part of one: `iterate` is the start of `ci_list_iterate`, `visit` a pass of its loop up to the call
of `fn`. What `fn` does follows as calls of their own. -/
inductive ListOp (α : Type) where
  | push (data : α) (room : Bool)
  | pushBack (data : α) (room : Bool)
  | pop
  | popBack
  | remove (obj : α)
  | search (data : α)
  | iterate
  | visit
  deriving DecidableEq, Repr

/-- A list in use: what was answered, which items have stayed since the iteration began, and which it has visited. -/
structure ListRun (α : Type) where
  list : CiList α
  answers : List (ListAnswer α)
  stay : List Nat
  visited : List Nat

namespace ListRun

def create (memory : Nat → α) : ListRun α := ⟨CiList.create memory, [], [], []⟩

/-- The list is changed by a call, and the items it has taken off have not stayed. -/
def change (r : ListRun α) (l : CiList α) (answer : ListAnswer α) : ListRun α :=
  ⟨l, r.answers ++ [answer], r.stay.filter (fun a => decide (a ∈ l.nodes)), r.visited⟩

def step (h : ListHandlers α) (r : ListRun α) : ListOp α → Option (ListRun α)
  | .push data room => some (r.change (r.list.push h room data).1 (.object (r.list.push h room data).2))
  | .pushBack data room => some (r.change (r.list.pushBack h room data).1 (.object (r.list.pushBack h room data).2))
  | .pop => some (r.change (r.list.pop h).1 (.object (r.list.pop h).2))
  | .popBack => (r.list.popBack h).map (fun out => r.change out.1 (.object out.2))
  | .remove obj => (r.list.remove h obj).map (fun out => r.change out.1 (.removed out.2))
  | .search data => (r.list.search h data).map (fun found => r.change r.list (.object found))
  | .iterate => some { r with list := { r.list with cursor := r.list.items }, stay := r.list.nodes, visited := [] }
  | .visit =>
      match r.list.cursor with
      | none => some r
      | some it => some { r with list := { r.list with cursor := r.list.next it }, visited := r.visited ++ [it] }

end ListRun

end IcapService
