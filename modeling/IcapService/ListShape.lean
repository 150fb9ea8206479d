import Mathlib.Data.List.Perm.Subperm
import IcapService.CiList

/-! What the calls on a list of `array.c` do to its items.

The cursor splits the items into those in front of it and those it has still to visit. Every call keeps the split; what
a call may lose is `last`, which `ci_list_remove` does not set. -/

namespace IcapService

open Linked

variable {α : Type}

namespace CiList

/-- The items on the list, split at the cursor, those on the trash, and what the list holds. -/
structure Shape (l : CiList α) (front back trash : List Nat) (held : List α) : Prop where
  chain : Chain l.next l.items (front ++ back)
  cursor : l.cursor = back.head?
  spare : Chain l.next l.trash trash
  apart : ∀ a ∈ front ++ back, a ∉ trash
  bound : ∀ a ∈ front ++ back ++ trash, a < l.allocated
  holds : (front ++ back).map l.item = held

/-- What is still on the list is on the same side of the cursor. -/
def Follows (front back front' back' : List Nat) : Prop :=
  ∀ a ∈ front ++ back, (a ∈ front' → a ∈ front) ∧ (a ∈ back' → a ∈ back)

theorem Follows.refl (front back : List Nat) : Follows front back front back :=
  fun _ _ => ⟨id, id⟩

variable {l : CiList α} {front back trash : List Nat} {held : List α} {h : ListHandlers α}

theorem Shape.length_le (shape : Shape l front back trash held) : (front ++ back).length ≤ l.allocated := by
  have inside : front ++ back ⊆ List.range l.allocated := by
    intro a member
    exact List.mem_range.mpr (shape.bound a (List.mem_append_left _ member))
  calc (front ++ back).length ≤ (List.range l.allocated).length :=
        (List.subperm_of_subset shape.chain.nodup inside).length_le
    _ = l.allocated := List.length_range

theorem Shape.nodes (shape : Shape l front back trash held) : l.nodes = front ++ back :=
  shape.chain.walk shape.length_le

theorem Shape.enough (shape : Shape l front back trash held) : (front ++ back).length < l.steps :=
  Nat.lt_succ_of_le shape.length_le

/-- A loose item is discarded. -/
theorem Shape.discard (shape : Shape l front back trash held) {it : Nat} (off : it ∉ front ++ back)
    (loose : it ∉ trash) (given : it < l.allocated) : Shape (discard h l it) front back (it :: trash) held where
  chain := shape.chain.update off _
  cursor := shape.cursor
  spare := shape.spare.push loose
  apart := by
    intro a member
    rw [List.mem_cons]
    rintro (rfl | trashed)
    · exact off member
    · exact shape.apart a member trashed
  bound := by
    intro a member
    rcases List.mem_append.mp member with on | trashed
    · exact shape.bound a (List.mem_append_left _ on)
    · rcases List.mem_cons.mp trashed with rfl | trashed
      · exact given
      · exact shape.bound a (List.mem_append_right _ trashed)
  holds := by
    rw [← shape.holds]
    refine List.map_congr_left (fun a member => Function.update_of_ne ?_ _ _)
    rintro rfl
    exact off member

/-- The split of a list at one of its items falls into one of the sides of another split. -/
theorem split_sides {front back before behind : List Nat} {it : Nat}
    (split : front ++ back = before ++ it :: behind) :
    (∃ rest, front = before ++ it :: rest ∧ behind = rest ++ back) ∨
      ∃ rest, before = front ++ rest ∧ back = rest ++ it :: behind := by
  rcases List.append_eq_append_iff.mp split with ⟨rest, head, tail⟩ | ⟨rest, head, tail⟩
  · exact .inr ⟨rest, head, tail⟩
  · cases rest with
    | nil => exact .inr ⟨[], by simpa using head.symm, by simpa using tail.symm⟩
    | cons a rest =>
        obtain ⟨rfl, rfl⟩ := List.cons_eq_cons.mp tail
        exact .inl ⟨rest, head, rfl⟩

/-- An item is taken out of the list and discarded. The cursor moves on when it stood there. -/
theorem Shape.unlink (shape : Shape l front back trash held) (h : ListHandlers α) {before behind : List Nat} {it : Nat}
    (split : front ++ back = before ++ it :: behind) (l' : CiList α)
    (chain : Chain l'.next l'.items (before ++ behind))
    (cursor : l'.cursor = if l.cursor = some it then behind.head? else l.cursor)
    (spare : Chain l'.next l'.trash trash) (items : l'.item = l.item) (count : l'.allocated = l.allocated) :
    ∃ front' back', front' ++ back' = before ++ behind ∧
      Shape (CiList.discard h l' it) front' back' (it :: trash) ((before ++ behind).map l.item) ∧
      Follows front back front' back' := by
  have nodup : (before ++ it :: behind).Nodup := split ▸ shape.chain.nodup
  have off : it ∉ before ++ behind := (List.nodup_cons.mp (List.nodup_middle.mp nodup)).1
  have on : it ∈ front ++ back := by
    rw [split]
    exact List.mem_append_right _ List.mem_cons_self
  have given : it < l'.allocated := count ▸ shape.bound it (List.mem_append_left _ on)
  have kept : ∀ a ∈ before ++ behind, a ∈ front ++ back := by
    intro a member
    rw [split]
    rcases List.mem_append.mp member with member | member
    · exact List.mem_append_left _ member
    · exact List.mem_append_right _ (List.mem_cons_of_mem _ member)
  -- the two lists are the parts of the old ones without the item
  have rest : ∀ front' back', front' ++ back' = before ++ behind → l'.cursor = back'.head? →
      Shape (CiList.discard h l' it) front' back' (it :: trash) ((before ++ behind).map l.item) := by
    intro front' back' same stands
    refine Shape.discard ⟨same ▸ chain, stands, spare, ?_, ?_, by rw [same, items]⟩ (same ▸ off)
      (shape.apart it on) given
    · intro a member
      exact shape.apart a (kept a (same ▸ member))
    · intro a member
      rw [count]
      rcases List.mem_append.mp member with member | member
      · exact shape.bound a (List.mem_append_left _ (kept a (same ▸ member)))
      · exact shape.bound a (List.mem_append_right _ member)
  rcases split_sides split with ⟨tail, rfl, rfl⟩ | ⟨tail, rfl, rfl⟩
  · have elsewhere : l.cursor ≠ some it := by
      intro here
      rw [shape.cursor] at here
      exact off (List.mem_append_right _ (List.mem_append_right _ (List.mem_of_mem_head? here)))
    rw [if_neg elsewhere, shape.cursor] at cursor
    refine ⟨before ++ tail, back, by simp, rest _ _ (by simp) cursor, ?_⟩
    intro a _
    refine ⟨fun member => ?_, id⟩
    rcases List.mem_append.mp member with member | member
    · exact List.mem_append_left _ member
    · exact List.mem_append_right _ (List.mem_cons_of_mem _ member)
  · have stands : l'.cursor = (tail ++ behind).head? := by
      rw [cursor, shape.cursor]
      cases tail with
      | nil => exact if_pos rfl
      | cons c tail =>
          refine if_neg ?_
          rintro ⟨⟩
          exact off (by simp)
    refine ⟨front, tail ++ behind, by simp, rest _ _ (by simp) stands, ?_⟩
    intro a _
    refine ⟨id, fun member => ?_⟩
    rcases List.mem_append.mp member with member | member
    · exact List.mem_append_left _ member
    · exact List.mem_append_right _ (List.mem_cons_of_mem _ member)

/-- An item that was allocated and is not linked yet. -/
structure Loose (l : CiList α) (front back trash : List Nat) (it : Nat) (value : α) : Prop where
  off : it ∉ front ++ back
  loose : it ∉ trash
  given : it < l.allocated
  next : l.next it = none
  item : l.item it = value

theorem Shape.ne_of_loose {it : Nat} {value : α} (loose : Loose l front back trash it value) {a : Nat}
    (on : a ∈ front ++ back) : a ≠ it := by
  rintro rfl
  exact loose.off on

theorem allocItem_spec (h : ListHandlers α) (shape : Shape l front back trash held) (room : Bool) (data : α) :
    (allocItem h room l data = none ∧ trash.length = 0 ∧ room = false) ∨
      ∃ it l' trash', allocItem h room l data = some (it, l') ∧ (0 < trash.length ∨ room = true) ∧
        trash'.length = trash.length - 1 ∧ l'.last = l.last ∧ Shape l' front back trash' held ∧
        Loose l' front back trash' it (h.copy data) := by
  have unwritten : ∀ (it : Nat) (value : α), it ∉ front ++ back →
      (front ++ back).map (Function.update l.item it value) = held := by
    intro it value off
    rw [← shape.holds]
    refine List.map_congr_left (fun a member => Function.update_of_ne ?_ _ _)
    rintro rfl
    exact off member
  unfold allocItem
  cases top : l.trash with
  | some it =>
      have spare := shape.spare
      rw [top] at spare
      obtain ⟨trash', rfl, rest⟩ := spare.cons_of_some
      have fresh : it ∉ trash' := (List.nodup_cons.mp spare.nodup).1
      have off : it ∉ front ++ back := fun on => shape.apart it on List.mem_cons_self
      have given : it < l.allocated := shape.bound it (List.mem_append_right _ List.mem_cons_self)
      refine .inr ⟨it, _, trash', rfl, .inl (Nat.zero_lt_succ _), rfl, rfl, ?_, ?_⟩
      · refine ⟨shape.chain.update off _, shape.cursor, rest.update fresh _, ?_, ?_, unwritten it _ off⟩
        · intro a on trashed
          exact shape.apart a on (List.mem_cons_of_mem _ trashed)
        · intro a member
          apply shape.bound a
          rcases List.mem_append.mp member with on | trashed
          · exact List.mem_append_left _ on
          · exact List.mem_append_right _ (List.mem_cons_of_mem _ trashed)
      · exact ⟨off, fresh, given, Function.update_self _ _ _, Function.update_self _ _ _⟩
  | none =>
      have empty : trash = [] := by
        have spare := shape.spare
        rw [top] at spare
        exact spare.nil_of_none
      subst empty
      cases room with
      | false => exact .inl ⟨rfl, rfl, rfl⟩
      | true =>
          have off : l.allocated ∉ front ++ back := by
            intro on
            exact Nat.lt_irrefl _ (shape.bound _ (List.mem_append_left _ on))
          refine .inr ⟨l.allocated, _, [], rfl, .inr rfl, rfl, rfl, ?_, ?_⟩
          · refine ⟨shape.chain.update off _, shape.cursor, rfl, fun _ _ => List.not_mem_nil, ?_,
              unwritten _ _ off⟩
            intro a member
            exact Nat.lt_succ_of_lt (shape.bound a member)
          · exact ⟨off, List.not_mem_nil, Nat.lt_succ_self _, Function.update_self _ _ _, Function.update_self _ _ _⟩

/-- What a call leaves of a list that was split at the cursor: what the list holds then, and how many items are on the
trash. -/
def After (front back : List Nat) (l : CiList α) (held : List α) (spare : Nat) : Prop :=
  ∃ front' back' trash', Shape l front' back' trash' held ∧ l.last = (front' ++ back').getLast? ∧
    trash'.length = spare ∧ Follows front back front' back'

/-- A new item is linked in, at the place where the lists say. -/
theorem Shape.link (shape : Shape l front back trash held) {it : Nat} {value : α}
    (loose : Loose l front back trash it value) {l' : CiList α} {front' back' : List Nat} {held' : List α}
    (chain : Chain l'.next l'.items (front' ++ back')) (cursor : l'.cursor = back'.head?)
    (member : ∀ a, a ∈ front' ++ back' → a = it ∨ a ∈ front ++ back) (spare : Chain l'.next l'.trash trash)
    (count : l'.allocated = l.allocated) (holds : (front' ++ back').map l'.item = held') :
    Shape l' front' back' trash held' where
  chain := chain
  cursor := cursor
  spare := spare
  apart := by
    intro a on
    rcases member a on with rfl | old
    · exact loose.loose
    · exact shape.apart a old
  bound := by
    intro a on
    rw [count]
    rcases List.mem_append.mp on with on | trashed
    · rcases member a on with rfl | old
      · exact loose.given
      · exact shape.bound a (List.mem_append_left _ old)
    · exact shape.bound a (List.mem_append_right _ trashed)
  holds := holds

theorem push_spec (h : ListHandlers α) (shape : Shape l front back trash held)
    (last : l.last = (front ++ back).getLast?) (room : Bool) (data : α) :
    (push h room l data = (l, none) ∧ trash.length = 0 ∧ room = false) ∨
      (0 < trash.length ∨ room = true) ∧ (push h room l data).2 = some (h.copy data) ∧
        After front back (push h room l data).1 (h.copy data :: held) (trash.length - 1) := by
  rcases allocItem_spec h shape room data with
    ⟨full, none, no⟩ | ⟨it, m, trash', got, fits, count, same, shape, loose⟩
  · refine .inl ⟨?_, none, no⟩
    rw [push, full]
  · right
    have holds : (it :: front ++ back).map m.item = h.copy data :: held := by
      rw [List.cons_append, List.map_cons, shape.holds, loose.item]
    have follows : Follows front back (it :: front) back := by
      intro a on
      refine ⟨fun member => ?_, id⟩
      exact (List.mem_cons.mp member).resolve_left (Shape.ne_of_loose loose on)
    have member : ∀ a, a ∈ it :: front ++ back → a = it ∨ a ∈ front ++ back := fun a on => List.mem_cons.mp on
    refine ⟨fits, ?_⟩
    cases first : m.items with
    | none =>
        have chain := shape.chain
        rw [first] at chain
        have empty := chain.nil_of_none
        obtain ⟨rfl, rfl⟩ := List.append_eq_nil_iff.mp empty
        rw [push_empty got first]
        refine ⟨congrArg some loose.item, [it], [], trash', ?_, rfl, count, follows⟩
        exact shape.link loose ⟨rfl, loose.next⟩ shape.cursor member shape.spare rfl holds
    | some a =>
        rw [push_front got first]
        refine ⟨congrArg some loose.item, it :: front, back, trash', ?_, ?_, count, follows⟩
        · have chain := shape.chain.push loose.off
          rw [first] at chain
          exact shape.link loose chain shape.cursor member (shape.spare.update loose.loose _) rfl holds
        · have filled : front ++ back ≠ [] := by
            intro empty
            have chain := shape.chain
            rw [empty, first] at chain
            cases chain
          calc m.last = (front ++ back).getLast? := same.trans last
            _ = (it :: front ++ back).getLast? := by
              rw [List.cons_append, List.getLast?_cons, List.getLast?_eq_some_getLast filled]
              rfl

theorem pushBack_spec (h : ListHandlers α) (shape : Shape l front back trash held)
    (last : l.last = (front ++ back).getLast?) (room : Bool) (data : α) :
    (pushBack h room l data = (l, none) ∧ trash.length = 0 ∧ room = false) ∨
      (0 < trash.length ∨ room = true) ∧ (pushBack h room l data).2 = some (h.copy data) ∧
        After front back (pushBack h room l data).1 (held ++ [h.copy data]) (trash.length - 1) := by
  rcases allocItem_spec h shape room data with
    ⟨full, none, no⟩ | ⟨it, m, trash', got, fits, count, same, shape, loose⟩
  · refine .inl ⟨?_, none, no⟩
    rw [pushBack, full]
  · refine .inr ⟨fits, ?_⟩
    rcases List.eq_nil_or_concat' (front ++ back) with empty | ⟨before, e, split⟩
    · obtain ⟨rfl, rfl⟩ := List.append_eq_nil_iff.mp empty
      rw [pushBack_empty got (same.trans last)]
      refine ⟨congrArg some loose.item, [it], [], trash', ?_, rfl, count, ?_⟩
      · refine shape.link loose ⟨rfl, loose.next⟩ shape.cursor (fun a on => .inl (List.mem_singleton.mp on))
          shape.spare rfl ?_
        rw [← shape.holds, ← loose.item]
        rfl
      · intro a on
        cases on
    · have ends : m.last = some e := by
        rw [same, last, split]
        exact List.getLast?_concat
      rw [pushBack_behind got ends]
      have off := split ▸ loose.off
      have chain : Chain (Function.update m.next e (some it)) m.items (front ++ back ++ [it]) := by
        rw [split, List.append_assoc]
        refine Chain.insert (split ▸ shape.chain) off ?_
        rw [loose.next]
        exact (Chain.link_last (split ▸ shape.chain)).symm
      have spare : Chain (Function.update m.next e (some it)) m.trash trash' := by
        refine shape.spare.update (shape.apart e ?_) _
        rw [split]
        exact List.mem_append_right _ List.mem_cons_self
      have holds : (front ++ back ++ [it]).map m.item = held ++ [h.copy data] := by
        rw [List.map_append, shape.holds, List.map_singleton, loose.item]
      refine ⟨congrArg some loose.item, ?_⟩
      cases back with
      | nil =>
          rw [List.append_nil] at chain holds
          refine ⟨front ++ [it], [], trash', ?_, by simp, count, ?_⟩
          · refine shape.link loose (by simpa using chain) shape.cursor ?_ spare rfl (by simpa using holds)
            intro a on
            simpa [or_comm] using on
          · intro a on
            refine ⟨fun member => ?_, fun member => ?_⟩
            · simpa [Shape.ne_of_loose loose on] using member
            · cases member
      | cons b back =>
          refine ⟨front, b :: back ++ [it], trash', ?_, ?_, count, ?_⟩
          · refine shape.link loose (by simpa using chain) shape.cursor ?_ spare rfl (by simpa using holds)
            intro a on
            simp only [List.mem_append, List.mem_cons, List.not_mem_nil, or_false] at on ⊢
            tauto
          · rw [← List.append_assoc]
            exact List.getLast?_concat.symm
          · intro a on
            refine ⟨id, fun member => ?_⟩
            simpa [Shape.ne_of_loose loose on] using member

theorem Shape.cursor_on (shape : Shape l front back trash held) {it : Nat} (here : l.cursor = some it) :
    it ∈ front ++ back := by
  rw [shape.cursor] at here
  exact List.mem_append_right _ (List.mem_of_mem_head? here)

/-- On a list of one item the cursor stands there or nowhere. -/
theorem Shape.cursor_only (shape : Shape l front back trash held) {it : Nat} (only : front ++ back = [it]) :
    none = if l.cursor = some it then none else l.cursor := by
  split
  · rfl
  · rename_i elsewhere
    cases stands : l.cursor with
    | none => rfl
    | some a =>
        have on := shape.cursor_on stands
        rw [only] at on
        rw [List.mem_singleton.mp on] at stands
        exact absurd stands elsewhere

/-- The item that is taken off a list with one item, when the list was emptied. -/
theorem Shape.unlink_only (shape : Shape l front back trash held) (h : ListHandlers α) {it : Nat} (only : front ++ back = [it]) :
    After front back (CiList.discard h { l with last := none, items := none, cursor := none } it) []
      (trash.length + 1) := by
  let l' : CiList α := { l with last := none, items := none, cursor := none }
  have chain : Chain l'.next l'.items ([] ++ []) := rfl
  obtain ⟨front', back', same, shape', follows⟩ :=
    shape.unlink h (show front ++ back = [] ++ it :: [] from only) l' chain (shape.cursor_only only) shape.spare rfl rfl
  exact ⟨front', back', it :: trash, shape', by rw [same]; rfl, rfl, follows⟩

theorem pop_spec (h : ListHandlers α) (shape : Shape l front back trash held)
    (last : l.last = (front ++ back).getLast?) :
    (held = [] ∧ pop h l = (l, none)) ∨
      ∃ a rest, held = a :: rest ∧ (pop h l).2 = some (h.copy a) ∧
        After front back (pop h l).1 rest (trash.length + 1) := by
  have chain := shape.chain
  cases first : l.items with
  | none =>
      rw [first] at chain
      have empty := chain.nil_of_none
      refine .inl ⟨by rw [← shape.holds, empty, List.map_nil], ?_⟩
      rw [pop, first]
  | some it =>
      rw [first] at chain
      obtain ⟨behind, split, rest⟩ := chain.cons_of_some
      have holds : held = l.item it :: behind.map l.item := by rw [← shape.holds, split, List.map_cons]
      rw [split] at chain last
      refine .inr ⟨_, _, holds, ?_⟩
      cases behind with
      | nil =>
          rw [pop_only h first last]
          exact ⟨rfl, shape.unlink_only h split⟩
      | cons b behind =>
          have more : l.last = (b :: behind).getLast? := last.trans List.getLast?_cons_cons
          have other : l.last ≠ some it := by
            intro same
            have member := List.mem_of_getLast? (more.symm.trans same)
            exact (List.nodup_cons.mp chain.nodup).1 member
          rw [pop_first h first other]
          have moved : (if l.cursor = some it then l.next it else l.cursor) =
              if l.cursor = some it then (b :: behind).head? else l.cursor := by
            rw [rest.head]
          obtain ⟨front', back', same, shape', follows⟩ :=
            shape.unlink h (show front ++ back = [] ++ it :: b :: behind from split)
              { l with cursor := if l.cursor = some it then l.next it else l.cursor, items := l.next it }
              rest moved shape.spare rfl rfl
          exact ⟨rfl, front', back', it :: trash, shape', by rw [same]; exact more, rfl, follows⟩

theorem popBack_spec (h : ListHandlers α) (shape : Shape l front back trash held)
    (last : l.last = (front ++ back).getLast?) :
    (held = [] ∧ popBack h l = some (l, none)) ∨
      ∃ rest a l', held = rest ++ [a] ∧ popBack h l = some (l', some (h.copy a)) ∧
        After front back l' rest (trash.length + 1) := by
  have chain := shape.chain
  rcases List.eq_nil_or_concat' (front ++ back) with empty | ⟨before, it, split⟩
  · rw [empty] at chain
    refine .inl ⟨by rw [← shape.holds, empty, List.map_nil], ?_⟩
    rw [popBack, show l.items = none from chain]
  · rw [split] at chain last
    rw [List.getLast?_concat] at last
    have holds : held = before.map l.item ++ [l.item it] := by
      rw [← shape.holds, split, List.map_append, List.map_singleton]
    rcases List.eq_nil_or_concat' before with rfl | ⟨front', tmp, rfl⟩
    · have first : l.items = some it := chain.1
      refine .inr ⟨_, _, _, holds, ?_, shape.unlink_only h split⟩
      simp only [popBack, first, last, if_true, Option.map_some]
    · have apart : it ∉ front' ++ [tmp] := by
        have nodup := List.nodup_middle.mp chain.nodup
        rw [List.append_nil] at nodup
        exact (List.nodup_cons.mp nodup).1
      obtain ⟨a, on, first⟩ : ∃ a ∈ front' ++ [tmp], l.items = some a := by
        rw [chain.head]
        cases front' with
        | nil => exact ⟨tmp, List.mem_singleton_self _, rfl⟩
        | cons c front' => exact ⟨c, List.mem_cons_self, rfl⟩
      have other : l.last ≠ l.items := by
        intro same
        rw [last, first] at same
        cases same
        exact apart on
      rw [List.append_assoc] at chain split
      have hits : decide (l.next tmp = l.last) = true := by
        rw [chain.next_eq, last]
        exact decide_eq_true rfl
      have misses : ∀ b ∈ front', decide (l.next b = l.last) = false := by
        intro b member
        obtain ⟨x, y, rfl⟩ := List.append_of_mem member
        rw [List.append_assoc] at chain
        rw [chain.next_eq, last]
        refine decide_eq_false (fun same => apart ?_)
        cases y with
        | nil =>
            cases same
            simp
        | cons c y =>
            cases same
            simp
      have enough : front'.length < l.steps := by
        have whole := shape.enough
        rw [split, List.length_append] at whole
        exact Nat.lt_of_le_of_lt (Nat.le_add_right _ _) whole
      have found := chain.seek_hit none misses hits enough
      have cut : Chain (Function.update l.next tmp none) l.items (front' ++ [tmp] ++ []) := by
        have ends : l.next it = none :=
          Chain.link_last (show Chain l.next l.items (front' ++ [tmp] ++ [it]) by simpa using chain)
        have short := Chain.cut chain
        rw [ends] at short
        simpa using short
      have spare : Chain (Function.update l.next tmp none) l.trash trash := by
        refine shape.spare.update (shape.apart tmp ?_) _
        rw [split]
        simp
      obtain ⟨front₁, back₁, same, shape', follows⟩ :=
        shape.unlink h (show front ++ back = front' ++ [tmp] ++ it :: [] by simpa using split)
          { l with
            cursor := if l.cursor = some it then none else l.cursor
            last := some tmp
            next := Function.update l.next tmp none }
          cut rfl spare rfl rfl
      rw [List.append_nil] at same shape'
      refine .inr ⟨_, _, _, holds, popBack_behind h first last other found, front₁, back₁, it :: trash, shape', ?_, rfl,
        follows⟩
      rw [same]
      exact List.getLast?_concat.symm

theorem search_spec (h : ListHandlers α) (shape : Shape l front back trash held) (data : α) :
    search h l data = some (held.find? (same h data)) := by
  have found : held.find? (same h data) = ((front ++ back).find? (fun it => same h data (l.item it))).map l.item := by
    rw [← shape.holds, List.find?_map]
    rfl
  rw [found]
  cases first : (front ++ back).find? (fun it => same h data (l.item it)) with
  | none =>
      have misses : ∀ b ∈ front ++ back, same h data (l.item b) = false := by
        intro b member
        exact Bool.eq_false_iff.mpr (List.find?_eq_none.mp first b member)
      rw [search, shape.chain.seek_miss none misses shape.enough]
  | some it =>
      obtain ⟨hits, before, behind, split, misses⟩ := List.find?_eq_some_iff_append.mp first
      have chain := shape.chain
      have enough := shape.enough
      rw [split] at chain
      rw [split, List.length_append] at enough
      rw [search, chain.seek_hit none (fun b member => by simpa using misses b member) hits
        (Nat.lt_of_le_of_lt (Nat.le_add_right _ _) enough)]

/-- What `ci_list_remove` leaves when it has found an item. -/
theorem remove_found (h : ListHandlers α) (shape : Shape l front back trash held) (obj : α) {before behind : List Nat}
    {it : Nat} (split : front ++ back = before ++ it :: behind)
    (misses : ∀ b ∈ before, same h obj (l.item b) = false) (hits : same h obj (l.item it) = true) :
    ∃ l' front' back', remove h l obj = some (l', true) ∧ l'.last = l.last ∧ front' ++ back' = before ++ behind ∧
      Shape l' front' back' (it :: trash) ((before ++ behind).map l.item) ∧ Follows front back front' back' := by
  have chain := shape.chain
  have enough := shape.enough
  rw [split] at chain
  rw [split, List.length_append] at enough
  have found := chain.seek_hit none misses hits (Nat.lt_of_le_of_lt (Nat.le_add_right _ _) enough)
  rcases List.eq_nil_or_concat' before with rfl | ⟨before', p, rfl⟩
  · obtain ⟨front', back', same, shape', follows⟩ :=
      shape.unlink h split { l with items := l.next it, cursor := if l.cursor = some it then l.next it else l.cursor }
        chain.2 (by rw [show l.next it = behind.head? from Chain.head chain.2]) shape.spare rfl rfl
    exact ⟨_, front', back', remove_first found, rfl, same, shape', follows⟩
  · rw [List.getLast?_concat] at found
    have on : p ∈ front ++ back := by
      rw [split]
      simp
    have apart : it ≠ p := by
      rintro rfl
      have nodup := chain.nodup
      rw [List.nodup_append] at nodup
      exact nodup.2.2 it (by simp) it List.mem_cons_self rfl
    have onward : Function.update l.next p (l.next it) it = behind.head? := by
      rw [Function.update_of_ne apart]
      exact chain.next_eq
    have chain' : Chain (Function.update l.next p (l.next it)) l.items (before' ++ [p] ++ behind) := by
      rw [List.append_assoc] at chain ⊢
      exact Chain.cut chain
    obtain ⟨front', back', same, shape', follows⟩ :=
      shape.unlink h split
        { l with
          next := Function.update l.next p (l.next it)
          cursor := if l.cursor = some it then Function.update l.next p (l.next it) it else l.cursor }
        chain' (by rw [onward]) (shape.spare.update (shape.apart p on) _) rfl rfl
    exact ⟨_, front', back', remove_behind found, rfl, same, shape', follows⟩

theorem remove_none (h : ListHandlers α) (shape : Shape l front back trash held) (obj : α)
    (misses : ∀ b ∈ front ++ back, same h obj (l.item b) = false) : remove h l obj = some (l, false) := by
  simp only [remove, shape.chain.seek_miss none misses shape.enough]

end CiList

end IcapService
