import IcapService.Lib.Transition
import IcapService.ListShape

/-! A list of `array.c` against a plain list. -/

namespace IcapService

open Linked Transition

variable {α : Type}

/-- A plain list, the number of items that are kept for later, and the answers given. -/
structure PlainList (α : Type) where
  items : List α
  spare : Nat
  answers : List (ListAnswer α)
  deriving DecidableEq, Repr

namespace PlainList

def empty : PlainList α := ⟨[], 0, []⟩

def answer (p : PlainList α) (a : ListAnswer α) : PlainList α := { p with answers := p.answers ++ [a] }

/-- The list becomes `items` by an addition, when there is an item for it. -/
def add (p : PlainList α) (room : Bool) (value : α) (items : List α) : PlainList α :=
  if 0 < p.spare ∨ room = true then ({ p with items := items, spare := p.spare - 1 }).answer (.object (some value))
  else p.answer (.object none)

/-- The list becomes `items` by a removal. -/
def drop (p : PlainList α) (items : List α) (a : ListAnswer α) : PlainList α :=
  ({ p with items := items, spare := p.spare + 1 }).answer a

def step (h : ListHandlers α) (p : PlainList α) : ListOp α → PlainList α
  | .push data room => p.add room (h.copy data) (h.copy data :: p.items)
  | .pushBack data room => p.add room (h.copy data) (p.items ++ [h.copy data])
  | .pop =>
      match p.items with
      | [] => p.answer (.object none)
      | a :: rest => p.drop rest (.object (some (h.copy a)))
  | .popBack =>
      match p.items.getLast? with
      | none => p.answer (.object none)
      | some a => p.drop p.items.dropLast (.object (some (h.copy a)))
  | .remove obj =>
      if p.items.any (CiList.same h obj) then p.drop (p.items.eraseP (CiList.same h obj)) (.removed true)
      else p.answer (.removed false)
  | .search data => p.answer (.object (p.items.find? (CiList.same h data)))
  | .iterate => p
  | .visit => p

/-- A removal whose first match is the last element of the list. -/
def RemovesLast (h : ListHandlers α) (p : PlainList α) : ListOp α → Prop
  | .remove obj => p.items.findIdx (CiList.same h obj) + 1 = p.items.length
  | _ => False

end PlainList

/-- The list of `array.c` stands for the plain one: it holds the same and has answered the same, `last` is its last
item, no item is on the trash as well, and an iteration meets no item twice that stays, and all of them when it ends. -/
structure Faithful (r : ListRun α) (p : PlainList α) : Prop where
  lists : ∃ nodes trash, Chain r.list.next r.list.items nodes ∧ nodes.map r.list.item = p.items ∧
    r.list.last = nodes.getLast? ∧ Chain r.list.next r.list.trash trash ∧ (∀ a ∈ nodes, a ∉ trash) ∧
    trash.length = p.spare
  answers : r.answers = p.answers
  once : ∀ a ∈ r.stay, r.visited.count a ≤ 1
  all : r.list.cursor = none → ∀ a ∈ r.stay, r.visited.count a = 1

namespace ListRun

/-- What stays has been visited just when it is in front of the cursor. -/
structure Tracked (r : ListRun α) (front back : List Nat) : Prop where
  on : ∀ a ∈ r.stay, a ∈ front ++ back
  passed : ∀ a ∈ r.stay, a ∈ front → r.visited.count a = 1
  ahead : ∀ a ∈ r.stay, a ∈ back → r.visited.count a = 0

/-- The invariant of a list in use. -/
def Inv (r : ListRun α) (p : PlainList α) : Prop :=
  ∃ front back trash, CiList.Shape r.list front back trash p.items ∧ r.list.last = (front ++ back).getLast? ∧
    trash.length = p.spare ∧ r.answers = p.answers ∧ r.Tracked front back

theorem Inv.faithful {r : ListRun α} {p : PlainList α} (inv : r.Inv p) : Faithful r p := by
  obtain ⟨front, back, trash, shape, last, spare, answers, tracked⟩ := inv
  refine ⟨⟨front ++ back, trash, shape.chain, shape.holds, last, shape.spare, shape.apart, spare⟩, answers, ?_, ?_⟩
  · intro a member
    rcases List.mem_append.mp (tracked.on a member) with before | behind
    · exact Nat.le_of_eq (tracked.passed a member before)
    · rw [tracked.ahead a member behind]
      exact Nat.zero_le 1
  · intro ended a member
    have nothing : back = [] := by
      rw [shape.cursor] at ended
      exact List.head?_eq_none_iff.mp ended
    have before := tracked.on a member
    rw [nothing, List.append_nil] at before
    exact tracked.passed a member before

theorem Tracked.change {r : ListRun α} {front back front' back' trash' : List Nat} {l : CiList α} {held : List α}
    (tracked : r.Tracked front back) (shape : CiList.Shape l front' back' trash' held)
    (follows : CiList.Follows front back front' back') (answer : ListAnswer α) :
    (r.change l answer).Tracked front' back' := by
  have kept : ∀ a ∈ (r.change l answer).stay, a ∈ r.stay ∧ a ∈ front' ++ back' := by
    intro a member
    obtain ⟨stayed, on⟩ := List.mem_filter.mp member
    rw [shape.nodes] at on
    exact ⟨stayed, of_decide_eq_true on⟩
  refine ⟨fun a member => (kept a member).2, ?_, ?_⟩
  · intro a member before
    have stayed := (kept a member).1
    exact tracked.passed a stayed ((follows a (tracked.on a stayed)).1 before)
  · intro a member behind
    have stayed := (kept a member).1
    exact tracked.ahead a stayed ((follows a (tracked.on a stayed)).2 behind)

/-- The invariant behind a call, from what the call leaves. -/
theorem Inv.change {r : ListRun α} {p q : PlainList α} {front back : List Nat} {l : CiList α} {answer : ListAnswer α}
    (tracked : r.Tracked front back) (answers : r.answers = p.answers)
    (after : CiList.After front back l q.items q.spare) (said : q.answers = p.answers ++ [answer]) :
    (r.change l answer).Inv q := by
  obtain ⟨front', back', trash', shape, last, spare, follows⟩ := after
  refine ⟨front', back', trash', shape, last, spare, ?_, tracked.change shape follows answer⟩
  rw [said, ← answers]
  rfl

variable {r : ListRun α} {p : PlainList α} {front back trash : List Nat}

theorem Inv.unchanged (inv : r.Inv p) (a : ListAnswer α) : (r.change r.list a).Inv (p.answer a) := by
  obtain ⟨front, back, trash, shape, last, spare, answers, tracked⟩ := inv
  exact Inv.change tracked answers ⟨front, back, trash, shape, last, spare, CiList.Follows.refl front back⟩ rfl

theorem Inv.added (inv : r.Inv p) {out : CiList α × Option α} {value : α} {items : List α} {room : Bool}
    (spec : ∀ front back trash, CiList.Shape r.list front back trash p.items →
      r.list.last = (front ++ back).getLast? →
      (out = (r.list, none) ∧ trash.length = 0 ∧ room = false) ∨
        (0 < trash.length ∨ room = true) ∧ out.2 = some value ∧
          CiList.After front back out.1 items (trash.length - 1)) :
    (r.change out.1 (.object out.2)).Inv (p.add room value items) := by
  obtain ⟨front, back, trash, shape, last, spare, answers, tracked⟩ := id inv
  rcases spec front back trash shape last with ⟨rfl, empty, full⟩ | ⟨fits, said, after⟩
  · have none : ¬(0 < p.spare ∨ room = true) := by
      rw [← spare, empty, full]
      simp
    rw [PlainList.add, if_neg none]
    exact inv.unchanged _
  · rw [spare] at fits after
    rw [PlainList.add, if_pos fits, said]
    exact Inv.change tracked answers after rfl

theorem Inv.push (inv : r.Inv p) (h : ListHandlers α) (room : Bool) (data : α) :
    (r.change (r.list.push h room data).1 (.object (r.list.push h room data).2)).Inv
      (p.step h (.push data room)) :=
  inv.added (fun _ _ _ shape last => CiList.push_spec h shape last room data)

theorem Inv.pushBack (inv : r.Inv p) (h : ListHandlers α) (room : Bool) (data : α) :
    (r.change (r.list.pushBack h room data).1 (.object (r.list.pushBack h room data).2)).Inv
      (p.step h (.pushBack data room)) :=
  inv.added (fun _ _ _ shape last => CiList.pushBack_spec h shape last room data)

theorem Inv.pop (inv : r.Inv p) (h : ListHandlers α) :
    (r.change (r.list.pop h).1 (.object (r.list.pop h).2)).Inv (p.step h .pop) := by
  obtain ⟨front, back, trash, shape, last, spare, answers, tracked⟩ := id inv
  rcases CiList.pop_spec h shape last with ⟨empty, same⟩ | ⟨a, rest, held, said, after⟩
  · have model : p.step h .pop = p.answer (.object none) := by simp only [PlainList.step, empty]
    rw [same, model]
    exact inv.unchanged _
  · have model : p.step h .pop = p.drop rest (.object (some (h.copy a))) := by simp only [PlainList.step, held]
    rw [said, model]
    rw [spare] at after
    exact Inv.change tracked answers after rfl

theorem Inv.popBack (inv : r.Inv p) (h : ListHandlers α) :
    ∃ out, r.list.popBack h = some out ∧ (r.change out.1 (.object out.2)).Inv (p.step h .popBack) := by
  obtain ⟨front, back, trash, shape, last, spare, answers, tracked⟩ := id inv
  rcases CiList.popBack_spec h shape last with ⟨empty, same⟩ | ⟨rest, a, l, held, same, after⟩
  · have model : p.step h .popBack = p.answer (.object none) := by
      simp only [PlainList.step, empty, List.getLast?_nil]
    refine ⟨_, same, ?_⟩
    rw [model]
    exact inv.unchanged _
  · have model : p.step h .popBack = p.drop rest (.object (some (h.copy a))) := by
      simp only [PlainList.step, held, List.getLast?_concat, List.dropLast_concat]
    refine ⟨_, same, ?_⟩
    rw [model]
    rw [spare] at after
    exact Inv.change tracked answers after rfl

theorem Inv.iterate (inv : r.Inv p) :
    ({ r with list := { r.list with cursor := r.list.items }, stay := r.list.nodes, visited := [] } : ListRun α).Inv p := by
  obtain ⟨front, back, trash, shape, last, spare, answers, tracked⟩ := inv
  refine ⟨[], front ++ back, trash, ?_, last, spare, answers, ?_⟩
  · exact ⟨shape.chain, shape.chain.head, shape.spare, shape.apart, shape.bound, shape.holds⟩
  · refine ⟨fun a member => ?_, fun _ _ before => absurd before List.not_mem_nil, fun _ _ _ => rfl⟩
    rw [shape.nodes] at member
    exact member

theorem Inv.visit (inv : r.Inv p) {it : Nat} (stands : r.list.cursor = some it) :
    ({ r with list := { r.list with cursor := r.list.next it }, visited := r.visited ++ [it] } : ListRun α).Inv p := by
  obtain ⟨front, back, trash, shape, last, spare, answers, tracked⟩ := inv
  obtain ⟨rest, rfl⟩ : ∃ rest, back = it :: rest := by
    rw [shape.cursor] at stands
    exact List.head?_eq_some_iff.mp stands
  have same : front ++ [it] ++ rest = front ++ it :: rest := by simp
  have nodup := shape.chain.nodup
  have once : ∀ a, a ≠ it → (r.visited ++ [it]).count a = r.visited.count a := by
    intro a other
    rw [List.count_append, List.count_singleton, if_neg (by simpa using other.symm), Nat.add_zero]
  refine ⟨front ++ [it], rest, trash, ?_, by rw [same]; exact last, spare, answers, ?_⟩
  · refine ⟨same ▸ shape.chain, shape.chain.next_eq, shape.spare, same ▸ shape.apart, same ▸ shape.bound, ?_⟩
    rw [same]
    exact shape.holds
  · refine ⟨same ▸ tracked.on, fun a member before => ?_, fun a member behind => ?_⟩
    · rcases List.mem_append.mp before with earlier | here
      · have other : a ≠ it := by
          rintro rfl
          exact (List.nodup_append.mp nodup).2.2 a earlier a List.mem_cons_self rfl
        exact (once a other).trans (tracked.passed a member earlier)
      · obtain rfl := List.mem_singleton.mp here
        calc (r.visited ++ [a]).count a = r.visited.count a + [a].count a := List.count_append
          _ = 0 + 1 := by rw [tracked.ahead a member List.mem_cons_self, List.count_singleton_self]
          _ = 1 := rfl
    · have other : a ≠ it := by
        rintro rfl
        exact (List.nodup_cons.mp (List.nodup_append.mp nodup).2.1).1 behind
      exact (once a other).trans (tracked.ahead a member (List.mem_cons_of_mem _ behind))

/-- A removal keeps the invariant, or leaves `last` on the trash. -/
theorem Inv.remove (inv : r.Inv p) (h : ListHandlers α) (obj : α) :
    ∃ l found, r.list.remove h obj = some (l, found) ∧
      (¬p.RemovesLast h (.remove obj) → (r.change l (.removed found)).Inv (p.step h (.remove obj))) ∧
      (p.RemovesLast h (.remove obj) → ¬Faithful (r.change l (.removed found)) (p.step h (.remove obj))) := by
  obtain ⟨front, back, trash, shape, last, spare, answers, tracked⟩ := id inv
  cases first : (front ++ back).find? (fun it => CiList.same h obj (r.list.item it)) with
  | none =>
      have misses : ∀ b ∈ front ++ back, CiList.same h obj (r.list.item b) = false :=
        fun b member => Bool.eq_false_iff.mpr (List.find?_eq_none.mp first b member)
      have nowhere : ∀ a ∈ p.items, CiList.same h obj a = false := by
        rw [← shape.holds]
        exact List.forall_mem_map.mpr misses
      have model : p.step h (.remove obj) = p.answer (.removed false) := by
        rw [PlainList.step, if_neg (by simpa using nowhere)]
      refine ⟨_, _, CiList.remove_none h shape obj misses, fun _ => ?_, fun gone => ?_⟩
      · rw [model]
        exact inv.unchanged _
      · rw [PlainList.RemovesLast, List.findIdx_eq_length.mpr nowhere] at gone
        exact absurd gone (Nat.succ_ne_self _)
  | some it =>
      obtain ⟨hits, before, behind, split, misses⟩ := List.find?_eq_some_iff_append.mp first
      simp only [Bool.not_eq_true'] at misses
      have held : p.items = before.map r.list.item ++ r.list.item it :: behind.map r.list.item := by
        rw [← shape.holds, split, List.map_append, List.map_cons]
      have missed : ∀ a ∈ before.map r.list.item, CiList.same h obj a = false := List.forall_mem_map.mpr misses
      have model : p.step h (.remove obj) = p.drop ((before ++ behind).map r.list.item) (.removed true) := by
        have some : p.items.any (CiList.same h obj) = true := List.any_eq_true.mpr ⟨_, by rw [held]; simp, hits⟩
        rw [PlainList.step, if_pos some, held, List.eraseP_append_right _ (fun a member => by simp [missed a member]),
          List.eraseP_cons_of_pos hits, List.map_append]
      have place : p.RemovesLast h (.remove obj) ↔ behind = [] := by
        have none : ¬(before.map r.list.item).findIdx (CiList.same h obj) < (before.map r.list.item).length := by
          rw [List.findIdx_eq_length.mpr missed]
          exact Nat.lt_irrefl _
        rw [PlainList.RemovesLast, held, List.findIdx_append, if_neg none, List.findIdx_cons, hits,
          List.length_append, List.length_cons, ← List.length_eq_zero_iff, List.length_map, List.length_map]
        simp only [cond_true]
        omega
      obtain ⟨l, front', back', gone, kept, same, shape', follows⟩ :=
        CiList.remove_found h shape obj split misses hits
      refine ⟨l, true, gone, fun more => ?_, fun ends faithful => ?_⟩
      · rw [model]
        refine Inv.change tracked answers ⟨front', back', it :: trash, shape', ?_, congrArg (· + 1) spare, follows⟩ rfl
        rw [place] at more
        rw [kept, last, same, split]
        cases behind with
        | nil => exact absurd rfl more
        | cons b behind => simp
      · -- the item `last` leads to is not on the list any more
        rw [place.mp ends] at split same
        have stays : l.last = some it := by
          rw [kept, last, split]
          exact List.getLast?_concat
        obtain ⟨nodes, trash', chain, -, true_last, -⟩ := faithful.lists
        have nodes_eq : nodes = before := by
          rw [chain.unique shape'.chain, same, List.append_nil]
        have member : it ∈ before := by
          rw [← nodes_eq]
          exact List.mem_of_getLast? (true_last.symm.trans stays)
        have nodup := shape.chain.nodup
        rw [split] at nodup
        exact (List.nodup_append.mp nodup).2.2 it member it List.mem_cons_self rfl

/-- A call that is no removal of the last element keeps the invariant. -/
theorem Inv.step (inv : r.Inv p) (h : ListHandlers α) (op : ListOp α) (fine : ¬p.RemovesLast h op) :
    ∃ s, r.step h op = some s ∧ s.Inv (p.step h op) := by
  cases op with
  | push data room => exact ⟨_, rfl, inv.push h room data⟩
  | pushBack data room => exact ⟨_, rfl, inv.pushBack h room data⟩
  | pop => exact ⟨_, rfl, inv.pop h⟩
  | popBack =>
      obtain ⟨out, result, inv'⟩ := inv.popBack h
      refine ⟨_, ?_, inv'⟩
      simp only [ListRun.step, result, Option.map_some]
  | remove obj =>
      obtain ⟨l, found, result, keeps, -⟩ := inv.remove h obj
      refine ⟨_, ?_, keeps fine⟩
      simp only [ListRun.step, result, Option.map_some]
  | search data =>
      obtain ⟨front, back, trash, shape, -⟩ := id inv
      refine ⟨_, ?_, inv.unchanged _⟩
      simp only [ListRun.step, CiList.search_spec h shape data, Option.map_some]
  | iterate => exact ⟨_, rfl, inv.iterate⟩
  | visit =>
      cases stands : r.list.cursor with
      | none =>
          refine ⟨r, ?_, inv⟩
          simp only [ListRun.step, stands]
      | some it =>
          refine ⟨_, ?_, inv.visit stands⟩
          simp only [ListRun.step, stands]

/-- A removal of the last element is seen at once. -/
theorem Inv.breaks (inv : r.Inv p) (h : ListHandlers α) (op : ListOp α) (bad : p.RemovesLast h op) {s : ListRun α}
    (pass : r.step h op = some s) : ¬Faithful s (p.step h op) := by
  cases op with
  | remove obj =>
      obtain ⟨l, found, result, -, breaks⟩ := inv.remove h obj
      simp only [ListRun.step, result, Option.map_some] at pass
      cases pass
      exact breaks bad
  | _ => exact absurd bad id

theorem create_inv (memory : Nat → α) : (ListRun.create memory).Inv PlainList.empty := by
  refine ⟨[], [], [], ⟨rfl, rfl, rfl, fun _ _ => List.not_mem_nil, fun _ member => ?_, rfl⟩, rfl, rfl, rfl, ?_⟩
  · cases member
  · exact ⟨fun _ member => absurd member List.not_mem_nil, fun _ _ before => absurd before List.not_mem_nil,
      fun _ _ behind => absurd behind List.not_mem_nil⟩

end ListRun

/-- A list of `array.c` stands for the plain list behind every call of a run, until `ci_list_remove` takes off the last
element, and not behind that call. -/
theorem list_refines_iff (h : ListHandlers α) (memory : Nat → α) (ops : List (ListOp α)) :
    (∀ done, done <+: ops → ∃ r, done.foldlM (ListRun.step h) (ListRun.create memory) = some r ∧
      Faithful r (done.foldl (PlainList.step h) PlainList.empty)) ↔
      ∀ done op, done ++ [op] <+: ops → ¬(done.foldl (PlainList.step h) PlainList.empty).RemovesLast h op :=
  agrees_iff_no_bad (fun _ _ inv => inv.faithful) (fun _ _ op inv fine => inv.step h op fine)
    (fun _ _ op _ inv bad pass => inv.breaks h op bad pass) (ListRun.create_inv memory) ops

/-- The second of two elements is removed. `last` still leads to it, and what is pushed back then is lost: the list
holds `1` where it should hold `1` and `3`. -/
theorem push_back_after_remove_lost :
    ∃ r, ([.pushBack 1 true, .pushBack 2 true, .remove 2, .pushBack 3 true] : List (ListOp Int)).foldlM
        (ListRun.step ⟨fun a b => a - b, id, id⟩) (ListRun.create fun _ => 0) = some r ∧
      r.list.nodes.map r.list.item = [1] ∧
      ¬Faithful r (([.pushBack 1 true, .pushBack 2 true, .remove 2, .pushBack 3 true] : List (ListOp Int)).foldl
        (PlainList.step ⟨fun a b => a - b, id, id⟩) PlainList.empty) := by
  refine ⟨_, rfl, by decide, fun faithful => ?_⟩
  obtain ⟨nodes, trash, chain, holds, -⟩ := faithful.lists
  have only : nodes = [0] := chain.unique ⟨rfl, rfl⟩
  rw [only] at holds
  exact absurd holds (by decide)

end IcapService
