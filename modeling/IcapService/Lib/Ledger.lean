import Mathlib.Data.List.Nodup

/-! Objects behind handles that may be null.

A ledger records what happens to the objects that a program creates. The use of a null handle ends the
program: nothing is recorded behind it. -/

namespace IcapService.Ledger

inductive Event where
  | created (x : Nat)
  | used (x : Nat)
  | destroyed (x : Nat)
  deriving DecidableEq

def Event.object : Event → Nat
  | .created x => x
  | .used x => x
  | .destroyed x => x

/-- The object has been created and not destroyed; the newest event comes first. -/
def Alive (log : List Event) (x : Nat) : Prop := .created x ∈ log ∧ .destroyed x ∉ log

/-- Only objects that are alive are used and destroyed. -/
def Disciplined : List Event → Prop
  | [] => True
  | .created x :: log => (∀ e ∈ log, e.object ≠ x) ∧ Disciplined log
  | .used x :: log => Alive log x ∧ Disciplined log
  | .destroyed x :: log => Alive log x ∧ Disciplined log

theorem Disciplined.tail {e : Event} {log : List Event} (disciplined : Disciplined (e :: log)) : Disciplined log := by
  cases e <;> exact disciplined.2

/-- No object is destroyed twice. -/
theorem Disciplined.destroyed_once {log : List Event} (disciplined : Disciplined log) (x : Nat) :
    log.count (.destroyed x) ≤ 1 := by
  induction log with
  | nil => exact Nat.zero_le _
  | cons e rest ih =>
      have before := ih disciplined.tail
      by_cases same : e = .destroyed x
      · subst same
        have fresh : rest.count (.destroyed x) = 0 := List.count_eq_zero_of_not_mem disciplined.1.2
        simp [fresh]
      · rw [List.count_cons_of_ne same]
        exact before

/-- No object is used once it has been destroyed. -/
theorem Disciplined.unused_behind {later earlier : List Event} {x : Nat}
    (disciplined : Disciplined (later ++ .destroyed x :: earlier)) : .used x ∉ later := by
  induction later with
  | nil => exact List.not_mem_nil
  | cons e rest ih =>
      intro member
      rcases List.mem_cons.mp member with rfl | inside
      · exact disciplined.1.2 (List.mem_append_right _ List.mem_cons_self)
      · exact ih disciplined.tail inside

end IcapService.Ledger

namespace IcapService

/-- The attempts to create an object so far, the events, and whether a null handle was used. -/
structure Ledger where
  attempts : Nat
  log : List Ledger.Event
  crashed : Bool
  deriving DecidableEq

namespace Ledger

def empty : Ledger := ⟨0, [], false⟩

variable (l : Ledger)

/-- A new object, or null. -/
def new (works : Bool) : Option Nat × Ledger :=
  if l.crashed then (none, l)
  else if works then (some l.attempts, { l with attempts := l.attempts + 1, log := .created l.attempts :: l.log })
  else (none, { l with attempts := l.attempts + 1 })

def use (handle : Option Nat) : Ledger :=
  if l.crashed then l
  else
    match handle with
    | none => { l with crashed := true }
    | some x => { l with log := .used x :: l.log }

/-- Destroying null is allowed. -/
def destroy (handle : Option Nat) : Ledger :=
  if l.crashed then l
  else
    match handle with
    | none => l
    | some x => { l with log := .destroyed x :: l.log }

/-- The program is disciplined so far and, unless it has ended, these are the objects alive. -/
structure Holds (live : List Nat) : Prop where
  disciplined : Disciplined l.log
  below : ∀ e ∈ l.log, e.object < l.attempts
  distinct : live.Nodup
  alive : l.crashed = false → ∀ x, Alive l.log x ↔ x ∈ live

variable {l} {live : List Nat}

/-- Null has not been used, and this many objects have been asked for. -/
def Running (l : Ledger) (n : Nat) : Prop := l.crashed = false ∧ l.attempts = n

theorem Running.use {n : Nat} (running : l.Running n) {handle : Option Nat} (present : handle.isSome = true) :
    (l.use handle).Running n := by
  obtain ⟨x, rfl⟩ := Option.isSome_iff_exists.mp present
  simp only [Ledger.use, running.1, Bool.false_eq_true, if_false]
  exact ⟨rfl, running.2⟩

theorem Running.destroy {n : Nat} (running : l.Running n) (handle : Option Nat) : (l.destroy handle).Running n := by
  cases handle with
  | none =>
      simp only [Ledger.destroy, running.1, Bool.false_eq_true, if_false]
      exact running
  | some x =>
      simp only [Ledger.destroy, running.1, Bool.false_eq_true, if_false]
      exact ⟨rfl, running.2⟩

theorem Running.new {n : Nat} (running : l.Running n) (works : Bool) :
    (l.new works).1.isSome = works ∧ (l.new works).2.Running (n + 1) := by
  cases works <;> simp [Ledger.new, Running, running.1, running.2]

theorem empty_holds : empty.Holds [] :=
  ⟨trivial, nofun, List.nodup_nil, fun _ _ => ⟨fun alive => absurd alive.1 List.not_mem_nil, nofun⟩⟩

/-- A program that has ended keeps its record. -/
theorem Holds.ended (holds : l.Holds live) (ended : l.crashed = true) {others : List Nat} (distinct : others.Nodup) :
    l.Holds others :=
  ⟨holds.disciplined, holds.below, distinct, fun running => absurd (running.symm.trans ended) (by decide)⟩

theorem Holds.perm (holds : l.Holds live) {others : List Nat} (same : live.Perm others) : l.Holds others :=
  ⟨holds.disciplined, holds.below, same.nodup_iff.mp holds.distinct,
    fun running x => (holds.alive running x).trans same.mem_iff⟩

theorem Holds.new (holds : l.Holds live) (works : Bool) : (l.new works).2.Holds ((l.new works).1.toList ++ live) := by
  cases ended : l.crashed with
  | true =>
      simp only [Ledger.new, ended, if_true, Option.toList_none, List.nil_append]
      exact holds
  | false =>
      have alive := holds.alive ended
      have unknown : ∀ e ∈ l.log, e.object ≠ l.attempts := fun e member => Nat.ne_of_lt (holds.below e member)
      cases works with
      | false =>
          simp only [Ledger.new, ended, if_false, Bool.false_eq_true, Option.toList_none, List.nil_append]
          exact ⟨holds.disciplined, fun e member => Nat.lt_succ_of_lt (holds.below e member), holds.distinct,
            fun _ => alive⟩
      | true =>
          simp only [Ledger.new, ended, if_false, if_true, Bool.false_eq_true, Option.toList_some,
            List.singleton_append]
          refine ⟨⟨unknown, holds.disciplined⟩, fun e member => ?_, List.nodup_cons.mpr ⟨fun inside => ?_,
            holds.distinct⟩, fun _ x => ?_⟩
          · rcases List.mem_cons.mp member with rfl | old
            · exact Nat.lt_succ_self _
            · exact Nat.lt_succ_of_lt (holds.below e old)
          · exact unknown _ ((alive _).mpr inside).1 rfl
          · by_cases same : x = l.attempts
            · subst same
              have undestroyed : Event.destroyed l.attempts ∉ l.log := fun member => unknown _ member rfl
              simp [Alive, undestroyed]
            · have rest := alive x
              simp only [Alive] at rest
              simp [Alive, same, rest]

theorem Holds.use (holds : l.Holds live) {handle : Option Nat} (inside : ∀ x ∈ handle, x ∈ live) :
    (l.use handle).Holds live := by
  cases ended : l.crashed with
  | true =>
      simp only [Ledger.use, ended, if_true]
      exact holds
  | false =>
      have alive := holds.alive ended
      cases handle with
      | none =>
          simp only [Ledger.use, ended, if_false, Bool.false_eq_true]
          exact ⟨holds.disciplined, holds.below, holds.distinct, nofun⟩
      | some x =>
          have known := (alive x).mpr (inside x rfl)
          simp only [Ledger.use, ended, if_false, Bool.false_eq_true]
          refine ⟨⟨known, holds.disciplined⟩, fun e member => ?_, holds.distinct, fun _ y => ?_⟩
          · rcases List.mem_cons.mp member with rfl | old
            · exact holds.below (.created x) known.1
            · exact holds.below e old
          · have rest := alive y
            simp only [Alive] at rest
            simp [Alive, rest]

theorem Holds.destroy {handle : Option Nat} (holds : l.Holds (handle.toList ++ live)) :
    (l.destroy handle).Holds live := by
  have distinct : live.Nodup := holds.distinct.of_append_right
  cases ended : l.crashed with
  | true =>
      simp only [Ledger.destroy, ended, if_true]
      exact holds.ended ended distinct
  | false =>
      cases handle with
      | none =>
          simp only [Ledger.destroy, ended, if_false, Bool.false_eq_true]
          exact holds
      | some x =>
          have alive := holds.alive ended
          have known := (alive x).mpr List.mem_cons_self
          have other : x ∉ live := (List.nodup_cons.mp holds.distinct).1
          simp only [Ledger.destroy, ended, if_false, Bool.false_eq_true]
          refine ⟨⟨known, holds.disciplined⟩, fun e member => ?_, distinct, fun _ y => ?_⟩
          · rcases List.mem_cons.mp member with rfl | old
            · exact holds.below (.created x) known.1
            · exact holds.below e old
          · have rest := alive y
            simp only [Alive, Option.toList_some, List.singleton_append, List.mem_cons] at rest
            by_cases same : y = x
            · subst same
              simp [Alive, other]
            · have split : Event.created y ∈ l.log ∧ Event.destroyed y ∉ l.log ↔ y ∈ live := by simpa [same] using rest
              simp [Alive, same, split]

/-- Once nothing is alive every object has been destroyed. -/
theorem Holds.all_destroyed (holds : l.Holds []) (running : l.crashed = false) {x : Nat} (made : .created x ∈ l.log) :
    l.log.count (.destroyed x) = 1 := by
  have destroyed : .destroyed x ∈ l.log := by
    by_contra missing
    exact absurd ((holds.alive running x).mp ⟨made, missing⟩) List.not_mem_nil
  exact Nat.le_antisymm (holds.disciplined.destroyed_once x) (List.count_pos_iff.mpr destroyed)

end Ledger

end IcapService
