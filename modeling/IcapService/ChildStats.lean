import Mathlib.Data.Nat.ModEq
import Mathlib.Algebra.BigOperators.Group.List.Basic
import IcapService.Lib.Transition

/-! The statistics of the children: `stats.c`, the children queue of `proc_threads_queues.c`, and the
report of `info.c`.

Every slot of the queue has a block of counters that outlives its child. A child resets the block when
it starts, and the parent merges it into the history when the child has died. -/

namespace IcapService

open Transition

/-- A `kbs_t`; the bytes are kept below a kilobyte. -/
structure Kbs where
  kb : UInt64
  bytes : Nat
  small : bytes < 1024

namespace Kbs

def zero : Kbs := ⟨0, 0, by decide⟩

/-- Bytes are added and the kilobytes among them carried over. An `unsigned int` holds the sum of the
bytes. -/
def carry (kb : UInt64) (bytes : Nat) : Kbs :=
  ⟨kb + UInt64.ofNat (bytes / 1024), bytes % 1024, Nat.mod_lt _ (by decide)⟩

def inc (k : Kbs) (count : Nat) : Kbs := carry k.kb (k.bytes + count)

def merge (d k : Kbs) : Kbs := carry (d.kb + k.kb) (d.bytes + k.bytes)

def value (k : Kbs) : Nat := k.kb.toNat * 1024 + k.bytes

theorem value_lt (k : Kbs) : k.value < 2 ^ 74 := by
  have kb := k.kb.toNat_lt
  have small := k.small
  rw [value]
  omega

theorem value_carry (kb : UInt64) (bytes : Nat) :
    (carry kb bytes).value = (kb.toNat * 1024 + bytes) % 2 ^ 74 := by
  simp only [value, carry, UInt64.toNat_add, UInt64.toNat_ofNat']
  omega

theorem value_inc (k : Kbs) (count : Nat) : (k.inc count).value = (k.value + count) % 2 ^ 74 := by
  rw [inc, value_carry, value, Nat.add_assoc]

theorem value_merge (d k : Kbs) : (d.merge k).value = (d.value + k.value) % 2 ^ 74 := by
  rw [merge, value_carry, UInt64.toNat_add]
  simp only [value]
  omega

end Kbs

/-- A counter of one of the two kinds. -/
inductive StatId where
  | int64 (i : Nat)
  | kbs (i : Nat)
  deriving DecidableEq

/-- Where the counters of a kind wrap. -/
def StatId.modulus : StatId → Nat
  | .int64 _ => 2 ^ 64
  | .kbs _ => 2 ^ 74

/-- A `stat_memblock`; the sizes are the lengths of the lists. -/
structure MemBlock where
  counters64 : List UInt64
  counterskbs : List Kbs

/-- The loop of a merge: the counters that both blocks have are added. -/
def mergeCounters {α : Type} (add : α → α → α) : List α → List α → List α
  | d :: dest, b :: block => add d b :: mergeCounters add dest block
  | dest, _ => dest

namespace MemBlock

/-- The block of a slot that no child has attached. -/
def none : MemBlock := ⟨[], []⟩

/-- `ci_stat_area_construct`, and `stat_memblock_fix` with `ci_stat_memblock_reset`. -/
def construct (entries64 entriesKbs : Nat) : MemBlock :=
  ⟨List.replicate entries64 0, List.replicate entriesKbs .zero⟩

/-- `ci_stat_memblock_merge`. -/
def merge (dest block : MemBlock) : MemBlock :=
  ⟨mergeCounters (· + ·) dest.counters64 block.counters64,
    mergeCounters Kbs.merge dest.counterskbs block.counterskbs⟩

/-- `ci_stat_uint64_inc` and `ci_stat_kbs_inc`; an unknown counter is left alone. -/
def inc (b : MemBlock) (id : StatId) (count : Nat) : MemBlock :=
  match id with
  | .int64 i => { b with counters64 := b.counters64.modify i (· + UInt64.ofNat count) }
  | .kbs i => { b with counterskbs := b.counterskbs.modify i (·.inc count) }

def value (b : MemBlock) : StatId → Nat
  | .int64 i => (b.counters64.getD i 0).toNat
  | .kbs i => (b.counterskbs.getD i .zero).value

/-- The block has the counter. -/
def Has (b : MemBlock) : StatId → Prop
  | .int64 i => i < b.counters64.length
  | .kbs i => i < b.counterskbs.length

instance (b : MemBlock) (id : StatId) : Decidable (b.Has id) :=
  match id with
  | .int64 i => inferInstanceAs (Decidable (i < b.counters64.length))
  | .kbs i => inferInstanceAs (Decidable (i < b.counterskbs.length))

/-- Nothing has been counted. -/
def Blank (b : MemBlock) : Prop := ∀ id, b.value id = 0

theorem value_lt (b : MemBlock) (id : StatId) : b.value id < id.modulus := by
  cases id with
  | int64 i => exact (b.counters64.getD i 0).toNat_lt
  | kbs i => exact (b.counterskbs.getD i .zero).value_lt

end MemBlock

theorem getD_replicate_self {α : Type} (n i : Nat) (a : α) : (List.replicate n a).getD i a = a := by
  rw [List.getD_eq_getElem?_getD, List.getElem?_replicate]
  split <;> rfl

namespace MemBlock

theorem construct_blank (entries64 entriesKbs : Nat) : (construct entries64 entriesKbs).Blank := by
  intro id
  cases id with
  | int64 i =>
      change ((List.replicate entries64 (0 : UInt64)).getD i 0).toNat = 0
      rw [getD_replicate_self]
      rfl
  | kbs i =>
      change ((List.replicate entriesKbs Kbs.zero).getD i .zero).value = 0
      rw [getD_replicate_self]
      rfl

end MemBlock

theorem length_mergeCounters {α : Type} (add : α → α → α) (dest block : List α) :
    (mergeCounters add dest block).length = dest.length := by
  induction dest generalizing block with
  | nil => rfl
  | cons d dest ih =>
      cases block with
      | nil => rfl
      | cons b block => simp only [mergeCounters, List.length_cons, ih]

/-- A merge adds counter by counter, whatever the sizes. -/
theorem getD_mergeCounters {α : Type} {add : α → α → α} {zero : α} {value : α → Nat} {m : Nat}
    (sum : ∀ a b, value (add a b) = (value a + value b) % m) (none : value zero = 0) (bound : ∀ a, value a < m)
    {dest block : List α} {i : Nat} (inside : i < dest.length) :
    value ((mergeCounters add dest block).getD i zero) =
      (value (dest.getD i zero) + value (block.getD i zero)) % m := by
  induction dest generalizing block i with
  | nil => cases inside
  | cons d dest ih =>
      cases block with
      | nil =>
          rw [List.getD_nil, none, Nat.add_zero, Nat.mod_eq_of_lt (bound _)]
          rfl
      | cons b block =>
          cases i with
          | zero => exact sum d b
          | succ i => exact ih (Nat.lt_of_succ_lt_succ inside)

namespace MemBlock

theorem merge_value {dest : MemBlock} {id : StatId} (has : dest.Has id) (block : MemBlock) :
    (dest.merge block).value id = (dest.value id + block.value id) % id.modulus := by
  cases id with
  | int64 i =>
      exact getD_mergeCounters (fun a b => UInt64.toNat_add a b) rfl (fun a => a.toNat_lt) has
  | kbs i => exact getD_mergeCounters Kbs.value_merge rfl Kbs.value_lt has

theorem merge_has {dest : MemBlock} {id : StatId} (block : MemBlock) : (dest.merge block).Has id ↔ dest.Has id := by
  cases id with
  | int64 i => simp only [Has, merge, length_mergeCounters]
  | kbs i => simp only [Has, merge, length_mergeCounters]

theorem inc_has {b : MemBlock} {id other : StatId} (count : Nat) : (b.inc id count).Has other ↔ b.Has other := by
  cases id <;> cases other <;> simp [Has, inc]

theorem construct_has {entries64 entriesKbs : Nat} {id : StatId} :
    (construct entries64 entriesKbs).Has id ↔
      match id with
      | .int64 i => i < entries64
      | .kbs i => i < entriesKbs := by
  cases id <;> simp [Has, construct]

/-- An increment adds to its own counter. -/
theorem inc_value {b : MemBlock} {id : StatId} (has : b.Has id) (count : Nat) :
    (b.inc id count).value id = (b.value id + count) % id.modulus := by
  cases id with
  | int64 i =>
      change i < b.counters64.length at has
      simp only [value, inc, List.getD_eq_getElem?_getD, List.getElem?_modify_eq, List.getElem?_eq_getElem has,
        Option.map_eq_map, Option.map_some, Option.getD_some, UInt64.toNat_add, UInt64.toNat_ofNat', Nat.add_mod_mod]
      rfl
  | kbs i =>
      change i < b.counterskbs.length at has
      simp only [value, inc, List.getD_eq_getElem?_getD, List.getElem?_modify_eq, List.getElem?_eq_getElem has,
        Option.map_eq_map, Option.map_some, Option.getD_some, Kbs.value_inc]
      rfl

theorem inc_other {b : MemBlock} {id other : StatId} (differs : other ≠ id) (count : Nat) :
    (b.inc id count).value other = b.value other := by
  cases id with
  | int64 i =>
      cases other with
      | int64 j =>
          have apart : i ≠ j := fun same => differs (by rw [same])
          simp only [value, inc, List.getD_eq_getElem?_getD, List.getElem?_modify_ne _ _ apart]
      | kbs j => rfl
  | kbs i =>
      cases other with
      | int64 j => rfl
      | kbs j =>
          have apart : i ≠ j := fun same => differs (by rw [same])
          simp only [value, inc, List.getD_eq_getElem?_getD, List.getElem?_modify_ne _ _ apart]

end MemBlock

/-! ### The children queue -/

/-- A slot of the queue; the pid 0 marks a free one. `attached` says that its child has attached the block,
which the program keeps in the child. -/
structure ChildSlot where
  pid : Nat
  toBeKilled : Bool
  attached : Bool
  block : MemBlock

/-- A `childs_queue`, with the numbers of registered counters. `made` records the increments; the program
has no such field. -/
structure ChildsQueue where
  entries64 : Nat
  entriesKbs : Nat
  childs : List ChildSlot
  statsHistory : MemBlock
  made : List (StatId × Nat)

namespace ChildsQueue

/-- `create_childs_queue`. -/
def create (entries64 entriesKbs size : Nat) : ChildsQueue where
  entries64 := entries64
  entriesKbs := entriesKbs
  childs := List.replicate size ⟨0, false, false, .none⟩
  statsHistory := .construct entries64 entriesKbs
  made := []

/-- The loop of `register_child`; nothing when every slot is taken. -/
def register (pid : Nat) : List ChildSlot → Option (List ChildSlot)
  | [] => none
  | slot :: rest =>
      if slot.pid = 0 then some ({ slot with pid := pid, toBeKilled := false, attached := false } :: rest)
      else (register pid rest).map (slot :: ·)

/-- The loop of `remove_child`: the slot of the child, and the slots without it. -/
def remove (pid : Nat) : List ChildSlot → Option (ChildSlot × List ChildSlot)
  | [] => none
  | slot :: rest =>
      if slot.pid = pid then some (slot, { slot with pid := 0 } :: rest)
      else (remove pid rest).map (fun out => (out.1, slot :: out.2))

/-- What happens next: a child is registered, attaches its block, counts or is to be killed, or a child has
died and is removed. -/
inductive Action where
  | register (pid : Nat)
  | attach (i : Nat)
  | inc (i : Nat) (id : StatId) (count : Nat)
  | mark (i : Nat)
  | remove (pid : Nat)

/-- The queue with a slot changed. -/
def setSlot (q : ChildsQueue) (i : Nat) (slot : ChildSlot) : ChildsQueue := { q with childs := q.childs.set i slot }

/-- An action of a live child on its own slot. -/
def slotStep (q : ChildsQueue) (i : Nat) (slot : ChildSlot) : Action → Option ChildsQueue
  | .attach _ =>
      if slot.attached then none
      else some (q.setSlot i { slot with attached := true, block := .construct q.entries64 q.entriesKbs })
  | .inc _ id count =>
      -- the count is an `int`
      if slot.attached ∧ count < 2 ^ 31 then
        some { q.setSlot i { slot with block := slot.block.inc id count } with
          made := if slot.block.Has id then q.made ++ [(id, count)] else q.made }
      else none
  | .mark _ => some (q.setSlot i { slot with toBeKilled := true })
  | _ => none

/-- `register_child` and `remove_child` of the parent, or an action of a child. -/
def step (q : ChildsQueue) (a : Action) : Option ChildsQueue :=
  match a with
  | .register pid => if pid = 0 then none else some { q with childs := (register pid q.childs).getD q.childs }
  | .remove pid =>
      if pid = 0 then none
      else
        match remove pid q.childs with
        | none => some q
        | some (slot, childs) => some { q with childs := childs, statsHistory := q.statsHistory.merge slot.block }
  | .attach i | .inc i _ _ | .mark i =>
      match q.childs[i]? with
      | none => none
      | some slot => if slot.pid = 0 then none else q.slotStep i slot a

/-- The loop of `fill_queue_statistics`: the blocks of the children that are not to be killed. -/
def mergeLive (sum : MemBlock) : List ChildSlot → MemBlock
  | [] => sum
  | slot :: rest => mergeLive (if slot.pid ≠ 0 ∧ slot.toBeKilled = false then sum.merge slot.block else sum) rest

/-- `fill_queue_statistics`. -/
def fillQueueStatistics (q : ChildsQueue) : MemBlock :=
  (mergeLive (.construct q.entries64 q.entriesKbs) q.childs).merge q.statsHistory

/-- All increments of a counter. -/
def total (q : ChildsQueue) (id : StatId) : Nat := ((q.made.filter (·.1 = id)).map Prod.snd).sum

/-- A counter is registered. -/
def Known (q : ChildsQueue) : StatId → Prop
  | .int64 i => i < q.entries64
  | .kbs i => i < q.entriesKbs

/-- The report gives the sum of all increments of every counter, up to the width of the counter. -/
def Balanced (q : ChildsQueue) : Prop :=
  ∀ id, q.Known id → q.fillQueueStatistics.value id = q.total id % id.modulus

/-- A removed child has attached its block, or the block of its slot is blank. -/
def RemovesAttached (q : ChildsQueue) : Action → Prop
  | .remove pid => ∀ slot childs, remove pid q.childs = some (slot, childs) → slot.attached = true ∨ slot.block.Blank
  | _ => True

/-- Every live child has attached its block and is not to be killed, or the block of its slot is blank. -/
def Reportable (q : ChildsQueue) : Prop :=
  ∀ slot ∈ q.childs, slot.pid ≠ 0 → slot.attached = true ∧ slot.toBeKilled = false ∨ slot.block.Blank

/-- One slot of the list is another one. -/
def Replaces (childs childs' : List ChildSlot) (old new : ChildSlot) : Prop :=
  ∃ front back, childs = front ++ old :: back ∧ childs' = front ++ new :: back

theorem Replaces.cons {childs childs' : List ChildSlot} {old new : ChildSlot} (replaces : Replaces childs childs' old new)
    (slot : ChildSlot) : Replaces (slot :: childs) (slot :: childs') old new := by
  obtain ⟨front, back, rfl, rfl⟩ := replaces
  exact ⟨slot :: front, back, rfl, rfl⟩

theorem Replaces.mem {childs childs' : List ChildSlot} {old new slot : ChildSlot}
    (replaces : Replaces childs childs' old new) (member : slot ∈ childs') : slot = new ∨ slot ∈ childs := by
  obtain ⟨front, back, rfl, rfl⟩ := replaces
  simp only [List.mem_append, List.mem_cons] at member ⊢
  tauto

theorem Replaces.old_mem {childs childs' : List ChildSlot} {old new : ChildSlot}
    (replaces : Replaces childs childs' old new) : old ∈ childs := by
  obtain ⟨front, back, rfl, rfl⟩ := replaces
  simp

theorem Replaces.sum {childs childs' : List ChildSlot} {old new : ChildSlot}
    (replaces : Replaces childs childs' old new) (f : ChildSlot → Nat) :
    (childs'.map f).sum + f old = (childs.map f).sum + f new := by
  obtain ⟨front, back, rfl, rfl⟩ := replaces
  simp only [List.map_append, List.map_cons, List.sum_append, List.sum_cons]
  omega

/-- A child takes the first free slot. -/
theorem register_replaces {pid : Nat} {childs childs' : List ChildSlot} (found : register pid childs = some childs') :
    ∃ old, old.pid = 0 ∧ Replaces childs childs' old { old with pid := pid, toBeKilled := false, attached := false } := by
  induction childs generalizing childs' with
  | nil => cases found
  | cons slot rest ih =>
      simp only [register] at found
      split at found
      · rename_i free
        cases found
        exact ⟨slot, free, [], rest, rfl, rfl⟩
      · obtain ⟨rest', later, rfl⟩ := Option.map_eq_some_iff.mp found
        obtain ⟨old, free, replaces⟩ := ih later
        exact ⟨old, free, replaces.cons slot⟩

theorem remove_replaces {pid : Nat} {childs childs' : List ChildSlot} {slot : ChildSlot}
    (found : remove pid childs = some (slot, childs')) :
    slot.pid = pid ∧ Replaces childs childs' slot { slot with pid := 0 } := by
  induction childs generalizing childs' with
  | nil => cases found
  | cons first rest ih =>
      simp only [remove] at found
      split at found
      · rename_i same
        cases found
        exact ⟨same, [], rest, rfl, rfl⟩
      · obtain ⟨out, later, same⟩ := Option.map_eq_some_iff.mp found
        cases same
        obtain ⟨pid', replaces⟩ := ih later
        exact ⟨pid', replaces.cons first⟩

theorem setSlot_replaces {q : ChildsQueue} {i : Nat} {old : ChildSlot} (found : q.childs[i]? = some old)
    (new : ChildSlot) : Replaces q.childs (q.setSlot i new).childs old new := by
  obtain ⟨inside, rfl⟩ := List.getElem?_eq_some_iff.mp found
  refine ⟨q.childs.take i, q.childs.drop (i + 1), ?_, ?_⟩
  · rw [List.getElem_cons_drop, List.take_append_drop]
  · exact List.set_eq_take_append_cons_drop.trans (if_pos inside)

/-! ### The ledger -/

/-- What the block of a slot adds to the sum of the increments. -/
def counted (id : StatId) (slot : ChildSlot) : Nat :=
  if slot.pid ≠ 0 ∧ slot.attached = true then slot.block.value id else 0

/-- The history and the blocks of the live children that have attached them hold all increments. -/
structure Ledger (q : ChildsQueue) : Prop where
  history : ∀ id, q.Known id → q.statsHistory.Has id
  blocks : ∀ slot ∈ q.childs, slot.pid ≠ 0 → slot.attached = true → ∀ id, q.Known id → slot.block.Has id
  balance : ∀ id, q.Known id →
    q.statsHistory.value id + (q.childs.map (counted id)).sum ≡ q.total id [MOD id.modulus]

variable {q q' : ChildsQueue}

theorem create_ledger (entries64 entriesKbs size : Nat) : Ledger (create entries64 entriesKbs size) := by
  have free : ∀ slot ∈ (create entries64 entriesKbs size).childs, slot.pid = 0 := by
    intro slot member
    rw [List.eq_of_mem_replicate member]
  refine ⟨fun id known => ?_, fun slot member live => absurd (free slot member) live, fun id _ => ?_⟩
  · cases id <;> exact MemBlock.construct_has.mpr known
  · have none : ((create entries64 entriesKbs size).childs.map (counted id)).sum = 0 := by
      refine List.sum_eq_zero (fun value member => ?_)
      obtain ⟨slot, inside, rfl⟩ := List.mem_map.mp member
      exact if_neg (fun counts => counts.1 (free slot inside))
    rw [none]
    exact congrArg (· % id.modulus) (MemBlock.construct_blank _ _ id)

/-- A slot changes, and with it what it adds. -/
theorem Ledger.replace {old new : ChildSlot} (ledger : Ledger q) (replaces : Replaces q.childs q'.childs old new)
    (known : ∀ id, q'.Known id → q.Known id)
    (history : ∀ id, q'.Known id → q'.statsHistory.Has id)
    (block : new.pid ≠ 0 → new.attached = true → ∀ id, q'.Known id → new.block.Has id)
    (moved : ∀ id, q'.Known id → q.Known id → q'.statsHistory.value id + counted id new + q.total id ≡
      q.statsHistory.value id + counted id old + q'.total id [MOD id.modulus]) : Ledger q' := by
  refine ⟨history, ?_, ?_⟩
  · intro slot member live attached id id_known
    rcases replaces.mem member with rfl | before
    · exact block live attached id id_known
    · exact ledger.blocks slot before live attached id (known id id_known)
  · intro id id_known
    have sum := replaces.sum (counted id)
    have balance := ledger.balance id (known id id_known)
    have step := moved id id_known (known id id_known)
    -- both sides of the old balance are carried along and cancelled
    have both := step.add balance
    generalize (q.childs.map (counted id)).sum = before at sum both
    generalize (q'.childs.map (counted id)).sum = after at sum both ⊢
    have same : q'.statsHistory.value id + counted id new + q.total id + (q.statsHistory.value id + before) =
        q'.statsHistory.value id + after + (q.statsHistory.value id + counted id old + q.total id) := by omega
    have other : q.statsHistory.value id + counted id old + q'.total id + q.total id =
        q'.total id + (q.statsHistory.value id + counted id old + q.total id) := by omega
    rw [same, other] at both
    exact both.add_right_cancel'

theorem counted_blank {slot : ChildSlot} (blank : slot.block.Blank) (id : StatId) : counted id slot = 0 := by
  rw [counted, blank id, ite_self]

/-- A removed child leaves its counts to the history. -/
theorem remove_ledger {pid : Nat} {slot : ChildSlot} {childs : List ChildSlot} (ledger : Ledger q) (live : pid ≠ 0)
    (found : remove pid q.childs = some (slot, childs)) (ready : slot.attached = true ∨ slot.block.Blank) :
    Ledger { q with childs := childs, statsHistory := q.statsHistory.merge slot.block } := by
  obtain ⟨same, replaces⟩ := remove_replaces found
  refine ledger.replace replaces (fun _ known => known) (fun id known => ?_) (fun none => absurd rfl none) ?_
  · exact (MemBlock.merge_has _).mpr (ledger.history id known)
  · intro id _ known
    have gone : counted id { slot with pid := 0 } = 0 := if_neg (fun counts => counts.1 rfl)
    have kept : counted id slot = slot.block.value id := by
      rcases ready with attached | blank
      · exact if_pos ⟨by rw [same]; exact live, attached⟩
      · rw [counted_blank blank, blank id]
    have merged := MemBlock.merge_value (ledger.history id known) slot.block
    change (q.statsHistory.merge slot.block).value id + _ + q.total id ≡ _ [MOD _]
    rw [gone, kept, merged, Nat.add_zero]
    exact (Nat.mod_modEq _ _).add_right _

theorem total_made (q : ChildsQueue) (id other : StatId) (count : Nat) (childs : List ChildSlot) :
    total { q with childs := childs, made := q.made ++ [(id, count)] } other =
      q.total other + if other = id then count else 0 := by
  simp only [total, List.filter_append, List.map_append, List.sum_append]
  by_cases same : other = id
  · subst same
    simp
  · have apart : ¬ id = other := fun flipped => same flipped.symm
    simp [same, apart]

/-- An increment of a live child goes to its block and to the sum. -/
theorem inc_ledger {i : Nat} {slot : ChildSlot} {id : StatId} {count : Nat} (ledger : Ledger q)
    (found : q.childs[i]? = some slot) (live : slot.pid ≠ 0) (attached : slot.attached = true) :
    Ledger { q.setSlot i { slot with block := slot.block.inc id count } with
      made := if slot.block.Has id then q.made ++ [(id, count)] else q.made } := by
  have replaces := setSlot_replaces found { slot with block := slot.block.inc id count }
  have has := ledger.blocks slot replaces.old_mem live attached
  refine ledger.replace replaces (fun _ known => known)
    ledger.history (fun _ _ other known => (MemBlock.inc_has _).mpr (has other known)) ?_
  intro other _ known
  have before : counted other slot = slot.block.value other := if_pos ⟨live, attached⟩
  have after : counted other { slot with block := slot.block.inc id count } = (slot.block.inc id count).value other :=
    if_pos ⟨live, attached⟩
  rw [before, after]
  by_cases same : other = id
  · subst same
    have total := total_made q other other count (q.setSlot i { slot with block := slot.block.inc other count }).childs
    rw [if_pos rfl] at total
    have logged : ChildsQueue.total { q.setSlot i { slot with block := slot.block.inc other count } with
        made := if slot.block.Has other then q.made ++ [(other, count)] else q.made } other = q.total other + count := by
      rw [if_pos (has other known)]
      exact total
    rw [logged, MemBlock.inc_value (has other known)]
    change q.statsHistory.value other + _ + _ ≡ _ [MOD _]
    have value : q.statsHistory.value other + slot.block.value other + (q.total other + count) =
        q.statsHistory.value other + (slot.block.value other + count) + q.total other := by omega
    rw [value]
    exact ((Nat.mod_modEq _ _).add_left _).add_right _
  · have logged : ChildsQueue.total { q.setSlot i { slot with block := slot.block.inc id count } with
        made := if slot.block.Has id then q.made ++ [(id, count)] else q.made } other = q.total other := by
      split
      · have total := total_made q id other count (q.setSlot i { slot with block := slot.block.inc id count }).childs
        rw [if_neg same] at total
        exact total
      · rfl
    rw [logged, MemBlock.inc_other same]
    rfl

theorem attach_ledger {i : Nat} {slot : ChildSlot} (ledger : Ledger q) (found : q.childs[i]? = some slot)
    (fresh : slot.attached = false) :
    Ledger (q.setSlot i { slot with attached := true, block := .construct q.entries64 q.entriesKbs }) := by
  refine ledger.replace (setSlot_replaces found _) (fun _ known => known) ledger.history (fun _ _ id known => ?_) ?_
  · cases id <;> exact MemBlock.construct_has.mpr known
  · intro id _ _
    rw [counted_blank (MemBlock.construct_blank _ _), show counted id slot = 0 from if_neg (by simp [fresh])]
    rfl

theorem mark_ledger {i : Nat} {slot : ChildSlot} (ledger : Ledger q) (found : q.childs[i]? = some slot) :
    Ledger (q.setSlot i { slot with toBeKilled := true }) := by
  have replaces := setSlot_replaces found { slot with toBeKilled := true }
  exact ledger.replace replaces (fun _ known => known) ledger.history
    (ledger.blocks slot replaces.old_mem) (fun _ _ _ => Nat.ModEq.refl _)

theorem register_ledger {pid : Nat} (ledger : Ledger q) :
    Ledger { q with childs := (register pid q.childs).getD q.childs } := by
  cases found : register pid q.childs with
  | none => exact ledger
  | some childs =>
      obtain ⟨old, free, replaces⟩ := register_replaces found
      refine ledger.replace replaces (fun _ known => known) ledger.history
        (fun _ attached => nomatch attached) ?_
      intro id _ _
      have before : counted id old = 0 := if_neg (fun counts => counts.1 free)
      have after : counted id { old with pid := pid, toBeKilled := false, attached := false } = 0 := by
        simp [counted]
      rw [before, after]
      rfl

/-- The actions of a live child keep the ledger. -/
theorem slotStep_ledger {a : Action} {i : Nat} {slot : ChildSlot} (ledger : Ledger q)
    (found : q.childs[i]? = some slot) (live : slot.pid ≠ 0) (pass : q.slotStep i slot a = some q') : Ledger q' := by
  cases a with
  | attach _ =>
      simp only [slotStep] at pass
      split at pass
      · cases pass
      · rename_i fresh
        cases pass
        exact attach_ledger ledger found (by simpa using fresh)
  | inc _ id count =>
      simp only [slotStep] at pass
      split at pass
      · rename_i counts
        cases pass
        exact inc_ledger ledger found live counts.1
      · cases pass
  | mark _ =>
      cases pass
      exact mark_ledger ledger found
  | register _ => cases pass
  | remove _ => cases pass

/-- Every action keeps the ledger, where only attached or blank blocks are merged. -/
theorem step_ledger {a : Action} (ledger : Ledger q) (removes : RemovesAttached q a) (pass : q.step a = some q') :
    Ledger q' := by
  have onSlot : ∀ i, (match q.childs[i]? with
      | none => none
      | some slot => if slot.pid = 0 then none else q.slotStep i slot a) = some q' → Ledger q' := by
    intro i pass
    split at pass
    · cases pass
    · rename_i slot found
      split at pass
      · cases pass
      · rename_i live
        exact slotStep_ledger ledger found live pass
  cases a with
  | register pid =>
      simp only [step] at pass
      split at pass
      · cases pass
      · cases pass
        exact register_ledger ledger
  | remove pid =>
      simp only [step] at pass
      split at pass
      · cases pass
      · rename_i live
        split at pass
        · cases pass
          exact ledger
        · rename_i slot childs found
          cases pass
          exact remove_ledger ledger live found (removes slot childs found)
  | attach i => exact onSlot i pass
  | inc i id count => exact onSlot i pass
  | mark i => exact onSlot i pass

/-! ### The report -/

/-- What the report takes from a slot. -/
def reported (id : StatId) (slot : ChildSlot) : Nat :=
  if slot.pid ≠ 0 ∧ slot.toBeKilled = false then slot.block.value id else 0

theorem mergeLive_value {sum : MemBlock} {id : StatId} (has : sum.Has id) (childs : List ChildSlot) :
    (mergeLive sum childs).Has id ∧
      (mergeLive sum childs).value id ≡ sum.value id + (childs.map (reported id)).sum [MOD id.modulus] := by
  induction childs generalizing sum with
  | nil => exact ⟨has, Nat.ModEq.refl _⟩
  | cons slot rest ih =>
      simp only [mergeLive, List.map_cons, List.sum_cons]
      split
      · rename_i live
        obtain ⟨has', value⟩ := ih ((MemBlock.merge_has slot.block).mpr has)
        refine ⟨has', value.trans ?_⟩
        rw [MemBlock.merge_value has, reported, if_pos live, ← Nat.add_assoc]
        exact (Nat.mod_modEq _ _).add_right _
      · rename_i dead
        rw [reported, if_neg dead, Nat.zero_add]
        exact ih has

/-- In a state that may be reported, the report takes what the ledger counts. -/
theorem Reportable.reported_eq (reportable : Reportable q) (id : StatId) :
    q.childs.map (reported id) = q.childs.map (counted id) := by
  refine List.map_congr_left (fun slot member => ?_)
  by_cases free : slot.pid = 0
  · rw [reported, counted, if_neg (fun counts => counts.1 free), if_neg (fun counts => counts.1 free)]
  · rcases reportable slot member free with ⟨attached, alive⟩ | blank
    · rw [reported, counted, if_pos ⟨free, alive⟩, if_pos ⟨free, attached⟩]
    · rw [counted_blank blank, reported, blank id, ite_self]

theorem Ledger.balanced (ledger : Ledger q) (reportable : Reportable q) : Balanced q := by
  intro id known
  have whole : (MemBlock.construct q.entries64 q.entriesKbs).Has id := by
    cases id <;> exact MemBlock.construct_has.mpr known
  obtain ⟨has, live⟩ := mergeLive_value whole q.childs
  rw [MemBlock.construct_blank, Nat.zero_add, reportable.reported_eq] at live
  have balance := ledger.balance id known
  rw [Nat.add_comm] at balance
  rw [fillQueueStatistics, MemBlock.merge_value has]
  exact (live.add_right _).trans balance

/-- The report is the sum of all increments, in every state of a run that merges attached blocks only. -/
theorem statistics_balanced (entries64 entriesKbs size : Nat) (q : ChildsQueue)
    (reached : Reaches step RemovesAttached (create entries64 entriesKbs size) q) (reportable : Reportable q) :
    Balanced q := by
  have ledger : Ledger q := reached.inv (create_ledger entries64 entriesKbs size) (fun _ _ _ => step_ledger)
  exact ledger.balanced reportable

/-- The removal of a child that has attached its block. -/
def removesAttached (q : ChildsQueue) : Action → Bool
  | .remove pid => (remove pid q.childs).all (fun out => out.1.attached)
  | _ => true

theorem removesAttached_sound (q : ChildsQueue) (a : Action) (passed : removesAttached q a = true) :
    RemovesAttached q a := by
  cases a with
  | remove pid =>
      intro slot childs found
      simp only [removesAttached, found, Option.all_some] at passed
      exact .inl passed
  | _ => exact trivial

/-- A child counts in two counters and is removed. -/
def countedActions : List Action :=
  [.register 7, .attach 0, .inc 0 (.int64 0) 5, .inc 0 (.kbs 0) 2000, .remove 7]

theorem statistics_balanced_counted :
    ∃ q, Reaches step RemovesAttached (create 1 1 1) q ∧ Reportable q ∧ q.fillQueueStatistics.value (.int64 0) = 5 ∧
      q.fillQueueStatistics.value (.kbs 0) = 2000 ∧ Balanced q := by
  have computed : (replay step removesAttached (create 1 1 1) countedActions).map
      (fun q => (q.childs.map (·.pid), q.fillQueueStatistics.value (.int64 0), q.fillQueueStatistics.value (.kbs 0))) =
      some ([0], 5, 2000) := by decide
  obtain ⟨q, replayed, seen⟩ := Option.map_eq_some_iff.mp computed
  have reached : Reaches step RemovesAttached (create 1 1 1) q :=
    Reaches.of_replay removesAttached_sound .here replayed
  simp only [Prod.mk.injEq] at seen
  obtain ⟨free, int64, kbs⟩ := seen
  have reportable : Reportable q := by
    intro slot member live
    have inside : slot.pid ∈ q.childs.map (·.pid) := List.mem_map_of_mem member
    rw [free] at inside
    exact absurd (List.mem_singleton.mp inside) live
  exact ⟨q, reached, reportable, int64, kbs, statistics_balanced 1 1 1 q reached reportable⟩

/-- The slot of a removed child goes to a new one, which has not attached its block. -/
def reusedActions : List Action := [.register 7, .attach 0, .inc 0 (.int64 0) 5, .remove 7, .register 8]

/-- The counts of the removed child are reported twice. -/
theorem reused_slot_counted_twice :
    ∃ q, Reaches step (fun _ _ => True) (create 1 1 1) q ∧ q.total (.int64 0) = 5 ∧
      q.fillQueueStatistics.value (.int64 0) = 10 ∧ ¬ Balanced q := by
  have computed : (replay step (fun _ _ => true) (create 1 1 1) reusedActions).map
      (fun q => (q.entries64, q.total (.int64 0), q.fillQueueStatistics.value (.int64 0))) = some (1, 5, 10) := by decide
  obtain ⟨q, replayed, seen⟩ := Option.map_eq_some_iff.mp computed
  have reached : Reaches step (fun _ _ => True) (create 1 1 1) q :=
    Reaches.of_replay (fun _ _ _ => trivial) .here replayed
  simp only [Prod.mk.injEq] at seen
  obtain ⟨entries, total, report⟩ := seen
  refine ⟨q, reached, total, report, fun balanced => ?_⟩
  have known : q.Known (.int64 0) := by
    change 0 < q.entries64
    rw [entries]
    decide
  have value := balanced (.int64 0) known
  rw [total, report] at value
  revert value
  decide

end ChildsQueue

end IcapService
