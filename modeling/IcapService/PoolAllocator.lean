import IcapService.Lib.Heap
import IcapService.Lib.Transition

/-! The pool allocator of `mem.c`.

Its blocks lie in list items of their own: an item with a block on the list of the free ones, an empty one on the list
of those that are out. A reset forgets the items of the blocks that are out, so these come back one by one to items
of later blocks, or to none. The calls are serialized by the mutex of the pool; `malloc` returns what the environment
says, and to write to an item for which there is no memory is a step that cannot be taken. -/

namespace IcapService

open Transition

/-- `struct pool_allocator`: the items with their blocks on `free`, and the items on `allocated`. -/
structure PoolAllocator where
  itemsSize : Nat
  allocCount : Nat
  hitsCount : Nat
  free : List (Nat × Nat)
  allocated : List Nat

/-- A pool, the heap, and the blocks its users hold. `most` is how many they have held at once. -/
structure PoolState where
  pool : PoolAllocator
  heap : Heap
  held : List Nat
  most : Nat

inductive PoolCall where
  /-- What `malloc` returns for an item and for a block, if it is called. -/
  | alloc (size : Nat) (item data : Option Nat)
  | free (p : Nat)
  | reset

namespace PoolState

variable (s : PoolState)

/-- `pool_allocator_build` -/
def poolAllocatorBuild (itemsSize : Nat) : PoolState where
  pool := ⟨itemsSize, 0, 0, [], []⟩
  heap := .empty
  held := []
  most := 0

/-- A block is handed out. -/
def handOut (p : Nat) : PoolState :=
  { s with held := p :: s.held, most := max s.most (s.held.length + 1) }

/-- `pool_allocator_alloc`, with the block it returns. -/
def poolAllocatorAlloc (size : Nat) (item data : Option Nat) : Option (Option Nat × PoolState) :=
  if s.pool.itemsSize < size then some (none, s)
  else
    match s.pool.free with
    | (i, d) :: free =>
        let pool := { s.pool with free := free, allocated := i :: s.pool.allocated, hitsCount := s.pool.hitsCount + 1 }
        some (some d, handOut { s with pool := pool } d)
    | [] => do
        let i ← item
        let heap ← s.heap.malloc i
        let s := { s with
          heap := heap
          pool := { s.pool with allocated := i :: s.pool.allocated, allocCount := s.pool.allocCount + 1 } }
        match data with
        | none => some (none, s)
        | some d => do
            let heap ← s.heap.malloc d
            some (some d, handOut { s with heap := heap } d)

/-- `pool_allocator_free` of a block that is held. -/
def poolAllocatorFree (p : Nat) : Option PoolState :=
  match s.pool.allocated with
  | [] => (s.heap.free p).map fun heap => { s with heap := heap, held := s.held.erase p }
  | i :: allocated => some
      { s with
        pool := { s.pool with allocated := allocated, free := (i, p) :: s.pool.free }
        held := s.held.erase p }

/-- `pool_allocator_reset` -/
def poolAllocatorReset : Option PoolState :=
  (s.heap.freeAll (s.pool.allocated ++ s.pool.free.flatMap fun item => [item.2, item.1])).map fun heap =>
    { s with heap := heap, pool := { s.pool with free := [], allocated := [] } }

def step : PoolCall → Option PoolState
  | .alloc size item data => (s.poolAllocatorAlloc size item data).map Prod.snd
  | .free p => s.poolAllocatorFree p
  | .reset => s.poolAllocatorReset

/-- Who owns the blocks of the heap. -/
def owners : List Nat := s.held ++ (s.pool.free.map Prod.snd ++ (s.pool.free.map Prod.fst ++ s.pool.allocated))

/-- The heap of a pool: every block is held by one user, kept for the next one, or an item; and no more blocks are
kept or held than have been held at once. -/
structure Accounted : Prop where
  owned : s.heap.Owns s.owners
  room : s.pool.free.length + s.held.length ≤ s.most

/-- There is memory for items, `malloc` returns what is not in use, and users free what they hold. -/
def Proper : PoolCall → Prop
  | .alloc _ item data => (∃ i ∈ item, i ∉ s.heap.blocks) ∧ ∀ d ∈ data, d ∉ s.heap.blocks ∧ item ≠ some d
  | .free p => p ∈ s.held
  | .reset => True

instance : DecidablePred s.Proper
  | .alloc _ item data =>
      inferInstanceAs (Decidable ((∃ i ∈ item, i ∉ s.heap.blocks) ∧ ∀ d ∈ data, d ∉ s.heap.blocks ∧ item ≠ some d))
  | .free p => inferInstanceAs (Decidable (p ∈ s.held))
  | .reset => inferInstanceAs (Decidable True)

variable {s : PoolState}

theorem build_accounted (itemsSize : Nat) : (poolAllocatorBuild itemsSize).Accounted :=
  ⟨Heap.empty_owns, Nat.le_refl 0⟩

/-- An item that is moved with its block to the users. -/
theorem Accounted.hit (accounted : s.Accounted) {i d : Nat} {free : List (Nat × Nat)}
    (first : s.pool.free = (i, d) :: free) (hits : Nat) :
    (handOut { s with pool := { s.pool with free := free, allocated := i :: s.pool.allocated, hitsCount := hits } }
      d).Accounted := by
  obtain ⟨owned, room⟩ := accounted
  rw [owners, first] at owned
  rw [first, List.length_cons] at room
  refine ⟨owned.perm ?_, ?_⟩
  · change (s.held ++ (d :: free.map Prod.snd ++ (i :: free.map Prod.fst ++ s.pool.allocated))).Perm
      (d :: s.held ++ (free.map Prod.snd ++ (free.map Prod.fst ++ i :: s.pool.allocated)))
    refine List.perm_middle.trans (List.Perm.cons d (List.Perm.append_left _ (List.Perm.append_left _ ?_)))
    exact List.perm_middle.symm
  · change free.length + (s.held.length + 1) ≤ max s.most (s.held.length + 1)
    omega

/-- A block that `malloc` returns is one that nobody owns. -/
theorem Accounted.miss (accounted : s.Accounted) (empty : s.pool.free = []) {i : Nat} {data : Option Nat}
    (item : i ∉ s.heap.blocks) (block : ∀ d, data = some d → d ∉ s.heap.blocks ∧ i ≠ d) {size : Nat}
    (fits : size ≤ s.pool.itemsSize) :
    ∃ t, s.poolAllocatorAlloc size (some i) data = some (data, t) ∧ t.Accounted := by
  obtain ⟨owned, room⟩ := accounted
  obtain ⟨h1, gotItem, owns1⟩ := owned.malloc item
  rw [poolAllocatorAlloc, if_neg (by omega), empty]
  dsimp only
  rw [Option.bind_eq_bind, Option.bind_some, gotItem, Option.bind_eq_bind, Option.bind_some]
  rw [owners, empty] at owns1
  rw [empty] at room
  have moved : (i :: (s.held ++ ([] ++ ([] ++ s.pool.allocated)))).Perm
      (s.held ++ ([] ++ ([] ++ i :: s.pool.allocated))) := List.perm_middle.symm
  cases data with
  | none => exact ⟨_, rfl, owns1.perm (by rw [owners]; rw [empty]; exact moved), by rw [empty]; exact room⟩
  | some d =>
      obtain ⟨unused, apart⟩ := block d rfl
      have fresh : d ∉ h1.blocks := by
        intro used
        rcases List.mem_cons.mp (owns1.mem.mp used) with same | old
        · exact apart same.symm
        · exact unused (owned.mem.mpr (by rw [owners, empty]; exact old))
      obtain ⟨h2, gotBlock, owns2⟩ := owns1.malloc fresh
      dsimp only
      rw [gotBlock, Option.bind_some]
      refine ⟨_, rfl, owns2.perm ?_, ?_⟩
      · rw [owners, handOut, empty]
        exact List.Perm.cons d moved
      · rw [handOut]
        dsimp only
        rw [empty]
        change 0 + (s.held.length + 1) ≤ max s.most (s.held.length + 1)
        omega

theorem Accounted.free (accounted : s.Accounted) {p : Nat} (held : p ∈ s.held) :
    ∃ t, s.poolAllocatorFree p = some t ∧ t.Accounted := by
  obtain ⟨owned, room⟩ := accounted
  have taken := List.perm_cons_erase held
  have length := List.length_erase_of_mem held
  have some := List.length_pos_of_mem held
  rw [poolAllocatorFree]
  cases out : s.pool.allocated with
  | nil =>
      dsimp only
      have owned' : s.heap.Owns (p :: (s.held.erase p ++ (s.pool.free.map Prod.snd ++ (s.pool.free.map Prod.fst ++
          s.pool.allocated)))) := owned.perm (taken.append_right _)
      obtain ⟨h1, freed, owns1⟩ := owned'.free
      rw [freed]
      exact ⟨_, rfl, owns1, by dsimp only; omega⟩
  | cons i rest =>
      refine ⟨_, rfl, owned.perm ?_, ?_⟩
      · rw [owners, out]
        refine (taken.append_right _).trans ?_
        change (p :: s.held.erase p ++ (s.pool.free.map Prod.snd ++ (s.pool.free.map Prod.fst ++ i :: rest))).Perm
          (s.held.erase p ++ (p :: s.pool.free.map Prod.snd ++ (i :: s.pool.free.map Prod.fst ++ rest)))
        refine List.perm_middle.symm.trans (List.Perm.append_left _ (List.Perm.cons p (List.Perm.append_left _ ?_)))
        exact List.perm_middle
      · change s.pool.free.length + 1 + (s.held.erase p).length ≤ s.most
        omega

/-- A reset leaves the blocks that are held, and nothing else. -/
theorem Accounted.reset (accounted : s.Accounted) :
    ∃ t, s.poolAllocatorReset = some t ∧ t.Accounted ∧ t.held = s.held ∧ t.heap.Owns s.held := by
  obtain ⟨owned, room⟩ := accounted
  have items : ∀ l : List (Nat × Nat),
      (l.map Prod.snd ++ l.map Prod.fst).Perm (l.flatMap fun item => [item.2, item.1]) := by
    intro l
    induction l with
    | nil => exact List.Perm.nil
    | cons item rest ih =>
        refine List.Perm.cons item.2 ?_
        exact List.perm_middle.trans (List.Perm.cons item.1 ih)
  have order : s.owners.Perm ((s.pool.allocated ++ s.pool.free.flatMap fun item => [item.2, item.1]) ++ s.held) := by
    rw [owners, ← List.append_assoc (s.pool.free.map Prod.snd)]
    refine List.perm_append_comm.trans (List.Perm.append_right _ ?_)
    exact List.perm_append_comm.trans (List.Perm.append_left _ (items _))
  obtain ⟨h, freed, owns⟩ := (owned.perm order).freeAll
  refine ⟨{ s with heap := h, pool := { s.pool with free := [], allocated := [] } },
    by rw [poolAllocatorReset, freed]; rfl, ⟨?_, ?_⟩, rfl, owns⟩
  · change h.Owns (s.held ++ [])
    rw [List.append_nil]
    exact owns
  · change 0 + s.held.length ≤ s.most
    omega

theorem Accounted.step (accounted : s.Accounted) {call : PoolCall} (proper : s.Proper call) :
    ∃ t, s.step call = some t ∧ t.Accounted := by
  cases call with
  | alloc size item data =>
      obtain ⟨⟨i, rfl, fresh⟩, block⟩ := proper
      by_cases large : s.pool.itemsSize < size
      · exact ⟨s, by rw [PoolState.step, poolAllocatorAlloc, if_pos large]; rfl, accounted⟩
      · cases first : s.pool.free with
        | nil =>
            obtain ⟨t, result, accounted'⟩ := accounted.miss first fresh
              (fun d got => ⟨(block d got).1, fun same => (block d got).2 (congrArg some same)⟩)
              (Nat.le_of_not_lt large)
            exact ⟨t, by rw [PoolState.step, result]; rfl, accounted'⟩
        | cons entry rest =>
            refine ⟨_, ?_, accounted.hit first (s.pool.hitsCount + 1)⟩
            rw [PoolState.step, poolAllocatorAlloc, if_neg large, first]
            rfl
  | free p => exact accounted.free proper
  | reset =>
      obtain ⟨t, result, accounted', -⟩ := accounted.reset
      exact ⟨t, result, accounted'⟩

/-- A block that is handed out was held by nobody. -/
theorem Accounted.alloc_fresh (accounted : s.Accounted) {size : Nat} {item data : Option Nat} {p : Nat}
    {t : PoolState} (proper : s.Proper (.alloc size item data))
    (result : s.poolAllocatorAlloc size item data = some (some p, t)) :
    p ∉ s.held ∧ t.held = p :: s.held := by
  have shape : t.held = p :: s.held := by
    rw [poolAllocatorAlloc] at result
    split at result
    · cases result
    · split at result
      · cases result
        rfl
      · obtain ⟨i, -, result⟩ := Option.bind_eq_some_iff.mp result
        obtain ⟨h1, -, result⟩ := Option.bind_eq_some_iff.mp result
        split at result
        · cases result
        · obtain ⟨h2, -, result⟩ := Option.bind_eq_some_iff.mp result
          cases result
          rfl
  obtain ⟨t', pass, accounted'⟩ := accounted.step proper
  rw [PoolState.step, result] at pass
  cases pass
  have distinct := (List.nodup_append.mp accounted'.owned.nodup).1
  rw [shape] at distinct
  exact ⟨(List.nodup_cons.mp distinct).1, shape⟩

end PoolState

/-- Over every run of a pool, resets while blocks are out included: no call frees what is not in use, every block of
the heap is held by one user, kept, or an item; a block is handed out to one user at a time; and a reset leaves
exactly the blocks that are held. -/
theorem pool_blocks_accounted (itemsSize : Nat) {s : PoolState}
    (reached : Reaches PoolState.step PoolState.Proper (PoolState.poolAllocatorBuild itemsSize) s) :
    s.Accounted ∧ (∀ call, s.Proper call → ∃ t, s.step call = some t) ∧
      (∀ size item data p t, s.Proper (.alloc size item data) →
        s.poolAllocatorAlloc size item data = some (some p, t) → p ∉ s.held ∧ t.held = p :: s.held) ∧
      ∃ t, s.poolAllocatorReset = some t ∧ t.held = s.held ∧ t.heap.Owns s.held := by
  have accounted := reached.inv (PoolState.build_accounted itemsSize) (fun u v call kept proper pass => by
    obtain ⟨v', pass', kept'⟩ := kept.step proper
    rw [pass] at pass'
    cases pass'
    exact kept')
  obtain ⟨t, reset, -, same, owns⟩ := accounted.reset
  refine ⟨accounted, fun call proper => ?_, fun size item data p t proper => accounted.alloc_fresh proper,
    t, reset, same, owns⟩
  obtain ⟨t, pass, -⟩ := accounted.step proper
  exact ⟨t, pass⟩

/-- A reset forgets the item of a block that is out: of this one and the next, the one that comes back second is
freed. -/
theorem pool_blocks_accounted_reset :
    ∃ s, Reaches PoolState.step PoolState.Proper (PoolState.poolAllocatorBuild 8) s ∧
      (s.held, s.pool.free, s.heap.blocks) = ([], [(3, 2)], [3, 2]) ∧ s.Accounted := by
  have replayed : replay PoolState.step (fun s call => decide (s.Proper call)) (PoolState.poolAllocatorBuild 8)
      [.alloc 8 (some 1) (some 2), .reset, .alloc 4 (some 3) (some 4), .free 2, .free 4] = some _ := rfl
  have reached := Reaches.of_replay (fun _ _ passed => of_decide_eq_true passed) .here replayed
  exact ⟨_, reached, rfl, (pool_blocks_accounted 8 reached).1⟩

end IcapService
