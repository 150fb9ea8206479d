import Mathlib.Logic.Function.Basic
import IcapService.Lib.Transition

/-! The registry of object pools of `mem.c`.

A slot of `object_pools` that was never written holds anything; to read it, or to write behind the array, is a step that
cannot be taken. Pools are numbered in the order in which they were created. -/

namespace IcapService

open Transition

/-- What a slot of `object_pools` holds. -/
inductive PoolSlot where
  | garbage
  | null
  | pool (p : Nat)
  deriving DecidableEq

/-- The pool of a slot, if it holds one. -/
def PoolSlot.pool? : PoolSlot → Option Nat
  | pool p => some p
  | _ => none

/-- `object_pools`, `object_pools_size` and `object_pools_used`; the pools that are registered under their IDs, and
whether the last ID that was given out belonged to none of them. -/
structure ObjectPools where
  table : Option (Nat → PoolSlot)
  size : Nat
  used : Nat
  created : Nat
  live : List (Nat × Nat)
  fresh : Bool

/-- `STEP` -/
def poolStep : Nat := 128

inductive PoolOp where
  /-- Whether there is memory for the array, and whether the pool can be created. -/
  | register (grows : Bool) (creates : Bool)
  | unregister (id : Int)

namespace ObjectPools

variable (s : ObjectPools)

def init : ObjectPools := ⟨none, 0, 0, 0, [], true⟩

/-- The first slot that is NULL, from `i` on and among `n`; none when a slot is read that was never written. -/
def findNull (t : Nat → PoolSlot) (i : Nat) : Nat → Option (Option Nat)
  | 0 => some none
  | n + 1 =>
      match t i with
      | .garbage => none
      | .null => some (some i)
      | .pool _ => findNull t (i + 1) n

/-- The pool is created in the slot `id`. -/
def put (t : Nat → PoolSlot) (size id : Nat) (creates : Bool) : Option ObjectPools :=
  if id < size then
    some
      { table := some (Function.update t id (if creates then .pool s.created else .null))
        size := size
        used := s.used + 1
        created := s.created + 1
        live := if creates then s.live ++ [(id, s.created)] else s.live
        fresh := decide (id ∉ s.live.map Prod.fst) }
  else none

/-- The array with more room. -/
def grown (t : Nat → PoolSlot) (size : Nat) : Nat → PoolSlot := fun i => if i < size then t i else .garbage

/-- `ci_object_pool_register` -/
def ciObjectPoolRegister (grows creates : Bool) : Option ObjectPools :=
  match s.table with
  | none =>
      if grows then s.put (fun _ => .garbage) poolStep 0 creates
      else some { s with table := none, size := poolStep }
  | some t =>
      (findNull t 0 s.used).bind fun found =>
        match found with
        | some id => s.put t s.size id creates
        | none =>
            if s.size = s.used then
              if grows then s.put (grown t s.size) (s.size + poolStep) s.used creates
              else some { s with table := none, size := s.size + poolStep }
            else s.put t s.size s.used creates

/-- `ci_object_pool_unregister` -/
def ciObjectPoolUnregister (id : Int) : Option ObjectPools :=
  if s.used ≤ id ∨ id < 0 then some s
  else
    match s.table with
    | none => none
    | some t =>
        match t id.toNat with
        | .garbage => none
        | .null => some s
        | .pool _ => some
            { s with
              table := some (Function.update t id.toNat .null)
              live := s.live.filter fun entry => entry.1 ≠ id.toNat }

/-- `object_pools[i]` -/
def slot (i : Nat) : PoolSlot :=
  match s.table with
  | some t => t i
  | none => .garbage

/-- The pool whose `alloc` is called by `ci_object_pool_alloc`. -/
def ciObjectPoolAlloc (id : Int) : Option Nat :=
  if s.used ≤ id ∨ id < 0 then none else (s.slot id.toNat).pool?

/-- The pool whose `free` is called by `ci_object_pool_free` for an object with this `ID`. -/
def ciObjectPoolFree (id : Int) : Option Nat :=
  if s.used < id ∨ id < 0 then none else (s.slot id.toNat).pool?

def step : PoolOp → Option ObjectPools
  | .register grows creates => s.ciObjectPoolRegister grows creates
  | .unregister id => s.ciObjectPoolUnregister id

/-- The array holds the slots that are used, all of them were written, the last ID was new, and the pools are found
under their IDs. -/
structure Sound : Prop where
  room : s.used ≤ s.size
  written : ∀ i < s.used, s.slot i ≠ .garbage
  fresh : s.fresh = true
  own : ∀ id p, (id, p) ∈ s.live → s.ciObjectPoolAlloc id = some p ∧ s.ciObjectPoolFree id = some p

/-- A slot that is used is free again, or there is no memory for more slots. -/
def Bad : PoolOp → Prop
  | .register grows _ =>
      (∃ i < s.used, s.slot i = .null) ∨ (s.table ≠ none ∧ s.size = s.used ∧ grows = false)
  | .unregister _ => False

/-- What is behind the slots that are used was never written. -/
structure Inv : Prop where
  sound : Sound s
  behind : ∀ i, s.used ≤ i → s.slot i = .garbage
  positive : s.table ≠ none → 0 < s.size

variable {s : ObjectPools} {t : Nat → PoolSlot} {id n : Nat}

/-- Without a free slot none is found. -/
theorem findNull_none {i : Nat} (written : ∀ j, i ≤ j → j < i + n → ∃ p, t j = .pool p) : findNull t i n = some none := by
  induction n generalizing i with
  | zero => rfl
  | succ n ih =>
      obtain ⟨p, here⟩ := written i (Nat.le_refl i) (by omega)
      rw [findNull, here]
      exact ih (fun j low high => written j (by omega) (by omega))

/-- The slot that is found is one of them. -/
theorem findNull_some {i : Nat} (written : ∀ j, i ≤ j → j < i + n → t j ≠ .garbage)
    (free : ∃ j, i ≤ j ∧ j < i + n ∧ t j = .null) : ∃ id, findNull t i n = some (some id) ∧ id < i + n := by
  induction n generalizing i with
  | zero =>
      obtain ⟨j, low, high, -⟩ := free
      omega
  | succ n ih =>
      rw [findNull]
      cases here : t i with
      | garbage => exact absurd here (written i (Nat.le_refl i) (by omega))
      | null => exact ⟨i, rfl, Nat.lt_add_of_pos_right (Nat.succ_pos n)⟩
      | pool p =>
          obtain ⟨j, low, high, null⟩ := free
          have later : j ≠ i := by
            rintro rfl
            rw [here] at null
            cases null
          obtain ⟨id, found, inside⟩ := ih (i := i + 1) (fun j low high => written j (by omega) (by omega))
            ⟨j, by omega, by omega, null⟩
          exact ⟨id, found, by omega⟩

theorem pool?_eq_some {slot : PoolSlot} {p : Nat} (found : slot.pool? = some p) : slot = .pool p := by
  cases slot with
  | pool q =>
      cases found
      rfl
  | garbage => cases found
  | null => cases found

/-- A live ID lies in the slots that are used, and its slot holds its pool. -/
theorem Sound.entry (sound : Sound s) {p : Nat} (member : (id, p) ∈ s.live) : id < s.used ∧ s.slot id = .pool p := by
  have alloc := (sound.own id p member).1
  rw [ciObjectPoolAlloc] at alloc
  split at alloc
  · cases alloc
  · rename_i inside
    rw [Int.toNat_natCast] at alloc
    exact ⟨by omega, pool?_eq_some alloc⟩

theorem own_of_slot {p : Nat} (inside : id < s.used) (here : s.slot id = .pool p) :
    s.ciObjectPoolAlloc id = some p ∧ s.ciObjectPoolFree id = some p := by
  rw [ciObjectPoolAlloc, ciObjectPoolFree, if_neg (by omega), if_neg (by omega), Int.toNat_natCast, here]
  exact ⟨rfl, rfl⟩

/-- A pool in the first slot that is not used. -/
theorem Inv.put (inv : Inv s) (same : ∀ i < s.used, t i = s.slot i) (behind : ∀ i, s.used ≤ i → t i = .garbage)
    {size : Nat} (room : s.used < size) (creates : Bool) :
    ∃ u, s.put t size s.used creates = some u ∧ Inv u := by
  have other : ∀ {v : PoolSlot} {i : Nat}, i ≠ s.used → Function.update t s.used v i = t i :=
    fun apart => Function.update_of_ne apart _ _
  have below : ∀ id p, (id, p) ∈ s.live → id < s.used := fun id p member => (inv.sound.entry member).1
  refine ⟨_, if_pos room, ⟨room, ?_, ?_, ?_⟩, ?_, fun _ => Nat.zero_lt_of_lt room⟩
  · intro i inside
    show Function.update t s.used (if creates then PoolSlot.pool s.created else .null) i ≠ _
    by_cases here : i = s.used
    · subst here
      rw [Function.update_self]
      cases creates <;> exact PoolSlot.noConfusion
    · rw [other here, same i (by dsimp only at inside; omega)]
      exact inv.sound.written i (by dsimp only at inside; omega)
  · refine decide_eq_true (fun member => ?_)
    obtain ⟨⟨id, p⟩, entry, first⟩ := List.mem_map.mp member
    have inside := below id p entry
    dsimp only at first
    omega
  · intro id p member
    have old : (id, p) ∈ s.live ∨ creates = true ∧ id = s.used ∧ p = s.created := by
      cases creates with
      | false => exact .inl member
      | true =>
          rcases List.mem_append.mp member with old | new
          · exact .inl old
          · cases List.mem_singleton.mp new
            exact .inr ⟨rfl, rfl, rfl⟩
    rcases old with old | ⟨rfl, rfl, rfl⟩
    · obtain ⟨inside, here⟩ := inv.sound.entry old
      refine own_of_slot (Nat.lt_succ_of_lt inside) ?_
      show Function.update t s.used _ id = _
      rw [other (Nat.ne_of_lt inside), same id inside, here]
    · refine own_of_slot (Nat.lt_succ_self _) ?_
      show Function.update t s.used _ s.used = _
      rw [Function.update_self]
      rfl
  · intro i high
    show Function.update t s.used _ i = _
    rw [other (by dsimp only at high; omega)]
    exact behind i (by dsimp only at high; omega)

theorem slot_of_table (there : s.table = some t) (i : Nat) : s.slot i = t i := by
  rw [slot, there]

/-- Nothing is used without an array. -/
theorem Sound.none_used (sound : Sound s) (nothing : s.table = none) : s.used = 0 := by
  by_contra some
  exact sound.written 0 (Nat.pos_of_ne_zero some) (by rw [slot, nothing])

/-- Slots that are used and not free hold pools. -/
theorem Sound.pools (sound : Sound s) (there : s.table = some t) (free : ¬∃ i < s.used, s.slot i = .null) :
    ∀ i, 0 ≤ i → i < 0 + s.used → ∃ p, t i = .pool p := by
  intro i _ inside
  rw [Nat.zero_add] at inside
  have written := sound.written i inside
  rw [← slot_of_table there]
  cases here : s.slot i with
  | garbage => exact absurd here written
  | null => exact absurd ⟨i, inside, here⟩ free
  | pool p => exact ⟨p, rfl⟩

theorem Inv.register (inv : Inv s) (grows creates : Bool) (fine : ¬s.Bad (.register grows creates)) :
    ∃ u, s.ciObjectPoolRegister grows creates = some u ∧ Inv u := by
  rw [Bad, not_or] at fine
  obtain ⟨free, memory⟩ := fine
  rw [ciObjectPoolRegister]
  cases there : s.table with
  | none =>
      have zero := inv.sound.none_used there
      cases grows with
      | true =>
          have put := inv.put (t := fun _ => .garbage) (fun i inside => by omega) (fun _ _ => rfl)
            (show s.used < poolStep by rw [zero]; decide) creates
          rwa [zero] at put
      | false =>
          refine ⟨{ s with table := none, size := poolStep }, rfl, ⟨?_, ?_, inv.sound.fresh, ?_⟩, fun _ _ => rfl,
            fun _ => (by decide : 0 < poolStep)⟩
          · show s.used ≤ poolStep
            rw [zero]
            exact Nat.zero_le _
          · intro i inside
            exact absurd inside (by show ¬i < s.used; omega)
          · intro id p member
            have inside := (inv.sound.entry member).1
            omega
  | some t =>
      have same : ∀ i, t i = s.slot i := fun i => (slot_of_table there i).symm
      have room := inv.sound.room
      dsimp only
      rw [findNull_none (inv.sound.pools there free), Option.bind_some]
      dsimp only
      by_cases full : s.size = s.used
      · cases grows with
        | true =>
            rw [if_pos full, if_pos rfl]
            refine inv.put (fun i inside => ?_) (fun i high => ?_) (by rw [full]; exact Nat.lt_add_of_pos_right (by decide)) creates
            · rw [grown, if_pos (by omega), same]
            · rw [grown, if_neg (by omega)]
        | false => exact absurd ⟨by rw [there]; exact Option.some_ne_none t, full, rfl⟩ memory
      · rw [if_neg full]
        exact inv.put (fun i _ => same i) (fun i high => (same i).trans (inv.behind i high)) (by omega) creates

theorem Inv.unregister (inv : Inv s) (id : Int) : ∃ u, s.ciObjectPoolUnregister id = some u ∧ Inv u := by
  rw [ciObjectPoolUnregister]
  by_cases outside : s.used ≤ id ∨ id < 0
  · exact ⟨s, if_pos outside, inv⟩
  · rw [if_neg outside]
    have inside : id.toNat < s.used := by omega
    have written := inv.sound.written id.toNat inside
    cases there : s.table with
    | none => exact absurd (by rw [slot, there]) written
    | some t =>
        rw [slot_of_table there] at written
        dsimp only
        cases here : t id.toNat with
        | garbage => exact absurd here written
        | null => exact ⟨s, rfl, inv⟩
        | pool p =>
            refine ⟨_, rfl, ⟨inv.sound.room, ?_, inv.sound.fresh, ?_⟩, ?_, fun _ => inv.positive (by rw [there]; simp)⟩
            · intro i low
              show Function.update t id.toNat PoolSlot.null i ≠ _
              by_cases same : i = id.toNat
              · rw [same, Function.update_self]
                exact PoolSlot.noConfusion
              · rw [Function.update_of_ne same, ← slot_of_table there]
                exact inv.sound.written i low
            · intro j q member
              obtain ⟨entry, apart⟩ := List.mem_filter.mp member
              obtain ⟨low, place⟩ := inv.sound.entry entry
              refine own_of_slot low ?_
              show Function.update t id.toNat PoolSlot.null j = _
              rw [Function.update_of_ne (of_decide_eq_true apart), ← slot_of_table there]
              exact place
            · intro i high
              show Function.update t id.toNat PoolSlot.null i = _
              rw [Function.update_of_ne (by dsimp only at high; omega), ← slot_of_table there]
              exact inv.behind i high

theorem Inv.step (inv : Inv s) (op : PoolOp) (fine : ¬s.Bad op) : ∃ u, s.step op = some u ∧ Inv u := by
  cases op with
  | register grows creates => exact inv.register grows creates fine
  | unregister id => exact inv.unregister id

/-- A free slot is used again and one more counts as used: it was never written, or lies behind the array. -/
theorem Inv.breaks (inv : Inv s) (op : PoolOp) (bad : s.Bad op) {u : ObjectPools} (pass : s.step op = some u) :
    ¬Sound u := by
  intro sound
  cases op with
  | unregister => exact bad
  | register grows creates =>
      rw [ObjectPools.step, ciObjectPoolRegister] at pass
      cases there : s.table with
      | none =>
          have zero := inv.sound.none_used there
          rcases bad with ⟨i, inside, -⟩ | ⟨some, -⟩
          · omega
          · exact some there
      | some t =>
          rw [there] at pass
          dsimp only at pass
          by_cases free : ∃ i < s.used, s.slot i = .null
          · obtain ⟨i, inside, null⟩ := free
            obtain ⟨id, found, low⟩ := findNull_some (t := t) (i := 0) (n := s.used)
              (fun j _ high => by rw [← slot_of_table there]; exact inv.sound.written j (by omega))
              ⟨i, Nat.zero_le i, by omega, by rw [← slot_of_table there]; exact null⟩
            rw [found, Option.bind_some] at pass
            dsimp only at pass
            rw [ObjectPools.put, if_pos (by have room := inv.sound.room; omega)] at pass
            cases pass
            refine sound.written s.used (Nat.lt_succ_self _) ?_
            show Function.update t id _ s.used = _
            rw [Function.update_of_ne (by omega), ← slot_of_table there]
            exact inv.behind s.used (Nat.le_refl _)
          · obtain ⟨-, full, none⟩ := bad.resolve_left free
            have positive := inv.positive (by rw [there]; simp)
            rw [findNull_none (inv.sound.pools there free), Option.bind_some] at pass
            dsimp only at pass
            rw [if_pos full, none, if_neg (by decide)] at pass
            cases pass
            exact sound.written 0 (by dsimp only; omega) rfl

theorem init_inv : Inv init :=
  ⟨⟨Nat.le_refl 0, fun _ inside => absurd inside (Nat.not_lt_zero _), rfl, fun _ _ member => absurd member List.not_mem_nil⟩,
    fun _ _ => rfl, fun some => absurd rfl some⟩

end ObjectPools

/-- The registry is sound behind every call of a run, until a pool is registered while a slot that is used is free or
there is no memory for more slots, and not behind that call. -/
theorem object_pools_sound_iff (ops : List PoolOp) :
    (∀ done, done <+: ops → ∃ s, done.foldlM ObjectPools.step ObjectPools.init = some s ∧ s.Sound) ↔
      ∀ done op s, done ++ [op] <+: ops → done.foldlM ObjectPools.step ObjectPools.init = some s → ¬s.Bad op :=
  holds_iff_no_bad (fun _ inv => inv.sound)
    (fun _ op inv fine => inv.step op fine)
    (fun _ op _ inv bad pass => inv.breaks op bad pass) ObjectPools.init_inv ops

/-- A service is closed and opened again: two slots count as used, and only the first was ever written. -/
theorem reused_slot_counts_twice :
    ∃ s, ([.register true true, .unregister 0, .register true true] : List PoolOp).foldlM ObjectPools.step
        ObjectPools.init = some s ∧
      (s.used, s.slot 1) = (2, .garbage) ∧ ¬s.Sound :=
  ⟨_, rfl, rfl, fun sound => sound.written 1 (by decide) rfl⟩

end IcapService
