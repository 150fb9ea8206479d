import IcapService.GwRebuild
import IcapService.Lib.Transition
import Mathlib.Logic.Function.Basic
import Mathlib.Tactic.Ring

/-! The counters of `stats.c`: how they are incremented for a request and merged for the whole server.

A counter of kilobytes is a 64-bit number of kilobytes and the bytes behind them, which are an `unsigned int`. -/

namespace IcapService

open CString CInt Transition

/-- A `kbs_t`. -/
structure KbsT where
  kb : Nat
  bytes : Nat
  deriving DecidableEq

namespace KbsT

/-- The carry of the bytes into the kilobytes. -/
def carry (kb bytes : Nat) : KbsT := ⟨(kb + bytes / 1024) % 18446744073709551616, bytes % 1024⟩

/-- `STATS_KBS_INC`; the sum is kept in an `unsigned int`. -/
def inc (k : KbsT) (count : Int) : KbsT := carry k.kb (u32 (k.bytes + count))

/-- `ci_stat_memblock_merge` on one counter. -/
def merge (dest src : KbsT) : KbsT :=
  carry ((dest.kb + src.kb) % 18446744073709551616) (u32 ((dest.bytes : Int) + src.bytes))

/-- The counter shows this number of bytes. -/
def Exact (k : KbsT) (total : Nat) : Prop := k.kb * 1024 + k.bytes = total ∧ k.bytes < 1024

theorem carry_exact {kb bytes total : Nat} (small : total < 18446744073709551616)
    (same : kb * 1024 + bytes = total) : (carry kb bytes).Exact total := by
  simp only [Exact, carry]
  have whole : (kb + bytes / 1024) % 18446744073709551616 = kb + bytes / 1024 := Nat.mod_eq_of_lt (by omega)
  rw [whole]
  omega

/-- An increment is exact as long as the sum fits the `unsigned int`. -/
theorem inc_exact_iff {k : KbsT} {total count : Nat} (exact : k.Exact total)
    (small : total + count < 18446744073709551616) :
    (k.inc count).Exact (total + count) ↔ k.bytes + count < 4294967296 := by
  obtain ⟨same, below⟩ := exact
  constructor
  · intro kept
    by_contra large
    have lost : u32 ((k.bytes : Int) + count) < k.bytes + count := by
      have bound := u32_lt ((k.bytes : Int) + count)
      omega
    have shown := kept.1
    simp only [inc, carry] at shown
    generalize u32 ((k.bytes : Int) + count) = sum at lost shown
    have part := Nat.mod_le (k.kb + sum / 1024) 18446744073709551616
    omega
  · intro fits
    have sum : u32 ((k.bytes : Int) + count) = k.bytes + count := by
      have range := u32_of_range ((k.bytes : Int) + count) (by omega) (by omega)
      omega
    simp only [inc, sum]
    exact carry_exact small (by omega)

theorem merge_exact {dest src : KbsT} {total added : Nat} (exact : dest.Exact total) (exact' : src.Exact added)
    (small : total + added < 18446744073709551616) : (dest.merge src).Exact (total + added) := by
  obtain ⟨same, below⟩ := exact
  obtain ⟨same', below'⟩ := exact'
  have value : (dest.kb + src.kb) * 1024 + (dest.bytes + src.bytes) = total + added := by
    rw [← same, ← same']
    ring
  have low : dest.kb + src.kb < 18446744073709551616 := by
    clear below below'
    omega
  have sum : u32 ((dest.bytes : Int) + src.bytes) = dest.bytes + src.bytes := by
    have range := u32_of_range ((dest.bytes : Int) + src.bytes) (by omega) (by omega)
    omega
  rw [merge, sum, Nat.mod_eq_of_lt low]
  exact carry_exact small value

end KbsT

/-- The body sizes become an `int`, and an `unsigned int` again where they are added. -/
theorem inc_wrap32 (k : KbsT) (size : Nat) : k.inc (wrap32 size) = k.inc size := by
  have same : u32 ((k.bytes : Int) + wrap32 size) = u32 ((k.bytes : Int) + size) := by
    unfold u32 wrap32
    omega
  simp only [KbsT.inc, same]

/-! ### Memory blocks -/

/-- A `struct stat_memblock`. -/
structure StatMemblock where
  counters64 : List Nat
  counterskbs : List KbsT
  deriving DecidableEq

namespace StatMemblock

/-- `STATS_KBS_INC`; an ID outside of the block has no result. -/
def statsKbsInc (b : StatMemblock) (ID count : Nat) : Option StatMemblock :=
  b.counterskbs[ID]?.map fun k => { b with counterskbs := b.counterskbs.set ID (k.inc count) }

/-- `ci_stat_kbs_inc`; `count` is an `int`. -/
def ciStatKbsInc (b : StatMemblock) (ID count : Int) : StatMemblock :=
  if ID < 0 then b
  else
    match b.counterskbs[ID.toNat]? with
    | none => b
    | some k => { b with counterskbs := b.counterskbs.set ID.toNat (k.inc count) }

/-- `ci_stat_uint64_inc`. -/
def ciStatUint64Inc (b : StatMemblock) (ID : Int) (count : Int) : StatMemblock :=
  if ID < 0 then b
  else
    match b.counters64[ID.toNat]? with
    | none => b
    | some n => { b with counters64 := b.counters64.set ID.toNat ((n + count) % 18446744073709551616).toNat }

/-- `ci_stat_memblock_reset`. -/
def reset (b : StatMemblock) : StatMemblock := ⟨b.counters64.map fun _ => 0, b.counterskbs.map fun _ => ⟨0, 0⟩⟩

/-- The loops of `ci_stat_memblock_merge`: up to the end of the shorter array. -/
def mergeFrom {α : Type} (add : α → α → α) : List α → List α → List α
  | dest :: rest, src :: more => add dest src :: mergeFrom add rest more
  | dest, _ => dest

/-- `ci_stat_memblock_merge`. -/
def merge (dest src : StatMemblock) : StatMemblock where
  counters64 := mergeFrom (fun m n => (m + n) % 18446744073709551616) dest.counters64 src.counters64
  counterskbs := mergeFrom KbsT.merge dest.counterskbs src.counterskbs

theorem mergeFrom_get {α : Type} (add : α → α → α) (dest src : List α) (n : Nat) :
    (mergeFrom add dest src)[n]? = match dest[n]?, src[n]? with
      | some a, some b => some (add a b)
      | a, _ => a := by
  induction dest generalizing src n with
  | nil => cases src <;> simp [mergeFrom]
  | cons a rest ih =>
      cases src with
      | nil =>
          simp only [mergeFrom, List.getElem?_nil]
          cases (a :: rest)[n]? <;> rfl
      | cons b more =>
          cases n with
          | zero => rfl
          | succ n =>
              simp only [mergeFrom, List.getElem?_cons_succ]
              exact ih more n

end StatMemblock

/-! ### The increments of a request -/

/-- The IDs of a service or of the server for the byte counters; -1 where a counter was not registered. -/
structure ByteStats where
  bytesIn : Int
  bytesOut : Int
  httpBytesIn : Int
  httpBytesOut : Int
  bodyBytesIn : Int
  bodyBytesOut : Int

/-- The byte counts of a request. -/
structure ByteCounts where
  bytesIn : Nat
  bytesOut : Nat
  httpBytesIn : Nat
  httpBytesOut : Nat
  bodyBytesIn : Nat
  bodyBytesOut : Nat

/-- The counters of these IDs that `process_request` increments, and by how much. -/
def ByteStats.incs (ids : ByteStats) (counts : ByteCounts) : List (Nat × Nat) :=
  let all := [(ids.bytesIn, counts.bytesIn), (ids.bytesOut, counts.bytesOut), (ids.httpBytesIn, counts.httpBytesIn),
    (ids.httpBytesOut, counts.httpBytesOut), (ids.bodyBytesIn, counts.bodyBytesIn),
    (ids.bodyBytesOut, counts.bodyBytesOut)]
  (all.filter (fun inc => 0 ≤ inc.1)).map (fun inc => (inc.1.toNat, inc.2))

/-- The increments of `process_request`: those of the server, then those of the service. -/
def processRequestIncs (server : ByteStats) (service : Option ByteStats) (counts : ByteCounts) : List (Nat × Nat) :=
  server.incs counts ++ (service.map (fun ids => ids.incs counts)).getD []

/-! ### Runs -/

/-- What is done to a counter: an increment of `process_request`, the one of `rebuild_request_body` for a body of
some size, and a merge of one block into another. -/
inductive StatOp where
  | kbsInc (block ID count : Nat)
  | rebuild (block : Nat) (ID : Int) (size : Nat)
  | merge (dest src : Nat)

/-- The increments of one `process_request`. -/
def requestOps (block : Nat) (server : ByteStats) (service : Option ByteStats) (counts : ByteCounts) : List StatOp :=
  (processRequestIncs server service counts).map fun inc => .kbsInc block inc.1 inc.2

/-- The blocks of the server, with the number of bytes that were added to each counter. -/
structure StatRun where
  blocks : Nat → StatMemblock
  total : Nat → Nat → Nat

namespace StatRun

/-- The blocks before anything is counted. -/
def start (blocks : Nat → StatMemblock) : StatRun := ⟨fun block => (blocks block).reset, fun _ _ => 0⟩

/-- Add to a counter of a block. -/
def added (s : StatRun) (block ID count : Nat) : Nat → Nat → Nat :=
  Function.update s.total block (Function.update (s.total block) ID (s.total block ID + count))

def step (s : StatRun) : StatOp → Option StatRun
  | .kbsInc block ID count =>
      ((s.blocks block).statsKbsInc ID count).map fun b =>
        { s with blocks := Function.update s.blocks block b, total := s.added block ID count }
  | .rebuild block ID size =>
      some
        { s with
          blocks := Function.update s.blocks block ((s.blocks block).ciStatKbsInc ID (wrap32 size))
          total := if 0 ≤ ID then s.added block ID.toNat size else s.total }
  | .merge dest src =>
      some
        { s with
          blocks := Function.update s.blocks dest ((s.blocks dest).merge (s.blocks src))
          total := Function.update s.total dest fun ID =>
            s.total dest ID +
              if ID < (s.blocks dest).counterskbs.length ∧ ID < (s.blocks src).counterskbs.length then s.total src ID
              else 0 }

/-- Every counter is exact. -/
def Exact (s : StatRun) : Prop :=
  ∀ block ID k, (s.blocks block).counterskbs[ID]? = some k → KbsT.Exact k (s.total block ID)

/-- An increment fits an `unsigned int` on top of the bytes of its counter. -/
def Fits (s : StatRun) : StatOp → Prop
  | .kbsInc block ID count => ∀ k ∈ (s.blocks block).counterskbs[ID]?, k.bytes + count < 4294967296
  | .rebuild block ID size => 0 ≤ ID → ∀ k ∈ (s.blocks block).counterskbs[ID.toNat]?, k.bytes + size < 4294967296
  | .merge _ _ => True

/-- The true totals stay below 2^64. -/
def Bounded (s : StatRun) (op : StatOp) : Prop :=
  ∀ t, s.step op = some t → ∀ block ID, t.total block ID < 18446744073709551616

variable {s t : StatRun}

/-- One counter of one block is changed. -/
theorem Exact.set {block ID count : Nat} {k k' : KbsT} {b : StatMemblock} (exact : s.Exact)
    (present : (s.blocks block).counterskbs[ID]? = some k)
    (set : b.counterskbs = (s.blocks block).counterskbs.set ID k')
    (kept : k.Exact (s.total block ID) → k'.Exact (s.total block ID + count)) :
    StatRun.Exact { s with blocks := Function.update s.blocks block b, total := s.added block ID count } := by
  intro other n found held
  simp only [added]
  by_cases same : other = block
  · subst same
    simp only [Function.update_self] at held ⊢
    rw [set, List.getElem?_set] at held
    split at held
    · rename_i this
      subst this
      split at held
      · cases held
        rw [Function.update_self]
        exact kept (exact _ _ _ present)
      · cases held
    · rename_i different
      rw [Function.update_of_ne (Ne.symm different)]
      exact exact _ _ _ held
  · simp only [Function.update_of_ne same] at held ⊢
    exact exact _ _ _ held

theorem Exact.merge {dest src : Nat} (exact : s.Exact) (pass : s.step (.merge dest src) = some t)
    (bounded : s.Bounded (.merge dest src)) : t.Exact := by
  have below := bounded t pass
  simp only [step, Option.some.injEq] at pass
  subst pass
  intro other n found held
  have below := below other n
  by_cases same : other = dest
  · subst same
    simp only [Function.update_self] at held below ⊢
    simp only [StatMemblock.merge, StatMemblock.mergeFrom_get] at held
    cases first : (s.blocks other).counterskbs[n]? with
    | none => simp [first] at held
    | some a =>
        have inside := (List.getElem?_eq_some_iff.mp first).1
        cases second : (s.blocks src).counterskbs[n]? with
        | none =>
            have outside := List.getElem?_eq_none_iff.mp second
            rw [first, second] at held
            cases held
            rw [if_neg (by omega)]
            exact exact _ _ _ first
        | some b =>
            have inside' := (List.getElem?_eq_some_iff.mp second).1
            rw [first, second] at held
            cases held
            rw [if_pos ⟨inside, inside'⟩] at below ⊢
            exact KbsT.merge_exact (exact _ _ _ first) (exact _ _ _ second) below
  · simp only [Function.update_of_ne same] at held ⊢
    exact exact _ _ _ held

theorem Exact.step {op : StatOp} (exact : s.Exact) (fits : s.Fits op) (bounded : s.Bounded op)
    (pass : s.step op = some t) : t.Exact := by
  cases op with
  | kbsInc block ID count =>
      have below := bounded t pass block ID
      obtain ⟨b, incremented, rfl⟩ := Option.map_eq_some_iff.mp pass
      obtain ⟨k, present, rfl⟩ := Option.map_eq_some_iff.mp incremented
      simp only [added, Function.update_self] at below
      exact exact.set present rfl fun held => (KbsT.inc_exact_iff held below).mpr (fits k present)
  | rebuild block ID size =>
      have below := bounded t pass block ID.toNat
      simp only [StatRun.step, Option.some.injEq] at pass
      subst pass
      simp only [StatMemblock.ciStatKbsInc]
      by_cases negative : ID < 0
      · have skipped : ¬ 0 ≤ ID := by omega
        simp only [if_pos negative, if_neg skipped, Function.update_eq_self]
        exact exact
      · have counted : 0 ≤ ID := by omega
        simp only [if_pos counted, if_neg negative] at below ⊢
        cases present : (s.blocks block).counterskbs[ID.toNat]? with
        | none =>
            intro other n found held
            simp only [Function.update_eq_self] at held
            have different : ¬ (other = block ∧ n = ID.toNat) := by
              rintro ⟨rfl, rfl⟩
              rw [present] at held
              cases held
            simp only [added]
            by_cases same : other = block
            · subst same
              rw [Function.update_self, Function.update_of_ne (fun this => different ⟨rfl, this⟩)]
              exact exact _ _ _ held
            · rw [Function.update_of_ne same]
              exact exact _ _ _ held
        | some k =>
            simp only [added, Function.update_self] at below
            refine exact.set present rfl fun held => ?_
            rw [inc_wrap32]
            exact (KbsT.inc_exact_iff held below).mpr (fits counted k present)
  | merge dest src => exact exact.merge pass bounded

/-- An increment that does not fit leaves its counter wrong. -/
theorem Exact.fits {op : StatOp} (exact : s.Exact) (bounded : s.Bounded op) (pass : s.step op = some t)
    (after : t.Exact) : s.Fits op := by
  cases op with
  | kbsInc block ID count =>
      intro k present
      have below := bounded t pass block ID
      obtain ⟨b, incremented, rfl⟩ := Option.map_eq_some_iff.mp pass
      obtain ⟨k', present', rfl⟩ := Option.map_eq_some_iff.mp incremented
      cases present.symm.trans present'
      have inside := (List.getElem?_eq_some_iff.mp present).1
      simp only [added, Function.update_self] at below
      have shown := after block ID (k.inc count) (by
        simp only [Function.update_self]
        exact List.getElem?_set_self inside)
      simp only [added, Function.update_self] at shown
      exact (KbsT.inc_exact_iff (exact _ _ _ present) below).mp shown
  | rebuild block ID size =>
      intro counted k present
      have below := bounded t pass block ID.toNat
      simp only [StatRun.step, Option.some.injEq] at pass
      subst pass
      have inside := (List.getElem?_eq_some_iff.mp present).1
      have found : (s.blocks block).counterskbs[ID.toNat]? = some k := present
      simp only [if_pos counted, added, Function.update_self] at below
      have shown := after block ID.toNat (k.inc (wrap32 size)) (by
        simp only [Function.update_self, StatMemblock.ciStatKbsInc, if_neg (show ¬ ID < 0 by omega), found]
        exact List.getElem?_set_self inside)
      simp only [if_pos counted, added, Function.update_self] at shown
      rw [inc_wrap32] at shown
      exact (KbsT.inc_exact_iff (exact _ _ _ present) below).mp shown
  | merge dest src => trivial

theorem start_exact (blocks : Nat → StatMemblock) : (start blocks).Exact := by
  intro block ID k held
  simp only [start, StatMemblock.reset, List.getElem?_map, Option.map_eq_some_iff] at held
  obtain ⟨-, -, rfl⟩ := held
  exact ⟨rfl, Nat.succ_pos _⟩

end StatRun

open StatRun

/-- In every run whose increments fit, and whose true totals stay below 2^64, every counter is exact; an increment
that does not fit is lost for its counter. -/
theorem traffic_counters_exact (blocks : Nat → StatMemblock) (s : StatRun)
    (reached : Reaches StatRun.step (fun s op => s.Fits op ∧ s.Bounded op) (start blocks) s) :
    s.Exact ∧ ∀ op t, s.Bounded op → s.step op = some t → (t.Exact ↔ s.Fits op) := by
  have exact := reached.inv (P := StatRun.Exact) (start_exact blocks)
    (fun _ _ _ held allowed pass => held.step allowed.1 allowed.2 pass)
  exact ⟨exact, fun op t bounded pass =>
    ⟨fun after => exact.fits bounded pass after, fun fits => exact.step fits bounded pass⟩⟩

/-- A block with one counter of kilobytes. -/
def oneCounter : StatMemblock := ⟨[], [⟨0, 0⟩]⟩

/-- A request with 3000 bytes, for a server that counts the bytes received. -/
def smallRequest : List StatOp := requestOps 0 ⟨0, -1, -1, -1, -1, -1⟩ none ⟨3000, 0, 0, 0, 0, 0⟩

def smallRequestRun : StatRun :=
  ⟨Function.update (start fun _ => oneCounter).blocks 0 ⟨[], [⟨2, 952⟩]⟩, (start fun _ => oneCounter).added 0 0 3000⟩

theorem traffic_counters_exact_request :
    smallRequest = [.kbsInc 0 0 3000] ∧ smallRequestRun.Exact ∧ smallRequestRun.total 0 0 = 3000 := by
  have pass : (start fun _ => oneCounter).step (.kbsInc 0 0 3000) = some smallRequestRun := rfl
  have bounded : (start fun _ => oneCounter).Bounded (.kbsInc 0 0 3000) := by
    intro u step block ID
    rw [pass] at step
    cases step
    simp only [smallRequestRun, StatRun.added, start, Function.update_apply]
    split
    · rw [Function.update_apply]
      split <;> decide
    · exact Nat.succ_pos _
  have fits : (start fun _ => oneCounter).Fits (.kbsInc 0 0 3000) := by
    intro k present
    cases (show some (⟨0, 0⟩ : KbsT) = some k from present)
    decide
  exact ⟨rfl, (traffic_counters_exact (fun _ => oneCounter) _ (.later .here ⟨fits, bounded⟩ pass)).1, rfl⟩

/-- A request of 4 gigabytes is not counted. -/
theorem large_request_lost :
    ∃ t, (start fun _ => oneCounter).step (.kbsInc 0 0 4294967296) = some t ∧ t.total 0 0 = 4294967296 ∧
      (t.blocks 0).counterskbs = [⟨0, 0⟩] ∧ ¬ t.Exact := by
  refine ⟨_, rfl, rfl, rfl, fun exact => ?_⟩
  have shown := (exact 0 0 ⟨0, 0⟩ rfl).1
  cases shown

end IcapService
