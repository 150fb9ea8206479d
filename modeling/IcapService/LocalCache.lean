import IcapService.Lib.Buffer
import IcapService.Lib.Linked
import IcapService.Lib.Transition
import IcapService.LookupTable

/-! The local cache of `cache.c`.

The entries of a cache of `n` are numbered, a pointer is the number of an entry. Every entry is on the queue from the
oldest to the newest one, and on the chain of its hash while it has a key. Keys are strings, as `ci_str_ops`
takes them. What would follow a NULL pointer, fail an assertion or copy a negative size has no result. -/

namespace IcapService

open CString CInt Linked Transition

/-- `hash_table_size` of a cache of `n` entries. -/
def cacheHashSize (n : Nat) : Nat := if 63 < n then growHash n 63 else 63

/-- The chain of a key; `stringlen` counts the NUL, and the length is passed as an `int`. -/
def cacheHash (n : Nat) (key : Bytes) : Fin (cacheHashSize n + 1) :=
  ⟨ciHashCompute (cacheHashSize n) key (wrap32 (key.length + 1)), Nat.lt_succ_of_le (ciHashCompute_le _ _ _)⟩

/-- A `struct ci_cache_entry`; `key` and `val` are what the pointers lead to. -/
structure CacheEntry (n : Nat) where
  hash : Fin (cacheHashSize n + 1)
  time : Nat
  key : Option Bytes
  val : Option Bytes
  valSize : Int
  qnext : Option (Fin n)
  hnext : Option (Fin n)

/-- A `struct ci_local_cache_data`, with the ttl of its cache. -/
structure LocalCache (n : Nat) where
  ttl : Int
  firstQueueEntry : Option (Fin n)
  lastQueueEntry : Fin n
  hashTable : Fin (cacheHashSize n + 1) → Option (Fin n)
  entries : Fin n → CacheEntry n

/-- What `ci_local_cache_update` is called with, and what the allocator has for the key and for the value. -/
structure CacheUpdate where
  key : Bytes
  val : Option Bytes
  copyToCache : Option (Bytes → (size : Nat) → Option (Buffer size))
  keyAlloc : Bool
  valAlloc : Bool

/-- What is put into a block of `size` bytes; nothing when `copy_to_cache` fails. -/
def CacheUpdate.copy (u : CacheUpdate) (val : Bytes) (size : Nat) : Option Bytes :=
  match u.copyToCache with
  | none => some (val.take size)
  | some copy => (copy val size).map Buffer.bytes

namespace LocalCache

variable {n : Nat}

/-- `ci_local_cache_init`. The size of a value is not set there and is not read while there is no value. -/
def new (positive : 0 < n) (ttl : Int) : LocalCache n where
  ttl := ttl
  firstQueueEntry := some ⟨0, positive⟩
  lastQueueEntry := ⟨n - 1, Nat.sub_lt positive Nat.one_pos⟩
  hashTable _ := none
  entries i := ⟨0, 0, none, none, 0, if h : i.val + 1 < n then some ⟨i.val + 1, h⟩ else none, none⟩

def qnext (c : LocalCache n) (i : Fin n) : Option (Fin n) := (c.entries i).qnext

def hnext (c : LocalCache n) (i : Fin n) : Option (Fin n) := (c.entries i).hnext

/-- Change the fields of one entry. -/
def modify (c : LocalCache n) (e : Fin n) (f : CacheEntry n → CacheEntry n) : LocalCache n :=
  { c with entries := Function.update c.entries e (f (c.entries e)) }

/-- The loop of `ci_local_cache_search` over a chain. -/
def searchChain (c : LocalCache n) (key : Bytes) : Nat → Option (Fin n) → Option (Option (Fin n))
  | _, none => some none
  | 0, some _ => none
  | fuel + 1, some e =>
      (c.entries e).key.bind fun stored =>
        if stored = key then some (some e)
        else if (c.entries e).hnext = some e then none
        else searchChain c key fuel (c.entries e).hnext

/-- `ci_local_cache_search`: the value behind the key, if it is found; a value without bytes is NULL. -/
def search (c : LocalCache n) (now : Nat) (key : Bytes) : Option (Option (Option Bytes)) :=
  (c.searchChain key n (c.hashTable (cacheHash n key))).map fun found =>
    found.bind fun e =>
      if c.ttl < (now : Int) - (c.entries e).time then none
      else some (if (c.entries e).valSize = 0 then none else (c.entries e).val)

/-- The oldest entry is too young to be given up. -/
def refuses (c : LocalCache n) (now : Nat) (e : Fin n) : Bool := decide ((now : Int) - (c.entries e).time < c.ttl)

/-- Take an entry out of the chain of its hash, if it is there. -/
def unlink (c : LocalCache n) (e : Fin n) : Option (LocalCache n) :=
  let hash := (c.entries e).hash
  match c.hashTable hash with
  | none => some c
  | some tmp =>
      if tmp = e then some { c with hashTable := Function.update c.hashTable hash (c.entries tmp).hnext }
      else
        (findBefore c.hnext e n tmp).map fun tmp =>
          match (c.entries tmp).hnext with
          | none => c
          | some x => c.modify tmp (fun entry => { entry with hnext := (c.entries x).hnext })

/-- Release the data of an entry and take it out of its chain. -/
def recycle (c : LocalCache n) (e : Fin n) : Option (LocalCache n) :=
  ((c.modify e (fun entry =>
      { entry with key := none, val := if 0 < entry.valSize then none else entry.val })).unlink e).map fun c =>
    c.modify e (fun entry => { entry with hnext := none, time := 0, hash := 0 })

/-- Give the entry its data, make it the last one of the queue and the first one of its chain. -/
def store (c : LocalCache n) (e : Fin n) (now : Nat) (key : Bytes) (val : Option Bytes) (valSize : Int) : LocalCache n :=
  let hash := cacheHash n key
  let c := c.modify e (fun entry =>
    { entry with key := some key, val := val, valSize := valSize, hash := hash, time := now })
  let c := { c with firstQueueEntry := c.qnext e }
  let c := c.modify c.lastQueueEntry (fun entry => { entry with qnext := some e })
  let c := { c with lastQueueEntry := e }
  let c := c.modify e (fun entry => { entry with qnext := none, hnext := c.hashTable hash })
  { c with hashTable := Function.update c.hashTable hash (some e) }

/-- The part of `ci_local_cache_update` that fills an entry. -/
def fill (c : LocalCache n) (e : Fin n) (now : Nat) (u : CacheUpdate) : Option (Bool × LocalCache n) :=
  if u.keyAlloc = false then some (false, c)
  else
    match u.val with
    | none | some [] => some (true, c.store e now u.key none 0)
    | some val =>
        let size := wrap32 val.length
        let failed := c.modify e (fun entry => { entry with val := none, valSize := size })
        if u.valAlloc = false then some (false, failed)
        else if size < 0 then none
        else
          match u.copy val size.toNat with
          | none => some (false, failed)
          | some bytes => some (true, c.store e now u.key (some bytes) size)

/-- `ci_local_cache_update`. -/
def update (c : LocalCache n) (now : Nat) (u : CacheUpdate) : Option (Bool × LocalCache n) :=
  c.firstQueueEntry.bind fun e =>
    if c.refuses now e then some (false, c) else (c.recycle e).bind fun c => c.fill e now u

end LocalCache

/-! ### Runs -/

/-- What a successful update has stored. -/
structure Stored where
  key : Bytes
  val : Option Bytes
  time : Nat
  deriving DecidableEq

/-- An update that was not refused: the entry that it has recycled, and what it has stored there if it
was successful. -/
structure Recycled (n : Nat) where
  slot : Fin n
  stored : Option Stored
  deriving DecidableEq

/-- The value that an update is to store. -/
def CacheUpdate.value (u : CacheUpdate) : Option Bytes :=
  match u.val with
  | none | some [] => none
  | some val => u.copy val val.length

/-- A call, with the time that has passed since the last one. -/
inductive CacheOp where
  | update (passed : Nat) (u : CacheUpdate)
  | search (passed : Nat) (key : Bytes)

/-- A cache at some time, with its updates from the last one on. -/
structure CacheState (n : Nat) where
  cache : LocalCache n
  now : Nat
  log : List (Recycled n)

namespace CacheState

variable {n : Nat}

def new (positive : 0 < n) (ttl : Int) (start : Nat) : CacheState n := ⟨.new positive ttl, start, []⟩

def step (s : CacheState n) : CacheOp → Option (CacheState n)
  | .update passed u =>
      let now := s.now + passed
      s.cache.firstQueueEntry.bind fun e =>
        (s.cache.update now u).map fun out =>
          ⟨out.2, now,
            if s.cache.refuses now e then s.log
            else ⟨e, if out.1 then some ⟨u.key, u.value, now⟩ else none⟩ :: s.log⟩
  | .search passed key => (s.cache.search (s.now + passed) key).map fun _ => { s with now := s.now + passed }

end CacheState

/-- The update has stored something under the key. -/
def Recycled.stores {n : Nat} (r : Recycled n) (key : Bytes) : Bool := r.stored.any (fun x => decide (x.key = key))

/-- There is memory for the data, and the value can be copied. -/
def CacheUpdate.Succeeds (u : CacheUpdate) : Prop :=
  u.keyAlloc = true ∧ ∀ val, u.val = some val → val ≠ [] → u.valAlloc = true ∧ (u.copy val val.length).isSome

namespace CacheState

variable {n : Nat}

/-- The last successful update of the key stored this value, is not older than the ttl, and its entry has not been
recycled since. -/
def Current (s : CacheState n) (now : Nat) (key : Bytes) (val : Option Bytes) : Prop :=
  ∃ newer slot older, ∃ time : Nat, s.log = newer ++ ⟨slot, some ⟨key, val, time⟩⟩ :: older ∧
    (∀ r ∈ newer, r.stores key = false ∧ r.slot ≠ slot) ∧ (now : Int) - time ≤ s.cache.ttl

/-- An update that is not refused is successful only if there are several entries, and copies a value whose size is
an `int`. -/
def Allowed (s : CacheState n) : CacheOp → Prop
  | .update passed u =>
      (∀ e, s.cache.firstQueueEntry = some e → s.cache.refuses (s.now + passed) e = false) → u.keyAlloc = true →
        (∀ val, u.val = some val → u.valAlloc = true → val.length < 2 ^ 31) ∧ (u.Succeeds → 2 ≤ n)
  | .search _ _ => True

/-- All entries are on the queue in the order of their times, those with a key are on the chain of its hash, searches
find what is current, and calls have a result. -/
structure Sound (s : CacheState n) : Prop where
  queue : ∃ q, Chain s.cache.qnext s.cache.firstQueueEntry q ∧ q.Nodup ∧ (∀ i, i ∈ q) ∧
    q.getLast? = some s.cache.lastQueueEntry ∧
    q.Pairwise (fun i j => (s.cache.entries i).time ≤ (s.cache.entries j).time)
  chains : ∀ hash, ∃ l, Chain s.cache.hnext (s.cache.hashTable hash) l ∧ l.Nodup ∧
    ∀ i, i ∈ l ↔ ∃ key, (s.cache.entries i).key = some key ∧ cacheHash n key = hash
  answers : ∀ now key, s.now ≤ now → ∃ answer, s.cache.search now key = some answer ∧
    ∀ val, answer = some val ↔ s.Current now key val
  runs : ∀ op, s.Allowed op → (s.step op).isSome

end CacheState

/-! ### The updates whose entries have not been recycled -/

/-- The successful updates whose entries no later update has recycled. -/
def live {n : Nat} : List (Recycled n) → List (Recycled n)
  | [] => []
  | r :: log =>
      let rest := (live log).filter (fun x => decide (x.slot ≠ r.slot))
      if r.stored.isSome then r :: rest else rest

section Live

variable {n : Nat} {log newer older : List (Recycled n)} {r : Recycled n}

theorem live_stored (member : r ∈ live log) : r.stored.isSome = true := by
  induction log with
  | nil => cases member
  | cons x log ih =>
      simp only [live] at member
      split at member
      · rename_i stored
        rcases List.mem_cons.mp member with rfl | member
        · exact stored
        · exact ih (List.mem_of_mem_filter member)
      · exact ih (List.mem_of_mem_filter member)

theorem live_append :
    live (newer ++ older) =
      live newer ++ (live older).filter (fun x => decide (∀ y ∈ newer, x.slot ≠ y.slot)) := by
  induction newer with
  | nil => simp [live]
  | cons y newer ih =>
      have both : ((live older).filter (fun x => decide (∀ z ∈ newer, x.slot ≠ z.slot))).filter
          (fun x => decide (x.slot ≠ y.slot)) = (live older).filter (fun x => decide (∀ z ∈ y :: newer, x.slot ≠ z.slot)) := by
        rw [List.filter_filter]
        refine List.filter_congr (fun x _ => ?_)
        simp
      simp only [List.cons_append, live, ih, List.filter_append, both]
      split <;> rfl

theorem live_not_stores {key : Bytes} (none : ∀ r ∈ log, r.stores key = false) : ∀ r ∈ live log, r.stores key = false := by
  induction log with
  | nil => simp [live]
  | cons x log ih =>
      intro r member
      have behind := ih (fun r member => none r (List.mem_cons_of_mem _ member))
      simp only [live] at member
      split at member
      · rcases List.mem_cons.mp member with rfl | member
        · exact none r List.mem_cons_self
        · exact behind r (List.mem_of_mem_filter member)
      · exact behind r (List.mem_of_mem_filter member)

/-- The first of the live updates of a key is the last update of the key, if that is live at all. -/
theorem find_live_iff {key : Bytes} (recent : live log <+: log.filter (fun r => r.stored.isSome)) :
    (live log).find? (fun x => x.stores key) = some r ↔
      ∃ newer older, log = newer ++ r :: older ∧ r.stores key = true ∧
        ∀ x ∈ newer, x.stores key = false ∧ x.slot ≠ r.slot := by
  constructor
  · intro found
    have successes : (log.filter (fun r => r.stored.isSome)).find? (fun x => x.stores key) = some r := by
      obtain ⟨rest, whole⟩ := recent
      rw [← whole, List.find?_append, found]
      rfl
    have last : log.find? (fun x => x.stores key) = some r := by
      rw [List.find?_filter] at successes
      rw [← successes]
      refine List.find?_congr (fun x _ => ?_)
      cases stored : x.stored <;> simp [Recycled.stores, stored]
    obtain ⟨own, newer, older, split, before⟩ := List.find?_eq_some_iff_append.mp last
    have apart : ∀ x ∈ newer, x.stores key = false := fun x member => by simpa using before x member
    refine ⟨newer, older, split, own, fun x member => ⟨apart x member, ?_⟩⟩
    have here := List.mem_of_find?_eq_some found
    rw [split, live_append, List.mem_append] at here
    rcases here with here | here
    · rw [live_not_stores apart r here] at own
      cases own
    · have free := List.of_mem_filter here
      exact (of_decide_eq_true free x member).symm
  · rintro ⟨newer, older, rfl, own, apart⟩
    have stored : r.stored.isSome = true := by
      cases stored : r.stored with
      | none =>
          rw [Recycled.stores, stored] at own
          cases own
      | some x => rfl
    have free : decide (∀ y ∈ newer, r.slot ≠ y.slot) = true :=
      decide_eq_true (fun y member => (apart y member).2.symm)
    rw [live_append, List.find?_append,
      List.find?_eq_none.mpr (fun x member => by simp [live_not_stores (fun y m => (apart y m).1) x member]), live,
      if_pos stored, List.filter_cons, if_pos free, List.find?_cons, own]
    rfl

end Live

end IcapService
