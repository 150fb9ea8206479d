import IcapService.LocalCache

/-! The two lists of the local cache through a run. -/

namespace IcapService

open CString CInt Linked Transition

namespace LocalCache

variable {n : Nat} {c d : LocalCache n} {e : Fin n} {now : Nat} {log : List (Recycled n)} {q rest : List (Fin n)}

/-! ### Changing one entry -/

theorem modify_hnext (c : LocalCache n) (e : Fin n) (f : CacheEntry n → CacheEntry n) :
    (c.modify e f).hnext = Function.update c.hnext e (f (c.entries e)).hnext := by
  funext i
  by_cases here : i = e
  · subst here
    simp [hnext, modify]
  · simp [hnext, modify, here]

theorem modify_qnext (c : LocalCache n) (e : Fin n) (f : CacheEntry n → CacheEntry n) :
    (c.modify e f).qnext = Function.update c.qnext e (f (c.entries e)).qnext := by
  funext i
  by_cases here : i = e
  · subst here
    simp [qnext, modify]
  · simp [qnext, modify, here]

@[simp] theorem modify_here (c : LocalCache n) (e : Fin n) (f : CacheEntry n → CacheEntry n) :
    (c.modify e f).entries e = f (c.entries e) := by simp [modify]

theorem modify_apart (c : LocalCache n) (f : CacheEntry n → CacheEntry n) {i : Fin n} (apart : i ≠ e) :
    (c.modify e f).entries i = c.entries i := by simp [modify, apart]

/-! ### Unlinking -/

/-- The caches differ in one chain only: in its head and in the links of its entries. -/
structure SameBut (c d : LocalCache n) (hash : Fin (cacheHashSize n + 1)) (l : List (Fin n)) : Prop where
  first : d.firstQueueEntry = c.firstQueueEntry
  last : d.lastQueueEntry = c.lastQueueEntry
  heads : ∀ h, h ≠ hash → d.hashTable h = c.hashTable h
  fields : ∀ i, d.entries i = { c.entries i with hnext := d.hnext i }
  links : ∀ i, i ∉ l → d.hnext i = c.hnext i

theorem SameBut.refl (c : LocalCache n) (hash : Fin (cacheHashSize n + 1)) (l : List (Fin n)) : c.SameBut c hash l :=
  ⟨rfl, rfl, fun _ _ => rfl, fun _ => rfl, fun _ _ => rfl⟩

theorem filter_middle {front back : List (Fin n)} (nodup : (front ++ e :: back).Nodup) :
    (front ++ e :: back).filter (fun i => decide (i ≠ e)) = front ++ back := by
  rw [List.nodup_append, List.nodup_cons] at nodup
  obtain ⟨-, ⟨behind, -⟩, before⟩ := nodup
  rw [List.filter_append, List.filter_cons, if_neg (by simp)]
  congr 1
  · refine List.filter_eq_self.mpr (fun i member => decide_eq_true ?_)
    exact before i member e List.mem_cons_self
  · refine List.filter_eq_self.mpr (fun i member => decide_eq_true ?_)
    rintro rfl
    exact behind member

/-- An entry is taken out of its chain, or is left where it is not there. -/
theorem unlink_spec (c : LocalCache n) (e : Fin n) {l : List (Fin n)}
    (chain : Chain c.hnext (c.hashTable (c.entries e).hash) l) :
    ∃ d, c.unlink e = some d ∧ c.SameBut d (c.entries e).hash l ∧
      Chain d.hnext (d.hashTable (c.entries e).hash) (l.filter (fun i => decide (i ≠ e))) := by
  have nodup := chain.nodup
  have enough : l.length ≤ n := by simpa using nodup.length_le_card
  rw [unlink]
  cases head : c.hashTable (c.entries e).hash with
  | none =>
      rw [head] at chain
      obtain rfl := chain.nil_of_none
      exact ⟨c, rfl, .refl _ _ _, by rw [head]; exact chain⟩
  | some tmp =>
      rw [head] at chain
      obtain ⟨more, rfl, onward⟩ := chain.cons_of_some
      simp only
      by_cases first : tmp = e
      · subst first
        rw [if_pos rfl]
        refine ⟨_, rfl, ⟨rfl, rfl, fun h other => Function.update_of_ne other _ _, fun _ => rfl, fun _ _ => rfl⟩, ?_⟩
        rw [show tmp :: more = [] ++ tmp :: more from rfl, filter_middle nodup]
        simp only [Function.update_self]
        exact onward
      · rw [if_neg first]
        obtain ⟨p, found, stops⟩ := chain.findBefore e enough
        rw [found, Option.map_some]
        rcases stops with ⟨last, apart⟩ | ⟨front, back, split⟩
        · have link : (c.entries p).hnext = none := last
          rw [link]
          refine ⟨c, rfl, .refl _ _ _, ?_⟩
          have all : (tmp :: more).filter (fun i => decide (i ≠ e)) = tmp :: more := by
            refine List.filter_eq_self.mpr (fun i member => decide_eq_true ?_)
            rintro rfl
            rcases List.mem_cons.mp member with rfl | member
            · exact first rfl
            · exact apart member
          rw [all, head]
          exact chain
        · rw [split] at chain nodup ⊢
          have link : (c.entries p).hnext = some e := chain.link
          rw [link]
          refine ⟨_, rfl, ⟨rfl, rfl, fun _ _ => rfl, fun i => ?_, fun i apart => ?_⟩, ?_⟩
          · by_cases here : i = p
            · subst here
              simp [modify, hnext]
            · simp [modify, hnext, here]
          · rw [modify_hnext]
            exact Function.update_of_ne (fun here => apart (by simp [here])) _ _
          · rw [List.append_cons, filter_middle (by rwa [← List.append_cons]), List.append_assoc, modify_hnext]
            have cut := chain.cut
            rw [← head] at cut
            exact cut

/-! ### The invariant -/

def kept (c : LocalCache n) (i : Fin n) : Bool := (c.entries i).key.isSome

def onChain (c : LocalCache n) (hash : Fin (cacheHashSize n + 1)) (i : Fin n) : Bool :=
  c.kept i && decide ((c.entries i).hash = hash)

/-- The entry has what an update has stored. -/
structure Holds (c : LocalCache n) (i : Fin n) (x : Stored) : Prop where
  key : (c.entries i).key = some x.key
  hash : (c.entries i).hash = cacheHash n x.key
  time : (c.entries i).time = x.time
  val : (if (c.entries i).valSize = 0 then none else (c.entries i).val) = x.val

/-- `q` is the queue. Each chain has its entries of the queue, the newest one first, and the entries with a key are
those of the live updates, which are the last successful ones. -/
structure Inv (c : LocalCache n) (now : Nat) (log : List (Recycled n)) (q : List (Fin n)) : Prop where
  queue : Chain c.qnext c.firstQueueEntry q
  all : ∀ i, i ∈ q
  last : q.getLast? = some c.lastQueueEntry
  sorted : q.Pairwise (fun i j => (c.entries i).time ≤ (c.entries j).time)
  past : ∀ i, (c.entries i).time ≤ now
  chains : ∀ hash, Chain c.hnext (c.hashTable hash) (q.filter (c.onChain hash)).reverse
  slots : (live log).map Recycled.slot = (q.filter c.kept).reverse
  contents : ∀ r ∈ live log, ∀ x, r.stored = some x → c.Holds r.slot x
  recent : live log <+: log.filter (fun r => r.stored.isSome)

/-- What is no longer there was at the front of the queue. -/
theorem filter_rest {p p' : Fin n → Bool} (apart : e ∉ rest) (gone : p' e = false) (same : ∀ i, i ≠ e → p' i = p i) :
    (e :: rest).filter p' = rest.filter p := by
  rw [List.filter_cons, if_neg (by simp [gone])]
  refine List.filter_congr (fun i member => same i ?_)
  rintro rfl
  exact apart member

theorem filter_slots {l : List (Recycled n)} {m t : List (Fin n)} (slots : l.map Recycled.slot = m ++ t)
    (before : e ∉ m) (behind : ∀ i ∈ t, i = e) :
    (l.filter (fun x => decide (x.slot ≠ e))).map Recycled.slot = m ∧ l.filter (fun x => decide (x.slot ≠ e)) <+: l := by
  obtain ⟨front, back, rfl, rfl, rfl⟩ := List.map_eq_append_iff.mp slots
  have all : front.filter (fun x => decide (x.slot ≠ e)) = front := by
    refine List.filter_eq_self.mpr (fun x member => decide_eq_true ?_)
    rintro rfl
    exact before (List.mem_map_of_mem member)
  have none : back.filter (fun x => decide (x.slot ≠ e)) = [] := by
    refine List.filter_eq_nil_iff.mpr (fun x member => ?_)
    simp [behind x.slot (List.mem_map_of_mem member)]
  rw [List.filter_append, all, none, List.append_nil]
  exact ⟨rfl, List.prefix_append _ _⟩

/-- The oldest entry is given up. -/
theorem Inv.recycle (inv : c.Inv now log (e :: rest)) :
    ∃ d, c.recycle e = some d ∧ d.Inv now (⟨e, none⟩ :: log) (e :: rest) ∧ (d.entries e).key = none := by
  have fresh : e ∉ rest := (List.nodup_cons.mp inv.queue.nodup).1
  generalize released : c.modify e (fun entry =>
    { entry with key := none, val := if 0 < entry.valSize then none else entry.val }) = c'
  have hnexts : c'.hnext = c.hnext := by
    rw [← released, modify_hnext]
    exact Function.update_eq_self e c.hnext
  have qnexts : c'.qnext = c.qnext := by
    rw [← released, modify_qnext]
    exact Function.update_eq_self e c.qnext
  have heads : c'.hashTable = c.hashTable := by rw [← released]; rfl
  have hash : (c'.entries e).hash = (c.entries e).hash := by rw [← released, modify_here]
  have others : ∀ i, i ≠ e → c'.entries i = c.entries i := fun i apart => by rw [← released, modify_apart c _ apart]
  have gone : (c'.entries e).key = none := by rw [← released, modify_here]
  obtain ⟨d, unlinked, same, chain⟩ := c'.unlink_spec e (l := ((e :: rest).filter (c.onChain (c.entries e).hash)).reverse)
    (by rw [hnexts, heads, hash]; exact inv.chains _)
  rw [hash] at same chain
  refine ⟨_, by rw [LocalCache.recycle, released, unlinked, Option.map_some], ?_, ?_⟩
  · generalize cleared : d.modify e (fun entry => { entry with hnext := none, time := 0, hash := 0 }) = d'
    have fields : ∀ i, i ≠ e → d'.entries i = { c.entries i with hnext := d.hnext i } := by
      intro i apart
      rw [← cleared, modify_apart d _ apart, same.fields, others i apart]
    have here : d'.entries e = { d.entries e with hnext := none, time := 0, hash := 0 } := by rw [← cleared, modify_here]
    have keyless : d'.kept e = false := by rw [kept, here, same.fields, gone]; rfl
    have keeps : ∀ i, i ≠ e → d'.kept i = c.kept i := fun i apart => by rw [kept, fields i apart]; rfl
    have onChains : ∀ h i, i ≠ e → d'.onChain h i = c.onChain h i := fun h i apart => by
      rw [onChain, keeps i apart, fields i apart]
      rfl
    have offChain : ∀ h, d'.onChain h e = false := fun h => by rw [onChain, keyless]; rfl
    have links : d'.hnext = Function.update d.hnext e none := by rw [← cleared, modify_hnext]
    have queued : d'.qnext = c.qnext := by
      rw [← cleared, modify_qnext, ← qnexts]
      have unchanged : d.qnext = c'.qnext := funext (fun i => by rw [qnext, same.fields]; rfl)
      rw [← unchanged]
      exact Function.update_eq_self e d.qnext
    have left := filter_slots (e := e) (l := live log) (m := (rest.filter c.kept).reverse)
      (t := ([e].filter c.kept).reverse) (by rw [inv.slots, ← List.reverse_append, ← List.filter_append]; rfl)
      (fun member => fresh (List.mem_of_mem_filter (List.mem_reverse.mp member)))
      (fun i member => List.mem_singleton.mp (List.mem_of_mem_filter (List.mem_reverse.mp member)))
    refine ⟨?_, inv.all, ?_, ?_, ?_, ?_, ?_, ?_, ?_⟩
    · rw [queued, ← cleared]
      exact (show d.firstQueueEntry = c.firstQueueEntry by rw [same.first, ← released]; rfl) ▸ inv.queue
    · rw [inv.last, ← cleared]
      exact congrArg some (show c.lastQueueEntry = d.lastQueueEntry by rw [same.last, ← released]; rfl)
    · obtain ⟨-, behind⟩ := List.pairwise_cons.mp inv.sorted
      refine List.pairwise_cons.mpr ⟨fun i _ => by rw [here]; exact Nat.zero_le _, ?_⟩
      refine behind.imp_of_mem (fun {i j} first second le => ?_)
      rw [fields i (fun equal => fresh (equal ▸ first)), fields j (fun equal => fresh (equal ▸ second))]
      exact le
    · intro i
      by_cases oldest : i = e
      · rw [oldest, here]
        exact Nat.zero_le _
      · rw [fields i oldest]
        exact inv.past i
    · intro h
      rw [filter_rest fresh (offChain h) (onChains h), links]
      have apart : e ∉ (rest.filter (c.onChain h)).reverse :=
        fun member => fresh (List.mem_of_mem_filter (List.mem_reverse.mp member))
      refine Chain.update ?_ apart none
      rw [show d'.hashTable = d.hashTable by rw [← cleared]; rfl]
      by_cases own : h = (c.entries e).hash
      · subst own
        rw [List.filter_reverse, List.filter_filter, filter_rest (p := c.onChain (c.entries e).hash) fresh
          (by simp) (fun i other => by simp [other])] at chain
        exact chain
      · have elsewhere : c.onChain h e = false := by rw [onChain, decide_eq_false (Ne.symm own), Bool.and_false]
        have before := inv.chains h
        rw [filter_rest fresh elsewhere (fun _ _ => rfl)] at before
        rw [same.heads h own, heads]
        refine before.congr (fun i member => ?_)
        rw [same.links i, hnexts]
        intro member'
        have first := List.of_mem_filter (List.mem_reverse.mp member)
        have second := List.of_mem_filter (List.mem_reverse.mp member')
        simp only [onChain, Bool.and_eq_true, decide_eq_true_eq] at first second
        exact own (first.2.symm.trans second.2)
    · rw [filter_rest fresh keyless keeps]
      exact left.1
    · intro r member x stored
      obtain ⟨member, apart⟩ := List.mem_filter.mp member
      have apart : r.slot ≠ e := of_decide_eq_true apart
      have holds := inv.contents r member x stored
      exact ⟨by rw [fields _ apart]; exact holds.key, by rw [fields _ apart]; exact holds.hash,
        by rw [fields _ apart]; exact holds.time, by rw [fields _ apart]; exact holds.val⟩
    · exact left.2.trans inv.recent
  · rw [modify_here, same.fields, gone]

/-- The data of an entry without a key does not matter. -/
theorem Inv.blank (inv : c.Inv now log q) (gone : (c.entries e).key = none) (val : Option Bytes) (valSize : Int) :
    (c.modify e (fun entry => { entry with val := val, valSize := valSize })).Inv now log q := by
  generalize changed : c.modify e (fun entry => { entry with val := val, valSize := valSize }) = d
  have others : ∀ i, i ≠ e → d.entries i = c.entries i := fun i apart => by rw [← changed, modify_apart c _ apart]
  have fields : ∀ i, d.entries i = { c.entries i with val := (d.entries i).val, valSize := (d.entries i).valSize } := by
    intro i
    by_cases here : i = e
    · rw [here, ← changed, modify_here]
    · rw [others i here]
  have links : d.hnext = c.hnext := funext (fun i => by rw [hnext, fields]; rfl)
  have keeps : d.kept = c.kept := funext (fun i => by rw [kept, fields]; rfl)
  have onChains : ∀ h, d.onChain h = c.onChain h := fun h => funext (fun i => by rw [onChain, keeps, fields]; rfl)
  refine ⟨?_, inv.all, ?_, ?_, ?_, ?_, ?_, ?_, inv.recent⟩
  · rw [show d.qnext = c.qnext from funext (fun i => by rw [qnext, fields]; rfl), ← changed]
    exact inv.queue
  · rw [← changed]
    exact inv.last
  · refine inv.sorted.imp (fun {i j} le => ?_)
    rw [fields i, fields j]
    exact le
  · intro i
    rw [fields i]
    exact inv.past i
  · intro h
    rw [links, onChains, ← changed]
    exact inv.chains h
  · rw [keeps]
    exact inv.slots
  · intro r member x stored
    have holds := inv.contents r member x stored
    have apart : r.slot ≠ e := by
      rintro rfl
      rw [holds.key] at gone
      cases gone
    exact ⟨by rw [others _ apart]; exact holds.key, by rw [others _ apart]; exact holds.hash,
      by rw [others _ apart]; exact holds.time, by rw [others _ apart]; exact holds.val⟩

/-- The oldest entry becomes the newest one. -/
theorem Inv.store (inv : c.Inv now (⟨e, none⟩ :: log) (e :: rest)) (gone : (c.entries e).key = none) (several : rest ≠ [])
    {later : Nat} (time : now ≤ later) (key : Bytes) (val : Option Bytes) (valSize : Int) :
    (c.store e later key val valSize).Inv later
      (⟨e, some ⟨key, if valSize = 0 then none else val, later⟩⟩ :: log) (rest ++ [e]) := by
  obtain ⟨front, last, rfl⟩ : ∃ front last, rest = front ++ [last] :=
    ⟨rest.dropLast, rest.getLast several, (List.dropLast_append_getLast several).symm⟩
  have fresh : e ∉ front ++ [last] := (List.nodup_cons.mp inv.queue.nodup).1
  have apart : last ≠ e := by
    rintro rfl
    exact fresh (by simp)
  have newest : c.lastQueueEntry = last := by
    have same := inv.last
    rw [← List.cons_append, List.getLast?_append] at same
    simpa using same.symm
  generalize result : c.store e later key val valSize = d
  have here : d.entries e = ⟨cacheHash n key, later, some key, val, valSize, none, c.hashTable (cacheHash n key)⟩ := by
    rw [← result]
    simp [LocalCache.store, modify, newest, apart.symm]
  have others : ∀ i, i ≠ e → d.entries i = { c.entries i with qnext := d.qnext i } := by
    intro i other
    rw [← result]
    by_cases end_ : i = last
    · subst end_
      simp [LocalCache.store, modify, newest, other, qnext]
    · simp [LocalCache.store, modify, newest, other, end_, qnext]
  have queued : d.qnext = Function.update (Function.update c.qnext last (some e)) e none := by
    funext i
    rw [← result]
    by_cases this : i = e
    · subst this
      simp [LocalCache.store, modify, qnext]
    · by_cases end_ : i = last
      · subst end_
        simp [LocalCache.store, modify, newest, this, qnext]
      · simp [LocalCache.store, modify, newest, this, end_, qnext]
  have firstEntry : d.firstQueueEntry = c.qnext e := by
    rw [← result]
    simp [LocalCache.store, modify, qnext]
  have heads : d.hashTable = Function.update c.hashTable (cacheHash n key) (some e) := by rw [← result]; rfl
  have links : d.hnext = Function.update c.hnext e (c.hashTable (cacheHash n key)) := by
    funext i
    by_cases this : i = e
    · subst this
      rw [hnext, here, Function.update_self]
    · rw [hnext, others i this, Function.update_of_ne this]
      rfl
  have keptHere : d.kept e = true := by rw [kept, here]; rfl
  have keeps : ∀ i, i ≠ e → d.kept i = c.kept i := fun i other => by rw [kept, others i other]; rfl
  have onChains : ∀ h i, i ≠ e → d.onChain h i = c.onChain h i := fun h i other => by
    rw [onChain, keeps i other, others i other]
    rfl
  have same : ∀ {p p' : Fin n → Bool}, (∀ i, i ≠ e → p' i = p i) →
      (front ++ [last]).filter p' = (front ++ [last]).filter p := by
    intro p p' agree
    refine List.filter_congr (fun i member => agree i ?_)
    rintro rfl
    exact fresh member
  have behind : ∀ p : Fin n → Bool, p e = false → (e :: (front ++ [last])).filter p = (front ++ [last]).filter p := by
    intro p out
    rw [List.filter_cons, if_neg (by simp [out])]
  have off : c.kept e = false := by rw [kept, gone]; rfl
  refine ⟨?_, ?_, ?_, ?_, ?_, ?_, ?_, ?_, ?_⟩
  · rw [queued, firstEntry, List.append_assoc]
    exact Chain.snoc inv.queue.2 fresh
  · intro i
    have member := inv.all i
    simp only [List.mem_cons, List.mem_append] at member ⊢
    tauto
  · rw [List.getLast?_append, ← result]
    rfl
  · refine List.pairwise_append.mpr ⟨?_, List.pairwise_singleton _ _, ?_⟩
    · refine (List.pairwise_cons.mp inv.sorted).2.imp_of_mem (fun {i j} first second le => ?_)
      rw [others i (fun equal => fresh (equal ▸ first)), others j (fun equal => fresh (equal ▸ second))]
      exact le
    · intro i member j single
      rw [List.mem_singleton.mp single, here, others i (fun equal => fresh (equal ▸ member))]
      exact Nat.le_trans (inv.past i) time
  · intro i
    by_cases this : i = e
    · rw [this, here]
    · rw [others i this]
      exact Nat.le_trans (inv.past i) time
  · intro h
    have before := inv.chains h
    have out : c.onChain h e = false := by rw [onChain, off, Bool.false_and]
    rw [behind _ out] at before
    rw [List.filter_append, same (onChains h), List.reverse_append, heads, links]
    have absent : e ∉ ((front ++ [last]).filter (c.onChain h)).reverse :=
      fun member => fresh (List.mem_of_mem_filter (List.mem_reverse.mp member))
    by_cases own : h = cacheHash n key
    · subst own
      have on : d.onChain (cacheHash n key) e = true := by rw [onChain, keptHere, here]; simp
      rw [List.filter_cons_of_pos on, Function.update_self]
      exact before.push absent
    · have out' : d.onChain h e = false := by rw [onChain, here]; simp [Ne.symm own]
      rw [List.filter_cons_of_neg (by simp [out']), Function.update_of_ne own]
      exact before.update absent _
  · have before := inv.slots
    rw [behind _ off] at before
    rw [List.filter_append, same keeps, List.reverse_append, List.filter_cons_of_pos keptHere, ← before]
    rfl
  · intro r member x stored
    rcases List.mem_cons.mp member with rfl | member
    · cases stored
      exact ⟨by rw [here], by rw [here], by rw [here], by rw [here]⟩
    · have before := inv.contents r member x stored
      have other : r.slot ≠ e := of_decide_eq_true (List.mem_filter.mp member).2
      exact ⟨by rw [others _ other]; exact before.key, by rw [others _ other]; exact before.hash,
        by rw [others _ other]; exact before.time, by rw [others _ other]; exact before.val⟩
  · exact List.cons_prefix_cons.mpr ⟨rfl, inv.recent⟩

theorem Inv.wait (inv : c.Inv now log q) {later : Nat} (time : now ≤ later) : c.Inv later log q :=
  ⟨inv.queue, inv.all, inv.last, inv.sorted, fun i => Nat.le_trans (inv.past i) time, inv.chains, inv.slots,
    inv.contents, inv.recent⟩

theorem Inv.front (inv : c.Inv now log q) (positive : 0 < n) :
    ∃ e rest, q = e :: rest ∧ c.firstQueueEntry = some e := by
  obtain ⟨e, rest, rfl⟩ := List.exists_cons_of_ne_nil (List.ne_nil_of_mem (inv.all ⟨0, positive⟩))
  exact ⟨e, rest, rfl, inv.queue.1⟩

theorem Inv.several (inv : c.Inv now log (e :: rest)) (several : 2 ≤ n) : rest ≠ [] := by
  rintro rfl
  have zero := List.mem_singleton.mp (inv.all ⟨0, by omega⟩)
  have one := List.mem_singleton.mp (inv.all ⟨1, by omega⟩)
  cases zero.trans one.symm

/-- An entry that is given up is filled, or keeps its place without data. -/
theorem Inv.fill (inv : c.Inv now (⟨e, none⟩ :: log) (e :: rest)) (gone : (c.entries e).key = none) (u : CacheUpdate)
    (fits : u.keyAlloc = true → ∀ val, u.val = some val → u.valAlloc = true → val.length < 2 ^ 31)
    (room : u.Succeeds → rest ≠ []) :
    ∃ out q', c.fill e now u = some out ∧
      out.2.Inv now (⟨e, if out.1 then some ⟨u.key, u.value, now⟩ else none⟩ :: log) q' := by
  rw [LocalCache.fill]
  by_cases keyless : u.keyAlloc = false
  · rw [if_pos keyless]
    exact ⟨_, _, rfl, inv⟩
  · rw [if_neg keyless]
    have keyed : u.keyAlloc = true := by simpa using keyless
    split
    · rename_i none_
      have value : u.value = none := by rw [CacheUpdate.value, none_]
      have succeeds : u.Succeeds := ⟨keyed, fun val given => by rw [none_] at given; cases given⟩
      refine ⟨_, rest ++ [e], rfl, ?_⟩
      rw [value]
      exact inv.store gone (room succeeds) (Nat.le_refl now) u.key none 0
    · rename_i empty
      have value : u.value = none := by rw [CacheUpdate.value, empty]
      have succeeds : u.Succeeds := ⟨keyed, fun val given nonempty => by
        rw [empty] at given
        exact absurd (Option.some.inj given).symm nonempty⟩
      refine ⟨_, rest ++ [e], rfl, ?_⟩
      rw [value]
      exact inv.store gone (room succeeds) (Nat.le_refl now) u.key none 0
    · rename_i val nonempty given
      simp only
      have failed := inv.blank gone none (wrap32 val.length)
      by_cases full : u.valAlloc = false
      · rw [if_pos full]
        exact ⟨_, _, rfl, failed⟩
      · rw [if_neg full]
        have allocated : u.valAlloc = true := by simpa using full
        have short := fits keyed val given allocated
        have size : wrap32 val.length = val.length := wrap32_of_range _ (by omega) (by omega)
        have value : u.value = u.copy val val.length := by
          rw [CacheUpdate.value, given]
          cases val with
          | nil => exact absurd rfl nonempty
          | cons b bs => rfl
        rw [size] at failed ⊢
        rw [if_neg (by omega), Int.toNat_natCast]
        cases copied : u.copy val val.length with
        | none => exact ⟨_, _, rfl, failed⟩
        | some bytes =>
            have succeeds : u.Succeeds := ⟨keyed, fun val' given' _ => by
              rw [given] at given'
              cases given'
              exact ⟨allocated, by rw [copied]; rfl⟩⟩
            refine ⟨_, rest ++ [e], rfl, ?_⟩
            have stored := inv.store gone (room succeeds) (Nat.le_refl now) u.key (some bytes) val.length
            rw [if_neg (by have positive := List.length_pos_iff.mpr nonempty; omega)] at stored
            rw [value, copied]
            exact stored

/-! ### Searching -/

theorem searchChain_spec (key : Bytes) {start : Option (Fin n)} {l : List (Fin n)} (chain : Chain c.hnext start l)
    (keyed : ∀ i ∈ l, c.kept i = true) {fuel : Nat} (enough : l.length ≤ fuel) :
    c.searchChain key fuel start = some (l.find? (fun i => decide ((c.entries i).key = some key))) := by
  induction fuel generalizing start l with
  | zero =>
      obtain rfl := List.length_eq_zero_iff.mp (Nat.le_zero.mp enough)
      rw [show start = none from chain]
      rfl
  | succ fuel ih =>
      cases l with
      | nil =>
          rw [show start = none from chain]
          rfl
      | cons i l =>
          have nodup := chain.nodup
          obtain ⟨rfl, (onward : Chain c.hnext (c.hnext i) l)⟩ := chain
          obtain ⟨stored, key_⟩ := Option.isSome_iff_exists.mp (keyed i List.mem_cons_self)
          simp only [searchChain, key_, Option.bind_some, List.find?_cons, Option.some.injEq]
          by_cases here : stored = key
          · simp [here]
          · have advance : (c.entries i).hnext ≠ some i := by
              intro loop
              rw [hnext, loop] at onward
              obtain ⟨others, rfl, -⟩ := onward.cons_of_some
              exact (List.nodup_cons.mp nodup).1 List.mem_cons_self
            rw [if_neg here, if_neg advance, decide_eq_false here]
            exact ih onward (fun j member => keyed j (List.mem_cons_of_mem _ member)) (Nat.le_of_succ_le_succ enough)

theorem Inv.hash (inv : c.Inv now log q) {i : Fin n} {key : Bytes} (stored : (c.entries i).key = some key) :
    (c.entries i).hash = cacheHash n key := by
  have kept : i ∈ (q.filter c.kept).reverse :=
    List.mem_reverse.mpr (List.mem_filter.mpr ⟨inv.all i, by rw [kept, stored]; rfl⟩)
  rw [← inv.slots] at kept
  obtain ⟨r, member, rfl⟩ := List.mem_map.mp kept
  obtain ⟨x, recorded⟩ := Option.isSome_iff_exists.mp (live_stored member)
  have holds := inv.contents r member x recorded
  have same := stored.symm.trans holds.key
  rw [holds.hash, Option.some.inj same]

/-- The chain of a key has the entry of the key where the live updates have it. -/
theorem Inv.find (inv : c.Inv now log q) (key : Bytes) :
    (q.filter (c.onChain (cacheHash n key))).reverse.find? (fun i => decide ((c.entries i).key = some key)) =
      ((live log).find? (fun r => r.stores key)).map Recycled.slot := by
  have chain : (q.filter (c.onChain (cacheHash n key))).reverse =
      (q.filter c.kept).reverse.filter (fun i => decide ((c.entries i).hash = cacheHash n key)) := by
    rw [List.filter_reverse, List.filter_filter]
    congr 1
    exact List.filter_congr (fun i _ => Bool.and_comm _ _)
  rw [chain, ← inv.slots, List.find?_filter, List.find?_map]
  congr 1
  refine List.find?_congr (fun r member => ?_)
  obtain ⟨x, recorded⟩ := Option.isSome_iff_exists.mp (live_stored member)
  have holds := inv.contents r member x recorded
  simp only [Function.comp_apply, Recycled.stores, recorded, Option.any_some, holds.key, holds.hash, Option.some.injEq]
  by_cases own : x.key = key
  · simp [own]
  · simp [own]

theorem Inv.search (inv : c.Inv now log q) (later : Nat) (key : Bytes) :
    c.search later key = some (((live log).find? (fun r => r.stores key)).bind fun r =>
      if c.ttl < (later : Int) - (c.entries r.slot).time then none
      else some (if (c.entries r.slot).valSize = 0 then none else (c.entries r.slot).val)) := by
  have nodup := (inv.chains (cacheHash n key)).nodup
  have enough : (q.filter (c.onChain (cacheHash n key))).reverse.length ≤ n := by simpa using nodup.length_le_card
  have keyed : ∀ i ∈ (q.filter (c.onChain (cacheHash n key))).reverse, c.kept i = true := by
    intro i member
    have on := List.of_mem_filter (List.mem_reverse.mp member)
    rw [onChain, Bool.and_eq_true] at on
    exact on.1
  rw [LocalCache.search, searchChain_spec key (inv.chains _) keyed enough, inv.find, Option.map_some]
  cases (live log).find? (fun r => r.stores key) <;> rfl

end LocalCache

namespace CacheState

variable {n : Nat} {s : CacheState n} {q : List (Fin n)}

/-- A search finds exactly what is current. -/
theorem search_current (inv : s.cache.Inv s.now s.log q) (now : Nat) (key : Bytes) :
    ∃ answer, s.cache.search now key = some answer ∧ ∀ val, answer = some val ↔ s.Current now key val := by
  refine ⟨_, inv.search now key, fun val => ?_⟩
  rw [Option.bind_eq_some_iff]
  constructor
  · rintro ⟨r, found, young⟩
    obtain ⟨x, recorded⟩ := Option.isSome_iff_exists.mp (live_stored (List.mem_of_find?_eq_some found))
    have holds := inv.contents r (List.mem_of_find?_eq_some found) x recorded
    obtain ⟨newer, older, split, own, apart⟩ := (find_live_iff inv.recent).mp found
    split at young
    · cases young
    · rename_i within
      rw [holds.val] at young
      have same : x.key = key := by simpa [Recycled.stores, recorded] using own
      refine ⟨newer, r.slot, older, x.time, ?_, apart, ?_⟩
      · rw [split, ← Option.some.inj young, ← same]
        exact congrArg (fun r => newer ++ r :: older) (by rw [← recorded])
      · rw [← holds.time]
        omega
  · rintro ⟨newer, slot, older, time, split, apart, within⟩
    have found := (find_live_iff inv.recent).mpr ⟨newer, older, split, by simp [Recycled.stores], apart⟩
    have holds := inv.contents _ (List.mem_of_find?_eq_some found) _ rfl
    refine ⟨_, found, ?_⟩
    rw [holds.val, holds.time, if_neg (by simp only; omega)]

theorem step_inv (positive : 0 < n) (inv : s.cache.Inv s.now s.log q) (op : CacheOp) (allowed : s.Allowed op) :
    ∃ t q', s.step op = some t ∧ t.cache.Inv t.now t.log q' := by
  cases op with
  | search passed key =>
      obtain ⟨answer, found, -⟩ := search_current inv (s.now + passed) key
      exact ⟨⟨s.cache, s.now + passed, s.log⟩, q, by rw [step, found, Option.map_some],
        inv.wait (Nat.le_add_right _ _)⟩
  | update passed u =>
      obtain ⟨e, rest, rfl, first⟩ := inv.front positive
      have waited := inv.wait (Nat.le_add_right s.now passed)
      simp only [step, first, Option.bind_some, LocalCache.update]
      by_cases refused : s.cache.refuses (s.now + passed) e = true
      · simp only [if_pos refused]
        exact ⟨_, _, rfl, waited⟩
      · simp only [if_neg refused]
        obtain ⟨d, recycled, inv', gone⟩ := waited.recycle
        have admitted : ∀ e', s.cache.firstQueueEntry = some e' → s.cache.refuses (s.now + passed) e' = false := by
          intro e' here
          rw [first] at here
          cases here
          simpa using refused
        obtain ⟨out, q', filled, after⟩ := inv'.fill gone u (fun keyed => (allowed admitted keyed).1)
          (fun succeeds => inv'.several ((allowed admitted succeeds.1).2 succeeds))
        rw [recycled, Option.bind_some, filled, Option.map_some]
        exact ⟨_, q', rfl, after⟩

theorem sound_of_inv (positive : 0 < n) (inv : s.cache.Inv s.now s.log q) : s.Sound where
  queue := ⟨q, inv.queue, inv.queue.nodup, inv.all, inv.last, inv.sorted⟩
  chains hash := by
    refine ⟨_, inv.chains hash, (inv.chains hash).nodup, fun i => ?_⟩
    rw [List.mem_reverse, List.mem_filter, LocalCache.onChain, LocalCache.kept, Bool.and_eq_true, decide_eq_true_eq,
      Option.isSome_iff_exists]
    constructor
    · rintro ⟨-, ⟨key, stored⟩, own⟩
      exact ⟨key, stored, by rw [← inv.hash stored, own]⟩
    · rintro ⟨key, stored, own⟩
      exact ⟨inv.all i, ⟨key, stored⟩, by rw [inv.hash stored, own]⟩
  answers now key _ := search_current inv now key
  runs op allowed := by
    obtain ⟨t, -, pass, -⟩ := step_inv positive inv op allowed
    rw [pass]
    rfl

theorem new_inv (positive : 0 < n) (ttl : Int) (start : Nat) :
    (LocalCache.new positive ttl).Inv start [] (List.finRange n) where
  queue := by
    have length : (List.finRange n).length = n := List.length_finRange
    have head : (List.finRange n).head? = some ⟨0, positive⟩ := by
      rw [List.head?_eq_getElem?, List.getElem?_eq_getElem (by rw [length]; exact positive), List.getElem_finRange]
      rfl
    refine (show (LocalCache.new positive ttl).firstQueueEntry = (List.finRange n).head? from head.symm) ▸
      chain_of_links (fun i inside => ?_)
    rw [List.getElem_finRange]
    by_cases more : i + 1 < n
    · rw [List.getElem?_eq_getElem (by rw [length]; exact more), List.getElem_finRange]
      exact dif_pos more
    · rw [List.getElem?_eq_none (by rw [length]; omega)]
      exact dif_neg more
  all := List.mem_finRange
  last := by
    rw [List.getLast?_eq_getElem?, List.length_finRange, List.getElem?_eq_getElem (by simp; omega),
      List.getElem_finRange]
    rfl
  sorted := List.pairwise_of_forall (fun _ _ => Nat.le_refl _)
  past _ := Nat.zero_le _
  chains hash := by
    rw [List.filter_eq_nil_iff.mpr (fun i _ => by simp [LocalCache.onChain, LocalCache.kept, LocalCache.new])]
    rfl
  slots := by
    rw [List.filter_eq_nil_iff.mpr (fun i _ => by simp [LocalCache.kept, LocalCache.new])]
    rfl
  contents r member := by cases member
  recent := List.nil_prefix

end CacheState

/-- In every run of allowed calls both lists are in order, and searches find what is current. -/
theorem local_cache_sound {n : Nat} (positive : 0 < n) (ttl : Int) (start : Nat) {s : CacheState n}
    (reached : Reaches CacheState.step CacheState.Allowed (.new positive ttl start) s) : s.Sound := by
  have inv : ∃ q, s.cache.Inv s.now s.log q := by
    refine reached.inv (P := fun s => ∃ q, s.cache.Inv s.now s.log q)
      ⟨_, CacheState.new_inv positive ttl start⟩ ?_
    rintro s t op ⟨q, inv⟩ allowed pass
    obtain ⟨t', q', pass', after⟩ := CacheState.step_inv positive inv op allowed
    rw [pass] at pass'
    cases pass'
    exact ⟨q', after⟩
  obtain ⟨q, inv⟩ := inv
  exact CacheState.sound_of_inv positive inv

/-- An update that stores its value, given that there is memory. -/
def plainUpdate (key val : Bytes) (keyAlloc : Bool) : CacheUpdate := ⟨key, some val, none, keyAlloc, true⟩

/-- The value of an update has a size that is an `int`. -/
def CacheOp.short : CacheOp → Bool
  | .update _ u => u.val.all (fun val => decide (val.length < 2 ^ 31))
  | .search _ _ => true

/-- Two entries are filled, the older one is given up for an update that fails, and the other one is still found. -/
theorem local_cache_sound_two :
    ∃ s : CacheState 2, s.Sound ∧ s.cache.search 115 [108] = some (some (some [2])) := by
  have replayed : ((replay CacheState.step (fun _ op => op.short) (.new (by decide : 0 < 2) 10 100)
      [.update 0 (plainUpdate [107] [1] true), .update 5 (plainUpdate [108] [2] true),
        .update 5 (plainUpdate [109] [3] false), .search 0 [107]]).bind fun s => s.cache.search 115 [108]) =
      some (some (some [2])) := by
    decide +kernel
  obtain ⟨s, run, found⟩ := Option.bind_eq_some_iff.mp replayed
  refine ⟨s, local_cache_sound (by decide) 10 100 (Reaches.of_replay ?_ .here run), found⟩
  intro s op passed
  cases op with
  | search _ _ => trivial
  | update _ u =>
      refine fun _ _ => ⟨fun val given _ => ?_, fun _ => Nat.le_refl 2⟩
      rw [CacheOp.short, given] at passed
      exact of_decide_eq_true passed

/-- In a cache of one entry the first update that stores a value takes the entry off the queue. -/
theorem single_entry_lost :
    ∃ s : CacheState 1, replay CacheState.step (fun _ _ => true) (.new (by decide) 10 100)
      [.update 0 (plainUpdate [107] [1] true)] = some s ∧ ¬ s.Sound := by
  have replayed : ((replay CacheState.step (fun _ _ => true) (.new (by decide : 0 < 1) 10 100)
      [.update 0 (plainUpdate [107] [1] true)]).map fun s => s.cache.firstQueueEntry) = some none := by
    decide +kernel
  obtain ⟨s, run, lost⟩ := Option.map_eq_some_iff.mp replayed
  refine ⟨s, run, fun sound => ?_⟩
  obtain ⟨q, chain, -, all, -⟩ := sound.queue
  rw [lost] at chain
  exact absurd (chain.nil_of_none ▸ all 0) List.not_mem_nil

end IcapService
