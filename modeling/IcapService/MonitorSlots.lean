import IcapService.MonitorProcess

/-! The slots of the monitor's queues and the children that have registered them. -/

namespace IcapService

open Transition

namespace Monitor

variable (s : Monitor)

/-! ### Who owns which slot -/

/-- The pids in the slots of a queue. -/
def pidsOf (g : Nat) : Option (List Nat) := (s.queueOf g).map (List.map Slot.pid)

/-- Slots and registered children belong together one to one. -/
structure Owned : Prop where
  distinct : (s.keys.map Key.pid).Nodup
  real : ∀ k ∈ s.keys, k.pid ≠ 0
  numbered : ∀ k ∈ s.keys, k.generation ≤ s.generation
  owned : ∀ g pids i pid, s.pidsOf g = some pids → pids[i]? = some pid → pid ≠ 0 →
    ∃ k ∈ s.keys, k.pid = pid ∧ k.generation = g ∧ k.slot = some i
  placed : ∀ k ∈ s.keys, ∀ i, k.slot = some i → ∃ pids, s.pidsOf k.generation = some pids ∧ pids[i]? = some k.pid
  past : s.old ≠ none → s.generation ≠ 0

variable {s} {t : Monitor}

/-- The bookkeeping depends on the pids only. -/
theorem Owned.same (inv : Owned s) (generation : t.generation = s.generation) (pids : ∀ g, t.pidsOf g = s.pidsOf g)
    (keys : t.keys = s.keys) (old : t.old ≠ none → s.old ≠ none) : Owned t where
  past := fun there => generation ▸ inv.past (old there)
  distinct := by
    rw [keys]
    exact inv.distinct
  real := by
    rw [keys]
    exact inv.real
  numbered := by
    rw [keys, generation]
    exact inv.numbered
  owned := by
    intro g ps i pid queue
    rw [keys]
    exact inv.owned g ps i pid (pids g ▸ queue)
  placed := by
    rw [keys]
    intro k member i slot
    obtain ⟨ps, queue, here⟩ := inv.placed k member i slot
    exact ⟨ps, (pids _).trans queue, here⟩

/-- Two children have different pids. -/
theorem Owned.unique (inv : Owned s) {k k' : Key} (member : k ∈ s.keys) (member' : k' ∈ s.keys)
    (same : k.pid = k'.pid) :
    k = k' :=
  List.inj_on_of_nodup_map inv.distinct member member' same

theorem Owned.proc_unique (inv : Owned s) {p p' : Proc} (member : p ∈ s.procs) (member' : p' ∈ s.procs)
    (same : p.pid = p'.pid) : p = p' := by
  have distinct := inv.distinct
  rw [keys, List.map_map] at distinct
  exact List.inj_on_of_nodup_map distinct member member' same

/-- A pid is in one slot at most. -/
theorem Owned.once (inv : Owned s) {g g' i i' pid : Nat} {ps ps' : List Nat} (queue : s.pidsOf g = some ps)
    (queue' : s.pidsOf g' = some ps') (here : ps[i]? = some pid) (here' : ps'[i']? = some pid) (real : pid ≠ 0) :
    g = g' ∧ i = i' := by
  obtain ⟨k, member, own, generation, slot⟩ := inv.owned g ps i pid queue here real
  obtain ⟨k', member', own', generation', slot'⟩ := inv.owned g' ps' i' pid queue' here' real
  cases inv.unique member member' (own.trans own'.symm)
  exact ⟨generation.symm.trans generation', Option.some.inj (slot.symm.trans slot')⟩

/-- A new child has no slot yet. -/
theorem Owned.fork (inv : Owned s) {pid : Nat} (real : pid ≠ 0) (fresh : pid ∉ s.keys.map Key.pid)
    (generation : t.generation = s.generation) (pids : ∀ g, t.pidsOf g = s.pidsOf g)
    (keys : t.keys = s.keys ++ [⟨pid, s.generation, none⟩]) (old : t.old ≠ none → s.old ≠ none) : Owned t where
  past := fun there => generation ▸ inv.past (old there)
  distinct := by
    rw [keys, List.map_append]
    exact inv.distinct.append (List.nodup_singleton _) (by simpa using fresh)
  real := by
    rw [keys]
    intro k member
    rcases List.mem_append.mp member with old | new
    · exact inv.real k old
    · rw [List.mem_singleton.mp new]
      exact real
  numbered := by
    rw [keys, generation]
    intro k member
    rcases List.mem_append.mp member with old | new
    · exact inv.numbered k old
    · rw [List.mem_singleton.mp new]
  owned := by
    intro g ps i x queue here nonzero
    rw [keys]
    obtain ⟨k, member, rest⟩ := inv.owned g ps i x (pids g ▸ queue) here nonzero
    exact ⟨k, List.mem_append_left _ member, rest⟩
  placed := by
    rw [keys]
    intro k member i slot
    rcases List.mem_append.mp member with old | new
    · obtain ⟨ps, queue, here⟩ := inv.placed k old i slot
      exact ⟨ps, (pids _).trans queue, here⟩
    · rw [List.mem_singleton.mp new] at slot
      cases slot

/-- A free slot is taken. -/
theorem Owned.register (inv : Owned s) {k : Key} {ps : List Nat} {i : Nat} (member : k ∈ s.keys)
    (without : k.slot = none)
    (queue : s.pidsOf k.generation = some ps) (free : ps[i]? = some 0) (generation : t.generation = s.generation)
    (pids : ∀ g, t.pidsOf g = if g = k.generation then some (ps.set i k.pid) else s.pidsOf g)
    (keys : t.keys = s.keys.map fun k' => if k'.pid = k.pid then { k' with slot := some i } else k')
    (old : t.old ≠ none → s.old ≠ none) : Owned t where
  past := fun there => generation ▸ inv.past (old there)
  distinct := by
    have same : t.keys.map Key.pid = s.keys.map Key.pid := by
      rw [keys, List.map_map]
      refine List.map_congr_left (fun k' _ => ?_)
      rw [Function.comp_apply]
      split <;> rfl
    rw [same]
    exact inv.distinct
  real := by
    rw [keys]
    intro k' member'
    obtain ⟨k'', member'', rfl⟩ := List.mem_map.mp member'
    split
    · exact inv.real k'' member''
    · exact inv.real k'' member''
  numbered := by
    rw [keys, generation]
    intro k' member'
    obtain ⟨k'', member'', rfl⟩ := List.mem_map.mp member'
    split
    · exact inv.numbered k'' member''
    · exact inv.numbered k'' member''
  owned := by
    intro g ps' j x queue' here nonzero
    rw [keys]
    by_cases mine : g = k.generation ∧ j = i
    · obtain ⟨rfl, rfl⟩ := mine
      rw [pids, if_pos rfl] at queue'
      cases queue'
      rw [List.getElem?_set_self (List.getElem?_eq_some_iff.mp free).1] at here
      cases here
      exact ⟨_, List.mem_map_of_mem member, by rw [if_pos rfl], by rw [if_pos rfl], by rw [if_pos rfl]⟩
    · have before : ∃ ps'', s.pidsOf g = some ps'' ∧ ps''[j]? = some x := by
        rw [pids] at queue'
        split at queue'
        · rename_i same
          cases queue'
          subst same
          rw [List.getElem?_set_ne (fun equal => mine ⟨rfl, equal.symm⟩)] at here
          exact ⟨ps, queue, here⟩
        · exact ⟨ps', queue', here⟩
      obtain ⟨ps'', queue'', here''⟩ := before
      obtain ⟨k', member', own, numbered, slot⟩ := inv.owned g ps'' j x queue'' here'' nonzero
      have other : k'.pid ≠ k.pid := by
        intro same
        cases inv.unique member' member same
        rw [without] at slot
        cases slot
      exact ⟨k', List.mem_map.mpr ⟨k', member', if_neg other⟩, own, numbered, slot⟩
  placed := by
    rw [keys]
    intro k' member' j slot
    obtain ⟨k'', member'', rfl⟩ := List.mem_map.mp member'
    split at slot
    · rename_i same
      cases inv.unique member'' member same
      cases slot
      rw [if_pos rfl]
      exact ⟨ps.set i k.pid, by rw [pids, if_pos rfl], List.getElem?_set_self (List.getElem?_eq_some_iff.mp free).1⟩
    · rename_i other
      rw [if_neg other]
      obtain ⟨ps'', queue'', here⟩ := inv.placed k'' member'' j slot
      by_cases same : k''.generation = k.generation
      · rw [same, queue] at queue''
        cases queue''
        refine ⟨ps.set i k.pid, by rw [pids, if_pos same], ?_⟩
        rw [List.getElem?_set_ne, here]
        rintro rfl
        rw [free] at here
        exact inv.real k'' member'' (Option.some.inj here).symm
      · exact ⟨ps'', by rw [pids, if_neg same, queue''], here⟩

/-- The slots without a pid that was in one of them at most. -/
structure Cleared (pid : Nat) (ps ps' : List Nat) : Prop where
  absent : pid ∉ ps'
  kept : ∀ i x : Nat, ps'[i]? = some x → x ≠ 0 → ps[i]? = some x
  others : ∀ i x : Nat, ps[i]? = some x → x ≠ pid → ps'[i]? = some x

theorem Cleared.refl {pid : Nat} {ps : List Nat} (absent : pid ∉ ps) : Cleared pid ps ps :=
  ⟨absent, fun _ _ here _ => here, fun _ _ here _ => here⟩

theorem Owned.cleared (inv : Owned s) {g i pid : Nat} {ps : List Nat} (queue : s.pidsOf g = some ps)
    (here : ps[i]? = some pid) (real : pid ≠ 0) : Cleared pid ps (ps.set i 0) := by
  have inside := (List.getElem?_eq_some_iff.mp here).1
  refine ⟨fun member => ?_, fun j x there nonzero => ?_, fun j x there other => ?_⟩
  · obtain ⟨j, there⟩ := List.mem_iff_getElem?.mp member
    by_cases same : i = j
    · subst same
      rw [List.getElem?_set_self inside] at there
      exact real (Option.some.inj there).symm
    · rw [List.getElem?_set_ne same] at there
      exact same (inv.once queue queue here there real).2
  · by_cases same : i = j
    · subst same
      rw [List.getElem?_set_self inside] at there
      exact absurd (Option.some.inj there).symm nonzero
    · rwa [List.getElem?_set_ne same] at there
  · rw [List.getElem?_set_ne, there]
    rintro rfl
    exact other (Option.some.inj (there.symm.trans here))

/-- A child is gone, and with it the pid in its slot; a queue without children may go too. -/
theorem Owned.release (inv : Owned s) {pid : Nat} (generation : t.generation = s.generation)
    (keys : t.keys = s.keys.filter fun k => decide (k.pid ≠ pid))
    (gone : ∀ g ps', t.pidsOf g = some ps' → ∃ ps, s.pidsOf g = some ps ∧ Cleared pid ps ps')
    (stays : ∀ g ps x, s.pidsOf g = some ps → x ∈ ps → x ≠ 0 → x ≠ pid → ∃ ps', t.pidsOf g = some ps')
    (old : t.old ≠ none → s.old ≠ none) : Owned t where
  past := fun there => generation ▸ inv.past (old there)
  distinct := by
    rw [keys]
    exact inv.distinct.sublist (List.filter_sublist.map _)
  real := by
    rw [keys]
    exact fun k member => inv.real k (List.mem_of_mem_filter member)
  numbered := by
    rw [keys, generation]
    exact fun k member => inv.numbered k (List.mem_of_mem_filter member)
  owned := by
    intro g ps' i x queue here nonzero
    obtain ⟨ps, queue', cleared⟩ := gone g ps' queue
    obtain ⟨k, member, own, rest⟩ := inv.owned g ps i x queue' (cleared.kept i x here nonzero) nonzero
    rw [keys]
    refine ⟨k, List.mem_filter.mpr ⟨member, decide_eq_true ?_⟩, own, rest⟩
    rintro rfl
    exact cleared.absent (own ▸ List.mem_of_getElem? here)
  placed := by
    rw [keys]
    intro k member i slot
    obtain ⟨member, other⟩ := List.mem_filter.mp member
    obtain ⟨ps, queue, here⟩ := inv.placed k member i slot
    have differs := of_decide_eq_true other
    obtain ⟨ps', queue'⟩ := stays _ ps k.pid queue (List.mem_of_getElem? here) (inv.real k member) differs
    obtain ⟨ps'', same, cleared⟩ := gone _ ps' queue'
    cases queue.symm.trans same
    exact ⟨ps', queue', cleared.others i _ here differs⟩

/-! ### What an action does -/

theorem map_pid_modify (q : List Slot) (i : Nat) {f : Slot → Slot} (keeps : ∀ c, (f c).pid = c.pid) :
    (q.modify i f).map Slot.pid = q.map Slot.pid := by
  refine List.ext_getElem? (fun j => ?_)
  rw [List.getElem?_map, List.getElem?_modify, List.getElem?_map]
  cases q[j]? with
  | none => rfl
  | some c =>
      by_cases same : i = j
      · simp [same, keeps]
      · simp [same]

theorem map_pid_modify_const (q : List Slot) (i : Nat) {f : Slot → Slot} {pid : Nat} (sets : ∀ c, (f c).pid = pid) :
    (q.modify i f).map Slot.pid = (q.map Slot.pid).set i pid := by
  refine List.ext_getElem? (fun j => ?_)
  rw [List.getElem?_map, List.getElem?_modify, List.getElem?_set, List.length_map, List.getElem?_map]
  by_cases same : i = j
  · subst same
    by_cases inside : i < q.length
    · simp [inside, sets]
    · simp [inside]
  · simp [same]

theorem map_pid_tellAll (needs : Slot → Bool) (level : Kill) (q : List Slot) :
    (tellAll needs level q).map Slot.pid = q.map Slot.pid := by
  rw [tellAll, List.map_map]
  refine List.map_congr_left (fun c _ => ?_)
  rw [Function.comp_apply]
  split <;> rfl

theorem queueOf_withSlot (s : Monitor) (g i : Nat) (f : Slot → Slot) (h : Nat) :
    (s.withSlot g i f).queueOf h = if h = g then (s.queueOf g).map fun q => q.modify i f else s.queueOf h := by
  unfold withSlot queueOf
  by_cases current : g = s.generation
  · by_cases same : h = g
    · simp [current, same]
    · have other : h ≠ s.generation := current ▸ same
      simp [current, other]
  · by_cases before : g + 1 = s.generation
    · by_cases same : h = g
      · subst same
        simp [current, before]
      · have other : h + 1 ≠ s.generation := by omega
        simp [current, before, same, other]
    · by_cases same : h = g
      · simp [current, before, same]
      · simp [current, before, same]

theorem pidsOf_withSlot (s : Monitor) (g i : Nat) {f : Slot → Slot} (keeps : ∀ c, (f c).pid = c.pid) (h : Nat) :
    (s.withSlot g i f).pidsOf h = s.pidsOf h := by
  rw [pidsOf, queueOf_withSlot]
  split
  · rename_i same
    rw [same, Option.map_map, pidsOf]
    congr 1
    exact funext fun q => map_pid_modify q i keeps
  · rfl

@[simp] theorem withSlot_procs (s : Monitor) (g i : Nat) (f : Slot → Slot) : (s.withSlot g i f).procs = s.procs := by
  unfold withSlot
  split
  · rfl
  · split <;> rfl

@[simp] theorem withSlot_generation (s : Monitor) (g i : Nat) (f : Slot → Slot) :
    (s.withSlot g i f).generation = s.generation := by
  unfold withSlot
  split
  · rfl
  · split <;> rfl

theorem withSlot_old {g i : Nat} {f : Slot → Slot} (there : (s.withSlot g i f).old ≠ none) : s.old ≠ none := by
  intro gone
  refine there ?_
  unfold withSlot
  split
  · exact gone
  · split
    · rw [gone]
      rfl
    · exact gone

/-- A child's own phase is no matter of the bookkeeping. -/
theorem keys_withProc (s : Monitor) (pid : Nat) {f : Proc → Proc} (keeps : ∀ p, (f p).toKey = p.toKey) :
    (s.withProc pid f).keys = s.keys := by
  unfold withProc keys
  rw [List.map_map]
  refine List.map_congr_left (fun p _ => ?_)
  rw [Function.comp_apply]
  split
  · exact keeps p
  · rfl

theorem write_pid (act : ChildAct) (c : Slot) : (act.write c).pid = c.pid := by
  cases act with
  | up =>
      rw [ChildAct.write, Slot.started]
      split <;> rfl
  | quit level =>
      rw [ChildAct.write, Slot.quits]
      split <;> rfl
  | _ => rfl

theorem Owned.startChild (inv : Owned s) {forked : Option Nat} (pass : s.startChild forked = some t) : Owned t := by
  cases forked with
  | none =>
      cases pass
      exact inv
  | some pid =>
      rw [Monitor.startChild] at pass
      split at pass
      · cases pass
      · rename_i new
        cases pass
        rw [not_or] at new
        exact inv.fork new.1 new.2 rfl (fun _ => rfl) List.map_append id

/-- What `start_child` leaves alone. -/
theorem startChild_frame {forked : Option Nat} (pass : s.startChild forked = some t) :
    t.queue = s.queue ∧ t.old = s.old ∧ t.generation = s.generation ∧ t.limits = s.limits ∧ t.killed = s.killed ∧
      t.down = s.down ∧ ∃ new : Option Proc, t.procs = s.procs ++ new.toList ∧
        ∀ p ∈ new, p.slot = none ∧ p.generation = s.generation := by
  cases forked with
  | none =>
      cases pass
      exact ⟨rfl, rfl, rfl, rfl, rfl, rfl, none, by simp, by simp⟩
  | some pid =>
      rw [startChild] at pass
      split at pass
      · cases pass
      · cases pass
        exact ⟨rfl, rfl, rfl, rfl, rfl, rfl, some _, rfl, by simp⟩

theorem pidsOf_tell (s : Monitor) (i : Nat) (level : Kill) (g : Nat) : (s.tell i level).pidsOf g = s.pidsOf g := by
  unfold pidsOf queueOf tell
  dsimp only
  split
  · exact congrArg some (map_pid_modify s.queue i (fun _ => rfl))
  · rfl

theorem Owned.tell (inv : Owned s) (i : Nat) (level : Kill) : Owned (s.tell i level) :=
  inv.same rfl (pidsOf_tell s i level) rfl id

theorem Owned.pass (inv : Owned s) {forked : Option Nat} (pass : s.pass forked = some t) : Owned t := by
  rw [Monitor.pass] at pass
  split at pass
  · obtain ⟨u, started, rfl⟩ := Option.map_eq_some_iff.mp pass
    exact (inv.startChild started).tell _ _
  · exact inv.startChild pass
  · cases pass
    exact inv.tell _ _
  · cases pass
    exact inv

theorem removeChild_some {pid : Nat} {q q' : List Slot} (removed : removeChild pid q = some q') :
    ∃ i : Nat, (q.map Slot.pid)[i]? = some pid ∧ q'.map Slot.pid = (q.map Slot.pid).set i 0 := by
  obtain ⟨i, found, rfl⟩ := Option.map_eq_some_iff.mp removed
  obtain ⟨inside, own, -⟩ := List.findIdx?_eq_some_iff_getElem.mp found
  refine ⟨i, ?_, map_pid_modify_const q i (fun _ => rfl)⟩
  rw [List.getElem?_map, List.getElem?_eq_getElem inside]
  exact congrArg some (of_decide_eq_true own)

theorem removeChild_none {pid : Nat} {q : List Slot} (absent : removeChild pid q = none) : pid ∉ q.map Slot.pid := by
  intro member
  obtain ⟨c, inside, own⟩ := List.mem_map.mp member
  have none := List.findIdx?_eq_none_iff.mp (Option.map_eq_none_iff.mp absent) c inside
  rw [own] at none
  simp at none

theorem pidsOf_current (s : Monitor) : s.pidsOf s.generation = some (s.queue.map Slot.pid) := by
  rw [pidsOf, queueOf, if_pos rfl]
  rfl

theorem pidsOf_old (s : Monitor) {g : Nat} (other : g ≠ s.generation) (before : g + 1 = s.generation) :
    s.pidsOf g = s.old.map (List.map Slot.pid) := by
  rw [pidsOf, queueOf, if_neg other, if_pos before]

theorem pidsOf_else (s : Monitor) {g : Nat} (other : g ≠ s.generation) (before : g + 1 ≠ s.generation) :
    s.pidsOf g = none := by
  rw [pidsOf, queueOf, if_neg other, if_neg before]
  rfl

theorem keys_without (s : Monitor) (pid : Nat) :
    (s.without pid).keys = s.keys.filter fun k => decide (k.pid ≠ pid) := by
  rw [keys, keys, List.filter_map]
  rfl

/-- A child of the current queue is gone. -/
theorem Owned.withoutCurrent (inv : Owned s) {pid : Nat} {q : List Slot} (real : pid ≠ 0)
    (removed : removeChild pid s.queue = some q) : Owned { s.without pid with queue := q } := by
  obtain ⟨i, here, freed⟩ := removeChild_some removed
  have current := inv.cleared (pidsOf_current s) here real
  have elsewhere : ∀ g ps, g ≠ s.generation → s.pidsOf g = some ps → pid ∉ ps := by
    intro g ps other queue member
    obtain ⟨j, there⟩ := List.mem_iff_getElem?.mp member
    exact other (inv.once queue (pidsOf_current s) there here real).1
  have same : ∀ g, g ≠ s.generation → pidsOf { s.without pid with queue := q } g = s.pidsOf g := by
    intro g other
    simp [pidsOf, queueOf, without, other]
  have now : pidsOf { s.without pid with queue := q } s.generation = some ((s.queue.map Slot.pid).set i 0) := by
    rw [← freed]
    exact pidsOf_current _
  refine inv.release rfl (keys_without s pid) (fun g ps' queue => ?_) (fun g ps x queue member nonzero differs => ?_)
    id
  · by_cases mine : g = s.generation
    · subst mine
      cases now.symm.trans queue
      exact ⟨_, pidsOf_current s, current⟩
    · rw [same g mine] at queue
      exact ⟨ps', queue, .refl (elsewhere g ps' mine queue)⟩
  · by_cases mine : g = s.generation
    · subst mine
      exact ⟨_, now⟩
    · exact ⟨ps, (same g mine).trans queue⟩

/-- A child of the old queue, or of none, is gone. -/
theorem Owned.withoutOld (inv : Owned s) {pid : Nat} {old rest : List Slot} {o : Option (List Slot)} (real : pid ≠ 0)
    (absent : pid ∉ s.queue.map Slot.pid) (shape : s.old = some old) (removed : (removeChild pid old).getD old = rest)
    (kept : o = some rest ∨ o = none ∧ childsQueueIsEmpty rest = true) : Owned { s.without pid with old := o } := by
  have cleared : ∀ g, g ≠ s.generation → g + 1 = s.generation →
      Cleared pid (old.map Slot.pid) (rest.map Slot.pid) := by
    intro g other before
    have queue := pidsOf_old s other before
    rw [shape] at queue
    cases found : removeChild pid old with
    | none =>
        rw [found] at removed
        cases removed
        exact .refl (removeChild_none found)
    | some q =>
        rw [found] at removed
        cases removed
        obtain ⟨i, here, freed⟩ := removeChild_some found
        rw [Option.getD_some, freed]
        exact inv.cleared queue here real
  have now : pidsOf { s.without pid with old := o } s.generation = some (s.queue.map Slot.pid) := pidsOf_current _
  have past : ∀ g, g ≠ s.generation → g + 1 = s.generation →
      pidsOf { s.without pid with old := o } g = o.map (List.map Slot.pid) :=
    fun g other before => pidsOf_old _ other before
  have beyond : ∀ g, g ≠ s.generation → g + 1 ≠ s.generation → pidsOf { s.without pid with old := o } g = none :=
    fun g other before => pidsOf_else _ other before
  refine inv.release rfl (keys_without s pid) (fun g ps' queue => ?_) (fun g ps x queue member nonzero differs => ?_)
    (fun _ => by rw [shape]; exact Option.some_ne_none _)
  · by_cases mine : g = s.generation
    · subst mine
      cases now.symm.trans queue
      exact ⟨_, pidsOf_current s, .refl absent⟩
    · by_cases before : g + 1 = s.generation
      · rw [past g mine before] at queue
        obtain ⟨q, present, rfl⟩ := Option.map_eq_some_iff.mp queue
        rcases kept with rfl | ⟨rfl, -⟩
        · cases present
          exact ⟨_, by rw [pidsOf_old s mine before, shape]; rfl, cleared g mine before⟩
        · cases present
      · rw [beyond g mine before] at queue
        cases queue
  · by_cases mine : g = s.generation
    · subst mine
      exact ⟨_, now⟩
    · by_cases before : g + 1 = s.generation
      · rw [pidsOf_old s mine before, shape] at queue
        cases queue
        rcases kept with rfl | ⟨-, empty⟩
        · exact ⟨_, past g mine before⟩
        · obtain ⟨i, here⟩ := List.mem_iff_getElem?.mp member
          have there := List.mem_of_getElem? ((cleared g mine before).others i x here differs)
          obtain ⟨c, inside, rfl⟩ := List.mem_map.mp there
          exact absurd (of_decide_eq_true (List.all_eq_true.mp empty c inside)) nonzero
      · rw [pidsOf_else s mine before] at queue
        cases queue

/-- A child that never registered is gone. -/
theorem Owned.withoutNone (inv : Owned s) {pid : Nat} (absent : pid ∉ s.queue.map Slot.pid) (none : s.old = none) :
    Owned (s.without pid) := by
  have same : ∀ g, (s.without pid).pidsOf g = s.pidsOf g := fun _ => rfl
  refine inv.release rfl (keys_without s pid) (fun g ps' queue => ⟨ps', (same g).symm.trans queue, .refl ?_⟩)
    (fun g ps x queue _ _ _ => ⟨ps, (same g).trans queue⟩) id
  rw [same] at queue
  by_cases mine : g = s.generation
  · subst mine
    cases (pidsOf_current s).symm.trans queue
    exact absent
  · by_cases before : g + 1 = s.generation
    · rw [pidsOf_old s mine before, none] at queue
      cases queue
    · rw [pidsOf_else s mine before] at queue
      cases queue

theorem Owned.real_pid (inv : Owned s) {pid : Nat} (exited : ∃ p ∈ s.procs, p.pid = pid ∧ p.phase = .exited) :
    pid ≠ 0 := by
  obtain ⟨p, member, rfl, -⟩ := exited
  exact inv.real p.toKey (List.mem_map_of_mem member)

theorem Owned.reap (inv : Owned s) {pid : Nat} (pass : s.reap pid = some t) : Owned t := by
  rw [Monitor.reap] at pass
  split at pass
  · rename_i exited
    have real := inv.real_pid exited
    split at pass
    · rename_i q removed
      cases pass
      exact inv.withoutCurrent real removed
    · rename_i removed none
      cases pass
      exact inv.withoutNone (removeChild_none removed) none
    · rename_i old removed shape
      cases pass
      refine inv.withoutOld real (removeChild_none removed) shape rfl ?_
      split
      · rename_i empty
        exact .inr ⟨rfl, empty⟩
      · exact .inl rfl
  · cases pass

theorem waitsFor_mem {pid : Nat} {q : List Slot} (waits : waitsFor pid q = true) : pid ∈ q.map Slot.pid := by
  obtain ⟨c, member, holds⟩ := List.any_eq_true.mp waits
  rw [Bool.and_eq_true] at holds
  exact List.mem_map.mpr ⟨c, member, of_decide_eq_true holds.1⟩

theorem Owned.wait (inv : Owned s) {pid : Nat} (pass : s.wait pid = some t) : Owned t := by
  rw [Monitor.wait] at pass
  split at pass
  · rename_i exited
    have real := inv.real_pid exited
    split at pass
    · obtain ⟨q, removed, rfl⟩ := Option.map_eq_some_iff.mp pass
      exact inv.withoutCurrent real removed
    · obtain ⟨old, shape, rest⟩ := Option.bind_eq_some_iff.mp pass
      split at rest
      · rename_i waits
        obtain ⟨q, removed, rfl⟩ := Option.map_eq_some_iff.mp rest
        have numbered := inv.past (by rw [shape]; exact Option.some_ne_none _)
        have queue := pidsOf_old s (g := s.generation - 1) (by omega) (by omega)
        rw [shape] at queue
        obtain ⟨i, here⟩ := List.mem_iff_getElem?.mp (waitsFor_mem waits)
        have absent : pid ∉ s.queue.map Slot.pid := by
          intro member
          obtain ⟨j, there⟩ := List.mem_iff_getElem?.mp member
          have same := (inv.once queue (pidsOf_current s) here there real).1
          omega
        exact inv.withoutOld real absent shape (by rw [removed]; rfl) (.inl rfl)
      · cases rest
  · cases pass

/-- What a child changes in its own slot and phase is no matter of the bookkeeping. -/
theorem Owned.write (inv : Owned s) (g i pid : Nat) {f : Slot → Slot} {h : Proc → Proc}
    (slot : ∀ c, (f c).pid = c.pid)
    (keeps : ∀ p, (h p).toKey = p.toKey) : Owned ((s.withSlot g i f).withProc pid h) := by
  refine inv.same (withSlot_generation s g i f) (fun g' => ?_) ?_ ?_
  · exact pidsOf_withSlot s g i slot g'
  · rw [keys_withProc _ _ keeps]
    exact congrArg (List.map Proc.toKey) (withSlot_procs s g i f)
  · exact withSlot_old

theorem Owned.ofRegister (inv : Owned s) {p : Proc} (member : p ∈ s.procs) (without : p.slot = none) :
    Owned (s.register p) := by
  have real := inv.real p.toKey (List.mem_map_of_mem member)
  rw [Monitor.register]
  split
  · exact inv.same rfl (fun _ => rfl) (keys_withProc s _ (fun _ => rfl)) id
  · rename_i i found
    obtain ⟨q, queue, first⟩ := Option.bind_eq_some_iff.mp found
    obtain ⟨inside, free, -⟩ := List.findIdx?_eq_some_iff_getElem.mp first
    have pids : s.pidsOf p.generation = some (q.map Slot.pid) := by
      rw [pidsOf, queue]
      rfl
    have here : (q.map Slot.pid)[i]? = some 0 := by
      rw [List.getElem?_map, List.getElem?_eq_getElem inside]
      exact congrArg some (of_decide_eq_true free)
    refine inv.register (k := p.toKey) (List.mem_map_of_mem member) without pids here (withSlot_generation s _ _ _)
      (fun g => ?_) ?_ ?_
    · change (s.withSlot p.generation i fun _ => .registered p.pid p.threads).pidsOf g = _
      rw [pidsOf, queueOf_withSlot]
      split
      · rw [queue]
        exact congrArg some (map_pid_modify_const q i (fun _ => rfl))
      · rfl
    · unfold keys withProc
      rw [withSlot_procs, List.map_map, List.map_map]
      refine List.map_congr_left (fun p' _ => ?_)
      rw [Function.comp_apply, Function.comp_apply]
      split <;> rfl
    · exact withSlot_old

theorem Owned.childStep (inv : Owned s) {p : Proc} (member : p ∈ s.procs) {act : ChildAct}
    (pass : s.childStep p act = some t) : Owned t := by
  unfold Monitor.childStep at pass
  split at pass
  · cases pass
  · cases pass
    exact inv.same rfl (fun _ => rfl) (keys_withProc s _ (fun _ => rfl)) id
  · rename_i without
    cases pass
    exact inv.ofRegister member without
  · cases pass
    exact inv.write _ _ _ (write_pid .up) (fun _ => rfl)
  · split at pass
    · cases pass
    · cases pass
      exact inv.same (withSlot_generation s _ _ _) (pidsOf_withSlot s _ _ (write_pid _))
        (congrArg (List.map Proc.toKey) (withSlot_procs s _ _ _)) withSlot_old
  · cases pass

theorem Owned.startAll (forked : List (Option Nat)) (inv : Owned s)
    (pass : forked.foldlM Monitor.startChild s = some t) :
    Owned t := by
  induction forked generalizing s with
  | nil =>
      cases pass
      exact inv
  | cons pid rest ih =>
      rw [List.foldlM_cons] at pass
      obtain ⟨u, started, onward⟩ := Option.bind_eq_some_iff.mp pass
      exact ih (inv.startChild started) onward

theorem createChildsQueue_free {limits : Limits} {i pid : Nat}
    (here : ((createChildsQueue limits).map Slot.pid)[i]? = some pid) : pid = 0 := by
  obtain ⟨c, member, rfl⟩ := List.mem_map.mp (List.mem_of_getElem? here)
  rw [List.eq_of_mem_replicate member]
  rfl

/-- The old children keep their queue; the new one is empty. -/
theorem Owned.rotate (inv : Owned s) (none_ : s.old = none) {limits : Limits}
    (generation : t.generation = s.generation + 1)
    (queue : t.queue = createChildsQueue limits) (old : t.old.map (List.map Slot.pid) = some (s.queue.map Slot.pid))
    (keys : t.keys = s.keys) : Owned t := by
  have now : t.pidsOf (s.generation + 1) = some ((createChildsQueue limits).map Slot.pid) := by
    rw [← generation, pidsOf_current, queue]
  have before : ∀ g, g ≠ s.generation + 1 → t.pidsOf g = s.pidsOf g := by
    intro g other
    by_cases mine : g = s.generation
    · rw [mine, pidsOf_old t (by omega) generation.symm, pidsOf_current, old]
    · rw [pidsOf_else t (by omega) (by omega)]
      by_cases past : g + 1 = s.generation
      · rw [pidsOf_old s mine past, none_]
        rfl
      · rw [pidsOf_else s mine past]
  refine ⟨keys ▸ inv.distinct, keys ▸ inv.real, fun k member => ?_, fun g ps i pid pids here real => ?_,
    fun k member i slot => ?_, fun _ => by omega⟩
  · have numbered := inv.numbered k (keys ▸ member)
    omega
  · by_cases mine : g = s.generation + 1
    · subst mine
      cases now.symm.trans pids
      exact absurd (createChildsQueue_free here) real
    · rw [before g mine] at pids
      rw [keys]
      exact inv.owned g ps i pid pids here real
  · rw [keys] at member
    have numbered := inv.numbered k member
    rw [before _ (by omega)]
    exact inv.placed k member i slot

theorem Owned.reconfigure (inv : Owned s) {limits : Limits} {forked : List (Option Nat)}
    (pass : s.reconfigure limits forked = some t) : Owned t := by
  rw [Monitor.reconfigure] at pass
  split at pass
  · cases pass
    exact inv
  · rename_i none_
    split at pass
    · refine Owned.startAll forked ?_ pass
      exact inv.rotate (by simpa using none_) rfl rfl (congrArg some (map_pid_tellAll _ _ _)) rfl
    · cases pass

theorem Owned.term (inv : Owned s) : Owned s.term := by
  refine inv.same rfl (fun g => ?_) rfl (fun there gone => there (by rw [Monitor.term, gone]; rfl))
  unfold pidsOf queueOf Monitor.term
  dsimp only
  split
  · exact congrArg some (map_pid_tellAll _ _ _)
  · split
    · rw [Option.map_map]
      congr 1
      exact funext fun q => map_pid_tellAll _ _ q
    · rfl

theorem Owned.step (inv : Owned s) {a : Action} (pass : s.step a = some t) : Owned t := by
  have quiet : Owned { s with killed := [] } := inv.same rfl (fun _ => rfl) rfl id
  cases a with
  | pass forked =>
      simp only [Monitor.step] at pass
      split at pass
      · cases pass
      · exact quiet.pass pass
  | reap pid =>
      simp only [Monitor.step] at pass
      split at pass
      · cases pass
      · exact quiet.reap pass
  | reconfigure limits forked =>
      simp only [Monitor.step] at pass
      split at pass
      · cases pass
      · exact quiet.reconfigure pass
  | term =>
      cases pass
      exact quiet.term
  | wait pid =>
      simp only [Monitor.step] at pass
      split at pass
      · exact quiet.wait pass
      · cases pass
  | child pid act =>
      obtain ⟨p, found, rest⟩ := Option.bind_eq_some_iff.mp pass
      exact quiet.childStep (List.mem_of_find?_eq_some found) rest

theorem create_owned (limits : Limits) : Owned (create limits) := by
  have none_ : (create limits).keys = [] := rfl
  refine ⟨by rw [none_]; exact List.nodup_nil, by simp [none_], by simp [none_], ?_, by simp [none_],
    fun there => absurd rfl there⟩
  intro g ps i pid queue here real
  by_cases first : g = 0
  · subst first
    cases (pidsOf_current (create limits)).symm.trans queue
    exact absurd (createChildsQueue_free here) real
  · rw [pidsOf_else (create limits) first (Nat.succ_ne_zero g)] at queue
    cases queue

theorem startServer_owned {limits : Limits} {forked : List (Option Nat)}
    (opened : startServer limits forked = some s) :
    Owned s := by
  rw [startServer] at opened
  split at opened
  · exact (create_owned limits).startAll forked opened
  · cases opened

/-! ### Whom the monitor signals -/

/-- A child that is found is in its queue and has not been told. -/
theorem findChild_spec {eligible : Slot → Bool} {q : List Slot} {i k : Nat} {requests : Int} {which : Option Nat}
    (found : findChild eligible q i requests which = some k) :
    which = some k ∨ ∃ j c, k = i + j ∧ q[j]? = some c ∧ c.pid ≠ 0 ∧ c.toBeKilled = .no := by
  induction q generalizing i requests which with
  | nil => exact .inl found
  | cons c rest ih =>
      have later : ∀ {requests : Int} {which : Option Nat}, findChild eligible rest (i + 1) requests which = some k →
          which = some k ∨ ∃ j d, k = i + j ∧ (c :: rest)[j]? = some d ∧ d.pid ≠ 0 ∧ d.toBeKilled = .no := by
        intro requests which found
        refine (ih found).imp_right ?_
        rintro ⟨j, d, rfl, here, spec⟩
        exact ⟨j + 1, d, by omega, here, spec⟩
      rw [findChild] at found
      split at found
      · exact later found
      · rename_i real
        split at found
        · cases found
        · rename_i alive
          split at found
          · rcases later found with this | others
            · cases this
              exact .inr ⟨0, c, rfl, rfl, real, not_not.mp alive⟩
            · exact .inr others
          · exact later found

/-- The child that a pass is going to tell. -/
def Plan.victim : Plan → Option Nat
  | .retire i => some i
  | .stop i => some i
  | _ => none

theorem plan_victim {limits : Limits} {q : List Slot} {i : Nat} (found : (plan limits q).victim = some i) :
    ∃ c, q[i]? = some c ∧ c.pid ≠ 0 ∧ c.toBeKilled = .no := by
  have search : ∀ {eligible : Slot → Bool} {requests : Int}, findChild eligible q 0 requests none = some i →
      ∃ c, q[i]? = some c ∧ c.pid ≠ 0 ∧ c.toBeKilled = .no := by
    intro eligible requests found
    rcases findChild_spec found with never | ⟨j, c, rfl, here, spec⟩
    · cases never
    · rw [Nat.zero_add]
      exact ⟨c, here, spec⟩
  unfold plan at found
  dsimp only at found
  split at found
  · rename_i j chosen
    cases found
    split at chosen
    · exact search chosen
    · cases chosen
  · split at found
    · cases found
    · split at found
      · split at found
        · rename_i j idle
          cases found
          exact search idle
        · cases found
      · cases found

/-- The signals went to pids that are in a queue. -/
def Aimed (t : Monitor) : Prop := ∀ pid ∈ t.killed, pid ≠ 0 ∧ ∃ g ps, t.pidsOf g = some ps ∧ pid ∈ ps

theorem Aimed.quiet (none_ : t.killed = []) : Aimed t := by
  intro pid member
  rw [none_] at member
  cases member

theorem startAll_frame {forked : List (Option Nat)} (pass : forked.foldlM startChild s = some t) :
    t.queue = s.queue ∧ t.old = s.old ∧ t.generation = s.generation ∧ t.limits = s.limits ∧ t.killed = s.killed := by
  induction forked generalizing s with
  | nil =>
      cases pass
      exact ⟨rfl, rfl, rfl, rfl, rfl⟩
  | cons pid rest ih =>
      rw [List.foldlM_cons] at pass
      obtain ⟨u, started, onward⟩ := Option.bind_eq_some_iff.mp pass
      obtain ⟨queue, old, generation, limits, killed, -⟩ := startChild_frame started
      obtain ⟨queue', old', generation', limits', killed'⟩ := ih onward
      exact ⟨queue'.trans queue, old'.trans old, generation'.trans generation, limits'.trans limits,
        killed'.trans killed⟩

end Monitor

open Monitor

end IcapService
