import IcapService.MonitorSlots

/-! How many children the monitor keeps running, and how it shuts them down. -/

namespace IcapService

open Transition

namespace Monitor

variable (s : Monitor)

/-- The children of the current queue that have not registered their slot. -/
def unregistered : Nat :=
  s.procs.countP fun p => decide (p.generation = s.generation) && decide (p.slot = none) && decide (p.phase ≠ .exited)

/-- A child that nobody has told to stop. -/
def Slot.untold (c : Slot) : Bool := decide (c.pid ≠ 0) && decide (c.toBeKilled = .no) && decide (c.fatherSaid = .no)

def untold (q : List Slot) : Nat := q.countP Slot.untold

variable {s} {t : Monitor}

/-- Every child of the current queue that has been told is stopping. -/
def Settled (s : Monitor) : Prop := ∀ c ∈ s.queue, c.pid ≠ 0 → c.fatherSaid ≠ .no → c.toBeKilled ≠ .no

/-- A pass finds the children registered, and where it may replace one, the told ones stopping. -/
def Prompt (s : Monitor) : Action → Prop
  | .pass _ => s.unregistered = 0 ∧ (0 < s.limits.maxRequestsPerChild → s.Settled)
  | _ => True

instance (s : Monitor) : Decidable s.Settled :=
  inferInstanceAs (Decidable (∀ c ∈ s.queue, c.pid ≠ 0 → c.fatherSaid ≠ .no → c.toBeKilled ≠ .no))

instance (s : Monitor) : (a : Action) → Decidable (s.Prompt a)
  | .pass _ => inferInstanceAs (Decidable (s.unregistered = 0 ∧ (0 < s.limits.maxRequestsPerChild → s.Settled)))
  | .reap _ => .isTrue trivial
  | .reconfigure _ _ => .isTrue trivial
  | .term => .isTrue trivial
  | .wait _ => .isTrue trivial
  | .child _ _ => .isTrue trivial

/-- No more children are left to run than the configuration allows. -/
structure Bounded (s : Monitor) : Prop where
  clamped : s.limits.startServers ≤ s.limits.maxServers
  few : untold s.queue + s.unregistered ≤ s.limits.maxServers.toNat

theorem startChild_unregistered {forked : Option Nat} (pass : s.startChild forked = some t) :
    t.unregistered = s.unregistered + forked.toList.length := by
  cases forked with
  | none =>
      cases pass
      rfl
  | some pid =>
      rw [startChild] at pass
      split at pass
      · cases pass
      · cases pass
        simp [unregistered, List.countP_append]

theorem startAll_unregistered {forked : List (Option Nat)} (pass : forked.foldlM startChild s = some t) :
    t.unregistered ≤ s.unregistered + forked.length := by
  induction forked generalizing s with
  | nil =>
      cases pass
      exact Nat.le_refl _
  | cons pid rest ih =>
      rw [List.foldlM_cons] at pass
      obtain ⟨u, started, onward⟩ := Option.bind_eq_some_iff.mp pass
      have few := ih onward
      have one : pid.toList.length ≤ 1 := by cases pid <;> simp
      rw [startChild_unregistered started] at few
      rw [List.length_cons]
      omega

/-- A change of one slot changes the count by that slot. -/
theorem countP_modify (P : Slot → Bool) (f : Slot → Slot) {q : List Slot} {i : Nat} {c : Slot}
    (here : q[i]? = some c) :
    (q.modify i f).countP P + (if P c then 1 else 0) = q.countP P + (if P (f c) then 1 else 0) := by
  induction q generalizing i with
  | nil => cases here
  | cons d rest ih =>
      cases i with
      | zero =>
          cases here
          rw [List.modify_zero_cons, List.countP_cons, List.countP_cons]
          omega
      | succ i =>
          rw [List.modify_succ_cons, List.countP_cons, List.countP_cons]
          have later := ih here
          omega

theorem modify_none {f : Slot → Slot} {q : List Slot} {i : Nat} (outside : q[i]? = none) : q.modify i f = q :=
  List.modify_eq_self (List.getElem?_eq_none_iff.mp outside)

/-- What a slot becomes is not counted unless it was. -/
theorem countP_modify_le {P : Slot → Bool} {f : Slot → Slot} (fades : ∀ c, P (f c) = true → P c = true)
    (q : List Slot)
    (i : Nat) : (q.modify i f).countP P ≤ q.countP P := by
  cases here : q[i]? with
  | none => rw [modify_none here]
  | some c =>
      have count := countP_modify P f here
      have fade := fades c
      split at count <;> split at count <;> simp_all
      omega

theorem untold_iff {c : Slot} : c.untold = true ↔ c.pid ≠ 0 ∧ c.toBeKilled = .no ∧ c.fatherSaid = .no := by
  simp [Slot.untold, and_assoc]

theorem write_untold (act : ChildAct) (c : Slot) (still : (act.write c).untold = true) : c.untold = true := by
  rw [untold_iff] at still ⊢
  cases act with
  | up =>
      rw [ChildAct.write, Slot.started] at still
      split at still
      · exact still
      · cases still.2.1
  | handle =>
      rw [ChildAct.write, Slot.handled] at still
      dsimp only at still
      split at still
      · cases still.2.1
      · rename_i told
        exact absurd still.2.1 told
  | quit level =>
      rw [ChildAct.write, Slot.quits] at still
      split at still
      · rename_i stops
        dsimp only at still
        rw [still.2.1] at stops
        simp at stops
      · exact still
  | register => exact still
  | exit => exact still
  | report freeservers usedservers requests idle => exact still

theorem untold_tell (s : Monitor) (i : Nat) : untold (s.tell i .gracefully).queue ≤ untold s.queue :=
  countP_modify_le (fun c still => absurd (untold_iff.mp still).2.2 (by simp)) s.queue i

/-- A child that was running and is told is one less. -/
theorem untold_tell_lt (s : Monitor) {i : Nat} {c : Slot} (here : s.queue[i]? = some c) (running : c.untold = true) :
    untold (s.tell i .gracefully).queue + 1 = untold s.queue := by
  have count := countP_modify Slot.untold (fun c => { c with fatherSaid := .gracefully }) here
  rw [if_pos running, if_neg (by simp [Slot.untold])] at count
  exact count

theorem untold_le_running (q : List Slot) : untold q ≤ (running q).length := by
  rw [untold, running, ← List.countP_eq_length_filter]
  refine List.countP_mono_left (fun c _ still => ?_)
  obtain ⟨real, alive, -⟩ := untold_iff.mp still
  simp [real, alive]

theorem untold_removeChild {pid : Nat} {q q' : List Slot} (removed : removeChild pid q = some q') :
    untold q' ≤ untold q := by
  obtain ⟨i, -, rfl⟩ := Option.map_eq_some_iff.mp removed
  exact countP_modify_le (fun c still => absurd rfl (untold_iff.mp still).1) q i

theorem untold_tellAll {level : Kill} (stops : level ≠ .no) (needs : Slot → Bool) (q : List Slot) :
    untold (tellAll needs level q) ≤ untold q := by
  rw [untold, tellAll, List.countP_map]
  refine List.countP_mono_left (fun c _ still => ?_)
  rw [Function.comp_apply] at still
  split at still
  · exact absurd (untold_iff.mp still).2.2 stops
  · exact still

/-- What a child becomes is not counted unless it was. -/
theorem unregistered_withProc (s : Monitor) (pid : Nat) {f : Proc → Proc}
    (keeps : ∀ p, (f p).generation = p.generation)
    (fades : ∀ p ∈ s.procs, p.pid = pid → (f p).slot = none ∧ (f p).phase ≠ .exited →
      p.slot = none ∧ p.phase ≠ .exited) : (s.withProc pid f).unregistered ≤ s.unregistered := by
  rw [unregistered, unregistered, withProc, List.countP_map]
  refine List.countP_mono_left (fun p member still => ?_)
  rw [Function.comp_apply] at still
  split at still
  · rename_i own
    have fade := fades p member own
    simp only [keeps, Bool.and_eq_true, decide_eq_true_eq] at still ⊢
    exact ⟨⟨still.1.1, (fade ⟨still.1.2, still.2⟩).1⟩, (fade ⟨still.1.2, still.2⟩).2⟩
  · exact still

theorem unregistered_without (s : Monitor) (pid : Nat) : (s.without pid).unregistered ≤ s.unregistered :=
  List.filter_sublist.countP_le

/-- A count falls when one that was counted no longer is. -/
theorem countP_lt {α : Type} {P Q : α → Bool} {l : List α} (fades : ∀ x ∈ l, Q x = true → P x = true) {a : α}
    (member : a ∈ l) (counted : P a = true) (gone : Q a = false) : l.countP Q < l.countP P := by
  induction l with
  | nil => cases member
  | cons b rest ih =>
      rw [List.countP_cons, List.countP_cons]
      have tail : rest.countP Q ≤ rest.countP P :=
        List.countP_mono_left (fun x inside => fades x (List.mem_cons_of_mem b inside))
      rcases List.mem_cons.mp member with rfl | inside
      · rw [counted, gone]
        simp only [Bool.false_eq_true, if_false, if_true]
        omega
      · have later := ih (fun x inside => fades x (List.mem_cons_of_mem b inside)) inside
        have head := fades b List.mem_cons_self
        have heads : (if Q b = true then 1 else 0) ≤ (if P b = true then 1 else 0) := by
          by_cases still : Q b = true
          · rw [if_pos still, if_pos (head still)]
          · rw [if_neg still]
            exact Nat.zero_le _
        omega

theorem withSlot_queue (s : Monitor) (g i : Nat) (f : Slot → Slot) :
    (s.withSlot g i f).queue = if g = s.generation then s.queue.modify i f else s.queue := by
  unfold withSlot
  split
  · rfl
  · split <;> rfl

@[simp] theorem withSlot_limits (s : Monitor) (g i : Nat) (f : Slot → Slot) :
    (s.withSlot g i f).limits = s.limits := by
  unfold withSlot
  split
  · rfl
  · split <;> rfl

theorem unregistered_withSlot (s : Monitor) (g i : Nat) (f : Slot → Slot) :
    (s.withSlot g i f).unregistered = s.unregistered := by
  rw [unregistered, unregistered, withSlot_procs, withSlot_generation]

theorem untold_withSlot (s : Monitor) (g i : Nat) {f : Slot → Slot}
    (fades : ∀ c, (f c).untold = true → c.untold = true) :
    untold (s.withSlot g i f).queue ≤ untold s.queue := by
  rw [withSlot_queue]
  split
  · exact countP_modify_le fades s.queue i
  · exact Nat.le_refl _

theorem Bounded.less (bounded : Bounded s) (limits : t.limits = s.limits) (told : untold t.queue ≤ untold s.queue)
    (fewer : t.unregistered ≤ s.unregistered) : Bounded t := by
  have few := bounded.few
  refine ⟨limits ▸ bounded.clamped, ?_⟩
  rw [limits]
  omega

/-- A child that registers is counted once. -/
theorem Bounded.register (bounded : Bounded s) {p : Proc} (member : p ∈ s.procs) (without : p.slot = none)
    (alive : p.phase ≠ .exited) : Bounded (s.register p) := by
  rw [Monitor.register]
  split
  · exact bounded.less rfl (Nat.le_refl _)
      (unregistered_withProc s _ (fun _ => rfl) (fun _ _ _ gone => absurd rfl gone.2))
  · rename_i i found
    obtain ⟨q, queue, first⟩ := Option.bind_eq_some_iff.mp found
    obtain ⟨inside, free, -⟩ := List.findIdx?_eq_some_iff_getElem.mp first
    have fades : ∀ p' ∈ s.procs, p'.pid = p.pid →
        ({ p' with slot := some i } : Proc).slot = none ∧ p'.phase ≠ .exited →
        p'.slot = none ∧ p'.phase ≠ .exited := by
      intro p' _ _ gone
      cases gone.1
    by_cases current : p.generation = s.generation
    · have lower : ((s.withSlot p.generation i fun _ => .registered p.pid p.threads).withProc p.pid fun p =>
          { p with slot := some i }).unregistered < s.unregistered := by
        rw [unregistered, unregistered, withProc, withSlot_procs, List.countP_map]
        refine countP_lt (fun p' member' still => ?_) member (by simp [current, without, alive]) (by simp)
        rw [Function.comp_apply] at still
        change (decide _ && _ && _) = true at still
        rw [withSlot_generation] at still
        split at still
        · simp at still
        · exact still
      have one :
          untold (s.withSlot p.generation i fun _ => .registered p.pid p.threads).queue ≤ untold s.queue + 1 := by
        rw [withSlot_queue, if_pos current]
        have here : s.queue[i]? = some q[i] := by
          rw [queueOf, if_pos current] at queue
          cases queue
          exact List.getElem?_eq_getElem inside
        have count := countP_modify Slot.untold (fun _ => .registered p.pid p.threads) here
        rw [untold, untold]
        split at count <;> split at count <;> omega
      have few := bounded.few
      refine ⟨?_, ?_⟩
      · change (s.withSlot p.generation i fun _ => .registered p.pid p.threads).limits.startServers ≤ _
        rw [withProc, withSlot_limits]
        exact bounded.clamped
      · change untold (s.withSlot p.generation i fun _ => .registered p.pid p.threads).queue + _ ≤ _
        rw [withProc, withSlot_limits] at *
        omega
    · refine bounded.less (withSlot_limits s _ _ _) ?_ ?_
      · change untold (s.withSlot p.generation i fun _ => .registered p.pid p.threads).queue ≤ _
        rw [withSlot_queue, if_neg current]
      · refine Nat.le_trans (unregistered_withProc _ _ (fun _ => rfl) ?_)
          (Nat.le_of_eq (unregistered_withSlot s _ _ _))
        rw [withSlot_procs]
        exact fades

theorem Bounded.childStep (bounded : Bounded s) (inv : Owned s) {p : Proc} (member : p ∈ s.procs) {act : ChildAct}
    (pass : s.childStep p act = some t) : Bounded t := by
  unfold Monitor.childStep at pass
  split at pass
  · cases pass
  · cases pass
    exact bounded.less rfl (Nat.le_refl _)
      (unregistered_withProc s _ (fun _ => rfl) (fun _ _ _ gone => absurd rfl gone.2))
  · rename_i starting without
    cases pass
    exact bounded.register member without (by rw [starting]; decide)
  · rename_i placed
    cases pass
    refine bounded.less (withSlot_limits s _ _ _) (untold_withSlot s _ _ (write_untold .up)) ?_
    refine Nat.le_trans (unregistered_withProc _ _ (fun _ => rfl) ?_) (Nat.le_of_eq (unregistered_withSlot s _ _ _))
    rw [withSlot_procs]
    intro p' member' own gone
    cases inv.proc_unique member' member own
    rw [placed] at gone
    cases gone.1
  · split at pass
    · cases pass
    · cases pass
      exact bounded.less (withSlot_limits s _ _ _) (untold_withSlot s _ _ (write_untold _))
        (Nat.le_of_eq (unregistered_withSlot s _ _ _))
  · cases pass

theorem plan_start {limits : Limits} {q : List Slot} (chosen : plan limits q = .start) :
    ((running q).length : Int) < limits.maxServers ∨ ((running q).length : Int) < limits.startServers := by
  unfold plan at chosen
  dsimp only at chosen
  split at chosen
  · cases chosen
  · split at chosen
    · rename_i wanted
      exact wanted.imp_left And.right
    · split at chosen
      · split at chosen <;> cases chosen
      · cases chosen

theorem plan_retire {limits : Limits} {q : List Slot} {i : Nat} (chosen : plan limits q = .retire i) :
    0 < limits.maxRequestsPerChild := by
  unfold plan at chosen
  dsimp only at chosen
  split at chosen
  · rename_i found
    split at found
    · assumption
    · cases found
  · split at chosen
    · cases chosen
    · split at chosen
      · split at chosen <;> cases chosen
      · cases chosen

theorem plan_stop {limits : Limits} {q : List Slot} {i : Nat} (chosen : plan limits q = .stop i) :
    limits.startServers < ((running q).length : Int) := by
  unfold plan at chosen
  dsimp only at chosen
  split at chosen
  · cases chosen
  · split at chosen
    · cases chosen
    · split at chosen
      · rename_i wanted
        split at chosen
        · exact wanted.2.1
        · cases chosen
      · cases chosen

/-- A child that is not stopping has not been told, once those that have been told are stopping. -/
theorem Settled.running_untold (settled : Settled s) {c : Slot} (member : c ∈ s.queue) (real : c.pid ≠ 0)
    (alive : c.toBeKilled = .no) : c.untold = true := by
  refine untold_iff.mpr ⟨real, alive, ?_⟩
  by_contra told
  exact settled c member real told alive

theorem Bounded.pass (bounded : Bounded s) {forked : Option Nat} (prompt : s.Prompt (.pass forked))
    (pass : s.pass forked = some t) : Bounded t := by
  obtain ⟨registered, settled⟩ := prompt
  have few := bounded.few
  have clamped := bounded.clamped
  have one : forked.toList.length ≤ 1 := by cases forked <;> simp
  rw [Monitor.pass] at pass
  split at pass
  · rename_i i chosen
    obtain ⟨u, started, rfl⟩ := Option.map_eq_some_iff.mp pass
    obtain ⟨queue, -, -, limits, -⟩ := startChild_frame started
    obtain ⟨c, here, real, alive⟩ := plan_victim (by rw [chosen]; rfl : (plan s.limits s.queue).victim = some i)
    have running := (settled (plan_retire chosen)).running_untold (List.mem_of_getElem? here) real alive
    have lower := untold_tell_lt u (by rw [queue, here]) running
    have more := startChild_unregistered started
    rw [queue] at lower
    refine ⟨limits ▸ clamped, ?_⟩
    change _ + u.unregistered ≤ u.limits.maxServers.toNat
    rw [limits]
    omega
  · rename_i chosen
    obtain ⟨queue, -, -, limits, -⟩ := startChild_frame pass
    have more := startChild_unregistered pass
    have room := plan_start chosen
    have counted := untold_le_running s.queue
    refine ⟨limits ▸ clamped, ?_⟩
    rw [limits, queue]
    omega
  · cases pass
    exact bounded.less rfl (untold_tell s _) (Nat.le_refl _)
  · cases pass
    exact bounded

theorem Bounded.reap (bounded : Bounded s) {pid : Nat} (pass : s.reap pid = some t) : Bounded t := by
  rw [Monitor.reap] at pass
  split at pass
  · split at pass
    · rename_i q removed
      cases pass
      exact bounded.less rfl (untold_removeChild removed) (unregistered_without s pid)
    · cases pass
      exact bounded.less rfl (Nat.le_refl _) (unregistered_without s pid)
    · cases pass
      exact bounded.less rfl (Nat.le_refl _) (unregistered_without s pid)
  · cases pass

theorem Bounded.wait (bounded : Bounded s) {pid : Nat} (pass : s.wait pid = some t) : Bounded t := by
  rw [Monitor.wait] at pass
  split at pass
  · split at pass
    · obtain ⟨q, removed, rfl⟩ := Option.map_eq_some_iff.mp pass
      exact bounded.less rfl (untold_removeChild removed) (unregistered_without s pid)
    · obtain ⟨old, -, rest⟩ := Option.bind_eq_some_iff.mp pass
      split at rest
      · obtain ⟨q, -, rfl⟩ := Option.map_eq_some_iff.mp rest
        exact bounded.less rfl (Nat.le_refl _) (unregistered_without s pid)
      · cases rest
  · cases pass

theorem untold_createChildsQueue (limits : Limits) : untold (createChildsQueue limits) = 0 := by
  refine List.countP_eq_zero.mpr (fun c member => ?_)
  rw [List.eq_of_mem_replicate member]
  decide

/-- No more children are started at first than may run. -/
theorem bounded_startAll {limits : Limits} {forked : List (Option Nat)} (pass : forked.foldlM startChild s = some t)
    (clamped : s.limits = limits.clamped) (queue : untold s.queue = 0) (none_ : s.unregistered = 0)
    (many : (forked.length : Int) = max 0 limits.clamped.startServers) : Bounded t := by
  obtain ⟨same, -, -, limited, -⟩ := startAll_frame pass
  have few := startAll_unregistered pass
  have small : limits.clamped.startServers ≤ limits.clamped.maxServers := min_le_right _ _
  refine ⟨by rw [limited, clamped]; exact small, ?_⟩
  rw [limited, clamped, same, queue]
  omega

theorem Bounded.reconfigure (bounded : Bounded s) (inv : Owned s) {limits : Limits} {forked : List (Option Nat)}
    (pass : s.reconfigure limits forked = some t) : Bounded t := by
  rw [Monitor.reconfigure] at pass
  split at pass
  · cases pass
    exact bounded
  · split at pass
    · rename_i many
      refine bounded_startAll pass rfl (untold_createChildsQueue limits) ?_ many
      refine List.countP_eq_zero.mpr (fun p member => ?_)
      have numbered := inv.numbered p.toKey (List.mem_map_of_mem member)
      have other : p.generation ≠ s.generation + 1 := by omega
      simp [other]
    · cases pass

theorem Bounded.step (bounded : Bounded s) (inv : Owned s) {a : Action} (prompt : s.Prompt a)
    (pass : s.step a = some t) : Bounded t := by
  have calm : Owned { s with killed := [] } := inv.same rfl (fun _ => rfl) rfl id
  have same : Bounded { s with killed := [] } := bounded.less rfl (Nat.le_refl _) (Nat.le_refl _)
  cases a with
  | pass forked =>
      simp only [Monitor.step] at pass
      split at pass
      · cases pass
      · exact same.pass prompt pass
  | reap pid =>
      simp only [Monitor.step] at pass
      split at pass
      · cases pass
      · exact same.reap pass
  | reconfigure limits forked =>
      simp only [Monitor.step] at pass
      split at pass
      · cases pass
      · exact same.reconfigure calm pass
  | term =>
      cases pass
      exact same.less rfl (untold_tellAll (by decide : Kill.immediately ≠ .no) _ _) (Nat.le_refl _)
  | wait pid =>
      simp only [Monitor.step] at pass
      split at pass
      · exact same.wait pass
      · cases pass
  | child pid act =>
      obtain ⟨p, found, rest⟩ := Option.bind_eq_some_iff.mp pass
      exact same.childStep calm (List.mem_of_find?_eq_some found) rest

theorem startServer_bounded {limits : Limits} {forked : List (Option Nat)}
    (opened : startServer limits forked = some s) :
    Bounded s := by
  rw [startServer] at opened
  split at opened
  · rename_i many
    exact bounded_startAll opened rfl (untold_createChildsQueue limits) rfl many
  · cases opened

theorem Settled.untold_running (settled : Settled s) : untold s.queue = (running s.queue).length := by
  refine Nat.le_antisymm (untold_le_running _) ?_
  rw [untold, running, ← List.countP_eq_length_filter]
  refine List.countP_mono_left (fun c member still => ?_)
  rw [Bool.and_eq_true] at still
  exact settled.running_untold member (of_decide_eq_true still.1) (of_decide_eq_true still.2)

/-- A pass whose fork works replaces a child, adds one, or stops one of more than `StartServers`. -/
theorem pass_keeps {pid : Nat} (registered : s.unregistered = 0) (settled : s.Settled)
    (pass : s.pass (some pid) = some t) :
    min s.limits.startServers (untold s.queue) ≤ untold t.queue + t.unregistered := by
  rw [Monitor.pass] at pass
  split at pass
  · rename_i i chosen
    obtain ⟨u, started, rfl⟩ := Option.map_eq_some_iff.mp pass
    obtain ⟨queue, -⟩ := startChild_frame started
    obtain ⟨c, here, real, alive⟩ := plan_victim (by rw [chosen]; rfl : (plan s.limits s.queue).victim = some i)
    have lower := untold_tell_lt u (by rw [queue, here])
      (settled.running_untold (List.mem_of_getElem? here) real alive)
    have more : u.unregistered = s.unregistered + 1 := startChild_unregistered started
    rw [queue] at lower
    change _ ≤ ((untold (u.tell i .gracefully).queue : Int) + (u.unregistered : Int))
    omega
  · obtain ⟨queue, -⟩ := startChild_frame pass
    rw [queue]
    omega
  · rename_i i chosen
    cases pass
    obtain ⟨c, here, real, alive⟩ := plan_victim (by rw [chosen]; rfl : (plan s.limits s.queue).victim = some i)
    have lower := untold_tell_lt s here (settled.running_untold (List.mem_of_getElem? here) real alive)
    have many := plan_stop chosen
    rw [← settled.untold_running] at many
    omega
  · cases pass
    omega

/-! ### Shutting down -/

/-- The loop has been left, and a child that has exited is still in its slot, which does not say that it is to be
killed. -/
def Stuck (p : Proc) (i : Nat) (s : Monitor) : Prop :=
  s.down = true ∧ p ∈ s.procs ∧ ∃ q c, s.queueOf p.generation = some q ∧ q[i]? = some c ∧ c.pid = p.pid ∧
    c.toBeKilled ≠ .immediately

variable {p : Proc} {i : Nat}

theorem queueOf_term (s : Monitor) (g : Nat) :
    s.term.queueOf g =
      (s.queueOf g).map (tellAll (fun c => decide (c.toBeKilled ≠ .immediately)) .immediately) := by
  unfold queueOf term
  dsimp only
  split
  · rfl
  · split <;> rfl

theorem Stuck.term (stuck : Stuck p i s) : Stuck p i s.term := by
  obtain ⟨-, member, q, c, queue, here, own, unaware⟩ := stuck
  let needs := fun c : Slot => decide (c.toBeKilled ≠ .immediately)
  refine ⟨rfl, member, tellAll needs .immediately q,
    if c.pid ≠ 0 ∧ needs c then { c with fatherSaid := .immediately } else c, by
    rw [queueOf_term, queue]; rfl, ?_, ?_⟩
  · rw [tellAll, List.getElem?_map, here]
    rfl
  · split
    · exact ⟨own, unaware⟩
    · exact ⟨own, unaware⟩

/-- The slots of other children are written. -/
theorem Stuck.withSlot (stuck : Stuck p i s) {g j : Nat} {f : Slot → Slot} (other : g = p.generation → j ≠ i) :
    Stuck p i (s.withSlot g j f) := by
  obtain ⟨down, member, q, c, queue, here, own, unaware⟩ := stuck
  refine ⟨?_, by rw [withSlot_procs]; exact member, ?_⟩
  · unfold Monitor.withSlot
    split
    · exact down
    · split <;> exact down
  · by_cases same : g = p.generation
    · refine ⟨q.modify j f, c, by rw [queueOf_withSlot, if_pos same.symm, same, queue]; rfl, ?_, own, unaware⟩
      rw [List.getElem?_modify, here]
      simp [other same]
    · exact ⟨q, c, by rw [queueOf_withSlot, if_neg (Ne.symm same), queue], here, own, unaware⟩

theorem Stuck.withProc (stuck : Stuck p i s) {pid : Nat} {f : Proc → Proc} (other : p.pid ≠ pid) :
    Stuck p i (s.withProc pid f) := by
  obtain ⟨down, member, rest⟩ := stuck
  exact ⟨down, List.mem_map.mpr ⟨p, member, if_neg other⟩, rest⟩

/-- The child is not the one that is waited for. -/
theorem Stuck.not_waited (stuck : Stuck p i s) (inv : Owned s) {pid g : Nat} {q : List Slot}
    (queue : s.queueOf g = some q)
    (waits : waitsFor pid q = true) : p.pid ≠ pid := by
  obtain ⟨-, member, q', c, queue', here, own, unaware⟩ := stuck
  rintro rfl
  obtain ⟨c', inside, holds⟩ := List.any_eq_true.mp waits
  rw [Bool.and_eq_true] at holds
  obtain ⟨j, there⟩ := List.mem_iff_getElem?.mp inside
  have place : (q.map Slot.pid)[j]? = some p.pid := by
    rw [List.getElem?_map, there]
    exact congrArg some (of_decide_eq_true holds.1)
  have place' : (q'.map Slot.pid)[i]? = some p.pid := by
    rw [List.getElem?_map, here]
    exact congrArg some own
  obtain ⟨rfl, rfl⟩ := inv.once (by rw [pidsOf, queue]; rfl) (by rw [pidsOf, queue']; rfl) place place'
    (inv.real p.toKey (List.mem_map_of_mem member))
  cases queue.symm.trans queue'
  cases here.symm.trans there
  exact unaware (of_decide_eq_true holds.2)

/-- The slot of another child is given free. -/
theorem removeChild_other {pid j : Nat} {q q' : List Slot} {c : Slot} (removed : removeChild pid q = some q')
    (here : q[j]? = some c) (other : c.pid ≠ pid) : q'[j]? = some c := by
  obtain ⟨k, found, rfl⟩ := Option.map_eq_some_iff.mp removed
  obtain ⟨inside, own, -⟩ := List.findIdx?_eq_some_iff_getElem.mp found
  have differs : k ≠ j := by
    rintro rfl
    rw [List.getElem?_eq_getElem inside] at here
    cases here
    exact other (of_decide_eq_true own)
  rw [List.getElem?_modify, here]
  simp [differs]

theorem Stuck.wait (stuck : Stuck p i s) (inv : Owned s) {pid : Nat} (pass : s.wait pid = some t) : Stuck p i t := by
  obtain ⟨down, member, q, c, queue, here, own, unaware⟩ := id stuck
  have stays : p.pid ≠ pid → p ∈ (s.without pid).procs := fun other =>
    List.mem_filter.mpr ⟨member, decide_eq_true other⟩
  rw [Monitor.wait] at pass
  split at pass
  · split at pass
    · rename_i waits
      obtain ⟨q', removed, rfl⟩ := Option.map_eq_some_iff.mp pass
      have other := stuck.not_waited inv (if_pos rfl) waits
      refine ⟨down, stays other, ?_⟩
      by_cases current : p.generation = s.generation
      · rw [queueOf, if_pos current] at queue
        cases queue
        exact ⟨q', c, if_pos current, removeChild_other removed here (own ▸ other), own, unaware⟩
      · rw [queueOf, if_neg current] at queue
        exact ⟨q, c, (if_neg current).trans queue, here, own, unaware⟩
    · obtain ⟨old, shape, rest⟩ := Option.bind_eq_some_iff.mp pass
      split at rest
      · rename_i waits
        obtain ⟨q', removed, rfl⟩ := Option.map_eq_some_iff.mp rest
        have numbered := inv.past (by rw [shape]; exact Option.some_ne_none _)
        have before : s.queueOf (s.generation - 1) = some old := by
          rw [queueOf, if_neg (by omega), if_pos (by omega), shape]
        have other := stuck.not_waited inv before waits
        refine ⟨down, stays other, ?_⟩
        by_cases current : p.generation = s.generation
        · rw [queueOf, if_pos current] at queue
          exact ⟨q, c, (if_pos current).trans queue, here, own, unaware⟩
        · rw [queueOf, if_neg current] at queue
          split at queue
          · rename_i past
            cases shape.symm.trans queue
            exact ⟨q', c, (if_neg current).trans (if_pos past), removeChild_other removed here (own ▸ other), own,
              unaware⟩
          · cases queue
      · cases rest
  · cases pass

theorem Stuck.childStep (stuck : Stuck p i s) (inv : Owned s) {p' : Proc} (member' : p' ∈ s.procs)
    (other : p.pid ≠ p'.pid) {act : ChildAct} (pass : s.childStep p' act = some t) : Stuck p i t := by
  obtain ⟨-, member, q, c, queue, here, own, -⟩ := id stuck
  have real := inv.real p.toKey (List.mem_map_of_mem member)
  have place : (q.map Slot.pid)[i]? = some p.pid := by
    rw [List.getElem?_map, here]
    exact congrArg some own
  have elsewhere : ∀ j, p'.slot = some j → p'.generation = p.generation → j ≠ i := by
    rintro j slot same rfl
    obtain ⟨ps, pids, there⟩ := inv.placed p'.toKey (List.mem_map_of_mem member') j slot
    change s.pidsOf p'.generation = some ps at pids
    rw [same, pidsOf, queue] at pids
    cases pids
    exact other (Option.some.inj (place.symm.trans there))
  unfold Monitor.childStep at pass
  split at pass
  · cases pass
  · cases pass
    exact stuck.withProc other
  · cases pass
    rw [Monitor.register]
    split
    · exact stuck.withProc other
    · rename_i j found
      refine Stuck.withProc (stuck.withSlot ?_) other
      rintro same rfl
      obtain ⟨q', queue', first⟩ := Option.bind_eq_some_iff.mp found
      obtain ⟨inside, free, -⟩ := List.findIdx?_eq_some_iff_getElem.mp first
      rw [same] at queue'
      cases queue.symm.trans queue'
      rw [List.getElem?_eq_getElem inside] at here
      cases here
      exact real (own.symm.trans (of_decide_eq_true free))
  · rename_i j _ slot
    cases pass
    exact Stuck.withProc (stuck.withSlot (elsewhere j slot)) other
  · rename_i j _ slot _
    split at pass
    · cases pass
    · cases pass
      exact stuck.withSlot (elsewhere _ slot)
  · cases pass

theorem Stuck.step (stuck : Stuck p i s) (inv : Owned s) (exited : p.phase = .exited) {a : Action}
    (pass : s.step a = some t) : Stuck p i t := by
  have calm : Owned { s with killed := [] } := inv.same rfl (fun _ => rfl) rfl id
  have same : Stuck p i { s with killed := [] } := stuck
  cases a with
  | pass forked =>
      simp [Monitor.step, stuck.1] at pass
  | reap pid =>
      simp [Monitor.step, stuck.1] at pass
  | reconfigure limits forked =>
      simp [Monitor.step, stuck.1] at pass
  | term =>
      cases pass
      exact same.term
  | wait pid =>
      simp only [Monitor.step] at pass
      split at pass
      · exact same.wait calm pass
      · cases pass
  | child pid act =>
      obtain ⟨p', found, rest⟩ := Option.bind_eq_some_iff.mp pass
      have member' : p' ∈ s.procs := List.mem_of_find?_eq_some found
      refine same.childStep calm member' (fun equal => ?_) rest
      cases inv.proc_unique stuck.2.1 member' equal
      simp [Monitor.childStep, exited] at rest

end Monitor

open Monitor

/-- As long as the passes of the monitor find what they have asked for done, no more children are left to run than
`MaxServers`, and no pass whose fork works brings them below `StartServers`. -/
theorem children_bounded {limits : Limits} {forked : List (Option Nat)} {first s : Monitor}
    (opened : startServer limits forked = some first) (reached : Reaches Monitor.step Prompt first s) :
    untold s.queue + s.unregistered ≤ s.limits.maxServers.toNat ∧
      ∀ pid t, s.unregistered = 0 → s.Settled → s.step (.pass (some pid)) = some t →
        min s.limits.startServers (untold s.queue) ≤ untold t.queue + t.unregistered := by
  have inv := reached.inv (P := fun s => Owned s ∧ Bounded s) ⟨startServer_owned opened, startServer_bounded opened⟩
    (fun _ _ _ inv prompt pass => ⟨inv.1.step pass, inv.2.step inv.1 prompt pass⟩)
  refine ⟨inv.2.few, fun pid t registered settled pass => ?_⟩
  simp only [Monitor.step] at pass
  split at pass
  · cases pass
  · exact pass_keeps (s := { s with killed := [] }) registered settled pass

/-- The only child is busy, and a second one is started. -/
theorem children_bounded_busy : ∃ first s : Monitor,
    startServer ⟨1, 2, 1, 10, 4, 0⟩ [some 7] = some first ∧
      replay Monitor.step (fun s a => decide (s.Prompt a)) first [.child 7 .register, .child 7 .up,
        .child 7 (.report 0 4 6 false), .pass (some 8), .child 8 .register] = some s ∧
      untold s.queue = 2 ∧ untold s.queue + s.unregistered ≤ s.limits.maxServers.toNat := by
  have ran : ((startServer ⟨1, 2, 1, 10, 4, 0⟩ [some 7]).bind fun first =>
      replay Monitor.step (fun s a => decide (s.Prompt a)) first [.child 7 .register, .child 7 .up,
        .child 7 (.report 0 4 6 false), .pass (some 8), .child 8 .register]).map
      (fun s => untold s.queue) = some 2 := by
    decide +kernel
  obtain ⟨s, run, two⟩ := Option.map_eq_some_iff.mp ran
  obtain ⟨first, opened, replayed⟩ := Option.bind_eq_some_iff.mp run
  have reached := Reaches.of_replay (fun _ _ passed => of_decide_eq_true passed) .here replayed
  exact ⟨first, s, opened, replayed, two, (children_bounded opened reached).1⟩

/-- A child that has exited without noticing that it is to be killed keeps its slot in every run of the shutdown,
which goes on as long as a slot is taken. -/
theorem unaware_child_keeps_slot {limits : Limits} {forked : List (Option Nat)} {first s t : Monitor}
    (opened : startServer limits forked = some first) (reached : Reaches Monitor.step (fun _ _ => True) first s)
    (down : s.down = true) {p : Proc} (member : p ∈ s.procs) (exited : p.phase = .exited) {i : Nat}
    (slot : p.slot = some i) {q : List Slot} {c : Slot} (queue : s.queueOf p.generation = some q)
    (here : q[i]? = some c) (unaware : c.toBeKilled ≠ .immediately)
    (later : Reaches Monitor.step (fun _ _ => True) s t) :
    ∃ q, t.queueOf p.generation = some q ∧ childsQueueIsEmpty q = false := by
  have inv : Owned s := reached.inv (startServer_owned opened) (fun _ _ _ inv _ pass => inv.step pass)
  have own : c.pid = p.pid := by
    obtain ⟨ps, pids, place⟩ := inv.placed p.toKey (List.mem_map_of_mem member) i slot
    rw [pidsOf, queue] at pids
    cases pids
    rw [List.getElem?_map, here] at place
    exact Option.some.inj place
  have stuck := later.inv (P := fun t => Owned t ∧ Stuck p i t)
    ⟨inv, down, member, q, c, queue, here, own, unaware⟩
    (fun _ _ _ inv _ pass => ⟨inv.1.step pass, inv.2.step inv.1 exited pass⟩)
  obtain ⟨inv, -, member, q, c, queue, here, own, -⟩ := stuck
  refine ⟨q, queue, ?_⟩
  by_contra empty
  rw [Bool.not_eq_false] at empty
  have free := of_decide_eq_true (List.all_eq_true.mp empty c (List.mem_of_getElem? here))
  exact inv.real p.toKey (List.mem_map_of_mem member) (own.symm.trans free)

/-- A child that has crashed when the shutdown begins. -/
theorem unaware_child_keeps_slot_crashed : ∃ first s t : Monitor,
    startServer ⟨1, 2, 1, 10, 4, 0⟩ [some 7] = some first ∧
      replay Monitor.step (fun _ _ => true) first [.child 7 .register, .child 7 .up, .child 7 .exit, .term] = some s ∧
      replay Monitor.step (fun _ _ => true) s [.term, .term] = some t ∧
      ∃ q, t.queueOf 0 = some q ∧ childsQueueIsEmpty q = false := by
  have ran : ((startServer ⟨1, 2, 1, 10, 4, 0⟩ [some 7]).bind fun first =>
      (replay Monitor.step (fun _ _ => true) first
        [.child 7 .register, .child 7 .up, .child 7 .exit, .term]).bind fun s =>
        (replay Monitor.step (fun _ _ => true) s [.term, .term]).map fun _ =>
          (s.down, s.procs, s.queueOf 0)) =
      some (true, [⟨⟨7, 0, some 0⟩, 4, .exited⟩],
        some [⟨7, 4, 0, 0, .no, .immediately, true⟩, .free, .free, .free]) := by
    decide +kernel
  obtain ⟨first, opened, rest⟩ := Option.bind_eq_some_iff.mp ran
  obtain ⟨s, replayed, rest⟩ := Option.bind_eq_some_iff.mp rest
  obtain ⟨t, again, seen⟩ := Option.map_eq_some_iff.mp rest
  simp only [Prod.mk.injEq] at seen
  obtain ⟨down, procs, queue⟩ := seen
  exact ⟨first, s, t, opened, replayed, again,
    unaware_child_keeps_slot opened (Reaches.of_replay (fun _ _ _ => trivial) .here replayed) down
      (by rw [procs]; exact List.mem_cons_self) rfl rfl queue rfl (by decide)
      (Reaches.of_replay (fun _ _ _ => trivial) .here again)⟩

end IcapService
