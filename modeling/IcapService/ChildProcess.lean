import Mathlib.Data.List.Range
import Mathlib.Data.List.Nodup
import Mathlib.Data.Fintype.Basic
import IcapService.Lib.Transition

/-! The threads of a child process of `mpmt_server.c`: the listener, its workers, and the queue of
accepted connections between them.

A section under a lock, a condition wait and a signal are one action each. The threads take their
actions in any order. -/

namespace IcapService

open Transition

/-- `to_be_killed`. -/
inductive Kill where
  | no
  | gracefully
  | immediately
  deriving DecidableEq

/-- Where a worker stands in `thread_main`. -/
inductive WorkerPoint where
  | head
  | getting
  /-- The queue was empty. -/
  | emptied
  /-- In `wait_for_queue`, before the wait. -/
  | entering
  | waiting
  /-- A connection has been taken, the counters have not been changed. -/
  | took (c : Nat)
  | serving (c : Nat)
  /-- The counters have been changed back, `free_server_cond` has not been signalled. -/
  | freed
  | stopped
  deriving DecidableEq

/-- Where `listener_thread` stands; `ready` counts the ports of a round that are still to be looked at. -/
inductive ListenerPoint where
  | starting
  | outer
  | polling
  | accepting (ready : Nat)
  | putting (c ready : Nat)
  /-- The connection is in the queue, `queue_cond` has not been signalled. -/
  | signalling (ready : Nat)
  | leaving
  | waiting
  | stopped
  /-- The branch of the message that no servers are available. -/
  | noServers
  deriving DecidableEq

/-- What `accept` gives. -/
inductive AcceptResult where
  | connection
  | aborted
  | interrupted
  | fatal
  deriving DecidableEq

/-- A child process with `n` workers. Connections are numbered as they are accepted, and `handed` records
which worker took which; the program has no such fields. The queue is a stack. -/
structure Child (n : Nat) where
  listener : ListenerPoint
  workers : Fin n → WorkerPoint
  queue : List Nat
  jobsInQueue : Int
  freeservers : Int
  usedservers : Int
  toBeKilled : Kill
  accepted : Nat
  handed : List (Nat × Fin n)

/-- What happens next in a child. -/
inductive ChildAction (n : Nat) where
  /-- The next action of a worker. -/
  | worker (w : Fin n)
  /-- A wait for the queue ends by itself or by the broadcast of a shutdown. -/
  | wakeWorker (w : Fin n)
  /-- A wait for a free server ends by itself or by the main thread. -/
  | wakeListener
  | enter (locked : Bool)
  | poll (ready : Option Nat)
  | accept (result : AcceptResult)
  | put
  | signal (woken : Option (Fin n))
  | check
  | leave (unlocked : Bool)
  | kill (level : Kill)
  deriving DecidableEq

namespace Child

variable {n : Nat}

/-- The state `child_main` starts the threads in; the queue has the size `n`. -/
def start (n : Nat) : Child n where
  listener := .starting
  workers := fun _ => .head
  queue := []
  jobsInQueue := 0
  freeservers := n
  usedservers := 0
  toBeKilled := .no
  accepted := 0
  handed := []

def moveWorker (s : Child n) (w : Fin n) (point : WorkerPoint) : Child n :=
  { s with workers := Function.update s.workers w point }

/-- `get_from_queue`. -/
def getFromQueue (s : Child n) (w : Fin n) : Child n :=
  match s.queue with
  | [] => s.moveWorker w .emptied
  | c :: rest => { s.moveWorker w (.took c) with queue := rest, handed := s.handed ++ [(c, w)] }

/-- The signal of `free_server_cond`. -/
def signalListener (s : Child n) : Child n :=
  if s.listener = .waiting ∨ s.listener = .starting then { s with listener := .outer } else s

/-- `thread_main`. -/
def workerStep (s : Child n) (w : Fin n) : Option (Child n) :=
  match s.workers w with
  | .head => some (s.moveWorker w (if s.toBeKilled = .immediately then .stopped else .getting))
  | .getting => some (s.getFromQueue w)
  | .emptied => some (s.moveWorker w (if s.toBeKilled ≠ .no then .stopped else .entering))
  | .entering => some (s.moveWorker w .waiting)
  | .waiting => none
  | .took c => some { s.moveWorker w (.serving c) with
      freeservers := s.freeservers - 1, usedservers := s.usedservers + 1 }
  | .serving _ => some { s.moveWorker w .freed with
      freeservers := s.freeservers + 1, usedservers := s.usedservers - 1 }
  | .freed => some (s.moveWorker w .head).signalListener
  | .stopped => none

/-- `put_to_queue` and what follows from its result. -/
def putToQueue (s : Child n) (c ready : Nat) : Child n :=
  if s.queue.length = n then { s with listener := .noServers }
  else { s with queue := c :: s.queue, jobsInQueue := s.queue.length + 1, listener := .signalling ready }

/-- The accept of a port that is ready. -/
def acceptStep (s : Child n) (ready : Nat) : AcceptResult → Child n
  | .connection => { s with listener := .putting s.accepted ready, accepted := s.accepted + 1 }
  | .aborted => { s with listener := if s.toBeKilled ≠ .no then .stopped else .accepting ready }
  | .interrupted => { s with listener := if s.toBeKilled ≠ .no then .stopped else .accepting (ready + 1) }
  | .fatal => { s with listener := .stopped }

/-- The signal of `queue_cond` wakes a worker that waits, if there is one. -/
def signalStep (s : Child n) (ready : Nat) : Option (Fin n) → Option (Child n)
  | none => if ∀ w, s.workers w ≠ .waiting then some { s with listener := .accepting ready } else none
  | some w =>
      if s.workers w = .waiting then some { s.moveWorker w .head with listener := .accepting ready } else none

/-- An action of a child whose listener looks after `ports` ports. -/
def step (ports : Nat) (s : Child n) (a : ChildAction n) : Option (Child n) :=
  match a, s.listener with
  | .worker w, _ => s.workerStep w
  | .wakeWorker w, _ => if s.workers w = .waiting then some (s.moveWorker w .head) else none
  | .kill level, _ => some { s with toBeKilled := level }
  | .wakeListener, .starting => some { s with listener := .outer }
  | .wakeListener, .waiting => some { s with listener := .outer }
  | .enter locked, .outer =>
      some { s with listener := if s.toBeKilled ≠ .no ∨ locked = false then .stopped else .polling }
  | .poll none, .polling => some { s with listener := .stopped }
  | .poll (some ready), .polling => if ready ≤ ports then some { s with listener := .accepting ready } else none
  | .accept result, .accepting (ready + 1) => some (s.acceptStep ready result)
  | .put, .putting c ready => some (s.putToQueue c ready)
  | .signal woken, .signalling ready => s.signalStep ready woken
  | .check, .accepting 0 =>
      some { s with listener :=
        if s.toBeKilled ≠ .no then .stopped else if 0 < s.freeservers - s.jobsInQueue then .polling else .leaving }
  | .leave unlocked, .leaving =>
      some { s with listener :=
        if unlocked = false then .stopped else if s.freeservers - s.queue.length ≤ 0 then .waiting else .outer }
  | _, _ => none

end Child

/-! ### What an action does -/

/-- A worker that stands here does not look into the queue again before it is woken. -/
def WorkerPoint.asleep : WorkerPoint → Bool
  | .emptied => true
  | .entering => true
  | .waiting => true
  | _ => false

namespace Child

variable {n ports : Nat} {s t : Child n}

/-- What an action of a worker does to the child. -/
structure WorkerMove (s t : Child n) (w : Fin n) (point : WorkerPoint) : Prop where
  workers : t.workers = Function.update s.workers w point
  asleep : point.asleep = true → (s.workers w).asleep = true ∨ s.queue = []
  servers : t.freeservers + t.usedservers = s.freeservers + s.usedservers
  accepted : t.accepted = s.accepted
  listener : t.listener = s.listener ∨
    (s.listener = .waiting ∨ s.listener = .starting) ∧ t.listener = .outer
  queue : t.queue = s.queue ∧ t.handed = s.handed ∨
    ∃ c, s.queue = c :: t.queue ∧ t.handed = s.handed ++ [(c, w)]

theorem workerStep_move {w : Fin n} (pass : s.workerStep w = some t) : ∃ point, WorkerMove s t w point := by
  simp only [workerStep] at pass
  split at pass
  · cases pass
    refine ⟨_, rfl, fun asleep => ?_, rfl, rfl, .inl rfl, .inl ⟨rfl, rfl⟩⟩
    split at asleep <;> cases asleep
  · cases pass
    cases waiting : s.queue with
    | nil =>
        rw [getFromQueue, waiting]
        exact ⟨_, rfl, fun _ => .inr waiting, rfl, rfl, .inl rfl, .inl ⟨rfl, rfl⟩⟩
    | cons c rest =>
        rw [getFromQueue, waiting]
        exact ⟨_, rfl, (fun asleep => nomatch asleep), rfl, rfl, .inl rfl, .inr ⟨c, waiting, rfl⟩⟩
  · rename_i point
    cases pass
    exact ⟨_, rfl, fun _ => .inl (by rw [point]; rfl), rfl, rfl, .inl rfl, .inl ⟨rfl, rfl⟩⟩
  · rename_i point
    cases pass
    exact ⟨_, rfl, fun _ => .inl (by rw [point]; rfl), rfl, rfl, .inl rfl, .inl ⟨rfl, rfl⟩⟩
  · cases pass
  · cases pass
    refine ⟨_, rfl, (fun asleep => nomatch asleep), ?_, rfl, .inl rfl, .inl ⟨rfl, rfl⟩⟩
    change s.freeservers - 1 + (s.usedservers + 1) = _
    omega
  · cases pass
    refine ⟨_, rfl, (fun asleep => nomatch asleep), ?_, rfl, .inl rfl, .inl ⟨rfl, rfl⟩⟩
    change s.freeservers + 1 + (s.usedservers - 1) = _
    omega
  · cases pass
    rw [signalListener]
    split
    · rename_i waits
      exact ⟨_, rfl, (fun asleep => nomatch asleep), rfl, rfl, .inr ⟨waits, rfl⟩, .inl ⟨rfl, rfl⟩⟩
    · exact ⟨_, rfl, (fun asleep => nomatch asleep), rfl, rfl, .inl rfl, .inl ⟨rfl, rfl⟩⟩
  · cases pass

/-! ### Accounting -/

end Child

/-- The connections the listener may still put in this round. -/
def ListenerPoint.due : ListenerPoint → Nat
  | .accepting ready => ready
  | .putting _ ready => ready + 1
  | .signalling ready => ready
  | _ => 0

/-- The connection the listener has accepted and not yet put. -/
def ListenerPoint.held : ListenerPoint → List Nat
  | .putting c _ => [c]
  | _ => []

/-- A point of the listener with no connection in hand and none due. -/
def ListenerPoint.Idle (point : ListenerPoint) : Prop := point.due = 0 ∧ point ≠ .noServers ∧ point.held = []

theorem ListenerPoint.idle_ite {c : Prop} [Decidable c] {p q : ListenerPoint} (left : p.Idle) (right : q.Idle) :
    (if c then p else q).Idle := by
  split
  · exact left
  · exact right

namespace Child

variable {n ports : Nat} {s t : Child n}

/-- Where the accepted connections are: with the listener, in the queue or handed to a worker. -/
def connections (s : Child n) : List Nat := s.listener.held ++ (s.queue ++ s.handed.map Prod.fst)

/-- Every worker is free or used, the queue keeps its size, no connection finds it full, and every
accepted connection is in one place. -/
structure Accounted (s : Child n) : Prop where
  servers : s.freeservers + s.usedservers = n
  size : s.queue.length ≤ n
  available : s.listener ≠ .noServers
  placed : s.connections.Perm (List.range s.accepted)

/-- A round of the accept loop starts with room for a connection of every ready port. -/
def RoundFits (s : Child n) : ChildAction n → Prop
  | .poll (some ready) => ready + s.queue.length ≤ n
  | _ => True

/-- The accounting, with room for the rest of the round. -/
structure Roomy (s : Child n) : Prop where
  servers : s.freeservers + s.usedservers = n
  room : s.queue.length + s.listener.due ≤ n
  available : s.listener ≠ .noServers
  placed : s.connections.Perm (List.range s.accepted)

theorem Roomy.accounted (roomy : Roomy s) : Accounted s :=
  ⟨roomy.servers, by have room := roomy.room; omega, roomy.available, roomy.placed⟩

theorem start_roomy (n : Nat) : Roomy (start n) := ⟨by simp [start], by simp [start, ListenerPoint.due], by simp [start], by
  simp [connections, start, ListenerPoint.held]⟩

/-- Where neither the queue nor the counters change, the listener decides. -/
theorem Roomy.of_listener (roomy : Roomy s) (point : ListenerPoint) (due : point.due ≤ s.listener.due)
    (available : point ≠ .noServers) (held : point.held = s.listener.held) :
    Roomy { s with listener := point } := by
  refine ⟨roomy.servers, ?_, available, ?_⟩
  · have room := roomy.room
    change s.queue.length + point.due ≤ n
    omega
  · change (point.held ++ (s.queue ++ s.handed.map Prod.fst)).Perm (List.range s.accepted)
    rw [held]
    exact roomy.placed

theorem Roomy.of_idle (roomy : Roomy s) {point : ListenerPoint} (idle : point.Idle) (empty : s.listener.held = []) :
    Roomy { s with listener := point } := by
  apply roomy.of_listener point _ idle.2.1 (idle.2.2.trans empty.symm)
  rw [idle.1]
  exact Nat.zero_le _

theorem WorkerMove.roomy {w : Fin n} {point : WorkerPoint} (move : WorkerMove s t w point) (roomy : Roomy s) :
    Roomy t := by
  have listener : t.listener.due = s.listener.due ∧ t.listener ≠ .noServers ∧ t.listener.held = s.listener.held := by
    rcases move.listener with same | ⟨waits, outer⟩
    · rw [same]
      exact ⟨rfl, roomy.available, rfl⟩
    · rcases waits with waiting | starting
      · rw [outer, waiting]
        exact ⟨rfl, by simp, rfl⟩
      · rw [outer, starting]
        exact ⟨rfl, by simp, rfl⟩
  obtain ⟨due, available, held⟩ := listener
  have room := roomy.room
  have placed := roomy.placed
  rw [connections] at placed
  refine ⟨move.servers.trans roomy.servers, ?_, available, ?_⟩
  · rcases move.queue with ⟨same, -⟩ | ⟨c, taken, -⟩
    · rw [same, due]
      exact room
    · rw [taken, List.length_cons] at room
      rw [due]
      omega
  · rw [connections, held, move.accepted]
    refine List.Perm.trans (List.Perm.append_left _ ?_) placed
    rcases move.queue with ⟨same, kept⟩ | ⟨c, taken, logged⟩
    · rw [same, kept]
    · -- the head of the queue goes to the end of the record
      rw [taken, logged, List.map_append, List.cons_append, ← List.append_assoc]
      exact List.perm_append_singleton c _

/-- A round that fits keeps the room. -/
theorem step_roomy {a : ChildAction n} (roomy : Roomy s) (fits : RoundFits s a) (pass : s.step ports a = some t) :
    Roomy t := by
  have room := roomy.room
  have placed := roomy.placed
  rw [connections] at placed
  have stopped : ListenerPoint.stopped.Idle := ⟨rfl, by simp, rfl⟩
  have outer : ListenerPoint.outer.Idle := ⟨rfl, by simp, rfl⟩
  have polling : ListenerPoint.polling.Idle := ⟨rfl, by simp, rfl⟩
  simp only [step] at pass
  split at pass
  · obtain ⟨point, move⟩ := workerStep_move pass
    exact move.roomy roomy
  · split at pass
    · cases pass
      exact ⟨roomy.servers, roomy.room, roomy.available, roomy.placed⟩
    · cases pass
  · cases pass
    exact ⟨roomy.servers, roomy.room, roomy.available, roomy.placed⟩
  · rename_i point
    cases pass
    exact roomy.of_idle outer (by rw [point]; rfl)
  · rename_i point
    cases pass
    exact roomy.of_idle outer (by rw [point]; rfl)
  · rename_i point
    cases pass
    exact roomy.of_idle (ListenerPoint.idle_ite stopped polling) (by rw [point]; rfl)
  · rename_i point
    cases pass
    exact roomy.of_idle stopped (by rw [point]; rfl)
  · rename_i ready point
    split at pass
    · cases pass
      refine ⟨roomy.servers, ?_, by simp, ?_⟩
      · change s.queue.length + ready ≤ n
        change ready + s.queue.length ≤ n at fits
        omega
      · rw [point] at placed
        exact placed
    · cases pass
  · rename_i result ready point
    cases pass
    rw [point] at room placed
    change s.queue.length + (ready + 1) ≤ n at room
    cases result with
    | connection =>
        refine ⟨roomy.servers, room, by simp [acceptStep], ?_⟩
        change (s.accepted :: (s.queue ++ s.handed.map Prod.fst)).Perm (List.range (s.accepted + 1))
        rw [List.range_succ]
        exact (placed.cons s.accepted).trans (List.perm_append_singleton _ _).symm
    | aborted =>
        refine roomy.of_listener _ ?_ ?_ ?_
        · rw [point]
          split
          · exact Nat.zero_le _
          · exact Nat.le_succ _
        · split <;> simp
        · rw [point]
          split <;> rfl
    | interrupted =>
        refine roomy.of_listener _ ?_ ?_ ?_
        · rw [point]
          split
          · exact Nat.zero_le _
          · exact Nat.le_refl _
        · split <;> simp
        · rw [point]
          split <;> rfl
    | fatal => exact roomy.of_listener .stopped (Nat.zero_le _) (by simp) (by rw [point]; rfl)
  · rename_i c ready point
    cases pass
    rw [point] at room placed
    change s.queue.length + (ready + 1) ≤ n at room
    rw [putToQueue, if_neg (by omega)]
    refine ⟨roomy.servers, ?_, by simp, placed⟩
    change (c :: s.queue).length + ready ≤ n
    rw [List.length_cons]
    omega
  · rename_i woken ready point
    rw [point] at room placed
    cases woken with
    | none =>
        simp only [signalStep] at pass
        split at pass
        · cases pass
          exact ⟨roomy.servers, room, by simp, placed⟩
        · cases pass
    | some w =>
        simp only [signalStep] at pass
        split at pass
        · cases pass
          exact ⟨roomy.servers, room, by simp, placed⟩
        · cases pass
  · rename_i point
    cases pass
    have leaving : ListenerPoint.leaving.Idle := ⟨rfl, by simp, rfl⟩
    apply roomy.of_idle (ListenerPoint.idle_ite stopped (ListenerPoint.idle_ite polling leaving))
    rw [point]
    rfl
  · rename_i point
    cases pass
    have waiting : ListenerPoint.waiting.Idle := ⟨rfl, by simp, rfl⟩
    apply roomy.of_idle (ListenerPoint.idle_ite stopped (ListenerPoint.idle_ite waiting outer))
    rw [point]
    rfl
  · cases pass

instance (s : Child n) (a : ChildAction n) : Decidable (s.RoundFits a) := by
  cases a with
  | poll ready =>
      cases ready with
      | none => exact isTrue trivial
      | some ready => exact inferInstanceAs (Decidable (ready + s.queue.length ≤ n))
  | _ => exact isTrue trivial

/-- The accounts of a child balance in every state of a run whose rounds fit. -/
theorem connections_accounted (n ports : Nat) (s : Child n)
    (reached : Reaches (step ports) RoundFits (start n) s) : Accounted s :=
  (reached.inv (start_roomy n) (fun _ _ _ => step_roomy)).accounted

/-- One worker, one port and one connection, up to its being served. -/
def servedActions : List (ChildAction 1) :=
  [.wakeListener, .enter true, .poll (some 1), .accept .connection, .put, .worker 0, .worker 0, .worker 0, .signal none,
    .check]

theorem connections_accounted_served :
    ∃ s : Child 1, Reaches (step 1) RoundFits (start 1) s ∧ s.workers 0 = .serving 0 ∧ s.handed = [(0, 0)] ∧
      Accounted s := by
  have computed : (replay (step 1) (fun s a => decide (s.RoundFits a)) (start 1) servedActions).map
      (fun s => (s.workers 0, s.handed)) = some (.serving 0, [(0, 0)]) := by decide
  obtain ⟨s, replayed, seen⟩ := Option.map_eq_some_iff.mp computed
  have reached : Reaches (step 1) RoundFits (start 1) s :=
    Reaches.of_replay (fun _ _ passed => of_decide_eq_true passed) .here replayed
  rw [Prod.mk.injEq] at seen
  exact ⟨s, reached, seen.1, seen.2, connections_accounted 1 1 s reached⟩

/-- Two ports of a child with one worker are ready in one round. -/
def crowdedActions : List (ChildAction 1) :=
  [.wakeListener, .enter true, .poll (some 2), .accept .connection, .put, .signal none, .accept .connection, .put]

/-- The second connection finds the queue full. -/
theorem crowded_round_not_accounted :
    ∃ s : Child 1, Reaches (step 2) (fun _ _ => True) (start 1) s ∧ s.listener = .noServers ∧
      1 < s.accepted ∧ 1 ∉ s.queue ++ s.handed.map Prod.fst ∧ ¬ Accounted s := by
  have computed : (replay (step 2) (fun _ _ => true) (start 1) crowdedActions).map
      (fun s => (s.listener, s.accepted, s.queue, s.handed)) = some (.noServers, 2, [0], []) := by decide
  obtain ⟨s, replayed, seen⟩ := Option.map_eq_some_iff.mp computed
  have reached : Reaches (step 2) (fun _ _ => True) (start 1) s :=
    Reaches.of_replay (fun _ _ _ => trivial) .here replayed
  simp only [Prod.mk.injEq] at seen
  obtain ⟨listener, accepted, queue, handed⟩ := seen
  refine ⟨s, reached, listener, by omega, ?_, fun accounted => accounted.available listener⟩
  rw [queue, handed]
  decide

/-! ### Wake-ups -/

/-- The queue holds a connection, every worker is blocked, and no signal is on its way. -/
def Stuck (s : Child n) : Prop :=
  s.queue ≠ [] ∧ (∀ w, s.workers w = .waiting) ∧ ∀ ready, s.listener ≠ .signalling ready

/-- A signal for a queue that holds a connection finds a worker that waits or that will look into the queue. -/
def SignalHeard (s : Child n) : ChildAction n → Prop
  | .signal _ => s.queue ≠ [] → ∃ w, s.workers w ≠ .emptied ∧ s.workers w ≠ .entering
  | _ => True

/-- A connection in the queue has a worker that will look, or a signal on its way. -/
def Watched (s : Child n) : Prop :=
  s.queue ≠ [] → (∀ ready, s.listener ≠ .signalling ready) → ∃ w, (s.workers w).asleep = false

theorem Watched.not_stuck (watched : Watched s) : ¬ Stuck s := by
  rintro ⟨filled, blocked, quiet⟩
  obtain ⟨w, awake⟩ := watched filled quiet
  rw [blocked w] at awake
  cases awake

/-- A worker that moves leaves another one awake, stays awake itself, or found the queue empty. -/
theorem WorkerMove.watched {w : Fin n} {point : WorkerPoint} (move : WorkerMove s t w point) (watched : Watched s) :
    Watched t := by
  intro filled quiet
  have before : s.queue ≠ [] := by
    rcases move.queue with ⟨same, -⟩ | ⟨c, taken, -⟩
    · rw [← same]
      exact filled
    · rw [taken]
      exact List.cons_ne_nil _ _
  have silent : ∀ ready, s.listener ≠ .signalling ready := by
    intro ready signalling
    rcases move.listener with same | ⟨waiting | starting, -⟩
    · exact quiet ready (same.trans signalling)
    · rw [signalling] at waiting
      cases waiting
    · rw [signalling] at starting
      cases starting
  obtain ⟨v, awake⟩ := watched before silent
  refine ⟨v, ?_⟩
  rw [move.workers]
  by_cases same : v = w
  · subst same
    rw [Function.update_self]
    by_contra sleeps
    rcases move.asleep (by simpa using sleeps) with asleep | empty
    · rw [awake] at asleep
      cases asleep
    · exact before empty
  · rw [Function.update_of_ne same]
    exact awake

/-- A worker that is woken is awake. -/
theorem watched_of_woken {w : Fin n} (woken : t.workers w = .head) : Watched t :=
  fun _ _ => ⟨w, by rw [woken]; rfl⟩

theorem Watched.of_listener (watched : Watched s) (point : ListenerPoint)
    (silent : ∀ ready, s.listener ≠ .signalling ready) : Watched { s with listener := point } :=
  fun filled _ => watched filled silent

theorem signalStep_watched {ready : Nat} {woken : Option (Fin n)} (heard : SignalHeard s (.signal woken))
    (pass : s.signalStep ready woken = some t) : Watched t := by
  cases woken with
  | none =>
      simp only [signalStep] at pass
      split at pass
      · rename_i none
        cases pass
        intro filled _
        obtain ⟨w, emptied, entering⟩ := heard filled
        refine ⟨w, ?_⟩
        change (s.workers w).asleep = false
        have waiting := none w
        cases point : s.workers w with
        | emptied => exact absurd point emptied
        | entering => exact absurd point entering
        | waiting => exact absurd point waiting
        | head | getting | took c | serving c | freed | stopped => rfl
      · cases pass
  | some w =>
      simp only [signalStep] at pass
      split at pass
      · cases pass
        exact watched_of_woken (w := w) (Function.update_self _ _ _)
      · cases pass

theorem step_watched {a : ChildAction n} (watched : Watched s) (heard : SignalHeard s a)
    (pass : s.step ports a = some t) : Watched t := by
  have silent : ∀ point, s.listener = point → (∀ ready, point ≠ .signalling ready) →
      ∀ ready, s.listener ≠ .signalling ready := by
    intro point same other ready signalling
    exact other ready (same.symm.trans signalling)
  simp only [step] at pass
  split at pass
  · obtain ⟨point, move⟩ := workerStep_move pass
    exact move.watched watched
  · rename_i w
    split at pass
    · cases pass
      exact watched_of_woken (w := w) (Function.update_self _ _ _)
    · cases pass
  · cases pass
    exact watched
  · rename_i point
    cases pass
    exact watched.of_listener _ (silent _ point (by simp))
  · rename_i point
    cases pass
    exact watched.of_listener _ (silent _ point (by simp))
  · rename_i point
    cases pass
    exact watched.of_listener _ (silent _ point (by simp))
  · rename_i point
    cases pass
    exact watched.of_listener _ (silent _ point (by simp))
  · rename_i point
    split at pass
    · cases pass
      exact watched.of_listener _ (silent _ point (by simp))
    · cases pass
  · rename_i result ready point
    cases pass
    have quiet := silent _ point (by simp)
    cases result with
    | connection => exact fun filled _ => watched filled quiet
    | aborted | interrupted | fatal => exact watched.of_listener _ quiet
  · rename_i c ready point
    cases pass
    rw [putToQueue]
    split
    · exact watched.of_listener _ (silent _ point (by simp))
    · exact fun _ quiet => absurd rfl (quiet ready)
  · exact signalStep_watched heard pass
  · rename_i point
    cases pass
    exact watched.of_listener _ (silent _ point (by simp))
  · rename_i point
    cases pass
    exact watched.of_listener _ (silent _ point (by simp))
  · cases pass

/-- No connection is left behind by a run whose signals are heard. -/
theorem no_lost_wake_up (n ports : Nat) (s : Child n) (reached : Reaches (step ports) SignalHeard (start n) s) :
    ¬ Stuck s := by
  have start : Watched (start n) := fun filled => absurd rfl filled
  exact (reached.inv start (fun _ _ _ => step_watched)).not_stuck

instance (s : Child n) (a : ChildAction n) : Decidable (s.SignalHeard a) := by
  cases a with
  | signal woken =>
      exact inferInstanceAs (Decidable (s.queue ≠ [] → ∃ w, s.workers w ≠ .emptied ∧ s.workers w ≠ .entering))
  | _ => exact isTrue trivial

/-- The worker waits before the connection comes. -/
def heardActions : List (ChildAction 1) :=
  [.worker 0, .worker 0, .worker 0, .worker 0, .wakeListener, .enter true, .poll (some 1), .accept .connection, .put,
    .signal (some 0)]

theorem no_lost_wake_up_heard :
    ∃ s : Child 1, Reaches (step 1) SignalHeard (start 1) s ∧ s.queue = [0] ∧ s.workers 0 = .head ∧ ¬ Stuck s := by
  have computed : (replay (step 1) (fun s a => decide (s.SignalHeard a)) (start 1) heardActions).map
      (fun s => (s.queue, s.workers 0)) = some ([0], .head) := by decide
  obtain ⟨s, replayed, seen⟩ := Option.map_eq_some_iff.mp computed
  have reached : Reaches (step 1) SignalHeard (start 1) s :=
    Reaches.of_replay (fun _ _ passed => of_decide_eq_true passed) .here replayed
  rw [Prod.mk.injEq] at seen
  exact ⟨s, reached, seen.1, seen.2, no_lost_wake_up 1 1 s reached⟩

/-- The worker finds the queue empty, and waits only after the signal. -/
def lostActions : List (ChildAction 1) :=
  [.worker 0, .worker 0, .worker 0, .wakeListener, .enter true, .poll (some 1), .accept .connection, .put,
    .signal none, .worker 0]

/-- A signal between the test of the queue and the wait is lost. -/
theorem signal_before_wait_is_lost : ∃ s : Child 1, Reaches (step 1) (fun _ _ => True) (start 1) s ∧ Stuck s := by
  have computed : (replay (step 1) (fun _ _ => true) (start 1) lostActions).map
      (fun s => (s.listener, s.workers 0, s.queue)) = some (.accepting 0, .waiting, [0]) := by decide
  obtain ⟨s, replayed, seen⟩ := Option.map_eq_some_iff.mp computed
  have reached : Reaches (step 1) (fun _ _ => True) (start 1) s :=
    Reaches.of_replay (fun _ _ _ => trivial) .here replayed
  simp only [Prod.mk.injEq] at seen
  obtain ⟨listener, worker, queue⟩ := seen
  refine ⟨s, reached, ?_, ?_, ?_⟩
  · rw [queue]
    decide
  · intro w
    rw [Subsingleton.elim w 0]
    exact worker
  · intro ready
    rw [listener]
    simp

end Child

end IcapService
