import Mathlib.Data.List.Basic
import Mathlib.Data.List.Nodup
import Mathlib.Data.List.Count
import IcapService.ChildProcess

/-! The monitor process of `mpmt_server.c` and its children.

The children share their slots of the queue with the monitor, which forks them, asks them to stop with a signal, and
takes them out of the queue when they have exited. A pass of the monitor's loop, the handling of one exited child and
each thing a child does are one action each, in any order. The queue of a reconfiguration can be created. -/

namespace IcapService

open Transition

namespace Monitor

/-- A `child_shared_data_t`; the pid 0 marks a free slot. -/
structure Slot where
  pid : Nat
  freeservers : Int
  usedservers : Int
  requests : Int
  toBeKilled : Kill
  fatherSaid : Kill
  idle : Bool
  deriving DecidableEq

/-- A slot that no child has registered. -/
def Slot.free : Slot := ⟨0, 0, 0, 0, .no, .no, false⟩

/-- The slot of `register_child`. -/
def Slot.registered (pid : Nat) (maxservers : Int) : Slot := ⟨pid, maxservers, 0, 0, .no, .no, true⟩

inductive Phase where
  /-- Signals are ignored. -/
  | starting
  | up
  | exited
  deriving DecidableEq

/-- Who a child is: the number of the queue it was forked with, and the slot it has registered. -/
structure Key where
  pid : Nat
  generation : Nat
  slot : Option Nat
  deriving DecidableEq

/-- A child that has not been waited for, with the threads of its configuration. -/
structure Proc extends Key where
  threads : Int
  phase : Phase
  deriving DecidableEq

/-- What the monitor reads of the configuration. -/
structure Limits where
  startServers : Int
  maxServers : Int
  minSpareThreads : Int
  maxSpareThreads : Int
  threadsPerChild : Int
  maxRequestsPerChild : Int
  deriving DecidableEq

/-- No more children are started at first than may run. -/
def Limits.clamped (limits : Limits) : Limits :=
  { limits with startServers := min limits.startServers limits.maxServers }

/-! ### What a pass finds -/

/-- The loop of `find_a_child_nrequests` and `find_an_idle_child`. -/
def findChild (eligible : Slot → Bool) : List Slot → Nat → Int → Option Nat → Option Nat
  | [], _, _, which => which
  | c :: rest, i, requests, which =>
      if c.pid = 0 then findChild eligible rest (i + 1) requests which
      else if c.toBeKilled ≠ .no then none
      else if eligible c ∧ requests < c.requests then findChild eligible rest (i + 1) c.requests (some i)
      else findChild eligible rest (i + 1) requests which

def findAChildNrequests (q : List Slot) (maxRequests : Int) : Option Nat :=
  findChild (fun _ => true) q 0 maxRequests none

def findAnIdleChild (q : List Slot) : Option Nat :=
  findChild (fun c => decide (c.usedservers = 0) && c.idle) q 0 (-1) none

/-- The children that `childs_queue_stats` counts. -/
def running (q : List Slot) : List Slot := q.filter fun c => decide (c.pid ≠ 0) && decide (c.toBeKilled = .no)

inductive Plan where
  /-- Replace a child that has served enough requests. -/
  | retire (i : Nat)
  | start
  | stop (i : Nat)
  | rest
  deriving DecidableEq

/-- What a pass of the loop of `start_server` is going to do. -/
def plan (limits : Limits) (q : List Slot) : Plan :=
  let childs : Int := (running q).length
  let freeservers := (running q).foldl (fun total c => total + c.freeservers) 0
  match if 0 < limits.maxRequestsPerChild then findAChildNrequests q limits.maxRequestsPerChild else none with
  | some i => .retire i
  | none =>
      if freeservers ≤ limits.minSpareThreads ∧ childs < limits.maxServers ∨ childs < limits.startServers then .start
      else if limits.maxSpareThreads ≤ freeservers ∧ limits.startServers < childs ∧
          limits.minSpareThreads < freeservers - limits.threadsPerChild then
        match findAnIdleChild q with
        | some i => .stop i
        | none => .rest
      else .rest

/-- What a child does. -/
inductive ChildAct where
  | register
  /-- The signal handlers are set up. -/
  | up
  | report (freeservers usedservers requests : Int) (idle : Bool)
  /-- The handler of SIGTERM runs. -/
  | handle
  /-- The child stops by itself. -/
  | quit (level : Kill)
  | exit
  deriving DecidableEq

inductive Action where
  /-- A pass of the loop; a fork that fails gives no pid. -/
  | pass (forked : Option Nat)
  /-- `waitpid` gives an exited child to `check_for_exited_childs`. -/
  | reap (pid : Nat)
  | reconfigure (limits : Limits) (forked : List (Option Nat))
  /-- `send_term_to_childs` for both queues; the loop has been left. -/
  | term
  /-- `waitpid` gives an exited child to `wait_childs_to_exit`. -/
  | wait (pid : Nat)
  | child (pid : Nat) (act : ChildAct)
  deriving DecidableEq

end Monitor

/-- The monitor with both queues, all children that have not been waited for, and the pids that the last action has
given to `kill`. -/
structure Monitor where
  limits : Monitor.Limits
  generation : Nat
  queue : List Monitor.Slot
  old : Option (List Monitor.Slot)
  procs : List Monitor.Proc
  killed : List Nat
  down : Bool
  deriving DecidableEq

namespace Monitor

variable (s : Monitor)

/-- The children as the bookkeeping sees them. -/
def keys : List Key := s.procs.map Proc.toKey

/-- The queue that was created with this number, as long as it is there. -/
def queueOf (g : Nat) : Option (List Slot) :=
  if g = s.generation then some s.queue else if g + 1 = s.generation then s.old else none

/-- A child writes to its slot. -/
def withSlot (g i : Nat) (f : Slot → Slot) : Monitor :=
  if g = s.generation then { s with queue := s.queue.modify i f }
  else if g + 1 = s.generation then { s with old := s.old.map fun q => q.modify i f }
  else s

def withProc (pid : Nat) (f : Proc → Proc) : Monitor :=
  { s with procs := s.procs.map fun p => if p.pid = pid then f p else p }

/-- `create_childs_queue`. -/
def createChildsQueue (limits : Limits) : List Slot := List.replicate (2 * limits.maxServers).toNat .free

/-- `start_child`. The pid of a new process is that of no other. -/
def startChild (pid : Option Nat) : Option Monitor :=
  match pid with
  | none => some s
  | some pid =>
      if pid = 0 ∨ pid ∈ s.keys.map Key.pid then none
      else some { s with procs := s.procs ++ [⟨⟨pid, s.generation, none⟩, s.limits.threadsPerChild, .starting⟩] }

/-- `father_said` and the signal for one child. -/
def tell (i : Nat) (level : Kill) : Monitor :=
  { s with
    queue := s.queue.modify i fun c => { c with fatherSaid := level }
    killed := s.killed ++ (s.queue[i]?.map Slot.pid).toList }

/-- The same for every child of a queue that needs it. -/
def tellAll (needs : Slot → Bool) (level : Kill) (q : List Slot) : List Slot :=
  q.map fun c => if c.pid ≠ 0 ∧ needs c then { c with fatherSaid := level } else c

def told (needs : Slot → Bool) (q : List Slot) : List Nat :=
  (q.filter fun c => decide (c.pid ≠ 0) && needs c).map Slot.pid

def pass (forked : Option Nat) : Option Monitor :=
  match plan s.limits s.queue with
  | .retire i => (s.startChild forked).map fun t => t.tell i .gracefully
  | .start => s.startChild forked
  | .stop i => some (s.tell i .gracefully)
  | .rest => some s

/-- `remove_child`. -/
def removeChild (pid : Nat) (q : List Slot) : Option (List Slot) :=
  (q.findIdx? fun c => c.pid = pid).map fun i => q.modify i fun c => { c with pid := 0 }

def childsQueueIsEmpty (q : List Slot) : Bool := q.all fun c => decide (c.pid = 0)

/-- A child that was waited for is gone. -/
def without (pid : Nat) : Monitor := { s with procs := s.procs.filter fun p => decide (p.pid ≠ pid) }

/-- A pass of `check_for_exited_childs`. -/
def reap (pid : Nat) : Option Monitor :=
  if ∃ p ∈ s.procs, p.pid = pid ∧ p.phase = .exited then
    match removeChild pid s.queue, s.old with
    | some q, _ => some { s.without pid with queue := q }
    | none, none => some (s.without pid)
    | none, some old =>
        let rest := (removeChild pid old).getD old
        some { s.without pid with old := if childsQueueIsEmpty rest then none else some rest }
  else none

/-- `server_reconfigure`, when the configuration can be read. -/
def reconfigure (limits : Limits) (forked : List (Option Nat)) : Option Monitor :=
  if s.old.isSome then some s
  else if (forked.length : Int) = max 0 limits.clamped.startServers then
    forked.foldlM startChild { s with
      limits := limits.clamped
      generation := s.generation + 1
      queue := createChildsQueue limits
      old := some (tellAll (fun _ => true) .gracefully s.queue)
      killed := told (fun _ => true) s.queue }
  else none

/-- `send_term_to_childs`. -/
def term : Monitor :=
  let needs := fun c : Slot => decide (c.toBeKilled ≠ .immediately)
  { s with
    queue := tellAll needs .immediately s.queue
    old := s.old.map (tellAll needs .immediately)
    killed := told needs s.queue ++ (s.old.map (told needs)).getD []
    down := true }

/-- A child that has been told, in this queue. -/
def waitsFor (pid : Nat) (q : List Slot) : Bool :=
  q.any fun c => decide (c.pid = pid) && decide (c.toBeKilled = .immediately)

/-- A pass of `wait_childs_to_exit`. -/
def wait (pid : Nat) : Option Monitor :=
  if ∃ p ∈ s.procs, p.pid = pid ∧ p.phase = .exited then
    if waitsFor pid s.queue then (removeChild pid s.queue).map fun q => { s.without pid with queue := q }
    else s.old.bind fun old =>
      if waitsFor pid old then (removeChild pid old).map fun q => { s.without pid with old := some q } else none
  else none

/-- `register_child`; without a free slot the child exits. -/
def register (p : Proc) : Monitor :=
  match (s.queueOf p.generation).bind fun q => q.findIdx? fun c => c.pid = 0 with
  | none => s.withProc p.pid fun p => { p with phase := .exited }
  | some i => (s.withSlot p.generation i fun _ => .registered p.pid p.threads).withProc p.pid fun p =>
      { p with slot := some i }

/-- The handler of SIGTERM, and the test of `father_said` when the handlers have been set up. -/
def Slot.handled (c : Slot) : Slot :=
  { c with toBeKilled := if c.fatherSaid = .no then .immediately else c.fatherSaid }

def Slot.started (c : Slot) : Slot := if c.fatherSaid = .no then c else { c with toBeKilled := .immediately }

def Slot.quits (c : Slot) (level : Kill) : Slot :=
  if level = .immediately ∨ level = .gracefully ∧ c.toBeKilled = .no then { c with toBeKilled := level } else c

def Slot.reports (c : Slot) (freeservers usedservers requests : Int) (idle : Bool) : Slot :=
  { c with freeservers := freeservers, usedservers := usedservers, requests := requests, idle := idle }

/-- What a registered child does with its slot. -/
def ChildAct.write : ChildAct → Slot → Slot
  | .up, c => c.started
  | .report freeservers usedservers requests idle, c => c.reports freeservers usedservers requests idle
  | .handle, c => c.handled
  | .quit level, c => c.quits level
  | _, c => c

def childStep (p : Proc) (act : ChildAct) : Option Monitor :=
  match p.phase, p.slot, act with
  | .exited, _, _ => none
  | _, _, .exit => some (s.withProc p.pid fun p => { p with phase := .exited })
  | .starting, none, .register => some (s.register p)
  | .starting, some i, .up =>
      some ((s.withSlot p.generation i (ChildAct.write .up)).withProc p.pid fun p => { p with phase := .up })
  | .up, some i, act =>
      if act = .register ∨ act = .up then none else some (s.withSlot p.generation i act.write)
  | _, _, _ => none

def step (s : Monitor) (a : Action) : Option Monitor :=
  let s := { s with killed := [] }
  match a with
  | .pass forked => if s.down then none else s.pass forked
  | .reap pid => if s.down then none else s.reap pid
  | .reconfigure limits forked => if s.down then none else s.reconfigure limits forked
  | .term => some s.term
  | .wait pid => if s.down then s.wait pid else none
  | .child pid act => (s.procs.find? fun p => p.pid = pid).bind fun p => s.childStep p act

/-- A monitor without children. -/
def create (limits : Limits) : Monitor where
  limits := limits.clamped
  generation := 0
  queue := createChildsQueue limits
  old := none
  procs := []
  killed := []
  down := false

/-- `start_server` in front of its loop. -/
def startServer (limits : Limits) (forked : List (Option Nat)) : Option Monitor :=
  if (forked.length : Int) = max 0 limits.clamped.startServers then forked.foldlM startChild (create limits) else none

end Monitor

end IcapService
