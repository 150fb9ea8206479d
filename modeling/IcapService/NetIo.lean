import IcapService.Lib.CString

/-! The connection to the client and the calls of `net_io.c` on it.

The environment is a schedule: every wait for the socket takes the next event that makes it
ready for what was asked, and the event also says what the read or write call that follows
returns. A wait on an exhausted schedule times out. -/

namespace IcapService

open CString

/-- What a non-blocking read or write call returns: at most `n` bytes are moved (none when the
call would block), or the call fails. -/
inductive NetRes where
  | bytes (n : Nat)
  | fail
  deriving DecidableEq, Repr

/-- The socket becomes readable, writable or both, or the wait fails or times out. -/
inductive NetEvent where
  | ready (read write : Option NetRes)
  | timeout
  deriving DecidableEq, Repr

structure Connection where
  /-- What the client has sent and the server has not read. -/
  input : Bytes
  /-- What the client sends once it has got a 100 Continue. -/
  held : Bytes
  output : Bytes
  sched : List NetEvent
  deriving DecidableEq, Repr

/-- `ci_wait_for_read` and `ci_wait_for_write` as a set. -/
structure Wait where
  read : Bool
  write : Bool
  deriving DecidableEq, Repr

namespace Wait

def none : Wait := ⟨false, false⟩
def forRead : Wait := ⟨true, false⟩
def forWrite : Wait := ⟨false, true⟩

def any (w : Wait) : Bool := w.read || w.write

end Wait

/-- The wait over a schedule. Events the caller did not ask for do not end it. -/
def waitEvents (what : Wait) : List NetEvent → Option (Option NetRes × Option NetRes) × List NetEvent
  | [] => (none, [])
  | .timeout :: rest => (none, rest)
  | .ready read write :: rest =>
      let read := if what.read then read else none
      let write := if what.write then write else none
      if read.isSome || write.isSome then (some (read, write), rest) else waitEvents what rest

/-- A wait that does not time out takes an event. -/
theorem waitEvents_shorter {what : Wait} {sched rest : List NetEvent} {event : Option NetRes × Option NetRes}
    (wait : waitEvents what sched = (some event, rest)) : rest.length < sched.length := by
  induction sched with
  | nil => cases wait
  | cons e es ih =>
      cases e with
      | timeout => cases wait
      | ready r w =>
          simp only [waitEvents] at wait
          by_cases ready : ((if what.read then r else none).isSome ||
              (if what.write then w else none).isSome) = true
          · rw [if_pos ready, Prod.mk.injEq] at wait
            rw [← wait.2]
            simp
          · rw [if_neg ready] at wait
            have shorter := ih wait
            simp only [List.length_cons]
            omega

namespace Connection

/-- `wait_for_data`: no result is its -1. -/
def waitForData (c : Connection) (what : Wait) :
    Option (Option NetRes × Option NetRes) × Connection :=
  let out := waitEvents what c.sched
  (out.1, { c with sched := out.2 })

theorem waitForData_frame {c c' : Connection} {what : Wait} {r : Option (Option NetRes × Option NetRes)}
    (wait : c.waitForData what = (r, c')) : c' = { c with sched := c'.sched } := by
  rw [waitForData, Prod.mk.injEq] at wait
  rw [← wait.2]

/-- `ci_connection_read_nonblock`: no result is its -1. -/
def readNonblock (c : Connection) (res : NetRes) (count : Nat) : Option (Bytes × Connection) :=
  match res with
  | .fail => none
  | .bytes n =>
      let got := c.input.take (min n count)
      some (got, { c with input := c.input.drop got.length })

/-- A wait for data and the read behind it: no result when one of them fails. -/
def receive (c : Connection) (count : Nat) : Option (Bytes × Connection) :=
  match c.waitForData .forRead with
  | (some (some res, _), c) => c.readNonblock res count
  | _ => none

/-- What is received is the front of the input, and it takes an event. -/
theorem receive_spec {c c' : Connection} {count : Nat} {got : Bytes} (received : c.receive count = some (got, c')) :
    got.length ≤ count ∧ c.input = got ++ c'.input ∧ c'.sched.length < c.sched.length := by
  rw [receive] at received
  split at received
  · rename_i res write conn wait
    have frame := waitForData_frame wait
    simp only [waitForData, Prod.mk.injEq] at wait
    have shorter : conn.sched.length < c.sched.length := by
      rw [← wait.2]
      exact waitEvents_shorter (Prod.ext wait.1 rfl)
    cases res with
    | fail => cases received
    | bytes n =>
        simp only [readNonblock, Option.some.injEq, Prod.mk.injEq] at received
        obtain ⟨rfl, rfl⟩ := received
        have input : conn.input = c.input := by rw [frame]
        refine ⟨?_, ?_, shorter⟩
        · rw [List.length_take]
          omega
        · rw [input]
          exact (List.prefix_iff_eq_append.mp (List.take_prefix _ _)).symm
  · cases received

/-- `ci_connection_write_nonblock`: the number of bytes written, or no result for its -1. -/
def writeNonblock (c : Connection) (res : NetRes) (data : Bytes) : Option (Nat × Connection) :=
  match res with
  | .fail => none
  | .bytes n =>
      let sent := data.take n
      some (sent.length, { c with output := c.output ++ sent })

end Connection

end IcapService
