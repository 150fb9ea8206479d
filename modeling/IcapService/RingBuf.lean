import IcapService.Lib.Ring

/-! The ring buffer of `body.c` as a queue: runs of `ci_ring_buf_write` and `ci_ring_buf_read`.

A ring of `n` bytes is a `Ring n`; its operations carry the names of the source. -/

namespace IcapService

open CString

/-- A call of `ci_ring_buf_write` or of `ci_ring_buf_read`. -/
inductive RingOp where
  | write (data : Bytes)
  | read (size : Nat)

/-- A ring with the bytes that its writes have accepted and its reads have returned. -/
structure RingState (n : Nat) where
  ring : Ring n
  accepted : Bytes
  returned : Bytes

namespace RingState

variable {n : Nat}

/-- `ci_ring_buf_new`. -/
def new (n : Nat) (some : 0 < n) : RingState n := ⟨.new n some, [], []⟩

def step (s : RingState n) : RingOp → RingState n
  | .write data =>
      let out := s.ring.write data
      ⟨out.1, s.accepted ++ data.take out.2, s.returned⟩
  | .read size =>
      let out := s.ring.read size
      ⟨out.2, s.accepted, s.returned ++ out.1⟩

def run (s : RingState n) (ops : List RingOp) : RingState n := ops.foldl step s

/-- The number of bytes that have been accepted and not been returned. -/
def unread (s : RingState n) : Nat := s.accepted.length - s.returned.length

/-- A bounded queue that loses nothing. -/
structure Fifo (s : RingState n) : Prop where
  order : s.returned <+: s.accepted
  bounded : s.unread ≤ n
  accepts : ∀ data, data ≠ [] → s.unread < n → 0 < (s.ring.write data).2
  returns : ∀ size, 0 < size → 0 < s.unread → 0 < (s.ring.read size).1.length

/-- What has been accepted is what has been returned with the content of the ring behind it. -/
structure Queued (s : RingState n) : Prop where
  sound : s.ring.Sound
  waits : s.accepted = s.returned ++ s.ring.content

theorem new_queued (some : 0 < n) : (new n some).Queued :=
  ⟨Ring.new_sound some, by rw [new, Ring.new_content]; rfl⟩

theorem step_queued {s : RingState n} (queued : s.Queued) (op : RingOp) : (s.step op).Queued := by
  cases op with
  | write data =>
      obtain ⟨taken, content, sound⟩ := s.ring.write_spec queued.sound data
      refine ⟨sound, ?_⟩
      simp only [step]
      rw [taken, content, queued.waits, List.append_assoc]
  | read size =>
      obtain ⟨block, content, sound⟩ := s.ring.read_spec queued.sound size
      refine ⟨sound, ?_⟩
      simp only [step]
      rw [block, content, List.append_assoc, List.take_append_drop]
      exact queued.waits

theorem run_queued {s : RingState n} (queued : s.Queued) (ops : List RingOp) : (s.run ops).Queued := by
  induction ops generalizing s with
  | nil => exact queued
  | cons op ops ih => exact ih (step_queued queued op)

theorem Queued.unread {s : RingState n} (queued : s.Queued) : s.unread = s.ring.content.length := by
  rw [RingState.unread, queued.waits, List.length_append, Nat.add_sub_cancel_left]

theorem Queued.fifo {s : RingState n} (queued : s.Queued) : s.Fifo := by
  obtain ⟨within, room⟩ := queued.sound.content_length
  refine ⟨⟨_, queued.waits.symm⟩, ?_, ?_, ?_⟩
  · rw [queued.unread]
    exact within
  · intro data some spare
    rw [queued.unread] at spare
    rw [(s.ring.write_spec queued.sound data).1]
    exact Nat.lt_min.mpr ⟨List.length_pos_iff.mpr some, room spare⟩
  · intro size positive waiting
    rw [queued.unread] at waiting
    rw [(s.ring.read_spec queued.sound size).1, List.length_take]
    exact Nat.lt_min.mpr ⟨positive, waiting⟩

end RingState

/-- After every run of writes and reads the ring is a bounded queue. -/
theorem ring_buf_fifo {n : Nat} (some : 0 < n) (ops : List RingOp) : ((RingState.new n some).run ops).Fifo := by
  apply RingState.Queued.fifo
  exact RingState.run_queued (RingState.new_queued some) ops

/-- A ring of three bytes that is filled around its end. -/
theorem ring_buf_fifo_wrapped :
    ((RingState.new 3 (by decide)).run [.write [1, 2, 3], .read 2, .write [4, 5, 6], .read 1]).Fifo ∧
      ((RingState.new 3 (by decide)).run [.write [1, 2, 3], .read 2, .write [4, 5, 6], .read 1]).returned = [1, 2, 3] :=
  ⟨ring_buf_fifo (by decide) _, by decide⟩

end IcapService
