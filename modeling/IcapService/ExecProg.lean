import IcapService.GwRebuild

/-! `exec_prog` of `gw_rebuild.c`: the proxy program is run in a child process, and its exit code is the
status of the rebuild.

What the system calls return is left to the environment. -/

namespace IcapService

/-- What a call of `waitpid` with `WNOHANG` returns: 0, the pid of a child with its status word, or -1. The
pid counts only where any child is waited for. -/
inductive WaitOutcome where
  | running
  | reaped (pid : Nat) (status : UInt32)
  | failed
  deriving DecidableEq

/-- The outcomes of the system calls of one call of `exec_prog`, and the word that the variable `status`
holds at its start. A failed fork has no pid. -/
structure ExecEnv where
  fork : Option Nat
  execFails : Bool
  wait : Nat → WaitOutcome
  status : UInt32

/-- `WIFEXITED`. -/
def wifexited (status : UInt32) : Bool := decide (status.toNat % 128 = 0)

/-- `WEXITSTATUS`. -/
def wexitstatus (status : UInt32) : Int := (status.toNat / 256 % 256 : Nat)

inductive ProcessRole where
  | parent
  | child
  deriving DecidableEq

/-- How a call of `exec_prog` ends: the returns to its caller, with the process each happens in, and the
pids of the children that were reaped. -/
structure ExecRun where
  returns : List (ProcessRole × Int)
  reaped : List Nat
  deriving DecidableEq

/-- What follows the loop of `exec_prog`. -/
def exitValue (status : UInt32) : Int := if wifexited status = false then gwError else wexitstatus status

/-- The loop of `exec_prog` in the parent, which waits for `pid` or, where there is none, for any child:
the value it returns and what it reaps. -/
def waitLoop (env : ExecEnv) : Nat → Nat → Int × List Nat
  | timeout, call =>
      match env.wait call with
      | .failed => (exitValue env.status, [])
      | .reaped pid status => (exitValue status, [env.fork.getD pid])
      | .running =>
          match timeout with
          | 0 => (gwError, [])
          | timeout + 1 => waitLoop env timeout (call + 1)

/-- `exec_prog`. -/
def execProg (env : ExecEnv) : ExecRun :=
  let parent := waitLoop env 1000 0
  let child := if env.fork.isSome ∧ env.execFails then [(ProcessRole.child, gwError)] else []
  ⟨(.parent, parent.1) :: child, parent.2⟩

/-! ### The very child -/

/-- The first answer of `waitpid` that is not 0, among the calls that are made. -/
def WaitOutcome.first (wait : Nat → WaitOutcome) : Nat → Nat → Option WaitOutcome
  | timeout, call =>
      match wait call with
      | .running =>
          match timeout with
          | 0 => none
          | timeout + 1 => first wait timeout (call + 1)
      | outcome => some outcome

def ExecEnv.answer (env : ExecEnv) : Option WaitOutcome := WaitOutcome.first env.wait 1000 0

/-- The exit code of the child that was started, if it was reaped after a normal exit. -/
def ExecEnv.exitCode (env : ExecEnv) : Option Int :=
  match env.fork, env.answer with
  | some _, some (.reaped _ status) => if wifexited status then some (wexitstatus status) else none
  | _, _ => none

/-- Only the parent returns, with the exit code of its own child or `GW_ERROR`, and no other child is
reaped. -/
structure ExecEnv.Faithful (env : ExecEnv) : Prop where
  parent : ∀ r ∈ (execProg env).returns, r.1 = .parent
  value : ∀ r ∈ (execProg env).returns, r.1 = .parent → r.2 = env.exitCode.getD gwError
  own : ∀ pid ∈ (execProg env).reaped, env.fork = some pid

/-- The program can be executed, no child is reaped behind a failed fork, and where `waitpid` fails the
word left in `status` is not that of another exit. -/
structure ExecEnv.Sound (env : ExecEnv) : Prop where
  executes : env.fork.isSome = true → env.execFails = false
  forks : ∀ pid status, env.answer = some (.reaped pid status) → env.fork.isSome = true
  status : env.answer = some .failed → exitValue env.status = gwError

theorem waitLoop_first (env : ExecEnv) (timeout call : Nat) :
    waitLoop env timeout call =
      match WaitOutcome.first env.wait timeout call with
      | none => (gwError, [])
      | some .running => (gwError, [])
      | some .failed => (exitValue env.status, [])
      | some (.reaped pid status) => (exitValue status, [env.fork.getD pid]) := by
  induction timeout generalizing call with
  | zero => cases outcome : env.wait call <;> simp [waitLoop, WaitOutcome.first, outcome]
  | succ timeout ih => cases outcome : env.wait call <;> simp [waitLoop, WaitOutcome.first, outcome, ih]

/-- The answer is never that the child is still running. -/
theorem WaitOutcome.first_ne_running (wait : Nat → WaitOutcome) (timeout call : Nat) :
    first wait timeout call ≠ some .running := by
  induction timeout generalizing call with
  | zero => cases outcome : wait call <;> simp [first, outcome]
  | succ timeout ih => cases outcome : wait call <;> simp [first, outcome, ih]

theorem exitValue_eq (status : UInt32) :
    exitValue status = (if wifexited status then some (wexitstatus status) else none).getD gwError := by
  rw [exitValue]
  cases wifexited status <;> rfl

theorem mem_returns {env : ExecEnv} {r : ProcessRole × Int} :
    r ∈ (execProg env).returns ↔ r = (.parent, (waitLoop env 1000 0).1) ∨
      (env.fork.isSome = true ∧ env.execFails = true) ∧ r = (.child, gwError) := by
  simp only [execProg, List.mem_cons]
  split
  · rename_i fails
    simp [fails]
  · rename_i works
    simp [works]

/-- `exec_prog` reports the exit of its own child exactly when the outcomes of its calls are sound. -/
theorem exec_prog_faithful_iff (env : ExecEnv) : env.Faithful ↔ env.Sound := by
  have loop := waitLoop_first env 1000 0
  have ended := WaitOutcome.first_ne_running env.wait 1000 0
  change waitLoop env 1000 0 = match env.answer with
    | none => (gwError, [])
    | some .running => (gwError, [])
    | some .failed => (exitValue env.status, [])
    | some (.reaped pid status) => (exitValue status, [env.fork.getD pid]) at loop
  change env.answer ≠ some .running at ended
  constructor
  · intro faithful
    have value := faithful.value _ (mem_returns.mpr (.inl rfl)) rfl
    have own := faithful.own
    change ∀ pid ∈ (waitLoop env 1000 0).2, env.fork = some pid at own
    refine ⟨fun forked => ?_, fun pid status answer => ?_, fun answer => ?_⟩
    · by_contra fails
      have child := faithful.parent _ (mem_returns.mpr (.inr ⟨⟨forked, by simpa using fails⟩, rfl⟩))
      cases child
    · rw [loop, answer] at own
      rw [own _ (List.mem_singleton.mpr rfl)]
      rfl
    · rw [loop, answer] at value
      have none : env.exitCode = Option.none := by
        rw [ExecEnv.exitCode, answer]
        cases env.fork <;> rfl
      rw [none] at value
      exact value
  · intro sound
    refine ⟨fun r member => ?_, fun r member role => ?_, fun pid member => ?_⟩
    · rcases mem_returns.mp member with rfl | ⟨⟨forked, fails⟩, -⟩
      · rfl
      · rw [sound.executes forked] at fails
        cases fails
    · rcases mem_returns.mp member with rfl | ⟨-, rfl⟩
      · rw [loop, ExecEnv.exitCode]
        cases answer : env.answer with
        | none => cases env.fork <;> rfl
        | some outcome =>
            cases outcome with
            | running => exact absurd answer ended
            | failed =>
                have status := sound.status answer
                cases env.fork <;> exact status
            | reaped pid status =>
                obtain ⟨own, forked⟩ := Option.isSome_iff_exists.mp (sound.forks pid status answer)
                rw [forked]
                exact exitValue_eq status
      · cases role
    · change pid ∈ (waitLoop env 1000 0).2 at member
      rw [loop] at member
      cases answer : env.answer with
      | none => rw [answer] at member; cases member
      | some outcome =>
          rw [answer] at member
          cases outcome with
          | running => cases member
          | failed => cases member
          | reaped other status =>
              obtain ⟨own, forked⟩ := Option.isSome_iff_exists.mp (sound.forks other status answer)
              rw [forked] at member ⊢
              rw [List.mem_singleton.mp member]
              rfl

/-- The fork fails, and another child of the process has exited with the code 0. -/
def forkFailed : ExecEnv := ⟨none, false, fun _ => .reaped 42 0, 0⟩

/-- The exit of another thread's child is taken for that of the proxy program: the file counts as clean. -/
theorem failed_fork_reaps_other :
    (execProg forkFailed).returns = [(.parent, gwUnprocessed)] ∧ (execProg forkFailed).reaped = [42] ∧
      ¬ forkFailed.Faithful := by
  refine ⟨by decide, by decide, fun faithful => ?_⟩
  have own := faithful.own 42 (by decide)
  cases own

end IcapService
