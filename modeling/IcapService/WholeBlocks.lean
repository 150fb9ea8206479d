import IcapService.BodyRound

/-! `get_send_body` with a service that takes every block as a whole: nothing waits at the end of a
round, so the loop neither gives up on data nor parses behind the end of the body. -/

namespace IcapService

open CString Machine Chunked

variable {τ : Type} {texts : Texts} {m : IoModule τ} {calm : Prop} {I : τ → List (IoCall × IoAnswer) → Prop}
variable {rest body : Bytes} {last : LastChunk}

/-- A service with the invariant `I` takes the blocks of `body` as they come. -/
def TakesAll (m : IoModule τ) (I : τ → List (IoCall × IoAnswer) → Prop) (body : Bytes) : Prop :=
  ∀ t calls c, I t calls → takenData calls ++ c.data <+: body →
    (c.iseof = true → takenData calls ++ c.data = body) →
    (m.io t c).1.failed = false ∧ (m.io t c).1.taken = c.data.length ∧
      I (m.io t c).2 (calls ++ [(c, (m.io t c).1)])

theorem TakesAll.accepting (takes : TakesAll m I body) : Accepting m I body := by
  intro t calls c service part final _
  obtain ⟨-, taken, kept⟩ := takes t calls c service part final
  refine ⟨fun some => ?_, kept⟩
  rw [taken]
  exact List.length_pos_iff.mpr some

/-- Nothing waits for the service between the rounds, and the loop leaves behind the end. -/
def BodyLoop.Prompt (s : BodyLoop τ) : Prop :=
  s.q.read.writeToModulePending = 0 ∧ (s.point ≠ .test → s.q.read.eofReceived = false)

theorem BodyLoop.Prompt.within {s : BodyLoop τ} (prompt : s.Prompt) : ¬ s.Overrun := by
  rintro ⟨inner, ended, -, -⟩
  have open_ := prompt.2 (by rw [inner]; decide)
  rw [ended] at open_
  cases open_

theorem BodyLoop.Prompt.patient {s : BodyLoop τ} (prompt : s.Prompt) : ¬ s.Stalled :=
  fun stalled => stalled.2.1 prompt.1

/-- The body has not begun and the client sends nothing of it. -/
structure Exchange.Starving (q : Exchange τ) : Prop where
  none : q.read.pstrblockReadLen = 0
  input : q.conn.input = []
  open_ : q.read.eofReceived = false

theorem bodyReceive_starving {q : Exchange τ} (starving : q.Starving) (read : Option NetRes) :
    (bodyReceive q read).All Exchange.Starving (fun _ => True) := by
  obtain ⟨none, input, open_⟩ := starving
  cases read with
  | none => exact ⟨none, input, open_⟩
  | some res =>
      simp only [bodyReceive]
      split
      · trivial
      · rename_i ret read conn works result
        cases res with
        | fail =>
            simp only [netDataRead, Connection.readNonblock] at result
            split at result <;> exact absurd (Prod.ext_iff.mp result).1.symm works
        | bytes n =>
            simp only [netDataRead, Connection.readNonblock, input, List.take_nil] at result
            split at result
            · exact absurd (Prod.ext_iff.mp result).1.symm works
            · simp only [Prod.mk.injEq] at result
              obtain ⟨-, rfl, rfl⟩ := result
              exact ⟨by simp [none], rfl, open_⟩

theorem bodyTransfer_starving (texts : Texts) {q : Exchange τ} (starving : q.Starving) (read write : Option NetRes) :
    (bodyTransfer texts q read write).All Exchange.Starving (fun _ => True) := by
  refine (bodyReceive_starving starving read).bind (fun q' received => ?_)
  rcases bodySend_frame texts q' write with ⟨q'', sent, same⟩ | ⟨-, q'', failed⟩
  · rw [sent]
    refine ⟨?_, same.input.trans received.input, ?_⟩
    · rw [same.read]
      exact received.none
    · rw [same.read]
      exact received.open_
  · rw [failed]
    trivial

theorem bodyWait_starving (texts : Texts) {s : BodyLoop τ} (starving : s.q.Starving) :
    (bodyWait texts s).All Exchange.Starving (fun out => out.1 = .error) := by
  simp only [bodyWait]
  split
  · split
    · simp [Step.All, BodyLoop.leave, starving.open_]
    · rename_i read write conn wait
      have input : conn.input = [] := by
        rw [Connection.waitForData_frame wait]
        exact starving.input
      have moved := bodyTransfer_starving texts (q := { s.q with conn := conn })
        ⟨starving.none, input, starving.open_⟩ read write
      split
      · trivial
      · rename_i q result
        rw [result] at moved
        exact moved
  · exact starving

/-- The loop never gets to the end of a body that does not come. -/
theorem bodyStep_starving (texts : Texts) (m : IoModule τ) (fuel : Nat) {s : BodyLoop τ} (starving : s.q.Starving) :
    (bodyStep texts m fuel s).All (fun t => t.q.Starving) (fun out => out.1 = .error) := by
  simp only [bodyStep]
  split
  · refine (bodyWait_starving texts starving).bind (fun q starving => ?_)
    simp only [bodyEnter]
    split
    · rfl
    · exact ⟨starving.none, starving.input, starving.open_⟩
  · have parsed : bodyParse fuel s = some (.next s) := by simp [bodyParse, starving.none]
    rw [parsed]
    refine (bodyServe_served s).imp ?_ (fun out refused => ?_)
    · rintro t ⟨v, c, a, served, goes⟩
      have read : t.q.read = v.q.read ∧ t.q.conn = v.q.conn := by
        rcases goes with ⟨rfl, -, -⟩ | rfl
        · exact ⟨rfl, rfl⟩
        · exact ⟨rfl, rfl⟩
      rw [served.read, served.conn] at read
      refine ⟨?_, ?_, ?_⟩
      · rw [read.1]
        exact starving.none
      · rw [read.2]
        exact starving.input
      · rw [read.1]
        exact starving.open_
    · obtain ⟨c, a, refused⟩ := refused
      exact refused.ret
  · simp only [bodyTest]
    split
    · exact starving
    · simp [Step.All, BodyLoop.leave, starving.open_]

end IcapService
