import IcapService.BodyRound

/-! A request whose data is locked sends nothing from `get_send_body`. -/

namespace IcapService

open CString Machine

variable {τ : Type} {texts : Texts} {m : IoModule τ} {base : Bytes}

/-- Nothing is being sent, and nothing may be. -/
structure WriteSide.Silent (w : WriteSide) : Prop where
  locked : w.dataLocked = true
  nothing : w.status = .nothing
  idle : w.remainSendBlockBytes = 0

/-- A state of the loop in which nothing has been sent. -/
structure Quiet (base : Bytes) (s : BodyLoop τ) : Prop where
  silent : s.q.write.Silent
  null : s.rchunkdata = none
  output : s.q.conn.output = base

/-- What the loop leaves behind: nothing new on the wire, and, where it succeeds, a request that is still
silent. -/
structure LeftQuiet (base : Bytes) (out : CiRet × Exchange τ) : Prop where
  output : out.2.conn.output = base
  silent : out.1 ≠ .error → out.2.write.Silent

theorem silent_kept : Kept texts (fun w out => w.Silent ∧ out = base) where
  update w out holds free := by
    rw [holds.1.locked] at free
    cases free
  send w w' c c' res holds sent := by
    rw [sendCurrentBlockData, if_pos holds.1.idle] at sent
    cases sent
    exact holds

/-- The callback leaves the lock alone. -/
def IoModule.KeepsLock (m : IoModule τ) : Prop := ∀ t c, (m.io t c).1.dataLocked = c.dataLocked

theorem Quiet.format {s : BodyLoop τ} (quiet : Quiet base s) : Quiet base (bodyFormat s) := by
  have same : bodyFrame s = s.q.write := by
    rw [bodyFrame, if_neg (by simp [quiet.silent.nothing])]
  refine ⟨?_, quiet.null, quiet.output⟩
  change (bodyFrame s).Silent
  rw [same]
  exact quiet.silent

theorem bodyServe_quiet (keeps : m.KeepsLock) {s : BodyLoop τ} (quiet : Quiet base s) :
    (bodyServe m s).All (Quiet base) (LeftQuiet base) := by
  have silent := quiet.silent
  refine (bodyServe_served s).imp ?_ ?_
  · rintro t ⟨v, c, a, served, next⟩
    obtain ⟨room, null⟩ := served.noRoom (by simp [silent.nothing]) quiet.null
    have lock := keeps s.q.data c
    rw [served.answer, served.dataLocked, silent.locked] at lock
    have empty : a.produced.data.length = 0 := by
      cases produced : a.produced with
      | bytes data =>
          have bound := m.room s.q.data c data (by rw [served.answer]; exact produced)
          rw [IoCall.space, room] at bound
          exact Nat.le_zero.mp bound
      | eof => rfl
      | error => rfl
      | untouched => rfl
    have after : Quiet base v := by
      refine ⟨⟨served.lock.trans lock, served.status.trans silent.nothing, ?_⟩, null, ?_⟩
      · rw [served.remain, silent.idle, empty]
        rfl
      · rw [served.conn]
        exact quiet.output
    rcases next with ⟨rfl, -, -⟩ | rfl
    · exact after
    · exact after.format
  · rintro out ⟨c, a, refused⟩
    refine ⟨?_, fun works => absurd refused.ret works⟩
    rw [refused.conn]
    exact quiet.output

/-- A step keeps the silence. -/
theorem bodyStep_quiet (keeps : m.KeepsLock) {s : BodyLoop τ} {fuel : Nat} (quiet : Quiet base s) :
    (bodyStep texts m fuel s).All (Quiet base) (LeftQuiet base) := by
  simp only [bodyStep]
  split
  · refine (bodyTop_moved silent_kept ⟨quiet.silent, quiet.output⟩).imp ?_ ?_
    · rintro t ⟨⟨silent, output⟩, entered⟩
      exact ⟨silent, entered.rchunkdata.trans quiet.null, output⟩
    · rintro out ⟨⟨silent, output⟩, -, -⟩
      exact ⟨output, fun _ => silent⟩
  · split
    · exact quiet
    · rename_i parsed result
      refine ((bodyParse_frame result).imp ?_ ?_).bind (fun t => bodyServe_quiet keeps)
      · intro t parsed
        refine ⟨?_, parsed.rchunkdata.trans quiet.null, ?_⟩
        · rw [parsed.write]
          exact quiet.silent
        · rw [parsed.conn]
          exact quiet.output
      · rintro out ⟨failed, -, conn, -, -⟩
        refine ⟨?_, fun works => absurd failed works⟩
        rw [conn]
        exact quiet.output
  · simp only [bodyTest]
    split
    · exact ⟨quiet.silent, quiet.null, quiet.output⟩
    · exact ⟨quiet.output, fun _ => quiet.silent⟩

/-- The loop starts silent on a locked request. -/
theorem Quiet.start {q : Exchange τ} (locked : q.write.dataLocked = true) (idle : q.write.remainSendBlockBytes = 0) :
    Quiet q.conn.output (BodyLoop.start q) := ⟨⟨locked, rfl, idle⟩, rfl, rfl⟩

end IcapService
