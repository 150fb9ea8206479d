import IcapService.GwRebuild
import IcapService.HeaderRuns
import IcapService.Lib.Chunked

/-! The Content-Length header of a response with a replaced body. -/

namespace IcapService

open CString CInt Chunked

/-! ### The body that is sent -/

section

variable {τ : Type} (m : IoModule τ)

/-- A call of `send_remaining_response`, with room for `n` bytes. -/
def pull (n : Nat) : IoCall := ⟨some n, none, true, true, false⟩

/-- The answers to one such call after the other. -/
def IoModule.pulls : τ → List Nat → List IoAnswer
  | _, [] => []
  | t, n :: rooms => (m.io t (pull n)).1 :: pulls (m.io t (pull n)).2 rooms

/-- However much room each call has, the callback gives the bytes of `body` and then the end. -/
def IoModule.Supplies (t : τ) (body : Bytes) : Prop :=
  ∀ rooms : List Nat, (∀ n ∈ rooms, 0 < n) → body.length < rooms.length →
    ∃ (parts : List Bytes) (rest : List (Bool × Produced)), (m.pulls t rooms).map (fun a => (a.failed, a.produced)) =
      parts.map (fun part => (false, Produced.bytes part)) ++ (false, .eof) :: rest ∧ parts.flatten = body

end

/-- The size limit does not refuse a body of this size. -/
def GwData.Fits (d : GwData) (size : Nat) : Prop := d.sizelimit = false ∨ size < d.maxObjectSize

instance (d : GwData) (size : Nat) : Decidable (d.Fits size) := inferInstanceAs (Decidable (_ ∨ _))

/-- A call for the rest of a complete body. -/
theorem gwRebuildIo_pull {d : GwData} (eof : d.body.store.hasEof) (fits : d.Fits d.body.store.endpos) (n : Nat) :
    d.gwRebuildIo (pull n) =
      match d.body.store.read n with
      | none => (⟨true, .untouched, 0, false⟩, d)
      | some (none, store) => (⟨false, .eof, 0, false⟩, { d with body := { d.body with store := store } })
      | some (some bytes, store) => (⟨false, .bytes bytes, 0, false⟩, { d with body := { d.body with store := store } }) := by
  have allowed : ¬ (d.sizelimit = true ∧ d.maxObjectSize ≤ d.body.store.endpos) := by
    rintro ⟨limited, reached⟩
    rcases fits with off | less
    · rw [off] at limited
      cases limited
    · omega
  have took : d.ioRead (pull n) = some (0, d) := by
    simp only [GwData.ioRead, pull, if_true, GwData.readFromNet, if_neg allowed, SimpleFile.write, eof]
    rfl
  simp only [GwData.gwRebuildIo, took]
  rfl

/-- A complete store is supplied, unless the size limit refuses it. -/
theorem supplies_store {d : GwData} (readable : d.body.store.Readable) (fits : d.Fits d.body.store.endpos) :
    gwIo.Supplies d d.body.store.unread := by
  intro rooms
  induction rooms generalizing d with
  | nil =>
      intro _ enough
      exact absurd enough (Nat.not_lt_zero _)
  | cons n rooms ih =>
      intro positive enough
      have room : 0 < n := positive n (by simp)
      obtain ⟨ended, more⟩ := readable.read n room
      have call := gwRebuildIo_pull readable.eof fits n
      by_cases empty : d.body.store.unread = []
      · rw [ended empty] at call
        refine ⟨[], (gwIo.pulls d rooms).map (fun a => (a.failed, a.produced)), ?_, empty.symm⟩
        rw [IoModule.pulls, List.map_cons, show gwIo.io d (pull n) = _ from call]
        rfl
      · obtain ⟨store, answer, readable', rest, same⟩ := more empty
        rw [answer] at call
        have small : (d.body.store.unread.drop n).length < rooms.length := by
          have filled := List.length_pos_iff.mpr empty
          rw [List.length_cons] at enough
          rw [List.length_drop]
          omega
        obtain ⟨parts, later, answers, whole⟩ := ih (d := { d with body := { d.body with store := store } }) readable'
          (by change d.Fits store.endpos; rw [same]; exact fits) (fun k member => positive k (by simp [member]))
          (by change store.unread.length < _; rw [rest]; exact small)
        refine ⟨d.body.store.unread.take n :: parts, later, ?_, ?_⟩
        · rw [IoModule.pulls, List.map_cons, show gwIo.io d (pull n) = _ from call, answers]
          rfl
        · rw [List.flatten_cons, whole]
          change d.body.store.unread.take n ++ store.unread = d.body.store.unread
          rw [rest, List.take_append_drop]

/-- Nothing is supplied once the store has reached the size limit. -/
theorem not_supplies_limit {d : GwData} (limited : ¬ d.Fits d.body.store.endpos) (body : Bytes) :
    ¬ gwIo.Supplies d body := by
  intro supplies
  obtain ⟨parts, rest, answers, -⟩ := supplies (List.replicate (body.length + 1) 1) (by simp) (by simp)
  have refused : d.sizelimit = true ∧ d.maxObjectSize ≤ d.body.store.endpos := by
    simpa [GwData.Fits] using limited
  have call : (gwIo.io d (pull 1)).1 = ⟨true, .untouched, 0, false⟩ := by
    change (d.gwRebuildIo (pull 1)).1 = _
    simp only [GwData.gwRebuildIo, GwData.ioRead, pull, if_true, GwData.readFromNet, if_pos refused, Option.map_none]
  rw [List.replicate_succ, IoModule.pulls, List.map_cons, call] at answers
  cases parts with
  | nil => simp at answers
  | cons part parts => simp at answers

/-! ### The header block that is sent -/

section

variable {h : HeadersList} {lines : List Bytes} (holds : Holds h lines) (fresh : Nat → UInt8) (server : Server)
  (size : Nat)

include holds

end

/-- The data hold this body, ready to be sent. -/
structure Loaded (d after : GwData) (body : Bytes) : Prop where
  readable : after.body.store.Readable
  unread : after.body.store.unread = body
  endpos : after.body.store.endpos = body.length
  limits : after.sizelimit = d.sizelimit ∧ after.maxObjectSize = d.maxObjectSize

theorem Loaded.supplies {d after : GwData} {body : Bytes} (loaded : Loaded d after body) :
    (∃ sent, gwIo.Supplies after sent) ↔ d.Fits body.length := by
  have limit : after.Fits after.body.store.endpos ↔ d.Fits body.length := by
    rw [GwData.Fits, GwData.Fits, loaded.endpos, loaded.limits.1, loaded.limits.2]
  constructor
  · rintro ⟨sent, supplies⟩
    by_contra limited
    exact not_supplies_limit (fun fits => limited (limit.mp fits)) sent supplies
  · intro fits
    exact ⟨_, supplies_store loaded.readable (limit.mpr fits)⟩

theorem wrap32_le (n : Nat) (positive : 0 ≤ wrap32 n) : (wrap32 n).toNat ≤ n ∧ (wrap32 n).toNat < 2147483648 := by
  have bounds := wrap32_bounds n
  unfold wrap32 at *
  omega

section

variable (fresh : Nat → UInt8) {r : HttpSide} {body : BodyData} {size : Nat} (told : body.store.endpos = size)

include told

end

section

variable (fresh : Nat → UInt8) (server : Server) {r : HttpSide} {d after : GwData} {body : BodyData} {sent : Bytes}
  (loaded : Loaded d after sent)

include loaded

variable (editable : r.packed = false) (told : body.store.endpos = sent.length)

include editable told

end

end IcapService
