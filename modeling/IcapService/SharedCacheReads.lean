import IcapService.SharedCacheSlots

/-! What searches of the shared cache find. -/

namespace IcapService

open CString CInt Transition

/-- What is found for stored bytes; a value without bytes is NULL. -/
def foundValue (bytes : Bytes) : Option Bytes := if bytes = [] then none else some bytes

namespace SharedCache

/-- What a search finds was stored by the last successful update of the key. -/
def Fresh (c : SharedCache) (s : SharedState) : Prop :=
  ∀ now key val, c.search s.mem now key = some val →
    ∃ bytes, s.log.find? (fun x => decide (x.key = key)) = some ⟨key, some bytes⟩ ∧ val = foundValue bytes

/-- A successful update leaves a byte of its slot, and copies its value. -/
def Keeps (c : SharedCache) (s : SharedState) (op : Int64 × SharedUpdate) : Prop :=
  ∀ pos, c.chosen s.mem op.1 op.2 = some pos → ¬ c.Exact op.2 ∧ op.2.copied.isSome = true

variable {c : SharedCache} {m : Mem} {now : Int64} {u : SharedUpdate} {pos p : Nat}

/-! ### Reading back -/

/-- The slot of a key has what the last successful update of the key has stored, if it has the key. -/
structure Current (c : SharedCache) (s : SharedState) : Prop where
  slots : c.Slots s.mem
  last : ∀ key size, c.Written s.mem (c.keyHash key) key size →
    ∃ bytes, s.log.find? (fun x => decide (x.key = key)) = some ⟨key, some bytes⟩ ∧ bytes.length = size ∧
      s.mem.load (c.slotAt (c.keyHash key) + 32 + (key.size + 1)) size = bytes

/-- The empty key does not belong to the first slot. -/
theorem keyHash_empty (formed : c.Formed) {key : CText} (empty : key.bytes = []) : c.keyHash key ≠ 0 := by
  intro zero
  have odd : c.maxHash % 2 = 1 := by
    have pages := formed.pages
    have hashes := formed.hashes
    have several := formed.several
    omega
  have hash : ciHashCompute c.maxHash key.bytes (wrap32 key.size) = 177573 &&& c.maxHash := by
    rw [CText.size, empty]
    rfl
  rw [keyHash_eq formed, hash] at zero
  have bit := congrArg (fun n => n.testBit 0) zero
  simp [Nat.testBit_zero, odd] at bit

/-- A slot that has never been written has no key, also where its bytes would be those of the next one. -/
theorem blank_key (formed : c.Formed) (slots : c.Slots m) (blank : c.Blank m pos) : m (c.slotAt pos + 32) = 0 := by
  have size := formed.size.1
  by_cases room : 32 < c.entrySize
  · exact blank _ (by omega) (by rw [slotAt_succ]; omega)
  · have low : c.slotAt ((c.slotAt pos + 32) / c.entrySize) ≤ c.slotAt pos + 32 := Nat.div_mul_le_self _ _
    have high : c.slotAt pos + 32 < c.slotAt ((c.slotAt pos + 32) / c.entrySize + 1) :=
      Nat.lt_mul_of_div_lt (Nat.lt_succ_self _) (by omega)
    rcases slots ((c.slotAt pos + 32) / c.entrySize) with other | ⟨key, len, written⟩
    · exact other _ low high
    · have fits := written.fits.1
      have text : key.size = key.bytes.length + 1 := rfl
      omega

/-- What a search finds is in the slot of the key. -/
theorem searchLoop_found (formed : c.Formed) (slots : c.Slots m) {key : CText} {fuel : Nat} {val : Option Bytes}
    (found : (c.searchLoop m now key (c.keyHash key) fuel pos).2 = some val) :
    ∃ size, c.Written m (c.keyHash key) key size ∧
      val = if size = 0 then none else
        some (m.load (c.slotAt (c.keyHash key) + 32 + (key.size + 1)) size) := by
  induction fuel generalizing pos with
  | zero => cases found
  | succ fuel ih =>
      rw [searchLoop] at found
      split at found
      · cases found
      · simp only at found
        split at found
        · cases found
        · rename_i same
          have same : slotHash m (c.slotAt pos) = c.keyHash key := by simpa using same
          split at found
          · rename_i equal
            have equal := of_decide_eq_true equal
            split at found
            · exact ih found
            · rcases slots pos with blank | ⟨stored, size, written⟩
              · have empty : key.bytes = [] := by
                  cases bytes : key.bytes with
                  | nil => rfl
                  | cons b rest =>
                      have first := congrArg (fun l => l[0]?) equal
                      simp only [Mem.load, CText.size, bytes, List.getElem?_map, List.getElem?_range (Nat.succ_pos _),
                        Option.map_some, Nat.add_zero, List.cons_append, List.getElem?_cons_zero,
                        blank_key formed slots blank] at first
                      exact absurd (by rw [bytes, Option.some.inj first]; exact List.mem_cons_self) key.plain
                have header : m.load (c.slotAt pos + 0) 4 = List.replicate 4 0 :=
                  blank_load blank (by have size := formed.size.1; omega)
                rw [slotHash, ← Nat.add_zero (c.slotAt pos), header] at same
                exact absurd same.symm (keyHash_empty formed empty)
              · obtain rfl := text_unique written.text equal
                have own : c.keyHash stored = pos := same.symm.trans written.hash
                refine ⟨size, own ▸ written, ?_⟩
                rw [own, ← written.keySize, ← written.valueSize]
                exact (Option.some.inj found).symm
          · exact ih found

theorem Current.fresh (formed : c.Formed) {s : SharedState} (current : c.Current s) : c.Fresh s := by
  intro now key val found
  obtain ⟨size, written, rfl⟩ := searchLoop_found formed current.slots found
  obtain ⟨bytes, recorded, length, value⟩ := current.last key size written
  refine ⟨bytes, recorded, ?_⟩
  rw [value, foundValue, ← length]
  simp only [List.length_eq_zero_iff]

end SharedCache

end IcapService
