import IcapService.GwRebuild

/-! The sizes of `gw_rebuild`: the one of the file that the proxy program leaves, and the limit of the store. Both
are 64-bit offsets that pass through an `int`. -/

namespace IcapService

open CString CInt

/-- The positive size of a file. -/
theorem wrap32_size_iff (size : Nat) : wrap32 size = size ↔ size < 2147483648 := by
  constructor
  · intro same
    have bounds := (wrap32_bounds size).2
    omega
  · intro small
    exact wrap32_of_range size (by omega) (by omega)

/-- What `refresh_externally_updated_file` is for: the file has the size it has been left with, and it fails only if
there is none. -/
def Refreshed (f : SimpleFile) (output : Option Bytes) : Prop :=
  (∀ file ∈ output, ∀ g ∈ f.refreshExternallyUpdated output, g.endpos = file.length) ∧
    (f.refreshExternallyUpdated output = none → output = none)

theorem refreshed_iff (f : SimpleFile) (output : Option Bytes) :
    Refreshed f output ↔ ∀ file ∈ output, file.length < 2147483648 := by
  cases output with
  | none => simp [Refreshed, SimpleFile.refreshExternallyUpdated]
  | some file =>
      have exact := wrap32_size_iff file.length
      simp only [Refreshed, SimpleFile.refreshExternallyUpdated, Option.mem_some_iff, forall_eq']
      generalize wrap32 file.length = size at exact ⊢
      split
      · rename_i negative
        simp only [Option.not_mem_none, false_implies, implies_true, reduceCtorEq, imp_false, not_true_eq_false,
          and_false, false_iff]
        omega
      · rename_i positive
        simp only [Option.mem_some_iff, forall_eq', reduceCtorEq, false_implies, and_true]
        omega

theorem BodyData.new_limit (size : Int) : (BodyData.new size).store.lockAll.maxStoreSize = size.toNat := rfl

theorem initBodyData_store (d : GwData) :
    d.initBodyData.body.store =
      (BodyData.new (if d.sizelimit then wrap32 d.maxObjectSize else 0)).store.lockAll := rfl

theorem initBodyData_limit_iff (d : GwData) (limited : d.sizelimit = true) :
    d.initBodyData.body.store.maxStoreSize = d.maxObjectSize ↔ d.maxObjectSize < 2147483648 := by
  rw [initBodyData_store, if_pos limited, BodyData.new_limit]
  constructor
  · intro same
    have bound := (wrap32_bounds d.maxObjectSize).2
    omega
  · intro small
    rw [(wrap32_size_iff d.maxObjectSize).mpr small]
    rfl

/-- Both sizes are right below 2^31, and only there. -/
theorem gw_sizes_iff (f : SimpleFile) (output : Option Bytes) (d : GwData) (limit : Nat) :
    (Refreshed f output ↔ ∀ file ∈ output, file.length < 2147483648) ∧
      ((GwData.initBodyData { d with sizelimit := true, maxObjectSize := limit }).body.store.maxStoreSize = limit ↔
        limit < 2147483648) :=
  ⟨refreshed_iff f output, initBodyData_limit_iff { d with sizelimit := true, maxObjectSize := limit } rfl⟩

/-- A rebuilt file of 2 gigabytes is refused, and one of 4 gigabytes is empty; a limit of 4 gigabytes is none. -/
theorem large_sizes_lost :
    ((SimpleFile.new 0).refreshExternallyUpdated (some (List.replicate 2147483648 0)) = none) ∧
      ¬ Refreshed (.new 0) (some (List.replicate 2147483648 0)) ∧
      (GwData.initBodyData ⟨.new 0, false, 0, none, true, 4294967296⟩).body.store.maxStoreSize ≠ 4294967296 := by
  have refused : (SimpleFile.new 0).refreshExternallyUpdated (some (List.replicate 2147483648 0)) = none := by
    rw [SimpleFile.refreshExternallyUpdated]
    simp only [List.length_replicate]
    rfl
  refine ⟨refused, fun refreshed => ?_, fun same => ?_⟩
  · cases refreshed.2 refused
  · have small := (initBodyData_limit_iff ⟨.new 0, false, 0, none, true, 4294967296⟩ rfl).mp same
    revert small
    decide

end IcapService
