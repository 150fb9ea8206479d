import Mathlib.Data.List.Basic
import Mathlib.Data.List.Find
import Mathlib.Logic.Function.Basic

/-! Chained hash tables that are filled at the heads of their chains.

A search of a chain meets the entries in the order opposite to that in which they were added. -/

namespace IcapService.Chains

variable {β ε κ ν : Type} [DecidableEq β] [DecidableEq κ]

/-- Add an entry at the head of its chain. -/
def push (hash : ε → β) (t : β → List ε) (e : ε) : β → List ε := Function.update t (hash e) (e :: t (hash e))

end IcapService.Chains
