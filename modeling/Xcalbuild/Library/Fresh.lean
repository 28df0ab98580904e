/-
**Trying candidates in turn.**

Among pairwise different candidates, as many as there are used values and one more, one is not used
(`exists_fresh`). So a search that tries the candidates in turn ends, and the first free one comes
after used ones only.
-/
import Mathlib.Data.List.Dedup
import Mathlib.Data.List.Nodup
import Mathlib.Data.List.Perm.Subperm
import Mathlib.Data.Nat.Find

namespace Xcalbuild.Library

variable {α : Type} [DecidableEq α]

/-- **The first candidate that is not used** comes after at most as many as there are used values. -/
theorem exists_fresh {candidate : Nat → α} (injective : Function.Injective candidate)
    (used : List α) :
    ∃ k, k ≤ used.dedup.length ∧ candidate k ∉ used ∧ ∀ j < k, candidate j ∈ used := by
  have nonempty : ∃ k, k ≤ used.dedup.length ∧ candidate k ∉ used := by
    by_contra absent
    have all : ∀ k, k ≤ used.dedup.length → candidate k ∈ used := by
      intro k within
      by_contra fresh
      exact absent ⟨k, within, fresh⟩
    have nodup : ((List.range (used.dedup.length + 1)).map candidate).Nodup :=
      List.nodup_range.map injective
    have subset : (List.range (used.dedup.length + 1)).map candidate ⊆ used.dedup := by
      intro value member
      obtain ⟨k, inside, rfl⟩ := List.mem_map.mp member
      exact List.mem_dedup.mpr (all k (Nat.lt_succ_iff.mp (List.mem_range.mp inside)))
    have := (nodup.subperm subset).length_le
    simp only [List.length_map, List.length_range] at this
    omega
  obtain ⟨within, fresh⟩ := Nat.find_spec nonempty
  refine ⟨Nat.find nonempty, within, fresh, fun j below => ?_⟩
  by_contra other
  exact Nat.find_min nonempty below ⟨by omega, other⟩

end Xcalbuild.Library
