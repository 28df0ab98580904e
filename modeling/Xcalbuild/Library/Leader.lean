/-
**The first of the best candidates.**

A candidate leads if no other one is worth more and none that is worth as much comes before it
(`Leads`). There is at most one (`Leads.unique`), and one among finitely many (`exists_leads`). What a
candidate is worth may be measured on another scale without changing who leads (`Leads.rescale`).
-/
import Mathlib.Order.Basic
import Mathlib.Order.Lattice

namespace Xcalbuild.Library

variable {κ α β : Type} [LinearOrder κ] [LinearOrder α] [LinearOrder β]

/-- **The first of the candidates that are worth the most.** -/
def Leads (candidate : κ → Prop) (worth : κ → α) (leader : κ) : Prop :=
  candidate leader ∧ ∀ other, candidate other →
    worth other < worth leader ∨ worth other = worth leader ∧ leader ≤ other

variable {candidate : κ → Prop} {worth : κ → α} {leader : κ}

namespace Leads

theorem le (leads : Leads candidate worth leader) {other : κ} (isCandidate : candidate other) :
    worth other ≤ worth leader :=
  (leads.2 other isCandidate).elim le_of_lt fun tie => le_of_eq tie.1

/-- **Only one candidate leads.** -/
theorem unique {first second : κ} (one : Leads candidate worth first)
    (another : Leads candidate worth second) : first = second := by
  have tie : worth first = worth second := le_antisymm (another.le one.1) (one.le another.1)
  apply le_antisymm
  · rcases one.2 second another.1 with less | ⟨-, before⟩
    · exact absurd tie (ne_of_gt less)
    · exact before
  · rcases another.2 first one.1 with less | ⟨-, before⟩
    · exact absurd tie (ne_of_lt less)
    · exact before

/-- The same candidate leads on a scale that has the same order. -/
theorem rescale {other : κ → β} (leads : Leads candidate worth leader)
    (scale : ∀ key, candidate key → (worth key < worth leader → other key < other leader) ∧
      (worth key = worth leader → other key = other leader)) : Leads candidate other leader := by
  refine ⟨leads.1, fun key isCandidate => ?_⟩
  obtain ⟨less, tie⟩ := scale key isCandidate
  exact (leads.2 key isCandidate).imp less (And.imp_left tie)

end Leads

/-- **One of finitely many candidates leads.** -/
theorem exists_leads {keys : List κ} (nonempty : keys ≠ []) :
    ∃ leader, Leads (· ∈ keys) worth leader := by
  induction keys with
  | nil => exact absurd rfl nonempty
  | cons key rest ih =>
    by_cases alone : rest = []
    · subst alone
      refine ⟨key, List.mem_cons_self, fun other member => ?_⟩
      rw [List.mem_singleton.mp member]
      exact Or.inr ⟨rfl, le_refl key⟩
    · obtain ⟨leader, member, best⟩ := ih alone
      by_cases beaten : worth leader < worth key ∨ worth leader = worth key ∧ key ≤ leader
      · refine ⟨key, List.mem_cons_self, fun other inside => ?_⟩
        rcases List.mem_cons.mp inside with rfl | inside
        · exact Or.inr ⟨rfl, le_refl other⟩
        · rcases beaten with less | ⟨tie, before⟩
          · rcases best other inside with lower | ⟨same, -⟩
            · exact Or.inl (lower.trans less)
            · exact Or.inl (same ▸ less)
          · rw [← tie]
            exact (best other inside).imp_right (And.imp_right before.trans)
      · refine ⟨leader, List.mem_cons_of_mem key member, fun other inside => ?_⟩
        rcases List.mem_cons.mp inside with rfl | inside
        · rw [not_or, not_and, not_le] at beaten
          rcases lt_or_eq_of_le (not_lt.mp beaten.1) with lower | same
          · exact Or.inl lower
          · exact Or.inr ⟨same, le_of_lt (beaten.2 same.symm)⟩
        · exact best other inside

end Xcalbuild.Library
