/-
**Interleavings.**

Several workers make calls, each in its own order; `Interleaving workers calls` says that `calls` is
one order in which all of them can be made. Every interleaving is a permutation of all calls
(`Interleaving.perm`), so what depends on the calls up to their order only is the same for any two.
The calls of one kind that only one worker makes are in the order of that worker
(`Interleaving.owned`).
-/
import Mathlib.Data.List.Basic
import Mathlib.Data.List.Perm.Basic

namespace Xcalbuild.Library

variable {α : Type}

/-- **The calls of the workers, in one order**: the next call is the first one that some worker has
left. -/
inductive Interleaving : List (List α) → List α → Prop
  | done {workers : List (List α)} : (∀ worker ∈ workers, worker = []) → Interleaving workers []
  | call {workers : List (List α)} {n : Nat} {a : α} {rest calls : List α} :
      workers[n]? = some (a :: rest) → Interleaving (workers.set n rest) calls →
        Interleaving workers (a :: calls)

/-- Taking the first call of a worker takes it out of all calls. -/
theorem flatten_set_perm {workers : List (List α)} {n : Nat} {a : α} {rest : List α}
    (listed : workers[n]? = some (a :: rest)) :
    workers.flatten.Perm (a :: (workers.set n rest).flatten) := by
  induction workers generalizing n with
  | nil => cases listed
  | cons worker workers ih =>
    cases n with
    | zero =>
      cases listed
      exact List.Perm.refl _
    | succ n =>
      rw [List.set_cons_succ, List.flatten_cons, List.flatten_cons]
      exact ((ih listed).append_left worker).trans List.perm_middle

/-- **An interleaving makes every call once.** -/
theorem Interleaving.perm {workers : List (List α)} {calls : List α}
    (order : Interleaving workers calls) : calls.Perm workers.flatten := by
  induction order with
  | done finished => rw [List.flatten_eq_nil_iff.mpr finished]
  | call listed _ ih => exact (ih.cons _).trans (flatten_set_perm listed).symm

/-- **The calls of a kind that one worker alone makes** come in the order of that worker. -/
theorem Interleaving.owned {workers : List (List α)} {calls : List α}
    (order : Interleaving workers calls) (kind : α → Bool) {n : Nat} {worker : List α}
    (listed : workers[n]? = some worker)
    (others : ∀ m other, m ≠ n → workers[m]? = some other → other.filter kind = []) :
    calls.filter kind = worker.filter kind := by
  induction order generalizing worker with
  | done finished => rw [finished worker (List.mem_of_getElem? listed)]
  | @call workers k a rest calls calledBy _ ih =>
    have inside : k < workers.length := (List.getElem?_eq_some_iff.mp calledBy).1
    by_cases mine : k = n
    · subst mine
      cases calledBy.symm.trans listed
      have later := ih (List.getElem?_set_self inside) fun m other away atOther =>
        others m other away (by rwa [List.getElem?_set_ne away.symm] at atOther)
      rw [List.filter_cons, List.filter_cons, later]
    · have absent : (a :: rest).filter kind = [] := others k _ mine calledBy
      have unkind : ¬ kind a = true := List.filter_eq_nil_iff.mp absent a List.mem_cons_self
      rw [List.filter_cons_of_neg unkind]
      apply ih
      · rwa [List.getElem?_set_ne mine]
      · intro m other away atOther
        by_cases caller : k = m
        · subst caller
          rw [List.getElem?_set_self inside] at atOther
          cases atOther
          rwa [List.filter_cons_of_neg unkind] at absent
        · rw [List.getElem?_set_ne caller] at atOther
          exact others m other away atOther

end Xcalbuild.Library
