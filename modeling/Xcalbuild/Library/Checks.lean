/-
**Checks that are made one after the other.**

A check is a computation in `Except`. Some of its errors are reported to the caller, and the others
escape. `Judged reported check passes escapes` says by two conditions on the input when the check
passes and when an error escapes from it; in every other case an error is reported.

* `Judged.bind`: of two checks in sequence the second one is only made when the first one passes;
* `FirstAt`: of the elements of a list that are checked in order, an error escapes from the first
  one that does not pass;
* `Judged.reported_iff`: every error is reported exactly when the condition of an escape does not hold.
-/
import Xcalbuild.Library.Fallible

namespace Xcalbuild.Library

variable {ε α β : Type}

/-- **The first element that is not good is bad.** -/
def FirstAt (good bad : α → Prop) (l : List α) : Prop :=
  ∃ before x after, l = before ++ x :: after ∧ (∀ y ∈ before, good y) ∧ bad x

theorem firstAt_nil {good bad : α → Prop} : ¬ FirstAt good bad [] := by
  rintro ⟨before, x, after, split, -, -⟩
  exact List.cons_ne_nil _ _ (List.append_eq_nil_iff.mp split.symm).2

theorem firstAt_cons {good bad : α → Prop} {x : α} {l : List α} :
    FirstAt good bad (x :: l) ↔ bad x ∨ good x ∧ FirstAt good bad l := by
  constructor
  · rintro ⟨before, y, after, split, passed, isBad⟩
    cases before with
    | nil =>
      obtain ⟨rfl, rfl⟩ := List.cons.inj split
      exact Or.inl isBad
    | cons first before =>
      obtain ⟨rfl, rfl⟩ := List.cons.inj split
      obtain ⟨here, passed⟩ := List.forall_mem_cons.mp passed
      exact Or.inr ⟨here, before, y, after, rfl, passed, isBad⟩
  · rintro (isBad | ⟨here, before, y, after, rfl, passed, isBad⟩)
    · exact ⟨[], x, l, rfl, fun _ member => absurd member List.not_mem_nil, isBad⟩
    · exact ⟨x :: before, y, after, rfl, List.forall_mem_cons.mpr ⟨here, passed⟩, isBad⟩

theorem nonempty_of_firstAt {good bad : α → Prop} {l : List α} (first : FirstAt good bad l) :
    l ≠ [] := by
  rintro rfl
  exact firstAt_nil first

/-- Nothing bad comes first where nothing is bad. -/
theorem firstAt_false {good : α → Prop} {l : List α} : ¬ FirstAt good (fun _ => False) l := by
  rintro ⟨before, x, after, -, -, isBad⟩
  exact isBad

/-- **When a check passes, and when an error escapes from it.** -/
structure Judged (reported : ε → Prop) (check : Except ε α) (passes escapes : Prop) : Prop where
  passes_iff : (∃ a, check = .ok a) ↔ passes
  escapes_iff : (∃ e, check = .error e ∧ ¬ reported e) ↔ escapes

namespace Judged

variable {reported : ε → Prop} {check : Except ε α} {next : α → Except ε β}
  {passes escapes passes' escapes' : Prop}

theorem congr (judged : Judged reported check passes escapes) (samePasses : passes ↔ passes')
    (sameEscapes : escapes ↔ escapes') : Judged reported check passes' escapes' :=
  ⟨judged.passes_iff.trans samePasses, judged.escapes_iff.trans sameEscapes⟩

protected theorem ok (a : α) : Judged reported (.ok a) True False where
  passes_iff := iff_of_true ⟨a, rfl⟩ trivial
  escapes_iff := by
    refine iff_of_false ?_ id
    rintro ⟨e, failed, -⟩
    cases failed

/-- An error that is reported. -/
protected theorem report {e : ε} (isReported : reported e) :
    Judged (α := α) reported (.error e) False False where
  passes_iff := by
    refine iff_of_false ?_ id
    rintro ⟨a, passed⟩
    cases passed
  escapes_iff := by
    refine iff_of_false ?_ id
    rintro ⟨e', failed, escaped⟩
    cases failed
    exact escaped isReported

/-- An error that is not. -/
protected theorem escape {e : ε} (notReported : ¬ reported e) :
    Judged (α := α) reported (.error e) False True where
  passes_iff := by
    refine iff_of_false ?_ id
    rintro ⟨a, passed⟩
    cases passed
  escapes_iff := iff_of_true ⟨e, rfl, notReported⟩ trivial

/-- **Two checks in sequence.** -/
protected theorem bind {passed escaped : α → Prop} (first : Judged reported check passes escapes)
    (second : ∀ a, check = .ok a → Judged reported (next a) (passed a) (escaped a)) :
    Judged reported (check >>= next) (∃ a, check = .ok a ∧ passed a)
      (escapes ∨ ∃ a, check = .ok a ∧ escaped a) := by
  cases checked : check with
  | error e =>
    have absent : ∀ {p : α → Prop}, ¬ ∃ a, (Except.error e : Except ε α) = .ok a ∧ p a := by
      rintro p ⟨a, impossible, -⟩
      cases impossible
    rw [checked] at first
    constructor
    · rw [error_bind]
      refine iff_of_false ?_ absent
      rintro ⟨b, impossible⟩
      cases impossible
    · rw [error_bind, or_iff_left absent, ← first.escapes_iff]
      exact ⟨fun ⟨e', failed, escaped⟩ => ⟨e', by cases failed; rfl, escaped⟩,
        fun ⟨e', failed, escaped⟩ => ⟨e', by cases failed; rfl, escaped⟩⟩
  | ok a =>
    have only : ∀ {p : α → Prop}, (∃ a', (Except.ok a : Except ε α) = .ok a' ∧ p a') ↔ p a := by
      intro p
      constructor
      · rintro ⟨a', same, holds⟩
        cases same
        exact holds
      · exact fun holds => ⟨a, rfl, holds⟩
    rw [checked] at first
    have nothing : ¬ escapes := by
      rw [← first.escapes_iff]
      rintro ⟨e, impossible, -⟩
      cases impossible
    rw [ok_bind, only, only, or_iff_right nothing]
    exact second a checked

/-- Two checks in sequence, of which the second one does not depend on the value of the first. -/
protected theorem andThen (first : Judged reported check passes escapes)
    (second : ∀ a, check = .ok a → Judged reported (next a) passes' escapes') :
    Judged reported (check >>= next) (passes ∧ passes') (escapes ∨ passes ∧ escapes') := by
  refine (first.bind second).congr ?_ (or_congr_right ?_)
  · rw [← first.passes_iff]
    exact ⟨fun ⟨a, checked, holds⟩ => ⟨⟨a, checked⟩, holds⟩,
      fun ⟨⟨a, checked⟩, holds⟩ => ⟨a, checked, holds⟩⟩
  · rw [← first.passes_iff]
    exact ⟨fun ⟨a, checked, holds⟩ => ⟨⟨a, checked⟩, holds⟩,
      fun ⟨⟨a, checked⟩, holds⟩ => ⟨a, checked, holds⟩⟩

/-- What is made of the value does not matter. -/
protected theorem map (first : Judged reported check passes escapes) {f : α → β} :
    Judged reported (check >>= fun a => .ok (f a)) passes escapes :=
  (first.andThen fun a _ => .ok (f a)).congr (and_true passes).to_iff (by rw [and_false, or_false])

/-- A check of a list passes for the elements that were checked and the rest. -/
theorem cons {good bad : α → Prop} {x : α} {l : List α} {check : Except ε β}
    (judged : Judged reported check (good x ∧ ∀ y ∈ l, good y)
      (bad x ∨ good x ∧ FirstAt good bad l)) :
    Judged reported check (∀ y ∈ x :: l, good y) (FirstAt good bad (x :: l)) :=
  judged.congr List.forall_mem_cons.symm firstAt_cons.symm

theorem nil {good bad : α → Prop} (b : β) :
    Judged reported (.ok b) (∀ y ∈ ([] : List α), good y) (FirstAt good bad []) :=
  (Judged.ok b).congr (iff_of_true trivial fun _ member => absurd member List.not_mem_nil)
    (iff_of_false id firstAt_nil)

/-- **Every error is reported exactly when none escapes.** -/
theorem reported_iff (judged : Judged reported check passes escapes) :
    (∀ e, check = .error e → reported e) ↔ ¬ escapes := by
  rw [← judged.escapes_iff]
  constructor
  · rintro all ⟨e, failed, escaped⟩
    exact escaped (all e failed)
  · intro absent e failed
    exact Classical.byContradiction fun escaped => absent ⟨e, failed, escaped⟩

end Judged

end Xcalbuild.Library
