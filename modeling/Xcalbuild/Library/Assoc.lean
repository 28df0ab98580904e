/-
**Association lists.**

`mapAt key f` changes the values under a key in place and leaves all other entries where they are.
A lookup sees the change under that key and nowhere else (`lookup_mapAt`). What a lookup finds is an
entry (`mem_of_lookup`).
-/
import Mathlib.Data.List.Basic

namespace Xcalbuild.Library

variable {κ α : Type} [DecidableEq κ]

/-- The values under a key are changed in place. -/
def mapAt (key : κ) (f : α → α) (entries : List (κ × α)) : List (κ × α) :=
  entries.map fun entry => if entry.1 = key then (key, f entry.2) else entry

/-- **Only what is under the key is changed.** -/
theorem lookup_mapAt [BEq κ] [LawfulBEq κ] (key other : κ) (f : α → α) (entries : List (κ × α)) :
    (mapAt key f entries).lookup other =
      if other = key then (entries.lookup key).map f else entries.lookup other := by
  induction entries with
  | nil => simp [mapAt]
  | cons first rest ih =>
    obtain ⟨name, old⟩ := first
    unfold mapAt at ih ⊢
    rw [List.map_cons, List.lookup_cons, List.lookup_cons]
    by_cases named : name = key
    · subst named
      by_cases same : other = name
      · simp [same]
      · have differs : (other == name) = false := beq_eq_false_iff_ne.mpr same
        simp [differs, ih, same, List.lookup_cons]
    · have notKey : (key == name) = false := beq_eq_false_iff_ne.mpr (Ne.symm named)
      by_cases same : other = name
      · subst same
        simp [named]
      · have differs : (other == name) = false := beq_eq_false_iff_ne.mpr same
        simp [named, differs, ih, notKey, List.lookup_cons]

theorem mem_of_lookup [BEq κ] [LawfulBEq κ] {key : κ} {value : α} {entries : List (κ × α)}
    (found : entries.lookup key = some value) : (key, value) ∈ entries := by
  induction entries with
  | nil => cases found
  | cons first rest ih =>
    obtain ⟨name, old⟩ := first
    rw [List.lookup_cons] at found
    by_cases same : key = name
    · rw [beq_iff_eq.mpr same] at found
      cases found
      rw [same]
      exact List.mem_cons_self
    · rw [beq_eq_false_iff_ne.mpr same] at found
      exact List.mem_cons_of_mem _ (ih found)

end Xcalbuild.Library
