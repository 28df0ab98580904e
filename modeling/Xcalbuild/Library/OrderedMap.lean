/-
**Ordered maps.**

`OrderedMap κ α` is `std::map`: entries in increasing order of their keys, each key once. An
assignment (`set`) changes the value of one key (`find_set`); the entries are what `find` finds
(`mem_entries`).
-/
import Mathlib.Order.Lattice
import Mathlib.Data.List.Basic

namespace Xcalbuild.Library

/-- `std::map<κ, α>`. -/
structure OrderedMap (κ α : Type) [LinearOrder κ] where
  entries : List (κ × α)
  sorted : entries.Pairwise fun first second => first.1 < second.1

namespace OrderedMap

variable {κ α : Type} [LinearOrder κ]

def empty : OrderedMap κ α := ⟨[], List.Pairwise.nil⟩

/-- Assignment in a list of entries that increase. -/
def setEntry (key : κ) (value : α) : List (κ × α) → List (κ × α)
  | [] => [(key, value)]
  | (other, old) :: rest =>
      if key < other then (key, value) :: (other, old) :: rest
      else if key = other then (key, value) :: rest
      else (other, old) :: setEntry key value rest

theorem mem_setEntry_key {key : κ} {value : α} {entry : κ × α} {l : List (κ × α)}
    (member : entry ∈ setEntry key value l) : entry = (key, value) ∨ entry ∈ l := by
  induction l with
  | nil => exact Or.inl (List.mem_singleton.mp member)
  | cons first rest ih =>
    unfold setEntry at member
    split_ifs at member with below same
    · exact List.mem_cons.mp member
    · rcases List.mem_cons.mp member with here | member
      · exact Or.inl here
      · exact Or.inr (List.mem_cons_of_mem _ member)
    · rcases List.mem_cons.mp member with rfl | member
      · exact Or.inr List.mem_cons_self
      · exact (ih member).imp_right (List.mem_cons_of_mem _)

theorem setEntry_sorted {key : κ} {value : α} {l : List (κ × α)}
    (sorted : l.Pairwise fun first second => first.1 < second.1) :
    (setEntry key value l).Pairwise fun first second => first.1 < second.1 := by
  induction l with
  | nil => exact List.pairwise_singleton _ _
  | cons first rest ih =>
    obtain ⟨least, later⟩ := List.pairwise_cons.mp sorted
    unfold setEntry
    split_ifs with below same
    · refine List.pairwise_cons.mpr ⟨fun entry member => ?_, sorted⟩
      rcases List.mem_cons.mp member with rfl | member
      · exact below
      · exact lt_trans below (least entry member)
    · refine List.pairwise_cons.mpr ⟨fun entry member => ?_, later⟩
      rw [same]
      exact least entry member
    · refine List.pairwise_cons.mpr ⟨fun entry member => ?_, ih later⟩
      rcases mem_setEntry_key member with rfl | member
      · exact lt_of_le_of_ne (not_lt.mp below) (Ne.symm same)
      · exact least entry member

/-- `map[key] = value`. -/
def set (m : OrderedMap κ α) (key : κ) (value : α) : OrderedMap κ α :=
  ⟨setEntry key value m.entries, setEntry_sorted m.sorted⟩

/-- `map.find(key)`. -/
def find (m : OrderedMap κ α) (key : κ) : Option α := m.entries.lookup key

/-- The keys, in their order. -/
def keys (m : OrderedMap κ α) : List κ := m.entries.map Prod.fst

theorem lookup_cons_ite {key other : κ} {value : α} {l : List (κ × α)} :
    ((key, value) :: l).lookup other = if other = key then some value else l.lookup other := by
  rw [List.lookup_cons]
  by_cases same : other = key
  · rw [if_pos same, beq_iff_eq.mpr same]
  · rw [if_neg same, beq_eq_false_iff_ne.mpr same]

theorem lookup_setEntry {key other : κ} {value : α} {l : List (κ × α)} :
    (setEntry key value l).lookup other = if other = key then some value else l.lookup other := by
  induction l with
  | nil => rw [setEntry, lookup_cons_ite]
  | cons first rest ih =>
    obtain ⟨name, old⟩ := first
    unfold setEntry
    by_cases below : key < name
    · rw [if_pos below, lookup_cons_ite]
    · rw [if_neg below, lookup_cons_ite]
      by_cases same : key = name
      · subst same
        rw [if_pos rfl, lookup_cons_ite]
        split_ifs
        · rfl
        · rfl
      · rw [if_neg same, lookup_cons_ite, ih]
        by_cases here : other = name
        · rw [if_pos here, if_pos here, if_neg fun equal => same (equal.symm.trans here)]
        · rw [if_neg here, if_neg here]

/-- **An assignment changes the value of one key.** -/
@[simp] theorem find_set {m : OrderedMap κ α} {key other : κ} {value : α} :
    (m.set key value).find other = if other = key then some value else m.find other :=
  lookup_setEntry

/-- **The entries are what is found.** -/
theorem mem_entries {m : OrderedMap κ α} {key : κ} {value : α} :
    (key, value) ∈ m.entries ↔ m.find key = some value := by
  obtain ⟨entries, sorted⟩ := m
  show (key, value) ∈ entries ↔ entries.lookup key = some value
  induction entries with
  | nil => exact iff_of_false List.not_mem_nil (by rintro ⟨⟩)
  | cons first rest ih =>
    obtain ⟨name, old⟩ := first
    obtain ⟨least, later⟩ := List.pairwise_cons.mp sorted
    rw [lookup_cons_ite, List.mem_cons]
    by_cases same : key = name
    · subst same
      rw [if_pos rfl]
      have fresh : (key, value) ∉ rest := fun member =>
        lt_irrefl key (least (key, value) member)
      rw [or_iff_left fresh, Option.some_inj, Prod.mk.injEq, eq_comm (a := value)]
      exact and_iff_right rfl
    · rw [if_neg same, ← ih later]
      refine or_iff_right fun equal => same ?_
      exact congrArg Prod.fst equal

theorem mem_keys {m : OrderedMap κ α} {key : κ} :
    key ∈ m.keys ↔ ∃ value, m.find key = some value := by
  rw [keys, List.mem_map]
  constructor
  · rintro ⟨⟨key, value⟩, member, rfl⟩
    exact ⟨value, mem_entries.mp member⟩
  · rintro ⟨value, found⟩
    exact ⟨(key, value), mem_entries.mpr found, rfl⟩

end OrderedMap

end Xcalbuild.Library
