/-
**Ordered sets.**

`OrderedSet α` is `std::set`: the elements in increasing order, each once. The order is a field of
the structure, so that walking the set (`elems`) is walking it in order. Two ordered sets with the
same members are equal (`ext_mem`), which is what makes a set independent of the order in which
its elements were inserted.
-/
import Mathlib.Order.Lattice
import Mathlib.Data.List.Basic

namespace Xcalbuild.Library

/-- `std::set<α>`. -/
structure OrderedSet (α : Type) [LinearOrder α] where
  elems : List α
  sorted : elems.Pairwise (· < ·)

namespace OrderedSet

variable {α : Type} [LinearOrder α]

instance : Membership α (OrderedSet α) := ⟨fun s a => a ∈ s.elems⟩

theorem mem_def {a : α} {s : OrderedSet α} : a ∈ s ↔ a ∈ s.elems := Iff.rfl

instance (a : α) (s : OrderedSet α) : Decidable (a ∈ s) :=
  inferInstanceAs (Decidable (a ∈ s.elems))

def empty : OrderedSet α := ⟨[], List.Pairwise.nil⟩

/-- Insertion into an increasing list. -/
def insertElem (a : α) : List α → List α
  | [] => [a]
  | b :: rest => if a < b then a :: b :: rest else if a = b then b :: rest else b :: insertElem a rest

theorem mem_insertElem {a b : α} {l : List α} : b ∈ insertElem a l ↔ b = a ∨ b ∈ l := by
  induction l with
  | nil => simp [insertElem]
  | cons c rest ih =>
    unfold insertElem
    split_ifs with below same
    · simp
    · subst same
      simp
    · rw [List.mem_cons, ih, List.mem_cons]
      exact or_left_comm

theorem insertElem_sorted {a : α} {l : List α} (sorted : l.Pairwise (· < ·)) :
    (insertElem a l).Pairwise (· < ·) := by
  induction l with
  | nil => exact List.pairwise_singleton _ a
  | cons c rest ih =>
    have parts := List.pairwise_cons.mp sorted
    unfold insertElem
    split_ifs with below same
    · refine List.pairwise_cons.mpr ⟨fun b member => ?_, sorted⟩
      rcases List.mem_cons.mp member with rfl | member
      · exact below
      · exact lt_trans below (parts.1 b member)
    · exact sorted
    · refine List.pairwise_cons.mpr ⟨fun b member => ?_, ih parts.2⟩
      rcases mem_insertElem.mp member with rfl | member
      · exact lt_of_le_of_ne (not_lt.mp below) (Ne.symm same)
      · exact parts.1 b member

/-- `set.insert(a)`. -/
def insert (s : OrderedSet α) (a : α) : OrderedSet α :=
  ⟨insertElem a s.elems, insertElem_sorted s.sorted⟩

/-- `set.insert(first, last)`. -/
def insertAll (s : OrderedSet α) (l : List α) : OrderedSet α := l.foldl insert s

/-- `set.erase(a)`. -/
def erase (s : OrderedSet α) (a : α) : OrderedSet α :=
  ⟨s.elems.filter (· ≠ a), s.sorted.filter _⟩

/-- The set of the elements of a list. -/
def ofList (l : List α) : OrderedSet α := empty.insertAll l

@[simp] theorem not_mem_empty {a : α} : a ∉ (empty : OrderedSet α) := List.not_mem_nil

@[simp] theorem mem_insert {s : OrderedSet α} {a b : α} : b ∈ s.insert a ↔ b = a ∨ b ∈ s :=
  mem_insertElem

@[simp] theorem mem_erase {s : OrderedSet α} {a b : α} : b ∈ s.erase a ↔ b ∈ s ∧ b ≠ a := by
  simp [mem_def, erase]

@[simp] theorem mem_insertAll {s : OrderedSet α} {l : List α} {b : α} :
    b ∈ s.insertAll l ↔ b ∈ l ∨ b ∈ s := by
  induction l generalizing s with
  | nil => simp [insertAll]
  | cons a rest ih =>
    have step : b ∈ s.insertAll (a :: rest) ↔ b ∈ rest ∨ b ∈ s.insert a := ih
    rw [step, mem_insert, List.mem_cons]
    exact or_left_comm.trans or_assoc.symm

@[simp] theorem mem_ofList {l : List α} {b : α} : b ∈ ofList l ↔ b ∈ l := by
  simp [ofList]

theorem nodup (s : OrderedSet α) : s.elems.Nodup :=
  s.sorted.imp fun below => ne_of_lt below

/-- An increasing list is determined by its members. -/
theorem sorted_ext {l m : List α} (first : l.Pairwise (· < ·)) (second : m.Pairwise (· < ·))
    (same : ∀ a, a ∈ l ↔ a ∈ m) : l = m := by
  have perm : l.Perm m := (List.perm_ext_iff_of_nodup
    (first.imp fun below => ne_of_lt below) (second.imp fun below => ne_of_lt below)).mpr same
  exact perm.eq_of_pairwise (fun a b _ _ below above => absurd below (lt_asymm above)) first second

/-- **Two sets with the same members are the same set.** -/
theorem ext_mem {s t : OrderedSet α} (same : ∀ a, a ∈ s ↔ a ∈ t) : s = t := by
  have elems := sorted_ext s.sorted t.sorted same
  cases s
  cases t
  simpa using elems

end OrderedSet

end Xcalbuild.Library
