/-
**Shapes of JSON values.**

A shape is what a type definition of a JSON document says: a string, one of some names, an array or
a map of values of a shape, an object with a property, which may be optional. A value of a shape can
have any further properties.

Shapes are monotone in the shapes they are made of (`Shape.array_mono`, `Shape.required_mono`, …):
this compares two definitions of one document property by property.
-/
import Xcalbuild.Library.Json

namespace Xcalbuild.Library

abbrev Shape := Json → Prop

namespace Shape

def string : Shape := fun j => ∃ value, j = .str value

/-- A string that is not empty. -/
def name : Shape := fun j => ∃ value, value ≠ [] ∧ j = .str value

def oneOf (names : List Str) : Shape := fun j => ∃ value ∈ names, j = .str value

def object : Shape := fun j => j.isObject = true

/-- `t[]` -/
def array (t : Shape) : Shape := fun j => ∃ elems, j = .arr elems ∧ ∀ elem ∈ elems, t elem

/-- `{[k: names]: t}`, where `named` says which keys there are. -/
def map (named : Str → Prop) (t : Shape) : Shape := fun j =>
  ∃ members, j = .obj members ∧ ∀ member ∈ members, named member.1 ∧ t member.2

/-- A value that is not empty. -/
def filled (t : Shape) : Shape := fun j => t j ∧ 0 < j.size

/-- `{key: t}` -/
def required (key : Str) (t : Shape) : Shape := fun j => ∃ value, j.find key = some value ∧ t value

/-- `{key?: t}` -/
def optional (key : Str) (t : Shape) : Shape := fun j => ∀ value, j.find key = some value → t value

variable {t t' : Shape} {j : Json}

theorem name_string (isName : name j) : string j := by
  obtain ⟨value, -, rfl⟩ := isName
  exact ⟨value, rfl⟩

theorem array_mono (each : ∀ j, t j → t' j) (isArray : array t j) : array t' j := by
  obtain ⟨elems, rfl, every⟩ := isArray
  exact ⟨elems, rfl, fun elem member => each elem (every elem member)⟩

theorem map_mono {named named' : Str → Prop} (keys : ∀ key, named key → named' key)
    (each : ∀ j, t j → t' j) (isMap : map named t j) : map named' t' j := by
  obtain ⟨members, rfl, every⟩ := isMap
  exact ⟨members, rfl, fun member inside =>
    ⟨keys _ (every member inside).1, each _ (every member inside).2⟩⟩

theorem filled_mono (each : ∀ j, t j → t' j) (isFilled : filled t j) : t' j :=
  each j isFilled.1

theorem required_mono {key : Str} (each : ∀ j, t j → t' j) (has : required key t j) :
    required key t' j := by
  obtain ⟨value, found, holds⟩ := has
  exact ⟨value, found, each value holds⟩

theorem optional_mono {key : Str} (each : ∀ j, t j → t' j) (has : optional key t j) :
    optional key t' j :=
  fun value found => each value (has value found)

theorem required_of_count {key : Str} (present : j.count key = true) (has : optional key t j) :
    required key t j := by
  obtain ⟨value, found⟩ := Option.isSome_iff_exists.mp present
  exact ⟨value, found, has value found⟩

/-- An object has one value for a key. -/
theorem optional_of_required {key : Str} (has : required key t j) : optional key t j := by
  obtain ⟨value, found, holds⟩ := has
  intro value' found'
  rw [found] at found'
  cases found'
  exact holds

end Shape

end Xcalbuild.Library
