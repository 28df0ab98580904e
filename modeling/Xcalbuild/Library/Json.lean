/-
**JSON values.**

A JSON value, and the accesses a C++ program makes to one through `nlohmann::json`: `count`,
`operator[]` with a key, the conversion to a string, and the size. An access to a value of another
kind is a type error; an access to a key that a constant object does not have is undefined
behaviour, and a fault here.

An object is an association list. The library keeps it sorted by key and without repetitions;
nothing here depends on that, so the results hold for every list of members.

* `find_replace`: writing through a reference to a member changes that member alone.
-/
import Xcalbuild.Library.Assoc
import Xcalbuild.Library.Text

namespace Xcalbuild.Library

inductive Json where
  | null
  | bool (value : Bool)
  | num (lexeme : Str)
  | str (value : Str)
  | arr (elems : List Json)
  | obj (members : List (Str × Json))

namespace Json

/-- How an access to a JSON value goes wrong. -/
inductive Fault where
  | typeError
  | missingKey
  deriving DecidableEq, Repr

def isArray : Json → Bool
  | arr _ => true
  | _ => false

def isString : Json → Bool
  | str _ => true
  | _ => false

def isObject : Json → Bool
  | obj _ => true
  | _ => false

/-- `json.size()`. -/
def size : Json → Nat
  | null => 0
  | arr elems => elems.length
  | obj members => members.length
  | _ => 1

/-- The member of an object with the given key. -/
def find (key : Str) : Json → Option Json
  | obj members => members.lookup key
  | _ => none

/-- `json.count(key)`, as a truth value: only an object has keys. -/
def count (j : Json) (key : Str) : Bool := (j.find key).isSome

/-- `json[key]` of a constant value. -/
def atKey (j : Json) (key : Str) : Except Fault Json :=
  match j with
  | obj members =>
      match members.lookup key with
      | some value => .ok value
      | none => .error .missingKey
  | _ => .error .typeError

/-- `json[0]` of a constant value. The first element of an empty array is missing. -/
def front : Json → Except Fault Json
  | arr [] => .error .missingKey
  | arr (first :: _) => .ok first
  | _ => .error .typeError

/-- `json.get<std::string>()`. -/
def getString : Json → Except Fault Str
  | str value => .ok value
  | _ => .error .typeError

/-- The values a range-based `for` over the JSON value visits. -/
def range : Json → List Json
  | null => []
  | arr elems => elems
  | obj members => members.map Prod.snd
  | j => [j]

/-- `json.items()` of an object. -/
def items : Json → List (Str × Json)
  | obj members => members
  | _ => []

theorem mem_items_of_find {j value : Json} {key : Str} (found : j.find key = some value) :
    (key, value) ∈ j.items := by
  cases j with
  | obj members => exact mem_of_lookup found
  | _ => cases found

/-- `orig.insert(orig.begin(), val.begin(), val.end())`. -/
def insertFront (orig val : Json) : Except Fault Json :=
  match orig, val with
  | arr elems, arr values => .ok (.arr (values ++ elems))
  | _, _ => .error .typeError

/-- Writing through the reference `json[key]` to a member. -/
def replace (j : Json) (key : Str) (value : Json) : Json :=
  match j with
  | obj members => .obj (mapAt key (fun _ => value) members)
  | j => j

/-- **Only the member is changed.** -/
theorem find_replace {j : Json} {key : Str} (present : j.count key = true) (other : Str)
    (value : Json) :
    (j.replace key value).find other = if other = key then some value else j.find other := by
  unfold count at present
  cases j with
  | obj members =>
    obtain ⟨old, found⟩ := Option.isSome_iff_exists.mp present
    show (mapAt key (fun _ => value) members).lookup other = _
    rw [lookup_mapAt, show members.lookup key = some old from found]
    rfl
  | _ => cases present

/-- A member is there exactly when it was there before. -/
theorem count_replace {j : Json} {key : Str} (present : j.count key = true) (other : Str)
    (value : Json) : (j.replace key value).count other = j.count other := by
  unfold count
  rw [find_replace present]
  by_cases same : other = key
  · subst same
    rw [if_pos rfl]
    exact present.symm
  · rw [if_neg same]

end Json

end Xcalbuild.Library
