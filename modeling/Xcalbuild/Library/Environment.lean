/-
**Process environments.**

An environment is a list of strings, as in `environ` of POSIX; a variable is a string
`name=value` of it. The same name may occur more than once, and what `getenv` finds is the first.

* `getenv` and `setenv`, with `getenv_setenv` and `getenv_setenv_other`;
* `without`: an environment less the variables of a name, which leaves the other ones as they are
  (`getenv_without_other`);
* `getenv_append`: the second of two environments counts where the first has no such variable.
-/
import Xcalbuild.Library.Text

namespace Xcalbuild.Library

/-- The string of a variable. -/
def binding (name value : Str) : Str := name ++ '=' :: value

/-- The string is a variable of this name. -/
def names (name : Str) (entry : Str) : Bool := (name ++ ['=']).isPrefixOf entry

/-- `getenv`, which finds the first variable of the name. -/
def getenv (environ : List Str) (name : Str) : Option Str :=
  (environ.find? (names name)).map (List.drop (name.length + 1))

/-- `setenv` with overwriting: the first variable of the name is replaced. -/
def setenv (name value : Str) : List Str → List Str
  | [] => [binding name value]
  | entry :: rest =>
      if names name entry then binding name value :: rest else entry :: setenv name value rest

/-- The environment less the variables of a name. -/
def without (name : Str) (environ : List Str) : List Str := environ.filter fun e => !names name e

/-! ### Variables -/

theorem names_iff {name entry : Str} :
    names name entry = true ↔ ∃ value, entry = binding name value := by
  unfold names binding
  rw [List.isPrefixOf_iff_prefix]
  constructor
  · rintro ⟨value, rfl⟩
    exact ⟨value, by rw [List.append_assoc, List.singleton_append]⟩
  · rintro ⟨value, rfl⟩
    exact ⟨value, by rw [List.append_assoc, List.singleton_append]⟩

@[simp] theorem names_binding (name value : Str) : names name (binding name value) = true :=
  names_iff.mpr ⟨value, rfl⟩

/-- A variable has one name. -/
theorem names_binding_other {name other : Str} (value : Str) (plain : '=' ∉ name)
    (plain' : '=' ∉ other) (different : other ≠ name) : names other (binding name value) = false := by
  rw [← Bool.not_eq_true, names_iff]
  rintro ⟨value', same⟩
  apply different
  have read : ∀ s t : Str, '=' ∉ s → (s ++ '=' :: t).takeWhile (· ≠ '=') =
      s ++ ('=' :: t).takeWhile (· ≠ '=') := by
    intro s t absent
    refine List.takeWhile_append_of_pos fun c member => decide_eq_true ?_
    rintro rfl
    exact absent member
  have parts := congrArg (List.takeWhile (· ≠ '=')) same
  rw [binding, binding, read _ _ plain, read _ _ plain'] at parts
  simpa using parts.symm

@[simp] theorem drop_binding (name value : Str) :
    (binding name value).drop (name.length + 1) = value := by
  rw [binding, ← List.singleton_append, ← List.append_assoc]
  exact List.drop_left' (by simp)

/-- The variables of one name are not of another. -/
theorem names_other {name other entry : Str} (plain : '=' ∉ name) (plain' : '=' ∉ other)
    (different : other ≠ name) (named : names name entry = true) : names other entry = false := by
  obtain ⟨value, rfl⟩ := names_iff.mp named
  exact names_binding_other value plain plain' different

/-! ### Looking up -/

section Lookup

variable {name : Str} {entry : Str} {environ : List Str}

theorem getenv_cons_self (value : Str) (rest : List Str) :
    getenv (binding name value :: rest) name = some value := by
  rw [getenv, List.find?_cons_of_pos (names_binding name value), Option.map_some, drop_binding]

theorem getenv_cons_other (rest : List Str) (unnamed : names name entry = false) :
    getenv (entry :: rest) name = getenv rest name := by
  rw [getenv, List.find?_cons_of_neg (by rw [unnamed]; exact Bool.false_ne_true)]
  rfl

theorem getenv_eq_none_iff : getenv environ name = none ↔ ∀ e ∈ environ, names name e = false := by
  rw [getenv, Option.map_eq_none_iff, List.find?_eq_none]
  simp

theorem getenv_append (first second : List Str) :
    getenv (first ++ second) name = (getenv first name).or (getenv second name) := by
  unfold getenv
  rw [List.find?_append]
  cases first.find? (names name) <;> rfl

/-! ### Changing -/

theorem without_cons_self (rest : List Str) (named : names name entry = true) :
    without name (entry :: rest) = without name rest :=
  List.filter_cons_of_neg (by simp [named])

theorem without_cons_other (rest : List Str) (unnamed : names name entry = false) :
    without name (entry :: rest) = entry :: without name rest :=
  List.filter_cons_of_pos (by simp [unnamed])

theorem not_names_of_mem_without (member : entry ∈ without name environ) :
    names name entry = false := by
  have kept := (List.mem_filter.mp member).2
  simpa using kept

theorem getenv_without : getenv (without name environ) name = none :=
  getenv_eq_none_iff.mpr fun _ member => not_names_of_mem_without member

theorem getenv_without_other {other : Str} (plain : '=' ∉ name) (plain' : '=' ∉ other)
    (different : other ≠ name) : getenv (without name environ) other = getenv environ other := by
  induction environ with
  | nil => rfl
  | cons e rest ih =>
    by_cases named : names name e = true
    · have unnamed := names_other plain plain' different named
      rw [getenv_cons_other rest unnamed, ← ih, without_cons_self rest named]
    · rw [without_cons_other rest (by simpa using named)]
      by_cases same : names other e = true
      · obtain ⟨value, rfl⟩ := names_iff.mp same
        rw [getenv_cons_self, getenv_cons_self]
      · rw [Bool.not_eq_true] at same
        rw [getenv_cons_other _ same, getenv_cons_other _ same, ih]

theorem getenv_setenv (value : Str) : getenv (setenv name value environ) name = some value := by
  induction environ with
  | nil => exact getenv_cons_self value []
  | cons e rest ih =>
    unfold setenv
    by_cases named : names name e = true
    · rw [if_pos named, getenv_cons_self]
    · rw [if_neg named, getenv_cons_other _ (by simpa using named), ih]

theorem getenv_setenv_other {other : Str} (value : Str) (plain : '=' ∉ name) (plain' : '=' ∉ other)
    (different : other ≠ name) : getenv (setenv name value environ) other = getenv environ other := by
  have unnamed := names_binding_other value plain plain' different
  induction environ with
  | nil => exact getenv_cons_other [] unnamed
  | cons e rest ih =>
    unfold setenv
    by_cases named : names name e = true
    · rw [if_pos named, getenv_cons_other _ unnamed,
        getenv_cons_other _ (names_other plain plain' different named)]
    · rw [if_neg named]
      by_cases same : names other e = true
      · obtain ⟨value', rfl⟩ := names_iff.mp same
        rw [getenv_cons_self, getenv_cons_self]
      · rw [Bool.not_eq_true] at same
        rw [getenv_cons_other _ same, getenv_cons_other _ same, ih]

end Lookup

end Xcalbuild.Library
