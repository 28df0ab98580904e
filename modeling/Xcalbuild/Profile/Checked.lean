/-
**Checks of a tool profile, one value at a time.**

`load` catches the exception of its own checks and returns the error code for it; an exception of the
JSON library or of the regular expression library escapes. Each check of one value is judged: what
the value must be for it to pass, and what makes an error escape from it.

* `judged_key`, `judged_optional`: a property that is validated and then used;
* `judged_named`: a property that names a value of a table;
* `judged_visit`, `judged_visitItems`: a loop over values that are checked in order.
-/
import Xcalbuild.Library.Checks
import Xcalbuild.Profile.Schema

namespace Xcalbuild.Profile

open Library Library.Shape

/-- The errors that `load` returns as `EC_INCORRECT_TOOLCHAIN_PROFILE`. -/
def Reported (e : LoadError) : Prop := e = .incorrectProfile

/-- When a part of `load` passes, and when an error escapes from it. -/
abbrev Checked {α : Type} (check : Except LoadError α) (passes escapes : Prop) : Prop :=
  Judged Reported check passes escapes

/-- An error that is returned as the error code. -/
theorem judged_incorrect {α : Type} :
    Checked (α := α) (.error .incorrectProfile) False False :=
  Judged.report (show Reported .incorrectProfile from rfl)

/-! ### One value -/

section Values

variable {α β : Type} {j : Json} {key : Str}

theorem validType_string {type : JsonType} (isString : type = .string ∨ type = .stringArray) :
    validType type false j = true ↔ name j := by
  have same : validType type false j = (j.isString && (false || isNonemptyString j)) := by
    rcases isString with rfl | rfl <;> rfl
  rw [same]
  constructor
  · intro valid
    cases j with
    | str value => exact ⟨value, by simpa [Json.isString, isNonemptyString] using valid, rfl⟩
    | _ => cases valid
  · rintro ⟨value, nonempty, rfl⟩
    simpa [Json.isString, isNonemptyString] using nonempty

theorem validType_anyString {type : JsonType} (isString : type = .string ∨ type = .stringArray) :
    validType type true j = true ↔ string j := by
  have same : validType type true j = (j.isString && (true || isNonemptyString j)) := by
    rcases isString with rfl | rfl <;> rfl
  rw [same]
  constructor
  · intro valid
    cases j with
    | str value => exact ⟨value, rfl⟩
    | _ => cases valid
  · rintro ⟨value, rfl⟩
    rfl

/-- A nonempty array of values of a shape, as it is checked. -/
theorem validType_array {t : Shape} :
    (validType .array false j = true ∧ ∀ elem ∈ j.range, t elem) ↔ filled (array t) j := by
  constructor
  · rintro ⟨valid, every⟩
    cases j with
    | arr elems =>
      exact ⟨⟨elems, rfl, every⟩, of_decide_eq_true (by simpa [validType, Json.isArray] using valid)⟩
    | _ => cases valid
  · rintro ⟨⟨elems, rfl, every⟩, nonempty⟩
    exact ⟨by simpa [validType, Json.isArray] using nonempty, every⟩

/-- An array of values of a shape that may be empty. -/
theorem validType_anyArray {t : Shape} :
    (validType .array true j = true ∧ ∀ elem ∈ j.range, t elem) ↔ array t j := by
  constructor
  · rintro ⟨valid, every⟩
    cases j with
    | arr elems => exact ⟨elems, rfl, every⟩
    | _ => cases valid
  · rintro ⟨elems, rfl, every⟩
    exact ⟨rfl, every⟩

/-- A nonempty object with members of a shape, as it is checked. -/
theorem validType_object {type : JsonType} (isObject : type = .object ∨ type = .objectArray)
    (named : Str → Prop) (t : Shape) :
    (validType type false j = true ∧ ∀ member ∈ j.items, named member.1 ∧ t member.2) ↔
      filled (map named t) j := by
  have same : validType type false j = (j.isObject && (false || decide (0 < j.size))) := by
    rcases isObject with rfl | rfl <;> rfl
  rw [same]
  constructor
  · rintro ⟨valid, every⟩
    cases j with
    | obj members =>
      exact ⟨⟨members, rfl, every⟩, of_decide_eq_true (by simpa [Json.isObject] using valid)⟩
    | _ => cases valid
  · rintro ⟨⟨members, rfl, every⟩, nonempty⟩
    exact ⟨by simpa [Json.isObject] using nonempty, every⟩

theorem judged_validateJson (type : JsonType) (allowEmpty : Bool) :
    Checked (validateJson j type allowEmpty) (validType type allowEmpty j = true) False := by
  unfold validateJson
  by_cases valid : validType type allowEmpty j = true
  · rw [if_pos valid]
    exact (Judged.ok ()).congr (iff_of_true trivial valid) Iff.rfl
  · rw [if_neg valid]
    exact judged_incorrect.congr (iff_of_false id valid) Iff.rfl

theorem atKey_of_find {value : Json} (found : j.find key = some value) :
    j.atKey key = .ok value := by
  cases j with
  | obj members =>
    have found : members.lookup key = some value := found
    simp only [Json.atKey, found]
  | _ => cases found

theorem atKey_missing (missing : j.count key = false) : ∃ fault, j.atKey key = .error fault := by
  cases j with
  | obj members =>
    have missing : (members.lookup key).isSome = false := missing
    have absent := Option.isSome_eq_false_iff.mp missing
    simp only [Json.atKey, Option.isNone_iff_eq_none.mp absent]
    exact ⟨_, rfl⟩
  | _ => exact ⟨_, rfl⟩

/-- The shape of a property that is there. -/
theorem required_iff {t : Shape} {value : Json} (found : j.find key = some value) :
    required key t j ↔ t value := by
  constructor
  · exact fun has => optional_of_required has value found
  · exact fun holds => ⟨value, found, holds⟩

/-- **A property is validated**: it is there and has the type, or the validation fails. -/
theorem validateKey_cases (j : Json) (key : Str) (type : JsonType) (allowEmpty : Bool) :
    (∃ value, j.find key = some value ∧ validType type allowEmpty value = true ∧
        validateKey j key type allowEmpty = .ok value) ∨
      ((∀ value, j.find key = some value → validType type allowEmpty value ≠ true) ∧
        validateKey j key type allowEmpty = .error .incorrectProfile) := by
  unfold validateKey
  cases found : j.find key with
  | none =>
    have absent : ¬ j.count key = true := by
      rw [Json.count, found]
      exact Bool.false_ne_true
    rw [if_neg absent]
    exact Or.inr ⟨fun value impossible => (nomatch impossible), rfl⟩
  | some value =>
    have present : j.count key = true := by
      rw [Json.count, found]
      rfl
    have lifted : liftJson (.ok value) = .ok value := rfl
    rw [if_pos present, atKey_of_find found, lifted, ok_bind, validateJson]
    by_cases valid : validType type allowEmpty value = true
    · rw [if_pos valid]
      exact Or.inl ⟨value, rfl, valid, rfl⟩
    · rw [if_neg valid]
      refine Or.inr ⟨fun value' same => ?_, rfl⟩
      cases same
      exact valid

/-- **A property that is validated and then used.** -/
theorem judged_key {type : JsonType} {allowEmpty : Bool} {next : Json → Except LoadError β}
    {passes escapes : Json → Prop}
    (following : ∀ value, j.find key = some value → validType type allowEmpty value = true →
      Checked (next value) (passes value) (escapes value)) :
    Checked (validateKey j key type allowEmpty >>= next)
      (required key (fun value => validType type allowEmpty value = true ∧ passes value) j)
      (required key (fun value => validType type allowEmpty value = true ∧ escapes value) j) := by
  rcases validateKey_cases j key type allowEmpty with
    ⟨value, found, valid, read⟩ | ⟨invalid, failed⟩
  · rw [read, ok_bind, required_iff found, required_iff found]
    exact (following value found valid).congr (iff_and_self.mpr fun _ => valid)
      (iff_and_self.mpr fun _ => valid)
  · have never : ∀ t : Shape,
        ¬ required key (fun value => validType type allowEmpty value = true ∧ t value) j := by
      rintro t ⟨value, found, valid, -⟩
      exact invalid value found valid
    rw [failed]
    exact judged_incorrect.congr (iff_of_false id (never _)) (iff_of_false id (never _))

/-- The value of a validated property. -/
theorem validateKey_eq_ok {type : JsonType} {allowEmpty : Bool} {value : Json} :
    validateKey j key type allowEmpty = .ok value ↔
      j.find key = some value ∧ validType type allowEmpty value = true := by
  rcases validateKey_cases j key type allowEmpty with
    ⟨value', found, valid, read⟩ | ⟨invalid, failed⟩
  · rw [read, found]
    constructor
    · intro same
      cases same
      exact ⟨rfl, valid⟩
    · rintro ⟨same, -⟩
      cases same
      rfl
  · rw [failed]
    exact iff_of_false (fun impossible => nomatch impossible) fun both => invalid value both.1 both.2

/-- A check of a property that may be missing. -/
theorem judged_optional {check : Except LoadError α} {a : α} {t : Shape} {escapes : Prop}
    (judged : Checked check (required key t j) escapes)
    (present : escapes → j.count key = true) :
    Checked (if j.count key then check else .ok a) (optional key t j) escapes := by
  by_cases counted : j.count key = true
  · rw [if_pos counted]
    exact judged.congr ⟨optional_of_required, required_of_count counted⟩ Iff.rfl
  · rw [if_neg counted]
    refine (Judged.ok a).congr (iff_of_true trivial ?_) (iff_of_false id (counted ∘ present))
    intro value found
    rw [Json.count, found] at counted
    exact absurd rfl counted

theorem judged_getString : Checked (liftJson j.getString) (string j) (¬ string j) := by
  cases j with
  | str value =>
    exact (Judged.ok value).congr (iff_of_true trivial ⟨value, rfl⟩)
      (iff_of_false id fun no => no ⟨value, rfl⟩)
  | _ =>
    refine (Judged.escape (e := LoadError.json .typeError) ?_).congr (iff_of_false id ?_)
      (iff_of_true trivial ?_)
    · intro reported
      cases reported
    · rintro ⟨value, impossible⟩
      cases impossible
    · rintro ⟨value, impossible⟩
      cases impossible

theorem judged_validateOptional {value : Option α} :
    Checked (validateOptional value) (value.isSome = true) False := by
  cases value with
  | none => exact judged_incorrect.congr (iff_of_false id Bool.false_ne_true) Iff.rfl
  | some a => exact (Judged.ok a).congr (iff_of_true trivial rfl) Iff.rfl

theorem string_of_validType {type : JsonType} {allowEmpty : Bool}
    (isString : type = .string ∨ type = .stringArray)
    (valid : validType type allowEmpty j = true) : string j := by
  cases allowEmpty with
  | true => exact (validType_anyString isString).mp valid
  | false => exact name_string ((validType_string isString).mp valid)

/-- A validated string is a string. -/
theorem judged_validString {type : JsonType} {allowEmpty : Bool}
    (isString : type = .string ∨ type = .stringArray) :
    Checked (validString j type allowEmpty) (validType type allowEmpty j = true) False := by
  refine ((judged_validateJson type allowEmpty).bind fun _ _ => judged_getString).congr ?_ ?_
  · rw [← (judged_validateJson type allowEmpty).passes_iff]
    constructor
    · rintro ⟨a, checked, -⟩
      exact ⟨a, checked⟩
    · rintro ⟨a, checked⟩
      have valid := (judged_validateJson type allowEmpty).passes_iff.mp ⟨a, checked⟩
      exact ⟨a, checked, string_of_validType isString valid⟩
  · rw [false_or]
    refine iff_of_false ?_ id
    rintro ⟨a, checked, notString⟩
    exact notString (string_of_validType isString
      ((judged_validateJson type allowEmpty).passes_iff.mp ⟨a, checked⟩))

theorem judged_nameIn {type : JsonType} (isString : type = .string ∨ type = .stringArray) :
    Checked (validString j type false) (name j) False :=
  (judged_validString isString).congr (validType_string isString) Iff.rfl

theorem required_congr {t t' : Shape} (same : ∀ value, t value ↔ t' value) :
    required key t j ↔ required key t' j :=
  exists_congr fun value => and_congr_right fun _ => same value

theorem required_false {t : Shape} (never : ∀ value, ¬ t value) : ¬ required key t j := by
  rintro ⟨value, -, holds⟩
  exact never value holds

theorem judged_stringProperty :
    Checked (stringProperty j key false) (required key name j) False := by
  refine (judged_key fun value _ _ => judged_getString).congr ?_ (iff_of_false ?_ id)
  · refine required_congr fun value => ?_
    rw [validType_string (Or.inl rfl)]
    exact and_iff_left_of_imp name_string
  · refine required_false fun value both => both.2 ?_
    exact name_string ((validType_string (Or.inl rfl)).mp both.1)

theorem judged_anyStringProperty :
    Checked (stringProperty j key true) (required key string j) False := by
  refine (judged_key fun value _ _ => judged_getString).congr ?_ (iff_of_false ?_ id)
  · refine required_congr fun value => ?_
    rw [validType_anyString (Or.inl rfl), and_self]
  · exact required_false fun value both => both.2 ((validType_anyString (Or.inl rfl)).mp both.1)

/-- The value of a string property. -/
theorem stringProperty_eq_ok {allowEmpty : Bool} {value : Str}
    (read : stringProperty j key allowEmpty = .ok value) : j.find key = some (.str value) := by
  obtain ⟨found, validated, read⟩ := bind_eq_ok read
  unfold validateKey at validated
  split_ifs at validated with present
  obtain ⟨there, isThere⟩ := Option.isSome_iff_exists.mp present
  rw [atKey_of_find isThere] at validated
  obtain ⟨-, -, validated⟩ := bind_eq_ok (x := validateJson there .string allowEmpty) validated
  cases validated
  cases found with
  | str text =>
    cases read
    exact isThere
  | _ => cases read

/-- **What is asked of the value of a string property.** -/
theorem exists_stringProperty {p : Str → Prop} :
    (∃ text, stringProperty j key false = .ok text ∧ p text) ↔
      required key (fun value => ∃ text, text ≠ [] ∧ value = .str text ∧ p text) j := by
  constructor
  · rintro ⟨text, passed, holds⟩
    obtain ⟨value, found, text', nonempty, rfl⟩ := judged_stringProperty.passes_iff.mp ⟨_, passed⟩
    have same := stringProperty_eq_ok passed
    rw [found] at same
    cases same
    exact ⟨_, found, _, nonempty, rfl, holds⟩
  · rintro ⟨value, found, text, nonempty, rfl, holds⟩
    obtain ⟨text', passed⟩ := judged_stringProperty.passes_iff.mpr
      (⟨_, found, text, nonempty, rfl⟩ : required key name j)
    have same := stringProperty_eq_ok passed
    rw [found] at same
    cases same
    exact ⟨_, passed, holds⟩

/-- A string property with a test of its own. -/
theorem judged_tested (test : Str → Prop) [DecidablePred test] {next : Except LoadError β}
    {passes : Prop} (judged : Checked next passes False) :
    Checked (stringProperty j key false >>= fun text =>
        if test text then .error .incorrectProfile else next)
      (required key (fun value => ∃ text, text ≠ [] ∧ value = .str text ∧ ¬ test text) j ∧ passes)
      False := by
  have each : ∀ text, Checked (if test text then .error .incorrectProfile else next)
      (¬ test text ∧ passes) False := by
    intro text
    by_cases holds : test text
    · rw [if_pos holds]
      exact judged_incorrect.congr (iff_of_false id fun both => both.1 holds) Iff.rfl
    · rw [if_neg holds]
      exact judged.congr (and_iff_right holds).symm Iff.rfl
  refine (judged_stringProperty.bind fun text _ => each text).congr ?_ ?_
  · rw [← exists_stringProperty]
    constructor
    · rintro ⟨text, read, tested, passed⟩
      exact ⟨⟨text, read, tested⟩, passed⟩
    · rintro ⟨⟨text, read, tested⟩, passed⟩
      exact ⟨text, read, tested, passed⟩
  · rw [false_or]
    exact iff_of_false (fun ⟨_, _, impossible⟩ => impossible) id

theorem judged_optionalString : Checked (optionalString j key) (optional key name j) False :=
  judged_optional judged_stringProperty.map False.elim

theorem mem_namesOf {table : List (Str × α)} {text : Str} {a : α}
    (looked : table.lookup text = some a) : text ∈ namesOf table := by
  obtain ⟨before, after, rfl, -⟩ := List.lookup_eq_some_iff.mp looked
  exact List.mem_map.mpr ⟨(text, a), List.mem_append_right _ List.mem_cons_self, rfl⟩

/-- **A property that names a value of a table.** -/
theorem judged_named {table : List (Str × α)} (noEmpty : [] ∉ namesOf table)
    {next : α → Except LoadError β} {passes escapes : α → Prop}
    (following : ∀ a, Named table j key a → Checked (next a) (passes a) (escapes a)) :
    Checked (stringProperty j key false >>= fun text =>
        validateOptional (table.lookup text) >>= next)
      (∃ a, Named table j key a ∧ passes a) (∃ a, Named table j key a ∧ escapes a) := by
  have each : ∀ text, stringProperty j key false = .ok text →
      Checked (validateOptional (table.lookup text) >>= next)
        (∃ a, table.lookup text = some a ∧ passes a)
        (∃ a, table.lookup text = some a ∧ escapes a) := by
    intro text passed
    cases looked : table.lookup text with
    | none =>
      have never : ∀ {p : α → Prop}, ¬ ∃ a, none = some a ∧ p a := by
        rintro p ⟨a, impossible, -⟩
        cases impossible
      exact judged_incorrect.congr (iff_of_false id never) (iff_of_false id never)
    | some a =>
      have only : ∀ {p : α → Prop}, p a ↔ ∃ a', some a = some a' ∧ p a' := by
        intro p
        constructor
        · exact fun holds => ⟨a, rfl, holds⟩
        · rintro ⟨a', same, holds⟩
          cases same
          exact holds
      exact (following a ⟨text, stringProperty_eq_ok passed, looked⟩).congr only only
  have unfolded : ∀ {p : α → Prop},
      (∃ text, stringProperty j key false = .ok text ∧ ∃ a, table.lookup text = some a ∧ p a) ↔
        ∃ a, Named table j key a ∧ p a := by
    intro p
    rw [exists_stringProperty]
    constructor
    · rintro ⟨_, found, text, -, rfl, a, looked, holds⟩
      exact ⟨a, ⟨text, found, looked⟩, holds⟩
    · rintro ⟨a, ⟨text, found, looked⟩, holds⟩
      have nonempty : text ≠ [] := by
        rintro rfl
        exact noEmpty (mem_namesOf looked)
      exact ⟨_, found, text, nonempty, rfl, a, looked, holds⟩
  refine (judged_stringProperty.bind each).congr unfolded ?_
  rw [false_or]
  exact unfolded

/-- The names that a table knows. -/
theorem oneOf_iff {table : List (Str × α)} {value : Json} :
    oneOf (namesOf table) value ↔ ∃ text a, value = .str text ∧ table.lookup text = some a := by
  constructor
  · rintro ⟨text, named, rfl⟩
    obtain ⟨⟨text, a⟩, member, rfl⟩ := List.mem_map.mp named
    have isSome := List.lookup_isSome_iff.mpr ⟨_, member, beq_self_eq_true text⟩
    obtain ⟨b, looked⟩ := Option.isSome_iff_exists.mp isSome
    exact ⟨text, b, rfl, looked⟩
  · rintro ⟨text, a, rfl, looked⟩
    exact ⟨text, mem_namesOf looked, rfl⟩

theorem required_oneOf_iff {table : List (Str × α)} :
    required key (oneOf (namesOf table)) j ↔ ∃ a, Named table j key a := by
  constructor
  · rintro ⟨value, found, named⟩
    obtain ⟨text, a, rfl, looked⟩ := oneOf_iff.mp named
    exact ⟨a, text, found, looked⟩
  · rintro ⟨a, text, found, looked⟩
    exact ⟨_, found, oneOf_iff.mpr ⟨text, a, rfl, looked⟩⟩

/-- A name that the rest of the checks does not depend on. -/
theorem judged_namedThen {table : List (Str × α)} (noEmpty : [] ∉ namesOf table)
    {next : α → Except LoadError β} {passes escapes : Prop}
    (following : ∀ a, Checked (next a) passes escapes) :
    Checked (stringProperty j key false >>= fun text =>
        validateOptional (table.lookup text) >>= next)
      (required key (oneOf (namesOf table)) j ∧ passes)
      (required key (oneOf (namesOf table)) j ∧ escapes) := by
  refine (judged_named noEmpty fun a _ => following a).congr ?_ ?_
  · rw [required_oneOf_iff, exists_and_right]
  · rw [required_oneOf_iff, exists_and_right]

/-- A name of which only a value is made. -/
theorem judged_onlyNamed {table : List (Str × α)} (noEmpty : [] ∉ namesOf table) {f : α → β} :
    Checked (stringProperty j key false >>= fun text =>
        validateOptional (table.lookup text) >>= fun a => .ok (f a))
      (required key (oneOf (namesOf table)) j) False := by
  refine (judged_namedThen noEmpty fun a => Judged.ok (f a)).congr (and_true _).to_iff ?_
  rw [and_false]

/-! ### Loops -/

theorem judged_visit {step : Json → Except LoadError α} {good bad : Json → Prop}
    (each : ∀ elem, Checked (step elem) (good elem) (bad elem)) (elems : List Json) :
    Checked (visit step elems) (∀ elem ∈ elems, good elem) (FirstAt good bad elems) := by
  induction elems with
  | nil => exact Judged.nil []
  | cons elem rest ih =>
    apply Judged.cons
    exact (each elem).andThen fun value _ => ih.map

theorem judged_visitItems {step : Str → Json → Except LoadError α} {good bad : Str × Json → Prop}
    (each : ∀ member, Checked (step member.1 member.2) (good member) (bad member))
    (members : List (Str × Json)) :
    Checked (visitItems step members) (∀ member ∈ members, good member)
      (FirstAt good bad members) := by
  induction members with
  | nil => exact Judged.nil []
  | cons member rest ih =>
    apply Judged.cons
    exact (each member).andThen fun value _ => ih.map

theorem judged_validateAll {check : Str → Except LoadError Unit} {good : Str → Prop}
    (each : ∀ key, Checked (check key) (good key) False) (keys : List Str) :
    Checked (validateAll check keys) (∀ key ∈ keys, good key) False := by
  induction keys with
  | nil =>
    exact (Judged.ok ()).congr
      (iff_of_true trivial fun _ member => absurd member List.not_mem_nil) Iff.rfl
  | cons key rest ih =>
    refine ((each key).andThen fun _ _ => ih).congr List.forall_mem_cons.symm ?_
    rw [false_or, and_false]

/-- A loop from which no error escapes. -/
theorem judged_visit_safe {step : Json → Except LoadError α} {good : Json → Prop}
    (each : ∀ elem, Checked (step elem) (good elem) False) (elems : List Json) :
    Checked (visit step elems) (∀ elem ∈ elems, good elem) False :=
  (judged_visit each elems).congr Iff.rfl (iff_of_false firstAt_false id)

theorem judged_visitItems_safe {step : Str → Json → Except LoadError α} (good : Str × Json → Prop)
    (each : ∀ member, Checked (step member.1 member.2) (good member) False)
    (members : List (Str × Json)) :
    Checked (visitItems step members) (∀ member ∈ members, good member) False :=
  (judged_visitItems each members).congr Iff.rfl (iff_of_false firstAt_false id)

/-- **A nonempty array that is checked element by element.** -/
theorem judged_array {step : Json → Except LoadError α} {t : Shape}
    (each : ∀ elem, Checked (step elem) (t elem) False) :
    Checked (validateKey j key .array false >>= fun value => visit step value.range)
      (required key (filled (array t)) j) False := by
  refine (judged_key fun value _ _ => judged_visit_safe each value.range).congr ?_ ?_
  · exact required_congr fun value => validType_array
  · exact iff_of_false (required_false fun value both => both.2) id

end Values

end Xcalbuild.Profile
