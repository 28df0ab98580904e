/-
**Errors of `ToolProfile::load`.**

`Accepted` says which documents `load` accepts, and `Escaping` of which documents it lets an error
escape: an option of type `language` with an argument value that is not a string, an option of type
`response` without `argFormat`, or a regular expression that does not compile, where everything that
is checked before is correct.

* `judged_load`: `load` accepts the one and lets an error escape for the other, and otherwise it
  returns the error code;
* `load_settled_iff`: when `load` does what is documented.
-/
import Xcalbuild.Profile.Checked

namespace Xcalbuild.Profile

open Library Library.Shape

/-! ### What is accepted -/

/-- A nonempty array of nonempty strings. -/
def NameArray : Shape := filled (array name)

/-- The first element of an array that is not good is bad. -/
def FirstElement (good bad : Shape) : Shape := fun j =>
  ∃ elems, j = .arr elems ∧ FirstAt good bad elems

structure AcceptedBase (j : Json) : Prop where
  type : required "type".toList (oneOf (namesOf optionTypeNames)) j
  aliases : required "aliases".toList NameArray j
  argFormat : optional "argFormat".toList (filled (array ArgFormatType)) j

def AcceptedArgValues : Shape := filled (map (fun key => key ≠ []) name)

structure AcceptedScan (j : Json) : Prop where
  cArgValues : optional "cArgValues".toList AcceptedArgValues j
  cxxArgValues : optional "cxxArgValues".toList AcceptedArgValues j
  cScanOption : optional "cScanOption".toList name j
  cxxScanOption : optional "cxxScanOption".toList name j
  scanArgFormat : optional "scanArgFormat".toList ArgFormatType j

/-- What an option of a type must have besides. -/
def AcceptedBehaviour : OptionType → Shape
  | .cmd => CmdOptionDef
  | .lang => required "argValues".toList (filled (map (fun _ => True) FileFormatTypeWithExt))
  | .respfile => fun j => j.count "argFormat".toList = true
  | .scan => AcceptedScan
  | _ => fun _ => True

/-- The first argument value that is not the name of a file format is not a string. -/
def NotAString : Shape :=
  required "argValues".toList fun values => ∃ members, values = .obj members ∧
    FirstAt (fun member => FileFormatTypeWithExt member.2) (fun member => ¬ string member.2) members

/-- What lets an error escape from an option of a type. -/
def EscapingBehaviour : OptionType → Shape
  | .lang => NotAString
  | .respfile => fun j => j.count "argFormat".toList = false
  | _ => fun _ => False

def AcceptedOption (j : Json) : Prop :=
  AcceptedBase j ∧ ∃ type, HasType j type ∧ AcceptedBehaviour type j

def EscapingOption (j : Json) : Prop :=
  AcceptedBase j ∧ ∃ type, HasType j type ∧ EscapingBehaviour type j

def AcceptedExt : Shape :=
  filled (map (fun format => format ∈ namesOf fileFormatNames) (filled (array string)))

/-- An object that is not empty. -/
def FilledObject : Shape := filled (map (fun _ => True) fun _ => True)

/-- A nonempty string of which the regular expression library says whether it compiles it. -/
def Pattern (validRegex : Str → Bool) (compiles : Bool) : Shape :=
  fun j => ∃ text, text ≠ [] ∧ j = .str text ∧ validRegex text = compiles

structure AcceptedSub (validRegex : Str → Bool) (j : Json) : Prop where
  object : FilledObject j
  replacement : required "replacement".toList string j
  regex : j.count "regex".toList = true → required "regex".toList (Pattern validRegex true) j
  string : j.count "regex".toList = false → required "string".toList name j

/-- The regular expression of the substitution does not compile. -/
structure BadPattern (validRegex : Str → Bool) (j : Json) : Prop where
  object : FilledObject j
  replacement : required "replacement".toList string j
  regex : required "regex".toList (Pattern validRegex false) j

structure AcceptedAction (profileJson j : Json) : Prop where
  object : FilledObject j
  config : required "config".toList (fun value => ∃ config ∈ actionableConfigs,
    value = .str config ∧ profileJson.count config = true) j
  action : required "action".toList (oneOf ["prepend".toList]) j
  value : required "value".toList NameArray j

def AcceptedProbe (profileJson : Json) : Shape :=
  filled (map (fun _ => True)
    (filled (map (fun _ => True) (filled (array (AcceptedAction profileJson))))))

/-- The properties that are read before the options. -/
structure AcceptedHead (j : Json) : Prop where
  aliases : optional "aliases".toList NameArray j
  cAliases : optional "cAliases".toList NameArray j
  cxxAliases : optional "cxxAliases".toList NameArray j
  defaultCommandKind : required "defaultCommandKind".toList CommandKindDef j
  optionPrefix : optional "optionPrefix".toList name j

/-- The properties that are read before the substitutions. -/
structure AcceptedFront (j : Json) : Prop where
  head : AcceptedHead j
  options : required "options".toList (filled (array AcceptedOption)) j
  sourceExtensions : optional "sourceExtensions".toList AcceptedExt j
  targetExtensions : optional "targetExtensions".toList AcceptedExt j

/-- **The documents that `load` accepts.** -/
structure Accepted (validRegex : Str → Bool) (j : Json) : Prop where
  front : AcceptedFront j
  textSubstitutions : optional "textSubstitutions".toList (filled (array (AcceptedSub validRegex))) j
  actionable : ∀ key ∈ actionableConfigs, optional key (array name) j
  probes : ∀ key ∈ ["probeCMacros".toList, "probeCxxMacros".toList],
    optional key (AcceptedProbe j) j

/-- **The documents for which an error escapes from `load`.** -/
inductive Escaping (validRegex : Str → Bool) (j : Json) : Prop
  | option : AcceptedHead j →
      required "options".toList (FirstElement AcceptedOption EscapingOption) j →
      Escaping validRegex j
  | pattern : AcceptedFront j →
      required "textSubstitutions".toList
        (FirstElement (AcceptedSub validRegex) (BadPattern validRegex)) j →
      Escaping validRegex j

/-! ### Options -/

section Options

variable {j : Json}

/-- The first bad element of an array, as it is checked. -/
theorem validType_first {good bad : Shape} :
    (validType .array false j = true ∧ FirstAt good bad j.range) ↔ FirstElement good bad j := by
  constructor
  · rintro ⟨valid, first⟩
    cases j with
    | arr elems => exact ⟨elems, rfl, first⟩
    | _ => cases valid
  · rintro ⟨elems, rfl, first⟩
    refine ⟨?_, first⟩
    have nonempty := List.length_pos_iff.mpr (nonempty_of_firstAt first)
    exact decide_eq_true nonempty

theorem judged_parseAliases :
    Checked (parseAliases j) (required "aliases".toList NameArray j) False :=
  judged_array fun _ => judged_nameIn (Or.inr rfl)

/-- A name of a table in an array. -/
theorem judged_elemNamed {α : Type} {table : List (Str × α)} (noEmpty : [] ∉ namesOf table)
    (elem : Json) :
    Checked (validString elem .stringArray false >>= fun text =>
      validateOptional (table.lookup text)) (oneOf (namesOf table) elem) False := by
  refine ((judged_nameIn (Or.inr rfl)).bind fun _ _ => judged_validateOptional).congr ?_ ?_
  · rw [oneOf_iff]
    constructor
    · rintro ⟨text, read, known⟩
      obtain ⟨a, looked⟩ := Option.isSome_iff_exists.mp known
      obtain ⟨-, -, read⟩ := bind_eq_ok read
      cases elem with
      | str value =>
        cases read
        exact ⟨_, a, rfl, looked⟩
      | _ => cases read
    · rintro ⟨text, a, rfl, looked⟩
      have nonempty : text ≠ [] := by
        rintro rfl
        exact noEmpty (mem_namesOf looked)
      have judged : Checked (validString (.str text) .stringArray false) (name (.str text)) False :=
        judged_nameIn (Or.inr rfl)
      obtain ⟨text', read⟩ := judged.passes_iff.mpr ⟨text, nonempty, rfl⟩
      obtain ⟨-, -, same⟩ := bind_eq_ok read
      cases same
      exact ⟨text, read, by rw [looked]; rfl⟩
  · rw [false_or]
    refine iff_of_false ?_ id
    rintro ⟨_, -, impossible⟩
    exact impossible

theorem judged_parseArgFormat :
    Checked (parseArgFormat j) (optional "argFormat".toList (filled (array ArgFormatType)) j)
      False :=
  judged_optional (judged_array fun elem => judged_elemNamed (by decide) elem) False.elim

theorem judged_parseArgValues (key : Str) :
    Checked (parseArgValues j key) (optional key AcceptedArgValues j) False := by
  refine judged_optional ((judged_key fun value _ _ => judged_visitItems_safe
    (fun member => member.1 ≠ [] ∧ name member.2) ?_ value.items).congr ?_ ?_) False.elim
  · rintro ⟨key, value⟩
    dsimp only
    by_cases empty : key = []
    · rw [if_pos empty]
      exact judged_incorrect.congr (iff_of_false id fun both => both.1 empty) Iff.rfl
    · rw [if_neg empty]
      exact ((judged_nameIn (Or.inl rfl)).map).congr (and_iff_right empty).symm Iff.rfl
  · refine required_congr fun value => ?_
    exact validType_object (Or.inl rfl) (fun key => key ≠ []) name
  · exact iff_of_false (required_false fun value both => both.2) id

theorem judged_parseScanArgFormat :
    Checked (parseScanArgFormat j) (optional "scanArgFormat".toList ArgFormatType j) False :=
  judged_optional (judged_onlyNamed (by decide)) False.elim

theorem judged_parseScan : Checked (parseScan j) (AcceptedScan j) False := by
  refine ((judged_parseArgValues _).andThen fun _ _ => (judged_parseArgValues _).andThen fun _ _ =>
    judged_optionalString.andThen fun _ _ => judged_optionalString.andThen fun _ _ =>
      judged_parseScanArgFormat.map).congr ?_ ?_
  · constructor
    · rintro ⟨first, second, third, fourth, fifth⟩
      exact ⟨first, second, third, fourth, fifth⟩
    · exact fun scan => ⟨scan.1, scan.2, scan.3, scan.4, scan.5⟩
  · simp only [and_false, or_false]

/-- The argument values of a language option. -/
theorem judged_language :
    Checked (parseBehaviour .lang j) (AcceptedBehaviour .lang j) (NotAString j) := by
  have each : ∀ member : Str × Json,
      Checked (liftJson member.2.getString >>= fun text =>
          validateOptional (fileFormatFromString text) >>= fun format => .ok (member.1, format))
        (FileFormatTypeWithExt member.2) (¬ string member.2) := by
    rintro ⟨key, value⟩
    refine (judged_getString.bind fun text _ => judged_validateOptional.map).congr ?_ ?_
    · show _ ↔ oneOf (namesOf fileFormatNames) value
      rw [oneOf_iff]
      constructor
      · rintro ⟨text, read, known⟩
        obtain ⟨format, looked⟩ := Option.isSome_iff_exists.mp known
        cases value with
        | str value =>
          cases read
          exact ⟨text, format, rfl, looked⟩
        | _ => cases read
      · rintro ⟨text, format, rfl, looked⟩
        exact ⟨text, rfl, Option.isSome_iff_exists.mpr ⟨format, looked⟩⟩
    · exact or_iff_left fun ⟨_, _, impossible⟩ => impossible
  refine (judged_key fun value _ _ => (judged_visitItems each value.items).map).congr ?_ ?_
  · refine required_congr fun value => ?_
    rw [← validType_object (Or.inl rfl)]
    refine and_congr_right fun _ => forall₂_congr fun member _ => ?_
    exact (true_and _).to_iff.symm
  · refine required_congr fun value => ?_
    constructor
    · rintro ⟨valid, first⟩
      cases value with
      | obj members => exact ⟨members, rfl, first⟩
      | _ => cases valid
    · rintro ⟨members, rfl, first⟩
      refine ⟨?_, first⟩
      have nonempty := List.length_pos_iff.mpr (nonempty_of_firstAt first)
      exact decide_eq_true nonempty

/-- What the subclass of a type reads. -/
def ReadBehaviour : OptionType → Shape
  | .respfile => fun _ => True
  | type => AcceptedBehaviour type

theorem judged_parseBehaviour (type : OptionType) :
    Checked (parseBehaviour type j) (ReadBehaviour type j) (type = .lang ∧ NotAString j) := by
  have plain : ∀ {behaviour : OptionBehaviour}, type ≠ .lang → ReadBehaviour type j →
      parseBehaviour type j = .ok behaviour →
      Checked (parseBehaviour type j) (ReadBehaviour type j) (type = .lang ∧ NotAString j) := by
    intro behaviour other reads parsed
    rw [parsed]
    exact (Judged.ok behaviour).congr (iff_of_true trivial reads)
      (iff_of_false id fun both => other both.1)
  cases type with
  | cmd =>
    exact (judged_onlyNamed (by decide)).congr Iff.rfl
      (iff_of_false id fun ⟨impossible, _⟩ => by cases impossible)
  | lang => exact judged_language.congr Iff.rfl (and_iff_right rfl).symm
  | scan =>
    exact judged_parseScan.map.congr Iff.rfl
      (iff_of_false id fun ⟨impossible, _⟩ => by cases impossible)
  | _ => exact plain (by decide) trivial rfl

theorem behaviour_response {type : OptionType} {behaviour : OptionBehaviour}
    (parsed : parseBehaviour type j = .ok behaviour) :
    behaviour = .response ↔ type = .respfile := by
  cases type with
  | cmd =>
    obtain ⟨_, -, parsed⟩ := bind_eq_ok parsed
    obtain ⟨_, -, parsed⟩ := bind_eq_ok parsed
    cases parsed
    exact iff_of_false (by rintro ⟨⟩) (by rintro ⟨⟩)
  | lang =>
    obtain ⟨_, -, parsed⟩ := bind_eq_ok parsed
    obtain ⟨_, -, parsed⟩ := bind_eq_ok parsed
    cases parsed
    exact iff_of_false (by rintro ⟨⟩) (by rintro ⟨⟩)
  | scan =>
    obtain ⟨_, -, parsed⟩ := bind_eq_ok parsed
    cases parsed
    exact iff_of_false (by rintro ⟨⟩) (by rintro ⟨⟩)
  | respfile =>
    cases parsed
    exact iff_of_true rfl rfl
  | _ =>
    cases parsed
    exact iff_of_false (by rintro ⟨⟩) (by rintro ⟨⟩)

/-- An option definition has one type. -/
theorem HasType.unique {type type' : OptionType} (first : HasType j type)
    (second : HasType j type') : type = type' := by
  obtain ⟨text, found, looked⟩ := first
  obtain ⟨text', found', looked'⟩ := second
  rw [found] at found'
  cases found'
  rw [looked] at looked'
  cases looked'
  rfl

theorem length_visit {α : Type} {step : Json → Except LoadError α} {elems : List Json}
    {values : List α} (visited : visit step elems = .ok values) :
    values.length = elems.length := by
  induction elems generalizing values with
  | nil =>
    cases visited
    rfl
  | cons elem rest ih =>
    obtain ⟨value, -, visited⟩ := bind_eq_ok visited
    obtain ⟨others, before, visited⟩ := bind_eq_ok visited
    cases visited
    rw [List.length_cons, List.length_cons, ih before]

/-- An option that is read has an alias. -/
theorem parseAliases_nonempty {aliases : List Str} (parsed : parseAliases j = .ok aliases) :
    aliases ≠ [] := by
  obtain ⟨value, found, ⟨elems, rfl, -⟩, nonempty⟩ := judged_parseAliases.passes_iff.mp ⟨_, parsed⟩
  unfold parseAliases validateKey at parsed
  rw [if_pos (by rw [Json.count, found]; rfl), atKey_of_find found] at parsed
  obtain ⟨there, validated, visited⟩ := bind_eq_ok parsed
  obtain ⟨-, -, validated⟩ := bind_eq_ok (x := validateJson (.arr elems) .array false) validated
  cases validated
  rintro rfl
  have absent := length_visit visited
  exact absurd absent.symm (Nat.pos_iff_ne_zero.mp nonempty)

theorem judged_parseOption (defaultPrefix : Option Str) :
    Checked (parseOption j defaultPrefix)
      (AcceptedBase j ∧ ∃ type, HasType j type ∧ ReadBehaviour type j)
      (AcceptedBase j ∧ HasType j .lang ∧ NotAString j) := by
  have each : ∀ type, HasType j type → Checked
      (parseAliases j >>= fun orderedAliases => parseArgFormat j >>= fun argFormat =>
        parseBehaviour type j >>= fun behaviour =>
          if hasAlias : orderedAliases ≠ [] then
            .ok ({ behaviour, defaultPrefix, orderedAliases, hasAlias, argFormat } : ToolOption)
          else .error .incorrectProfile)
      (AcceptedBase j ∧ ReadBehaviour type j) (AcceptedBase j ∧ type = .lang ∧ NotAString j) := by
    intro type typed
    have named := required_oneOf_iff.mpr ⟨type, typed⟩
    refine (judged_parseAliases.andThen fun aliases parsed => judged_parseArgFormat.andThen
      fun argFormat _ => (judged_parseBehaviour type).andThen
        fun behaviour _ => (?_ : Checked _ True False)).congr ?_ ?_
    · rw [dif_pos (parseAliases_nonempty parsed)]
      exact Judged.ok _
    · constructor
      · rintro ⟨aliases, argFormat, reads, -⟩
        exact ⟨⟨named, aliases, argFormat⟩, reads⟩
      · rintro ⟨base, reads⟩
        exact ⟨base.aliases, base.argFormat, reads, trivial⟩
    · simp only [false_or, and_false, or_false]
      constructor
      · rintro ⟨aliases, argFormat, bad⟩
        exact ⟨⟨named, aliases, argFormat⟩, bad⟩
      · rintro ⟨base, bad⟩
        exact ⟨base.aliases, base.argFormat, bad⟩
  refine (judged_named (by decide) each).congr ?_ ?_
  · constructor
    · rintro ⟨type, typed, base, reads⟩
      exact ⟨base, type, typed, reads⟩
    · rintro ⟨base, type, typed, reads⟩
      exact ⟨type, typed, base, reads⟩
  · constructor
    · rintro ⟨type, typed, base, rfl, bad⟩
      exact ⟨base, typed, bad⟩
    · rintro ⟨base, typed, bad⟩
      exact ⟨.lang, typed, base, rfl, bad⟩

theorem parseOption_response {defaultPrefix : Option Str} {option : ToolOption}
    (parsed : parseOption j defaultPrefix = .ok option) :
    option.behaviour = .response ↔ HasType j .respfile := by
  obtain ⟨text, named, parsed⟩ := bind_eq_ok parsed
  obtain ⟨type, known, parsed⟩ := bind_eq_ok parsed
  obtain ⟨aliases, -, parsed⟩ := bind_eq_ok parsed
  obtain ⟨argFormat, -, parsed⟩ := bind_eq_ok parsed
  obtain ⟨behaviour, read, parsed⟩ := bind_eq_ok parsed
  have typed : HasType j type := by
    refine ⟨text, stringProperty_eq_ok named, ?_⟩
    cases looked : optionTypeNames.lookup text with
    | none =>
      rw [looked] at known
      cases known
    | some type' =>
      rw [looked] at known
      cases known
      rfl
  split_ifs at parsed
  cases parsed
  rw [behaviour_response read]
  constructor
  · rintro rfl
    exact typed
  · exact fun response => typed.unique response

/-- **A response option is entered for the tracer with its argument formats**, which are accessed
without a check. -/
theorem judged_responseConfig (base : AcceptedBase j) :
    Checked (responseConfig j) (j.count "argFormat".toList = true)
      (j.count "argFormat".toList = false) := by
  obtain ⟨value, found, ⟨elems, rfl, -⟩, nonempty⟩ := base.aliases
  unfold responseConfig
  rw [atKey_of_find found]
  show Checked (visit _ elems) _ _
  by_cases present : j.count "argFormat".toList = true
  · obtain ⟨formats, there⟩ := Option.isSome_iff_exists.mp present
    rw [atKey_of_find there]
    refine (judged_visit_safe (fun _ => (Judged.ok _ : Checked _ True False)) elems).congr ?_ ?_
    · exact iff_of_true (fun _ _ => trivial) present
    · exact iff_of_false id fun missing => by rw [present] at missing; cases missing
  · have missing := Bool.eq_false_iff.mpr present
    obtain ⟨fault, failed⟩ := atKey_missing missing
    cases elems with
    | nil => exact absurd nonempty (Nat.lt_irrefl 0)
    | cons first rest =>
      have escapes : ¬ Reported (.json fault) := by
        intro reported
        cases reported
      rw [failed]
      exact (Judged.escape escapes).congr (iff_of_false id present) (iff_of_true trivial missing)

theorem judged_addOption (base : AcceptedBase j) {profile : ToolProfile} {option : ToolOption}
    (response : option.behaviour = .response ↔ HasType j .respfile) :
    Checked (addOption profile j option)
      (HasType j .respfile → j.count "argFormat".toList = true)
      (HasType j .respfile ∧ j.count "argFormat".toList = false) := by
  unfold addOption
  by_cases isResponse : option.behaviour = .response
  · have typed := response.mp isResponse
    simp only [isResponse]
    exact (judged_responseConfig base).map.congr (imp_iff_right typed).symm
      (and_iff_right typed).symm
  · have untyped := mt response.mpr isResponse
    cases behaviour : option.behaviour with
    | response => exact absurd behaviour isResponse
    | _ =>
      exact (Judged.ok _).congr (iff_of_true trivial fun typed => absurd typed untyped)
        (iff_of_false id fun both => untyped both.1)

/-- Reading an option and entering it. -/
theorem judged_option (defaultPrefix : Option Str) (profile : ToolProfile) :
    Checked (parseOption j defaultPrefix >>= fun option => addOption profile j option)
      (AcceptedOption j) (EscapingOption j) := by
  have added : ∀ option, parseOption j defaultPrefix = .ok option →
      Checked (addOption profile j option)
        (HasType j .respfile → j.count "argFormat".toList = true)
        (HasType j .respfile ∧ j.count "argFormat".toList = false) := by
    intro option parsed
    have base := ((judged_parseOption defaultPrefix).passes_iff.mp ⟨option, parsed⟩).1
    exact judged_addOption base (parseOption_response parsed)
  refine ((judged_parseOption defaultPrefix).andThen added).congr ?_ ?_
  · constructor
    · rintro ⟨⟨base, type, typed, reads⟩, formats⟩
      refine ⟨base, type, typed, ?_⟩
      by_cases response : type = .respfile
      · subst response
        exact formats typed
      · cases type with
        | respfile => exact absurd rfl response
        | _ => exact reads
    · rintro ⟨base, type, typed, accepted⟩
      refine ⟨⟨base, type, typed, ?_⟩, ?_⟩
      · cases type with
        | respfile => trivial
        | _ => exact accepted
      · intro response
        cases typed.unique response
        exact accepted
  · constructor
    · rintro (⟨base, typed, bad⟩ | ⟨⟨base, -⟩, typed, missing⟩)
      · exact ⟨base, .lang, typed, bad⟩
      · exact ⟨base, .respfile, typed, missing⟩
    · rintro ⟨base, type, typed, escaping⟩
      cases type with
      | lang => exact Or.inl ⟨base, typed, escaping⟩
      | respfile => exact Or.inr ⟨⟨base, .respfile, typed, trivial⟩, typed, escaping⟩
      | _ => exact absurd escaping id

theorem judged_loadOptions (defaultPrefix : Option Str) (options : List Json)
    (profile : ToolProfile) :
    Checked (loadOptions defaultPrefix options profile) (∀ option ∈ options, AcceptedOption option)
      (FirstAt AcceptedOption EscapingOption options) := by
  induction options generalizing profile with
  | nil => exact Judged.nil profile
  | cons j rest ih =>
    apply Judged.cons
    have steps : loadOptions defaultPrefix (j :: rest) profile =
        (parseOption j defaultPrefix >>= fun option => addOption profile j option) >>=
          loadOptions defaultPrefix rest := by
      rw [loadOptions, bind_assoc]
    rw [steps]
    exact (judged_option defaultPrefix profile).andThen fun profile' _ => ih profile'

end Options

/-! ### The other properties -/

section Properties

variable {j : Json}

theorem judged_fillStringSet (key : Str) :
    Checked (fillStringSet j key) (optional key NameArray j) False :=
  judged_optional (judged_array fun _ => judged_nameIn (Or.inr rfl)) False.elim

/-- A nonempty array that is the value itself. -/
theorem judged_elements {α : Type} {step : Json → Except LoadError α} {t : Shape} (j : Json)
    (each : ∀ elem, Checked (step elem) (t elem) False) :
    Checked (validateJson j .array false >>= fun _ => visit step j.range) (filled (array t) j)
      False := by
  refine ((judged_validateJson _ _).andThen fun _ _ => judged_visit_safe each j.range).congr
    validType_array ?_
  rw [false_or, and_false]

/-- A nonempty object that is the value itself. -/
theorem judged_members {α : Type} {step : Str → Json → Except LoadError α} (named : Str → Prop)
    {t : Shape} (j : Json) (each : ∀ key value, Checked (step key value) (named key ∧ t value) False) :
    Checked (validateJson j .object false >>= fun _ => visitItems step j.items)
      (filled (map named t) j) False := by
  refine ((judged_validateJson _ _).andThen fun _ _ => judged_visitItems_safe
    (fun member => named member.1 ∧ t member.2) (fun member => each _ _) j.items).congr
    (validType_object (Or.inl rfl) named t) ?_
  rw [false_or, and_false]

/-- A nonempty object under a key. -/
theorem judged_object {α : Type} (key : Str) {step : Str → Json → Except LoadError α}
    (named : Str → Prop) {t : Shape}
    (each : ∀ key value, Checked (step key value) (named key ∧ t value) False) :
    Checked (validateKey j key .object false >>= fun value => visitItems step value.items)
      (required key (filled (map named t)) j) False := by
  refine (judged_key fun value _ _ => judged_visitItems_safe
    (fun member => named member.1 ∧ t member.2) (fun member => each _ _)
      value.items).congr ?_ ?_
  · exact required_congr fun value => validType_object (Or.inl rfl) named t
  · exact iff_of_false (required_false fun value both => both.2) id

theorem judged_loadExt (key : Str) : Checked (loadExt j key) (optional key AcceptedExt j) False := by
  have each : ∀ (format : Str) (extensions : Json),
      Checked (validateOptional (fileFormatFromString format) >>= fun found =>
          validateJson extensions .array false >>= fun _ =>
            visit (fun ext => validString ext .stringArray true >>= fun text => .ok (text, found))
              extensions.range)
        (format ∈ namesOf fileFormatNames ∧ filled (array string) extensions) False := by
    intro format extensions
    have known : (fileFormatFromString format).isSome = true ↔
        format ∈ namesOf fileFormatNames := by
      constructor
      · intro isSome
        obtain ⟨found, looked⟩ := Option.isSome_iff_exists.mp isSome
        exact mem_namesOf looked
      · intro named
        obtain ⟨⟨text, a⟩, member, rfl⟩ := List.mem_map.mp named
        exact List.lookup_isSome_iff.mpr ⟨_, member, beq_self_eq_true text⟩
    have elements : ∀ found : FileFormat, Checked
        (validateJson extensions .array false >>= fun _ =>
          visit (fun ext => validString ext .stringArray true >>= fun text => .ok (text, found))
            extensions.range) (filled (array string) extensions) False := fun found =>
      judged_elements extensions fun ext =>
        (judged_validString (Or.inr rfl)).map.congr (validType_anyString (Or.inr rfl)) Iff.rfl
    refine (judged_validateOptional.andThen fun found _ => elements found).congr
      (and_congr_left fun _ => known) ?_
    rw [false_or, and_false]
  refine judged_optional ?_ False.elim
  have flattened := (judged_object (j := j) key _ each).map
    (f := fun entries : List (List (Str × FileFormat)) => entries.flatten)
  rw [bind_assoc] at flattened
  exact flattened

theorem judged_object_self {type : JsonType} (isObject : type = .object ∨ type = .objectArray) :
    Checked (validateJson j type false) (FilledObject j) False := by
  refine (judged_validateJson type false).congr ?_ Iff.rfl
  rw [FilledObject, ← validType_object isObject]
  exact (and_iff_left fun _ _ => ⟨trivial, trivial⟩).symm

/-- **A pattern is compiled after it was validated.** -/
theorem judged_pattern (validRegex : Str → Bool) (key replacement : Str) :
    Checked (stringProperty j key false >>= fun pattern =>
        if validRegex pattern then .ok (TextSubstitution.regex pattern replacement)
        else .error .badRegex)
      (required key (Pattern validRegex true) j) (required key (Pattern validRegex false) j) := by
  have compiled : ∀ pattern, Checked
      (if validRegex pattern then .ok (TextSubstitution.regex pattern replacement)
        else .error LoadError.badRegex)
      (validRegex pattern = true) (validRegex pattern = false) := by
    intro pattern
    by_cases valid : validRegex pattern = true
    · rw [if_pos valid]
      exact (Judged.ok _).congr (iff_of_true trivial valid)
        (iff_of_false id fun bad => by rw [valid] at bad; cases bad)
    · rw [if_neg valid]
      refine (Judged.escape ?_).congr (iff_of_false id valid)
        (iff_of_true trivial (Bool.eq_false_iff.mpr valid))
      intro reported
      cases reported
  refine (judged_stringProperty.bind fun pattern _ => compiled pattern).congr
    exists_stringProperty ?_
  rw [false_or]
  exact exists_stringProperty

/-- **What is replaced**: a pattern, or else a string. -/
theorem judged_replaced (validRegex : Str → Bool) (replacement : Str) :
    Checked
      (if j.count "regex".toList then
        stringProperty j "regex".toList false >>= fun pattern =>
          if validRegex pattern then .ok (TextSubstitution.regex pattern replacement)
          else .error .badRegex
      else if j.count "string".toList then
        stringProperty j "string".toList false >>= fun text => .ok (.string text replacement)
      else .error .incorrectProfile)
      ((j.count "regex".toList = true → required "regex".toList (Pattern validRegex true) j) ∧
        (j.count "regex".toList = false → required "string".toList name j))
      (required "regex".toList (Pattern validRegex false) j) := by
  by_cases isRegex : j.count "regex".toList = true
  · rw [if_pos isRegex]
    refine (judged_pattern validRegex _ replacement).congr ?_ Iff.rfl
    constructor
    · exact fun pattern => ⟨fun _ => pattern, fun no => by rw [isRegex] at no; cases no⟩
    · exact fun both => both.1 isRegex
  · have noRegex := Bool.eq_false_iff.mpr isRegex
    have bad : ¬ required "regex".toList (Pattern validRegex false) j := by
      rintro ⟨value, found, -⟩
      rw [Json.count, found] at noRegex
      cases noRegex
    have only : ∀ {p : Prop}, p ↔
        (j.count "regex".toList = true → required "regex".toList (Pattern validRegex true) j) ∧
          (j.count "regex".toList = false → p) :=
      ⟨fun holds => ⟨fun yes => absurd yes isRegex, fun _ => holds⟩,
        fun both => both.2 noRegex⟩
    rw [if_neg isRegex]
    by_cases isString : j.count "string".toList = true
    · rw [if_pos isString]
      exact judged_stringProperty.map.congr only (iff_of_false id bad)
    · rw [if_neg isString]
      refine judged_incorrect.congr (iff_of_false id fun both => ?_) (iff_of_false id bad)
      obtain ⟨value, found, -⟩ := both.2 noRegex
      rw [Json.count, found] at isString
      exact isString rfl

theorem judged_loadSubstitution (validRegex : Str → Bool) (j : Json) :
    Checked (loadSubstitution validRegex j) (AcceptedSub validRegex j)
      (BadPattern validRegex j) := by
  refine ((judged_object_self (Or.inr rfl)).andThen fun _ _ => judged_anyStringProperty.andThen
    fun replacement _ => judged_replaced validRegex replacement).congr ?_ ?_
  · constructor
    · rintro ⟨object, replacement, regex, string⟩
      exact ⟨object, replacement, regex, string⟩
    · exact fun sub => ⟨sub.object, sub.replacement, sub.regex, sub.string⟩
  · simp only [false_or]
    constructor
    · rintro ⟨object, replacement, regex⟩
      exact ⟨object, replacement, regex⟩
    · exact fun bad => ⟨bad.object, bad.replacement, bad.regex⟩

/-- The substitutions are a nonempty array. -/
theorem judged_loadSubstitutions (validRegex : Str → Bool) :
    Checked (loadSubstitutions validRegex j)
      (optional "textSubstitutions".toList (filled (array (AcceptedSub validRegex))) j)
      (required "textSubstitutions".toList
        (FirstElement (AcceptedSub validRegex) (BadPattern validRegex)) j) := by
  refine judged_optional ((judged_key fun value _ _ =>
    judged_visit (judged_loadSubstitution validRegex) value.range).congr ?_ ?_) ?_
  · exact required_congr fun value => validType_array
  · exact required_congr fun value => validType_first
  · rintro ⟨value, found, -⟩
    rw [Json.count, found]
    rfl

theorem judged_validateActionable (key : Str) :
    Checked (validateActionable j key) (optional key (array name) j) False := by
  refine judged_optional ((judged_key fun value _ _ => (judged_visit_safe (fun elem =>
    (judged_validateJson (j := elem) .stringArray false).congr (validType_string (Or.inr rfl))
      Iff.rfl) value.range).map).congr ?_ ?_) False.elim
  · exact required_congr fun value => validType_anyArray
  · exact iff_of_false (required_false fun value both => both.2) id

theorem judged_validateAction (profileJson action : Json) :
    Checked (validateAction profileJson action) (AcceptedAction profileJson action) False := by
  have values : Checked (validateKey action "value".toList .array false >>= fun values =>
      visit (fun value => validateJson value .stringArray false) values.range >>= fun _ =>
        .ok ()) (required "value".toList NameArray action) False := by
    have read := (@judged_array _ action "value".toList _ _ fun elem =>
      (judged_validateJson (j := elem) .stringArray false).congr (validType_string (Or.inr rfl))
        Iff.rfl).map (f := fun _ => ())
    rw [bind_assoc] at read
    exact read
  refine ((judged_object_self (Or.inr rfl)).andThen fun _ _ => judged_tested
    (fun config => config ∉ actionableConfigs ∨ profileJson.count config = false)
    (judged_tested (fun act => act ≠ "prepend".toList) values)).congr ?_ ?_
  · constructor
    · rintro ⟨object, config, act, values⟩
      refine ⟨object, required_mono ?_ config, required_mono ?_ act, values⟩
      · rintro value ⟨text, -, rfl, known⟩
        obtain ⟨named, present⟩ := not_or.mp known
        exact ⟨text, Decidable.of_not_not named, rfl, by simpa using present⟩
      · rintro value ⟨text, -, rfl, known⟩
        exact ⟨text, List.mem_singleton.mpr (Decidable.of_not_not known), rfl⟩
    · rintro ⟨object, config, act, values⟩
      refine ⟨object, required_mono ?_ config, required_mono ?_ act, values⟩
      · rintro value ⟨text, named, rfl, present⟩
        have nonempty : text ≠ [] := by
          rintro rfl
          exact absurd named (by decide)
        refine ⟨text, nonempty, rfl, not_or.mpr ⟨fun unknown => unknown named, ?_⟩⟩
        rw [present]
        exact Bool.true_eq_false.mp
      · rintro value ⟨text, named, rfl⟩
        rw [List.mem_singleton] at named
        subst named
        exact ⟨_, by decide, rfl, fun different => different rfl⟩
  · rw [false_or, and_false]

theorem judged_validateProbe (key : Str) :
    Checked (validateProbe j key) (optional key (AcceptedProbe j) j) False := by
  have probed := (judged_object (j := j) key (fun _ => True) fun _ value =>
    (judged_members (fun _ => True) value fun _ actions =>
      (judged_elements actions (judged_validateAction j)).congr (true_and _).to_iff.symm
        Iff.rfl).congr (true_and _).to_iff.symm Iff.rfl).map (f := fun _ => ())
  rw [bind_assoc] at probed
  exact judged_optional probed False.elim

end Properties

/-! ### Loading -/

/-- **When `load` succeeds, and when an error escapes from it.** -/
theorem judged_load (validRegex : Str → Bool) (j : Json) :
    Checked (ToolProfile.load validRegex j) (Accepted validRegex j) (Escaping validRegex j) := by
  unfold ToolProfile.load
  refine ((judged_fillStringSet _).andThen fun _ _ => (judged_fillStringSet _).andThen fun _ _ =>
    (judged_fillStringSet _).andThen fun _ _ => judged_namedThen (by decide) fun _ =>
      judged_optionalString.andThen fun _ _ => judged_key fun value _ _ =>
        (judged_loadOptions _ value.range _).andThen fun _ _ =>
          (judged_loadExt _).andThen fun _ _ => (judged_loadExt _).andThen fun _ _ =>
            (judged_loadSubstitutions validRegex).andThen fun _ _ =>
              (judged_validateAll judged_validateActionable _).andThen fun _ _ =>
                (judged_validateAll judged_validateProbe _).map).congr ?_ ?_
  · constructor
    · rintro ⟨aliases, cAliases, cxxAliases, kind, lead, value, found, valid, options, sources,
        targets, substitutions, actionable, probes⟩
      have accepted := validType_array.mp ⟨valid, options⟩
      exact ⟨⟨⟨aliases, cAliases, cxxAliases, kind, lead⟩, ⟨value, found, accepted⟩, sources,
        targets⟩, substitutions, actionable, probes⟩
    · rintro ⟨⟨head, ⟨value, found, accepted⟩, sources, targets⟩, substitutions, actionable, probes⟩
      obtain ⟨valid, options⟩ := validType_array.mpr accepted
      exact ⟨head.aliases, head.cAliases, head.cxxAliases, head.defaultCommandKind,
        head.optionPrefix, value, found, valid, options, sources, targets, substitutions,
        actionable, probes⟩
  · simp only [false_or, and_false, or_false]
    constructor
    · rintro ⟨aliases, cAliases, cxxAliases, kind, lead, value, found, valid,
        first | ⟨options, sources, targets, bad⟩⟩
      · exact .option ⟨aliases, cAliases, cxxAliases, kind, lead⟩
          ⟨value, found, validType_first.mp ⟨valid, first⟩⟩
      · have accepted := validType_array.mp ⟨valid, options⟩
        exact .pattern ⟨⟨aliases, cAliases, cxxAliases, kind, lead⟩, ⟨value, found, accepted⟩,
          sources, targets⟩ bad
    · rintro (⟨head, value, found, first⟩ | ⟨⟨head, ⟨value, found, accepted⟩, sources, targets⟩,
        bad⟩)
      · obtain ⟨valid, first⟩ := validType_first.mpr first
        exact ⟨head.aliases, head.cAliases, head.cxxAliases, head.defaultCommandKind,
          head.optionPrefix, value, found, valid, Or.inl first⟩
      · obtain ⟨valid, options⟩ := validType_array.mpr accepted
        exact ⟨head.aliases, head.cAliases, head.cxxAliases, head.defaultCommandKind,
          head.optionPrefix, value, found, valid, Or.inr ⟨options, sources, targets, bad⟩⟩

/-! ### The documented schema -/

/-- What the documentation asks for and `load` does not check. -/
structure Unchecked (j : Json) : Prop where
  aliases : j.count "aliases".toList = true
  sourceExtensions : optional "sourceExtensions".toList
    (map (fun format => format ≠ "ext".toList) fun _ => True) j
  targetExtensions : optional "targetExtensions".toList
    (map (fun format => format ≠ "ext".toList) fun _ => True) j

/-- **What a load must come to**: the error code, or success for a document of the documented
schema. -/
def Settled (validRegex : Str → Bool) (j : Json) : Prop :=
  match ToolProfile.load validRegex j with
  | .ok _ => ToolProfileDef j
  | .error e => Reported e

section Documented

variable {validRegex : Str → Bool} {j : Json}

theorem stringArray_of_names (j : Json) (names : NameArray j) : StringArray j :=
  array_mono (fun _ => name_string) names.1

/-- The values of a filled map. -/
theorem map_of_filled {named named' : Str → Prop} {t t' : Shape}
    (keys : ∀ key, named key → named' key) (each : ∀ j, t j → t' j) (j : Json)
    (isFilled : filled (map named t) j) : map named' t' j :=
  map_mono keys each isFilled.1

theorem scanDef_of_accepted (accepted : AcceptedScan j) : ScanOptionDef j where
  cScanOption := optional_mono (fun _ => name_string) accepted.cScanOption
  cxxScanOption := optional_mono (fun _ => name_string) accepted.cxxScanOption
  scanArgFormat := accepted.scanArgFormat
  cArgValues := optional_mono (map_of_filled (fun _ _ => trivial) fun _ => name_string)
    accepted.cArgValues
  cxxArgValues := optional_mono (map_of_filled (fun _ _ => trivial) fun _ => name_string)
    accepted.cxxArgValues

theorem optionDef_of_accepted (j : Json) (accepted : AcceptedOption j) : OptionDef j := by
  obtain ⟨base, type, typed, behaviour⟩ := accepted
  have only : ∀ {type' : OptionType}, HasType j type' → AcceptedBehaviour type' j := by
    intro type' typed'
    rw [← typed.unique typed']
    exact behaviour
  refine ⟨⟨?_, ?_, base.type⟩, ?_, ?_, ?_⟩
  · exact required_mono stringArray_of_names base.aliases
  · exact optional_mono (fun _ formats => formats.1) base.argFormat
  · exact fun cmd => only cmd
  · exact fun lang => required_mono (fun _ => filled_mono fun _ => id) (only lang)
  · exact fun scan => scanDef_of_accepted (only scan)

theorem actionDef_of_accepted (profileJson j : Json) (accepted : AcceptedAction profileJson j) :
    ProbeActionDef j where
  config := required_mono (fun _ ⟨config, named, same, _⟩ => ⟨config, named, same⟩) accepted.config
  action := accepted.action
  value := required_mono stringArray_of_names accepted.value

theorem probeDef_of_accepted (profileJson j : Json) (accepted : AcceptedProbe profileJson j) :
    ProbeMacroDef j := by
  refine map_of_filled (fun _ => id) (map_of_filled (fun _ => id) fun _ actions => ?_) j accepted
  exact array_mono (actionDef_of_accepted profileJson) actions.1

theorem subDef_of_accepted (j : Json) (accepted : AcceptedSub validRegex j) : TextSubDef j where
  text := by
    by_cases isRegex : j.count "regex".toList = true
    · refine Or.inl (required_mono ?_ (accepted.regex isRegex))
      rintro _ ⟨text, -, rfl, -⟩
      exact ⟨text, rfl⟩
    · refine Or.inr (required_mono (fun _ => name_string) ?_)
      exact accepted.string (Bool.eq_false_iff.mpr isRegex)
  replacement := accepted.replacement

/-- The extensions are as documented exactly when none is for `ext`. -/
theorem extDef_iff {key : Str} (accepted : optional key AcceptedExt j) :
    optional key FileExtDef j ↔
      optional key (map (fun format => format ≠ "ext".toList) fun _ => True) j := by
  constructor
  · exact optional_mono fun _ => map_mono (fun _ named => named.2) fun _ _ => trivial
  · intro noExt value found
    obtain ⟨⟨members, rfl, every⟩, -⟩ := accepted value found
    obtain ⟨_, same, named⟩ := noExt _ found
    cases same
    refine ⟨members, rfl, fun member inside => ?_⟩
    obtain ⟨known, strings⟩ := every member inside
    exact ⟨⟨known, (named member inside).1⟩, strings.1⟩

/-- **An accepted document has the documented schema exactly when it has what is not checked.** -/
theorem documented_iff (accepted : Accepted validRegex j) : ToolProfileDef j ↔ Unchecked j := by
  obtain ⟨⟨head, options, sources, targets⟩, substitutions, actionable, probes⟩ := accepted
  constructor
  · intro documented
    obtain ⟨value, found, -⟩ := documented.aliases
    refine ⟨?_, (extDef_iff sources).mp documented.sourceExtensions,
      (extDef_iff targets).mp documented.targetExtensions⟩
    rw [Json.count, found]
    rfl
  · intro unchecked
    refine
      { aliases := required_mono stringArray_of_names (required_of_count unchecked.aliases head.aliases)
        cAliases := optional_mono stringArray_of_names head.cAliases
        cxxAliases := optional_mono stringArray_of_names head.cxxAliases
        defaultCommandKind := head.defaultCommandKind
        optionPrefix := optional_mono (fun _ => name_string) head.optionPrefix
        options := required_mono (fun _ elems => array_mono optionDef_of_accepted elems.1) options
        actionable := fun key member =>
          optional_mono (fun _ => array_mono fun _ => name_string) (actionable key member)
        probeCMacros := optional_mono (probeDef_of_accepted j) (probes _ ?_)
        probeCxxMacros := optional_mono (probeDef_of_accepted j) (probes _ ?_)
        sourceExtensions := (extDef_iff sources).mpr unchecked.sourceExtensions
        targetExtensions := (extDef_iff targets).mpr unchecked.targetExtensions
        textSubstitutions :=
          optional_mono (fun _ elems => array_mono subDef_of_accepted elems.1) substitutions }
    · exact List.mem_cons_self
    · exact List.mem_cons_of_mem _ List.mem_cons_self

end Documented

/-- **`load` does what is documented exactly when no error escapes, and a document that it accepts
has what it does not check.** -/
theorem load_settled_iff (validRegex : Str → Bool) (j : Json) :
    Settled validRegex j ↔
      ¬ Escaping validRegex j ∧ (Accepted validRegex j → Unchecked j) := by
  have judged := judged_load validRegex j
  rw [← judged.reported_iff]
  unfold Settled
  cases loaded : ToolProfile.load validRegex j with
  | ok profile =>
    have accepted := judged.passes_iff.mp ⟨profile, loaded⟩
    rw [documented_iff accepted]
    constructor
    · exact fun unchecked => ⟨fun e impossible => (nomatch impossible), fun _ => unchecked⟩
    · exact fun both => both.2 accepted
  | error e =>
    have rejected : ¬ Accepted validRegex j := by
      rw [← judged.passes_iff, loaded]
      exact fun passed => nomatch passed.choose_spec
    constructor
    · intro reported
      refine ⟨fun e' same => ?_, fun accepted => absurd accepted rejected⟩
      cases same
      exact reported
    · exact fun both => both.1 e rfl

/-! ### A language that is not a string -/

/-- A profile with one option. -/
def profileWith (option : Json) : Json :=
  .obj [("aliases".toList, .arr [.str "cc".toList]),
    ("defaultCommandKind".toList, .str "compile".toList), ("options".toList, .arr [option])]

/-- A language option with an argument value that is a number. -/
def numberedLanguage : Json :=
  .obj [("aliases".toList, .arr [.str "-x".toList]), ("type".toList, .str "language".toList),
    ("argValues".toList, .obj [("c".toList, .num "1".toList)])]

/-- A response option that takes no argument. -/
def bareResponse : Json :=
  .obj [("aliases".toList, .arr [.str "@".toList]), ("type".toList, .str "response".toList)]

/-- The conversion of the number is a type error, and the formats of the response option are read
from a key that it does not have. -/
theorem load_escapes :
    (¬ ∀ (validRegex : Str → Bool) (j : Json), Settled validRegex j) ∧
      ToolProfile.load (fun _ => true) (profileWith bareResponse) =
        .error (.json .missingKey) := by
  have number : ToolProfile.load (fun _ => true) (profileWith numberedLanguage) =
      .error (.json .typeError) := rfl
  refine ⟨fun settled => ?_, rfl⟩
  have reported := settled (fun _ => true) (profileWith numberedLanguage)
  unfold Settled at reported
  rw [number] at reported
  cases reported

end Xcalbuild.Profile
