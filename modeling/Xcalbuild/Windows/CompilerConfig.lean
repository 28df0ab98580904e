/-
**The configuration of the Windows tracer.**

`CompilerConfig` is read from the JSON array that `get_binaries_to_trace` makes. For a binary it has
an entry for each alias of each response option of the tool profile, with the names of the argument
formats as they stand in the profile.

* `configLoaded_load`: the entries of a loaded profile are those of its response options, in order,
  and each of them has a format;
* `config_of_load`: the configuration for a binary with a loaded tool profile.
-/
import Xcalbuild.Library.Walk
import Xcalbuild.Profile.Toolchain

namespace Xcalbuild.Windows

open Library
open Profile (LoadError OptionArgFormat ToolOption ToolProfile ToolchainProfile)

/-- The argument and the formats of a response file option. -/
abbrev ResponseFileEntry := Str × List Str

structure CompilerConfig where
  compilers : List Str
  /-- A `map` that is only inserted to and looked up: the first entry of a key counts. -/
  responseFileArguments : List (Str × List ResponseFileEntry)
  deriving DecidableEq

/-! ### Reading -/

/-- `json[key]` of a value that is not constant: a missing key gives `null`. -/
def member (j : Json) (key : Str) : Except Json.Fault Json :=
  match j with
  | .obj members => .ok ((members.lookup key).getD .null)
  | .null => .ok .null
  | _ => .error .typeError

/-- An element of `responseFileArgs`. -/
def readEntry (k : Json) : Except Json.Fault ResponseFileEntry := do
  let format ← (← member k "argFormat".toList).range.mapM Json.getString
  let argument ← (← member k "argument".toList).getString
  return (argument, format)

/-- An element of the configuration. -/
def readCompiler (j : Json) : Except Json.Fault (Str × List ResponseFileEntry) := do
  let compiler ← (← member j "binary".toList).getString
  let responseFileArgs ← (← member j "responseFileArgs".toList).range.mapM readEntry
  return (compiler, responseFileArgs)

/-- The constructor, with the JSON value of the file. -/
def CompilerConfig.ofJson : Json → Except Json.Fault CompilerConfig
  | .arr elems => do
      let read ← elems.mapM readCompiler
      return ⟨read.map Prod.fst, read⟩
  | _ => .ok ⟨[], []⟩

/-- If no binary is specified, all are interesting. -/
def CompilerConfig.isInterestingBinary (config : CompilerConfig) (name : Str) : Bool :=
  if config.compilers = [] then true else decide (name ∈ config.compilers)

/-- An attached argument has the alias as a prefix. Otherwise it is the alias. -/
def ResponseFileEntry.fits (entry : ResponseFileEntry) (arg : Str) : Bool :=
  if "attached".toList ∈ entry.2 then entry.1.isPrefixOf arg else decide (entry.1 = arg)

def CompilerConfig.isResponseFileArg (config : CompilerConfig) (exeName arg : Str) :
    Option ResponseFileEntry :=
  match config.responseFileArguments.lookup exeName with
  | some args => args.find? fun entry => ResponseFileEntry.fits entry arg
  | none => none

/-! ### The entries of a tool profile -/

/-- The name of an argument format in a profile. -/
def formatName : OptionArgFormat → Str
  | .attached => "attached".toList
  | .space => "space".toList
  | .equal => "equal".toList

theorem formatName_injective : Function.Injective formatName := by
  intro f g same
  revert same
  cases f <;> cases g <;> decide

theorem formatName_of_lookup {name : Str} {format : OptionArgFormat}
    (found : Profile.optionArgFormatNames.lookup name = some format) :
    name = formatName format := by
  have member := mem_of_lookup found
  simp only [Profile.optionArgFormatNames, List.mem_cons, List.not_mem_nil, or_false,
    Prod.mk.injEq] at member
  rcases member with ⟨rfl, rfl⟩ | ⟨rfl, rfl⟩ | ⟨rfl, rfl⟩ <;> rfl

/-- The entries of a response option. -/
def entriesOf (option : ToolOption) : List ResponseFileEntry :=
  option.orderedAliases.map fun name => (name, option.argFormat.map formatName)

/-- The values that a loop over an array gets, one by one. -/
theorem forall₂_of_visit {α : Type} {step : Json → Except LoadError α} {elems : List Json}
    {values : List α} (visited : Profile.visit step elems = .ok values) :
    List.Forall₂ (fun elem value => step elem = .ok value) elems values := by
  induction elems generalizing values with
  | nil =>
    cases visited
    exact .nil
  | cons elem rest ih =>
    obtain ⟨value, here, visited⟩ := bind_eq_ok visited
    obtain ⟨others, later, visited⟩ := bind_eq_ok visited
    cases visited
    exact .cons here (ih later)

/-- The elements of an array, by the values. -/
theorem eq_map_of_visit {α : Type} {step : Json → Except LoadError α} {write : α → Json}
    (reads : ∀ elem value, step elem = .ok value → elem = write value) {elems : List Json}
    {values : List α} (visited : Profile.visit step elems = .ok values) :
    elems = values.map write :=
  Loop.eq_map_of_entries ((forall₂_of_visit visited).imp reads).flip

theorem eq_str_of_validString {type : Profile.JsonType} {allowEmpty : Bool} {elem : Json} {s : Str}
    (read : Profile.validString elem type allowEmpty = .ok s) : elem = .str s := by
  obtain ⟨_, -, read⟩ := bind_eq_ok read
  have got := ok_of_mapError read
  cases elem with
  | str value =>
    cases got
    rfl
  | _ => cases got

/-- The JSON value of an entry. -/
def entryJson (entry : ResponseFileEntry) : Json :=
  .obj [("argFormat".toList, .arr (entry.2.map Json.str)), ("argument".toList, .str entry.1)]

theorem readEntry_entryJson (entry : ResponseFileEntry) :
    readEntry (entryJson entry) = .ok entry := by
  have formats : (entry.2.map Json.str).mapM Json.getString = .ok entry.2 :=
    @mapM_map_ok _ _ _ Json.getString Json.str (fun _ => rfl) entry.2
  show ((entry.2.map Json.str).mapM Json.getString >>= fun format => _) = _
  rw [formats]
  rfl

/-- The values of a loop, by the elements. -/
theorem visit_eq_map {α : Type} {step : Json → Except LoadError α} {result : Json → α}
    (gives : ∀ elem value, step elem = .ok value → value = result elem) {elems : List Json}
    {values : List α} (visited : Profile.visit step elems = .ok values) :
    values = elems.map result :=
  Loop.eq_map_of_entries ((forall₂_of_visit visited).imp gives)

theorem find_of_atKey {j value : Json} {key : Str} (found : j.atKey key = .ok value) :
    j.find key = some value := by
  unfold Json.atKey at found
  split at found
  · rename_i members
    split at found
    · rename_i other looked
      cases found
      exact looked
    · cases found
  · cases found

/-- The formats of an option that has the property. -/
theorem parseArgFormat_eq {j formats : Json} {argFormat : List OptionArgFormat}
    (parsed : Profile.parseArgFormat j = .ok argFormat)
    (found : j.find "argFormat".toList = some formats) :
    formats = .arr (argFormat.map fun format => .str (formatName format)) ∧ argFormat ≠ [] := by
  have counted : j.count "argFormat".toList = true := by
    rw [Json.count, found]
    rfl
  unfold Profile.parseArgFormat at parsed
  rw [if_pos counted] at parsed
  obtain ⟨value, validated, parsed⟩ := bind_eq_ok parsed
  obtain ⟨found', valid⟩ := Profile.validateKey_eq_ok.mp validated
  rw [found] at found'
  cases found'
  have reads : ∀ elem format, (do
      let name ← Profile.validString elem .stringArray false
      Profile.validateOptional (Profile.optionArgFormatNames.lookup name)) =
        Except.ok format → elem = .str (formatName format) := by
    intro elem format read
    obtain ⟨name, text, read⟩ := bind_eq_ok read
    cases looked : Profile.optionArgFormatNames.lookup name with
    | none =>
      rw [looked] at read
      cases read
    | some other =>
      rw [looked] at read
      cases read
      rw [eq_str_of_validString text, formatName_of_lookup looked]
  have elems := eq_map_of_visit reads parsed
  cases formats with
  | arr values =>
    have same : values = _ := elems
    rw [same]
    refine ⟨rfl, ?_⟩
    rintro rfl
    rw [same] at valid
    cases valid
  | _ => cases valid

/-- **The configuration that a response option adds** has its aliases and its formats. -/
theorem responseConfig_eq {j : Json} {defaultPrefix : Option Str} {option : ToolOption}
    {config : List Json} (parsed : Profile.parseOption j defaultPrefix = .ok option)
    (made : Profile.responseConfig j = .ok config) :
    config = (entriesOf option).map entryJson ∧ option.argFormat ≠ [] := by
  obtain ⟨name, -, parsed⟩ := bind_eq_ok parsed
  obtain ⟨type, -, parsed⟩ := bind_eq_ok parsed
  obtain ⟨orderedAliases, readAliases, parsed⟩ := bind_eq_ok parsed
  obtain ⟨argFormat, readFormats, parsed⟩ := bind_eq_ok parsed
  obtain ⟨behaviour, -, parsed⟩ := bind_eq_ok parsed
  split_ifs at parsed with hasAlias
  cases parsed
  obtain ⟨aliases, validated, readAliases⟩ := bind_eq_ok readAliases
  have isAliases := (Profile.validateKey_eq_ok.mp validated).1
  have elems := eq_map_of_visit (fun elem s read => eq_str_of_validString read) readAliases
  obtain ⟨aliases', looked, made⟩ := bind_eq_ok made
  have isAliases' := find_of_atKey (ok_of_mapError looked)
  rw [isAliases] at isAliases'
  cases isAliases'
  rw [elems] at made
  obtain ⟨formats, isFormats⟩ : ∃ formats, j.find "argFormat".toList = some formats := by
    obtain ⟨first, rest, same⟩ := List.exists_cons_of_ne_nil hasAlias
    rw [same, List.map_cons] at made
    obtain ⟨entry, step, -⟩ := bind_eq_ok made
    obtain ⟨formats, here, -⟩ := bind_eq_ok step
    exact ⟨formats, find_of_atKey (ok_of_mapError here)⟩
  obtain ⟨formatsForm, nonempty⟩ := parseArgFormat_eq readFormats isFormats
  refine ⟨?_, nonempty⟩
  have gives : ∀ elem entry, (do
      let format ← Profile.liftJson (j.atKey "argFormat".toList)
      return Json.obj [("argFormat".toList, format), ("argument".toList, elem)]) =
        Except.ok entry →
        entry = .obj [("argFormat".toList, formats), ("argument".toList, elem)] := by
    intro elem entry step
    obtain ⟨format, here, step⟩ := bind_eq_ok step
    have same := find_of_atKey (ok_of_mapError here)
    rw [isFormats] at same
    cases same
    cases step
    rfl
  rw [visit_eq_map gives made, entriesOf, List.map_map, List.map_map, formatsForm]
  refine List.map_congr_left fun name _ => ?_
  show Json.obj _ = Json.obj _
  rw [List.map_map]
  rfl

/-- The configuration of a profile is the one of its response options. -/
structure ConfigLoaded (profile : ToolProfile) : Prop where
  config : profile.responseFileConfig =
    ((profile.options.filter ToolOption.isResponse).flatMap entriesOf).map entryJson
  formats : ∀ option ∈ profile.options, option.isResponse = true → option.argFormat ≠ []

theorem configLoaded_addOption {j : Json} {defaultPrefix : Option Str} {option : ToolOption}
    {profile profile' : ToolProfile} (before : ConfigLoaded profile)
    (parsed : Profile.parseOption j defaultPrefix = .ok option)
    (added : Profile.addOption profile j option = .ok profile') : ConfigLoaded profile' := by
  have options := (Profile.addOption_fields added).1
  have config : profile'.responseFileConfig = profile.responseFileConfig ++
      (([option].filter ToolOption.isResponse).flatMap entriesOf).map entryJson ∧
        (option.isResponse = true → option.argFormat ≠ []) := by
    unfold Profile.addOption at added
    cases behaviour : option.behaviour with
    | response =>
      have isResponse : option.isResponse = true := by rw [ToolOption.isResponse, behaviour]
      rw [behaviour] at added
      obtain ⟨config, made, added⟩ := bind_eq_ok added
      cases added
      obtain ⟨same, nonempty⟩ := responseConfig_eq parsed made
      refine ⟨?_, fun _ => nonempty⟩
      rw [List.filter_cons_of_pos isResponse, same]
      simp
    | _ =>
      have other : option.isResponse = false := by rw [ToolOption.isResponse, behaviour]
      rw [behaviour] at added
      cases added
      refine ⟨?_, fun isResponse => ?_⟩
      · rw [List.filter_cons_of_neg (by rw [other]; decide)]
        exact (List.append_nil _).symm
      · rw [other] at isResponse
        cases isResponse
  constructor
  · rw [config.1, options, before.config, List.filter_append, List.flatMap_append, List.map_append]
  · intro other member
    rw [options, List.mem_append, List.mem_singleton] at member
    rcases member with old | rfl
    · exact before.formats other old
    · exact config.2

theorem configLoaded_loadOptions {defaultPrefix : Option Str} {js : List Json}
    {profile profile' : ToolProfile} (before : ConfigLoaded profile)
    (loaded : Profile.loadOptions defaultPrefix js profile = .ok profile') :
    ConfigLoaded profile' := by
  induction js generalizing profile with
  | nil =>
    cases loaded
    exact before
  | cons j rest ih =>
    obtain ⟨option, parsed, loaded⟩ := bind_eq_ok loaded
    obtain ⟨middle, added, loaded⟩ := bind_eq_ok loaded
    exact ih (configLoaded_addOption before parsed added) loaded

/-- **The configuration of a loaded profile** is the one of its response options, and they all have
formats. -/
theorem configLoaded_load {validRegex : Str → Bool} {j : Json} {profile : ToolProfile}
    (loaded : ToolProfile.load validRegex j = .ok profile) : ConfigLoaded profile := by
  obtain ⟨aliases, -, loaded⟩ := bind_eq_ok loaded
  obtain ⟨cAliases, -, loaded⟩ := bind_eq_ok loaded
  obtain ⟨cxxAliases, -, loaded⟩ := bind_eq_ok loaded
  obtain ⟨kindName, -, loaded⟩ := bind_eq_ok loaded
  obtain ⟨kind, -, loaded⟩ := bind_eq_ok loaded
  obtain ⟨optionPrefix, -, loaded⟩ := bind_eq_ok loaded
  obtain ⟨options, -, loaded⟩ := bind_eq_ok loaded
  obtain ⟨middle, optionsRead, loaded⟩ := bind_eq_ok loaded
  obtain ⟨sources, -, loaded⟩ := bind_eq_ok loaded
  obtain ⟨targets, -, loaded⟩ := bind_eq_ok loaded
  obtain ⟨substitutions, -, loaded⟩ := bind_eq_ok loaded
  obtain ⟨-, -, loaded⟩ := bind_eq_ok loaded
  obtain ⟨-, -, loaded⟩ := bind_eq_ok loaded
  cases loaded
  have kept := configLoaded_loadOptions
    ⟨rfl, fun _ member => absurd member List.not_mem_nil⟩ optionsRead
  exact ⟨kept.config, kept.formats⟩

/-! ### The configuration of the tracer -/

/-- **The configuration for a binary with one loaded tool profile.** -/
theorem config_of_load {validRegex : Str → Bool} {j : Json} {profile : ToolProfile}
    (loaded : ToolProfile.load validRegex j = .ok profile) (binary : Str) :
    CompilerConfig.ofJson (.arr [ToolchainProfile.tracerConfig binary profile]) =
      .ok ⟨[binary], [(binary,
        (profile.options.filter ToolOption.isResponse).flatMap entriesOf)]⟩ := by
  have entries : profile.responseFileConfig.mapM readEntry =
      .ok ((profile.options.filter ToolOption.isResponse).flatMap entriesOf) := by
    rw [(configLoaded_load loaded).config]
    exact mapM_map_ok readEntry_entryJson _
  have compiler : readCompiler (ToolchainProfile.tracerConfig binary profile) =
      .ok (binary, (profile.options.filter ToolOption.isResponse).flatMap entriesOf) := by
    show (profile.responseFileConfig.mapM readEntry >>= fun responseFileArgs => _) = _
    rw [entries]
    rfl
  show ([ToolchainProfile.tracerConfig binary profile].mapM readCompiler >>= fun read => _) = _
  rw [List.mapM_cons, compiler]
  rfl

end Xcalbuild.Windows
