/-
**`ToolProfile::load`.**

Reading a tool profile from its JSON description, with the validation of every property the source
validates. `validateJson` is `validate_json`: the type of the property and, unless empty values are
allowed, that it is not empty.

* `load_responseFileOption`: of the response options of a loaded profile the last one is the one
  that is remembered for unfolding;
* `load_defaultPrefix`: every option of a loaded profile holds the option prefix of the profile,
  as a C string.
-/
import Xcalbuild.Profile.Parse

namespace Xcalbuild.Profile

open Library

/-- Why a profile is not loaded: it is incorrect, or an exception that `load` does not catch comes
out of the JSON library or of the regular expression library. -/
inductive LoadError where
  | incorrectProfile
  | json (fault : Json.Fault)
  | badRegex
  deriving DecidableEq, Repr

inductive JsonType where
  | string
  | object
  | array
  | stringArray
  | objectArray
  deriving DecidableEq, Repr

def liftJson {α : Type} (access : Except Json.Fault α) : Except LoadError α :=
  access.mapError .json

def isNonemptyString : Json → Bool
  | .str value => value ≠ []
  | _ => false

/-- The condition `valid` of `validate_json`. -/
def validType (type : JsonType) (allowEmpty : Bool) (j : Json) : Bool :=
  match type with
  | .array => j.isArray && (allowEmpty || 0 < j.size)
  | .string | .stringArray => j.isString && (allowEmpty || isNonemptyString j)
  | .object | .objectArray => j.isObject && (allowEmpty || 0 < j.size)

/-- `validate_json` of the value itself. -/
def validateJson (j : Json) (type : JsonType) (allowEmpty : Bool) : Except LoadError Unit :=
  if validType type allowEmpty j then .ok () else .error .incorrectProfile

/-- `validate_json` of the value under a key, which is the result. -/
def validateKey (j : Json) (key : Str) (type : JsonType) (allowEmpty : Bool) :
    Except LoadError Json :=
  if j.count key then do
    let value ← liftJson (j.atKey key)
    validateJson value type allowEmpty
    return value
  else .error .incorrectProfile

/-- `validate_optional` -/
def validateOptional {α : Type} : Option α → Except LoadError α
  | some value => .ok value
  | none => .error .incorrectProfile

/-- A validated string. -/
def validString (j : Json) (type : JsonType) (allowEmpty : Bool) : Except LoadError Str := do
  validateJson j type allowEmpty
  liftJson j.getString

/-- A validated string property. -/
def stringProperty (j : Json) (key : Str) (allowEmpty : Bool) : Except LoadError Str := do
  let value ← validateKey j key .string allowEmpty
  liftJson value.getString

/-- A string property that may be missing. -/
def optionalString (j : Json) (key : Str) : Except LoadError (Option Str) :=
  if j.count key then do return some (← stringProperty j key false) else .ok none

/-- `for(const auto &elem: j)` with a step that can fail. -/
def visit {α : Type} (step : Json → Except LoadError α) : List Json → Except LoadError (List α)
  | [] => .ok []
  | elem :: rest => do
      let value ← step elem
      let values ← visit step rest
      return value :: values

/-- `for(const auto &i: j.items())` with a step that can fail. -/
def visitItems {α : Type} (step : Str → Json → Except LoadError α) :
    List (Str × Json) → Except LoadError (List α)
  | [] => .ok []
  | (key, elem) :: rest => do
      let value ← step key elem
      let values ← visitItems step rest
      return value :: values

/-! ### Options -/

/-- `option_type_names` -/
inductive OptionType where
  | cmd
  | lang
  | respfile
  | delete
  | scan
  | preprocess
  | output
  | preInclude
  | sysIncPath
  | other
  deriving DecidableEq, Repr

def optionTypeNames : List (Str × OptionType) :=
  [("cmd".toList, .cmd), ("language".toList, .lang), ("response".toList, .respfile),
    ("delete".toList, .delete), ("scan".toList, .scan), ("preprocess".toList, .preprocess),
    ("output".toList, .output), ("include".toList, .preInclude), ("isystem".toList, .sysIncPath),
    ("other".toList, .other)]

/-- The constructor of `Option`: the aliases and the argument formats. -/
def parseAliases (j : Json) : Except LoadError (List Str) := do
  let aliases ← validateKey j "aliases".toList .array false
  visit (fun name => validString name .stringArray false) aliases.range

def parseArgFormat (j : Json) : Except LoadError (List OptionArgFormat) :=
  if j.count "argFormat".toList then do
    let formats ← validateKey j "argFormat".toList .array false
    visit (fun format => do
      let name ← validString format .stringArray false
      validateOptional (optionArgFormatNames.lookup name)) formats.range
  else .ok []

/-- `fill_map` in the constructor of `ScanOption`. -/
def parseArgValues (j : Json) (key : Str) : Except LoadError (List (Str × Str)) :=
  if j.count key then do
    let values ← validateKey j key .object false
    visitItems (fun name value => do
      if name = [] then throw .incorrectProfile
      return (name, ← validString value .string false)) values.items
  else .ok []

def parseScanArgFormat (j : Json) : Except LoadError (Option OptionArgFormat) :=
  if j.count "scanArgFormat".toList then do
    let name ← stringProperty j "scanArgFormat".toList false
    return some (← validateOptional (optionArgFormatNames.lookup name))
  else .ok none

def parseScan (j : Json) : Except LoadError ScanData := do
  let argToCScan ← parseArgValues j "cArgValues".toList
  let argToCxxScan ← parseArgValues j "cxxArgValues".toList
  let cScanOption ← optionalString j "cScanOption".toList
  let cxxScanOption ← optionalString j "cxxScanOption".toList
  let scanArgFormat ← parseScanArgFormat j
  return { cScanOption, cxxScanOption, scanArgFormat, argToCScan, argToCxxScan }

/-- The members that the subclass for an option type adds. -/
def parseBehaviour (type : OptionType) (j : Json) : Except LoadError OptionBehaviour :=
  match type with
  | .cmd => do
      let name ← stringProperty j "kind".toList false
      return .cmd (← validateOptional (commandKindNames.lookup name))
  | .lang => do
      let values ← validateKey j "argValues".toList .object false
      return .language (← visitItems (fun name value => do
        let format ← liftJson value.getString
        return (name, ← validateOptional (fileFormatFromString format))) values.items)
  | .respfile => .ok .response
  | .delete => .ok .delete
  | .scan => do return .scan (← parseScan j)
  | .preprocess => .ok .preprocess
  | .output => .ok .output
  | .preInclude => .ok .preInclude
  | .sysIncPath => .ok .sysIncPath
  | .other => .ok .other

/-- `parse_option` -/
def parseOption (j : Json) (defaultPrefix : Option Str) : Except LoadError ToolOption := do
  let name ← stringProperty j "type".toList false
  let type ← validateOptional (optionTypeNames.lookup name)
  let orderedAliases ← parseAliases j
  let argFormat ← parseArgFormat j
  let behaviour ← parseBehaviour type j
  if hasAlias : orderedAliases ≠ [] then
    return { behaviour, defaultPrefix, orderedAliases, hasAlias, argFormat }
  else throw .incorrectProfile

/-- The entries a response option adds to the configuration of the tracer. -/
def responseConfig (j : Json) : Except LoadError (List Json) := do
  let aliases ← liftJson (j.atKey "aliases".toList)
  visit (fun name => do
    let format ← liftJson (j.atKey "argFormat".toList)
    return .obj [("argFormat".toList, format), ("argument".toList, name)]) aliases.range

/-- Adds an option to the profile. Of the special options, the last one in the list wins. -/
def addOption (profile : ToolProfile) (j : Json) (option : ToolOption) :
    Except LoadError ToolProfile :=
  let profile := { profile with options := profile.options ++ [option] }
  match option.behaviour with
  | .response => do
      let config ← responseConfig j
      return { profile with
        responseFileConfig := profile.responseFileConfig ++ config
        responseFileOption := some option }
  | .preprocess => .ok { profile with preprocessOption := some option }
  | .output => .ok { profile with outputOption := some option }
  | .preInclude => .ok { profile with preIncludeOption := some option }
  | .sysIncPath => .ok { profile with sysIncPathOption := some option }
  | _ => .ok profile

/-- The loop over the options of the profile. -/
def loadOptions (defaultPrefix : Option Str) :
    List Json → ToolProfile → Except LoadError ToolProfile
  | [], profile => .ok profile
  | j :: rest, profile => do
      let option ← parseOption j defaultPrefix
      let profile ← addOption profile j option
      loadOptions defaultPrefix rest profile

/-! ### The other properties -/

/-- `fill_string_set` -/
def fillStringSet (j : Json) (key : Str) : Except LoadError (List Str) :=
  if j.count key then do
    let values ← validateKey j key .array false
    visit (fun elem => validString elem .stringArray false) values.range
  else .ok []

/-- `load_ext` -/
def loadExt (j : Json) (key : Str) : Except LoadError (List (Str × FileFormat)) :=
  if j.count key then do
    let formats ← validateKey j key .object false
    let entries ← visitItems (fun name extensions => do
      let format ← validateOptional (fileFormatFromString name)
      validateJson extensions .array false
      visit (fun ext => do return (← validString ext .stringArray true, format))
        extensions.range) formats.items
    return entries.flatten
  else .ok []

/-- The patterns that `boost::regex` compiles are a parameter. -/
def loadSubstitution (validRegex : Str → Bool) (j : Json) : Except LoadError TextSubstitution := do
  validateJson j .objectArray false
  let replacement ← stringProperty j "replacement".toList true
  if j.count "regex".toList then
    let pattern ← stringProperty j "regex".toList false
    if validRegex pattern then return .regex pattern replacement else throw .badRegex
  else if j.count "string".toList then
    return .string (← stringProperty j "string".toList false) replacement
  else throw .incorrectProfile

def loadSubstitutions (validRegex : Str → Bool) (j : Json) :
    Except LoadError (List TextSubstitution) :=
  if j.count "textSubstitutions".toList then do
    let values ← validateKey j "textSubstitutions".toList .array false
    visit (loadSubstitution validRegex) values.range
  else .ok []

/-- `actionable_configs` -/
def actionableConfigs : List Str :=
  ["cAppendPreprocessingOptions", "cPreIncludes", "cPrependPreprocessingOptions",
    "cPrependScanOptions", "cSystemIncludePaths", "cxxAppendPreprocessingOptions", "cxxPreIncludes",
    "cxxPrependPreprocessingOptions", "cxxPrependScanOptions", "cxxSystemIncludePaths"].map
    String.toList

/-- Validation of one actionable item. -/
def validateActionable (j : Json) (key : Str) : Except LoadError Unit :=
  if j.count key then do
    let values ← validateKey j key .array true
    let _ ← visit (fun elem => validateJson elem .stringArray false) values.range
  else .ok ()

/-- Validation of one action of a probe. -/
def validateAction (profileJson action : Json) : Except LoadError Unit := do
  validateJson action .objectArray false
  let config ← stringProperty action "config".toList false
  if config ∉ actionableConfigs ∨ profileJson.count config = false then throw .incorrectProfile
  let act ← stringProperty action "action".toList false
  if act ≠ "prepend".toList then throw .incorrectProfile
  let values ← validateKey action "value".toList .array false
  let _ ← visit (fun value => validateJson value .stringArray false) values.range

/-- Validation of one probe directive. -/
def validateProbe (j : Json) (key : Str) : Except LoadError Unit :=
  if j.count key then do
    let macros ← validateKey j key .object false
    let _ ← visitItems (fun _ macroValues => do
      validateJson macroValues .object false
      visitItems (fun _ actions => do
        validateJson actions .array false
        visit (validateAction j) actions.range) macroValues.items) macros.items
  else .ok ()

def validateAll (check : Str → Except LoadError Unit) : List Str → Except LoadError Unit
  | [] => .ok ()
  | key :: rest => do
      check key
      validateAll check rest

/-- The member initialisers of `ToolProfile`. -/
def ToolProfile.init (profileJson : Json) : ToolProfile where
  profileJson := profileJson
  aliases := []
  cAliases := []
  cxxAliases := []
  defaultCommandKind := .compile
  responseFileConfig := []
  options := []
  responseFileOption := none
  preprocessOption := none
  outputOption := none
  preIncludeOption := none
  sysIncPathOption := none
  optionPrefix := none
  cPrependPreprocessingOptions := []
  cxxPrependPreprocessingOptions := []
  cAppendPreprocessingOptions := []
  cxxAppendPreprocessingOptions := []
  cPrependScanOptions := []
  cxxPrependScanOptions := []
  cPreIncludes := []
  cxxPreIncludes := []
  cSysIncPaths := []
  cxxSysIncPaths := []
  sourceExtensions := []
  targetExtensions := []
  textSubstitutions := []

/-- `ToolProfile::load` -/
def ToolProfile.load (validRegex : Str → Bool) (j : Json) : Except LoadError ToolProfile := do
  let aliases ← fillStringSet j "aliases".toList
  let cAliases ← fillStringSet j "cAliases".toList
  let cxxAliases ← fillStringSet j "cxxAliases".toList
  let kindName ← stringProperty j "defaultCommandKind".toList false
  let defaultCommandKind ← validateOptional (commandKindNames.lookup kindName)
  let optionPrefix ← optionalString j "optionPrefix".toList
  let options ← validateKey j "options".toList .array false
  let profile ← loadOptions (optionPrefix.map cStr) options.range
    { ToolProfile.init j with aliases, cAliases, cxxAliases, defaultCommandKind, optionPrefix }
  let sourceExtensions ← loadExt j "sourceExtensions".toList
  let targetExtensions ← loadExt j "targetExtensions".toList
  let textSubstitutions ← loadSubstitutions validRegex j
  validateAll (validateActionable j) actionableConfigs
  validateAll (validateProbe j) ["probeCMacros".toList, "probeCxxMacros".toList]
  return { profile with sourceExtensions, targetExtensions, textSubstitutions }

/-! ### Loaded profiles -/

/-- The last response option of a list. -/
def lastResponse (options : List ToolOption) : Option ToolOption :=
  (options.filter ToolOption.isResponse).getLast?

theorem lastResponse_append (options : List ToolOption) (option : ToolOption) :
    lastResponse (options ++ [option]) =
      if option.isResponse then some option else lastResponse options := by
  unfold lastResponse
  rw [List.filter_append]
  cases special : option.isResponse <;> simp [special]

/-- What loading the options keeps true of the profile. -/
structure OptionsLoaded (defaultPrefix : Option Str) (profile : ToolProfile) : Prop where
  remembered : profile.responseFileOption = lastResponse profile.options
  prefixed : ∀ option ∈ profile.options, option.defaultPrefix = defaultPrefix

theorem parseOption_defaultPrefix {j : Json} {defaultPrefix : Option Str} {option : ToolOption}
    (parsed : parseOption j defaultPrefix = .ok option) :
    option.defaultPrefix = defaultPrefix := by
  obtain ⟨name, -, parsed⟩ := bind_eq_ok parsed
  obtain ⟨type, -, parsed⟩ := bind_eq_ok parsed
  obtain ⟨orderedAliases, -, parsed⟩ := bind_eq_ok parsed
  obtain ⟨argFormat, -, parsed⟩ := bind_eq_ok parsed
  obtain ⟨behaviour, -, parsed⟩ := bind_eq_ok parsed
  split_ifs at parsed
  cases parsed
  rfl

theorem addOption_fields {profile profile' : ToolProfile} {j : Json} {option : ToolOption}
    (added : addOption profile j option = .ok profile') :
    profile'.options = profile.options ++ [option] ∧
      profile'.responseFileOption =
        (if option.isResponse then some option else profile.responseFileOption) ∧
      profile'.optionPrefix = profile.optionPrefix := by
  unfold addOption at added
  unfold ToolOption.isResponse
  cases behaviour : option.behaviour with
  | response =>
    rw [behaviour] at added
    obtain ⟨config, -, added⟩ := bind_eq_ok added
    cases added
    exact ⟨rfl, rfl, rfl⟩
  | _ =>
    rw [behaviour] at added
    cases added
    exact ⟨rfl, rfl, rfl⟩

theorem loadOptions_kept {defaultPrefix : Option Str} {js : List Json}
    {profile profile' : ToolProfile} (loaded : loadOptions defaultPrefix js profile = .ok profile')
    (before : OptionsLoaded defaultPrefix profile) :
    OptionsLoaded defaultPrefix profile' ∧ profile'.optionPrefix = profile.optionPrefix := by
  induction js generalizing profile with
  | nil =>
    cases loaded
    exact ⟨before, rfl⟩
  | cons j rest ih =>
    obtain ⟨option, parsed, loaded⟩ := bind_eq_ok loaded
    obtain ⟨middle, added, loaded⟩ := bind_eq_ok loaded
    obtain ⟨options, remembered, lead⟩ := addOption_fields added
    have kept : OptionsLoaded defaultPrefix middle := by
      constructor
      · rw [remembered, options, lastResponse_append, before.remembered]
      · intro other member
        rw [options, List.mem_append, List.mem_singleton] at member
        rcases member with member | rfl
        · exact before.prefixed other member
        · exact parseOption_defaultPrefix parsed
    obtain ⟨after, same⟩ := ih loaded kept
    exact ⟨after, same.trans lead⟩

theorem load_optionsLoaded {validRegex : Str → Bool} {j : Json} {profile : ToolProfile}
    (loaded : ToolProfile.load validRegex j = .ok profile) :
    OptionsLoaded (profile.optionPrefix.map cStr) profile := by
  obtain ⟨aliases, -, loaded⟩ := bind_eq_ok loaded
  obtain ⟨cAliases, -, loaded⟩ := bind_eq_ok loaded
  obtain ⟨cxxAliases, -, loaded⟩ := bind_eq_ok loaded
  obtain ⟨kindName, -, loaded⟩ := bind_eq_ok loaded
  obtain ⟨kind, -, loaded⟩ := bind_eq_ok loaded
  obtain ⟨optionPrefix, -, loaded⟩ := bind_eq_ok loaded
  obtain ⟨options, -, loaded⟩ := bind_eq_ok loaded
  obtain ⟨middle, optionsRead, loaded⟩ := bind_eq_ok loaded
  obtain ⟨sources, -, loaded⟩ := bind_eq_ok loaded
  obtain ⟨targets, -, loaded⟩ := bind_eq_ok loaded
  obtain ⟨substitutions, -, loaded⟩ := bind_eq_ok loaded
  obtain ⟨-, -, loaded⟩ := bind_eq_ok loaded
  obtain ⟨-, -, loaded⟩ := bind_eq_ok loaded
  cases loaded
  obtain ⟨kept, same⟩ := loadOptions_kept optionsRead ⟨rfl, fun _ member => nomatch member⟩
  rw [show middle.optionPrefix = optionPrefix from same]
  exact ⟨kept.remembered, kept.prefixed⟩

/-- **Of the response options of a loaded profile, the last one is remembered.** -/
theorem load_responseFileOption {validRegex : Str → Bool} {j : Json} {profile : ToolProfile}
    (loaded : ToolProfile.load validRegex j = .ok profile) :
    profile.responseFileOption = lastResponse profile.options :=
  (load_optionsLoaded loaded).remembered

/-- **Every option of a loaded profile holds the option prefix of the profile.** -/
theorem load_defaultPrefix {validRegex : Str → Bool} {j : Json} {profile : ToolProfile}
    (loaded : ToolProfile.load validRegex j = .ok profile) {option : ToolOption}
    (member : option ∈ profile.options) :
    option.defaultPrefix = profile.optionPrefix.map cStr :=
  (load_optionsLoaded loaded).prefixed option member

end Xcalbuild.Profile
