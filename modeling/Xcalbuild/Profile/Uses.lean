/-
**The uses of a loaded tool profile.**

After `load` the members of a profile and its JSON value are used without further checks: the first
alias of an option is taken, members of the JSON value are accessed, and values are converted to
strings. Here these accesses can fail (`UseFault`).

* `OptionData`: an option without the guarantee that it has an alias; `parseOption_data`: `load` reads
  the same options with or without it;
* `makeStringOption_data`, `process_data`, `preprocessingOptions_eq`: no access of an option fails;
* `load_kept`: the JSON value and the tracer entries of a loaded profile;
* **`uses_safe`**: after every sequence of the profile's own actions every use is safe.
-/
import Xcalbuild.Processor.Compile
import Xcalbuild.Profile.Action

namespace Xcalbuild.Profile

open Library Library.Shape

/-- How a use of a profile goes wrong: in the JSON value, or at the first element of an empty
list. -/
inductive UseFault where
  | json (fault : Json.Fault)
  | emptyList
  deriving DecidableEq

/-- `*list.begin()` -/
def firstOf {α : Type} : List α → Except UseFault α
  | [] => .error .emptyList
  | first :: _ => .ok first

theorem firstOf_eq {α : Type} {l : List α} (nonempty : l ≠ []) :
    firstOf l = .ok (l.head nonempty) := by
  cases l with
  | nil => exact absurd rfl nonempty
  | cons first rest => rfl

/-! ### Options -/

/-- The members of an `Option`. Nothing is known about its aliases. -/
structure OptionData where
  behaviour : OptionBehaviour
  defaultPrefix : Option Str
  orderedAliases : List Str
  argFormat : List OptionArgFormat

namespace OptionData

/-- The format at the beginning of the set. -/
def firstFormat (o : OptionData) : Option OptionArgFormat :=
  if .attached ∈ o.argFormat then some .attached
  else if .space ∈ o.argFormat then some .space
  else if .equal ∈ o.argFormat then some .equal
  else none

/-- `Option::make_string_option`. The first alias is taken in every case. -/
def makeStringOption (o : OptionData) (arg : Str) : Except UseFault (List Str) := do
  match o.firstFormat with
  | none => return [← firstOf o.orderedAliases]
  | some .attached => return [(← firstOf o.orderedAliases) ++ arg]
  | some .space => return [← firstOf o.orderedAliases, arg]
  | some .equal => return [(← firstOf o.orderedAliases) ++ '=' :: arg]

/-- A scan option, or the first alias if there is none. -/
def scanOption (o : OptionData) : Option Str → Except UseFault Str
  | some option => .ok option
  | none => firstOf o.orderedAliases

/-- `Option::process`. Only a scan option takes an alias. -/
def process (host : Host) (o : OptionData) (arg : Str) (parsed : ParsedWorkItem) :
    Except UseFault (Bool × ParsedWorkItem) :=
  match o.behaviour with
  | .cmd kind => .ok (true, { parsed with kind := kind })
  | .language argToLang =>
      match argToLang.lookup arg with
      | some format => .ok (false, { parsed with fileFormat := format })
      | none => .ok (false, parsed)
  | .scan data => do
      let cOption ← o.scanOption data.cScanOption
      let cxxOption ← o.scanOption data.cxxScanOption
      match data.scanArgFormat with
      | none => return (true, { parsed with
          cScanOptions := parsed.cScanOptions ++ [cOption]
          cxxScanOptions := parsed.cxxScanOptions ++ [cxxOption] })
      | some format => return (true, { parsed with
          cScanOptions :=
            ToolOption.addScanOption format data.argToCScan cOption arg parsed.cScanOptions
          cxxScanOptions :=
            ToolOption.addScanOption format data.argToCxxScan cxxOption arg parsed.cxxScanOptions })
  | .output => .ok (false, { parsed with target := host.getFullPathStr arg parsed.dir })
  | .response | .delete | .preprocess => .ok (false, parsed)
  | .preInclude | .sysIncPath | .other => .ok (true, parsed)

end OptionData

/-- The members of an option. -/
def ToolOption.data (o : ToolOption) : OptionData where
  behaviour := o.behaviour
  defaultPrefix := o.defaultPrefix
  orderedAliases := o.orderedAliases
  argFormat := o.argFormat

/-- `parse_option`, without a look at the number of aliases. -/
def parseOptionData (j : Json) (defaultPrefix : Option Str) : Except LoadError OptionData := do
  let name ← stringProperty j "type".toList false
  let type ← validateOptional (optionTypeNames.lookup name)
  let orderedAliases ← parseAliases j
  let argFormat ← parseArgFormat j
  let behaviour ← parseBehaviour type j
  return { behaviour, defaultPrefix, orderedAliases, argFormat }

/-- **The list of aliases is not empty after validation.** -/
theorem parseOption_data (j : Json) (defaultPrefix : Option Str) :
    (parseOption j defaultPrefix).map ToolOption.data = parseOptionData j defaultPrefix := by
  unfold parseOption parseOptionData
  rw [map_bind_except]
  refine bind_congr_ok fun name _ => ?_
  rw [map_bind_except]
  refine bind_congr_ok fun type _ => ?_
  rw [map_bind_except]
  refine bind_congr_ok fun orderedAliases aliases => ?_
  rw [map_bind_except]
  refine bind_congr_ok fun argFormat _ => ?_
  rw [map_bind_except]
  refine bind_congr_ok fun behaviour _ => ?_
  rw [dif_pos (parseAliases_nonempty aliases)]
  rfl

section Options

variable (o : ToolOption)

theorem firstOf_aliases : firstOf o.data.orderedAliases = .ok o.firstAlias :=
  firstOf_eq o.hasAlias

/-- **Writing an option takes an alias that is there.** -/
theorem makeStringOption_data (arg : Str) :
    o.data.makeStringOption arg = .ok (o.makeStringOption arg) := by
  have format : o.data.firstFormat = o.firstFormat := rfl
  unfold OptionData.makeStringOption ToolOption.makeStringOption
  rw [format, firstOf_aliases]
  cases o.firstFormat with
  | none => rfl
  | some format => cases format <;> rfl

/-- **Processing an option takes an alias that is there.** -/
theorem process_data (host : Host) (arg : Str) (parsed : ParsedWorkItem) :
    o.data.process host arg parsed = .ok (o.process host arg parsed) := by
  have scan : ∀ option : Option Str, o.data.scanOption option = .ok (option.getD o.firstAlias) := by
    intro option
    cases option with
    | none => exact firstOf_aliases o
    | some option => rfl
  unfold OptionData.process ToolOption.process
  rw [show o.data.behaviour = o.behaviour from rfl]
  cases o.behaviour with
  | language argToLang => dsimp only; cases argToLang.lookup arg <;> rfl
  | scan data =>
    dsimp only
    rw [scan, scan, ok_bind, ok_bind]
    cases data.scanArgFormat <;> rfl
  | _ => rfl

end Options

/-! ### Preprocessing options -/

/-- An option for each of the arguments. -/
def stringOptions (option : Option ToolOption) (args : List Str) : Except UseFault (List Str) :=
  match option with
  | some option => collect option.data.makeStringOption args
  | none => .ok []

/-- `make_cmd_line` -/
def cmdLine (profile : ToolProfile) (parsed : ParsedWorkItem)
    (prepend append isystem includes : List Str) : Except UseFault (List Str) := do
  let sysIncludes ← stringOptions profile.sysIncPathOption isystem
  let preIncludes ← stringOptions profile.preIncludeOption includes
  return prepend ++ sysIncludes ++ preIncludes ++ parsed.ppOptions ++ append

/-- `ToolProfile::get_preprocessing_options` -/
def preprocessingOptions (profile : ToolProfile) (target : Str) (format : FileFormat)
    (parsed : ParsedWorkItem) : Except UseFault (List Str) := do
  let options ←
    if format = .cSource then
      cmdLine profile parsed profile.cPrependPreprocessingOptions
        profile.cAppendPreprocessingOptions profile.cSysIncPaths profile.cPreIncludes
    else
      cmdLine profile parsed profile.cxxPrependPreprocessingOptions
        profile.cxxAppendPreprocessingOptions profile.cxxSysIncPaths profile.cxxPreIncludes
  let preprocess ← stringOptions profile.preprocessOption [[]]
  let output ← stringOptions profile.outputOption [target]
  return options ++ preprocess ++ output

section Preprocessing

variable (profile : ToolProfile) (parsed : ParsedWorkItem)

theorem stringOptions_eq (option : Option ToolOption) (args : List Str) :
    stringOptions option args = .ok (match option with
      | some option => args.flatMap option.makeStringOption
      | none => []) := by
  cases option with
  | none => rfl
  | some option => exact collect_eq_ok fun arg _ => makeStringOption_data option arg

theorem cmdLine_eq (prepend append isystem includes : List Str) :
    cmdLine profile parsed prepend append isystem includes =
      .ok (Processor.makeCmdLine profile parsed prepend append isystem includes) := by
  unfold cmdLine
  rw [stringOptions_eq, stringOptions_eq]
  rfl

/-- **The preprocessing options are made without a fault.** -/
theorem preprocessingOptions_eq (target : Str) (format : FileFormat) :
    preprocessingOptions profile target format parsed =
      .ok (Processor.getPreprocessingOptions profile target format parsed) := by
  have single : ∀ (option : Option ToolOption) (arg : Str), stringOptions option [arg] =
      .ok (match option with
        | some option => option.makeStringOption arg
        | none => []) := by
    intro option arg
    rw [stringOptions_eq]
    cases option with
    | none => rfl
    | some option => simp
  unfold preprocessingOptions Processor.getPreprocessingOptions
  rw [cmdLine_eq, cmdLine_eq, single, single]
  by_cases isC : format = .cSource
  · rw [if_pos isC, if_pos isC]
    rfl
  · rw [if_neg isC, if_neg isC]
    rfl

end Preprocessing

/-! ### Loaded profiles -/

/-- An entry of the response file configuration, as the tracer reads it. -/
structure TracerEntry (entry : Json) : Prop where
  argument : required "argument".toList name entry
  argFormat : required "argFormat".toList (filled (array ArgFormatType)) entry

theorem mem_visit {α : Type} {step : Json → Except LoadError α} {elems : List Json}
    {values : List α} (visited : visit step elems = .ok values) {value : α}
    (member : value ∈ values) : ∃ elem ∈ elems, step elem = .ok value := by
  induction elems generalizing values with
  | nil =>
    cases visited
    cases member
  | cons elem rest ih =>
    obtain ⟨first, here, visited⟩ := bind_eq_ok visited
    obtain ⟨others, later, visited⟩ := bind_eq_ok visited
    cases visited
    rcases List.mem_cons.mp member with rfl | member
    · exact ⟨elem, List.mem_cons_self, here⟩
    · obtain ⟨other, inside, made⟩ := ih later member
      exact ⟨other, List.mem_cons_of_mem _ inside, made⟩

theorem responseConfig_entries {j : Json} {config : List Json} (base : AcceptedBase j)
    (made : responseConfig j = .ok config) : ∀ entry ∈ config, TracerEntry entry := by
  obtain ⟨value, found, ⟨elems, rfl, names⟩, -⟩ := base.aliases
  intro entry member
  unfold responseConfig at made
  rw [atKey_of_find found] at made
  have visited : visit _ elems = .ok config := made
  obtain ⟨elem, inside, step⟩ := mem_visit visited member
  obtain ⟨format, isFormat, step⟩ := bind_eq_ok step
  cases step
  cases there : j.find "argFormat".toList with
  | none =>
    have missing : j.count "argFormat".toList = false := by
      rw [Json.count, there]
      rfl
    obtain ⟨fault, failed⟩ := atKey_missing missing
    rw [failed] at isFormat
    cases isFormat
  | some formats =>
    rw [atKey_of_find there] at isFormat
    cases isFormat
    exact ⟨⟨elem, rfl, names elem inside⟩, ⟨format, rfl, base.argFormat format there⟩⟩

/-- What loading the options keeps of the JSON value and of the configuration. -/
structure OptionsKept (before after : ToolProfile) : Prop where
  profileJson : after.profileJson = before.profileJson
  entries : (∀ entry ∈ before.responseFileConfig, TracerEntry entry) →
    ∀ entry ∈ after.responseFileConfig, TracerEntry entry
  noLists : before.NoLists → after.NoLists

theorem addOption_kept {j : Json} {profile profile' : ToolProfile} {option : ToolOption}
    (base : AcceptedBase j) (added : addOption profile j option = .ok profile') :
    OptionsKept profile profile' := by
  unfold addOption at added
  cases behaviour : option.behaviour with
  | response =>
    rw [behaviour] at added
    obtain ⟨config, made, added⟩ := bind_eq_ok added
    cases added
    refine ⟨rfl, fun before entry member => ?_, fun absent => { absent with }⟩
    rcases List.mem_append.mp member with old | new
    · exact before entry old
    · exact responseConfig_entries base made entry new
  | _ =>
    rw [behaviour] at added
    cases added
    exact ⟨rfl, id, fun absent => { absent with }⟩

theorem loadOptions_entries {defaultPrefix : Option Str} {js : List Json}
    {profile profile' : ToolProfile} (accepted : ∀ j ∈ js, AcceptedOption j)
    (loaded : loadOptions defaultPrefix js profile = .ok profile') :
    OptionsKept profile profile' := by
  induction js generalizing profile with
  | nil =>
    cases loaded
    exact ⟨rfl, id, id⟩
  | cons j rest ih =>
    obtain ⟨here, later⟩ := List.forall_mem_cons.mp accepted
    obtain ⟨option, -, loaded⟩ := bind_eq_ok loaded
    obtain ⟨middle, added, loaded⟩ := bind_eq_ok loaded
    have first := addOption_kept here.1 added
    have second := ih later loaded
    exact ⟨second.profileJson.trans first.profileJson, second.entries ∘ first.entries,
      second.noLists ∘ first.noLists⟩

/-- **A loaded profile** has its JSON value, entries that the tracer can read, and no lists of
options yet. -/
theorem load_kept {validRegex : Str → Bool} {j : Json} {profile : ToolProfile}
    (loaded : ToolProfile.load validRegex j = .ok profile) :
    profile.profileJson = j ∧ (∀ entry ∈ profile.responseFileConfig, TracerEntry entry) ∧
      profile.NoLists := by
  have accepted := (judged_load validRegex j).passes_iff.mp ⟨profile, loaded⟩
  obtain ⟨value, found, ⟨elems, rfl, each⟩, -⟩ := accepted.front.options
  obtain ⟨aliases, -, loaded⟩ := bind_eq_ok loaded
  obtain ⟨cAliases, -, loaded⟩ := bind_eq_ok loaded
  obtain ⟨cxxAliases, -, loaded⟩ := bind_eq_ok loaded
  obtain ⟨kindName, -, loaded⟩ := bind_eq_ok loaded
  obtain ⟨kind, -, loaded⟩ := bind_eq_ok loaded
  obtain ⟨optionPrefix, -, loaded⟩ := bind_eq_ok loaded
  obtain ⟨options, validated, loaded⟩ := bind_eq_ok loaded
  obtain ⟨middle, optionsRead, loaded⟩ := bind_eq_ok loaded
  obtain ⟨sources, -, loaded⟩ := bind_eq_ok loaded
  obtain ⟨targets, -, loaded⟩ := bind_eq_ok loaded
  obtain ⟨substitutions, -, loaded⟩ := bind_eq_ok loaded
  obtain ⟨-, -, loaded⟩ := bind_eq_ok loaded
  obtain ⟨-, -, loaded⟩ := bind_eq_ok loaded
  cases loaded
  have same : options = .arr elems := by
    have found' := (validateKey_eq_ok.mp validated).1
    rw [found] at found'
    exact (Option.some.inj found').symm
  rw [same] at optionsRead
  have kept := loadOptions_entries each optionsRead
  have noLists := kept.noLists ⟨rfl, rfl, rfl, rfl, rfl, rfl, rfl, rfl, rfl, rfl⟩
  exact ⟨kept.profileJson, kept.entries (fun _ member => nomatch member), { noLists with }⟩

/-! ### Every use -/

/-- The profile after actions on its JSON value. -/
def ToolProfile.applyActions (profile : ToolProfile) (actions : List Json) :
    Except Json.Fault ToolProfile := do
  return { profile with profileJson := ← Profile.applyActions profile.profileJson actions }

/-- **Every use of the profile is safe.** -/
structure UsesSafe (complete : Str → Str) (profile : ToolProfile) : Prop where
  /-- The actionable lists are arrays of nonempty strings. -/
  configs : ∀ key ∈ actionableConfigs, optional key (array name) profile.profileJson
  /-- The next action can be applied. -/
  actions : ∀ action ∈ probeActions profile.profileJson,
    ∃ after, profile.applyActions [action] = .ok after
  /-- The lists of options can be loaded, and then command lines can be made. -/
  options : ∃ ready, profile.loadActionable complete = .ok ready ∧
    ∀ target format parsed, ∃ made, preprocessingOptions ready target format parsed = .ok made
  responses : ∀ entry ∈ profile.responseFileConfig, TracerEntry entry
  makeStringOption : ∀ option ∈ profile.options, ∀ arg,
    ∃ made, option.data.makeStringOption arg = .ok made
  process : ∀ option ∈ profile.options, ∀ host arg parsed,
    ∃ result, option.data.process host arg parsed = .ok result

/-- **After every sequence of its own actions, every use of a loaded profile is safe.** -/
theorem uses_safe {validRegex : Str → Bool} {j : Json} {profile : ToolProfile}
    (loaded : ToolProfile.load validRegex j = .ok profile) (complete : Str → Str)
    (actions : List Json) (own : ∀ action ∈ actions, action ∈ probeActions j) :
    ∃ after, profile.applyActions actions = .ok after ∧ UsesSafe complete after := by
  obtain ⟨isJson, entries, -⟩ := load_kept loaded
  obtain ⟨json, applied, -, checked, -⟩ := applyActions_own (actionable_of_load loaded) own
  refine ⟨{ profile with profileJson := json }, ?_, ?_⟩
  · unfold ToolProfile.applyActions
    rw [isJson, applied]
    rfl
  · constructor
    · exact checked.configs
    · intro action own
      have alone : ∀ other ∈ [action], other ∈ probeActions json :=
        fun other member => List.mem_singleton.mp member ▸ own
      obtain ⟨next, ok, -⟩ := applyActions_own checked alone
      refine ⟨{ profile with profileJson := next }, ?_⟩
      unfold ToolProfile.applyActions
      rw [ok]
      rfl
    · exact ⟨_, loadActionable_eq complete checked,
        fun target format parsed => ⟨_, preprocessingOptions_eq _ parsed target format⟩⟩
    · exact entries
    · exact fun option _ arg => ⟨_, makeStringOption_data option arg⟩
    · exact fun option _ host arg parsed => ⟨_, process_data option host arg parsed⟩

/-! ### A profile with a probe directive -/

/-- Puts `-m` in front of the preprocessing options. -/
def prependAction : Json :=
  .obj [("action".toList, .str "prepend".toList),
    ("config".toList, .str "cPrependPreprocessingOptions".toList),
    ("value".toList, .arr [.str "-m".toList])]

/-- A profile that has the action when the macro `M` is `1`. -/
def probedProfileJson : Json :=
  .obj [("cPrependPreprocessingOptions".toList, .arr [.str "-x".toList]),
    ("defaultCommandKind".toList, .str "compile".toList),
    ("options".toList, .arr [.obj [("aliases".toList, .arr [.str "-out".toList]),
      ("argFormat".toList, .arr [.str "space".toList]), ("type".toList, .str "output".toList)]]),
    ("probeCMacros".toList, .obj [("M".toList, .obj [("1".toList, .arr [prependAction])])])]

theorem probeActions_probed : probeActions probedProfileJson = [prependAction] := rfl

/-- The option that is loaded from it. -/
def spaceOutput : ToolOption where
  behaviour := .output
  defaultPrefix := none
  orderedAliases := ["-out".toList]
  hasAlias := List.cons_ne_nil _ _
  argFormat := [.space]

/-- The profile that is loaded from it. -/
def probedProfile : ToolProfile :=
  { ToolProfile.init probedProfileJson with options := [spaceOutput], outputOption := some spaceOutput }

theorem load_probedProfile (validRegex : Str → Bool) :
    ToolProfile.load validRegex probedProfileJson = .ok probedProfile := rfl

/-- After its action was applied twice the uses of the profile are safe. -/
theorem uses_safe_twice : ∃ after,
    probedProfile.applyActions [prependAction, prependAction] = .ok after ∧ UsesSafe id after := by
  have own : ∀ action ∈ [prependAction, prependAction], action ∈ probeActions probedProfileJson := by
    rw [probeActions_probed]
    simp
  exact uses_safe (load_probedProfile fun _ => true) id [prependAction, prependAction] own

end Xcalbuild.Profile
