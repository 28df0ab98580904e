/-
**`ToolProfile::apply_action` and `load_actionable`.**

The actions that a probe finds change the JSON value of a tool profile: the values of an action are put
in front of an actionable list of options. Then `load_actionable` reads the lists. Neither checks
what it reads; it was checked by `load`.

* `Actionable`: what `load` has checked, the actionable lists and the probe directives;
* `applyAction_own`: an action of the profile's own directives is applied to one list
  (`Applied`), and `Actionable` still holds;
* `applyActions_own`: a sequence of actions, the values of the last one in front;
* `loadActionable_eq`: every list of options is read from its own property.
-/
import Xcalbuild.Library.Collect
import Xcalbuild.Profile.Errors

namespace Xcalbuild.Profile

open Library Library.Shape

/-! ### Actions -/

/-- `ToolProfile::apply_action`, on the JSON value of the profile. -/
def applyAction (profileJson action : Json) : Except Json.Fault Json := do
  let config ← (← action.atKey "config".toList).getString
  let act ← (← action.atKey "action".toList).getString
  -- The only supported type for now.
  if act = "prepend".toList then
    let orig ← profileJson.atKey config
    let val ← action.atKey "value".toList
    return profileJson.replace config (← orig.insertFront val)
  else return profileJson

/-- Actions that are applied one after the other. -/
def applyActions (profileJson : Json) : List Json → Except Json.Fault Json
  | [] => .ok profileJson
  | action :: rest => do
      let profileJson ← applyAction profileJson action
      applyActions profileJson rest

/-- The actions of the profile's own probe directives. -/
def probeActions (profileJson : Json) : List Json :=
  ["probeCMacros".toList, "probeCxxMacros".toList].flatMap fun key =>
    ((profileJson.find key).getD .null).items.flatMap fun macroValues =>
      macroValues.2.items.flatMap fun actions => actions.2.range

/-- The strings of the list under a key. -/
def configured (j : Json) (key : Str) : List Str :=
  ((j.find key).getD .null).range.flatMap fun elem =>
    match elem with
    | .str text => [text]
    | _ => []

/-- The list that an action is for. -/
def actionConfig (action : Json) : Str :=
  match action.find "config".toList with
  | some (.str config) => config
  | _ => []

/-- The values that an action puts in front. -/
def actionValues (action : Json) : List Str := configured action "value".toList

/-! ### Loading the lists -/

/-- `fill_string_vec` -/
def fillStringVec (j : Json) (prop : Str) (vec : List Str) : Except Json.Fault (List Str) :=
  if j.count prop then do
    let elems ← j.atKey prop
    return vec ++ (← collect (fun elem => do return [← elem.getString]) elems.range)
  else .ok vec

/-- `fill_path_vec`. The paths are completed with the directory of the profile. -/
def fillPathVec (complete : Str → Str) (j : Json) (prop : Str) (vec : List Str) :
    Except Json.Fault (List Str) :=
  if j.count prop then do
    let elems ← j.atKey prop
    return vec ++ (← collect (fun elem => do return [complete (← elem.getString)]) elems.range)
  else .ok vec

/-- `ToolProfile::load_actionable` -/
def ToolProfile.loadActionable (complete : Str → Str) (profile : ToolProfile) :
    Except Json.Fault ToolProfile := do
  let j := profile.profileJson
  let cPrependPreprocessingOptions ← fillStringVec j "cPrependPreprocessingOptions".toList
    profile.cPrependPreprocessingOptions
  let cxxPrependPreprocessingOptions ← fillStringVec j "cxxPrependPreprocessingOptions".toList
    profile.cxxPrependPreprocessingOptions
  let cAppendPreprocessingOptions ← fillStringVec j "cAppendPreprocessingOptions".toList
    profile.cAppendPreprocessingOptions
  let cxxAppendPreprocessingOptions ← fillStringVec j "cxxAppendPreprocessingOptions".toList
    profile.cxxAppendPreprocessingOptions
  let cPrependScanOptions ← fillStringVec j "cPrependScanOptions".toList
    profile.cPrependScanOptions
  let cxxPrependScanOptions ← fillStringVec j "cxxPrependScanOptions".toList
    profile.cxxPrependScanOptions
  let cPreIncludes ← fillPathVec complete j "cPreIncludes".toList profile.cPreIncludes
  let cSysIncPaths ← fillPathVec complete j "cSystemIncludePaths".toList profile.cSysIncPaths
  let cxxPreIncludes ← fillPathVec complete j "cxxPreIncludes".toList profile.cxxPreIncludes
  let cxxSysIncPaths ← fillPathVec complete j "cxxSystemIncludePaths".toList profile.cxxSysIncPaths
  return { profile with cPrependPreprocessingOptions, cxxPrependPreprocessingOptions,
                        cAppendPreprocessingOptions, cxxAppendPreprocessingOptions,
                        cPrependScanOptions, cxxPrependScanOptions, cPreIncludes, cSysIncPaths,
                        cxxPreIncludes, cxxSysIncPaths }

/-- The profile with the lists of options that its JSON value has. -/
def ToolProfile.filled (complete : Str → Str) (profile : ToolProfile) : ToolProfile :=
  let config (key : String) := configured profile.profileJson key.toList
  { profile with
    cPrependPreprocessingOptions :=
      profile.cPrependPreprocessingOptions ++ config "cPrependPreprocessingOptions"
    cxxPrependPreprocessingOptions :=
      profile.cxxPrependPreprocessingOptions ++ config "cxxPrependPreprocessingOptions"
    cAppendPreprocessingOptions :=
      profile.cAppendPreprocessingOptions ++ config "cAppendPreprocessingOptions"
    cxxAppendPreprocessingOptions :=
      profile.cxxAppendPreprocessingOptions ++ config "cxxAppendPreprocessingOptions"
    cPrependScanOptions := profile.cPrependScanOptions ++ config "cPrependScanOptions"
    cxxPrependScanOptions := profile.cxxPrependScanOptions ++ config "cxxPrependScanOptions"
    cPreIncludes := profile.cPreIncludes ++ (config "cPreIncludes").map complete
    cSysIncPaths := profile.cSysIncPaths ++ (config "cSystemIncludePaths").map complete
    cxxPreIncludes := profile.cxxPreIncludes ++ (config "cxxPreIncludes").map complete
    cxxSysIncPaths := profile.cxxSysIncPaths ++ (config "cxxSystemIncludePaths").map complete }

/-- The lists of options are read from the JSON value alone. -/
def ToolProfile.readLists (complete : Str → Str) (profile : ToolProfile) : ToolProfile :=
  let config (key : String) := configured profile.profileJson key.toList
  { profile with
    cPrependPreprocessingOptions := config "cPrependPreprocessingOptions"
    cxxPrependPreprocessingOptions := config "cxxPrependPreprocessingOptions"
    cAppendPreprocessingOptions := config "cAppendPreprocessingOptions"
    cxxAppendPreprocessingOptions := config "cxxAppendPreprocessingOptions"
    cPrependScanOptions := config "cPrependScanOptions"
    cxxPrependScanOptions := config "cxxPrependScanOptions"
    cPreIncludes := (config "cPreIncludes").map complete
    cSysIncPaths := (config "cSystemIncludePaths").map complete
    cxxPreIncludes := (config "cxxPreIncludes").map complete
    cxxSysIncPaths := (config "cxxSystemIncludePaths").map complete }

/-- No list of options has been read yet. -/
structure ToolProfile.NoLists (profile : ToolProfile) : Prop where
  cPrependPreprocessingOptions : profile.cPrependPreprocessingOptions = []
  cxxPrependPreprocessingOptions : profile.cxxPrependPreprocessingOptions = []
  cAppendPreprocessingOptions : profile.cAppendPreprocessingOptions = []
  cxxAppendPreprocessingOptions : profile.cxxAppendPreprocessingOptions = []
  cPrependScanOptions : profile.cPrependScanOptions = []
  cxxPrependScanOptions : profile.cxxPrependScanOptions = []
  cPreIncludes : profile.cPreIncludes = []
  cSysIncPaths : profile.cSysIncPaths = []
  cxxPreIncludes : profile.cxxPreIncludes = []
  cxxSysIncPaths : profile.cxxSysIncPaths = []

/-- The first time, the lists are those of the JSON value. -/
theorem filled_eq_readLists (complete : Str → Str) {profile : ToolProfile}
    (noLists : profile.NoLists) : profile.filled complete = profile.readLists complete := by
  unfold ToolProfile.filled ToolProfile.readLists
  rw [noLists.cPrependPreprocessingOptions, noLists.cxxPrependPreprocessingOptions,
    noLists.cAppendPreprocessingOptions, noLists.cxxAppendPreprocessingOptions,
    noLists.cPrependScanOptions, noLists.cxxPrependScanOptions, noLists.cPreIncludes,
    noLists.cSysIncPaths, noLists.cxxPreIncludes, noLists.cxxSysIncPaths]
  rfl

/-! ### What was checked -/

/-- **What `load` has checked** of the actionable lists and of the probe directives. -/
structure Actionable (j : Json) : Prop where
  configs : ∀ key ∈ actionableConfigs, optional key (array name) j
  probes : ∀ key ∈ ["probeCMacros".toList, "probeCxxMacros".toList],
    optional key (AcceptedProbe j) j

theorem actionable_of_load {validRegex : Str → Bool} {j : Json} {profile : ToolProfile}
    (loaded : ToolProfile.load validRegex j = .ok profile) : Actionable j := by
  have accepted := (judged_load validRegex j).passes_iff.mp ⟨profile, loaded⟩
  exact ⟨accepted.actionable, accepted.probes⟩

section Lists

variable {j : Json} {key : Str}

/-- The strings of an array of strings. -/
theorem range_of_names {value : Json} (names : array name value) :
    ∃ texts : List Str, value = .arr (texts.map .str) ∧ ∀ text ∈ texts, text ≠ [] := by
  obtain ⟨elems, rfl, every⟩ := names
  induction elems with
  | nil => exact ⟨[], rfl, fun _ member => nomatch member⟩
  | cons elem rest ih =>
    obtain ⟨⟨text, nonempty, rfl⟩, later⟩ := List.forall_mem_cons.mp every
    obtain ⟨texts, same, nonemptyTexts⟩ := ih later
    cases same
    exact ⟨text :: texts, rfl, List.forall_mem_cons.mpr ⟨nonempty, nonemptyTexts⟩⟩

theorem flatMap_strings (texts : List Str) :
    ((texts.map Json.str).flatMap fun elem =>
      match elem with
      | .str text => [text]
      | _ => []) = texts := by
  induction texts with
  | nil => rfl
  | cons text rest ih => rw [List.map_cons, List.flatMap_cons, ih]; rfl

/-- A list that is there is read as its strings. -/
theorem configured_of_find {texts : List Str} (found : j.find key = some (.arr (texts.map .str))) :
    configured j key = texts := by
  unfold configured
  rw [found]
  exact flatMap_strings texts

theorem configured_of_missing (missing : j.find key = none) : configured j key = [] := by
  unfold configured
  rw [missing]
  rfl

/-- A checked list is there as an array of its strings, or it is not there. -/
theorem find_configured (checked : optional key (array name) j) :
    j.find key = none ∨ j.find key = some (.arr ((configured j key).map .str)) := by
  cases found : j.find key with
  | none => exact Or.inl rfl
  | some value =>
    obtain ⟨texts, rfl, -⟩ := range_of_names (checked value found)
    rw [configured_of_find found]
    exact Or.inr rfl

end Lists

/-! ### One action -/

section Apply

variable {j : Json} {action : Json}

/-- **An action has been applied**: its values are in front of its list, and nothing else is
different. -/
structure Applied (action before after : Json) : Prop where
  here : configured after (actionConfig action) =
    actionValues action ++ configured before (actionConfig action)
  others : ∀ key, key ≠ actionConfig action → after.find key = before.find key
  present : ∀ key, after.count key = before.count key

/-- The lists are among the properties that no directive is kept under. -/
theorem probe_not_config {key : Str} (probe : key ∈ ["probeCMacros".toList, "probeCxxMacros".toList]) :
    key ∉ actionableConfigs := by
  rcases List.mem_cons.mp probe with rfl | probe
  · decide
  · rw [List.mem_singleton.mp probe]
    decide

/-- What a checked action says. -/
theorem AcceptedAction.parts (accepted : AcceptedAction j action) :
    action.find "config".toList = some (.str (actionConfig action)) ∧
      actionConfig action ∈ actionableConfigs ∧ j.count (actionConfig action) = true ∧
      action.find "action".toList = some (.str "prepend".toList) ∧
      action.find "value".toList = some (.arr ((actionValues action).map .str)) ∧
      ∀ text ∈ actionValues action, text ≠ [] := by
  obtain ⟨_, found, config, known, rfl, present⟩ := accepted.config
  obtain ⟨_, isAction, act, isPrepend, rfl⟩ := accepted.action
  obtain ⟨value, isValue, names, -⟩ := accepted.value
  obtain ⟨texts, rfl, nonempty⟩ := range_of_names names
  have same : actionConfig action = config := by
    unfold actionConfig
    rw [found]
  have values : actionValues action = texts := configured_of_find isValue
  rw [same, values]
  exact ⟨found, known, present, List.mem_singleton.mp isPrepend ▸ isAction, isValue, nonempty⟩

/-- An action of the profile's own directives was checked. -/
theorem accepted_of_own (checked : Actionable j) (own : action ∈ probeActions j) :
    AcceptedAction j action := by
  obtain ⟨key, probe, inside⟩ := List.mem_flatMap.mp own
  cases found : j.find key with
  | none =>
    rw [found] at inside
    cases inside
  | some macros =>
    rw [found] at inside
    obtain ⟨⟨members, rfl, everyMacro⟩, -⟩ := checked.probes key probe macros found
    obtain ⟨macroValues, isMacro, inside⟩ := List.mem_flatMap.mp inside
    obtain ⟨⟨values, same, everyValue⟩, -⟩ := (everyMacro macroValues isMacro).2
    rw [same] at inside
    obtain ⟨actions, isValue, inside⟩ := List.mem_flatMap.mp inside
    obtain ⟨⟨elems, same', everyAction⟩, -⟩ := (everyValue actions isValue).2
    rw [same'] at inside
    exact everyAction action inside

/-- An action is still checked when the same properties are there. -/
theorem AcceptedAction.mono {j' : Json} (present : ∀ key, j'.count key = j.count key)
    (accepted : AcceptedAction j action) : AcceptedAction j' action where
  object := accepted.object
  config := by
    refine required_mono (fun value known => ?_) accepted.config
    obtain ⟨config, named, same, there⟩ := known
    exact ⟨config, named, same, (present config).trans there⟩
  action := accepted.action
  value := accepted.value

theorem acceptedProbe_mono {j' macros : Json} (present : ∀ key, j'.count key = j.count key)
    (accepted : AcceptedProbe j macros) : AcceptedProbe j' macros := by
  refine ⟨map_mono (fun _ => id) (fun values accepted => ?_) accepted.1, accepted.2⟩
  refine ⟨map_mono (fun _ => id) (fun actions accepted => ?_) accepted.1, accepted.2⟩
  exact ⟨array_mono (fun action accepted => accepted.mono present) accepted.1, accepted.2⟩

/-- The properties of the directives are not changed. -/
theorem Applied.find_probe {after : Json} (applied : Applied action j after)
    (known : actionConfig action ∈ actionableConfigs) {key : Str}
    (probe : key ∈ ["probeCMacros".toList, "probeCxxMacros".toList]) : after.find key = j.find key := by
  refine applied.others key ?_
  rintro rfl
  exact probe_not_config probe known

theorem Applied.probeActions_eq {after : Json} (applied : Applied action j after)
    (known : actionConfig action ∈ actionableConfigs) : probeActions after = probeActions j := by
  unfold probeActions
  refine List.flatMap_congr fun key probe => ?_
  rw [applied.find_probe known probe]

/-- **Everything is still as it was checked**, if the list is a list of names. -/
theorem Applied.actionable {after : Json} (applied : Applied action j after) (checked : Actionable j)
    (known : actionConfig action ∈ actionableConfigs) {texts : List Str}
    (isList : after.find (actionConfig action) = some (.arr (texts.map .str)))
    (names : ∀ text ∈ texts, text ≠ []) : Actionable after := by
  refine ⟨fun key isKey value isFound => ?_, fun key probe macros isFound => ?_⟩
  · by_cases same : key = actionConfig action
    · rw [same, isList] at isFound
      cases isFound
      refine ⟨_, rfl, fun elem member => ?_⟩
      obtain ⟨text, inside, rfl⟩ := List.mem_map.mp member
      exact ⟨text, names text inside, rfl⟩
    · rw [applied.others key same] at isFound
      exact checked.configs key isKey value isFound
  · rw [applied.find_probe known probe] at isFound
    exact acceptedProbe_mono applied.present (checked.probes key probe macros isFound)

/-- An action of the profile's own directives is applied to its list. -/
theorem applyAction_applied (checked : Actionable j) (accepted : AcceptedAction j action) :
    ∃ after, applyAction j action = .ok after ∧ Applied action j after ∧
      after.find (actionConfig action) =
        some (.arr ((actionValues action ++ configured j (actionConfig action)).map .str)) ∧
      ∀ text ∈ actionValues action ++ configured j (actionConfig action), text ≠ [] := by
  obtain ⟨isConfig, known, present, isAction, isValue, nonempty⟩ := accepted.parts
  have list := checked.configs _ known
  rcases find_configured list with missing | found
  · rw [Json.count, missing] at present
    cases present
  · have inserted : Json.insertFront (.arr ((configured j (actionConfig action)).map .str))
        (.arr ((actionValues action).map .str)) =
          .ok (.arr ((actionValues action ++ configured j (actionConfig action)).map .str)) := by
      rw [List.map_append]
      rfl
    have isList : (j.replace (actionConfig action) (.arr ((actionValues action ++
        configured j (actionConfig action)).map .str))).find (actionConfig action) =
          some (.arr ((actionValues action ++ configured j (actionConfig action)).map .str)) := by
      rw [Json.find_replace present, if_pos rfl]
    refine ⟨_, ?_, ⟨configured_of_find isList, ?_, ?_⟩, isList, fun text member => ?_⟩
    · unfold applyAction
      simp only [atKey_of_find isConfig, atKey_of_find isAction, atKey_of_find isValue,
        atKey_of_find found, Json.getString, ok_bind, if_true, inserted]
      rfl
    · intro key different
      rw [Json.find_replace present, if_neg different]
    · exact fun key => Json.count_replace present key _
    · rcases List.mem_append.mp member with new | old
      · exact nonempty text new
      · obtain ⟨texts, same, nonemptyTexts⟩ := range_of_names (list _ found)
        have sameTexts : configured j (actionConfig action) = texts :=
          configured_of_find (found.trans (congrArg some same))
        exact nonemptyTexts text (sameTexts ▸ old)

/-- **An action of the profile's own directives is applied**, and everything is still as it was
checked. -/
theorem applyAction_own (checked : Actionable j) (accepted : AcceptedAction j action) :
    ∃ after, applyAction j action = .ok after ∧ Applied action j after ∧ Actionable after ∧
      probeActions after = probeActions j := by
  obtain ⟨after, ran, applied, isList, names⟩ := applyAction_applied checked accepted
  have known := accepted.parts.2.1
  exact ⟨after, ran, applied, applied.actionable checked known isList names,
    applied.probeActions_eq known⟩

theorem applyActions_append (first second : List Json) (j : Json) :
    applyActions j (first ++ second) = applyActions j first >>= fun j => applyActions j second := by
  induction first generalizing j with
  | nil => rfl
  | cons action rest ih =>
    rw [List.cons_append, applyActions, applyActions]
    cases applyAction j action with
    | error fault => rfl
    | ok middle => exact ih middle

/-- The values that a list gets from actions: those of the last action first. -/
def prepended (key : Str) (actions : List Json) : List Str :=
  (actions.reverse.filter fun action => actionConfig action = key).flatMap actionValues

theorem prepended_cons (key : Str) (action : Json) (rest : List Json) :
    prepended key (action :: rest) =
      prepended key rest ++ if actionConfig action = key then actionValues action else [] := by
  unfold prepended
  rw [List.reverse_cons, List.filter_append, List.flatMap_append]
  by_cases same : actionConfig action = key
  · simp [same]
  · simp [same]

/-- **A sequence of actions has been applied.** -/
structure AppliedAll (actions : List Json) (before after : Json) : Prop where
  configs : ∀ key, configured after key = prepended key actions ++ configured before key
  others : ∀ key, (∀ action ∈ actions, actionConfig action ≠ key) →
    after.find key = before.find key
  present : ∀ key, after.count key = before.count key

theorem AppliedAll.refl (j : Json) : AppliedAll [] j j :=
  ⟨fun _ => rfl, fun _ _ => rfl, fun _ => rfl⟩

/-- **Every sequence of actions of the profile's own directives is applied.** -/
theorem applyActions_own {actions : List Json} (checked : Actionable j)
    (own : ∀ action ∈ actions, action ∈ probeActions j) :
    ∃ after, applyActions j actions = .ok after ∧ AppliedAll actions j after ∧ Actionable after ∧
      probeActions after = probeActions j := by
  induction actions generalizing j with
  | nil => exact ⟨j, rfl, .refl j, checked, rfl⟩
  | cons action rest ih =>
    obtain ⟨here, later⟩ := List.forall_mem_cons.mp own
    obtain ⟨middle, ok, applied, kept, same⟩ :=
      applyAction_own checked (accepted_of_own checked here)
    obtain ⟨after, oks, appliedAll, kept, same'⟩ := ih kept (by rw [same]; exact later)
    refine ⟨after, ?_, ?_, kept, same'.trans same⟩
    · rw [applyActions, ok]
      exact oks
    · constructor
      · intro key
        rw [appliedAll.configs, prepended_cons]
        by_cases isKey : actionConfig action = key
        · rw [if_pos isKey, List.append_assoc, ← isKey, applied.here]
        · have unchanged : configured middle key = configured j key := by
            unfold configured
            rw [applied.others key (Ne.symm isKey)]
          rw [if_neg isKey, List.append_nil, unchanged]
      · intro key absent
        obtain ⟨notHere, notLater⟩ := List.forall_mem_cons.mp absent
        rw [appliedAll.others key notLater, applied.others key (Ne.symm notHere)]
      · exact fun key => (appliedAll.present key).trans (applied.present key)

end Apply

/-! ### Reading the lists -/

section Fill

variable {j : Json} {key : Str}

/-- A checked list of strings is read string by string. -/
theorem collect_strings {β : Type} (read : Str → List β) (texts : List Str) :
    collect (fun elem => do return read (← elem.getString)) (texts.map Json.str) =
      .ok (texts.flatMap read) := by
  rw [collect_map]
  exact collect_eq_ok fun _ _ => rfl

theorem fillStringVec_eq (checked : optional key (array name) j) (vec : List Str) :
    fillStringVec j key vec = .ok (vec ++ configured j key) := by
  unfold fillStringVec Json.count
  rcases find_configured checked with missing | found
  · rw [missing, configured_of_missing missing, List.append_nil]
    rfl
  · rw [found, Option.isSome_some, if_pos rfl, atKey_of_find found, ok_bind]
    show collect _ ((configured j key).map Json.str) >>= _ = _
    rw [collect_strings (fun text => [text]), List.flatMap_singleton']
    rfl

theorem fillPathVec_eq (complete : Str → Str) (checked : optional key (array name) j)
    (vec : List Str) :
    fillPathVec complete j key vec = .ok (vec ++ (configured j key).map complete) := by
  unfold fillPathVec Json.count
  rcases find_configured checked with missing | found
  · rw [missing, configured_of_missing missing, List.map_nil, List.append_nil]
    rfl
  · rw [found, Option.isSome_some, if_pos rfl, atKey_of_find found, ok_bind]
    show collect _ ((configured j key).map Json.str) >>= _ = _
    rw [collect_strings (fun text => [complete text]), ← List.map_eq_flatMap]
    rfl

end Fill

/-- **Every list of options is read from its own property.** -/
theorem loadActionable_eq (complete : Str → Str) {profile : ToolProfile}
    (checked : Actionable profile.profileJson) :
    profile.loadActionable complete = .ok (profile.filled complete) := by
  have strings : ∀ (key : String) (vec : List Str), key.toList ∈ actionableConfigs →
      fillStringVec profile.profileJson key.toList vec =
        .ok (vec ++ configured profile.profileJson key.toList) :=
    fun key vec known => fillStringVec_eq (checked.configs _ known) vec
  have paths : ∀ (key : String) (vec : List Str), key.toList ∈ actionableConfigs →
      fillPathVec complete profile.profileJson key.toList vec =
        .ok (vec ++ (configured profile.profileJson key.toList).map complete) :=
    fun key vec known => fillPathVec_eq complete (checked.configs _ known) vec
  unfold ToolProfile.loadActionable
  dsimp only
  rw [strings _ _ (by decide), strings _ _ (by decide), strings _ _ (by decide),
    strings _ _ (by decide), strings _ _ (by decide), strings _ _ (by decide),
    paths _ _ (by decide), paths _ _ (by decide), paths _ _ (by decide), paths _ _ (by decide)]
  rfl

end Xcalbuild.Profile
