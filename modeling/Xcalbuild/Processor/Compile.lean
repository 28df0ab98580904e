/-
**`WorkItemProcessor::handle_compile`.**

A compile item is split into one preprocessor run per source. The loop over the sources works on
the parsed item itself (`CompileState.parsed`): a source clears the scan options of the other
language. A source that is gone is skipped, and a run that fails ends the whole function.

What the program asks of the machine is in `Machine`, by the position of the source in the item.

* `sourceStep_next`, `sourceStep_stop`: what one pass of the loop can do;
* `SourceInv`: what the variables of the loop hold after the sources so far;
* `sourceLoop_cases`: the loop gets through all sources, or to the first one that fails.
-/
import Xcalbuild.Library.Loop
import Xcalbuild.Processor.Link
import Xcalbuild.Profile.Parse

namespace Xcalbuild.Processor

open Library
open Build (CCResult LDResult ResultFile)
open Profile (FileFormat Host ParsedWorkItem TextSubstitution ToolProfile)

/-- A source of a parsed item, and its position. -/
abbrev Source := (Str × FileFormat) × Nat

namespace Source

def file (source : Source) : Str := source.1.1

def format (source : Source) : FileFormat := source.1.2

def position (source : Source) : Nat := source.2

end Source

/-- A child process. -/
structure Command where
  binary : Str
  args : List Str
  startDir : Path
  deriving DecidableEq

/-- The machine, as `handle_compile` sees it. -/
structure Machine where
  host : Host
  /-- `get_full_path_str(binary, dir, /*search*/true)` -/
  searchBinary : Str → Str → Str
  /-- `get_temp_path(&output_dir)` in place of a missing target. -/
  tempTarget : Path
  /-- `get_temp_path(&output_dir)` for a source. -/
  tempPath : Nat → Path
  /-- `fs::system_complete(fs::unique_path())` for a source. Two calls give two paths. -/
  uniquePath : Nat → Path
  uniquePath_injective : Function.Injective uniquePath
  /-- `fs::exists` -/
  present : Nat → Bool
  /-- The exit code of the preprocessor, 1 if it could not be started. -/
  exitCode : Nat → Int
  /-- What the preprocessor wrote. -/
  ppOutput : Nat → Str
  isDirectory : Path → Bool
  /-- `boost::replace_all_copy` and `boost::regex_replace` -/
  substitute : TextSubstitution → Str → Str
  sha1 : Str → Str

/-! ### Preprocessing options -/

/-- The options between the two ends of the command line. -/
def makeCmdLine (profile : ToolProfile) (parsed : ParsedWorkItem)
    (prepend append isystem includes : List Str) : List Str :=
  prepend ++
    (match profile.sysIncPathOption with
      | some option => isystem.flatMap option.makeStringOption
      | none => []) ++
    (match profile.preIncludeOption with
      | some option => includes.flatMap option.makeStringOption
      | none => []) ++
    parsed.ppOptions ++ append

/-- `ToolProfile::get_preprocessing_options`. The item is constant there, so its options are copied
whether or not there is a single source. -/
def getPreprocessingOptions (profile : ToolProfile) (target : Str) (format : FileFormat)
    (parsed : ParsedWorkItem) : List Str :=
  (if format = .cSource then
    makeCmdLine profile parsed profile.cPrependPreprocessingOptions
      profile.cAppendPreprocessingOptions profile.cSysIncPaths profile.cPreIncludes
  else
    makeCmdLine profile parsed profile.cxxPrependPreprocessingOptions
      profile.cxxAppendPreprocessingOptions profile.cxxSysIncPaths profile.cxxPreIncludes) ++
  (match profile.preprocessOption with
    | some option => option.makeStringOption []
    | none => []) ++
  (match profile.outputOption with
    | some option => option.makeStringOption target
    | none => [])

/-! ### Preprocessor output -/

/-- The file that a line marker starts: `# linenum "filename" flags`, with `1` as the last flag. -/
def startedFile (line : Str) : Option Str :=
  if line.head? = some '#' ∧ line.getLast? = some '1' then
    match split (· = '"') line with
    | [_, name, _] => if name.head? = some '<' then none else some name
    | _ => none
  else none

/-- The files for `source_files.json`. -/
def depsOf (host : Host) (dir : Str) (text : Str) : OrderedSet Str :=
  .ofList ((lines text).filterMap fun line =>
    (startedFile line).map fun name => host.getFullPathStr name dir)

/-- `ToolProfile::process_source_code` -/
def processSourceCode (profile : ToolProfile) (substitute : TextSubstitution → Str → Str)
    (text : Str) : Str :=
  profile.textSubstitutions.foldl (fun text sub => substitute sub text) text

/-! ### One source -/

/-- The variables of the loop over the sources, and what it did so far. -/
structure CompileState where
  parsed : ParsedWorkItem
  pseudoLinkSources : List (Str × FileFormat)
  ccResults : List CCResult
  commands : List Command
  written : List (Path × Str)
  removed : List Path

/-- The extension of the preprocessed file. -/
def ppExtension : FileFormat → Str
  | .cSource => ".i".toList
  | .cxxSource => ".ii".toList
  | _ => []

/-- The temporary path of a source. -/
def sourceTemp (machine : Machine) (source : Source) : Path :=
  match source.format with
  | .cSource | .cxxSource =>
      Path.replaceExtension (machine.tempPath source.position) (ppExtension source.format)
  | _ => machine.tempPath source.position

/-- A source clears the scan options of the other language. -/
def clearScanOptions (format : FileFormat) (parsed : ParsedWorkItem) : ParsedWorkItem :=
  match format with
  | .cSource => { parsed with cxxScanOptions := [] }
  | .cxxSource => { parsed with cScanOptions := [] }
  | _ => parsed

/-- The preprocessor run of a source. -/
def sourceCommand (profile : ToolProfile) (machine : Machine) (source : Source)
    (parsed : ParsedWorkItem) : Command where
  binary := machine.searchBinary parsed.binary parsed.dir
  args := getPreprocessingOptions profile (sourceTemp machine source) source.format parsed ++
    [source.file]
  startDir := parsed.dir

/-- The object file of a source in a target directory. -/
def objectIn (target : Path) (file : Str) : Path :=
  Path.append target (Path.replaceExtension (Path.filename file) ".o".toList)

/-- The target of a compile result. -/
def sourceTarget (machine : Machine) (multiSources : Bool) (source : Source)
    (parsed : ParsedWorkItem) : Str :=
  if machine.isDirectory parsed.target then objectIn parsed.target source.file
  else if multiSources then machine.uniquePath source.position
  else parsed.target

/-- The preprocessed code, with the substitutions of the profile. -/
def replacedCode (profile : ToolProfile) (machine : Machine) (source : Source) : Str :=
  processSourceCode profile machine.substitute (machine.ppOutput source.position)

/-- The compile result of a source. -/
def ccResult (profile : ToolProfile) (machine : Machine) (multiSources : Bool) (source : Source)
    (parsed : ParsedWorkItem) : CCResult where
  file := ⟨sourceTemp machine source, machine.sha1 (replacedCode profile machine source)⟩
  target := sourceTarget machine multiSources source parsed
  source := source.file
  format := source.format
  ppFileName := Path.filename source.file ++ ppExtension source.format
  cScanOptions := parsed.cScanOptions
  cxxScanOptions := parsed.cxxScanOptions
  deps := depsOf machine.host parsed.dir (machine.ppOutput source.position)

/-- The target that the pseudo link result of the item gets for a source. -/
def pseudoSource (machine : Machine) (multiSources : Bool) (source : Source)
    (parsed : ParsedWorkItem) : List (Str × FileFormat) :=
  if multiSources ∧ machine.isDirectory parsed.target = false then
    [(machine.uniquePath source.position, .object)]
  else []

/-- The body of the loop. It leaves the whole function when the preprocessor fails. -/
def sourceStep (profile : ToolProfile) (machine : Machine) (multiSources : Bool)
    (source : Source) (state : CompileState) : Pass CompileState Empty :=
  if machine.present source.position = false then .next state
  else
    let parsed := clearScanOptions source.format state.parsed
    let state := { state with
      parsed
      commands := state.commands ++ [sourceCommand profile machine source parsed] }
    if machine.exitCode source.position ≠ 0 then
      .leave { state with removed := state.removed ++ [sourceTemp machine source] }
    else
      .next { state with
        written := state.written ++
          [(sourceTemp machine source, replacedCode profile machine source)]
        pseudoLinkSources := state.pseudoLinkSources ++
          pseudoSource machine multiSources source parsed
        ccResults := state.ccResults ++ [ccResult profile machine multiSources source parsed] }

/-! ### The whole item -/

/-- What `handle_compile` leaves behind it. -/
structure CompileOutcome where
  ccResults : List CCResult
  ldResults : List LDResult
  commands : List Command
  written : List (Path × Str)
  removed : List Path

/-- The item, with a target made up if it has none. -/
def withTarget (machine : Machine) (parsed : ParsedWorkItem) : ParsedWorkItem :=
  if parsed.target = [] then { parsed with target := machine.tempTarget } else parsed

def multiSources (parsed : ParsedWorkItem) : Bool := decide (1 < parsed.sources.length)

/-- The loop over the sources. -/
def sourceLoop (profile : ToolProfile) (machine : Machine) (parsed : ParsedWorkItem) :
    Pass CompileState Empty :=
  forEach (sourceStep profile machine (multiSources parsed)) parsed.sources.zipIdx
    ⟨withTarget machine parsed, [], [], [], [], []⟩

/-- The pseudo link item that bridges the target of the command and its sources. -/
def pseudoLink (target : Str) (sources : List (Str × FileFormat)) : ParsedWorkItem :=
  { ParsedWorkItem.init with kind := .link, target, sources }

/-- The outcome, given the link results that were appended. -/
def CompileState.outcome (state : CompileState) (ldResults : List LDResult) : CompileOutcome where
  ccResults := state.ccResults
  ldResults := ldResults
  commands := state.commands
  written := state.written
  removed := state.removed

/-- `WorkItemProcessor::handle_compile` -/
def handleCompile (linkerKey : List Str) (profile : ToolProfile) (machine : Machine)
    (parsed : ParsedWorkItem) : CompileOutcome :=
  match sourceLoop profile machine parsed with
  | .next state =>
      state.outcome (if multiSources parsed then
        (handleLink linkerKey (pseudoLink state.parsed.target state.pseudoLinkSources)).toList
      else [])
  | .leave state => state.outcome []
  | .fault error => nomatch error

/-! ### One pass -/

section Pass

variable {profile : ToolProfile} {machine : Machine} {multi : Bool}

@[simp] theorem clearScanOptions_target (format : FileFormat) (parsed : ParsedWorkItem) :
    (clearScanOptions format parsed).target = parsed.target := by
  cases format <;> rfl

/-- Clearing scan options does not show on the command line. -/
@[simp] theorem sourceCommand_clear (source : Source) (format : FileFormat)
    (parsed : ParsedWorkItem) :
    sourceCommand profile machine source (clearScanOptions format parsed) =
      sourceCommand profile machine source parsed := by
  cases format <;> rfl

/-- The variables after a source has been handled. -/
def CompileState.handled (profile : ToolProfile) (machine : Machine) (multi : Bool)
    (source : Source) (state : CompileState) : CompileState where
  parsed := clearScanOptions source.format state.parsed
  pseudoLinkSources :=
    state.pseudoLinkSources ++ pseudoSource machine multi source state.parsed
  ccResults := state.ccResults ++
    [ccResult profile machine multi source (clearScanOptions source.format state.parsed)]
  commands := state.commands ++ [sourceCommand profile machine source state.parsed]
  written := state.written ++ [(sourceTemp machine source, replacedCode profile machine source)]
  removed := state.removed

/-- The variables after the preprocessor has failed on a source. -/
def CompileState.failed (profile : ToolProfile) (machine : Machine) (source : Source)
    (state : CompileState) : CompileState where
  parsed := clearScanOptions source.format state.parsed
  pseudoLinkSources := state.pseudoLinkSources
  ccResults := state.ccResults
  commands := state.commands ++ [sourceCommand profile machine source state.parsed]
  written := state.written
  removed := state.removed ++ [sourceTemp machine source]

theorem sourceStep_eq (source : Source) (state : CompileState) :
    sourceStep profile machine multi source state =
      if machine.present source.position = false then .next state
      else if machine.exitCode source.position ≠ 0 then .leave (state.failed profile machine source)
      else .next (state.handled profile machine multi source) := by
  unfold sourceStep CompileState.failed CompileState.handled pseudoSource
  simp only [sourceCommand_clear, clearScanOptions_target]

/-- A pass that goes on skips a source that is gone, or handles one on which the preprocessor
succeeds. -/
theorem sourceStep_next {source : Source} {state state' : CompileState}
    (step : sourceStep profile machine multi source state = .next state') :
    (machine.present source.position = false ∧ state' = state) ∨
      (machine.present source.position = true ∧ machine.exitCode source.position = 0 ∧
        state' = state.handled profile machine multi source) := by
  rw [sourceStep_eq] at step
  split_ifs at step with gone fails
  · cases step
    exact Or.inl ⟨gone, rfl⟩
  · cases step
    exact Or.inr ⟨(Bool.not_eq_false _).mp gone, not_not.mp fails, rfl⟩

/-- A pass that does not go on is at a source on which the preprocessor fails. -/
theorem sourceStep_stop {source : Source} {state : CompileState}
    (stops : ∀ next, sourceStep profile machine multi source state ≠ .next next) :
    machine.present source.position = true ∧ machine.exitCode source.position ≠ 0 ∧
      sourceStep profile machine multi source state =
        .leave (state.failed profile machine source) := by
  rw [sourceStep_eq] at stops ⊢
  split_ifs at stops ⊢ with gone fails
  · exact absurd rfl (stops _)
  · exact ⟨(Bool.not_eq_false _).mp gone, fails, rfl⟩
  · exact absurd rfl (stops _)

end Pass

/-! ### The loop -/

/-- The sources that are there. -/
def existing (machine : Machine) (sources : List Source) : List Source :=
  sources.filter fun source => machine.present source.position

/-- The item after sources of the given formats. -/
def clearAll (formats : List FileFormat) (parsed : ParsedWorkItem) : ParsedWorkItem :=
  formats.foldl (fun parsed format => clearScanOptions format parsed) parsed

theorem clearAll_concat (formats : List FileFormat) (format : FileFormat)
    (parsed : ParsedWorkItem) :
    clearAll (formats ++ [format]) parsed = clearScanOptions format (clearAll formats parsed) := by
  rw [clearAll, List.foldl_append]
  rfl

/-- Only scan options are cleared. -/
theorem clearAll_eq (formats : List FileFormat) (parsed : ParsedWorkItem) :
    clearAll formats parsed =
      { parsed with
        cScanOptions := if .cxxSource ∈ formats then [] else parsed.cScanOptions
        cxxScanOptions := if .cSource ∈ formats then [] else parsed.cxxScanOptions } := by
  induction formats using List.reverseRecOn with
  | nil => rfl
  | append_singleton formats format ih =>
    rw [clearAll_concat, ih]
    cases format <;> simp [clearScanOptions]

/-- The compile results of sources that are handled one after the other. -/
def resultsOf (profile : ToolProfile) (machine : Machine) (multi : Bool) (parsed : ParsedWorkItem)
    (sources : List Source) : List CCResult :=
  sources.mapIdx fun k source => ccResult profile machine multi source
    (clearAll ((sources.take (k + 1)).map Source.format) parsed)

theorem resultsOf_concat (profile : ToolProfile) (machine : Machine) (multi : Bool)
    (parsed : ParsedWorkItem) (sources : List Source) (source : Source) :
    resultsOf profile machine multi parsed (sources ++ [source]) =
      resultsOf profile machine multi parsed sources ++
        [ccResult profile machine multi source (clearScanOptions source.format
          (clearAll (sources.map Source.format) parsed))] := by
  unfold resultsOf
  rw [List.mapIdx_concat, List.take_of_length_le (by simp), List.map_append,
    List.map_singleton, clearAll_concat]
  congr 1
  rw [List.mapIdx_eq_mapIdx_iff]
  intro k inside
  rw [List.take_append_of_le_length inside]

/-- **What the variables of the loop hold** after the sources `done`. -/
structure SourceInv (profile : ToolProfile) (machine : Machine) (multi : Bool)
    (item : ParsedWorkItem) (done : List Source) (state : CompileState) : Prop where
  parsed : state.parsed = clearAll ((existing machine done).map Source.format) item
  results : state.ccResults = resultsOf profile machine multi item (existing machine done)
  commands : state.commands = (existing machine done).map fun source =>
    sourceCommand profile machine source item
  pseudo : state.pseudoLinkSources = (existing machine done).flatMap fun source =>
    pseudoSource machine multi source item
  succeeded : ∀ source ∈ existing machine done, machine.exitCode source.position = 0

theorem sourceInv_step {profile : ToolProfile} {machine : Machine} {multi : Bool}
    {parsed : ParsedWorkItem} {done : List Source} {source : Source} {state state' : CompileState}
    (inv : SourceInv profile machine multi parsed done state)
    (step : sourceStep profile machine multi source state = .next state') :
    SourceInv profile machine multi parsed (done ++ [source]) state' := by
  rcases sourceStep_next step with ⟨gone, rfl⟩ | ⟨there, success, rfl⟩
  · have same : existing machine (done ++ [source]) = existing machine done := by
      simp [existing, gone]
    exact ⟨same ▸ inv.parsed, same ▸ inv.results, same ▸ inv.commands, same ▸ inv.pseudo,
      same ▸ inv.succeeded⟩
  · have more : existing machine (done ++ [source]) = existing machine done ++ [source] := by
      simp [existing, there]
    have target : state.parsed.target = parsed.target := by rw [inv.parsed, clearAll_eq]
    constructor
    · rw [more, List.map_append, List.map_singleton, clearAll_concat, ← inv.parsed]
      rfl
    · rw [more, resultsOf_concat, ← inv.parsed, ← inv.results]
      rfl
    · have command : sourceCommand profile machine source state.parsed =
          sourceCommand profile machine source parsed := by
        rw [inv.parsed, clearAll_eq]
        rfl
      rw [more, List.map_append, List.map_singleton, ← inv.commands, ← command]
      rfl
    · have object : pseudoSource machine multi source state.parsed =
          pseudoSource machine multi source parsed := by
        unfold pseudoSource
        rw [target]
      rw [more, List.flatMap_append, List.flatMap_singleton, ← inv.pseudo, ← object]
      rfl
    · rw [more]
      intro other member
      rcases List.mem_append.mp member with member | member
      · exact inv.succeeded other member
      · rw [List.mem_singleton.mp member]
        exact success

/-- The invariant of the loop over the sources of an item. -/
abbrev ItemInv (profile : ToolProfile) (machine : Machine) (parsed : ParsedWorkItem)
    (done : List Source) (state : CompileState) : Prop :=
  SourceInv profile machine (multiSources parsed) (withTarget machine parsed) done state

/-- **The loop gets through all sources, or to the first one on which the preprocessor fails.** -/
theorem sourceLoop_cases (profile : ToolProfile) (machine : Machine) (parsed : ParsedWorkItem) :
    (∃ state, ItemInv profile machine parsed parsed.sources.zipIdx state ∧
        sourceLoop profile machine parsed = .next state) ∨
      ∃ done source rest state, parsed.sources.zipIdx = done ++ source :: rest ∧
        ItemInv profile machine parsed done state ∧ machine.present source.position = true ∧
        machine.exitCode source.position ≠ 0 ∧
        sourceLoop profile machine parsed = .leave (state.failed profile machine source) := by
  have entry : ItemInv profile machine parsed [] ⟨withTarget machine parsed, [], [], [], [], []⟩ :=
    ⟨rfl, rfl, rfl, rfl, fun _ member => (nomatch member)⟩
  rcases forEach_cases (ItemInv profile machine parsed)
      (fun _ _ _ _ inv step => sourceInv_step inv step) parsed.sources.zipIdx entry with
    ⟨state, inv, ends⟩ | ⟨done, source, rest, state, parts, inv, stops, ends⟩
  · exact Or.inl ⟨state, inv, ends⟩
  · obtain ⟨there, fails, leaves⟩ := sourceStep_stop stops
    exact Or.inr ⟨done, source, rest, state, parts, inv, there, fails, ends.trans leaves⟩

end Xcalbuild.Processor
