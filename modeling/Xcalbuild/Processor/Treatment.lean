/-
**One language for every source.**

The format of a source is looked at in four places. `get_preprocessing_options` builds the command
line for C, or else for C++ (`optionsLanguage`); `handle_compile` names the preprocessed file for C,
or for C++, or not at all, and hands the format on; and `generate_output` takes the scan options for
C, or for C++, or none. They agree on C and on C++ only.

* `handleCompile_preprocessed`: the commands and the results of a compile item, by the sources that
  are reached (`preprocessed`);
* `oneLanguage_iff`: a source is treated as one language exactly when its format is C or C++;
* `languageThroughout_iff`: so all of them are exactly when the language in force at every source
  argument that is reached, or else the entry of its extension, is C or C++.
-/
import Xcalbuild.Build.Output
import Xcalbuild.Processor.PseudoLink
import Xcalbuild.Profile.Language

namespace Xcalbuild.Processor

open Library
open Build (CCResult LDInfo)
open Profile (FileFormat ParsedWorkItem RecordedFormat SourcePlaces ToolProfile WorkItem
  parseWorkItem rawArgs startParsed unfoldRespfile)

/-! ### Languages -/

/-- The languages that the tool knows. -/
inductive Language where
  | c
  | cxx
  deriving DecidableEq, Repr

namespace Language

/-- The format of a source in the language. -/
def format : Language → FileFormat
  | .c => .cSource
  | .cxx => .cxxSource

/-- The extension of a preprocessed file in the language. -/
def extension : Language → Str
  | .c => ".i".toList
  | .cxx => ".ii".toList

/-- The command line of the preprocessor for the language. -/
def preprocessingOptions (profile : ToolProfile) (target : Str) (parsed : ParsedWorkItem)
    (language : Language) : List Str :=
  (match language with
    | .c => makeCmdLine profile parsed profile.cPrependPreprocessingOptions
        profile.cAppendPreprocessingOptions profile.cSysIncPaths profile.cPreIncludes
    | .cxx => makeCmdLine profile parsed profile.cxxPrependPreprocessingOptions
        profile.cxxAppendPreprocessingOptions profile.cxxSysIncPaths profile.cxxPreIncludes) ++
  (match profile.preprocessOption with
    | some option => option.makeStringOption []
    | none => []) ++
  (match profile.outputOption with
    | some option => option.makeStringOption target
    | none => [])

/-- A link info takes the scan options of the language, if it has none yet. -/
def takeScanOptions (info : LDInfo) (cc : CCResult) : Language → LDInfo
  | .c => if info.cScanOptionsSet then info
      else { info with cScanOptions := cc.cScanOptions, cScanOptionsSet := true }
  | .cxx => if info.cxxScanOptionsSet then info
      else { info with cxxScanOptions := cc.cxxScanOptions, cxxScanOptionsSet := true }

end Language

/-- The language whose options `get_preprocessing_options` takes for a format. -/
def optionsLanguage (format : FileFormat) : Language := if format = .cSource then .c else .cxx

theorem getPreprocessingOptions_eq (profile : ToolProfile) (target : Str) (format : FileFormat)
    (parsed : ParsedWorkItem) : getPreprocessingOptions profile target format parsed =
      (optionsLanguage format).preprocessingOptions profile target parsed := by
  unfold getPreprocessingOptions optionsLanguage
  split_ifs <;> rfl

/-- The options are those of the language of the format exactly for C and C++. -/
theorem optionsLanguage_format (format : FileFormat) :
    format = (optionsLanguage format).format ↔ format = .cSource ∨ format = .cxxSource := by
  cases format <;> decide

/-- **A link info takes the scan options of the language of the result.** -/
theorem populate_of_format {language : Language} {cc : CCResult} (same : cc.format = language.format)
    (info : LDInfo) : info.populate cc = language.takeScanOptions info cc := by
  unfold LDInfo.populate
  rw [same]
  cases language with
  | c =>
    show (if _ ∧ info.cScanOptionsSet = false then _ else _) = if _ then info else _
    cases info.cScanOptionsSet <;> rfl
  | cxx =>
    show (if _ then _ else if _ ∧ info.cxxScanOptionsSet = false then _ else info) =
      if _ then info else _
    cases info.cxxScanOptionsSet <;> rfl

/-! ### The sources that are preprocessed -/

/-- The loop gets to the source at the position: it exists, and the preprocessor fails on none
before it. -/
def Reached (machine : Machine) (k : Nat) : Prop :=
  machine.present k = true ∧ ∀ j < k, machine.present j = true → machine.exitCode j = 0

instance (machine : Machine) (k : Nat) : Decidable (Reached machine k) :=
  inferInstanceAs (Decidable (_ ∧ _))

/-- The sources that `handle_compile` runs the preprocessor on. -/
def preprocessed (machine : Machine) (parsed : ParsedWorkItem) : List Source :=
  parsed.sources.zipIdx.filter fun source => decide (Reached machine source.position)

section Item

variable {profile : ToolProfile} {machine : Machine} {parsed : ParsedWorkItem}

theorem mem_preprocessed {source : Source} : source ∈ preprocessed machine parsed ↔
    parsed.sources[source.position]? = some source.1 ∧ Reached machine source.position := by
  rw [preprocessed, List.mem_filter, decide_eq_true_iff, List.mem_zipIdx_iff_getElem?]
  rfl

/-- The sources at the front are the ones at the first positions. -/
theorem position_of_parts {done rest : List Source} (parts : parsed.sources.zipIdx = done ++ rest) :
    (∀ other ∈ done, other.position < done.length) ∧
      (∀ j < done.length, ∃ other ∈ done, other.position = j) ∧
        ∀ other ∈ rest, done.length ≤ other.position := by
  have listed : ∀ {k : Nat} {other : Source}, (done ++ rest)[k]? = some other →
      other.position = k := by
    intro k other found
    rw [← parts, List.getElem?_zipIdx, Option.map_eq_some_iff] at found
    obtain ⟨entry, -, rfl⟩ := found
    exact Nat.zero_add k
  refine ⟨fun other member => ?_, fun j below => ?_, fun other member => ?_⟩
  · obtain ⟨k, inside, rfl⟩ := List.mem_iff_getElem.mp member
    rwa [listed (by rw [List.getElem?_append_left inside, List.getElem?_eq_getElem inside])]
  · refine ⟨done[j], List.getElem_mem below, listed ?_⟩
    rw [List.getElem?_append_left below, List.getElem?_eq_getElem below]
  · obtain ⟨k, inside, rfl⟩ := List.mem_iff_getElem.mp member
    have position := @listed (done.length + k) rest[k] (by
      rw [List.getElem?_append_right (by omega), Nat.add_sub_cancel_left,
        List.getElem?_eq_getElem inside])
    omega

/-- A source with successful ones before it is reached when it is there. -/
theorem reached_iff {done rest : List Source} (parts : parsed.sources.zipIdx = done ++ rest)
    (succeeded : ∀ source ∈ existing machine done, machine.exitCode source.position = 0) {k : Nat}
    (within : k ≤ done.length) : Reached machine k ↔ machine.present k = true := by
  refine ⟨fun reached => reached.1, fun there => ⟨there, fun j below present => ?_⟩⟩
  obtain ⟨other, member, rfl⟩ := (position_of_parts parts).2.1 j (by omega)
  exact succeeded other (List.mem_filter.mpr ⟨member, present⟩)

/-- Of the sources at the front, when they are successful, those that exist are reached. -/
theorem filter_reached {done rest : List Source} (parts : parsed.sources.zipIdx = done ++ rest)
    (succeeded : ∀ source ∈ existing machine done, machine.exitCode source.position = 0) :
    done.filter (fun source => decide (Reached machine source.position)) =
      existing machine done := by
  refine List.filter_congr fun source member => Bool.eq_iff_iff.mpr ?_
  rw [decide_eq_true_iff]
  exact reached_iff parts succeeded (Nat.le_of_lt ((position_of_parts parts).1 source member))

/-- Nothing is reached after a source on which the preprocessor fails. -/
theorem filter_reached_after {done rest : List Source} {source : Source}
    (parts : parsed.sources.zipIdx = done ++ source :: rest)
    (there : machine.present source.position = true)
    (fails : machine.exitCode source.position ≠ 0) :
    rest.filter (fun other => decide (Reached machine other.position)) = [] := by
  have split : parsed.sources.zipIdx = (done ++ [source]) ++ rest := by rw [parts]; simp
  refine List.filter_eq_nil_iff.mpr fun other member reached => fails ?_
  have before := (position_of_parts split).1 source (by simp)
  have after := (position_of_parts split).2.2 other member
  exact (of_decide_eq_true reached).2 _ (Nat.lt_of_lt_of_le before after) there

/-- **What `handle_compile` does with the sources that are reached**: a command for each, and a result
for each but the one on which the preprocessor fails. -/
theorem handleCompile_preprocessed (linkerKey : List Str) (profile : ToolProfile)
    (machine : Machine) (parsed : ParsedWorkItem) :
    (handleCompile linkerKey profile machine parsed).commands =
        (preprocessed machine parsed).map (fun source => sourceCommand profile machine source parsed) ∧
      ∃ handled, handled <+: preprocessed machine parsed ∧
        (handleCompile linkerKey profile machine parsed).ccResults =
          resultsOf profile machine (multiSources parsed) (withTarget machine parsed) handled := by
  have commands : ∀ sources : List Source,
      sources.map (fun source => sourceCommand profile machine source (withTarget machine parsed)) =
        sources.map fun source => sourceCommand profile machine source parsed := fun sources =>
    List.map_congr_left fun source _ => sourceCommand_withTarget profile machine parsed source
  rcases sourceLoop_cases profile machine parsed with
    ⟨state, inv, ends⟩ | ⟨done, source, rest, state, parts, inv, there, fails, ends⟩
  · have same : preprocessed machine parsed = existing machine parsed.sources.zipIdx :=
      filter_reached (List.append_nil _).symm inv.succeeded
    rw [same]
    unfold handleCompile
    rw [ends]
    exact ⟨inv.commands.trans (commands _), _, List.prefix_refl _, inv.results⟩
  · have same : preprocessed machine parsed = existing machine done ++ [source] := by
      have split : parsed.sources.zipIdx = (done ++ [source]) ++ rest := by rw [parts]; simp
      have position := (position_of_parts parts).2.2 source List.mem_cons_self
      have last := (position_of_parts split).1 source (by simp)
      rw [List.length_append, List.length_singleton] at last
      have here : decide (Reached machine source.position) = true :=
        decide_eq_true ((reached_iff parts inv.succeeded (by omega)).mpr there)
      rw [preprocessed, parts, List.filter_append, filter_reached parts inv.succeeded,
        List.filter_cons, if_pos here, filter_reached_after parts there fails]
    rw [same]
    unfold handleCompile
    rw [ends]
    refine ⟨?_, _, List.prefix_append _ _, inv.results⟩
    rw [← commands, List.map_append, List.map_singleton, ← inv.commands]
    show state.commands ++ [sourceCommand profile machine source state.parsed] = _
    rw [inv.parsed, clearAll_eq]
    rfl

/-! ### One language -/

/-- **A source is treated as one language**: the options of its command, its format, the format and
the file name of its result, and the scan options that a link info takes from the result. -/
structure OneLanguage (profile : ToolProfile) (machine : Machine) (parsed : ParsedWorkItem)
    (language : Language) (source : Source) (command : Command) (result : Option CCResult) :
    Prop where
  options : command.args =
    language.preprocessingOptions profile (sourceTemp machine source) parsed ++ [source.file]
  recorded : source.format = language.format
  compiled : ∀ cc ∈ result, cc.source = source.file ∧ cc.format = language.format ∧
    language.extension <:+ cc.ppFileName
  scanned : ∀ cc ∈ result, ∀ info : LDInfo, info.populate cc = language.takeScanOptions info cc

/-- **Every source that is preprocessed is treated as the language its command is built for.** -/
def LanguageThroughout (linkerKey : List Str) (profile : ToolProfile) (machine : Machine)
    (parsed : ParsedWorkItem) : Prop :=
  ∀ (k : Nat) (source : Source), (preprocessed machine parsed)[k]? = some source →
    ∃ command, (handleCompile linkerKey profile machine parsed).commands[k]? = some command ∧
      OneLanguage profile machine parsed (optionsLanguage source.format) source command
        (handleCompile linkerKey profile machine parsed).ccResults[k]?

/-- The command of a source is built for the language of `optionsLanguage`. -/
theorem sourceCommand_args (source : Source) :
    (sourceCommand profile machine source parsed).args =
      (optionsLanguage source.format).preprocessingOptions profile (sourceTemp machine source)
        parsed ++ [source.file] := by
  rw [← getPreprocessingOptions_eq]
  rfl

/-- **A source is treated as one language exactly when its format is C or C++.** -/
theorem oneLanguage_iff {source : Source} {result : Option CCResult}
    (ofSource : ∀ cc ∈ result, ∃ multi item, cc = ccResult profile machine multi source item) :
    OneLanguage profile machine parsed (optionsLanguage source.format) source
        (sourceCommand profile machine source parsed) result ↔
      source.format = .cSource ∨ source.format = .cxxSource := by
  rw [← optionsLanguage_format]
  refine ⟨fun treated => treated.recorded, fun same => ⟨sourceCommand_args source, same, ?_, ?_⟩⟩
  · intro cc given
    obtain ⟨multi, item, rfl⟩ := ofSource cc given
    refine ⟨rfl, same, ?_⟩
    have named : ppExtension source.format = (optionsLanguage source.format).extension := by
      rcases (optionsLanguage_format _).mp same with format | format <;> rw [format] <;> rfl
    show _ <:+ Path.filename source.file ++ ppExtension source.format
    rw [named]
    exact List.suffix_append _ _
  · intro cc given info
    obtain ⟨multi, item, rfl⟩ := ofSource cc given
    exact populate_of_format same info

/-- The result at a place is one of the source at that place. -/
theorem ofSource_of_parts {multi : Bool} {item : ParsedWorkItem} {handled sources : List Source}
    (front : handled <+: sources) {k : Nat} {source : Source} (listed : sources[k]? = some source) :
    ∀ cc ∈ (resultsOf profile machine multi item handled)[k]?,
      ∃ multi item, cc = ccResult profile machine multi source item := by
  intro cc given
  rw [Option.mem_def, resultsOf, List.getElem?_mapIdx, Option.map_eq_some_iff] at given
  obtain ⟨other, found, rfl⟩ := given
  obtain ⟨rest, rfl⟩ := front
  have inside := (List.getElem?_eq_some_iff.mp found).1
  rw [List.getElem?_append_left inside, found] at listed
  cases listed
  exact ⟨_, _, rfl⟩

/-- The sources of an item, by their formats. -/
theorem languageThroughout_iff_formats (linkerKey : List Str) :
    LanguageThroughout linkerKey profile machine parsed ↔
      ∀ source ∈ preprocessed machine parsed,
        source.format = .cSource ∨ source.format = .cxxSource := by
  obtain ⟨commands, handled, front, results⟩ :=
    handleCompile_preprocessed linkerKey profile machine parsed
  have treated : ∀ (k : Nat) (source : Source), (preprocessed machine parsed)[k]? = some source →
      ((∃ command, (handleCompile linkerKey profile machine parsed).commands[k]? = some command ∧
        OneLanguage profile machine parsed (optionsLanguage source.format) source command
          (handleCompile linkerKey profile machine parsed).ccResults[k]?) ↔
        (source.format = .cSource ∨ source.format = .cxxSource)) := by
    intro k source listed
    have command : (handleCompile linkerKey profile machine parsed).commands[k]? =
        some (sourceCommand profile machine source parsed) := by
      rw [commands, List.getElem?_map, listed]
      rfl
    have ofSource := @ofSource_of_parts profile machine (multiSources parsed)
      (withTarget machine parsed) handled _ front k source listed
    rw [command, results, ← @oneLanguage_iff profile machine parsed source _ ofSource]
    constructor
    · rintro ⟨command, same, one⟩
      cases same
      exact one
    · exact fun one => ⟨_, rfl, one⟩
  constructor
  · intro throughout source member
    obtain ⟨k, listed⟩ := List.getElem?_of_mem member
    exact (treated k source listed).mp (throughout k source listed)
  · intro formats k source listed
    exact (treated k source listed).mpr (formats source (List.mem_of_getElem? listed))

/-! ### The command line -/

/-- **The sources of a compile item are treated as one language each exactly when the language in force
at every source argument that is reached, or else the entry of its extension, is C or C++.** -/
theorem languageThroughout_iff {item : WorkItem} (linkerKey : List Str)
    (parses : parseWorkItem profile machine.host item = .ok parsed)
    (compile : parsed.kind = .compile) :
    ∃ binary rest places,
      unfoldRespfile profile machine.host item (rawArgs item) = .ok (binary :: rest) ∧
        SourcePlaces profile machine.host (binary :: rest)
          ⟨1, startParsed profile item binary⟩ places ∧
        (LanguageThroughout linkerKey profile machine parsed ↔
          ∀ (k i : Nat) (format : FileFormat), places[k]? = some i → Reached machine k →
            RecordedFormat profile machine.host (binary :: rest)
              ⟨1, startParsed profile item binary⟩ i format →
                format = .cSource ∨ format = .cxxSource) := by
  obtain ⟨binary, rest, places, unfolded, isPlaces, formats⟩ :=
    Profile.sources_formats parses (by rw [compile]; decide)
  refine ⟨binary, rest, places, unfolded, isPlaces, (languageThroughout_iff_formats linkerKey).trans ?_⟩
  obtain ⟨lengths, recorded⟩ := List.forall₂_iff_get.mp formats
  constructor
  · intro all k i format listed reached given
    obtain ⟨inside, rfl⟩ := List.getElem?_eq_some_iff.mp listed
    have inside' : k < parsed.sources.length := by omega
    have own := recorded k inside inside'
    cases given.unique own
    refine all (parsed.sources[k], k) (mem_preprocessed.mpr ⟨?_, reached⟩)
    exact List.getElem?_eq_getElem inside'
  · intro all source member
    obtain ⟨listed, reached⟩ := mem_preprocessed.mp member
    obtain ⟨inside, same⟩ := List.getElem?_eq_some_iff.mp listed
    have inside' : source.position < places.length := by omega
    have own := recorded source.position inside' inside
    rw [List.get_eq_getElem, List.get_eq_getElem, same] at own
    exact all source.position _ _ (List.getElem?_eq_getElem inside') reached own

/-- The language tables of a profile name C and C++ only; a language option may also leave the choice to
the extension. -/
structure TablesKnown (profile : ToolProfile) : Prop where
  extensions : ∀ entry ∈ profile.sourceExtensions, entry.2 = .cSource ∨ entry.2 = .cxxSource
  options : ∀ option ∈ profile.options, ∀ argToLang, option.behaviour = .language argToLang →
    ∀ entry ∈ argToLang, entry.2 = .cSource ∨ entry.2 = .cxxSource ∨ entry.2 = .ext

/-- The language that a loop starts with is C, C++, or the one of the extension. -/
theorem startParsed_fileFormat (profile : ToolProfile) (item : WorkItem) (binary : Str) :
    (startParsed profile item binary).fileFormat = .cSource ∨
      (startParsed profile item binary).fileFormat = .cxxSource ∨
        (startParsed profile item binary).fileFormat = .ext := by
  show (if _ then Profile.binaryFormat profile binary else _) = _ ∨ _
  unfold startParsed Profile.binaryFormat
  dsimp only
  split_ifs
  · exact Or.inl rfl
  · exact Or.inr (Or.inl rfl)
  · exact Or.inr (Or.inr rfl)
  · exact Or.inr (Or.inr rfl)

/-- **With tables for C and C++ only, every source of every command is treated as one language.** -/
theorem languageThroughout_of_tables (known : TablesKnown profile) {item : WorkItem}
    (linkerKey : List Str) (parses : parseWorkItem profile machine.host item = .ok parsed)
    (compile : parsed.kind = .compile) :
    LanguageThroughout linkerKey profile machine parsed := by
  obtain ⟨binary, rest, places, -, -, formats⟩ :=
    Profile.sources_formats parses (by rw [compile]; decide)
  refine (languageThroughout_iff_formats linkerKey).mpr fun source member => ?_
  obtain ⟨inside, same⟩ := List.getElem?_eq_some_iff.mp (mem_preprocessed.mp member).1
  obtain ⟨lengths, recorded⟩ := List.forall₂_iff_get.mp formats
  obtain ⟨language, byExtension, inForce, looked, format⟩ :=
    recorded source.position (by omega) inside
  have extension := known.extensions _ (mem_of_lookup looked)
  have inForce' : language = .cSource ∨ language = .cxxSource ∨ language = .ext := by
    rcases inForce with ⟨j, -, ⟨_, _, option, argToLang, arg, -, -, matched, behaviour, -, found⟩, -⟩ |
      ⟨-, initial⟩
    · obtain ⟨front, back, options, -⟩ := matched.first
      have member : option ∈ profile.options := by simp [options]
      exact known.options option member argToLang behaviour _ (mem_of_lookup found)
    · rw [initial]
      exact startParsed_fileFormat profile item binary
  rw [List.get_eq_getElem, same] at format
  show source.1.2 = _ ∨ source.1.2 = _
  rw [format]
  split_ifs with byTable
  · exact extension
  · rcases inForce' with isC | isCxx | isExt
    · exact Or.inl isC
    · exact Or.inr isCxx
    · exact absurd isExt byTable

end Item

/-! ### An assembly source -/

/-- A profile that knows assembly sources by their extension. -/
def assemblyProfileJson : Json :=
  .obj [("aliases".toList, .arr [.str "gcc".toList]),
    ("defaultCommandKind".toList, .str "compile".toList),
    ("optionPrefix".toList, .str "-".toList),
    ("options".toList, .arr [
      .obj [("aliases".toList, .arr [.str "-o".toList]),
        ("argFormat".toList, .arr [.str "space".toList]), ("type".toList, .str "output".toList)]]),
    ("sourceExtensions".toList, .obj [("assembly".toList, .arr [.str ".s".toList]),
      ("c".toList, .arr [.str ".c".toList])])]

/-- The profile that is loaded from it. -/
def assemblyProfile : ToolProfile :=
  (ToolProfile.load (fun _ => true) assemblyProfileJson).toOption.get rfl

/-- A machine where the preprocessor runs on every source. -/
def rootMachine : Machine := { machineFailingFrom 3 with host := Profile.rootHost }

/-- The result of `gcc -c start.s` is neither C nor C++, and its command is one for C++. -/
theorem assembly_preprocessed :
    ¬ ∀ (validRegex : Str → Bool) (j : Json) (profile : ToolProfile) (item : WorkItem)
      (machine : Machine) (parsed : ParsedWorkItem) (linkerKey : List Str),
      ToolProfile.load validRegex j = .ok profile →
        parseWorkItem profile machine.host item = .ok parsed → parsed.kind = .compile →
          LanguageThroughout linkerKey profile machine parsed := by
  intro throughout
  have loaded : ToolProfile.load (fun _ => true) assemblyProfileJson = .ok assemblyProfile := rfl
  have made : (parseWorkItem assemblyProfile rootMachine.host
      (Profile.gccItem ["-c".toList, "start.s".toList])).map
        (fun parsed => (parsed.kind, parsed.sources)) =
      .ok (.compile, [("/work/start.s".toList, .assembly)]) := by
    decide
  cases result : parseWorkItem assemblyProfile rootMachine.host
      (Profile.gccItem ["-c".toList, "start.s".toList]) with
  | error fault => rw [result] at made; cases made
  | ok parsed =>
    rw [result] at made
    obtain ⟨kind, sources⟩ := Prod.mk.inj (Except.ok.inj made)
    have formats := (languageThroughout_iff_formats []).mp
      (throughout _ _ _ _ rootMachine parsed [] loaded result kind)
    have member : (("/work/start.s".toList, FileFormat.assembly), 0) ∈
        preprocessed rootMachine parsed := by
      refine mem_preprocessed.mpr ⟨?_, by decide⟩
      show parsed.sources[0]? = _
      rw [sources]
      rfl
    rcases formats _ member with same | same <;> cases same

/-- The condition for a command with a C source and two C++ sources. -/
theorem languageThroughout_three : ∃ parsed, parsed.sources =
      [("/work/a.c".toList, .cSource), ("/work/b.c".toList, .cxxSource),
        ("/work/c.cc".toList, .cxxSource)] ∧
    ∃ binary rest places,
      unfoldRespfile Profile.ccProfile rootMachine.host Profile.threeSources
          (rawArgs Profile.threeSources) = .ok (binary :: rest) ∧
        SourcePlaces Profile.ccProfile rootMachine.host (binary :: rest)
          ⟨1, startParsed Profile.ccProfile Profile.threeSources binary⟩ places ∧
        (LanguageThroughout [] Profile.ccProfile rootMachine parsed ↔
          ∀ (k i : Nat) (format : FileFormat), places[k]? = some i → Reached rootMachine k →
            RecordedFormat Profile.ccProfile rootMachine.host (binary :: rest)
              ⟨1, startParsed Profile.ccProfile Profile.threeSources binary⟩ i format →
                format = .cSource ∨ format = .cxxSource) := by
  have made : (parseWorkItem Profile.ccProfile rootMachine.host Profile.threeSources).map
        (fun parsed => (parsed.kind, parsed.sources)) =
      .ok (.compile, [("/work/a.c".toList, .cSource), ("/work/b.c".toList, .cxxSource),
        ("/work/c.cc".toList, .cxxSource)]) := by
    decide
  cases result : parseWorkItem Profile.ccProfile rootMachine.host Profile.threeSources with
  | error fault => rw [result] at made; cases made
  | ok parsed =>
    rw [result] at made
    obtain ⟨kind, sources⟩ := Prod.mk.inj (Except.ok.inj made)
    exact ⟨parsed, sources, languageThroughout_iff [] result kind⟩

end Xcalbuild.Processor
