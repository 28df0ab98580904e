/-
**`WorkItemProcessor::process`, and the lists of files.**

A work item is parsed with the tool profile of its binary and handed on by its kind. The keys filter
by the directory of the item and by the target of a link; the lists of files filter compile items,
by their first source.

* `readLists`: where the lists come from, and that at most one of them is read (`readLists_one`);
* `mem_leading_iff`: the sources that get a compile result, by the sources before them;
* `listsRespected_iff`: the lists filter the sources of a compile item exactly when they have one
  verdict on all of them and no failure comes before a source that succeeds.
-/
import Xcalbuild.Processor.PseudoLink
import Xcalbuild.Profile.Toolchain

namespace Xcalbuild.Processor

open Library
open Build (ASResult CCResult)
open Profile (CursorFault FileFormat Host ParsedWorkItem ToolProfile ToolchainProfile WorkItem
  parseWorkItem)

/-- What a build processor filters by. -/
structure Filters where
  filterKey : List Str
  linkerKey : List Str
  whitelistFiles : List Str
  blacklistFiles : List Str

/-! ### The lists of files -/

/-- A run of the command of a list. -/
inductive ListRun where
  /-- The command could not be run. -/
  | failed
  /-- The file with its output could not be opened. -/
  | unreadable
  | output (text : Str)

/-- The error code of a list. -/
inductive ListError where
  | errorParsingCdb
  deriving DecidableEq

/-- The files of a list, one in each line, from the build directory. -/
def readList (host : Host) (buildDir : Str) : ListRun → Except ListError (List Str)
  | .failed => .error .errorParsingCdb
  | .unreadable => .ok []
  | .output text => .ok ((lines text).map fun line => host.getFullPathStr line buildDir)

/-- The beginning of `BuildProcessor::process`. -/
def readLists (host : Host) (buildDir wlfcmd blfcmd : Str) (run : Str → ListRun)
    (filters : Filters) : Except ListError Filters :=
  if 1 < wlfcmd.length then do
    let files ← readList host buildDir (run wlfcmd)
    return { filters with whitelistFiles := filters.whitelistFiles ++ files }
  else if 1 < blfcmd.length then do
    let files ← readList host buildDir (run blfcmd)
    return { filters with blacklistFiles := filters.blacklistFiles ++ files }
  else return filters

/-- The command of the blacklist does not run besides the one of the whitelist. -/
theorem readLists_one {host : Host} {buildDir wlfcmd blfcmd : Str} {run : Str → ListRun}
    {filters filters' : Filters} (white : filters.whitelistFiles = [])
    (black : filters.blacklistFiles = [])
    (reads : readLists host buildDir wlfcmd blfcmd run filters = .ok filters') :
    filters'.whitelistFiles = [] ∨ filters'.blacklistFiles = [] := by
  unfold readLists at reads
  split_ifs at reads
  · cases files : readList host buildDir (run wlfcmd) with
    | error e =>
      rw [files] at reads
      cases reads
    | ok names =>
      rw [files] at reads
      cases reads
      exact Or.inr black
  · cases files : readList host buildDir (run blfcmd) with
    | error e =>
      rw [files] at reads
      cases reads
    | ok names =>
      rw [files] at reads
      cases reads
      exact Or.inl white
  · cases reads
    exact Or.inl white

/-! ### One work item -/

/-- What `process` leaves behind it. -/
structure Outcome extends CompileOutcome where
  asResults : List ASResult
  /-- The sources that `handle_compile` is called with. -/
  passed : List (Str × FileFormat)

def Outcome.nothing : Outcome where
  ccResults := []
  ldResults := []
  commands := []
  written := []
  removed := []
  asResults := []
  passed := []

/-- The tool profile of a work item. -/
def toolProfileOf (toolchain : ToolchainProfile) (item : WorkItem) : Option ToolProfile :=
  (toolchain.getToolProfile item).bind fun p => toolchain.profiles.lookup p

/-- A compile item with this first source is left by a `break`. -/
def Filters.breaks (filters : Filters) (first : Str) : Bool :=
  if filters.whitelistFiles ≠ [] ∧ first ∉ filters.whitelistFiles then true
  else decide (filters.blacklistFiles ≠ [] ∧ first ∈ filters.blacklistFiles)

/-- What is done with a parsed item: by its kind, if it has sources. -/
def dispatch (filters : Filters) (profile : ToolProfile) (machine : Machine)
    (parsed : ParsedWorkItem) : Outcome :=
  match parsed.kind, parsed.sources with
  | .ignore, _ => .nothing
  | _, [] => .nothing
  | .compile, first :: _ =>
      if filters.breaks first.1 then .nothing
      else { handleCompile filters.linkerKey profile machine parsed with
        asResults := []
        passed := parsed.sources }
  | .assemble, first :: _ => { Outcome.nothing with asResults := [⟨parsed.target, first.1⟩] }
  | .archive, _ | .link, _ =>
      { Outcome.nothing with ldResults := (handleLink filters.linkerKey parsed).toList }

/-- `WorkItemProcessor::process` -/
def process (filters : Filters) (toolchain : ToolchainProfile) (machine : Machine)
    (item : WorkItem) : Except CursorFault Outcome :=
  match toolProfileOf toolchain item with
  | none => .ok .nothing
  | some profile =>
      if filteredOut filters.filterKey (afterLast '/' item.directory) then .ok .nothing
      else do
        let parsed ← parseWorkItem profile machine.host item
        return dispatch filters profile machine parsed

/-! ### Filtering compile items -/

/-- The lists let a file through. -/
def Filters.Allows (filters : Filters) (file : Str) : Prop :=
  (filters.whitelistFiles = [] ∨ file ∈ filters.whitelistFiles) ∧ file ∉ filters.blacklistFiles

instance (filters : Filters) (file : Str) : Decidable (filters.Allows file) :=
  inferInstanceAs (Decidable (_ ∧ _))

/-- A compile work item that passes the directory filter. -/
structure CompileItem (filters : Filters) (toolchain : ToolchainProfile) (machine : Machine) where
  item : WorkItem
  profile : ToolProfile
  parsed : ParsedWorkItem
  recognised : toolProfileOf toolchain item = some profile
  directory : filteredOut filters.filterKey (afterLast '/' item.directory) = false
  parses : parseWorkItem profile machine.host item = .ok parsed
  compile : parsed.kind = .compile

/-- The sources of an item, with their positions. -/
def allSources (parsed : ParsedWorkItem) : List Source := parsed.sources.zipIdx

/-- The source exists, and the preprocessor succeeds on it. -/
def Succeeds (machine : Machine) (source : Source) : Prop :=
  machine.present source.position = true ∧ machine.exitCode source.position = 0

/-- The source exists, and the preprocessor fails on it. -/
def Fails (machine : Machine) (source : Source) : Prop :=
  machine.present source.position = true ∧ machine.exitCode source.position ≠ 0

/-- **The lists filter the sources.** -/
structure Filtered (filters : Filters) (machine : Machine) (parsed : ParsedWorkItem)
    (outcome : Outcome) : Prop where
  passed : outcome.passed = parsed.sources.filter fun source => decide (filters.Allows source.1)
  clean : ∀ cc ∈ outcome.ccResults, cc.source ∉ filters.blacklistFiles
  kept : ∀ source ∈ allSources parsed, filters.Allows source.file →
    Succeeds machine source → source.file ∈ outcome.ccResults.map CCResult.source

/-- The lists have the verdict on the first source for all sources. -/
def FirstDecides (filters : Filters) (parsed : ParsedWorkItem) : Prop :=
  ∀ first ∈ parsed.sources.head?, ∀ source ∈ parsed.sources,
    filters.Allows source.1 ↔ filters.Allows first.1

/-- A file that the lists let through and on which the preprocessor succeeds does so, somewhere in
the command, before it fails on any source. -/
def BeforeFailures (filters : Filters) (machine : Machine) (parsed : ParsedWorkItem) : Prop :=
  ∀ source ∈ allSources parsed, filters.Allows source.file →
    Succeeds machine source → ∃ other ∈ allSources parsed, other.file = source.file ∧
      Succeeds machine other ∧ ∀ failing ∈ allSources parsed, Fails machine failing →
        other.position < failing.position

section Lists

variable {filters : Filters} {toolchain : ToolchainProfile} {machine : Machine}
  {parsed : ParsedWorkItem}

/-- The checks of the first source are those of the lists. -/
theorem breaks_eq_false_iff {first : Str} : filters.breaks first = false ↔ filters.Allows first := by
  unfold Filters.breaks Filters.Allows
  split_ifs with white
  · exact iff_of_false (fun same => nomatch same) fun allows => allows.1.elim white.1 white.2
  · rw [decide_eq_false_iff_not]
    rw [not_and_or, not_not, not_not] at white
    constructor
    · intro black
      refine ⟨white, fun member => black ⟨?_, member⟩⟩
      exact List.ne_nil_of_mem member
    · exact fun allows black => allows.2 black.2

/-- Sources are in the order of their positions. -/
theorem positions_increase (parsed : ParsedWorkItem) :
    (allSources parsed).Pairwise fun first second => first.position < second.position := by
  have range : (allSources parsed).map Source.position = List.range' 0 parsed.sources.length :=
    List.zipIdx_map_snd 0 parsed.sources
  rw [← List.pairwise_map, range]
  exact List.pairwise_lt_range'

/-- **The leading sources are those that succeed before any source fails.** -/
theorem mem_leading_iff {source : Source} : source ∈ leading machine parsed ↔
    source ∈ allSources parsed ∧ Succeeds machine source ∧
      ∀ failing ∈ allSources parsed, Fails machine failing →
        source.position < failing.position := by
  have increasing := (positions_increase parsed).filter
    fun source => machine.present source.position
  have members : sourcesOf machine parsed =
    (allSources parsed).filter fun source => machine.present source.position := rfl
  rw [leading, members, mem_takeWhile_iff increasing, decide_eq_true_iff, List.mem_filter]
  constructor
  · rintro ⟨⟨member, there⟩, success, before⟩
    refine ⟨member, ⟨there, success⟩, fun failing listed fails => ?_⟩
    exact before failing (List.mem_filter.mpr ⟨listed, fails.1⟩) (decide_eq_false fails.2)
  · rintro ⟨member, ⟨there, success⟩, before⟩
    refine ⟨⟨member, there⟩, success, fun failing listed fails => ?_⟩
    obtain ⟨listed, there'⟩ := List.mem_filter.mp listed
    exact before failing listed ⟨there', of_decide_eq_false fails⟩

theorem sources_resultsOf (profile : ToolProfile) (multi : Bool) (item : ParsedWorkItem)
    (sources : List Source) :
    (resultsOf profile machine multi item sources).map CCResult.source =
      sources.map Source.file := by
  refine List.ext_getElem (by simp [resultsOf]) fun k inside _ => ?_
  simp [resultsOf, ccResult]

/-- **A file has a compile result when it is that of a leading source.** -/
theorem mem_sources_iff {linkerKey : List Str} {profile : ToolProfile} {file : Str} :
    file ∈ (handleCompile linkerKey profile machine parsed).ccResults.map CCResult.source ↔
      ∃ other ∈ allSources parsed, other.file = file ∧ Succeeds machine other ∧
        ∀ failing ∈ allSources parsed, Fails machine failing →
          other.position < failing.position := by
  rw [handleCompile_leading, sources_resultsOf, List.mem_map]
  refine exists_congr fun other => ?_
  rw [mem_leading_iff]
  constructor
  · rintro ⟨⟨member, success, before⟩, same⟩
    exact ⟨member, same, success, before⟩
  · rintro ⟨member, same, success, before⟩
    exact ⟨⟨member, success, before⟩, same⟩

/-- **A compile item is handed on when its first source is let through.** -/
theorem dispatch_compile (profile : ToolProfile) (compile : parsed.kind = .compile) :
    ((dispatch filters profile machine parsed).passed = [] ∧
        (dispatch filters profile machine parsed).ccResults = [] ∧
        ∀ first ∈ parsed.sources.head?, ¬ filters.Allows first.1) ∨
      ((dispatch filters profile machine parsed).passed = parsed.sources ∧
        (dispatch filters profile machine parsed).ccResults =
          (handleCompile filters.linkerKey profile machine parsed).ccResults ∧
        ∃ first ∈ parsed.sources.head?, filters.Allows first.1) := by
  unfold dispatch
  rw [compile]
  cases sources : parsed.sources with
  | nil => exact Or.inl ⟨rfl, rfl, fun first absent => nomatch absent⟩
  | cons first rest =>
    by_cases allowed : filters.Allows first.1
    · right
      dsimp only
      rw [if_neg (by rw [breaks_eq_false_iff.mpr allowed]; decide)]
      exact ⟨rfl, rfl, first, rfl, allowed⟩
    · left
      have breaks : filters.breaks first.1 = true :=
        (Bool.not_eq_false _).mp fun passes => allowed (breaks_eq_false_iff.mp passes)
      dsimp only
      rw [if_pos breaks]
      refine ⟨rfl, rfl, fun other same => ?_⟩
      cases same
      exact allowed

theorem mem_sources_of_mem_allSources {source : Source} (member : source ∈ allSources parsed) :
    source.1 ∈ parsed.sources := by
  have placed := List.mem_zipIdx' member
  rw [placed.2]
  exact List.getElem_mem placed.1

/-- When the first source is refused, all of them must be. -/
theorem firstDecides_of_refused
    (refused : ∀ first ∈ parsed.sources.head?, ¬ filters.Allows first.1) :
    FirstDecides filters parsed ↔ ∀ source ∈ parsed.sources, ¬ filters.Allows source.1 := by
  constructor
  · intro decides source member
    have isFirst := List.head?_eq_some_head (List.ne_nil_of_mem member)
    rw [decides _ isFirst source member]
    exact refused _ isFirst
  · intro nobody first isFirst source member
    exact iff_of_false (nobody source member) (refused first isFirst)

/-- When the first source is let through, all of them must be. -/
theorem firstDecides_of_allowed {first : Str × FileFormat} (isFirst : first ∈ parsed.sources.head?)
    (allowed : filters.Allows first.1) :
    FirstDecides filters parsed ↔ ∀ source ∈ parsed.sources, filters.Allows source.1 := by
  constructor
  · exact fun decides source member => (decides first isFirst source member).mpr allowed
  · intro everybody other isOther source member
    exact iff_of_true (everybody source member) (everybody other (List.mem_of_mem_head? isOther))

/-- Passing nothing on is right when nothing is let through. -/
theorem filtered_nothing_iff {outcome : Outcome} (passed : outcome.passed = [])
    (results : outcome.ccResults = []) :
    Filtered filters machine parsed outcome ↔
      ∀ source ∈ parsed.sources, ¬ filters.Allows source.1 := by
  constructor
  · intro filtered source member allows
    have empty := filtered.passed
    rw [passed] at empty
    exact List.filter_eq_nil_iff.mp empty.symm source member (decide_eq_true allows)
  · intro nobody
    refine ⟨?_, ?_, fun source member allows => ?_⟩
    · rw [passed, eq_comm, List.filter_eq_nil_iff]
      exact fun source member allows => nobody source member (of_decide_eq_true allows)
    · rw [results]
      exact fun cc absent => nomatch absent
    · exact absurd allows (nobody source.1 (mem_sources_of_mem_allSources member))

/-- Passing everything on is right when everything is let through, before a failure. -/
theorem filtered_everything_iff {outcome : Outcome} {linkerKey : List Str} {profile : ToolProfile}
    (passed : outcome.passed = parsed.sources)
    (results : outcome.ccResults = (handleCompile linkerKey profile machine parsed).ccResults) :
    Filtered filters machine parsed outcome ↔
      (∀ source ∈ parsed.sources, filters.Allows source.1) ∧
        BeforeFailures filters machine parsed := by
  constructor
  · intro filtered
    have same := filtered.passed
    rw [passed, eq_comm, List.filter_eq_self] at same
    refine ⟨fun source member => of_decide_eq_true (same source member), ?_⟩
    intro source member allows succeeds
    have kept := filtered.kept source member allows succeeds
    rw [results] at kept
    exact mem_sources_iff.mp kept
  · rintro ⟨everybody, before⟩
    refine ⟨?_, ?_, fun source member allows succeeds => ?_⟩
    · rw [passed, eq_comm, List.filter_eq_self]
      exact fun source member => decide_eq_true (everybody source member)
    · rw [results]
      intro cc member
      obtain ⟨other, isSource, same, -⟩ := mem_sources_iff.mp (List.mem_map_of_mem member)
      rw [← same]
      exact (everybody other.1 (mem_sources_of_mem_allSources isSource)).2
    · rw [results]
      exact mem_sources_iff.mpr (before source member allows succeeds)

/-- **What the filtering of a parsed item comes down to.** -/
theorem filtered_iff (profile : ToolProfile) (compile : parsed.kind = .compile) :
    Filtered filters machine parsed (dispatch filters profile machine parsed) ↔
      FirstDecides filters parsed ∧ BeforeFailures filters machine parsed := by
  rcases @dispatch_compile filters machine parsed profile compile with
    ⟨passed, results, refused⟩ | ⟨passed, results, first, isFirst, allowed⟩
  · rw [filtered_nothing_iff passed results, firstDecides_of_refused refused]
    refine (and_iff_left_of_imp fun nobody source member allows => ?_).symm
    exact absurd allows (nobody source.1 (mem_sources_of_mem_allSources member))
  · rw [filtered_everything_iff passed results, firstDecides_of_allowed isFirst allowed]

end Lists

namespace CompileItem

variable {filters : Filters} {toolchain : ToolchainProfile} {machine : Machine}

/-- **`process` filters the sources of the item by the lists.** -/
def ListsRespected (item : CompileItem filters toolchain machine) : Prop :=
  ∃ outcome, process filters toolchain machine item.item = .ok outcome ∧
    Filtered filters machine item.parsed outcome

theorem process_eq (item : CompileItem filters toolchain machine) :
    process filters toolchain machine item.item =
      .ok (dispatch filters item.profile machine item.parsed) := by
  unfold process
  rw [item.recognised]
  dsimp only
  rw [item.directory, item.parses]
  rfl

theorem filtered_of_respected {item : CompileItem filters toolchain machine}
    (respected : item.ListsRespected) :
    FirstDecides filters item.parsed ∧ BeforeFailures filters machine item.parsed := by
  obtain ⟨outcome, ends, filtered⟩ := respected
  rw [item.process_eq] at ends
  cases ends
  exact (filtered_iff item.profile item.compile).mp filtered

/-- **The lists filter the sources of a compile item exactly when they have one verdict on all of
them, and the sources that succeed come before those that fail.** -/
theorem listsRespected_iff (item : CompileItem filters toolchain machine) :
    item.ListsRespected ↔
      FirstDecides filters item.parsed ∧ BeforeFailures filters machine item.parsed := by
  constructor
  · exact filtered_of_respected
  · intro both
    exact ⟨_, item.process_eq, (filtered_iff item.profile item.compile).mpr both⟩

end CompileItem

/-! ### A second source on the blacklist -/

/-- The blacklist has one file. -/
def blacklisting (file : String) : Filters where
  filterKey := []
  linkerKey := []
  whitelistFiles := []
  blacklistFiles := [file.toList]

/-- A toolchain with one tool. -/
def gccToolchain : ToolchainProfile :=
  (ToolchainProfile.empty.setBinary 0 "gcc".toList).own 0 bareProfile

/-- `gcc a.c b.c`, where `b.c` is on the blacklist. -/
def secondBlacklisted : CompileItem (blacklisting "/w/b.c") gccToolchain (machineFailingFrom 2) where
  item := ⟨"/w".toList, ["gcc".toList, "a.c".toList, "b.c".toList], none⟩
  profile := bareProfile
  parsed := { ParsedWorkItem.init with
    kind := .compile
    binary := "gcc".toList
    dir := "/w".toList
    fileFormat := .cSource
    sources := [("/w/a.c".toList, .cSource), ("/w/b.c".toList, .cSource)] }
  recognised := rfl
  directory := rfl
  parses := rfl
  compile := rfl

/-- The file on the blacklist is compiled. -/
theorem blacklisted_compiled :
    ¬ ∀ (filters : Filters) (toolchain : ToolchainProfile) (machine : Machine)
      (item : CompileItem filters toolchain machine), item.ListsRespected := by
  intro respected
  have decides := (CompileItem.filtered_of_respected (respected _ _ _ secondBlacklisted)).1
  have same := decides _ rfl ("/w/b.c".toList, .cSource) (List.mem_cons_of_mem _ List.mem_cons_self)
  exact absurd same (by decide)

end Xcalbuild.Processor
