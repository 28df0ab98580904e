/-
**Sources of two languages in one command.**

Each source of a compile item should be preprocessed on its own. The preprocessor runs are
(`handleCompile_succeeded`), but a source clears the scan options of the other language in the item
that the sources share, so a later source of that language finds none.

* `cScanOptions_clearAll`, `cxxScanOptions_clearAll`: what is left of the options after some sources;
* `sourcesIndependent_iff`: the result of a source does not depend on the sources before it exactly
  when no options are cleared that a later source has (`OptionsKept`).
-/
import Xcalbuild.Processor.Compile

namespace Xcalbuild.Processor

open Library
open Build (CCResult)
open Profile (FileFormat ParsedWorkItem ToolProfile)

/-- The sources of an item that are there. -/
abbrev sourcesOf (machine : Machine) (parsed : ParsedWorkItem) : List Source :=
  existing machine parsed.sources.zipIdx

/-- The result of a source as the item asks for it: with the scan options of its language. -/
structure OwnResult (profile : ToolProfile) (machine : Machine) (parsed : ParsedWorkItem)
    (source : Source) (cc : CCResult) : Prop where
  ofFile : cc.source = source.file
  ofFormat : cc.format = source.format
  c : source.format = .cSource → cc.cScanOptions = parsed.cScanOptions
  cxx : source.format = .cxxSource → cc.cxxScanOptions = parsed.cxxScanOptions
  alone : source.format = .cSource ∨ source.format = .cxxSource →
    cc = ccResult profile machine (multiSources parsed) source
      (clearScanOptions source.format (withTarget machine parsed))

/-- **The sources of an item are handled on their own**: each one that is there has its result, and
the preprocessor runs on it with the options for its format and its temporary path. -/
structure SourcesIndependent (linkerKey : List Str) (profile : ToolProfile) (machine : Machine)
    (parsed : ParsedWorkItem) : Prop where
  count : (handleCompile linkerKey profile machine parsed).ccResults.length =
    (sourcesOf machine parsed).length
  result : ∀ (k : Nat) (source : Source), (sourcesOf machine parsed)[k]? = some source →
    ∃ cc, (handleCompile linkerKey profile machine parsed).ccResults[k]? = some cc ∧
      OwnResult profile machine parsed source cc
  commands : (handleCompile linkerKey profile machine parsed).commands =
    (sourcesOf machine parsed).map fun source =>
      { binary := machine.searchBinary parsed.binary parsed.dir
        args := getPreprocessingOptions profile (sourceTemp machine source) source.format parsed ++
          [source.file]
        startDir := parsed.dir }

/-- No source clears options that a later one has. -/
def OptionsKept (machine : Machine) (parsed : ParsedWorkItem) : Prop :=
  (sourcesOf machine parsed).Pairwise fun first second =>
    (first.format = .cxxSource → second.format = .cSource → parsed.cScanOptions = []) ∧
      (first.format = .cSource → second.format = .cxxSource → parsed.cxxScanOptions = [])

/-! ### What is left of the options -/

theorem cScanOptions_clearAll (formats : List FileFormat) (parsed : ParsedWorkItem) :
    (clearAll formats parsed).cScanOptions =
      if .cxxSource ∈ formats then [] else parsed.cScanOptions := by
  rw [clearAll_eq]

theorem cxxScanOptions_clearAll (formats : List FileFormat) (parsed : ParsedWorkItem) :
    (clearAll formats parsed).cxxScanOptions =
      if .cSource ∈ formats then [] else parsed.cxxScanOptions := by
  rw [clearAll_eq]

theorem cScanOptions_withTarget (machine : Machine) (parsed : ParsedWorkItem) :
    (withTarget machine parsed).cScanOptions = parsed.cScanOptions := by
  unfold withTarget
  split_ifs <;> rfl

theorem cxxScanOptions_withTarget (machine : Machine) (parsed : ParsedWorkItem) :
    (withTarget machine parsed).cxxScanOptions = parsed.cxxScanOptions := by
  unfold withTarget
  split_ifs <;> rfl

theorem sourceCommand_withTarget (profile : ToolProfile) (machine : Machine)
    (parsed : ParsedWorkItem) (source : Source) :
    sourceCommand profile machine source (withTarget machine parsed) =
      sourceCommand profile machine source parsed := by
  unfold withTarget
  split_ifs <;> rfl

section Item

variable {linkerKey : List Str} {profile : ToolProfile} {machine : Machine}
  {parsed : ParsedWorkItem}

/-- A format among the sources up to a position, when the source there has another one. -/
theorem mem_formats_iff {sources : List Source} {k : Nat} {source : Source}
    (listed : sources[k]? = some source) {format : FileFormat} (differs : source.format ≠ format) :
    format ∈ (sources.take (k + 1)).map Source.format ↔
      ∃ (j : Nat) (earlier : Source), j < k ∧ sources[j]? = some earlier ∧
        earlier.format = format := by
  rw [List.mem_map]
  constructor
  · rintro ⟨earlier, member, same⟩
    obtain ⟨j, found⟩ := List.getElem?_of_mem member
    have inside : j < k + 1 := by
      have := (List.getElem?_eq_some_iff.mp found).1
      rw [List.length_take] at this
      omega
    rw [List.getElem?_take_of_lt inside] at found
    have before : j ≠ k := by
      rintro rfl
      rw [listed] at found
      cases found
      exact differs same
    exact ⟨j, earlier, by omega, found, same⟩
  · rintro ⟨j, earlier, before, found, same⟩
    refine ⟨earlier, List.mem_of_getElem? (i := j) ?_, same⟩
    rw [List.getElem?_take_of_lt (by omega)]
    exact found

theorem optionsKept_iff : OptionsKept machine parsed ↔
    ∀ (j k : Nat) (first second : Source), j < k → (sourcesOf machine parsed)[j]? = some first →
      (sourcesOf machine parsed)[k]? = some second →
        (first.format = .cxxSource → second.format = .cSource → parsed.cScanOptions = []) ∧
          (first.format = .cSource → second.format = .cxxSource → parsed.cxxScanOptions = []) := by
  rw [OptionsKept, List.pairwise_iff_getElem]
  constructor
  · intro kept j k first second before atJ atK
    obtain ⟨insideJ, rfl⟩ := List.getElem?_eq_some_iff.mp atJ
    obtain ⟨insideK, rfl⟩ := List.getElem?_eq_some_iff.mp atK
    exact kept j k insideJ insideK before
  · intro kept j k insideJ insideK before
    exact kept j k _ _ before (List.getElem?_eq_getElem insideJ) (List.getElem?_eq_getElem insideK)

/-- **When every run succeeds, the sources that are there are handled one after the other.** -/
theorem handleCompile_succeeded (linkerKey : List Str) (profile : ToolProfile)
    (succeeds : ∀ source ∈ sourcesOf machine parsed, machine.exitCode source.position = 0) :
    (handleCompile linkerKey profile machine parsed).ccResults =
        resultsOf profile machine (multiSources parsed) (withTarget machine parsed)
          (sourcesOf machine parsed) ∧
      (handleCompile linkerKey profile machine parsed).commands =
        (sourcesOf machine parsed).map fun source => sourceCommand profile machine source parsed := by
  rcases sourceLoop_cases profile machine parsed with
    ⟨state, inv, ends⟩ | ⟨done, source, rest, state, parts, inv, there, fails, ends⟩
  · unfold handleCompile
    rw [ends]
    refine ⟨inv.results, inv.commands.trans ?_⟩
    exact List.map_congr_left fun source _ => sourceCommand_withTarget profile machine parsed source
  · have member : source ∈ sourcesOf machine parsed := by
      refine List.mem_filter.mpr ⟨?_, there⟩
      rw [parts]
      exact List.mem_append_right _ List.mem_cons_self
    exact absurd (succeeds source member) fails

/-- Options that a format clears are kept at a position exactly when there are none or no source
before has that format. -/
theorem kept_iff {sources : List Source} {k : Nat} {source : Source}
    (listed : sources[k]? = some source) {format : FileFormat} (differs : source.format ≠ format)
    (options : List Str) :
    (if format ∈ (sources.take (k + 1)).map Source.format then [] else options) = options ↔
      ∀ (j : Nat) (earlier : Source), j < k → sources[j]? = some earlier →
        earlier.format = format → options = [] := by
  constructor
  · intro kept j earlier before found same
    rw [if_pos ((mem_formats_iff listed differs).mpr ⟨j, earlier, before, found, same⟩)] at kept
    exact kept.symm
  · intro absent
    split_ifs with member
    · obtain ⟨j, earlier, before, found, same⟩ := (mem_formats_iff listed differs).mp member
      exact (absent j earlier before found same).symm
    · rfl

/-- An item that has kept its options is as if only the last format had cleared any. -/
theorem clearAll_of_kept {formats : List FileFormat} {format : FileFormat} {item : ParsedWorkItem}
    (here : format ∈ formats) (isC : format = .cSource →
      (clearAll formats item).cScanOptions = item.cScanOptions)
    (isCxx : format = .cxxSource → (clearAll formats item).cxxScanOptions = item.cxxScanOptions)
    (language : format = .cSource ∨ format = .cxxSource) :
    clearAll formats item = clearScanOptions format item := by
  rcases language with rfl | rfl
  · have kept := isC rfl
    rw [clearAll_eq, if_pos here] at kept ⊢
    show { item with cScanOptions := _, cxxScanOptions := [] } = _
    rw [show (if .cxxSource ∈ formats then [] else item.cScanOptions) = item.cScanOptions from kept]
    rfl
  · have kept := isCxx rfl
    rw [clearAll_eq, if_pos here] at kept ⊢
    show { item with cScanOptions := [], cxxScanOptions := _ } = _
    rw [show (if .cSource ∈ formats then [] else item.cxxScanOptions) = item.cxxScanOptions
      from kept]
    rfl

/-- The result of a source that comes after others. -/
theorem ownResult_iff {sources : List Source} {k : Nat} {source : Source}
    (listed : sources[k]? = some source) :
    OwnResult profile machine parsed source (ccResult profile machine (multiSources parsed) source
        (clearAll ((sources.take (k + 1)).map Source.format) (withTarget machine parsed))) ↔
      ∀ (j : Nat) (earlier : Source), j < k → sources[j]? = some earlier →
        (earlier.format = .cxxSource → source.format = .cSource → parsed.cScanOptions = []) ∧
          (earlier.format = .cSource → source.format = .cxxSource →
            parsed.cxxScanOptions = []) := by
  have here : source.format ∈ (sources.take (k + 1)).map Source.format := by
    refine List.mem_map_of_mem (List.mem_of_getElem? (i := k) ?_)
    rw [List.getElem?_take_of_lt (Nat.lt_succ_self k)]
    exact listed
  have c : source.format = .cSource →
      ((clearAll ((sources.take (k + 1)).map Source.format) (withTarget machine parsed)).cScanOptions =
        parsed.cScanOptions ↔ ∀ (j : Nat) (earlier : Source), j < k → sources[j]? = some earlier →
          earlier.format = .cxxSource → parsed.cScanOptions = []) := by
    intro isC
    rw [cScanOptions_clearAll, cScanOptions_withTarget]
    exact kept_iff listed (by rw [isC]; decide) _
  have cxx : source.format = .cxxSource →
      ((clearAll ((sources.take (k + 1)).map Source.format)
        (withTarget machine parsed)).cxxScanOptions = parsed.cxxScanOptions ↔
        ∀ (j : Nat) (earlier : Source), j < k → sources[j]? = some earlier →
          earlier.format = .cSource → parsed.cxxScanOptions = []) := by
    intro isCxx
    rw [cxxScanOptions_clearAll, cxxScanOptions_withTarget]
    exact kept_iff listed (by rw [isCxx]; decide) _
  constructor
  · intro own j earlier before found
    exact ⟨fun isCxx isC => (c isC).mp (own.c isC) j earlier before found isCxx,
      fun isC isCxx => (cxx isCxx).mp (own.cxx isCxx) j earlier before found isC⟩
  · intro kept
    have cKept := fun isC => (c isC).mpr fun j earlier before found isCxx =>
      (kept j earlier before found).1 isCxx isC
    have cxxKept := fun isCxx => (cxx isCxx).mpr fun j earlier before found isC =>
      (kept j earlier before found).2 isC isCxx
    refine ⟨rfl, rfl, cKept, cxxKept, fun language => ?_⟩
    rw [← cScanOptions_withTarget machine parsed] at cKept
    rw [← cxxScanOptions_withTarget machine parsed] at cxxKept
    rw [clearAll_of_kept here cKept cxxKept language]

theorem result_at (linkerKey : List Str) (profile : ToolProfile)
    (succeeds : ∀ source ∈ sourcesOf machine parsed, machine.exitCode source.position = 0)
    {k : Nat} {source : Source} (listed : (sourcesOf machine parsed)[k]? = some source) :
    (handleCompile linkerKey profile machine parsed).ccResults[k]? =
      some (ccResult profile machine (multiSources parsed) source (clearAll
        (((sourcesOf machine parsed).take (k + 1)).map Source.format)
        (withTarget machine parsed))) := by
  rw [(handleCompile_succeeded linkerKey profile succeeds).1, resultsOf, List.getElem?_mapIdx, listed,
    Option.map_some]

theorem optionsKept_of_independent
    (succeeds : ∀ source ∈ sourcesOf machine parsed, machine.exitCode source.position = 0)
    (independent : SourcesIndependent linkerKey profile machine parsed) :
    OptionsKept machine parsed := by
  rw [optionsKept_iff]
  intro j k first second before atJ atK
  obtain ⟨cc, found, own⟩ := independent.result k second atK
  rw [result_at linkerKey profile succeeds atK] at found
  cases found
  exact (ownResult_iff atK).mp own j first before atJ

theorem independent_of_optionsKept
    (succeeds : ∀ source ∈ sourcesOf machine parsed, machine.exitCode source.position = 0)
    (kept : OptionsKept machine parsed) :
    SourcesIndependent linkerKey profile machine parsed := by
  obtain ⟨results, commands⟩ := handleCompile_succeeded linkerKey profile succeeds
  refine ⟨?_, ?_, commands⟩
  · rw [results, resultsOf, List.length_mapIdx]
  · intro k source listed
    exact ⟨_, result_at linkerKey profile succeeds listed, (ownResult_iff listed).mpr
      fun j earlier before found => optionsKept_iff.mp kept j k earlier source before found listed⟩

/-- **When every run succeeds, the sources are handled on their own exactly when no source clears
options that a later one has.** -/
theorem sourcesIndependent_iff
    (succeeds : ∀ source ∈ sourcesOf machine parsed, machine.exitCode source.position = 0) :
    SourcesIndependent linkerKey profile machine parsed ↔ OptionsKept machine parsed :=
  ⟨optionsKept_of_independent succeeds, independent_of_optionsKept succeeds⟩

end Item

/-! ### A C++ source before a C source -/

/-- A profile without options. -/
def bareProfile : ToolProfile where
  profileJson := .null
  aliases := ["gcc".toList]
  cAliases := ["gcc".toList]
  cxxAliases := []
  defaultCommandKind := .compile
  responseFileConfig := []
  options := []
  responseFileOption := none
  preprocessOption := none
  outputOption := none
  preIncludeOption := none
  sysIncPathOption := none
  optionPrefix := some "-".toList
  cPrependPreprocessingOptions := []
  cxxPrependPreprocessingOptions := []
  cAppendPreprocessingOptions := []
  cxxAppendPreprocessingOptions := []
  cPrependScanOptions := []
  cxxPrependScanOptions := []
  cPreIncludes := []
  cxxPreIncludes := []
  cSysIncPaths := []
  cxxSysIncPaths := []
  sourceExtensions := [(".c".toList, .cSource), (".cc".toList, .cxxSource)]
  targetExtensions := []
  textSubstitutions := []

/-- All sources are there, and the preprocessor gives up on the ones from a position on. -/
def machineFailingFrom (position : Nat) : Machine where
  host := ⟨fun path dir => Path.append dir path, fun _ _ => none⟩
  searchBinary binary _ := "/usr/bin/".toList ++ binary
  tempTarget := "/out/t".toList
  tempPath i := "/out/p".toList ++ decimal i
  uniquePath i := "/w/u".toList ++ decimal i
  uniquePath_injective _ _ same := decimal_injective (List.append_cancel_left same)
  present _ := true
  exitCode i := if i < position then 0 else 1
  ppOutput _ := []
  isDirectory _ := false
  substitute _ text := text
  sha1 _ := "da39a3ee5e6b4b0d3255bfef95601890afd80709".toList

/-- A compile item with scan options for both languages. -/
def compileItem (sources : List (Str × FileFormat)) : ParsedWorkItem :=
  { ParsedWorkItem.init with
    kind := .compile
    binary := "gcc".toList
    dir := "/w".toList
    sources
    target := "/w/t".toList
    cScanOptions := ["-std=c99".toList]
    cxxScanOptions := ["-std=c++14".toList] }

/-- The C source after a C++ source has no scan options. -/
theorem scan_options_lost :
    ¬ ∀ (linkerKey : List Str) (profile : ToolProfile) (machine : Machine)
      (parsed : ParsedWorkItem),
      (∀ source ∈ sourcesOf machine parsed, machine.exitCode source.position = 0) →
        SourcesIndependent linkerKey profile machine parsed := by
  intro independent
  have succeeds : ∀ source ∈ sourcesOf (machineFailingFrom 2)
      (compileItem [("/w/a.cc".toList, .cxxSource), ("/w/b.c".toList, .cSource)]),
        (machineFailingFrom 2).exitCode source.position = 0 := by decide
  have kept := optionsKept_of_independent succeeds (independent [] bareProfile _ _ succeeds)
  have cleared := (optionsKept_iff.mp kept 0 1 _ _ (by decide) rfl rfl).1 rfl rfl
  exact absurd cleared (by decide)

/-- Two C sources keep the options. -/
theorem sourcesIndependent_two :
    SourcesIndependent [] bareProfile (machineFailingFrom 2)
      (compileItem [("/w/a.c".toList, .cSource), ("/w/b.c".toList, .cSource)]) := by
  refine (sourcesIndependent_iff (by decide)).mpr ?_
  unfold OptionsKept
  decide

end Xcalbuild.Processor
