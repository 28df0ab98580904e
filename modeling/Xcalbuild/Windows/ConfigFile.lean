/-
**The configuration file of the Windows tracer.**

`trace_with_windbg` writes the configurations of the binaries to a file, and the tracer reads its
`CompilerConfig` from the file before it starts the build.

* `parse_configText`: the array that the file holds;
* **`configuration_read`**: the tracer knows every alias of the toolchain profile, with the
  response-file arguments of its tool profile.
-/
import Xcalbuild.Library.JsonDump
import Xcalbuild.Profile.Loaded
import Xcalbuild.Windows.CompilerConfig

namespace Xcalbuild.Windows

open Library
open Library.Json (Textual dump latest latest_map latest_strings parse textual_strings)
open Profile (Address LoadEnv Loaded ToolOption ToolProfile ToolchainProfile)

/-! ### The file -/

/-- The file that `trace_with_windbg` writes. There is none where a tool profile does not exist any
more. -/
def configText (toolchain : ToolchainProfile) : Option Str :=
  toolchain.getBinariesToTrace.map fun binaries =>
    dump none (.arr (binaries.map Prod.snd)) ++ ['\n']

/-- The constructor of `CompilerConfig`, with the text of the file. -/
def CompilerConfig.ofText (text : Str) : Option (Except Json.Fault CompilerConfig) :=
  (parse text).map CompilerConfig.ofJson

/-- The entries of the response options of the tool profile at an address. -/
def entriesAt (toolchain : ToolchainProfile) (p : Address) : List ResponseFileEntry :=
  match toolchain.profiles.lookup p with
  | some tool => (tool.options.filter ToolOption.isResponse).flatMap entriesOf
  | none => []

/-- The configuration that a toolchain profile asks for. -/
def configOf (toolchain : ToolchainProfile) : CompilerConfig where
  compilers := toolchain.binaries.keys
  responseFileArguments := toolchain.binaries.entries.map fun entry =>
    (entry.1, entriesAt toolchain entry.2)

/-! ### Elements of the array -/

/-- The JSON value of an element. -/
def compilerJson (compiler : Str × List ResponseFileEntry) : Json :=
  .obj [("binary".toList, .str compiler.1), ("responseFileArgs".toList, .arr (compiler.2.map entryJson))]

theorem textual_compilerJson (compiler : Str × List ResponseFileEntry) :
    Textual (compilerJson compiler) := by
  refine .obj (List.forall_mem_cons.mpr ⟨.str _, List.forall_mem_singleton.mpr (.map ?_)⟩)
  intro entry _
  exact .obj (List.forall_mem_cons.mpr
    ⟨textual_strings entry.2, List.forall_mem_singleton.mpr (.str _)⟩)

/-- An entry is read back. -/
theorem readEntry_latest (entry : ResponseFileEntry) :
    readEntry (latest (entryJson entry)) = .ok entry := by
  have read : latest (entryJson entry) = .obj [("argument".toList, .str entry.1),
      ("argFormat".toList, .arr (entry.2.map .str))] := by
    rw [← latest_strings, entryJson, latest, Json.fold_obj]
    rfl
  have formats : (entry.2.map Json.str).mapM Json.getString = .ok entry.2 :=
    @mapM_map_ok _ _ _ Json.getString Json.str (fun _ => rfl) entry.2
  rw [read]
  show ((entry.2.map Json.str).mapM Json.getString >>= fun format => _) = _
  rw [formats]
  rfl

/-- An element is read back. -/
theorem readCompiler_latest (compiler : Str × List ResponseFileEntry) :
    readCompiler (latest (compilerJson compiler)) = .ok compiler := by
  have read : latest (compilerJson compiler) = .obj [("responseFileArgs".toList,
      .arr (compiler.2.map fun entry => latest (entryJson entry))),
      ("binary".toList, .str compiler.1)] := by
    rw [← latest_map, compilerJson, latest, Json.fold_obj]
    rfl
  have entries : (compiler.2.map fun entry => latest (entryJson entry)).mapM readEntry =
      .ok compiler.2 :=
    mapM_map_ok readEntry_latest compiler.2
  rw [read]
  show ((compiler.2.map fun entry => latest (entryJson entry)).mapM readEntry >>= fun args => _) = _
  rw [entries]
  rfl

/-! ### The whole configuration -/

section Loaded

variable {env : LoadEnv} {toolchain : ToolchainProfile}

/-- The binaries of a loaded toolchain profile, with their configurations. -/
theorem getBinariesToTrace_loaded (loaded : Loaded env toolchain) :
    toolchain.getBinariesToTrace = some (toolchain.binaries.entries.map fun entry =>
      (entry.1, compilerJson (entry.1, entriesAt toolchain entry.2))) := by
  have every : ∀ entry ∈ toolchain.binaries.entries,
      (toolchain.profiles.lookup entry.2).map
          (fun tool => (entry.1, ToolchainProfile.tracerConfig entry.1 tool)) =
        some (entry.1, compilerJson (entry.1, entriesAt toolchain entry.2)) := by
    rintro ⟨binary, p⟩ member
    have live := loaded.owned p (Or.inl ⟨binary, OrderedMap.mem_entries.mp member⟩)
    obtain ⟨⟨q, owned⟩, owns, rfl⟩ := List.mem_map.mp live
    have isSome := List.lookup_isSome_iff.mpr ⟨_, owns, beq_self_eq_true q⟩
    obtain ⟨tool, found⟩ := Option.isSome_iff_exists.mp isSome
    obtain ⟨j, loads⟩ := loaded.tools q tool (mem_of_lookup found)
    unfold entriesAt
    dsimp only
    rw [found, Option.map_some, ToolchainProfile.tracerConfig, (configLoaded_load loads).config]
    rfl
  unfold ToolchainProfile.getBinariesToTrace
  generalize toolchain.binaries.entries = entries at every ⊢
  induction entries with
  | nil => rfl
  | cons entry rest ih =>
    obtain ⟨here, every⟩ := List.forall_mem_cons.mp every
    rw [List.mapM_cons, here, ih every]
    rfl

/-- **The array in the file.** -/
theorem parse_configText (loaded : Loaded env toolchain) :
    ∃ text, configText toolchain = some text ∧ parse text =
      some (.arr ((configOf toolchain).responseFileArguments.map fun compiler =>
        latest (compilerJson compiler))) := by
  have textual : Textual (.arr ((configOf toolchain).responseFileArguments.map compilerJson)) :=
    .map fun compiler _ => textual_compilerJson compiler
  have newline : ∀ c ∈ ['\n'], Json.isBlank c = true := List.forall_mem_singleton.mpr rfl
  have read := Json.parse_dump_blanks none textual newline
  rw [latest_map] at read
  refine ⟨_, ?_, read⟩
  unfold configText
  rw [getBinariesToTrace_loaded loaded, Option.map_some, configOf, List.map_map, List.map_map]
  rfl

/-- **The tracer reads the configuration that the toolchain profile asks for.** -/
theorem configuration_read {profileJson : Json}
    (ran : (ToolchainProfile.load env profileJson).run .empty = .ok () toolchain) :
    ∃ text, configText toolchain = some text ∧
      CompilerConfig.ofText text = some (.ok (configOf toolchain)) := by
  obtain ⟨text, written, read⟩ := parse_configText (Profile.loaded_of_load ran)
  refine ⟨text, written, ?_⟩
  have compilers : ((configOf toolchain).responseFileArguments.map fun compiler =>
      latest (compilerJson compiler)).mapM readCompiler =
        .ok (configOf toolchain).responseFileArguments :=
    mapM_map_ok readCompiler_latest _
  unfold CompilerConfig.ofText
  rw [read, Option.map_some, CompilerConfig.ofJson, compilers, configOf]
  refine congrArg (fun names => some (Except.ok (CompilerConfig.mk names _))) ?_
  rw [List.map_map]
  rfl

end Loaded

/-! ### A response option -/

/-- The tool profile in `gcc.json` has a response option. -/
def responseEnv : LoadEnv :=
  { Profile.oneFileEnv with
    toolFile := fun path => if path = "gcc.json".toList then
        some (Profile.profileWith (.obj [("aliases".toList, .arr [.str "-f".toList]),
          ("type".toList, .str "response".toList), ("argFormat".toList, .arr [.str "space".toList])]))
      else none }

theorem configuration_read_response : ∃ toolchain,
    (ToolchainProfile.load responseEnv (Profile.gccWith [.str "gcc".toList])).run .empty =
        .ok () toolchain ∧
      ∃ text, configText toolchain = some text ∧
        CompilerConfig.ofText text = some (.ok (configOf toolchain)) := by
  obtain ⟨toolchain, ran⟩ : ∃ toolchain,
      (ToolchainProfile.load responseEnv (Profile.gccWith [.str "gcc".toList])).run .empty =
        .ok () toolchain :=
    ⟨_, rfl⟩
  exact ⟨toolchain, ran, configuration_read ran⟩

end Xcalbuild.Windows
