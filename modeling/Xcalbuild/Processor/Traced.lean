/-
**One build, whichever tracer is used.**

The tracer that is preloaded and strace describe a build by a compile database each. The databases are
written by different code: one prints its objects by hand and puts quotes around an argument with
spaces, the other dumps values that it has from the lines of strace. `BuildProcessor::process` loads
either, and takes the quotes off when it parses a work item.

* `ReadAlike`: entries that may differ in the quotes around arguments after the first one;
* `results_alike`: the detection, the prober and the processing do the same on such entries;
* `loadCdb_bear`, `loadCdb_strace`: the entries that are loaded from the databases;
* **`tracers_agree`**: with both databases a build has the same results.
-/
import Xcalbuild.Library.JsonDump
import Xcalbuild.Processor.Parallel
import Xcalbuild.Tracer.CompileDatabase
import Xcalbuild.Tracer.Compilers
import Xcalbuild.Tracer.Strace

namespace Xcalbuild.Processor

open Library
open Library.Json (Textual dump latest parse parse_dump)
open Profile (Address Host SpecItem ToolProfile ToolchainProfile WorkItem parseWorkItem rawArgs unquote)
open Prober (ProbeHost ProbeState probeItem probeProfile probeToolchain)
open Tracer (ExecveCall Message PrintedAsIs argValue basename collectMessages compilersOf
  isKnownCompiler objectValue straceFile traceWithStrace)

/-! ### Entries that are read alike -/

/-- Two complete entries that may differ in the quotes around arguments after the first one. -/
def ReadAlike (a b : SpecItem) : Prop :=
  ∃ dir first rest rest',
    (a.directory = some dir ∧ a.arguments = some (first :: rest)) ∧
    (b.directory = some dir ∧ b.arguments = some (first :: rest')) ∧
    rest.map unquote = rest'.map unquote ∧ a.respfile = b.respfile

section Alike

variable {a b : SpecItem} {toolchain : ToolchainProfile}

/-- The lookup goes by the first argument. -/
theorem ReadAlike.lookup (alike : ReadAlike a b) :
    toolchain.getMutableToolProfileAndBinaryPath a.json =
      toolchain.getMutableToolProfileAndBinaryPath b.json := by
  obtain ⟨dir, first, rest, rest', ⟨-, args⟩, ⟨-, args'⟩, -, -⟩ := alike
  rw [a.lookup_eq, b.lookup_eq]
  unfold SpecItem.recognise
  rw [args, args']

theorem ReadAlike.directory (alike : ReadAlike a b) :
    a.json.atKey "directory".toList = b.json.atKey "directory".toList := by
  obtain ⟨dir, first, rest, rest', ⟨isDir, -⟩, ⟨isDir', -⟩, -, -⟩ := alike
  rw [a.at_directory isDir, b.at_directory isDir']

theorem countItem_alike (alike : ReadAlike a b) (state : OrderedMap Str Nat × Nat) :
    countItem toolchain state a.json = countItem toolchain state b.json := by
  unfold countItem
  rw [alike.lookup]

theorem probeProfile_alike (alike : ReadAlike a b) (host : ProbeHost) (p : Address)
    (binaryPath : Path) (state : ProbeState) :
    probeProfile host p binaryPath a.json state = probeProfile host p binaryPath b.json state := by
  unfold probeProfile
  rw [alike.directory]

theorem probeItem_alike (alike : ReadAlike a b) (host : ProbeHost) (state : ProbeState) :
    probeItem host state a.json = probeItem host state b.json := by
  have same := alike
  obtain ⟨dir, first, rest, rest', ⟨isDir, args⟩, ⟨isDir', args'⟩, -, -⟩ := alike
  unfold probeItem
  rw [a.count_directory, b.count_directory, a.count_arguments, b.count_arguments, isDir, isDir', args,
    args', a.at_arguments args, b.at_arguments args', same.lookup]
  simp only [probeProfile_alike same]
  rfl

/-- The parsing reads the directory, the unquoted arguments and the response file. -/
theorem parseWorkItem_congr (profile : ToolProfile) (host : Host) {item item' : WorkItem}
    (directory : item.directory = item'.directory) (args : rawArgs item = rawArgs item')
    (respfile : item.respfile = item'.respfile) :
    parseWorkItem profile host item = parseWorkItem profile host item' := by
  obtain ⟨dir, args', respfile'⟩ := item
  obtain ⟨dir', args'', respfile''⟩ := item'
  subst directory
  subst respfile
  unfold parseWorkItem
  rw [args]
  rfl

theorem processItem_alike (alike : ReadAlike a b) (filters : Filters) (machine : Machine) :
    processItem filters toolchain machine a.json = processItem filters toolchain machine b.json := by
  have same := alike
  obtain ⟨dir, first, rest, rest', ⟨isDir, args⟩, ⟨isDir', args'⟩, unquoted, respfile⟩ := alike
  have parsed : ∀ profile, parseWorkItem profile machine.host ⟨dir, first :: rest, a.respfile⟩ =
      parseWorkItem profile machine.host ⟨dir, first :: rest', b.respfile⟩ := by
    intro profile
    refine parseWorkItem_congr profile machine.host rfl ?_ respfile
    show unquote first :: rest.map unquote = unquote first :: rest'.map unquote
    rw [unquoted]
  unfold processItem
  rw [same.lookup, same.directory, readWorkItem_eq isDir args, readWorkItem_eq isDir' args']
  simp only [Except.mapError, ok_bind, parsed]

end Alike

/-- Loops over the entries of two databases. -/
theorem loop_alike {σ ε : Type} {step : σ → Json → Except ε σ}
    (each : ∀ a b, ReadAlike a b → ∀ s, step s a.json = step s b.json) {cdb cdb' : List SpecItem}
    (alike : List.Forall₂ ReadAlike cdb cdb') (s : σ) :
    (cdb.map SpecItem.json).foldlM step s = (cdb'.map SpecItem.json).foldlM step s := by
  apply foldlM_related
  rw [List.forall₂_map_left_iff, List.forall₂_map_right_iff]
  exact alike.imp each

/-! ### The whole process -/

/-- The entries with the machines that they meet. -/
def onMachines (machine : Nat → Machine) (cdb : List Json) : List (Json × Machine) :=
  cdb.zipIdx.map fun entry => (entry.1, machine entry.2)

theorem onMachines_entries (machine : Nat → Machine) (cdb : List Json) :
    (onMachines machine cdb).map Prod.fst = cdb := by
  unfold onMachines
  rw [List.map_map]
  exact List.zipIdx_map_fst 0 cdb

/-- Related lists are related place by place. -/
theorem forall₂_zipIdx {α β : Type} {r : α → β → Prop} {l : List α} {m : List β}
    (related : List.Forall₂ r l m) (n : Nat) :
    List.Forall₂ (fun x y => r x.1 y.1 ∧ x.2 = y.2) (l.zipIdx n) (m.zipIdx n) := by
  induction related generalizing n with
  | nil => exact .nil
  | cons here _ ih => exact .cons ⟨here, rfl⟩ (ih (n + 1))

/-- **Entries that are read alike have the same results.** -/
theorem results_alike (build : ProcessorRun) {cdb cdb' : List SpecItem}
    (alike : List.Forall₂ ReadAlike cdb cdb') (machine : Nat → Machine) :
    build.results (onMachines machine (cdb.map SpecItem.json)) =
      build.results (onMachines machine (cdb'.map SpecItem.json)) := by
  have detects : build.actual (cdb.map SpecItem.json) = build.actual (cdb'.map SpecItem.json) := by
    unfold ProcessorRun.actual detectToolchainProfile
    rw [loop_alike (fun _ _ same => countItem_alike same) alike]
  have probes : ∀ toolchain, probeToolchain build.host (cdb.map SpecItem.json) toolchain =
      probeToolchain build.host (cdb'.map SpecItem.json) toolchain := fun toolchain =>
    loop_alike (fun _ _ same => probeItem_alike same build.host) alike _
  have processes : ∀ ready, build.processAll ready (onMachines machine (cdb.map SpecItem.json)) =
      build.processAll ready (onMachines machine (cdb'.map SpecItem.json)) := by
    intro ready
    apply foldlM_related
    unfold onMachines
    rw [List.zipIdx_map, List.zipIdx_map, List.map_map, List.map_map, List.forall₂_map_left_iff,
      List.forall₂_map_right_iff]
    refine (forall₂_zipIdx alike 0).imp fun x y related s => ?_
    have same : processItem build.filters ready (machine x.2) x.1.json =
        processItem build.filters ready (machine x.2) y.1.json :=
      processItem_alike related.1 build.filters (machine x.2)
    show (processItem build.filters ready (machine x.2) x.1.json).mapError _ >>= _ =
      (processItem build.filters ready (machine y.2) y.1.json).mapError _ >>= _
    rw [same, related.2]
  unfold ProcessorRun.results
  rw [onMachines_entries, onMachines_entries, detects]
  simp only [probes, processes]

/-- `BuildProcessor::load_cdb`, with the entries that the loops go through. -/
def loadCdb (text : Str) : Option (List Json) := (parse text).map Json.range

/-- **`BuildProcessor::process`, from the text of the compile database.** It is given up when the
text cannot be parsed. -/
def ProcessorRun.process (build : ProcessorRun) (machine : Nat → Machine) (text : Str) :
    Option (Except BuildFault Outcome) :=
  (loadCdb text).map fun cdb => build.results (onMachines machine cdb)

/-! ### Commands that both tracers see -/

/-- **A command of the build**, as both tracers see it. -/
structure Execution where
  call : ExecveCall
  message : Message
  cmd : message.cmd = call.argv
  /-- The directory is the one of the environment. -/
  cwd : message.cwd = call.pwd
  /-- There is no response file. -/
  respFile : message.respFile = []
  /-- The command is called by the name of its file. -/
  name : basename (call.argv.head call.argv_ne_nil) = Path.filename call.path

/-- The names in `get_binaries_to_trace()`. -/
def tracedBinaries (toolchain : ToolchainProfile) : OrderedMap Str Path where
  entries := toolchain.binaries.entries.map fun entry => (entry.1, entry.1)
  sorted := List.pairwise_map.mpr toolchain.binaries.sorted

/-- The compile database that the preloaded tracer writes. -/
def bearDatabase (toolchain : ToolchainProfile) (executions : List Execution) : Str :=
  collectMessages (compilersOf toolchain) false (executions.map Execution.message)

/-- The compile database that is written from the lines of strace. -/
def straceDatabase (toolchain : ToolchainProfile) (executions : List Execution) : Option Str :=
  (traceWithStrace (tracedBinaries toolchain) 0 (straceFile (executions.map Execution.call))).2.map
    (dump (some 2))

/-- The record of a call, as it is read back. -/
theorem latest_record (call : ExecveCall) : latest call.record =
    .obj [("directory".toList, .str call.pwd), ("arguments".toList, .arr (call.argv.map .str))] := by
  rw [← Json.latest_strings, ExecveCall.record, latest, Json.fold_obj]
  rfl

theorem textual_records (calls : List ExecveCall) : Textual (.arr (calls.map ExecveCall.record)) := by
  refine .map fun call _ => ?_
  exact .obj (List.forall_mem_cons.mpr ⟨Json.textual_strings call.argv,
    List.forall_mem_singleton.mpr (.str _)⟩)

section Execution

variable {toolchain : ToolchainProfile} (execution : Execution)

namespace Execution

/-- The name that the command is called by. -/
def binary : Str := execution.call.argv.head execution.call.argv_ne_nil

theorem argv_eq : execution.call.argv = execution.binary :: execution.call.argv.tail :=
  (List.cons_head_tail execution.call.argv_ne_nil).symm

/-- The tracers record the command. -/
def seen (toolchain : ToolchainProfile) : Bool := execution.call.known (tracedBinaries toolchain)

/-- **The tracers record the same commands.** -/
theorem known_eq_seen (aliased : toolchain.binaries.keys ≠ [])
    (plain : ∀ binary ∈ toolchain.binaries.keys, ',' ∉ binary ∧ '\x00' ∉ binary) :
    Tracer.known (compilersOf toolchain) execution.message = execution.seen toolchain := by
  have keys : (tracedBinaries toolchain).keys = toolchain.binaries.keys := by
    unfold OrderedMap.keys tracedBinaries
    rw [List.map_map]
    rfl
  rw [Bool.eq_iff_iff, Tracer.known, execution.cmd, execution.argv_eq]
  show isKnownCompiler _ execution.binary = true ↔ ((tracedBinaries toolchain).find _).isSome = true
  rw [Tracer.accepted_iff_alias execution.binary aliased plain, ← keys, OrderedMap.mem_keys, binary,
    execution.name, Option.isSome_iff_exists]

/-- The entry of the command in the database of the preloaded tracer. -/
def bearItem : SpecItem where
  json := objectValue execution.message
  directory := some execution.call.pwd
  arguments := some (execution.call.argv.map argValue)
  respfile := none
  hasDirectory := by
    unfold objectValue
    rw [execution.respFile, execution.cwd]
    rfl
  hasArguments := by
    unfold objectValue
    rw [execution.respFile, execution.cmd, Option.map_some, List.map_map]
    rfl
  hasRespfile := by
    unfold objectValue
    rw [execution.respFile]
    rfl

/-- The entry of the command in the database from strace. -/
def straceItem : SpecItem where
  json := latest execution.call.record
  directory := some execution.call.pwd
  arguments := some execution.call.argv
  respfile := none
  hasDirectory := by
    rw [latest_record]
    rfl
  hasArguments := by
    rw [latest_record]
    rfl
  hasRespfile := by
    rw [latest_record]
    rfl

end Execution

/-! ### Arguments as they are printed -/

theorem isSpace_iff_of_printed {c : Char} (printed : PrintedAsIs c) : isSpace c = true ↔ c = ' ' := by
  obtain ⟨least, -, -⟩ := printed
  constructor
  · intro space
    unfold isSpace at space
    simp only [Bool.or_eq_true, decide_eq_true_eq] at space
    rcases space with (((((blank | tab) | newline) | vertical) | feed) | return_)
    · exact blank
    all_goals
      subst c
      exact absurd least (by decide)
  · rintro rfl
    rfl

theorem spaced_printed {arg : Str} (printed : ∀ c ∈ arg, PrintedAsIs c) :
    arg.map Tracer.spaced = arg := by
  have each : ∀ c ∈ arg, Tracer.spaced c = id c := by
    intro c member
    unfold Tracer.spaced
    by_cases space : isSpace c = true
    · rw [if_pos space, (isSpace_iff_of_printed (printed c member)).mp space]
      rfl
    · rw [if_neg space]
      rfl
  rw [List.map_congr_left each, List.map_id]

/-- A printed argument has no quotes to take off. -/
theorem unquote_printed {arg : Str} (printed : ∀ c ∈ arg, PrintedAsIs c) : unquote arg = arg := by
  unfold unquote
  rw [if_neg]
  rintro ⟨starts, -⟩
  exact (printed _ (List.mem_of_mem_head? starts)).2.2.1 rfl

/-- **The quotes around an argument with spaces are taken off again.** -/
theorem unquote_argValue {arg : Str} (printed : ∀ c ∈ arg, PrintedAsIs c) :
    unquote (argValue arg) = unquote arg := by
  unfold argValue
  rw [spaced_printed printed]
  by_cases noSpace : arg.countP isSpace = 0
  · rw [if_pos noSpace]
  · rw [if_neg noSpace, unquote_printed printed]
    unfold unquote
    rw [if_pos ⟨rfl, by rw [List.getLast?_append]; rfl⟩]
    exact List.dropLast_concat

theorem argValue_of_noBlank {arg : Str} (printed : ∀ c ∈ arg, PrintedAsIs c) (noBlank : ' ' ∉ arg) :
    argValue arg = arg := by
  unfold argValue
  rw [spaced_printed printed, if_pos]
  refine List.countP_eq_zero.mpr fun c member space => ?_
  rw [isSpace_iff_of_printed (printed c member)] at space
  exact noBlank (space ▸ member)

theorem plain_printed {c : Char} (printed : PrintedAsIs c) : Json.Plain c := by
  obtain ⟨least, -, noQuote, noBackslash⟩ := printed
  exact ⟨not_lt.mpr least, noQuote, noBackslash⟩

/-- **Nothing in the message has to be escaped that is not.** -/
theorem Execution.clean : Tracer.Clean execution.message where
  cwd := by
    have entry : Tracer.pwdKey ++ execution.call.pwd ∈ execution.call.env :=
      (List.mem_filter.mp (execution.call.pwd_only ▸ List.mem_singleton_self _)).1
    rw [execution.cwd]
    exact fun c member =>
      plain_printed (execution.call.env_printed _ entry c (List.mem_append_right _ member))
  cmd := by
    rw [execution.cmd]
    intro arg member c inside
    have printed := execution.call.argv_printed arg member c inside
    unfold Tracer.isControl
    rw [decide_eq_false (plain_printed printed).1]
    rfl
  respFile := by
    rw [execution.respFile]
    decide

/-! ### The two databases -/

/-- The entries of a command are read alike. -/
theorem readAlike_items (noBlank : ' ' ∉ execution.binary) :
    ReadAlike execution.bearItem execution.straceItem := by
  have printed := execution.call.argv_printed
  have head := execution.argv_eq
  rw [head] at printed
  obtain ⟨first, rest⟩ := List.forall_mem_cons.mp printed
  refine ⟨execution.call.pwd, execution.binary, execution.call.argv.tail.map argValue,
    execution.call.argv.tail, ⟨rfl, ?_⟩, ⟨rfl, congrArg some head⟩, ?_, rfl⟩
  · show some (execution.call.argv.map argValue) = _
    rw [head, List.map_cons, argValue_of_noBlank first noBlank, List.tail_cons]
  · rw [List.map_map]
    exact List.map_congr_left fun arg member => unquote_argValue (rest arg member)

end Execution

/-- **The entries of the commands that are recorded** are loaded from the database of the preloaded
tracer. -/
theorem loadCdb_bear {toolchain : ToolchainProfile} (aliased : toolchain.binaries.keys ≠ [])
    (plain : ∀ binary ∈ toolchain.binaries.keys, ',' ∉ binary ∧ '\x00' ∉ binary)
    (executions : List Execution) :
    loadCdb (bearDatabase toolchain executions) =
      some (((executions.filter fun e => e.seen toolchain).map Execution.bearItem).map
        SpecItem.json) := by
  have recorded : (executions.map Execution.message).filter (Tracer.known (compilersOf toolchain)) =
      (executions.filter fun e => e.seen toolchain).map Execution.message := by
    rw [List.filter_map]
    exact congrArg _ (List.filter_congr fun e _ => e.known_eq_seen aliased plain)
  unfold loadCdb bearDatabase
  rw [Tracer.parse_clean, recorded, List.map_map, List.map_map]
  · rfl
  · intro message member _
    obtain ⟨e, -, rfl⟩ := List.mem_map.mp member
    exact e.clean

/-- **They are loaded from the database of strace**, if none of them has a bracket. -/
theorem loadCdb_strace {toolchain : ToolchainProfile} {executions : List Execution}
    (clean : ∀ e ∈ executions, e.seen toolchain = true → e.call.NoBracket) :
    ∃ text, straceDatabase toolchain executions = some text ∧ loadCdb text =
      some (((executions.filter fun e => e.seen toolchain).map Execution.straceItem).map
        SpecItem.json) := by
  have recorded : ((executions.map Execution.call).filter
      (ExecveCall.known (tracedBinaries toolchain))).filter (fun call => call.NoBracket) =
        (executions.filter fun e => e.seen toolchain).map Execution.call := by
    rw [List.filter_map, List.filter_eq_self.mpr]
    · rfl
    · intro call member
      obtain ⟨e, inside, rfl⟩ := List.mem_map.mp member
      obtain ⟨inside, isSeen⟩ := List.mem_filter.mp inside
      exact decide_eq_true (clean e inside isSeen)
  have read := parse_dump (some 2) (textual_records ((executions.filter fun e =>
    e.seen toolchain).map Execution.call))
  unfold straceDatabase
  rw [Tracer.traceWithStrace_eq, recorded]
  refine ⟨_, rfl, ?_⟩
  unfold loadCdb
  rw [read, Json.latest_map, List.map_map, List.map_map]
  rfl

/-- **With both databases a build has the same results**, if there are aliases, all without commas, and
no command that is recorded has a bracket in its arguments or its environment, or a space in its
name. -/
theorem tracers_agree (build : ProcessorRun) (machine : Nat → Machine) {executions : List Execution}
    (aliased : build.toolchainProfile.binaries.keys ≠ [])
    (plain : ∀ binary ∈ build.toolchainProfile.binaries.keys, ',' ∉ binary ∧ '\x00' ∉ binary)
    (clean : ∀ e ∈ executions, e.seen build.toolchainProfile = true →
      e.call.NoBracket ∧ ' ' ∉ e.binary) :
    ∃ text results, straceDatabase build.toolchainProfile executions = some text ∧
      build.process machine text = some results ∧
      build.process machine (bearDatabase build.toolchainProfile executions) = some results := by
  obtain ⟨text, written, loaded⟩ := loadCdb_strace fun e member isSeen => (clean e member isSeen).1
  refine ⟨text, _, written, congrArg _ loaded, ?_⟩
  unfold ProcessorRun.process
  rw [loadCdb_bear aliased plain]
  refine congrArg some (results_alike build ?_ machine)
  rw [List.forall₂_map_left_iff, List.forall₂_map_right_iff, List.forall₂_same]
  intro e member
  obtain ⟨inside, isSeen⟩ := List.mem_filter.mp member
  exact readAlike_items e (clean e inside isSeen).2

/-- `gcc "-DNAME=a b" a.c` with a path, as both tracers see it. -/
def spacedArgument : Execution where
  call := {
    pid := 100
    path := "/opt/gcc/bin/gcc".toList
    argv := ["/opt/gcc/bin/gcc".toList, "-DNAME=a b".toList, "a.c".toList]
    env := ["PWD=/src".toList]
    pwd := "/src".toList
    path_ne_nil := by decide
    argv_ne_nil := by decide
    pwd_ne_nil := by decide
    pwd_only := by decide
    path_printed := Tracer.printed_of_all (by decide)
    argv_printed := List.forall_mem_cons.mpr ⟨Tracer.printed_of_all (by decide),
      List.forall_mem_cons.mpr ⟨Tracer.printed_of_all (by decide),
        List.forall_mem_singleton.mpr (Tracer.printed_of_all (by decide))⟩⟩
    env_printed := List.forall_mem_singleton.mpr (Tracer.printed_of_all (by decide)) }
  message := {
    pid := 100
    ppid := 99
    function := "execve".toList
    cwd := "/src".toList
    respFile := []
    cmd := ["/opt/gcc/bin/gcc".toList, "-DNAME=a b".toList, "a.c".toList] }
  cmd := rfl
  cwd := rfl
  respFile := rfl
  name := by decide

theorem tracers_agree_spaced : ∃ text results,
    straceDatabase gccToolchain [spacedArgument] = some text ∧
      gccBuild.process (fun _ => letteredMachine 'p') text = some results ∧
      gccBuild.process (fun _ => letteredMachine 'p') (bearDatabase gccToolchain [spacedArgument]) =
        some results :=
  tracers_agree gccBuild _ (by decide) (List.forall_mem_singleton.mpr (by decide))
    (List.forall_mem_singleton.mpr fun _ => by decide)

end Xcalbuild.Processor
