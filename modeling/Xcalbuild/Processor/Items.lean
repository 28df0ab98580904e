/-
**The entries of the compile database, in the three places that walk them.**

The detection of the profile, the prober and `WorkItemProcessor::process` read the same entries,
which nothing checks. An entry may lack its directory, or its arguments.

* `processItem`: `process` on an entry, with its accesses; `processItem_complete`: on an entry that has
  everything it is `process` of the work item;
* `probe_complete`, `probe_raises`: the prober skips what is not complete;
* `processItem_undirected`: the processing asks for the directory of an entry whose tool profile is
  known; `processItem_skips`: otherwise it skips what is not complete as well;
* **`robust_iff`**: exactly then entries that are not complete make no difference (`Robust`), as long
  as they do not count in the detection (`CountsComplete`).
-/
import Xcalbuild.Prober.Probe
import Xcalbuild.Processor.Detect
import Xcalbuild.Processor.Process

namespace Xcalbuild.Processor

open Library
open Profile (Address CursorFault LoadEnv SpecItem ToolOption ToolProfile ToolchainProfile WorkItem
  parseWorkItem)
open Prober (ProbeHost ProbeState ProberFault probeIfAny probeItem probeMacros probeOutcome
  probeProfile probeToolchain)

/-! ### Processing an entry -/

/-- How the processing of an entry goes wrong: at the entry, behind its last argument, or at a tool
profile that was destroyed. -/
inductive ItemFault where
  | item (fault : Json.Fault)
  | cursor (fault : CursorFault)
  | dangling
  deriving DecidableEq

/-- What `parse_work_item` reads of an entry. The content of the response file is read here in any case,
in the source when its option is met; it is a string in an entry with the types of the build
specification. -/
def readWorkItem (workItem : Json) : Except Json.Fault WorkItem := do
  let dir ← (← workItem.atKey "directory".toList).getString
  let args ← collect (fun arg : Json => do return [← arg.getString])
    (← workItem.atKey "arguments".toList).range
  if workItem.count "respfile".toList then
    return ⟨dir, args, some (← (← workItem.atKey "respfile".toList).getString)⟩
  return ⟨dir, args, none⟩

/-- `WorkItemProcessor::process` -/
def processItem (filters : Filters) (toolchain : ToolchainProfile) (machine : Machine)
    (workItem : Json) : Except ItemFault Outcome := do
  match ← (toolchain.getMutableToolProfileAndBinaryPath workItem).mapError .item with
  | none => return .nothing
  | some (p, _) =>
      match toolchain.profiles.lookup p with
      | none => .error .dangling
      | some profile =>
          let workDir ← (do (← workItem.atKey "directory".toList).getString).mapError .item
          if filteredOut filters.filterKey (afterLast '/' workDir) then return .nothing
          let item ← (readWorkItem workItem).mapError .item
          let parsed ← (parseWorkItem profile machine.host item).mapError .cursor
          return dispatch filters profile machine parsed

/-- The work item of an entry that is complete. -/
def workItemOf (item : SpecItem) : WorkItem :=
  ⟨item.directory.getD [], item.arguments.getD [], item.respfile⟩

section Entry

variable {filters : Filters} {toolchain : ToolchainProfile} {machine : Machine} {item : SpecItem}

theorem complete_iff : item.complete = true ↔
    ∃ dir first rest, item.directory = some dir ∧ item.arguments = some (first :: rest) := by
  unfold SpecItem.complete
  cases item.directory with
  | none => simp
  | some dir =>
    cases item.arguments with
    | none => simp
    | some args =>
      cases args with
      | nil => simp
      | cons first rest => simp

/-- Every access to an entry with a directory and arguments finds what it asks for. -/
theorem readWorkItem_eq {dir : Str} {args : List Str} (hasDirectory : item.directory = some dir)
    (hasArguments : item.arguments = some args) :
    readWorkItem item.json = .ok ⟨dir, args, item.respfile⟩ := by
  have texts : collect (fun arg : Json => do return [← arg.getString]) (args.map Json.str) =
      (.ok args : Except Json.Fault (List Str)) := by
    rw [Profile.collect_strings (fun text => [text]), List.flatMap_singleton']
  unfold readWorkItem Json.count
  rw [item.at_directory hasDirectory, item.at_arguments hasArguments, item.hasRespfile]
  simp only [ok_bind]
  show (collect (fun arg : Json => do return [← arg.getString]) (args.map Json.str) >>= _) = _
  rw [texts, ok_bind]
  cases response : item.respfile with
  | none => rfl
  | some text =>
    have found : item.json.atKey "respfile".toList = .ok (.str text) := by
      apply Profile.atKey_of_find
      rw [item.hasRespfile, response]
      rfl
    rw [found]
    rfl

/-- **An entry without a known tool profile** is left. -/
theorem processItem_unknown (unknown : item.recognise toolchain = none) :
    processItem filters toolchain machine item.json = .ok .nothing := by
  unfold processItem
  rw [item.lookup_eq, unknown]
  rfl

/-- **An entry without a directory**, but with a known tool profile, is not. -/
theorem processItem_undirected {found : Address × Path}
    (known : item.recognise toolchain = some found) (undirected : item.directory = none) :
    processItem filters toolchain machine item.json = .error .dangling ∨
      processItem filters toolchain machine item.json = .error (.item .missingKey) := by
  have missing : item.json.atKey "directory".toList = .error .missingKey := by
    obtain ⟨rest, given⟩ := item.arguments_of_recognise toolchain known
    have arguments := item.hasArguments
    have directory := item.hasDirectory
    rw [given] at arguments
    rw [undirected] at directory
    unfold Json.atKey
    cases json : item.json with
    | obj members =>
      rw [json] at directory
      have absent : members.lookup "directory".toList = none := directory
      simp only [absent]
    | _ =>
      rw [json] at arguments
      cases arguments
  unfold processItem
  rw [item.lookup_eq, known]
  cases owned : toolchain.profiles.lookup found.1 with
  | none =>
    left
    simp only [Except.mapError, ok_bind, owned]
  | some profile =>
    right
    simp only [Except.mapError, ok_bind, owned]
    rw [missing]
    rfl

theorem workItemOf_eq {dir : Str} {args : List Str} (hasDirectory : item.directory = some dir)
    (hasArguments : item.arguments = some args) : workItemOf item = ⟨dir, args, item.respfile⟩ := by
  unfold workItemOf
  rw [hasDirectory, hasArguments]
  rfl

/-- Past the lookup, the rest of `process` on an entry that is complete. -/
theorem processItem_known {dir : Str} {args : List Str} {found : Address × Path}
    {profile : ToolProfile} (hasDirectory : item.directory = some dir)
    (hasArguments : item.arguments = some args) (known : item.recognise toolchain = some found)
    (owned : toolchain.profiles.lookup found.1 = some profile) :
    processItem filters toolchain machine item.json =
      if filteredOut filters.filterKey (afterLast '/' dir) = true then .ok .nothing
      else ((parseWorkItem profile machine.host ⟨dir, args, item.respfile⟩).mapError .cursor).map
        (dispatch filters profile machine) := by
  unfold processItem
  rw [item.lookup_eq, known]
  simp only [Except.mapError, ok_bind, owned]
  rw [item.at_directory hasDirectory, readWorkItem_eq hasDirectory hasArguments]
  show (if filteredOut filters.filterKey (afterLast '/' dir) = true then _ else _) = _
  by_cases drops : filteredOut filters.filterKey (afterLast '/' dir) = true
  · rw [if_pos drops, if_pos drops]
    rfl
  · rw [if_neg drops, if_neg drops]
    simp only [ok_bind]
    cases parseWorkItem profile machine.host ⟨dir, args, item.respfile⟩ with
    | error fault => rfl
    | ok parsed => rfl

/-- **An entry that is complete** is processed as its work item. -/
theorem processItem_complete (complete : item.complete = true) :
    (processItem filters toolchain machine item.json = .error .dangling ∧
        ∃ found, item.recognise toolchain = some found ∧
          toolchain.profiles.lookup found.1 = none) ∨
      processItem filters toolchain machine item.json =
        (process filters toolchain machine (workItemOf item)).mapError .cursor := by
  obtain ⟨dir, first, rest, hasDirectory, hasArguments⟩ := complete_iff.mp complete
  have same : (item.recognise toolchain).map Prod.fst =
      toolchain.getToolProfile (workItemOf item) := by
    apply item.recognise_workItem
    show item.arguments = some (item.arguments.getD [])
    rw [hasArguments]
    rfl
  unfold process toolProfileOf
  rw [← same]
  cases known : item.recognise toolchain with
  | none =>
    right
    rw [processItem_unknown known]
    rfl
  | some found =>
    cases owned : toolchain.profiles.lookup found.1 with
    | none =>
      left
      refine ⟨?_, found, rfl, owned⟩
      unfold processItem
      rw [item.lookup_eq, known]
      simp only [Except.mapError, ok_bind, owned]
    | some profile =>
      right
      have isProfile : ((some found).map Prod.fst).bind (fun p => toolchain.profiles.lookup p) =
        some profile := owned
      rw [processItem_known hasDirectory hasArguments known owned, isProfile,
        workItemOf_eq hasDirectory hasArguments]
      dsimp only
      by_cases drops : filteredOut filters.filterKey (afterLast '/' dir) = true
      · rw [if_pos drops, if_pos drops]
        rfl
      · rw [if_neg drops, if_neg drops]
        cases parseWorkItem profile machine.host ⟨dir, first :: rest, item.respfile⟩ with
        | error fault => rfl
        | ok parsed => rfl

/-- What is not complete lacks its directory, or is unknown to every toolchain profile. -/
theorem recognise_of_incomplete (incomplete : item.complete = false) (dir : item.directory ≠ none) :
    item.recognise toolchain = none := by
  by_contra known
  obtain ⟨found, known⟩ := Option.ne_none_iff_exists'.mp known
  obtain ⟨rest, given⟩ := item.arguments_of_recognise toolchain known
  obtain ⟨name, named⟩ := Option.ne_none_iff_exists'.mp dir
  have complete := complete_iff.mpr ⟨name, found.2, rest, named, given⟩
  rw [incomplete] at complete
  cases complete

/-- **No error of the processing is about an entry that is complete.** -/
theorem processItem_raises (complete : item.complete = true) :
    Raises (fun e => ∀ fault, e ≠ .item fault) (processItem filters toolchain machine item.json) := by
  rcases @processItem_complete filters toolchain machine item complete with ⟨dangling, -⟩ | same
  · rw [dangling]
    exact Raises.error fun _ other => nomatch other
  · rw [same]
    exact Raises.mapError fun _ _ other => nomatch other

end Entry

/-! ### Probing the entries -/

section Probing

variable {host : ProbeHost} {state : ProbeState} {item : SpecItem}

/-- **The prober skips an entry that is not complete.** -/
theorem probeItem_skips (incomplete : item.complete = false) :
    probeItem host state item.json = .ok state := by
  unfold probeItem
  rw [item.count_directory, item.count_arguments]
  cases dir : item.directory with
  | none => rfl
  | some name =>
    cases args : item.arguments with
    | none => rfl
    | some texts =>
      cases texts with
      | nil =>
        rw [item.at_arguments args]
        rfl
      | cons first rest =>
        rw [complete_iff.mpr ⟨name, first, rest, dir, args⟩] at incomplete
        cases incomplete

/-- An error that is not about the entry. -/
def NotItem (e : ProberFault) : Prop := ∀ fault, e ≠ .item fault

theorem probeMacros_raises {p : Address} {output : ToolOption} {isCxx : Bool} {binaryPath : Path} :
    Raises NotItem (probeMacros host p output isCxx binaryPath state) := by
  unfold probeMacros
  cases state.toolchain.profiles.lookup p with
  | none => exact Raises.error fun _ same => nomatch same
  | some profile =>
    refine (Raises.mapError fun _ _ same => nomatch same).bind fun macros _ => ?_
    refine Raises.bind ?_ fun actions _ => ?_
    · unfold probeOutcome
      split
      · exact (Raises.mapError fun _ _ same => nomatch same).bind fun lists _ => Raises.ok _
      · exact Raises.ok _
    · exact (Raises.mapError fun _ _ same => nomatch same).bind fun json _ => Raises.ok _

theorem probeIfAny_raises {p : Address} {output : ToolOption} {isCxx : Bool} {binaryPath : Path} :
    Raises NotItem (probeIfAny host p output isCxx binaryPath state) := by
  unfold probeIfAny
  cases state.toolchain.profiles.lookup p with
  | none => exact Raises.error fun _ same => nomatch same
  | some profile =>
    dsimp only
    split_ifs
    · exact probeMacros_raises
    · exact Raises.ok state

theorem probeProfile_raises {p : Address} {binaryPath : Path} {dir : Str}
    (given : item.directory = some dir) :
    Raises NotItem (probeProfile host p binaryPath item.json state) := by
  unfold probeProfile
  cases state.toolchain.profiles.lookup p with
  | none => exact Raises.error fun _ same => nomatch same
  | some profile =>
    dsimp only
    cases profile.outputOption with
    | none => exact Raises.ok state
    | some output =>
      dsimp only
      rw [item.at_directory given]
      exact probeIfAny_raises.bind fun _ _ => probeIfAny_raises

/-- **No error of the prober is about an entry.** -/
theorem probeItem_raises : Raises NotItem (probeItem host state item.json) := by
  by_cases complete : item.complete = true
  · obtain ⟨dir, first, rest, hasDirectory, hasArguments⟩ := complete_iff.mp complete
    unfold probeItem
    rw [item.count_directory, item.count_arguments, hasDirectory, item.at_arguments hasArguments,
      item.lookup_eq, hasArguments]
    rw [if_neg (by simp), if_neg (by simp)]
    have size : (Json.arr ((first :: rest).map Json.str)).size ≠ 0 := by simp [Json.size]
    simp only [Except.mapError, ok_bind]
    rw [if_neg size]
    cases item.recognise state.toolchain with
    | none => exact Raises.ok state
    | some found =>
      dsimp only
      split_ifs
      · exact Raises.ok state
      · exact probeProfile_raises hasDirectory
  · rw [probeItem_skips ((Bool.not_eq_true _).mp complete)]
    exact Raises.ok state

/-- **The prober only sees the entries that are complete.** -/
theorem probe_complete (host : ProbeHost) (cdb : List SpecItem) (toolchain : ToolchainProfile) :
    probeToolchain host (cdb.map SpecItem.json) toolchain =
      probeToolchain host ((cdb.filter SpecItem.complete).map SpecItem.json) toolchain :=
  foldlM_filter (fun _ _ incomplete _ => probeItem_skips incomplete) _

theorem probe_raises (host : ProbeHost) (cdb : List SpecItem) (toolchain : ToolchainProfile) :
    Raises NotItem (probeToolchain host (cdb.map SpecItem.json) toolchain) := by
  intro e failed
  obtain ⟨item, -, state, step⟩ := foldlM_error failed
  exact probeItem_raises e step

end Probing

/-! ### The three places together -/

/-- The toolchain profiles that the detection, the prober and the processing are given, and the rest
of what they look at. -/
structure Stages where
  detecting : ToolchainProfile
  probing : ToolchainProfile
  processing : ToolchainProfile
  host : ProbeHost
  filters : Filters

/-- **Entries that are not complete make no difference**, and nothing is accessed that an entry does
not have. -/
structure Robust (stages : Stages) (cdb : List SpecItem) : Prop where
  detects : ∃ name,
    detectToolchainProfile stages.detecting (cdb.map SpecItem.json) = .ok name ∧
      detectToolchainProfile stages.detecting ((cdb.filter SpecItem.complete).map SpecItem.json) =
        .ok name
  probes : probeToolchain stages.host (cdb.map SpecItem.json) stages.probing =
    probeToolchain stages.host ((cdb.filter SpecItem.complete).map SpecItem.json) stages.probing
  probesOnly : Raises NotItem (probeToolchain stages.host (cdb.map SpecItem.json) stages.probing)
  processes : ∀ item ∈ cdb, ∀ machine, Raises (fun e => ∀ fault, e ≠ .item fault)
    (processItem stages.filters stages.processing machine item.json)
  skips : ∀ item ∈ cdb, item.complete = false → ∀ machine,
    processItem stages.filters stages.processing machine item.json = .ok .nothing

/-- An entry without a directory is unknown where the entries are processed. -/
def UndirectedUnknown (toolchain : ToolchainProfile) (cdb : List SpecItem) : Prop :=
  ∀ item ∈ cdb, item.directory = none → item.recognise toolchain = none

/-- Only entries that are complete count where the profile is detected: the others have no origins, and
none of the lists has an origin twice, so that a count that happens to be the number of the entries
means nothing else. -/
structure CountsComplete (toolchain : ToolchainProfile) (cdb : List SpecItem) : Prop where
  unlisted : ∀ item ∈ cdb, item.directory = none → originsOf toolchain item = []
  once : ∀ item ∈ cdb, item.complete = false → ∀ other ∈ cdb, (originsOf toolchain other).Nodup

section Robust

variable {filters : Filters} {toolchain : ToolchainProfile} {cdb : List SpecItem}

/-- **An entry that is not complete is skipped** if it has a directory or is unknown. -/
theorem processItem_skips (unknown : UndirectedUnknown toolchain cdb) {item : SpecItem}
    (member : item ∈ cdb) (incomplete : item.complete = false) (machine : Machine) :
    processItem filters toolchain machine item.json = .ok .nothing := by
  apply processItem_unknown
  by_cases undirected : item.directory = none
  · exact unknown item member undirected
  · exact recognise_of_incomplete incomplete undirected

/-- An entry that is not complete has no origins. -/
theorem originsOf_incomplete (counts : CountsComplete toolchain cdb) {item : SpecItem}
    (member : item ∈ cdb) (incomplete : item.complete = false) : originsOf toolchain item = [] := by
  by_cases undirected : item.directory = none
  · exact counts.unlisted item member undirected
  · unfold originsOf
    rw [recognise_of_incomplete incomplete undirected]
    rfl

/-- **The same origin leads the counts** with the entries that are not complete and without them. -/
theorem leadsCounts_complete (counts : CountsComplete toolchain cdb) (leader : Str) :
    LeadsCounts toolchain cdb leader ↔
      LeadsCounts toolchain (cdb.filter SpecItem.complete) leader := by
  by_cases all : ∀ item ∈ cdb, item.complete = true
  · rw [List.filter_eq_self.mpr all]
  · push Not at all
    obtain ⟨missing, inside, incomplete⟩ := all
    have once : ∀ item ∈ cdb, (originsOf toolchain item).Nodup :=
      counts.once missing inside ((Bool.not_eq_true _).mp incomplete)
    have keeps : ∀ origin, ∀ item ∈ cdb, origin ∈ originsOf toolchain item →
        item.complete = true := by
      intro origin item member listed
      by_contra unfinished
      rw [originsOf_incomplete counts member ((Bool.not_eq_true _).mp unfinished)] at listed
      exact List.not_mem_nil listed
    have listed : Listed toolchain (cdb.filter SpecItem.complete) = Listed toolchain cdb := by
      funext origin
      refine propext ⟨?_, ?_⟩
      · rintro ⟨item, member, named⟩
        exact ⟨item, List.mem_of_mem_filter member, named⟩
      · rintro ⟨item, member, named⟩
        exact ⟨item, List.mem_filter.mpr ⟨member, keeps origin item member named⟩, named⟩
    have covered : covers toolchain (cdb.filter SpecItem.complete) = covers toolchain cdb := by
      funext origin
      unfold covers
      rw [List.countP_filter]
      refine List.countP_congr fun item member => ?_
      rw [Bool.and_eq_true, decide_eq_true_eq]
      exact ⟨fun both => both.1, fun named => ⟨named, keeps origin item member named⟩⟩
    rw [leadsCounts_iff once, leadsCounts_iff fun item member =>
      once item (List.mem_of_mem_filter member), listed, covered]

/-- An entry without a directory is not skipped when its tool profile is known. -/
theorem undirectedUnknown_of_robust {stages : Stages} (robust : Robust stages cdb) :
    UndirectedUnknown stages.processing cdb := by
  intro item member undirected
  by_contra known
  obtain ⟨found, known⟩ := Option.ne_none_iff_exists'.mp known
  have incomplete : item.complete = false := by
    unfold SpecItem.complete
    rw [undirected]
    rfl
  have skipped := robust.skips item member incomplete (machineFailingFrom 0)
  rcases @processItem_undirected stages.filters stages.processing (machineFailingFrom 0) item
    found known undirected with failed | failed
  · rw [failed] at skipped
    cases skipped
  · rw [failed] at skipped
    cases skipped

/-- **Entries that are not complete make no difference** only if those without a directory have no
tool profile that the processing knows; and exactly then, where only entries that are complete count in
the detection. -/
theorem robust_iff {env : LoadEnv} {profileJson : Json} {stages : Stages}
    (ran : (ToolchainProfile.load env profileJson).run .empty = .ok () stages.detecting)
    (cdb : List SpecItem) :
    (Robust stages cdb → UndirectedUnknown stages.processing cdb) ∧
      (CountsComplete stages.detecting cdb → UndirectedUnknown stages.processing cdb →
        Robust stages cdb) := by
  refine ⟨undirectedUnknown_of_robust, fun counts unknown => ?_⟩
  have skips := fun item member incomplete machine =>
    @processItem_skips stages.filters _ cdb unknown item member incomplete machine
  refine ⟨?_, probe_complete _ cdb _, probe_raises _ cdb _, fun item member machine => ?_, skips⟩
  · obtain ⟨name, detected, -⟩ := detected_leads stages.detecting cdb
    have same := (detect_eq_iff (Profile.loaded_of_load ran) _).mpr (leadsCounts_complete counts)
    exact ⟨name, detected, same.symm.trans detected⟩
  · by_cases complete : item.complete = true
    · exact processItem_raises complete
    · rw [skips item member ((Bool.not_eq_true _).mp complete) machine]
      exact Raises.ok _

end Robust

/-! ### An entry without a directory -/

/-- An entry with arguments only. -/
def undirectedEntry (binary : Str) : SpecItem where
  json := .obj [("arguments".toList, .arr [.str binary, .str "a.c".toList])]
  directory := none
  arguments := some [binary, "a.c".toList]
  respfile := none
  hasDirectory := rfl
  hasArguments := rfl
  hasRespfile := rfl

/-- All stages with one toolchain profile, on the machine of `M`. -/
def oneProfile (toolchain : ToolchainProfile) : Stages where
  detecting := toolchain
  probing := toolchain
  processing := toolchain
  host := ⟨fun _ => false, fun binary _ => binary, fun _ _ => "/tmp/in".toList,
    fun _ _ => "/tmp/out".toList, fun _ => (0, [])⟩
  filters := ⟨[], [], [], []⟩

/-- An unknown tool without a directory besides `gcc`. -/
theorem robust_unknown : ∃ toolchain,
    (ToolchainProfile.load Profile.oneFileEnv (twoTools ["b".toList])).run .empty =
        .ok () toolchain ∧
      Robust (oneProfile toolchain) [entryOf "gcc".toList, undirectedEntry "ld".toList] := by
  obtain ⟨toolchain, ran, isGcc, isLd, unknown⟩ : ∃ toolchain,
      (ToolchainProfile.load Profile.oneFileEnv (twoTools ["b".toList])).run .empty =
          .ok () toolchain ∧
        originsOf toolchain (entryOf "gcc".toList) = ["b".toList] ∧
        originsOf toolchain (undirectedEntry "ld".toList) = [] ∧
        (undirectedEntry "ld".toList).recognise toolchain = none :=
    ⟨_, rfl, rfl, rfl, rfl⟩
  refine ⟨toolchain, ran, (@robust_iff _ _ (oneProfile toolchain) ran _).2 ⟨?_, ?_⟩ ?_⟩
  · intro item member undirected
    rcases List.mem_pair.mp member with rfl | rfl
    · cases undirected
    · exact isLd
  · intro item _ _ other member
    rcases List.mem_pair.mp member with rfl | rfl
    · show (originsOf toolchain _).Nodup
      rw [isGcc]
      exact List.nodup_singleton _
    · show (originsOf toolchain _).Nodup
      rw [isLd]
      exact List.nodup_nil
  · intro item member undirected
    rcases List.mem_pair.mp member with rfl | rfl
    · cases undirected
    · exact unknown

/-- `gcc` without a directory: the directory is asked for all the same. -/
theorem undirected_accessed :
    ¬ ∀ (env : LoadEnv) (profileJson : Json) (stages : Stages),
      (ToolchainProfile.load env profileJson).run .empty = .ok () stages.detecting →
        ∀ cdb, Robust stages cdb := by
  intro all
  obtain ⟨toolchain, ran, fails⟩ : ∃ toolchain,
      (ToolchainProfile.load Profile.oneFileEnv (twoTools ["b".toList])).run .empty =
          .ok () toolchain ∧
        ∀ machine, processItem ⟨[], [], [], []⟩ toolchain machine
          (undirectedEntry "gcc".toList).json = .error (.item .missingKey) :=
    ⟨_, rfl, fun _ => rfl⟩
  have robust := all _ _ (oneProfile toolchain) ran [undirectedEntry "gcc".toList]
  exact robust.processes _ List.mem_cons_self (machineFailingFrom 0) _
    (fails (machineFailingFrom 0)) .missingKey rfl

end Xcalbuild.Processor
