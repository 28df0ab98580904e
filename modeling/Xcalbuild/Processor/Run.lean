/-
**`BuildProcessor::process`, from the compile database to the results.**

The profile is detected if it is to be, the prober changes it, its lists of options are read, and the
work items are processed.

* `loadActionable_recognise`: an entry is recognised after the probing as before it;
* **`results_complete`**: where the entries that are not complete have no share in the detection and no
  known tool profile, a build has the results of the entries that are complete.
-/
import Xcalbuild.Prober.Actions
import Xcalbuild.Processor.Items

namespace Xcalbuild.Processor

open Library
open Profile (Address LoadEnv SpecItem ToolProfile ToolchainProfile)
open Prober (ProbeHost ProberFault probeToolchain)

/-! ### The stages -/

/-- One outcome after another. -/
def Outcome.append (first second : Outcome) : Outcome where
  ccResults := first.ccResults ++ second.ccResults
  ldResults := first.ldResults ++ second.ldResults
  commands := first.commands ++ second.commands
  written := first.written ++ second.written
  removed := first.removed ++ second.removed
  asResults := first.asResults ++ second.asResults
  passed := first.passed ++ second.passed

theorem Outcome.append_nothing (outcome : Outcome) : outcome.append .nothing = outcome := by
  unfold Outcome.append Outcome.nothing
  simp only [List.append_nil]

/-- How a build goes wrong, by its stages. -/
inductive BuildFault where
  | detect (fault : Json.Fault)
  | probe (fault : ProberFault)
  | actionable (fault : Json.Fault)
  | process (fault : ItemFault)
  deriving DecidableEq

/-- What `BuildProcessor::process` works with. -/
structure ProcessorRun where
  toolchainProfile : ToolchainProfile
  /-- `is_auto_detect_toolchain_profile()` -/
  autoDetect : Bool
  /-- `detected_toolchain_profile`, after the load of the profile with the name. -/
  detected : Str → ToolchainProfile
  host : ProbeHost
  /-- `fs::system_complete` -/
  complete : Str → Str
  filters : Filters

/-- `ToolchainProfile::load_actionable` -/
def loadActionable (complete : Str → Str) (toolchain : ToolchainProfile) :
    Except Json.Fault ToolchainProfile := do
  let profiles ← collect (fun entry : Address × ToolProfile => do
    return [(entry.1, ← entry.2.loadActionable complete)]) toolchain.profiles
  return { toolchain with profiles }

namespace ProcessorRun

/-- `actual_toolchain_profile` -/
def actual (build : ProcessorRun) (cdb : List Json) : Except Json.Fault ToolchainProfile :=
  if build.autoDetect then do
    return build.detected (← detectToolchainProfile build.toolchainProfile cdb)
  else .ok build.toolchainProfile

/-- The work items of a build are processed, each on the machine that it meets. -/
def processAll (build : ProcessorRun) (ready : ToolchainProfile) (cdb : List (Json × Machine)) :
    Except BuildFault Outcome :=
  cdb.foldlM (fun results entry => do
    let outcome ← (processItem build.filters ready entry.2 entry.1).mapError .process
    return results.append outcome) .nothing

/-- `BuildProcessor::process`, from the compile database to the results. -/
def results (build : ProcessorRun) (cdb : List (Json × Machine)) : Except BuildFault Outcome := do
  let actual ← (build.actual (cdb.map Prod.fst)).mapError .detect
  let state ← (probeToolchain build.host (cdb.map Prod.fst) actual).mapError .probe
  let ready ← (loadActionable build.complete state.toolchain).mapError .actionable
  build.processAll ready cdb

end ProcessorRun

/-! ### Entries that are not complete -/

section Complete

variable {toolchain ready : ToolchainProfile}

/-- The lists of options are read into tool profiles at the same addresses. -/
theorem loadActionable_binaries {complete : Str → Str}
    (ran : loadActionable complete toolchain = .ok ready) : ready.binaries = toolchain.binaries := by
  unfold loadActionable at ran
  obtain ⟨profiles, -, ran⟩ := bind_eq_ok ran
  cases ran
  rfl

theorem recognise_congr (same : ready.binaries = toolchain.binaries) (item : SpecItem) :
    item.recognise ready = item.recognise toolchain := by
  unfold SpecItem.recognise
  rw [same]

/-- An entry that is not complete leaves the results as they are. -/
theorem processAll_complete (build : ProcessorRun) {cdb : List (SpecItem × Machine)}
    (unknown : UndirectedUnknown ready (cdb.map Prod.fst)) :
    build.processAll ready (cdb.map fun entry => (entry.1.json, entry.2)) =
      build.processAll ready
        ((cdb.filter fun entry => entry.1.complete).map fun entry => (entry.1.json, entry.2)) := by
  refine foldlM_filter (fun entry member incomplete results => ?_) _
  rw [processItem_skips unknown (List.mem_map_of_mem member) incomplete]
  show Except.ok (results.append .nothing) = .ok results
  rw [Outcome.append_nothing]

/-- The entries without their machines. -/
theorem map_filter_complete (cdb : List (SpecItem × Machine)) :
    (cdb.filter fun entry => entry.1.complete).map Prod.fst =
      (cdb.map Prod.fst).filter SpecItem.complete := by
  rw [List.filter_map]
  rfl

/-- **A build has the results of the entries that are complete.** -/
theorem results_complete {env : LoadEnv} {profileJson : Json} {build : ProcessorRun}
    (ran : (ToolchainProfile.load env profileJson).run .empty = .ok () build.toolchainProfile)
    {cdb : List (SpecItem × Machine)}
    (counts : build.autoDetect = true →
      CountsComplete build.toolchainProfile (cdb.map Prod.fst))
    (unknown : ∀ actual, build.actual ((cdb.map Prod.fst).map SpecItem.json) = .ok actual →
      UndirectedUnknown actual (cdb.map Prod.fst)) :
    build.results (cdb.map fun entry => (entry.1.json, entry.2)) =
      build.results
        ((cdb.filter fun entry => entry.1.complete).map fun entry => (entry.1.json, entry.2)) := by
  have loaded := Profile.loaded_of_load ran
  have jsons : ∀ entries : List (SpecItem × Machine),
      (entries.map fun entry => (entry.1.json, entry.2)).map Prod.fst =
        (entries.map Prod.fst).map SpecItem.json := by
    intro entries
    rw [List.map_map, List.map_map]
    rfl
  have actual : build.actual (((cdb.map Prod.fst).filter SpecItem.complete).map SpecItem.json) =
      build.actual ((cdb.map Prod.fst).map SpecItem.json) := by
    unfold ProcessorRun.actual
    by_cases auto : build.autoDetect = true
    · rw [if_pos auto, if_pos auto,
        (detect_eq_iff loaded _).mpr (leadsCounts_complete (counts auto))]
    · rw [if_neg auto, if_neg auto]
  unfold ProcessorRun.results
  rw [jsons, jsons, map_filter_complete, actual]
  cases chosen : build.actual ((cdb.map Prod.fst).map SpecItem.json) with
  | error fault => rfl
  | ok toolchain =>
    show (probeToolchain _ _ toolchain).mapError _ >>= _ =
      (probeToolchain _ _ toolchain).mapError _ >>= _
    rw [← probe_complete]
    refine bind_congr_ok fun state probed => bind_congr_ok fun ready loads => ?_
    refine processAll_complete build fun item member undirected => ?_
    rw [recognise_congr (loadActionable_binaries (ok_of_mapError loads)),
      recognise_congr (Prober.probeToolchain_binaries (ok_of_mapError probed))]
    exact unknown toolchain chosen item member undirected

end Complete

end Xcalbuild.Processor
