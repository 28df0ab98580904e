/-
**The workers of a build, on one disk.**

`BuildProcessor::process` hands the entries of the compile database to an executor, and its workers
process them in parallel. A worker lets the preprocessor write a temporary file, reads it, writes it
back with the substitutions, and appends the result with the checksum of what it wrote. All of them
share the disk with the temporary files, and the result buffers.

* `processAll_jobs`: one after another, the jobs of a build give the results of `processAll`;
* `alone_handled`: a worker reads what its preprocessor wrote, when nobody else runs;
* `orderly_worker`: what it does is then `Orderly`, source by source;
* `emitted_worker`: and it appends the results of its job.
-/
import Xcalbuild.Build.Order
import Xcalbuild.Library.Program
import Xcalbuild.Processor.Run

namespace Xcalbuild.Processor

open Library
open Build (ASResult Append CCResult LDResult collect)
open Profile (FileFormat ParsedWorkItem ToolProfile ToolchainProfile parseWorkItem)

/-! ### The jobs -/

/-- A parsed work item, with its tool profile and the machine that it meets. -/
structure Job where
  profile : ToolProfile
  machine : Machine
  parsed : ParsedWorkItem

namespace Job

def outcome (filters : Filters) (job : Job) : Outcome :=
  dispatch filters job.profile job.machine job.parsed

/-- The sources that `handle_compile` loops over. -/
def sources (filters : Filters) (job : Job) : List Source := (job.outcome filters).passed.zipIdx

end Job

/-- `WorkItemProcessor::process`, up to the work item that is handed on. -/
def jobOf (filters : Filters) (toolchain : ToolchainProfile) (entry : Json × Machine) :
    Except ItemFault (List Job) := do
  match ← (toolchain.getMutableToolProfileAndBinaryPath entry.1).mapError .item with
  | none => return []
  | some (p, _) =>
      match toolchain.profiles.lookup p with
      | none => .error .dangling
      | some profile =>
          let workDir ← (do (← entry.1.atKey "directory".toList).getString).mapError .item
          if filteredOut filters.filterKey (afterLast '/' workDir) then return []
          let item ← (readWorkItem entry.1).mapError .item
          let parsed ← (parseWorkItem profile entry.2.host item).mapError .cursor
          return [⟨profile, entry.2, parsed⟩]

/-- The jobs of a build. -/
def jobsOf (filters : Filters) (toolchain : ToolchainProfile) (cdb : List (Json × Machine)) :
    Except ItemFault (List Job) := Library.collect (jobOf filters toolchain) cdb

/-- The results of jobs, one after another. -/
def outcomeOf (filters : Filters) (jobs : List Job) (results : Outcome) : Outcome :=
  jobs.foldl (fun results job => results.append (job.outcome filters)) results

/-! ### The workers -/

/-- A worker on the disk, with the calls that append to the result buffers. -/
abbrev Worker := Program Path Str Append

/-- Calls one after another. -/
def calling (calls : List Append) : Worker := calls.foldr .emit .done

/-- The machine whose preprocessor wrote what was read. -/
def Machine.reading (machine : Machine) (text : Str) : Machine :=
  { machine with ppOutput := fun _ => text }

/-- The link results of a command with several sources. -/
def linkCalls (linkerKey : List Str) (multi : Bool) (target : Str)
    (sources : List (Str × FileFormat)) : List Append :=
  if multi then (handleLink linkerKey (pseudoLink target sources)).toList.map .ld else []

/-- The loop of `handle_compile` over the sources, and the pseudo link result after it. -/
def sourcesWorker (linkerKey : List Str) (profile : ToolProfile) (machine : Machine)
    (multi : Bool) : List Source → ParsedWorkItem → List (Str × FileFormat) → Worker
  | [], parsed, pseudo => calling (linkCalls linkerKey multi parsed.target pseudo)
  | source :: sources, parsed, pseudo =>
      if machine.present source.position = false then
        sourcesWorker linkerKey profile machine multi sources parsed pseudo
      else
        let parsed := clearScanOptions source.format parsed
        let temp := sourceTemp machine source
        -- The preprocessor may have written something before it fails.
        .change (.write temp (machine.ppOutput source.position)) <|
          if machine.exitCode source.position ≠ 0 then .change (.remove temp) .done
          else .read temp fun text =>
            -- A stream on a file that is not there has no text.
            let machine' := machine.reading (text.getD [])
            .change (.write temp (replacedCode profile machine' source)) <|
              .emit (.cc (ccResult profile machine' multi source parsed)) <|
                sourcesWorker linkerKey profile machine multi sources parsed
                  (pseudo ++ pseudoSource machine multi source parsed)

/-- What a worker does for a job. -/
def Job.worker (filters : Filters) (job : Job) : Worker :=
  match job.parsed.kind, job.parsed.sources with
  | .ignore, _ => .done
  | _, [] => .done
  | .compile, first :: _ =>
      if filters.breaks first.1 then .done
      else sourcesWorker filters.linkerKey job.profile job.machine (multiSources job.parsed)
        (allSources job.parsed) (withTarget job.machine job.parsed) []
  | .assemble, first :: _ => calling [.as ⟨job.parsed.target, first.1⟩]
  | .archive, _ | .link, _ =>
      calling ((handleLink filters.linkerKey job.parsed).toList.map .ld)

/-- The temporary paths of the sources that the loop gets to. -/
def tempsOf (machine : Machine) : List Source → List Path
  | [] => []
  | source :: sources =>
      if machine.present source.position = false then tempsOf machine sources
      else sourceTemp machine source ::
        if machine.exitCode source.position ≠ 0 then [] else tempsOf machine sources

def Job.temps (filters : Filters) (job : Job) : List Path :=
  tempsOf job.machine (job.sources filters)

/-! ### One after another -/

section Sequential

variable {filters : Filters} {toolchain : ToolchainProfile}

/-- The calls of the results of an outcome. -/
def Outcome.calls (outcome : Outcome) : List Append :=
  outcome.ccResults.map .cc ++ outcome.asResults.map .as ++ outcome.ldResults.map .ld

theorem outcomeOf_append (filters : Filters) (first second : List Job) (results : Outcome) :
    outcomeOf filters (first ++ second) results =
      outcomeOf filters second (outcomeOf filters first results) := List.foldl_append

/-- An entry has the results of its job, if it is handed on. -/
theorem processItem_eq (entry : Json × Machine) :
    processItem filters toolchain entry.2 entry.1 =
      (jobOf filters toolchain entry).map fun jobs => outcomeOf filters jobs .nothing := by
  unfold processItem jobOf
  rw [map_bind_except]
  refine bind_congr_ok fun found _ => ?_
  cases found with
  | none => rfl
  | some found =>
    obtain ⟨p, binary⟩ := found
    dsimp only
    cases toolchain.profiles.lookup p with
    | none => rfl
    | some profile =>
      dsimp only
      rw [map_bind_except]
      refine bind_congr_ok fun workDir _ => ?_
      by_cases out : filteredOut filters.filterKey (afterLast '/' workDir) = true
      · rw [if_pos out, if_pos out]
        rfl
      · rw [if_neg out, if_neg out]
        simp only [map_bind_except]
        rfl

theorem Outcome.append_assoc (first second third : Outcome) :
    (first.append second).append third = first.append (second.append third) := by
  unfold Outcome.append
  simp only [List.append_assoc]

/-- What the jobs give, they append to the results so far. -/
theorem outcomeOf_eq (filters : Filters) (jobs : List Job) (results : Outcome) :
    outcomeOf filters jobs results = results.append (outcomeOf filters jobs .nothing) := by
  induction jobs using List.reverseRecOn with
  | nil => exact results.append_nothing.symm
  | append_singleton jobs job ih =>
    rw [outcomeOf_append, outcomeOf_append, ih]
    exact Outcome.append_assoc results (outcomeOf filters jobs .nothing) (job.outcome filters)

/-- **One after another, the jobs give the results of the build.** -/
theorem processAll_jobs (build : ProcessorRun) (ready : ToolchainProfile)
    (cdb : List (Json × Machine)) :
    build.processAll ready cdb = ((jobsOf build.filters ready cdb).map fun jobs =>
      outcomeOf build.filters jobs .nothing).mapError .process := by
  have generally : ∀ results, cdb.foldlM (fun results entry => do
      let outcome ← (processItem build.filters ready entry.2 entry.1).mapError .process
      return results.append outcome) results =
        (((jobsOf build.filters ready cdb).map fun jobs =>
          outcomeOf build.filters jobs results).mapError BuildFault.process) := by
    induction cdb with
    | nil => exact fun results => rfl
    | cons entry rest ih =>
      intro results
      rw [List.foldlM_cons, processItem_eq]
      unfold jobsOf
      rw [collect_cons]
      cases first : jobOf build.filters ready entry with
      | error fault => rfl
      | ok jobs =>
        show List.foldlM _ (results.append (outcomeOf build.filters jobs .nothing)) rest = _
        rw [ih, ← outcomeOf_eq]
        unfold jobsOf
        cases Library.collect (jobOf build.filters ready) rest with
        | error fault => rfl
        | ok more => exact congrArg Except.ok (outcomeOf_append build.filters jobs more results).symm
  exact generally .nothing

/-- The results of jobs, buffer by buffer. -/
theorem outcomeOf_results (filters : Filters) (jobs : List Job) :
    (outcomeOf filters jobs .nothing).ccResults =
        jobs.flatMap (fun job => (job.outcome filters).ccResults) ∧
      (outcomeOf filters jobs .nothing).asResults =
        jobs.flatMap (fun job => (job.outcome filters).asResults) ∧
      (outcomeOf filters jobs .nothing).ldResults =
        jobs.flatMap fun job => (job.outcome filters).ldResults := by
  induction jobs with
  | nil => exact ⟨rfl, rfl, rfl⟩
  | cons job jobs ih =>
    have first : outcomeOf filters (job :: jobs) .nothing =
        (job.outcome filters).append (outcomeOf filters jobs .nothing) :=
      outcomeOf_eq filters jobs (job.outcome filters)
    rw [first, List.flatMap_cons, List.flatMap_cons, List.flatMap_cons, ← ih.1, ← ih.2.1,
      ← ih.2.2]
    exact ⟨rfl, rfl, rfl⟩

end Sequential

/-! ### One worker alone -/

section Alone

open Program Act

@[simp] theorem alone_calling (disk : Path → Option Str) (calls : List Append) :
    alone disk (calling calls) = calls.map .emit := by
  induction calls with
  | nil => rfl
  | cons call calls ih => exact congrArg (Act.emit call :: ·) ih

@[simp] theorem footprint_calling (disk : Path → Option Str) (calls : List Append) :
    footprint disk (calling calls) = [] := by
  induction calls with
  | nil => rfl
  | cons call calls ih => exact ih

/-- The disk after a source has been handled. -/
def afterSource (profile : ToolProfile) (machine : Machine) (source : Source)
    (disk : Path → Option Str) : Path → Option Str :=
  Disk.run disk [.write (sourceTemp machine source) (machine.ppOutput source.position),
    .write (sourceTemp machine source) (replacedCode profile machine source)]

section Source

variable {linkerKey : List Str} {profile : ToolProfile} {machine : Machine} {multi : Bool}
  {source : Source} {sources : List Source} {parsed : ParsedWorkItem}
  {pseudo : List (Str × FileFormat)}

/-- A source that is gone is skipped. -/
theorem sourcesWorker_gone (gone : machine.present source.position = false) :
    sourcesWorker linkerKey profile machine multi (source :: sources) parsed pseudo =
      sourcesWorker linkerKey profile machine multi sources parsed pseudo := by
  rw [sourcesWorker, if_pos gone]

/-- A source on which the preprocessor fails is the last one. -/
theorem sourcesWorker_failed (there : machine.present source.position = true)
    (fails : machine.exitCode source.position ≠ 0) :
    sourcesWorker linkerKey profile machine multi (source :: sources) parsed pseudo =
      .change (.write (sourceTemp machine source) (machine.ppOutput source.position))
        (.change (.remove (sourceTemp machine source)) .done) := by
  rw [sourcesWorker, if_neg (by simp [there])]
  dsimp only
  rw [if_pos fails]

/-- **What is read is what the preprocessor wrote**: alone, a source is written, written back, and
appended. -/
theorem alone_handled (linkerKey : List Str) (profile : ToolProfile) (multi : Bool)
    (sources : List Source) (parsed : ParsedWorkItem) (pseudo : List (Str × FileFormat))
    (there : machine.present source.position = true)
    (success : machine.exitCode source.position = 0) (disk : Path → Option Str) :
    alone disk (sourcesWorker linkerKey profile machine multi (source :: sources) parsed pseudo) =
        .change (.write (sourceTemp machine source) (machine.ppOutput source.position)) ::
        .change (.write (sourceTemp machine source) (replacedCode profile machine source)) ::
        .emit (.cc (ccResult profile machine multi source
          (clearScanOptions source.format parsed))) ::
        alone (afterSource profile machine source disk)
          (sourcesWorker linkerKey profile machine multi sources
            (clearScanOptions source.format parsed)
            (pseudo ++ pseudoSource machine multi source (clearScanOptions source.format parsed))) ∧
      footprint disk
          (sourcesWorker linkerKey profile machine multi (source :: sources) parsed pseudo) =
        sourceTemp machine source :: sourceTemp machine source :: sourceTemp machine source ::
          footprint (afterSource profile machine source disk)
            (sourcesWorker linkerKey profile machine multi sources
              (clearScanOptions source.format parsed)
              (pseudo ++
                pseudoSource machine multi source (clearScanOptions source.format parsed))) := by
  rw [sourcesWorker, if_neg (by simp [there])]
  dsimp only
  rw [if_neg (by simp [success])]
  have found : Disk.apply disk
      (.write (sourceTemp machine source) (machine.ppOutput source.position))
      (sourceTemp machine source) = some (machine.ppOutput source.position) :=
    Function.update_self ..
  dsimp only [alone, footprint]
  rw [found]
  exact ⟨rfl, rfl⟩

end Source

/-- **What a worker does alone**, with the temporary paths of its sources in order: a file is written
and removed again, or it is written twice and a compile result is appended that has its path and the
checksum of what it holds now. -/
inductive Orderly (sha1 : Str → Str) : List Path → List (Act Path Str Append) → Prop
  | done : Orderly sha1 [] []
  | failed {path : Path} {output : Str} {temps : List Path} {acts : List (Act Path Str Append)} :
      Orderly sha1 temps acts →
        Orderly sha1 (path :: temps)
          (.change (.write path output) :: .change (.remove path) :: acts)
  | handled {path : Path} {output replaced : Str} {cc : CCResult} {temps : List Path}
      {acts : List (Act Path Str Append)} :
      cc.file = ⟨path, sha1 replaced⟩ → Orderly sha1 temps acts →
        Orderly sha1 (path :: temps)
          (.change (.write path output) :: .change (.write path replaced) :: .emit (.cc cc) :: acts)
  | other {call : Append} {temps : List Path} {acts : List (Act Path Str Append)} :
      call.ccResult? = none → Orderly sha1 temps acts → Orderly sha1 temps (.emit call :: acts)

theorem orderly_calls {sha1 : Str → Str} {calls : List Append}
    (others : ∀ call ∈ calls, call.ccResult? = none) : Orderly sha1 [] (calls.map .emit) := by
  induction calls with
  | nil => exact .done
  | cons call calls ih =>
    obtain ⟨here, rest⟩ := List.forall_mem_cons.mp others
    exact .other here (ih rest)

theorem mem_linkCalls {linkerKey : List Str} {multi : Bool} {target : Str}
    {sources : List (Str × FileFormat)} {call : Append}
    (member : call ∈ linkCalls linkerKey multi target sources) : call.ccResult? = none := by
  unfold linkCalls at member
  split_ifs at member
  · obtain ⟨ld, -, rfl⟩ := List.mem_map.mp member
    rfl
  · cases member

theorem orderly_sourcesWorker (linkerKey : List Str) (profile : ToolProfile) (machine : Machine)
    (multi : Bool) (sources : List Source) (parsed : ParsedWorkItem)
    (pseudo : List (Str × FileFormat)) (disk : Path → Option Str) :
    Orderly machine.sha1 (tempsOf machine sources)
        (alone disk (sourcesWorker linkerKey profile machine multi sources parsed pseudo)) ∧
      ∀ path ∈ footprint disk
        (sourcesWorker linkerKey profile machine multi sources parsed pseudo),
        path ∈ tempsOf machine sources := by
  induction sources generalizing parsed pseudo disk with
  | nil =>
    rw [sourcesWorker, alone_calling, footprint_calling]
    exact ⟨orderly_calls fun call member => mem_linkCalls member, fun path absent => nomatch absent⟩
  | cons source sources ih =>
    unfold tempsOf
    cases there : machine.present source.position with
    | false =>
      rw [sourcesWorker_gone there, if_pos rfl]
      exact ih parsed pseudo disk
    | true =>
      rw [if_neg (by decide)]
      by_cases success : machine.exitCode source.position = 0
      · obtain ⟨acts, files⟩ := alone_handled linkerKey profile multi sources parsed pseudo there
          success disk
        obtain ⟨orderly, within⟩ := ih (clearScanOptions source.format parsed)
          (pseudo ++ pseudoSource machine multi source (clearScanOptions source.format parsed))
          (afterSource profile machine source disk)
        rw [acts, files, if_neg (by simp [success])]
        refine ⟨.handled rfl orderly, fun path member => ?_⟩
        simp only [List.mem_cons] at member ⊢
        rcases member with here | here | here | later
        · exact Or.inl here
        · exact Or.inl here
        · exact Or.inl here
        · exact Or.inr (within path later)
      · rw [sourcesWorker_failed there success, if_pos success]
        refine ⟨.failed .done, fun path member => ?_⟩
        simp only [footprint, FileOp.path, List.mem_cons] at member ⊢
        rcases member with here | here | absent
        · exact Or.inl here
        · exact Or.inl here
        · exact Or.inr absent

/-- **A worker alone is orderly**, and works on the temporary files of its sources. -/
theorem orderly_worker (filters : Filters) (job : Job) (disk : Path → Option Str) :
    Orderly job.machine.sha1 (job.temps filters) (alone disk (job.worker filters)) ∧
      ∀ path ∈ footprint disk (job.worker filters), path ∈ job.temps filters := by
  have calls : ∀ calls : List Append, (∀ call ∈ calls, call.ccResult? = none) →
      Orderly job.machine.sha1 [] (alone disk (calling calls)) ∧
        ∀ path ∈ footprint disk (calling calls), path ∈ ([] : List Path) := by
    intro calls others
    rw [alone_calling, footprint_calling]
    exact ⟨orderly_calls others, fun path absent => absent⟩
  unfold Job.worker Job.temps Job.sources Job.outcome dispatch
  cases kind : job.parsed.kind with
  | ignore => exact ⟨.done, fun path absent => absent⟩
  | compile =>
    cases sources : job.parsed.sources with
    | nil => exact ⟨.done, fun path absent => absent⟩
    | cons first rest =>
      dsimp only
      by_cases breaks : filters.breaks first.1 = true
      · rw [if_pos breaks, if_pos breaks]
        exact ⟨.done, fun path absent => absent⟩
      · rw [if_neg breaks, if_neg breaks, allSources, ← sources]
        exact orderly_sourcesWorker ..
  | assemble =>
    cases job.parsed.sources with
    | nil => exact ⟨.done, fun path absent => absent⟩
    | cons first rest =>
      apply calls
      intro call member
      cases List.mem_singleton.mp member
      rfl
  | archive =>
    cases job.parsed.sources with
    | nil => exact ⟨.done, fun path absent => absent⟩
    | cons first rest =>
      apply calls
      intro call member
      obtain ⟨ld, -, rfl⟩ := List.mem_map.mp member
      rfl
  | link =>
    cases job.parsed.sources with
    | nil => exact ⟨.done, fun path absent => absent⟩
    | cons first rest =>
      apply calls
      intro call member
      obtain ⟨ld, -, rfl⟩ := List.mem_map.mp member
      rfl

/-! ### What a worker appends -/

/-- The calls of a loop over the sources that has ended. -/
def loopCalls (linkerKey : List Str) (multi : Bool) : Pass CompileState Empty → List Append
  | .next state =>
      state.ccResults.map .cc ++
        linkCalls linkerKey multi state.parsed.target state.pseudoLinkSources
  | .leave state => state.ccResults.map .cc
  | .fault error => nomatch error

/-- **The loop appends what it collects.** -/
theorem emitted_sourcesWorker (linkerKey : List Str) (profile : ToolProfile) (machine : Machine)
    (multi : Bool) (sources : List Source) (state : CompileState) (disk : Path → Option Str) :
    state.ccResults.map .cc ++ emitted (alone disk (sourcesWorker linkerKey profile machine multi
        sources state.parsed state.pseudoLinkSources)) =
      loopCalls linkerKey multi (forEach (sourceStep profile machine multi) sources state) := by
  induction sources generalizing state disk with
  | nil =>
    rw [sourcesWorker, alone_calling, emitted_map_emit]
    rfl
  | cons source sources ih =>
    unfold forEach
    rw [sourceStep_eq]
    cases there : machine.present source.position with
    | false =>
      rw [sourcesWorker_gone there, if_pos rfl]
      exact ih state disk
    | true =>
      rw [if_neg (by decide)]
      by_cases success : machine.exitCode source.position = 0
      · rw [if_neg (by simp [success]), (alone_handled linkerKey profile multi sources state.parsed
          state.pseudoLinkSources there success disk).1]
        have rest := ih (state.handled profile machine multi source)
          (afterSource profile machine source disk)
        have pseudo : pseudoSource machine multi source
            (clearScanOptions source.format state.parsed) =
              pseudoSource machine multi source state.parsed := by
          unfold pseudoSource
          rw [clearScanOptions_target]
        unfold CompileState.handled at rest
        rw [List.map_append, List.append_assoc] at rest
        rw [pseudo]
        exact rest
      · rw [sourcesWorker_failed there success, if_pos success]
        exact List.append_nil _

/-- **A worker alone appends the results of its job.** -/
theorem emitted_worker (filters : Filters) (job : Job) (disk : Path → Option Str) :
    emitted (alone disk (job.worker filters)) = (job.outcome filters).calls := by
  unfold Job.worker Job.outcome dispatch
  cases kind : job.parsed.kind with
  | ignore => rfl
  | compile =>
    cases sources : job.parsed.sources with
    | nil => rfl
    | cons first rest =>
      dsimp only
      by_cases breaks : filters.breaks first.1 = true
      · rw [if_pos breaks, if_pos breaks]
        rfl
      · rw [if_neg breaks, if_neg breaks]
        have loop := emitted_sourcesWorker filters.linkerKey job.profile job.machine
          (multiSources job.parsed) (allSources job.parsed)
          ⟨withTarget job.machine job.parsed, [], [], [], [], []⟩ disk
        rw [List.map_nil, List.nil_append] at loop
        rw [loop]
        show loopCalls _ _ (sourceLoop job.profile job.machine job.parsed) = _
        unfold Outcome.calls handleCompile loopCalls
        cases sourceLoop job.profile job.machine job.parsed with
        | next state =>
          dsimp only [CompileState.outcome]
          rw [List.map_nil, List.append_nil]
          unfold linkCalls
          cases multiSources job.parsed <;> rfl
        | leave state =>
          dsimp only [CompileState.outcome]
          rw [List.map_nil, List.map_nil, List.append_nil, List.append_nil]
        | fault error => exact nomatch error
  | assemble =>
    cases job.parsed.sources with
    | nil => rfl
    | cons first rest => rfl
  | archive =>
    cases job.parsed.sources with
    | nil => rfl
    | cons first rest =>
      dsimp only
      rw [alone_calling, emitted_map_emit]
      rfl
  | link =>
    cases job.parsed.sources with
    | nil => rfl
    | cons first rest =>
      dsimp only
      rw [alone_calling, emitted_map_emit]
      rfl

end Alone

end Xcalbuild.Processor
