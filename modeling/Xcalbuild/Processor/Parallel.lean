/-
**Builds with several workers.**

The steps of the workers come in any order. Where no two sources of a build have one temporary path,
each worker does what it does alone (`Program.isolation`).

* `Orderly.file`: what becomes of a temporary file;
* **`parallel_results`**: the workers append the results that the entries give one after another;
* `workers_settle`: the file of every compile result is on the disk with its checksum, and nothing
  else has changed (`Settled`);
* **`delivered`**: every preprocessed file in the archive has the checksum that `checksum.sha1` has
  of it, and no temporary file is left;
* **`source_list`**: the source files that are listed.
-/
import Xcalbuild.Build.Checksums
import Xcalbuild.Processor.Workers

namespace Xcalbuild.Processor

open Library Library.Program Library.Act
open Build (Append CCResult Counted OnDisk OutputConfig OutputEnv collect generateFiles
  generateOutput propertyFilePath sourceListText)
open Profile (ToolchainProfile)

/-! ### One file -/

/-- The compile results that are appended. -/
def compiled (acts : List (Act Path Str Append)) : List CCResult :=
  (emitted acts).filterMap Append.ccResult?

/-- The changes of one file. -/
def changesOf (path : Path) (act : Act Path Str Append) : Bool :=
  match act with
  | .change op => decide (op.path = path)
  | .emit _ => false

theorem onFile_changes (path : Path) (acts : List (Act Path Str Append)) :
    Disk.onFile path (changes acts) = changes (acts.filter (changesOf path)) := by
  induction acts with
  | nil => rfl
  | cons act acts ih =>
    cases act with
    | emit call => exact ih
    | change op =>
      show Disk.onFile path (op :: changes acts) = _
      by_cases here : op.path = path
      · have kept : changesOf path (.change op) = true := decide_eq_true here
        subst here
        rw [List.filter_cons_of_pos kept, Disk.onFile_cons_self rfl, ih]
        rfl
      · have dropped : ¬ changesOf path (.change op) = true := by rwa [changesOf, decide_eq_true_eq]
        rw [List.filter_cons_of_neg dropped, Disk.onFile_cons_other here, ih]

theorem filter_changesOf {path : Path} {acts : List (Act Path Str Append)}
    (unnamed : Disk.onFile path (changes acts) = []) : acts.filter (changesOf path) = [] := by
  rw [List.filter_eq_nil_iff]
  intro act member
  cases act with
  | emit call => exact Bool.false_ne_true
  | change op =>
    have inside : op ∈ changes acts := List.mem_filterMap.mpr ⟨.change op, member, rfl⟩
    exact List.filter_eq_nil_iff.mp unnamed op inside

namespace Orderly

variable {sha1 : Str → Str} {temps : List Path} {acts : List (Act Path Str Append)}

/-- The files are those with the temporary paths. -/
theorem unnamed (orderly : Orderly sha1 temps acts) {path : Path} (other : path ∉ temps) :
    Disk.onFile path (changes acts) = [] := by
  induction orderly with
  | done => rfl
  | @failed first output temps acts _ ih =>
    obtain ⟨away, other⟩ := List.ne_and_not_mem_of_not_mem_cons other
    have ops := Disk.onFile_pair first output (show (FileOp.remove first).path = first from rfl)
      path (changes acts)
    rw [if_neg away.symm] at ops
    exact ops.trans (ih other)
  | @handled first output replaced cc temps acts _ _ ih =>
    obtain ⟨away, other⟩ := List.ne_and_not_mem_of_not_mem_cons other
    have ops := Disk.onFile_pair first output
      (show (FileOp.write first replaced).path = first from rfl) path (changes acts)
    rw [if_neg away.symm] at ops
    exact ops.trans (ih other)
  | other _ _ ih => exact ih other

/-- The compile results have temporary paths, in order. -/
theorem sublist (orderly : Orderly sha1 temps acts) :
    ((compiled acts).map fun cc => cc.file.path).Sublist temps := by
  induction orderly with
  | done => exact List.Sublist.slnil
  | failed _ ih => exact ih.cons _
  | @handled path output replaced cc temps acts file _ ih =>
    show (cc.file.path :: (compiled acts).map fun cc => cc.file.path).Sublist (path :: temps)
    rw [file]
    exact ih.cons_cons path
  | @other call temps acts other _ ih =>
    have same : compiled (.emit call :: acts) = compiled acts := List.filterMap_cons_none other
    rwa [same]

/-- **What becomes of a temporary file**: it belongs to a compile result, and holds what the checksum
is of, or it is gone. -/
theorem file (orderly : Orderly sha1 temps acts) (distinct : temps.Nodup) {path : Path}
    (member : path ∈ temps) (disk : Path → Option Str) :
    (∃ cc ∈ compiled acts, cc.file.path = path ∧ ∃ content,
        Disk.run disk (Disk.onFile path (changes acts)) path = some content ∧
          cc.file.checksum = sha1 content) ∨
      (path ∉ (compiled acts).map (fun cc => cc.file.path) ∧
        Disk.run disk (Disk.onFile path (changes acts)) path = none) := by
  induction orderly with
  | done => cases member
  | @failed first output temps acts rest ih =>
    obtain ⟨fresh, distinct⟩ := List.nodup_cons.mp distinct
    have ops : Disk.onFile path (changes (.change (.write first output) ::
        .change (.remove first) :: acts)) = _ :=
      Disk.onFile_pair first output (show (FileOp.remove first).path = first from rfl) path
        (changes acts)
    rw [ops]
    by_cases here : first = path
    · subst here
      rw [if_pos rfl, rest.unnamed fresh]
      refine Or.inr ⟨fun listed => fresh (rest.sublist.subset listed), ?_⟩
      exact Function.update_self ..
    · rw [if_neg here]
      exact ih distinct ((List.mem_cons.mp member).resolve_left fun same => here same.symm)
  | @handled first output replaced cc temps acts isFile rest ih =>
    obtain ⟨fresh, distinct⟩ := List.nodup_cons.mp distinct
    have ops : Disk.onFile path (changes (.change (.write first output) ::
        .change (.write first replaced) :: .emit (.cc cc) :: acts)) = _ :=
      Disk.onFile_pair first output (show (FileOp.write first replaced).path = first from rfl) path
        (changes acts)
    have results : compiled (.change (.write first output) ::
        .change (.write first replaced) :: .emit (.cc cc) :: acts) = cc :: compiled acts := rfl
    rw [ops, results]
    by_cases here : first = path
    · subst here
      rw [if_pos rfl, rest.unnamed fresh]
      refine Or.inl ⟨cc, List.mem_cons_self, by rw [isFile], replaced, ?_, by rw [isFile]⟩
      exact Function.update_self ..
    · rw [if_neg here]
      have later := (List.mem_cons.mp member).resolve_left fun same => here same.symm
      obtain ⟨other, listed, holds⟩ | ⟨unlisted, gone⟩ := ih distinct later
      · exact Or.inl ⟨other, List.mem_cons_of_mem _ listed, holds⟩
      · refine Or.inr ⟨fun listed => ?_, gone⟩
        rw [List.map_cons, isFile] at listed
        exact unlisted ((List.mem_cons.mp listed).resolve_left fun same => here same.symm)
  | @other call temps acts other _ ih =>
    have same : compiled (.emit call :: acts) = compiled acts := List.filterMap_cons_none other
    rw [same]
    exact ih distinct member

end Orderly

/-! ### All of them -/

section Together

variable {filters : Filters} {jobs : List Job} {disk last : Path → Option Str}
  {acts : List (Act Path Str Append)}

/-- The temporary paths of a build. -/
def allTemps (filters : Filters) (jobs : List Job) : List Path := jobs.flatMap (Job.temps filters)

/-- No temporary path belongs to two jobs. -/
theorem temps_apart (distinct : (allTemps filters jobs).Nodup) {n m : Nat} {first second : Job}
    (other : n ≠ m) (atFirst : jobs[n]? = some first) (atSecond : jobs[m]? = some second)
    {path : Path} (member : path ∈ first.temps filters) : path ∉ second.temps filters := by
  have pairs := List.pairwise_iff_getElem.mp (List.nodup_flatMap.mp distinct).2
  obtain ⟨inside, rfl⟩ := List.getElem?_eq_some_iff.mp atFirst
  obtain ⟨inside', rfl⟩ := List.getElem?_eq_some_iff.mp atSecond
  intro member'
  rcases Nat.lt_or_gt_of_ne other with before | after
  · exact pairs n m inside inside' before member member'
  · exact pairs m n inside' inside after member' member

/-- The workers work on different files. -/
theorem workers_apart (distinct : (allTemps filters jobs).Nodup) (disk : Path → Option Str) :
    Apart disk (jobs.map (Job.worker filters)) := by
  intro n m first second other atFirst atSecond path member member'
  rw [List.getElem?_map] at atFirst atSecond
  obtain ⟨job, atJob, rfl⟩ := Option.map_eq_some_iff.mp atFirst
  obtain ⟨job', atJob', rfl⟩ := Option.map_eq_some_iff.mp atSecond
  exact temps_apart distinct other atJob atJob' ((orderly_worker filters job disk).2 path member)
    ((orderly_worker filters job' disk).2 path member')

/-- The calls of a run are those of its jobs, in some order. -/
theorem emitted_perm (distinct : (allTemps filters jobs).Nodup)
    (run : Runs disk (jobs.map (Job.worker filters)) acts last) :
    (emitted acts).Perm (jobs.flatMap fun job => (job.outcome filters).calls) := by
  have order := (isolation run (workers_apart distinct disk)).1.perm.filterMap Act.value?
  have each : ∀ jobs : List Job,
      ((jobs.map (Job.worker filters)).map (alone disk)).flatten.filterMap Act.value? =
        jobs.flatMap fun job => (job.outcome filters).calls := by
    intro jobs
    induction jobs with
    | nil => rfl
    | cons job jobs ih =>
      rw [List.map_cons, List.map_cons, List.flatten_cons, List.filterMap_append, ih,
        List.flatMap_cons, ← emitted_worker filters job disk]
      rfl
  rwa [each] at order

theorem calls_results (outcome : Outcome) :
    outcome.calls.filterMap Append.ccResult? = outcome.ccResults ∧
      outcome.calls.filterMap Append.asResult? = outcome.asResults ∧
      outcome.calls.filterMap Append.ldResult? = outcome.ldResults := by
  unfold Outcome.calls
  simp [Append.ccResult?, Append.asResult?, Append.ldResult?, List.filterMap_map, Function.comp_def]

/-- **The workers append what the entries give one after another.** -/
theorem parallel_results {build : ProcessorRun} {ready : ToolchainProfile}
    {cdb : List (Json × Machine)} (given : jobsOf build.filters ready cdb = .ok jobs)
    (distinct : (allTemps build.filters jobs).Nodup)
    (run : Runs disk (jobs.map (Job.worker build.filters)) acts last) :
    ∃ outcome, build.processAll ready cdb = .ok outcome ∧
      (collect (emitted acts)).ccResults.Perm outcome.ccResults ∧
      (collect (emitted acts)).asResults.Perm outcome.asResults ∧
      (collect (emitted acts)).ldResults.Perm outcome.ldResults := by
  have perm := emitted_perm distinct run
  obtain ⟨ccs, ass, lds⟩ := outcomeOf_results build.filters jobs
  refine ⟨outcomeOf build.filters jobs .nothing, ?_, ?_, ?_, ?_⟩
  · rw [processAll_jobs, given]
    rfl
  · have same := perm.filterMap Append.ccResult?
    simp only [List.filterMap_flatMap, (calls_results _).1] at same
    rwa [Build.collect_eq, ccs]
  · have same := perm.filterMap Append.asResult?
    simp only [List.filterMap_flatMap, (calls_results _).2.1] at same
    rwa [Build.collect_eq, ass]
  · have same := perm.filterMap Append.ldResult?
    simp only [List.filterMap_flatMap, (calls_results _).2.2] at same
    rwa [Build.collect_eq, lds]

/-- **What the workers leave on the disk**, from what was on it. -/
structure Settled (sha1 : Str → Str) (temps : List Path) (disk last : Path → Option Str)
    (ccResults : List CCResult) : Prop where
  /-- The file of a compile result is there, with its checksum. -/
  kept : ∀ cc ∈ ccResults, ∃ content, last cc.file.path = some content ∧
    cc.file.checksum = sha1 content
  /-- No two compile results have one file. -/
  apart : (ccResults.map fun cc => cc.file.path).Nodup
  /-- The temporary files are those of the compile results. -/
  cleared : ∀ path ∈ temps, path ∉ ccResults.map (fun cc => cc.file.path) → last path = none
  named : ∀ cc ∈ ccResults, cc.file.path ∈ temps
  /-- Nothing else has changed. -/
  frame : ∀ path, path ∉ temps → last path = disk path

/-- What becomes of a temporary file, its worker decides. -/
theorem last_eq (distinct : (allTemps filters jobs).Nodup)
    (run : Runs disk (jobs.map (Job.worker filters)) acts last) {n : Nat} {job : Job}
    (atJob : jobs[n]? = some job) {path : Path} (member : path ∈ job.temps filters) :
    last path = Disk.run disk (Disk.onFile path (changes (alone disk (job.worker filters)))) path := by
  obtain ⟨order, final⟩ := isolation run (workers_apart distinct disk)
  have listed : ((jobs.map (Job.worker filters)).map (alone disk))[n]? =
      some (alone disk (job.worker filters)) := by
    rw [List.getElem?_map, List.getElem?_map, atJob]
    rfl
  have owned := order.owned (changesOf path) listed fun m other away atOther => by
    rw [List.getElem?_map, List.getElem?_map, Option.map_map] at atOther
    obtain ⟨job', atJob', rfl⟩ := Option.map_eq_some_iff.mp atOther
    have elsewhere := temps_apart distinct away.symm atJob atJob' member
    have absent := (orderly_worker filters job' disk).1.unnamed elsewhere
    exact filter_changesOf absent
  rw [final, Disk.run_at (changes acts) rfl, onFile_changes, onFile_changes, owned]

/-- A file that is no temporary file of the build is as it was. -/
theorem last_other (distinct : (allTemps filters jobs).Nodup)
    (run : Runs disk (jobs.map (Job.worker filters)) acts last) {path : Path}
    (other : path ∉ allTemps filters jobs) : last path = disk path := by
  obtain ⟨order, final⟩ := isolation run (workers_apart distinct disk)
  have absent : acts.filter (changesOf path) = [] := by
    rw [List.filter_eq_nil_iff]
    intro act member
    obtain ⟨worker, isWorker, inside⟩ := List.mem_flatten.mp (order.perm.subset member)
    rw [List.map_map] at isWorker
    obtain ⟨job, isJob, rfl⟩ := List.mem_map.mp isWorker
    have elsewhere : path ∉ job.temps filters := fun temp =>
      other (List.mem_flatMap.mpr ⟨job, isJob, temp⟩)
    have unnamed := (orderly_worker filters job disk).1.unnamed elsewhere
    exact List.filter_eq_nil_iff.mp (filter_changesOf unnamed) act inside
  rw [final]
  apply Disk.run_frame
  rw [onFile_changes, absent]
  rfl

/-- The compile results of a run are those of its workers. -/
theorem compiled_perm (distinct : (allTemps filters jobs).Nodup)
    (run : Runs disk (jobs.map (Job.worker filters)) acts last) :
    (compiled acts).Perm
      (jobs.flatMap fun job => compiled (alone disk (job.worker filters))) := by
  have perm := (emitted_perm distinct run).filterMap Append.ccResult?
  simp only [List.filterMap_flatMap, ← emitted_worker filters _ disk] at perm
  exact perm

/-- The files of the compile results are temporary files, in the order of the jobs. -/
theorem compiled_sublist (filters : Filters) (jobs : List Job) (disk : Path → Option Str) :
    ((jobs.flatMap fun job => compiled (alone disk (job.worker filters))).map
      fun cc => cc.file.path).Sublist (allTemps filters jobs) := by
  induction jobs with
  | nil => exact List.Sublist.slnil
  | cons job jobs ih =>
    rw [List.flatMap_cons, List.map_append]
    exact (orderly_worker filters job disk).1.sublist.append ih

/-- **The files of the compile results are on the disk, with their checksums**, whatever the order of
the workers' steps was, and nothing else has changed. -/
theorem workers_settle {sha1 : Str → Str} (hash : ∀ job ∈ jobs, job.machine.sha1 = sha1)
    (distinct : (allTemps filters jobs).Nodup)
    (run : Runs disk (jobs.map (Job.worker filters)) acts last) :
    Settled sha1 (allTemps filters jobs) disk last (collect (emitted acts)).ccResults := by
  have results : (collect (emitted acts)).ccResults = compiled acts := by
    rw [Build.collect_eq]
    rfl
  have perm := compiled_perm distinct run
  have files := perm.map fun cc => cc.file.path
  have apart : ((compiled acts).map fun cc => cc.file.path).Nodup :=
    files.nodup_iff.mpr ((compiled_sublist filters jobs disk).nodup distinct)
  have each := (List.nodup_flatMap.mp distinct).1
  rw [results]
  refine ⟨fun cc member => ?_, apart, fun path member unlisted => ?_, fun cc member => ?_,
    fun path other => last_other distinct run other⟩
  · obtain ⟨job, isJob, inside⟩ := List.mem_flatMap.mp (perm.subset member)
    obtain ⟨n, indexed⟩ := List.mem_iff_getElem?.mp isJob
    have orderly := (orderly_worker filters job disk).1
    have temp := orderly.sublist.subset (List.mem_map_of_mem inside)
    rw [last_eq distinct run indexed temp]
    rcases orderly.file (each job isJob) temp disk with
      ⟨other, listed, same, content, found, checksum⟩ | ⟨unlisted, -⟩
    · have listed := perm.symm.subset (List.mem_flatMap.mpr ⟨job, isJob, listed⟩)
      have equal := List.inj_on_of_nodup_map apart listed member same
      rw [← equal, ← hash job isJob]
      exact ⟨content, by rwa [same], checksum⟩
    · exact absurd (List.mem_map_of_mem inside) unlisted
  · obtain ⟨job, isJob, temp⟩ := List.mem_flatMap.mp member
    obtain ⟨n, indexed⟩ := List.mem_iff_getElem?.mp isJob
    rw [last_eq distinct run indexed temp]
    rcases (orderly_worker filters job disk).1.file (each job isJob) temp disk with
      ⟨cc, listed, same, -⟩ | ⟨-, gone⟩
    · have listed := perm.symm.subset (List.mem_flatMap.mpr ⟨job, isJob, listed⟩)
      exact absurd (List.mem_map.mpr ⟨cc, listed, same⟩) unlisted
    · exact gone
  · exact (compiled_sublist filters jobs disk).subset (files.subset (List.mem_map_of_mem member))

/-- **What is delivered, whatever the order of the workers' steps was.** -/
theorem delivered {env : OutputEnv} (hash : ∀ job ∈ jobs, job.machine.sha1 = env.sha1)
    (distinct : (allTemps filters jobs).Nodup)
    (run : Runs disk (jobs.map (Job.worker filters)) acts last) (config : OutputConfig) :
    ∃ listed, (generateFiles config env (collect (emitted acts)) last).1 =
        (propertyFilePath, []) :: listed ++ [("checksum.sha1".toList,
          listed.flatMap fun file => Build.listedLine config env file ++ ['\n'])] ∧
      List.Forall₂ (Build.Listed config env) listed
        (generateOutput config env (collect (emitted acts))).checksum ∧
      ∀ path, (generateFiles config env (collect (emitted acts)) last).2 path =
        if path ∈ allTemps filters jobs then none else disk path := by
  have settled := workers_settle hash distinct run
  have onDisk : OnDisk env (collect (emitted acts)).ccResults last := ⟨settled.apart, settled.kept⟩
  obtain ⟨listed, files, lines, removed⟩ := Build.checksums_match config onDisk
  rw [Build.checksumText_listed lines] at files
  refine ⟨listed, files, lines, fun path => ?_⟩
  rw [removed]
  by_cases temp : path ∈ allTemps filters jobs
  · rw [if_pos temp]
    split_ifs with compiled
    · rfl
    · exact settled.cleared path temp compiled
  · rw [if_neg temp, if_neg fun compiled => temp ?_]
    · exact settled.frame path temp
    · obtain ⟨cc, member, rfl⟩ := List.mem_map.mp compiled
      exact settled.named cc member

/-- **The source files are those of the compile results that are taken into account**, with what they
depend on, each once and in order, whatever the order of the workers' steps was. -/
theorem source_list {build : ProcessorRun} {ready : ToolchainProfile}
    {cdb : List (Json × Machine)} (given : jobsOf build.filters ready cdb = .ok jobs)
    (distinct : (allTemps build.filters jobs).Nodup)
    (run : Runs disk (jobs.map (Job.worker build.filters)) acts last) (config : OutputConfig)
    (env : OutputEnv) :
    ∃ (outcome : Outcome) (files : List Str), build.processAll ready cdb = .ok outcome ∧
      Json.parse (sourceListText (generateOutput config env (collect (emitted acts)))) =
        some (.arr (files.map .str)) ∧
      files.Pairwise (· < ·) ∧
      ∀ source, source ∈ files ↔ ∃ cc ∈ outcome.ccResults,
        Counted config (collect (emitted acts)) cc ∧ (source = cc.source ∨ source ∈ cc.deps) := by
  have same := (emitted_perm distinct run).filterMap Append.ccResult?
  simp only [List.filterMap_flatMap, (calls_results _).1] at same
  rw [← (outcomeOf_results build.filters jobs).1] at same
  have sources := (Build.compileInv_loop env config (collect (emitted acts))).sources
  refine ⟨outcomeOf build.filters jobs .nothing, _, ?_, Build.parse_sourceList _,
    (Build.compileLoop config env (collect (emitted acts))).sourceFiles.sorted, fun source => ?_⟩
  · rw [processAll_jobs, given]
    rfl
  · refine (sources source).trans (exists_congr fun cc => and_congr_left fun _ => ?_)
    rw [Build.collect_eq]
    exact same.mem_iff

end Together

/-! ### Two workers -/

/-- The hashes of a file without text, and of a property file without dependencies and options. -/
def twoHashes : OutputEnv :=
  { Build.plainEnv with
    sha1 := fun text => if text = [] then "da39a3ee5e6b4b0d3255bfef95601890afd80709".toList
      else Build.plainEnv.sha1 text }

/-- The preprocessor fails on the second source, and the temporary files have a letter. -/
def letteredMachine (letter : Char) : Machine :=
  { machineFailingFrom 1 with
    sha1 := twoHashes.sha1
    tempPath := fun position => "/out/".toList ++ letter :: decimal position }

/-- An entry for `gcc` in `/w`. -/
def gccEntry (sources : List String) : Json :=
  .obj [("directory".toList, .str "/w".toList),
    ("arguments".toList, .arr (.str "gcc".toList :: sources.map fun source => .str source.toList))]

/-- `gcc a.c b.c`, and `gcc c.c`. -/
def twoCommands : List (Json × Machine) :=
  [(gccEntry ["a.c", "b.c"], letteredMachine 'p'), (gccEntry ["c.c"], letteredMachine 'q')]

/-- A job of `gcc` on C sources. -/
def gccJob (machine : Machine) (sources : List String) : Job where
  profile := bareProfile
  machine := machine
  parsed := { Profile.ParsedWorkItem.init with
    kind := .compile
    binary := "gcc".toList
    dir := "/w".toList
    fileFormat := .cSource
    sources := sources.map fun source => (source.toList, .cSource) }

def twoJobs : List Job :=
  [gccJob (letteredMachine 'p') ["/w/a.c", "/w/b.c"], gccJob (letteredMachine 'q') ["/w/c.c"]]

/-- A build with the tool profile of `gcc` and no filters. -/
def gccBuild : ProcessorRun where
  toolchainProfile := gccToolchain
  autoDetect := false
  detected _ := gccToolchain
  host := ⟨fun _ => false, fun binary _ => binary, fun _ _ => "/tmp/in".toList,
    fun _ _ => "/tmp/out".toList, fun _ => (0, [])⟩
  complete path := path
  filters := ⟨[], [], [], []⟩

/-- The second worker is done while the first one handles its second source. -/
theorem runs_two : ∃ acts last,
    Runs (fun _ => none) (twoJobs.map (Job.worker gccBuild.filters)) acts last :=
  ⟨_, _, .step (n := 0) rfl rfl <| .step (n := 1) rfl rfl <| .step (n := 1) rfl rfl <|
    .step (n := 0) rfl rfl <| .step (n := 0) rfl rfl <| .step (n := 0) rfl rfl <|
    .step (n := 0) rfl rfl <| .step (n := 1) rfl rfl <| .step (n := 1) rfl rfl <|
    .step (n := 0) rfl rfl <| .done fun program member =>
      (List.mem_pair.mp (show program ∈ [.done, .done] from member)).elim id id⟩

/-- Compile results without a link result go to `test_ld`. -/
def compilerLinks : OutputConfig := { Build.plainConfig with needProcessLinkUsingCompiler := true }

theorem distinct_two : (allTemps gccBuild.filters twoJobs).Nodup := by decide

theorem parallel_results_two : ∃ acts last,
    Runs (fun _ => none) (twoJobs.map (Job.worker gccBuild.filters)) acts last ∧
      ∃ outcome, gccBuild.processAll gccToolchain twoCommands = .ok outcome ∧
        (collect (emitted acts)).ccResults.Perm outcome.ccResults ∧
        (collect (emitted acts)).asResults.Perm outcome.asResults ∧
        (collect (emitted acts)).ldResults.Perm outcome.ldResults := by
  obtain ⟨acts, last, run⟩ := runs_two
  have given : jobsOf gccBuild.filters gccToolchain twoCommands = .ok twoJobs := rfl
  exact ⟨acts, last, run, parallel_results given distinct_two run⟩

theorem delivered_two : ∃ acts last,
    Runs (fun _ => none) (twoJobs.map (Job.worker gccBuild.filters)) acts last ∧
      ∃ listed, (generateFiles compilerLinks twoHashes (collect (emitted acts)) last).1 =
          (propertyFilePath, []) :: listed ++ [("checksum.sha1".toList,
            listed.flatMap fun file => Build.listedLine compilerLinks twoHashes file ++ ['\n'])] ∧
        List.Forall₂ (Build.Listed compilerLinks twoHashes) listed
          (generateOutput compilerLinks twoHashes (collect (emitted acts))).checksum ∧
        ∀ path, (generateFiles compilerLinks twoHashes (collect (emitted acts)) last).2 path =
          if path ∈ allTemps gccBuild.filters twoJobs then none else none := by
  obtain ⟨acts, last, run⟩ := runs_two
  refine ⟨acts, last, run, delivered (fun job member => ?_) distinct_two run compilerLinks⟩
  rcases List.mem_pair.mp member with rfl | rfl <;> rfl

theorem source_list_two : ∃ acts last,
    Runs (fun _ => none) (twoJobs.map (Job.worker gccBuild.filters)) acts last ∧
      ∃ (outcome : Outcome) (files : List Str),
        gccBuild.processAll gccToolchain twoCommands = .ok outcome ∧
        Json.parse (sourceListText (generateOutput compilerLinks twoHashes
          (collect (emitted acts)))) = some (.arr (files.map .str)) ∧
        files.Pairwise (· < ·) ∧
        ∀ source, source ∈ files ↔ ∃ cc ∈ outcome.ccResults,
          Counted compilerLinks (collect (emitted acts)) cc ∧
            (source = cc.source ∨ source ∈ cc.deps) := by
  obtain ⟨acts, last, run⟩ := runs_two
  have given : jobsOf gccBuild.filters gccToolchain twoCommands = .ok twoJobs := rfl
  exact ⟨acts, last, run, source_list given distinct_two run compilerLinks twoHashes⟩

end Xcalbuild.Processor
