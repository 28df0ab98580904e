/-
**The bytes in the archive, and the lines of `checksum.sha1`.**

`generate_output` does not copy the preprocessed files at the end: it reads the file of a compile
result from the disk when it comes to it, once for each link info, and removes it before it goes on
to the next result. `generateFiles` is `generateOutput` with the disk.

* `diskInv_step`, `diskInv_run`: what has been archived has its checksum lines, in order;
* **`checksums_match`**: where the compile results have files of their own with their checksums, the
  lines of `checksum.sha1` are those of the bytes that are archived, and of all of them but the
  top-level property file and itself; and the files of the compile results are removed;
* `parse_sourceList`: the list of the source files is read back from its text.
-/
import Xcalbuild.Build.Compile
import Xcalbuild.Library.Disk
import Xcalbuild.Library.JsonDump

namespace Xcalbuild.Build

open Library

/-! ### The output, with the disk -/

/-- What a file of the archive holds. A stream on a file that is not there has no text. -/
def Content.bytes (disk : Path → Option Str) : Content → Str
  | .text value => value
  | .ofFile path => (disk path).getD []

/-- The files among entries, with what they hold. -/
def filesOf (disk : Path → Option Str) (entries : List Entry) : List (Path × Str) :=
  entries.filterMap fun entry =>
    match entry with
    | .dir _ => none
    | .file path content => some (path, content.bytes disk)

/-- The variables of the compile loop, the disk, and the files that are in the archive. -/
structure DiskState where
  state : CompileState
  disk : Path → Option Str
  files : List (Path × Str)

/-- The body of the compile loop: what it archives it reads from the disk, before it removes the file
of the compile result. -/
def diskStep (config : OutputConfig) (env : OutputEnv) (run : DiskState) (cc : CCResult) :
    DiskState :=
  let state := compileStep config env run.state cc
  { state
    disk := Disk.apply run.disk (.remove cc.file.path)
    files := run.files ++ filesOf run.disk (state.archive.drop run.state.archive.length) }

/-- Before the compile loop. -/
def diskInit (config : OutputConfig) (results : Results) (disk : Path → Option Str) :
    DiskState where
  state := (linkLoop config results).toCompile
  disk := disk
  files := filesOf disk (linkLoop config results).archive

/-- The compile loop, with the disk. -/
def diskLoop (config : OutputConfig) (env : OutputEnv) (results : Results)
    (disk : Path → Option Str) : DiskState :=
  results.ccResults.foldl (diskStep config env) (diskInit config results disk)

/-- **`generate_output` on a disk**: the files in the archive, and the disk afterwards. -/
def generateFiles (config : OutputConfig) (env : OutputEnv) (results : Results)
    (disk : Path → Option Str) : List (Path × Str) × (Path → Option Str) :=
  let loop := diskLoop config env results disk
  (loop.files ++ filesOf loop.disk
    ((generateOutput config env results).archive.drop loop.state.archive.length), loop.disk)

/-- A file in the archive has this line: its path below the output directory, and its checksum. -/
structure Listed (config : OutputConfig) (env : OutputEnv) (file : Path × Str)
    (line : ChecksumLine) : Prop where
  path : line.path = Path.append (ppTopPath config) file.1
  checksum : line.checksum = env.sha1 file.2

/-- The line of a file in the archive: its checksum, a blank, and its path in the output. -/
def listedLine (config : OutputConfig) (env : OutputEnv) (file : Path × Str) : Str :=
  env.sha1 file.2 ++ ' ' :: Path.append (ppTopPath config) file.1

/-- The text of the checksum file has the lines of the files. -/
theorem checksumText_listed {config : OutputConfig} {env : OutputEnv} {listed : List (Path × Str)}
    {written : List ChecksumLine} (each : List.Forall₂ (Listed config env) listed written) :
    checksumText written = listed.flatMap fun file => listedLine config env file ++ ['\n'] := by
  induction each with
  | nil => rfl
  | cons first _ ih =>
    obtain ⟨path, checksum⟩ := first
    rw [checksumText, List.flatMap_cons, ← checksumText, ih, ChecksumLine.text, path, checksum]
    rfl

/-- The compile results have files of their own on the disk, with their checksums. -/
structure OnDisk (env : OutputEnv) (ccResults : List CCResult) (disk : Path → Option Str) :
    Prop where
  apart : (ccResults.map fun cc => cc.file.path).Nodup
  there : ∀ cc ∈ ccResults, ∃ content, disk cc.file.path = some content ∧
    cc.file.checksum = env.sha1 content

/-! ### The compile loop -/

section Loop

variable {config : OutputConfig} {env : OutputEnv} {results : Results}

theorem filesOf_append (disk : Path → Option Str) (first second : List Entry) :
    filesOf disk (first ++ second) = filesOf disk first ++ filesOf disk second :=
  List.filterMap_append

/-- What a walk over link infos archives for one compile result. -/
theorem filesOf_added (disk : Path → Option Str) (added : List Path) (content : Content) :
    filesOf disk (added.map fun path => .file path content) =
      added.map fun path => (path, content.bytes disk) := by
  rw [filesOf, List.filterMap_map, ← List.filterMap_eq_map]
  rfl

theorem filesOf_dirs {α : Type} (disk : Path → Option Str) (path : α → Path) (l : List α) :
    filesOf disk (l.map fun a => .dir (path a)) = [] := by
  rw [filesOf, List.filterMap_map, List.filterMap_eq_nil_iff]
  exact fun a _ => rfl

/-- What the variables hold after the compile results `ccs`, on a disk that held `disk` before. -/
structure DiskInv (config : OutputConfig) (env : OutputEnv) (results : Results)
    (disk : Path → Option Str) (ccs : List CCResult) (run : DiskState) : Prop where
  state : run.state = ccs.foldl (compileStep config env) (linkLoop config results).toCompile
  removed : ∀ path, run.disk path =
    if path ∈ ccs.map (fun cc => cc.file.path) then none else disk path
  files : ∃ listed, run.files = (propertyFilePath, []) :: listed ∧
    List.Forall₂ (Listed config env) listed run.state.checksum

theorem diskInv_init (disk : Path → Option Str) :
    DiskInv config env results disk [] (diskInit config results disk) := by
  refine ⟨rfl, fun path => rfl, [], ?_, .nil⟩
  show filesOf disk (linkLoop config results).archive = _
  rw [(layout config results).archive]
  exact congrArg ((propertyFilePath, []) :: ·) (filesOf_dirs disk _ _)

/-- **One pass archives bytes that have the checksum of its lines.** -/
theorem diskInv_step {disk : Path → Option Str} {ccs : List CCResult} {run : DiskState}
    (inv : DiskInv config env results disk ccs run) {cc : CCResult}
    (fresh : cc.file.path ∉ ccs.map fun cc => cc.file.path)
    (there : ∃ content, disk cc.file.path = some content ∧ cc.file.checksum = env.sha1 content) :
    DiskInv config env results disk (ccs ++ [cc]) (diskStep config env run cc) := by
  have compile : CompileInv config results ccs run.state := by
    rw [inv.state]
    exact compileInv_foldl env config results ccs
  obtain ⟨added, archived⟩ := compileStep_archived env compile cc
  obtain ⟨content, found, checksum⟩ := there
  obtain ⟨listed, files, lines⟩ := inv.files
  have now : run.disk cc.file.path = some content := by rw [inv.removed, if_neg fresh, found]
  refine ⟨?_, fun path => ?_, listed ++ added.map fun path => (path, content), ?_, ?_⟩
  · rw [List.foldl_append, ← inv.state]
    rfl
  · show Function.update run.disk cc.file.path none path = _
    rw [List.map_append, List.map_singleton]
    by_cases here : path = cc.file.path
    · subst here
      rw [Function.update_self, if_pos (by simp)]
    · rw [Function.update_of_ne here, inv.removed]
      simp [here]
  · show run.files ++ filesOf run.disk
      ((compileStep config env run.state cc).archive.drop run.state.archive.length) = _
    rw [archived.archive, List.drop_left, filesOf_added, files]
    show _ ++ added.map (fun path => (path, (run.disk cc.file.path).getD [])) = _
    rw [now]
    rfl
  · show List.Forall₂ _ _ (compileStep config env run.state cc).checksum
    rw [archived.checksum]
    refine List.rel_append lines ?_
    rw [List.forall₂_map_left_iff, List.forall₂_map_right_iff, List.forall₂_same]
    exact fun path _ => ⟨rfl, checksum⟩

/-- **The compile loop on the disk.** -/
theorem diskInv_run {disk : Path → Option Str} (onDisk : OnDisk env results.ccResults disk) :
    DiskInv config env results disk results.ccResults (diskLoop config env results disk) := by
  have run : ∀ ccs : List CCResult, OnDisk env ccs disk → DiskInv config env results disk ccs
      (ccs.foldl (diskStep config env) (diskInit config results disk)) := by
    intro ccs
    induction ccs using List.reverseRecOn with
    | nil => exact fun _ => diskInv_init disk
    | append_singleton ccs cc ih =>
      intro onDisk
      have apart := onDisk.apart
      rw [List.map_append, List.map_singleton, List.nodup_append] at apart
      rw [List.foldl_append]
      refine diskInv_step (ih ⟨apart.1, fun other member => ?_⟩) (fun member => ?_) ?_
      · exact onDisk.there other (List.mem_append_left _ member)
      · exact apart.2.2 _ member _ List.mem_cons_self rfl
      · exact onDisk.there cc (List.mem_append_right _ List.mem_cons_self)
  exact run results.ccResults onDisk

/-- The property files are archived with their lines. -/
theorem listed_properties (disk : Path → Option Str) (infos : List LDInfo)
    (state : PropertyState) :
    ∃ entries lines, (infos.foldl (propertyStep config env) state).archive =
        state.archive ++ entries ∧
      (infos.foldl (propertyStep config env) state).checksum = state.checksum ++ lines ∧
      List.Forall₂ (Listed config env) (filesOf disk entries) lines := by
  induction infos generalizing state with
  | nil => exact ⟨[], [], (List.append_nil _).symm, (List.append_nil _).symm, .nil⟩
  | cons info rest ih =>
    obtain ⟨entries, lines, archive, checksum, listed⟩ := ih (propertyStep config env state info)
    rw [List.foldl_cons, archive, checksum]
    refine ⟨_, _, List.append_assoc .., List.append_assoc .., ?_⟩
    exact .cons ⟨rfl, rfl⟩ listed

/-- **The lines of `checksum.sha1` are those of what is archived.** -/
theorem checksums_match (config : OutputConfig) {disk : Path → Option Str}
    (onDisk : OnDisk env results.ccResults disk) :
    ∃ listed, (generateFiles config env results disk).1 = (propertyFilePath, []) :: listed ++
        [("checksum.sha1".toList, checksumText (generateOutput config env results).checksum)] ∧
      List.Forall₂ (Listed config env) listed (generateOutput config env results).checksum ∧
      ∀ path, (generateFiles config env results disk).2 path =
        if path ∈ results.ccResults.map (fun cc => cc.file.path) then none else disk path := by
  obtain ⟨state, removed, listed, files, lines⟩ :=
    diskInv_run onDisk
  have compiled : (diskLoop config env results disk).state = compileLoop config env results := state
  obtain ⟨entries, more, archive, checksum, properties⟩ :=
    listed_properties (diskLoop config env results disk).disk (compileLoop config env results).ldInfos
      ((compileLoop config env results).toProperty (linkLoop config results).dependencyNames)
  have lastEntries : (generateOutput config env results).archive =
      (compileLoop config env results).archive ++ (entries ++ [.file "checksum.sha1".toList
        (.text (checksumText (generateOutput config env results).checksum))]) :=
    (congrArg (· ++ _) archive).trans (List.append_assoc ..)
  refine ⟨listed ++ filesOf (diskLoop config env results disk).disk entries, ?_, ?_, removed⟩
  · show (diskLoop config env results disk).files ++ filesOf _ _ = _
    rw [lastEntries, compiled, List.drop_left, filesOf_append, files, ← List.append_assoc,
      List.cons_append]
    rfl
  · rw [compiled] at lines
    show List.Forall₂ _ _ (propertyLoop config env results).checksum
    unfold propertyLoop
    rw [checksum]
    exact List.rel_append lines properties

end Loop

/-! ### The list of the source files -/

/-- What is written to the file with the source files, in order. -/
def sourceListText (output : Output) : Str :=
  Json.dump none (.arr (output.sourceFiles.map .str)) ++ ['\n']

/-- **The source files are read back**, whatever is in their names. -/
theorem parse_sourceList (output : Output) :
    Json.parse (sourceListText output) = some (.arr (output.sourceFiles.map .str)) := by
  have newline : ∀ c ∈ ['\n'], Json.isBlank c = true := List.forall_mem_singleton.mpr rfl
  rw [sourceListText, Json.parse_dump_blanks none (Json.textual_strings _) newline,
    Json.latest_strings]

end Xcalbuild.Build
