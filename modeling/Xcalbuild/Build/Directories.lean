/-
**Different files under different paths.**

The archive holds a top-level property file, the preprocessed files, one property file for each
link info, and the checksum file. Their paths are pairwise different exactly when the directories
of the link infos are, and these are numbered file names of link targets. The checksum file is a text,
so it has one line for each file exactly when no path has a newline.

* `propertyLoop_paths`: the property loop adds the property file of every link info;
* `filePaths_output`: all the file paths of the output;
* `ppFiles_chars`: what a preprocessed file has in its path, and `noNewlines_iff`: so the names decide
  whether there is a newline in a path;
* `outputApart_iff`: files and directories have paths of their own, and lines of their own, exactly when
  no numbered file name that is handed out is the file name of a link target, and no name has a newline.
-/
import Xcalbuild.Build.Compile

namespace Xcalbuild.Build

open Library

/-- The path of the property file of the link info at a position. -/
def propertyFileAt (config : OutputConfig) (results : Results) (i : Nat) : Path :=
  dirAt config results i ++ '/' :: propertyFilePath

theorem isDir_dirAt {config : OutputConfig} {results : Results} {i : Nat}
    (inside : i < (targetNames config results).length) : Path.IsDir (dirAt config results i) :=
  isDir_targetDir inside

/-! ### The property loop -/

section Properties

variable {config : OutputConfig} {env : OutputEnv} {results : Results}

/-- What a walk over link infos adds to the archive and to the checksums. -/
theorem propertySteps_paths (config : OutputConfig) (env : OutputEnv) (infos : List LDInfo)
    (state : PropertyState) :
    filePaths (infos.foldl (propertyStep config env) state).archive =
        filePaths state.archive ++ infos.map propertyPath ∧
      dirPaths (infos.foldl (propertyStep config env) state).archive = dirPaths state.archive ∧
      (infos.foldl (propertyStep config env) state).checksum.map ChecksumLine.path =
        state.checksum.map ChecksumLine.path ++
          infos.map fun info => Path.append (ppTopPath config) (propertyPath info) := by
  induction infos generalizing state with
  | nil => simp
  | cons info rest ih =>
    obtain ⟨files, dirs, lines⟩ := ih (propertyStep config env state info)
    rw [List.foldl_cons, files, dirs, lines]
    have archive : ∃ content, (propertyStep config env state info).archive =
        state.archive ++ [.file (propertyPath info) content] := ⟨_, rfl⟩
    have checksum : ∃ sum, (propertyStep config env state info).checksum =
        state.checksum ++ [⟨sum, Path.append (ppTopPath config) (propertyPath info)⟩] := ⟨_, rfl⟩
    obtain ⟨content, archive⟩ := archive
    obtain ⟨sum, checksum⟩ := checksum
    rw [archive, checksum, filePaths_append, dirPaths_append, List.map_append, List.append_assoc,
      List.append_assoc]
    exact ⟨rfl, List.append_nil _, rfl⟩

theorem propertyFilePath_ne_nil : propertyFilePath ≠ [] := by decide

theorem notMem_propertyFilePath : '/' ∉ propertyFilePath := by decide

theorem map_propertyPath {infos : List LDInfo} (laidOut : PathsLaidOut config results infos) :
    infos.map propertyPath =
      (List.range (targetNames config results).length).map (propertyFileAt config results) := by
  have paths : infos.map propertyPath = (infos.map LDInfo.ppOutputPath).map fun path =>
      Path.append (Path.parentPath path) propertyFilePath := by
    rw [List.map_map]
    rfl
  rw [paths, laidOut, List.map_map]
  refine List.map_congr_left fun i member => ?_
  exact Path.append_parentPath (isDir_targetDir (List.mem_range.mp member))
    config.ppDirName.nonempty config.ppDirName.single propertyFilePath_ne_nil notMem_propertyFilePath

/-- **The paths of the property loop.** -/
theorem propertyLoop_paths (config : OutputConfig) (env : OutputEnv) (results : Results) :
    filePaths (propertyLoop config env results).archive =
        propertyFilePath :: ((compileLoop config env results).ppFiles ++
          (List.range (targetNames config results).length).map (propertyFileAt config results)) ∧
      dirPaths (propertyLoop config env results).archive =
        ((List.range (targetNames config results).length).map fun i =>
          ppOutputPath config (numbered (targetNames config results) i)) ∧
      (propertyLoop config env results).checksum.map ChecksumLine.path =
        ((compileLoop config env results).ppFiles ++
          (List.range (targetNames config results).length).map
            (propertyFileAt config results)).map (Path.append (ppTopPath config)) := by
  have inv := compileInv_loop env config results
  obtain ⟨files, dirs, lines⟩ := propertySteps_paths config env
    (compileLoop config env results).ldInfos
    ((compileLoop config env results).toProperty (linkLoop config results).dependencyNames)
  have start : ((compileLoop config env results).toProperty
      (linkLoop config results).dependencyNames).archive =
        (compileLoop config env results).archive := rfl
  have startLines : ((compileLoop config env results).toProperty
      (linkLoop config results).dependencyNames).checksum =
        (compileLoop config env results).checksum := rfl
  rw [start] at files dirs
  rw [startLines] at lines
  refine ⟨?_, ?_, ?_⟩
  · rw [propertyLoop, files, inv.files, map_propertyPath inv.laidOut, List.cons_append]
  · rw [propertyLoop, dirs, inv.dirs]
  · have mapped : ((compileLoop config env results).ldInfos.map fun info =>
        Path.append (ppTopPath config) (propertyPath info)) =
          ((compileLoop config env results).ldInfos.map propertyPath).map
            (Path.append (ppTopPath config)) := by
      rw [List.map_map]
      rfl
    rw [propertyLoop, lines, inv.lines, mapped, map_propertyPath inv.laidOut, List.map_append]

end Properties

/-! ### The output -/

/-- The files that the checksum file has a line for: all but the two at the top. -/
def checksummed (output : Output) : List Path :=
  (filePaths output.archive).filter fun path => decide ('/' ∈ path)

/-- The digits of a checksum. -/
def IsChecksum (sum : Str) : Prop := ∀ c ∈ sum, c ∈ "0123456789abcdef".toList

/-- A line of the checksum file that is for a path: a checksum, a blank, and the path in the output. -/
def LineFor (config : OutputConfig) (path : Path) (line : Str) : Prop :=
  ∃ sum, IsChecksum sum ∧ line = sum ++ ' ' :: Path.append (ppTopPath config) path

/-- **Files and directories have paths of their own**: the file entries of the archive have
pairwise different paths, every link result, and the extra link info when it is enabled, has a
directory of its own, and the text of the checksum file has one line for each of the other files. -/
structure OutputApart (config : OutputConfig) (results : Results) (output : Output) : Prop where
  files : (filePaths output.archive).Nodup
  dirs : (dirPaths output.archive).Nodup
  dirCount : (dirPaths output.archive).length =
    results.ldResults.length + if config.needProcessLinkUsingCompiler then 1 else 0
  lines : ∃ text, .file "checksum.sha1".toList (.text text) ∈ output.archive ∧
    List.Forall₂ (LineFor config) (checksummed output) (lines text)

/-- No numbered file name that is handed out is the file name of a link target. -/
def NumbersFree (names : List Str) : Prop :=
  ∀ f k, 0 < k → k < names.count f → f ++ numberSuffix k ∉ names

/-- The names that get into the paths of the output have no newline: the output directory, when there is a
link info, the file names of the link targets, and the names of the preprocessed files that a link info
gets. -/
structure NoNewlines (config : OutputConfig) (results : Results) : Prop where
  output : targetNames config results ≠ [] →
    '\n' ∉ config.outputPath ∧ '\n' ∉ config.ppDirName.name
  targets : ∀ name ∈ targetNames config results, '\n' ∉ name
  files : ∀ cc ∈ results.ccResults, (∃ i, Reaches config results cc.target i) ∨
    (config.needProcessLinkUsingCompiler = true ∧ ∃ i, Reaches config results testLd i) →
      '\n' ∉ cc.ppFileName

section Output

variable {config : OutputConfig} {env : OutputEnv} {results : Results}

theorem filePaths_output (config : OutputConfig) (env : OutputEnv) (results : Results) :
    filePaths (generateOutput config env results).archive =
      propertyFilePath :: ((compileLoop config env results).ppFiles ++
        (List.range (targetNames config results).length).map (propertyFileAt config results)) ++
          ["checksum.sha1".toList] := by
  rw [generateOutput, filePaths_append, (propertyLoop_paths config env results).1]
  rfl

theorem dirPaths_output (config : OutputConfig) (env : OutputEnv) (results : Results) :
    dirPaths (generateOutput config env results).archive =
      (List.range (targetNames config results).length).map fun i =>
        ppOutputPath config (numbered (targetNames config results) i) := by
  rw [generateOutput, dirPaths_append, (propertyLoop_paths config env results).2.1]
  exact List.append_nil _

theorem mem_of_fileBelow {d p : Path} (below : FileBelow d p) : '/' ∈ p := by
  obtain ⟨rest, rfl, -⟩ := below
  exact List.mem_append_right _ List.mem_cons_self

theorem mem_propertyFileAt (i : Nat) : '/' ∈ propertyFileAt config results i :=
  List.mem_append_right _ List.mem_cons_self

theorem under_propertyFileAt (i : Nat) :
    Path.Under (dirAt config results i) (propertyFileAt config results i) :=
  Path.under_iff.mpr ⟨_, rfl⟩

/-- Different names have different directories. -/
theorem dirAt_injective (apart : NumberedApart (targetNames config results)) {i j : Nat}
    (insideI : i < (targetNames config results).length)
    (insideJ : j < (targetNames config results).length)
    (same : dirAt config results i = dirAt config results j) : i = j :=
  apart i j insideI insideJ (targetDir_injective same)

theorem propertyFileAt_injective (apart : NumberedApart (targetNames config results)) {i j : Nat}
    (insideI : i < (targetNames config results).length)
    (insideJ : j < (targetNames config results).length)
    (same : propertyFileAt config results i = propertyFileAt config results j) : i = j :=
  dirAt_injective apart insideI insideJ (List.append_cancel_right same)

theorem ppOutputPath_injective (apart : NumberedApart (targetNames config results)) {i j : Nat}
    (insideI : i < (targetNames config results).length)
    (insideJ : j < (targetNames config results).length)
    (same : ppOutputPath config (numbered (targetNames config results) i) =
      ppOutputPath config (numbered (targetNames config results) j)) : i = j := by
  unfold ppOutputPath at same
  rw [Path.append_dir (isDir_targetDir insideI) config.ppDirName.nonempty config.ppDirName.single,
    Path.append_dir (isDir_targetDir insideJ) config.ppDirName.nonempty config.ppDirName.single]
    at same
  exact dirAt_injective apart insideI insideJ (List.append_cancel_right same)

/-- The file paths are different when the names are. -/
theorem filePaths_nodup (apart : NumberedApart (targetNames config results)) :
    (filePaths (generateOutput config env results).archive).Nodup := by
  have inv := compileInv_loop env config results
  have ppNodup : (compileLoop config env results).ppFiles.Nodup :=
    inv.apart.imp fun differ same => differ (congrArg Path.elements same)
  have propertyNodup : ((List.range (targetNames config results).length).map
      (propertyFileAt config results)).Nodup := by
    refine List.Nodup.map_on ?_ List.nodup_range
    intro i insideI j insideJ same
    exact propertyFileAt_injective apart (List.mem_range.mp insideI) (List.mem_range.mp insideJ) same
  have slashes : ∀ path ∈ (compileLoop config env results).ppFiles ++
      (List.range (targetNames config results).length).map (propertyFileAt config results),
        '/' ∈ path := by
    intro path member
    rcases List.mem_append.mp member with member | member
    · obtain ⟨i, -, below⟩ := inv.below path member
      exact mem_of_fileBelow below
    · obtain ⟨i, -, rfl⟩ := List.mem_map.mp member
      exact mem_propertyFileAt i
  have disjoint : ∀ p ∈ (compileLoop config env results).ppFiles,
      ∀ q ∈ (List.range (targetNames config results).length).map (propertyFileAt config results),
        p ≠ q := by
    intro p memberP q memberQ same
    obtain ⟨i, insideI, rest, form, notProperties⟩ := inv.below p memberP
    obtain ⟨j, insideJ, rfl⟩ := List.mem_map.mp memberQ
    have dirs := Path.under_unique (isDir_targetDir insideI)
      (isDir_targetDir (List.mem_range.mp insideJ)) (Path.under_iff.mpr ⟨rest, form⟩)
      (same ▸ under_propertyFileAt j)
    rw [same, propertyFileAt, dirAt, ← dirs] at form
    exact notProperties (List.cons.inj (List.append_cancel_left form)).2.symm
  rw [filePaths_output, List.nodup_append]
  refine ⟨List.nodup_cons.mpr ⟨fun member => absurd (slashes _ member) (by decide),
    List.nodup_append.mpr ⟨ppNodup, propertyNodup, disjoint⟩⟩, List.nodup_singleton _, ?_⟩
  intro p memberP q memberQ same
  rw [List.mem_singleton] at memberQ
  subst memberQ
  subst same
  rcases List.mem_cons.mp memberP with same | member
  · exact absurd same (by decide)
  · exact absurd (slashes _ member) (by decide)

/-- The files with a line: the preprocessed files and the property files of the link infos. -/
theorem checksummed_output (config : OutputConfig) (env : OutputEnv) (results : Results) :
    checksummed (generateOutput config env results) = (compileLoop config env results).ppFiles ++
      (List.range (targetNames config results).length).map (propertyFileAt config results) := by
  have inv := compileInv_loop env config results
  have slashes : ∀ path ∈ (compileLoop config env results).ppFiles ++
      (List.range (targetNames config results).length).map (propertyFileAt config results),
        decide ('/' ∈ path) = true := by
    intro path member
    refine decide_eq_true ?_
    rcases List.mem_append.mp member with member | member
    · obtain ⟨i, -, below⟩ := inv.below path member
      exact mem_of_fileBelow below
    · obtain ⟨i, -, rfl⟩ := List.mem_map.mp member
      exact mem_propertyFileAt i
  rw [checksummed, filePaths_output, List.cons_append, List.filter_cons_of_neg (by decide),
    List.filter_append, List.filter_eq_self.mpr slashes, List.filter_cons_of_neg (by decide)]
  exact List.append_nil _

/-- What is written has the paths of these files, whatever the names are. -/
theorem checksum_paths (config : OutputConfig) (env : OutputEnv) (results : Results) :
    (generateOutput config env results).checksum.map ChecksumLine.path =
      (checksummed (generateOutput config env results)).map (Path.append (ppTopPath config)) := by
  rw [checksummed_output, ← (propertyLoop_paths config env results).2.2]
  rfl

/-! ### The text of the checksum file -/

/-- What is written in the property loop has the hash of a text. -/
theorem checksum_properties (config : OutputConfig) (env : OutputEnv) (infos : List LDInfo)
    (state : PropertyState) {line : ChecksumLine}
    (member : line ∈ (infos.foldl (propertyStep config env) state).checksum) :
    line ∈ state.checksum ∨ ∃ text, line.checksum = env.sha1 text := by
  induction infos generalizing state with
  | nil => exact Or.inl member
  | cons info rest ih =>
    rcases ih (propertyStep config env state info) member with before | hashed
    · rcases List.mem_append.mp before with before | here
      · exact Or.inl before
      · rw [List.mem_singleton] at here
        exact Or.inr ⟨_, congrArg ChecksumLine.checksum here⟩
    · exact Or.inr hashed

/-- What is written in the compile loop has the checksum of a compile result. -/
theorem checksum_compiled (ccs : List CCResult) {line : ChecksumLine}
    (member : line ∈
      (ccs.foldl (compileStep config env) (linkLoop config results).toCompile).checksum) :
    ∃ cc ∈ ccs, line.checksum = cc.file.checksum := by
  induction ccs using List.reverseRecOn with
  | nil => exact absurd member List.not_mem_nil
  | append_singleton ccs cc ih =>
    obtain ⟨added, archived⟩ := compileStep_archived env (compileInv_foldl env config results ccs) cc
    rw [List.foldl_append] at member
    change line ∈ (compileStep config env _ cc).checksum at member
    rw [archived.checksum, List.mem_append, List.mem_map] at member
    rcases member with before | ⟨path, -, rfl⟩
    · obtain ⟨other, among, same⟩ := ih before
      exact ⟨other, List.mem_append_left _ among, same⟩
    · exact ⟨cc, List.mem_append_right _ List.mem_cons_self, rfl⟩

theorem isChecksum_of_mem (hashes : ∀ text, IsChecksum (env.sha1 text))
    (sums : ∀ cc ∈ results.ccResults, IsChecksum cc.file.checksum) {line : ChecksumLine}
    (member : line ∈ (generateOutput config env results).checksum) : IsChecksum line.checksum := by
  rcases checksum_properties config env _ _ member with compiled | ⟨text, hashed⟩
  · obtain ⟨cc, among, same⟩ := checksum_compiled results.ccResults compiled
    rw [same]
    exact sums cc among
  · rw [hashed]
    exact hashes text

/-- The checksum file has one text. -/
theorem checksumFile_iff {text : Str} :
    .file "checksum.sha1".toList (.text text) ∈ (generateOutput config env results).archive ↔
      text = checksumText (generateOutput config env results).checksum := by
  have other : .file "checksum.sha1".toList (.text text) ∉
      (propertyLoop config env results).archive := by
    intro member
    have path := mem_filePaths.mpr ⟨_, member⟩
    rw [(propertyLoop_paths config env results).1, ← checksummed_output, List.mem_cons] at path
    rcases path with top | below
    · exact absurd top (by decide)
    · exact absurd (List.mem_filter.mp below).2 (by decide)
  rw [generateOutput, List.mem_append, or_iff_right other, List.mem_singleton, Entry.file.injEq,
    Content.text.injEq, and_iff_right rfl]

theorem newline_notMem_of_isChecksum {sum : Str} (isChecksum : IsChecksum sum) : '\n' ∉ sum :=
  fun member => absurd (isChecksum _ member) (by decide)

theorem checksumText_eq (written : List ChecksumLine) : checksumText written =
    (written.map ChecksumLine.text).flatMap fun text => text ++ ['\n'] := by
  rw [List.flatMap_map]
  rfl

/-- **The text has one line for each file exactly when no path has a newline.** -/
theorem linesFor_iff (hashes : ∀ text, IsChecksum (env.sha1 text))
    (sums : ∀ cc ∈ results.ccResults, IsChecksum cc.file.checksum) :
    List.Forall₂ (LineFor config) (checksummed (generateOutput config env results))
        (lines (checksumText (generateOutput config env results).checksum)) ↔
      ∀ path ∈ checksummed (generateOutput config env results),
        '\n' ∉ Path.append (ppTopPath config) path := by
  have paths := checksum_paths config env results
  have isChecksum : ∀ line ∈ (generateOutput config env results).checksum, IsChecksum line.checksum :=
    fun line member => isChecksum_of_mem hashes sums member
  generalize (generateOutput config env results).checksum = written at paths isChecksum ⊢
  generalize checksummed (generateOutput config env results) = files at paths ⊢
  have clean : (∀ text ∈ written.map ChecksumLine.text, '\n' ∉ text) ↔
      ∀ path ∈ files, '\n' ∉ Path.append (ppTopPath config) path := by
    calc (∀ text ∈ written.map ChecksumLine.text, '\n' ∉ text)
        ↔ ∀ path ∈ written.map ChecksumLine.path, '\n' ∉ path := by
          rw [List.forall_mem_map, List.forall_mem_map]
          refine forall₂_congr fun line member => ?_
          have sum := newline_notMem_of_isChecksum (isChecksum line member)
          simp [ChecksumLine.text, sum]
      _ ↔ ∀ path ∈ files, '\n' ∉ Path.append (ppTopPath config) path := by
          rw [paths, List.forall_mem_map]
  have lengths : written.length = files.length := by
    rw [← List.length_map ChecksumLine.path, paths, List.length_map]
  rw [checksumText_eq, ← clean]
  constructor
  · intro each
    refine (length_lines_ended_iff _).mp ?_
    rw [← each.length_eq, List.length_map, lengths]
  · intro apart
    rw [lines_ended apart, List.forall₂_map_right_iff]
    have aligned : List.Forall₂ (fun path line => line.path = Path.append (ppTopPath config) path)
        files written := by
      have same : List.Forall₂ (· = ·) (written.map ChecksumLine.path)
          (files.map (Path.append (ppTopPath config))) := by rw [List.forall₂_eq_eq_eq, paths]
      rw [List.forall₂_map_left_iff, List.forall₂_map_right_iff] at same
      exact same.flip
    refine (List.forall₂_iff_get.mpr ⟨lengths.symm, fun i inside insideWritten => ?_⟩)
    refine ⟨_, isChecksum _ (List.get_mem written ⟨i, insideWritten⟩), ?_⟩
    rw [ChecksumLine.text, aligned.get inside insideWritten]

/-! ### Newlines in the paths -/

theorem exists_added {cc : CCResult} {visited : List Nat} {added : List Path}
    (chars : List.Forall₂ (KeepsChars config results cc) visited added) {c : Char}
    (notDigit : c.isDigit = false) (notDot : c ≠ '.') :
    (∃ path ∈ added, c ∈ path) ↔ ∃ i ∈ visited, c ∈ Path.append
      (ppOutputPath config (numbered (targetNames config results) i)) cc.ppFileName := by
  induction chars with
  | nil => simp
  | cons keeps _ ih =>
    simp only [List.mem_cons, or_and_right, exists_or, exists_eq_left]
    rw [keeps c notDigit notDot, ih]

/-- **What a preprocessed file has in its path**, but for the digits and dots: what is in the path that it
asks for. -/
theorem ppFiles_chars (ccs : List CCResult) {c : Char} (notDigit : c.isDigit = false)
    (notDot : c ≠ '.') :
    (∃ path ∈ (ccs.foldl (compileStep config env) (linkLoop config results).toCompile).ppFiles,
        c ∈ path) ↔
      ∃ cc ∈ ccs, ∃ i ∈ visitedBy config env results cc, c ∈ Path.append
        (ppOutputPath config (numbered (targetNames config results) i)) cc.ppFileName := by
  induction ccs using List.reverseRecOn with
  | nil => simp [LinkState.toCompile]
  | append_singleton ccs cc ih =>
    obtain ⟨added, archived⟩ := compileStep_archived env (compileInv_foldl env config results ccs) cc
    have own := exists_added archived.chars notDigit notDot
    have whole : ((ccs ++ [cc]).foldl (compileStep config env)
        (linkLoop config results).toCompile).ppFiles =
          (ccs.foldl (compileStep config env) (linkLoop config results).toCompile).ppFiles ++ added := by
      rw [List.foldl_append]
      exact archived.ppFiles
    simp only [whole, List.mem_append, List.mem_singleton, or_and_right, exists_or, exists_eq_left]
    rw [ih, own]

theorem newline_mem_numbered {names : List Str} {i : Nat} {f : Str} (found : names[i]? = some f) :
    '\n' ∈ numbered names i ↔ '\n' ∈ f := by
  have number : ∀ k, '\n' ∉ numberSuffix k := fun k =>
    not_mem_numberSuffix (by decide) (by decide)
  rw [numbered_of_getElem? found, occurrence]
  split_ifs
  · exact Iff.rfl
  · simp [number]

theorem newline_mem_top (config : OutputConfig) (path : Path) :
    '\n' ∈ Path.append (ppTopPath config) path ↔
      ('\n' ∈ config.outputPath ∨ '\n' ∈ config.ppDirName.name) ∨ '\n' ∈ path := by
  rw [Path.mem_append (by decide), ppTopPath, Path.mem_append (by decide)]

theorem newline_mem_propertyFileAt {i : Nat} : '\n' ∈ propertyFileAt config results i ↔
    '\n' ∈ numbered (targetNames config results) i := by
  have property : '\n' ∉ propertyFilePath := by decide
  simp [propertyFileAt, dirAt, targetDir, property]

theorem newline_mem_asked {i : Nat} {name : Str} :
    '\n' ∈ Path.append (ppOutputPath config (numbered (targetNames config results) i)) name ↔
      ('\n' ∈ numbered (targetNames config results) i ∨ '\n' ∈ config.ppDirName.name) ∨
        '\n' ∈ name := by
  rw [Path.mem_append (by decide), ppOutputPath, Path.mem_append (by decide)]
  simp [targetDir]

/-- **Clean names make clean paths**: a preprocessed file has a name of a compile result and a
directory of a link info in its path, a property file only the directory. -/
theorem newline_notMem_of_clean (clean : NoNewlines config results) {path : Path}
    (member : path ∈ (compileLoop config env results).ppFiles ++
      (List.range (targetNames config results).length).map (propertyFileAt config results)) :
    targetNames config results ≠ [] ∧ '\n' ∉ path := by
  have numbers : ∀ i < (targetNames config results).length,
      '\n' ∉ numbered (targetNames config results) i := by
    intro i inside
    rw [newline_mem_numbered (List.getElem?_eq_getElem inside)]
    exact clean.targets _ (List.getElem_mem inside)
  rcases List.mem_append.mp member with compiled | property
  · obtain ⟨i, inside, -⟩ := (compileInv_loop env config results).below path compiled
    have present : targetNames config results ≠ [] := List.ne_nil_of_length_pos (by omega)
    refine ⟨present, fun newline => ?_⟩
    obtain ⟨cc, among, j, visited, found⟩ :=
      (ppFiles_chars results.ccResults (by decide) (by decide)).mp ⟨path, compiled, newline⟩
    rcases newline_mem_asked.mp found with (inTarget | inDir) | inName
    · exact numbers j (lt_of_mem_visitedBy visited) inTarget
    · exact (clean.output present).2 inDir
    · refine clean.files cc among ?_ inName
      rcases mem_visitedBy_cases.mp visited with reaches | ⟨-, enabled, reaches⟩
      · exact Or.inl ⟨j, reaches⟩
      · exact Or.inr ⟨enabled, j, reaches⟩
  · obtain ⟨i, inside, rfl⟩ := List.mem_map.mp property
    rw [List.mem_range] at inside
    have present : targetNames config results ≠ [] := List.ne_nil_of_length_pos (by omega)
    exact ⟨present, newline_mem_propertyFileAt.not.mpr (numbers i inside)⟩

/-- **A path of the output has no newline when the names have none**, and only then. -/
theorem noNewlines_iff (config : OutputConfig) (env : OutputEnv) (results : Results) :
    NoNewlines config results ↔ ∀ path ∈ checksummed (generateOutput config env results),
      '\n' ∉ Path.append (ppTopPath config) path := by
  rw [checksummed_output]
  constructor
  · intro clean path member broken
    obtain ⟨present, notIn⟩ := newline_notMem_of_clean clean member
    rcases (newline_mem_top config path).mp broken with (inOutput | inDir) | inPath
    · exact (clean.output present).1 inOutput
    · exact (clean.output present).2 inDir
    · exact notIn inPath
  · intro clean
    have properties : ∀ i < (targetNames config results).length,
        '\n' ∉ Path.append (ppTopPath config) (propertyFileAt config results i) := fun i inside =>
      clean _ (List.mem_append_right _ (List.mem_map.mpr ⟨i, List.mem_range.mpr inside, rfl⟩))
    refine ⟨fun nonempty => ?_, fun name member => ?_, fun cc among archived => ?_⟩
    · have first := (newline_mem_top config _).not.mp
        (properties 0 (List.length_pos_iff.mpr nonempty))
      exact not_or.mp (not_or.mp first).1
    · obtain ⟨i, inside, rfl⟩ := List.getElem_of_mem member
      have found : (targetNames config results)[i]? = some (targetNames config results)[i] :=
        List.getElem?_eq_getElem inside
      rw [← newline_mem_numbered found, ← newline_mem_propertyFileAt]
      exact (not_or.mp ((newline_mem_top config _).not.mp (properties i inside))).2
    · obtain ⟨i, visited⟩ : ∃ i, i ∈ visitedBy config env results cc := by
        by_cases linked : ∃ i, Reaches config results cc.target i
        · obtain ⟨i, reaches⟩ := linked
          exact ⟨i, mem_visitedBy_cases.mpr (Or.inl reaches)⟩
        · obtain ⟨enabled, i, reaches⟩ := archived.resolve_left linked
          exact ⟨i, mem_visitedBy_cases.mpr (Or.inr ⟨not_exists.mp linked, enabled, reaches⟩)⟩
      intro inName
      obtain ⟨path, member, newline⟩ := (ppFiles_chars results.ccResults (by decide) (by decide)).mpr
        ⟨cc, among, i, visited, newline_mem_asked.mpr (Or.inr inName)⟩
      exact clean path (List.mem_append_left _ member)
        ((newline_mem_top config path).mpr (Or.inr newline))

/-! ### Files and directories of their own -/

theorem outputApart_of_numbersFree (free : NumbersFree (targetNames config results))
    (linesFor : List.Forall₂ (LineFor config) (checksummed (generateOutput config env results))
      (lines (checksumText (generateOutput config env results).checksum))) :
    OutputApart config results (generateOutput config env results) := by
  have apart := numbered_injective_iff.mpr free
  refine ⟨filePaths_nodup apart, ?_, ?_, _, checksumFile_iff.mpr rfl, linesFor⟩
  · rw [dirPaths_output]
    refine List.Nodup.map_on ?_ List.nodup_range
    intro i insideI j insideJ same
    exact ppOutputPath_injective apart (List.mem_range.mp insideI) (List.mem_range.mp insideJ) same
  · rw [dirPaths_output, List.length_map, List.length_range, targetNames, List.length_append,
      length_filenames]
    cases config.needProcessLinkUsingCompiler <;> rfl

/-- Two link infos of one directory have one property file. -/
theorem numbersFree_of_nodup
    (files : (filePaths (generateOutput config env results).archive).Nodup) :
    NumbersFree (targetNames config results) := by
  refine numbered_injective_iff.mp ?_
  intro i j insideI insideJ same
  rw [filePaths_output] at files
  have properties : ((List.range (targetNames config results).length).map
      (propertyFileAt config results)).Nodup :=
    (List.nodup_append.mp (List.nodup_cons.mp (List.nodup_append.mp files).1).2).2.1
  refine List.inj_on_of_nodup_map properties (List.mem_range.mpr insideI)
    (List.mem_range.mpr insideJ) ?_
  rw [propertyFileAt, propertyFileAt, dirAt, dirAt, same]

/-- **Files and directories have paths of their own, and the checksum file a line for each, exactly when
no numbered file name that is handed out is the file name of a link target and no name has a newline.** -/
theorem outputApart_iff (hashes : ∀ text, IsChecksum (env.sha1 text))
    (sums : ∀ cc ∈ results.ccResults, IsChecksum cc.file.checksum) :
    OutputApart config results (generateOutput config env results) ↔
      NumbersFree (targetNames config results) ∧ NoNewlines config results := by
  rw [noNewlines_iff config env results, ← linesFor_iff hashes sums]
  constructor
  · intro apart
    obtain ⟨text, member, each⟩ := apart.lines
    rw [checksumFile_iff.mp member] at each
    exact ⟨numbersFree_of_nodup apart.files, each⟩
  · rintro ⟨free, each⟩
    exact outputApart_of_numbersFree free each

end Output

/-! ### Three targets, two directories -/

/-- The default configuration, with the output in `/out`. -/
def plainConfig : OutputConfig where
  outputPath := "/out".toList
  ppDirName := .preprocess
  needProcessLinkUsingCompiler := false
  propertiesTemplate := []

/-- The sets are walked in insertion order, and the hash is the one of a property file without
dependencies and options. -/
def plainEnv : OutputEnv where
  sha1 _ := "f8f76e6a10f1fa19edf155296fc55dd69d03afaa".toList
  visit infos := infos
  visit_perm _ := .refl _

/-- A link of `/w/t.o` to each of the targets. -/
def linksOf (targets : List String) : Results where
  asResults := []
  ldResults := targets.map fun target => ⟨target.toList, ["/w/t.o".toList]⟩
  ccResults := [{
    file := ⟨"/tmp/t".toList, "da39a3ee5e6b4b0d3255bfef95601890afd80709".toList⟩
    target := "/w/t.o".toList
    source := "/w/t.c".toList
    format := .cSource
    ppFileName := "t.c.i".toList
    cScanOptions := []
    cxxScanOptions := []
    deps := .empty }]

/-- The digits of a given checksum are checked one by one. -/
theorem isChecksum_of_all {sum : Str}
    (each : sum.all (fun c => decide (c ∈ "0123456789abcdef".toList)) = true) : IsChecksum sum :=
  fun c member => of_decide_eq_true (List.all_eq_true.mp each c member)

theorem hashes_plainEnv (text : Str) : IsChecksum (plainEnv.sha1 text) :=
  @isChecksum_of_all "f8f76e6a10f1fa19edf155296fc55dd69d03afaa".toList (by decide)

theorem sums_linksOf (targets : List String) :
    ∀ cc ∈ (linksOf targets).ccResults, IsChecksum cc.file.checksum :=
  List.forall_mem_singleton.mpr
    (@isChecksum_of_all "da39a3ee5e6b4b0d3255bfef95601890afd80709".toList (by decide))

/-- The targets `a`, `a` and `b`: three directories, and a line for each property file and each copy of
the preprocessed file. -/
theorem outputApart_three :
    OutputApart plainConfig (linksOf ["/w/x/a", "/w/y/a", "/w/b"])
      (generateOutput plainConfig plainEnv (linksOf ["/w/x/a", "/w/y/a", "/w/b"])) := by
  have free : NumbersFree (targetNames plainConfig (linksOf ["/w/x/a", "/w/y/a", "/w/b"])) := by
    have undotted : ∀ name ∈ targetNames plainConfig (linksOf ["/w/x/a", "/w/y/a", "/w/b"]),
        '.' ∉ name := by decide
    exact fun f k _ _ member => undotted _ member (List.mem_append_right f List.mem_cons_self)
  have clean : NoNewlines plainConfig (linksOf ["/w/x/a", "/w/y/a", "/w/b"]) :=
    ⟨fun _ => by decide, by decide, List.forall_mem_singleton.mpr fun _ => by decide⟩
  exact (outputApart_iff hashes_plainEnv (sums_linksOf _)).mpr ⟨free, clean⟩

/-- The targets `a`, `a` and `a.1`: the second and the third get the directory `a.1.dir`. -/
theorem directory_shared :
    ¬ ∀ (config : OutputConfig) (env : OutputEnv) (results : Results),
      (∀ text, IsChecksum (env.sha1 text)) →
      (∀ cc ∈ results.ccResults, IsChecksum cc.file.checksum) →
        OutputApart config results (generateOutput config env results) := by
  intro apart
  have free := numbersFree_of_nodup (apart plainConfig plainEnv
    (linksOf ["/w/x/a", "/w/y/a", "/w/a.1"]) hashes_plainEnv (sums_linksOf _)).files
  exact free "a".toList 1 (by decide) (by decide) (by decide)

end Xcalbuild.Build
