/-
**What archiving a compile result does.**

The compile loop gives every archived file a name that no file before it has: the name it asks for,
or that name with the first free number before its extension.

* `outputFile_free`: the retry loop ends, with a free name, and `mem_outputFile`: the characters that
  the name has;
* `outputFile_below`: the file stays below the directory of its link target, and it is never the
  property file of the directory;
* `archive_run`: what a pass over the link infos of one compile result adds, and what it does to
  the link infos.
-/
import Mathlib.Data.List.Forall2
import Xcalbuild.Build.Links
import Xcalbuild.Library.Fresh

namespace Xcalbuild.Build

open Library

/-! ### Free names -/

section Names

variable {d rest : Path}

/-- What the candidates of the retry loop look like. -/
theorem renamed_below (dir : Path.IsDir d) (rest : Path) :
    ∃ front ext, rest = front ++ ext ∧ Path.IsExtension ext ∧
      ∀ k, renamed (d ++ '/' :: rest) k = d ++ '/' :: (front ++ (numberSuffix k ++ ext)) :=
  Path.replaceExtension_below dir rest

/-- **Different numbers give different paths.** -/
theorem renamed_injective (dir : Path.IsDir d) {j k : Nat}
    (same : Path.elements (renamed (d ++ '/' :: rest) j) =
      Path.elements (renamed (d ++ '/' :: rest) k)) : j = k := by
  obtain ⟨front, ext, -, isExtension, form⟩ := renamed_below dir rest
  have single : ∀ k, '/' ∉ numberSuffix k ++ ext := by
    intro k member
    rcases List.mem_append.mp member with member | member
    · exact not_mem_numberSuffix (by decide) (by decide) member
    · exact isExtension.notMem member
  have nonempty : ∀ k, numberSuffix k ++ ext ≠ [] := fun k =>
    List.append_ne_nil_of_left_ne_nil (List.cons_ne_nil _ _) _
  have parts : ∀ k, renamed (d ++ '/' :: rest) k =
      (d ++ '/' :: front) ++ (numberSuffix k ++ ext) := fun k => by rw [form k]; simp
  have last : ∀ k, (renamed (d ++ '/' :: rest) k).getLast? ≠ some '/' := by
    intro k
    rw [parts k, List.getLast?_append_of_ne_nil _ (nonempty k)]
    exact Path.getLast?_ne_of_notMem (single k)
  have present : ∀ k, renamed (d ++ '/' :: rest) k ≠ [] := by
    intro k
    rw [parts k]
    exact List.append_ne_nil_of_right_ne_nil _ (nonempty k)
  have ends := Path.afterLast_eq_of_elements (present j) (last j) (present k) (last k) same
  rw [parts j, parts k, afterLast_append_of_notMem _ (single j),
    afterLast_append_of_notMem _ (single k)] at ends
  have suffixes := List.append_cancel_right (List.append_cancel_left ends)
  exact (append_numberSuffix_inj (s := []) (t := []) suffixes).2

theorem taken_eq_true {ppFiles : List Path} {path : Path} :
    taken ppFiles path = true ↔ Path.elements path ∈ ppFiles.map Path.elements := by
  rw [taken, List.any_eq_true, List.mem_map]
  constructor
  · rintro ⟨other, member, same⟩
    exact ⟨other, member, of_decide_eq_true same⟩
  · rintro ⟨other, member, same⟩
    exact ⟨other, member, decide_eq_true same⟩

theorem taken_eq_false {ppFiles : List Path} {path : Path} :
    taken ppFiles path = false ↔ Path.elements path ∉ ppFiles.map Path.elements := by
  rw [← taken_eq_true, Bool.not_eq_true]

/-- Among one more candidates than there are files, one is free. -/
theorem exists_free (dir : Path.IsDir d) (ppFiles : List Path) :
    ∃ k, k < ppFiles.length + 1 ∧ taken ppFiles (renamed (d ++ '/' :: rest) (1 + k)) = false := by
  have injective : Function.Injective fun k =>
      Path.elements (renamed (d ++ '/' :: rest) (1 + k)) := by
    intro j k same
    exact Nat.add_left_cancel (renamed_injective dir same)
  obtain ⟨k, within, fresh, -⟩ := exists_fresh injective (ppFiles.map Path.elements)
  have bound := (List.dedup_sublist (ppFiles.map Path.elements)).length_le
  rw [List.length_map] at bound
  exact ⟨k, by omega, taken_eq_false.mpr fresh⟩

/-- The retry loop finds a free candidate when there is one within its passes. -/
theorem retryName_free {ppFiles : List Path} {path : Path} {fuel idx : Nat}
    (free : ∃ k, k < fuel ∧ taken ppFiles (renamed path (idx + k)) = false) :
    taken ppFiles (retryName ppFiles path fuel idx) = false := by
  induction fuel generalizing idx with
  | zero =>
    obtain ⟨k, below, -⟩ := free
    omega
  | succ fuel ih =>
    obtain ⟨k, below, free⟩ := free
    unfold retryName
    cases isTaken : taken ppFiles (renamed path idx) with
    | false => rwa [if_neg Bool.false_ne_true]
    | true =>
      rw [if_pos rfl]
      cases k with
      | zero => rw [Nat.add_zero, isTaken] at free; cases free
      | succ k => exact ih ⟨k, by omega, by rwa [Nat.add_right_comm]⟩

/-- The retry loop gives one of its candidates. -/
theorem retryName_eq (ppFiles : List Path) (path : Path) (fuel idx : Nat) :
    ∃ k, retryName ppFiles path fuel idx = renamed path k := by
  induction fuel generalizing idx with
  | zero => exact ⟨idx, rfl⟩
  | succ fuel ih =>
    unfold retryName
    split_ifs
    · exact ih (idx + 1)
    · exact ⟨idx, rfl⟩

/-- **The name of an archived file is free.** -/
theorem outputFile_free (dir : Path.IsDir d) (ppFiles : List Path) :
    taken ppFiles (outputFile ppFiles (d ++ '/' :: rest)) = false := by
  unfold outputFile
  cases isTaken : taken ppFiles (d ++ '/' :: rest) with
  | false => rwa [if_neg Bool.false_ne_true]
  | true =>
    rw [if_pos rfl]
    exact retryName_free (exists_free dir ppFiles)

/-- The name of an archived file has the characters of the name that it asks for, and those of a number. -/
theorem mem_outputFile (dir : Path.IsDir d) (ppFiles : List Path) {c : Char}
    (notDigit : c.isDigit = false) (notDot : c ≠ '.') :
    c ∈ outputFile ppFiles (d ++ '/' :: rest) ↔ c ∈ d ++ '/' :: rest := by
  unfold outputFile
  split_ifs
  · obtain ⟨k, candidate⟩ := retryName_eq ppFiles (d ++ '/' :: rest) (ppFiles.length + 1) 1
    obtain ⟨front, ext, parts, -, form⟩ := renamed_below dir rest
    have number : c ∉ numberSuffix k := not_mem_numberSuffix notDigit notDot
    rw [candidate, form k, parts]
    simp [number]
  · exact Iff.rfl

end Names

/-- A path below a directory that is not its property file. -/
def FileBelow (d p : Path) : Prop := ∃ rest, p = d ++ '/' :: rest ∧ rest ≠ propertyFilePath

theorem FileBelow.under {d p : Path} (below : FileBelow d p) : Path.Under d p := by
  obtain ⟨rest, form, -⟩ := below
  exact Path.under_iff.mpr ⟨rest, form⟩

/-- **An archived file stays below the directory of its target** and is not the property file. -/
theorem outputFile_below {d : Path} (dir : Path.IsDir d) (config : OutputConfig)
    (ppFiles : List Path) (name : Path) :
    FileBelow d (outputFile ppFiles (Path.append (Path.append d config.ppDirName.name) name)) ∧
      taken ppFiles
        (outputFile ppFiles (Path.append (Path.append d config.ppDirName.name) name)) = false := by
  obtain ⟨tail, form, tailForm⟩ := Path.append_under dir config.ppDirName.nonempty
    config.ppDirName.single name
  rw [form]
  refine ⟨?_, outputFile_free dir ppFiles⟩
  unfold outputFile
  split_ifs
  · obtain ⟨k, candidate⟩ := retryName_eq ppFiles (d ++ '/' :: (config.ppDirName.name ++ tail))
      (ppFiles.length + 1) 1
    obtain ⟨front, ext, -, isExtension, renamedForm⟩ :=
      renamed_below dir (config.ppDirName.name ++ tail)
    rw [candidate, renamedForm]
    refine ⟨_, rfl, Path.numbered_name_ne isExtension (by decide) ?_⟩
    exact ⟨'p', by decide, by decide⟩
  · refine ⟨_, rfl, ?_⟩
    rcases tailForm with rfl | slash
    · rw [List.append_nil]
      exact config.ppDirName.notProperties
    · intro same
      have member : '/' ∈ propertyFilePath := by
        rw [← same]
        exact List.mem_append_right _ (List.mem_of_mem_head? slash)
      exact absurd member (by decide)

/-! ### The link infos of one compile result -/

/-- The directory of the link info at a position. -/
def dirAt (config : OutputConfig) (results : Results) (i : Nat) : Path :=
  targetDir (numbered (targetNames config results) i)

/-- No two files have the same elements. -/
def FilesApart (ppFiles : List Path) : Prop :=
  ppFiles.Pairwise fun p q => Path.elements p ≠ Path.elements q

theorem filesApart_concat {ppFiles : List Path} (apart : FilesApart ppFiles) {path : Path}
    (free : taken ppFiles path = false) : FilesApart (ppFiles ++ [path]) := by
  rw [FilesApart, List.pairwise_append]
  refine ⟨apart, List.pairwise_singleton _ _, ?_⟩
  intro p member q single same
  rw [List.mem_singleton] at single
  subst single
  have isTaken : taken ppFiles q = true := taken_eq_true.mpr (List.mem_map.mpr ⟨p, member, same⟩)
  rw [free] at isTaken
  cases isTaken

/-- The output paths of the link infos are the ones the link loop laid out. -/
def PathsLaidOut (config : OutputConfig) (results : Results) (infos : List LDInfo) : Prop :=
  infos.map LDInfo.ppOutputPath = (List.range (targetNames config results).length).map fun i =>
    ppOutputPath config (numbered (targetNames config results) i)

theorem PathsLaidOut.length {config : OutputConfig} {results : Results} {infos : List LDInfo}
    (laidOut : PathsLaidOut config results infos) :
    infos.length = (targetNames config results).length := by
  have := congrArg List.length laidOut
  rwa [List.length_map, List.length_map, List.length_range] at this

theorem PathsLaidOut.getElem {config : OutputConfig} {results : Results} {infos : List LDInfo}
    (laidOut : PathsLaidOut config results infos) {i : Nat} {info : LDInfo}
    (found : infos[i]? = some info) :
    info.ppOutputPath = ppOutputPath config (numbered (targetNames config results) i) := by
  have inside : i < (targetNames config results).length :=
    laidOut.length ▸ (List.getElem?_eq_some_iff.mp found).1
  have position := congrArg (·[i]?) laidOut
  simp only [List.getElem?_map, found, List.getElem?_range inside, Option.map_some,
    Option.some.injEq] at position
  exact position

theorem archived_ppOutputPath (info : LDInfo) (cc : CCResult) :
    (info.archived cc).ppOutputPath = info.ppOutputPath := by
  unfold LDInfo.archived LDInfo.populate
  split_ifs <;> rfl

theorem PathsLaidOut.set {config : OutputConfig} {results : Results} {infos : List LDInfo}
    (laidOut : PathsLaidOut config results infos) {i : Nat} {info : LDInfo}
    (found : infos[i]? = some info) (cc : CCResult) :
    PathsLaidOut config results (infos.set i (info.archived cc)) := by
  have same : (infos.set i (info.archived cc)).map LDInfo.ppOutputPath =
      infos.map LDInfo.ppOutputPath := by
    rw [List.map_set, archived_ppOutputPath]
    refine List.ext_getElem? fun j => ?_
    rw [List.getElem?_set]
    split_ifs with here inside
    · subst here
      rw [List.getElem?_map, found, Option.map_some]
    · subst here
      rw [List.getElem?_eq_none (by omega)]
    · rfl
  rw [PathsLaidOut, same]
  exact laidOut

/-- The path of a file that is archived for a link info has the characters of the path that it asks for,
but for those of a number. -/
def KeepsChars (config : OutputConfig) (results : Results) (cc : CCResult) (i : Nat) (path : Path) :
    Prop :=
  ∀ c : Char, c.isDigit = false → c ≠ '.' → (c ∈ path ↔
    c ∈ Path.append (ppOutputPath config (numbered (targetNames config results) i)) cc.ppFileName)

/-- What a walk over link infos adds for one compile result: one file below the directory of each
of them, with its checksum line. -/
structure Archived (config : OutputConfig) (results : Results) (cc : CCResult) (visited : List Nat)
    (state state' : CompileState) (added : List Path) : Prop where
  below : List.Forall₂ (fun i path => FileBelow (dirAt config results i) path) visited added
  chars : List.Forall₂ (KeepsChars config results cc) visited added
  ppFiles : state'.ppFiles = state.ppFiles ++ added
  apart : FilesApart state.ppFiles → FilesApart state'.ppFiles
  archive : state'.archive =
    state.archive ++ added.map fun path => .file path (.ofFile cc.file.path)
  checksum : state'.checksum = state.checksum ++
    added.map fun path => ⟨cc.file.checksum, Path.append (ppTopPath config) path⟩
  laidOut : PathsLaidOut config results state'.ldInfos

theorem archiveStep_archived {config : OutputConfig} {results : Results} (cc : CCResult)
    {state : CompileState} (laidOut : PathsLaidOut config results state.ldInfos) {i : Nat}
    (inside : i < (targetNames config results).length) :
    ∃ path, Archived config results cc [i] state (archiveStep config cc state i) [path] := by
  obtain ⟨info, found⟩ : ∃ info, state.ldInfos[i]? = some info :=
    ⟨_, List.getElem?_eq_getElem (by rwa [laidOut.length])⟩
  have output := laidOut.getElem found
  obtain ⟨below, free⟩ := outputFile_below (isDir_targetDir inside) config state.ppFiles
    cc.ppFileName
  have chars : KeepsChars config results cc i (outputFile state.ppFiles
      (Path.append (ppOutputPath config (numbered (targetNames config results) i)) cc.ppFileName)) := by
    intro c notDigit notDot
    obtain ⟨tail, form, -⟩ := Path.append_under (isDir_targetDir inside) config.ppDirName.nonempty
      config.ppDirName.single cc.ppFileName
    rw [ppOutputPath, form]
    exact mem_outputFile (isDir_targetDir inside) state.ppFiles notDigit notDot
  rw [← ppOutputPath, ← output] at below free
  rw [← output] at chars
  have step : archiveStep config cc state i =
      { state with
        ldInfos := state.ldInfos.set i (info.archived cc)
        ppFiles := state.ppFiles ++
          [outputFile state.ppFiles (Path.append info.ppOutputPath cc.ppFileName)]
        archive := state.archive ++
          [.file (outputFile state.ppFiles (Path.append info.ppOutputPath cc.ppFileName))
            (.ofFile cc.file.path)]
        checksum := state.checksum ++ [⟨cc.file.checksum, Path.append (ppTopPath config)
          (outputFile state.ppFiles (Path.append info.ppOutputPath cc.ppFileName))⟩] } := by
    rw [archiveStep, found]
  rw [step]
  exact ⟨_, .cons below .nil, .cons chars .nil, rfl, fun apart => filesApart_concat apart free, rfl,
    rfl, laidOut.set found cc⟩

/-- **The walk over the link infos of a compile result.** -/
theorem archive_run {config : OutputConfig} {results : Results} (cc : CCResult)
    {visited : List Nat} {state : CompileState}
    (laidOut : PathsLaidOut config results state.ldInfos)
    (inside : ∀ i ∈ visited, i < (targetNames config results).length) :
    ∃ added, Archived config results cc visited state
      (visited.foldl (archiveStep config cc) state) added := by
  induction visited generalizing state with
  | nil =>
    exact ⟨[], .nil, .nil, (List.append_nil _).symm, id, (List.append_nil _).symm,
      (List.append_nil _).symm, laidOut⟩
  | cons i rest ih =>
    obtain ⟨path, first⟩ := archiveStep_archived cc laidOut (inside i List.mem_cons_self)
    obtain ⟨added, second⟩ := ih first.laidOut
      fun j member => inside j (List.mem_cons_of_mem _ member)
    rw [List.foldl_cons]
    refine ⟨path :: added, ?_, ?_, ?_, ?_, ?_, ?_, second.laidOut⟩
    · cases first.below with
      | cons below _ => exact .cons below second.below
    · cases first.chars with
      | cons chars _ => exact .cons chars second.chars
    · rw [second.ppFiles, first.ppFiles, List.append_assoc, List.singleton_append]
    · exact fun apart => second.apart (first.apart apart)
    · rw [second.archive, first.archive, List.append_assoc]
      rfl
    · rw [second.checksum, first.checksum, List.append_assoc]
      rfl

/-- What the walk leaves alone. -/
theorem archive_frame (config : OutputConfig) (cc : CCResult) (visited : List Nat)
    (state : CompileState) :
    (visited.foldl (archiveStep config cc) state).linkTargets = state.linkTargets ∧
      (visited.foldl (archiveStep config cc) state).sourceFiles = state.sourceFiles := by
  induction visited generalizing state with
  | nil => exact ⟨rfl, rfl⟩
  | cons i rest ih =>
    obtain ⟨targets, sources⟩ := ih (archiveStep config cc state i)
    rw [List.foldl_cons, targets, sources, archiveStep]
    cases state.ldInfos[i]? <;> exact ⟨rfl, rfl⟩

/-- What the walk does to the link infos: each visited one is updated once. -/
theorem archive_infos (config : OutputConfig) (cc : CCResult) {visited : List Nat}
    (nodup : visited.Nodup) (state : CompileState) (j : Nat) :
    (visited.foldl (archiveStep config cc) state).ldInfos[j]? =
      if j ∈ visited then (state.ldInfos[j]?).map fun info => info.archived cc
      else state.ldInfos[j]? := by
  have step : ∀ (state : CompileState) (i : Nat), (archiveStep config cc state i).ldInfos[j]? =
      if j = i then (state.ldInfos[j]?).map fun info => info.archived cc
      else state.ldInfos[j]? := by
    intro state i
    unfold archiveStep
    by_cases here : j = i
    · subst here
      cases found : state.ldInfos[j]? with
      | none => simp [found]
      | some info =>
        have inside := (List.getElem?_eq_some_iff.mp found).1
        simp [inside]
    · rw [if_neg here]
      cases state.ldInfos[i]? with
      | none => rfl
      | some info => exact List.getElem?_set_ne (fun same => here same.symm)
  induction visited generalizing state with
  | nil => simp
  | cons i rest ih =>
    have parts := List.nodup_cons.mp nodup
    rw [List.foldl_cons, ih parts.2, step]
    by_cases here : j = i
    · subst here
      rw [if_neg parts.1, if_pos rfl, if_pos List.mem_cons_self]
    · rw [if_neg here]
      simp [here]

end Xcalbuild.Build
