/-
**The renaming of a preprocessed file whose name is taken.**

`renameLoop` is the loop of `generate_output` around `pp_files.insert`: while the path cannot be
inserted, the next candidate is tried. It has no bound of its own. The candidates, the path itself
included, are pairwise different paths (`candidate_injective`), so one of the first of them is free.

* `rename_free`: the loop ends with the first free candidate, which is what `outputFile` computes;
* `renamed_in`: where the loop ends for the files of a link info. The path keeps its directory and,
  if it has one, its extension. A path without an extension gets the number at its end, which is its
  extension then (`renamed_extension_lost`).
-/
import Xcalbuild.Build.Directories
import Xcalbuild.Library.Loop
import Xcalbuild.Library.Sibling

namespace Xcalbuild.Build

open Library

/-! ### The loop -/

/-- Where the renaming stands: the path that is inserted next, and the number of the candidate
after it. -/
structure Rename where
  path : Path
  idx : Nat
  deriving DecidableEq

/-- `path` and `idx` before the first attempt. -/
def Rename.start (path : Path) : Rename := ⟨path, 1⟩

/-- The loop that inserts the path, or else the next candidate. Its first attempt is the condition of
the `if`, the others are the one of the `do` loop. -/
def renameLoop (ppFiles : List Path) (origPath : Path) : Loop Rename Empty where
  done state := !taken ppFiles state.path
  body state := .next ⟨renamed origPath state.idx, state.idx + 1⟩

/-- The number of paths that `pp_files` holds. -/
def usedCount (ppFiles : List Path) : Nat := (ppFiles.map Path.elements).dedup.length

/-! ### The candidates -/

/-- The path of an attempt: the path itself, then the numbered ones. -/
def candidate (path : Path) (k : Nat) : Path := if k = 0 then path else renamed path k

theorem candidate_succ (path : Path) (k : Nat) : candidate path (k + 1) = renamed path (k + 1) := rfl

/-- **Different attempts are at different paths.** -/
theorem candidate_injective {d : Path} (dir : Path.IsDir d) (rest : Path) :
    Function.Injective fun k => Path.elements (candidate (d ++ '/' :: rest) k) := by
  intro j k same
  rcases j with - | j <;> rcases k with - | k
  · rfl
  · exact absurd same.symm (Path.elements_numbered_ne dir rest (k + 1))
  · exact absurd same (Path.elements_numbered_ne dir rest (j + 1))
  · exact renamed_injective dir same

/-- **The first free attempt** comes after at most as many as there are used paths. -/
theorem exists_first_free {d : Path} (dir : Path.IsDir d) (rest : Path) (ppFiles : List Path) :
    ∃ k, k ≤ usedCount ppFiles ∧ taken ppFiles (candidate (d ++ '/' :: rest) k) = false ∧
      ∀ j < k, taken ppFiles (candidate (d ++ '/' :: rest) j) = true := by
  obtain ⟨k, within, fresh, before⟩ := exists_fresh (candidate_injective dir rest)
    (ppFiles.map Path.elements)
  exact ⟨k, within, taken_eq_false.mpr fresh, fun j below => taken_eq_true.mpr (before j below)⟩

/-! ### Where the loop ends -/

section Ends

variable {ppFiles : List Path} {path : Path}

/-- The loop from an attempt on: it goes on while the attempts fail. -/
theorem renameLoop_run {k m fuel : Nat} (free : taken ppFiles (candidate path (k + m)) = false)
    (before : ∀ j < m, taken ppFiles (candidate path (k + j)) = true) (enough : m ≤ fuel) :
    (renameLoop ppFiles path).run fuel ⟨candidate path k, k + 1⟩ =
      .finished ⟨candidate path (k + m), k + m + 1⟩ := by
  induction m generalizing k fuel with
  | zero =>
    apply Loop.run_done
    show (!taken ppFiles (candidate path k)) = true
    rw [show candidate path k = candidate path (k + 0) from rfl, free]
    rfl
  | succ m ih =>
    obtain ⟨fuel, rfl⟩ : ∃ rest, fuel = rest + 1 := ⟨fuel - 1, by omega⟩
    have notDone : (renameLoop ppFiles path).done ⟨candidate path k, k + 1⟩ = false := by
      show (!taken ppFiles (candidate path k)) = false
      rw [show candidate path k = candidate path (k + 0) from rfl, before 0 (Nat.succ_pos m)]
      rfl
    have index : k + (m + 1) = k + 1 + m := by omega
    rw [Loop.run_next notDone rfl, ← candidate_succ, index]
    apply ih
    · rwa [← index]
    · intro j below
      rw [show k + 1 + j = k + (j + 1) by omega]
      exact before (j + 1) (by omega)
    · omega

/-- The retry loop of the model ends at the same candidate. -/
theorem retryName_run {k m fuel : Nat} (free : taken ppFiles (renamed path (k + m)) = false)
    (before : ∀ j < m, taken ppFiles (renamed path (k + j)) = true) (enough : m ≤ fuel) :
    retryName ppFiles path fuel k = renamed path (k + m) := by
  induction m generalizing k fuel with
  | zero =>
    cases fuel with
    | zero => rfl
    | succ fuel =>
      have free' : taken ppFiles (renamed path k) = false := free
      rw [retryName, free', if_neg Bool.false_ne_true]
      rfl
  | succ m ih =>
    obtain ⟨fuel, rfl⟩ : ∃ rest, fuel = rest + 1 := ⟨fuel - 1, by omega⟩
    have index : k + (m + 1) = k + 1 + m := by omega
    rw [retryName, show renamed path k = renamed path (k + 0) from rfl, before 0 (Nat.succ_pos m),
      if_pos rfl, index]
    apply ih
    · rwa [← index]
    · intro j below
      rw [show k + 1 + j = k + (j + 1) by omega]
      exact before (j + 1) (by omega)
    · omega

theorem usedCount_le (ppFiles : List Path) : usedCount ppFiles ≤ ppFiles.length := by
  have := (List.dedup_sublist (ppFiles.map Path.elements)).length_le
  rwa [List.length_map] at this

/-- `outputFile` is the first free candidate. -/
theorem outputFile_eq {k : Nat} (within : k ≤ usedCount ppFiles)
    (free : taken ppFiles (candidate path k) = false)
    (before : ∀ j < k, taken ppFiles (candidate path j) = true) :
    outputFile ppFiles path = candidate path k := by
  have bound := usedCount_le ppFiles
  unfold outputFile
  cases k with
  | zero =>
    have free' : taken ppFiles path = false := free
    rw [free', if_neg Bool.false_ne_true]
    rfl
  | succ k =>
    rw [show taken ppFiles path = taken ppFiles (candidate path 0) from rfl,
      before 0 (Nat.succ_pos k), if_pos rfl, candidate_succ, Nat.add_comm k 1]
    apply retryName_run
    · rwa [Nat.add_comm]
    · intro j below
      rw [Nat.add_comm]
      exact before (j + 1) (by omega)
    · omega

/-- **The loop ends** within as many passes as there are used paths, at the path that `outputFile`
computes, which is free. -/
theorem rename_free {d : Path} (dir : Path.IsDir d) (rest : Path) (ppFiles : List Path) :
    ∃ k, (renameLoop ppFiles (d ++ '/' :: rest)).run (usedCount ppFiles)
        (.start (d ++ '/' :: rest)) = .finished ⟨outputFile ppFiles (d ++ '/' :: rest), k + 1⟩ ∧
      outputFile ppFiles (d ++ '/' :: rest) = candidate (d ++ '/' :: rest) k ∧
      taken ppFiles (outputFile ppFiles (d ++ '/' :: rest)) = false := by
  obtain ⟨k, within, free, before⟩ := exists_first_free dir rest ppFiles
  have output := outputFile_eq within free before
  refine ⟨k, ?_, output, by rwa [output]⟩
  have run := @renameLoop_run ppFiles (d ++ '/' :: rest) 0 k (usedCount ppFiles)
    (by rwa [Nat.zero_add]) (fun j below => by rw [Nat.zero_add]; exact before j below) within
  rw [Nat.zero_add k] at run
  rw [output]
  exact run

end Ends

/-! ### What the renaming keeps -/

/-- What the renaming makes of a path. -/
structure RenamedTo (ppFiles : List Path) (path final : Path) : Prop where
  free : taken ppFiles final = false
  sibling : Path.parentPath final = Path.parentPath path
  extension : Path.extension path ≠ [] → Path.extension final = Path.extension path
  numbered : Path.extension path = [] → final ≠ path →
    ∃ k, 1 ≤ k ∧ final = path ++ numberSuffix k
  kept : taken ppFiles path = false → final = path

theorem parentPath_candidate {d rest : Path} (dir : Path.IsDir d) (nonempty : rest ≠ []) (k : Nat) :
    Path.parentPath (candidate (d ++ '/' :: rest) k) = Path.parentPath (d ++ '/' :: rest) := by
  cases k with
  | zero => rfl
  | succ k => exact Path.parentPath_numbered dir nonempty (k + 1)

theorem extension_renamed {d : Path} (dir : Path.IsDir d) (rest : Path) (k : Nat) :
    Path.extension (renamed (d ++ '/' :: rest) k) =
      if Path.extension (d ++ '/' :: rest) = [] then numberSuffix k
      else Path.extension (d ++ '/' :: rest) := by
  obtain ⟨base, stem, named, -⟩ := Path.exists_nameParts dir rest
  exact named.extension_numbered dir k

/-- A path without an extension gets the number at its end. -/
theorem renamed_of_extension_nil {path : Path} (absent : Path.extension path = []) (k : Nat) :
    renamed path k = path ++ numberSuffix k := by
  rw [renamed, absent, List.append_nil, Path.replaceExtension_dot, absent, List.length_nil,
    Nat.sub_zero, List.take_length]
  rfl

/-- What the renaming makes of a path below a directory. -/
theorem renamedTo_below {d rest : Path} (dir : Path.IsDir d) (nonempty : rest ≠ [])
    (ppFiles : List Path) :
    RenamedTo ppFiles (d ++ '/' :: rest) (outputFile ppFiles (d ++ '/' :: rest)) := by
  obtain ⟨k, -, output, free⟩ := rename_free dir rest ppFiles
  refine ⟨free, ?_, fun present => ?_, fun absent other => ?_, fun free => ?_⟩
  · rw [output]
    exact parentPath_candidate dir nonempty k
  · rw [output]
    cases k with
    | zero => rfl
    | succ k => rw [candidate_succ, extension_renamed dir, if_neg present]
  · cases k with
    | zero => exact absurd output other
    | succ k =>
      refine ⟨k + 1, by omega, ?_⟩
      rw [output, candidate_succ, renamed_of_extension_nil absent]
  · rw [outputFile, free, if_neg Bool.false_ne_true]

/-- The path of a preprocessed file of a link info. -/
theorem ppOutputPath_form {config : OutputConfig} {results : Results} {info : LDInfo}
    (member : info ∈ (linkLoop config results).ldInfos) (name : Path) :
    ∃ d rest, Path.IsDir d ∧ rest ≠ [] ∧ Path.append info.ppOutputPath name = d ++ '/' :: rest := by
  rw [(layout config results).infos] at member
  obtain ⟨i, inside, rfl⟩ := List.mem_map.mp member
  have dir := isDir_targetDir (List.mem_range.mp inside)
  obtain ⟨tail, form, -⟩ := Path.append_under dir config.ppDirName.nonempty
    config.ppDirName.single name
  exact ⟨_, _, dir, List.append_ne_nil_of_left_ne_nil config.ppDirName.nonempty _, form⟩

/-- **The renaming of a preprocessed file.** For every set of used paths and every file name, the
loop makes at most one attempt more than there are used paths. The path it ends with is free, lies in
the same directory, and keeps an extension; a path without an extension gets the number at its end,
and a free path stays. -/
theorem renamed_in {config : OutputConfig} {results : Results} {info : LDInfo}
    (member : info ∈ (linkLoop config results).ldInfos) (ppFiles : List Path) (name : Path) :
    ∃ final : Rename,
      (renameLoop ppFiles (Path.append info.ppOutputPath name)).run (usedCount ppFiles)
          (.start (Path.append info.ppOutputPath name)) = .finished final ∧
        final.path = outputFile ppFiles (Path.append info.ppOutputPath name) ∧
        RenamedTo ppFiles (Path.append info.ppOutputPath name) final.path := by
  obtain ⟨d, rest, dir, nonempty, form⟩ := ppOutputPath_form member name
  rw [form]
  obtain ⟨k, run, -⟩ := rename_free dir rest ppFiles
  exact ⟨_, run, rfl, renamedTo_below dir nonempty ppFiles⟩

/-- The first link info of the link of `/w/t.o` to `/w/a`. -/
theorem mem_plainInfos : linkInfo plainConfig (linksOf ["/w/a"]) 0 ∈
    (linkLoop plainConfig (linksOf ["/w/a"])).ldInfos := by
  rw [(layout _ _).infos]
  exact List.mem_map_of_mem (List.mem_range.mpr (by decide))

/-- The name `t.c.i` is taken twice. -/
theorem renamed_twice : ∃ final : Rename,
    (renameLoop ["a.dir/preprocess/t.c.i".toList, "a.dir/preprocess/t.c.1.i".toList]
        (Path.append (linkInfo plainConfig (linksOf ["/w/a"]) 0).ppOutputPath "t.c.i".toList)).run
        (usedCount ["a.dir/preprocess/t.c.i".toList, "a.dir/preprocess/t.c.1.i".toList])
        (.start (Path.append (linkInfo plainConfig (linksOf ["/w/a"]) 0).ppOutputPath
          "t.c.i".toList)) = .finished final ∧
      final.path = outputFile ["a.dir/preprocess/t.c.i".toList, "a.dir/preprocess/t.c.1.i".toList]
        (Path.append (linkInfo plainConfig (linksOf ["/w/a"]) 0).ppOutputPath "t.c.i".toList) ∧
      RenamedTo ["a.dir/preprocess/t.c.i".toList, "a.dir/preprocess/t.c.1.i".toList]
        (Path.append (linkInfo plainConfig (linksOf ["/w/a"]) 0).ppOutputPath "t.c.i".toList)
        final.path :=
  renamed_in mem_plainInfos _ _

/-- The name `t` has no extension. When it is taken, the file is called `t.1`, which has one. -/
theorem renamed_extension_lost :
    ¬ ∀ (config : OutputConfig) (results : Results) (info : LDInfo),
      info ∈ (linkLoop config results).ldInfos → ∀ (ppFiles : List Path) (name : Path),
        Path.extension (outputFile ppFiles (Path.append info.ppOutputPath name)) =
          Path.extension (Path.append info.ppOutputPath name) := by
  intro kept
  have same := kept plainConfig (linksOf ["/w/a"]) _ mem_plainInfos
    ["a.dir/preprocess/t".toList] "t".toList
  revert same
  decide

end Xcalbuild.Build
