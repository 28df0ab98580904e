/-
**Which preprocessed files end up below which link target.**

A compile result belongs to the link results that have a source whose assembler substitution is its
target (`Links`). The compile loop archives its file once for each of them, below the directory the
link result got.

* `archivedBy_eq`: what one compile result adds to the archive;
* `countP_under`: how many of its files are below a directory;
* `archivedByTarget_iff`: without the extra link info, the file is archived exactly once below the
  directory of each of its link results exactly when no file name of two of them looks like the other
  with its number (`TargetsApart`).
-/
import Xcalbuild.Build.Directories

namespace Xcalbuild.Build

open Library

/-- The source of the last assembler result for a link source, or the link source itself. -/
def substitution (asResults : List ASResult) (source : Str) : Str :=
  ((asResults.reverse.find? fun as => decide (as.target = source)).map ASResult.source).getD source

/-- The link result at position `i` has a source whose substitution is the target. -/
def Links (results : Results) (target : Str) (i : Nat) : Prop :=
  ∃ ld, results.ldResults[i]? = some ld ∧
    ∃ source ∈ ld.sources, substitution results.asResults source = target

/-- The entries that the compile result at position `k` adds to the archive. -/
def archivedBy (config : OutputConfig) (env : OutputEnv) (results : Results) (k : Nat) :
    List Entry :=
  (compileAt config env results (k + 1)).archive.drop
    (compileAt config env results k).archive.length

/-- The entry is a preprocessed file. -/
def isPreprocessed : Entry → Bool
  | .file _ (.ofFile _) => true
  | _ => false

/-- The entry is a file below the directory. -/
def entryUnder (d : Path) : Entry → Bool
  | .file path _ => decide (Path.Under d path)
  | .dir _ => false

/-- **Every compile result is archived once for each of its link results**, below the directory
that link result got, and nowhere else; the source list has the sources and dependencies of the
archived compile results. -/
structure ArchivedByTarget (config : OutputConfig) (env : OutputEnv) (results : Results) : Prop where
  dirs : dirPaths (generateOutput config env results).archive =
    (List.range results.ldResults.length).map fun i =>
      Path.append (dirAt config results i) config.ppDirName.name
  all : (generateOutput config env results).archive.filter isPreprocessed =
    (List.range results.ccResults.length).flatMap (archivedBy config env results)
  once : ∀ k cc, results.ccResults[k]? = some cc → ∀ i, Links results cc.target i →
    (archivedBy config env results k).countP (entryUnder (dirAt config results i)) = 1
  only : ∀ k cc, results.ccResults[k]? = some cc → ∀ entry ∈ archivedBy config env results k,
    ∃ i path, Links results cc.target i ∧ entry = .file path (.ofFile cc.file.path) ∧
      Path.Under (dirAt config results i) path
  sourcesNodup : (generateOutput config env results).sourceFiles.Nodup
  sources : ∀ s, s ∈ (generateOutput config env results).sourceFiles ↔
    ∃ cc ∈ results.ccResults, (∃ i, Links results cc.target i) ∧ (s = cc.source ∨ s ∈ cc.deps)

/-- No compile result belongs to two link results of which one repeats a file name, and the other is
the first with this file name and the number of the repetition. -/
def TargetsApart (results : Results) : Prop :=
  ∀ cc ∈ results.ccResults, ∀ i j, Links results cc.target i → Links results cc.target j →
    ¬ Meets (filenames results.ldResults) i j

/-! ### Substitution -/

theorem asTargetToSource_eq (asResults : List ASResult) (source : Str) :
    asTargetToSource asResults source =
      (asResults.reverse.find? fun as => decide (as.target = source)).map ASResult.source := by
  induction asResults using List.reverseRecOn with
  | nil => rfl
  | append_singleton rest as ih =>
    have step : asTargetToSource (rest ++ [as]) =
        Function.update (asTargetToSource rest) as.target (some as.source) := by
      rw [asTargetToSource, List.foldl_append]
      rfl
    rw [step, List.reverse_append, List.reverse_singleton, List.singleton_append, List.find?_cons]
    by_cases same : as.target = source
    · subst same
      simp
    · rw [Function.update_of_ne (Ne.symm same), ih, decide_eq_false same]

theorem actualSource_eq (asResults : List ASResult) (source : Str) :
    actualSource (asTargetToSource asResults) source = substitution asResults source := by
  rw [actualSource, asTargetToSource_eq, substitution]

theorem links_iff {results : Results} {target : Str} {i : Nat} :
    Links results target i ↔ target ∈ linkSources results i := by
  rw [mem_linkSources]
  constructor
  · rintro ⟨ld, listed, source, member, rfl⟩
    exact ⟨ld, listed, List.mem_map.mpr ⟨source, member, actualSource_eq _ _⟩⟩
  · rintro ⟨ld, listed, member⟩
    obtain ⟨source, found, rfl⟩ := List.mem_map.mp member
    exact ⟨ld, listed, source, found, (actualSource_eq _ _).symm⟩

section Entries

variable {config : OutputConfig} {env : OutputEnv} {results : Results}

theorem links_iff_reaches (disabled : config.needProcessLinkUsingCompiler = false) {target : Str}
    {i : Nat} : Links results target i ↔ Reaches config results target i := by
  rw [links_iff, Reaches, disabled]
  simp

theorem targetNames_disabled (disabled : config.needProcessLinkUsingCompiler = false) :
    targetNames config results = filenames results.ldResults := by
  rw [targetNames, disabled, if_neg Bool.false_ne_true, List.append_nil]

/-! ### Entries -/

/-- **What one compile result adds**: a file below the directory of each link info it visits. -/
theorem archivedBy_eq (config : OutputConfig) (env : OutputEnv) {k : Nat} {cc : CCResult}
    (listed : results.ccResults[k]? = some cc) :
    ∃ added, List.Forall₂ (fun i path => FileBelow (dirAt config results i) path)
        (visitedBy config env results cc) added ∧
      archivedBy config env results k =
        added.map fun path => .file path (.ofFile cc.file.path) := by
  obtain ⟨added, archived⟩ := compileStep_archived env (compileInv_at env config results k) cc
  refine ⟨added, archived.below, ?_⟩
  rw [archivedBy, compileAt_succ env listed, archived.archive, List.drop_left]

/-- **The files below a directory** are as many as the visited link infos with that directory. -/
theorem countP_under {d content : Path} (dir : Path.IsDir d) {visited : List Nat}
    {added : List Path}
    (inside : ∀ i ∈ visited, i < (targetNames config results).length)
    (below : List.Forall₂ (fun i path => FileBelow (dirAt config results i) path) visited added) :
    (added.map fun path => Entry.file path (.ofFile content)).countP (entryUnder d) =
      visited.countP fun i => decide (dirAt config results i = d) := by
  induction below with
  | nil => rfl
  | @cons i path visited added here rest ih =>
    have rest' := ih fun j member => inside j (List.mem_cons_of_mem _ member)
    rw [List.map_cons, List.countP_cons, List.countP_cons, rest']
    have dir' : Path.IsDir (dirAt config results i) :=
      isDir_targetDir (inside i List.mem_cons_self)
    have same : entryUnder d (.file path (.ofFile content)) =
        decide (dirAt config results i = d) := by
      rw [entryUnder, decide_eq_decide]
      constructor
      · exact fun below => Path.under_unique dir' dir here.under below
      · rintro rfl
        exact here.under
    rw [same]

/-- A file of a compile result is below the directory of a link info it visits. -/
theorem mem_archivedBy {k : Nat} {cc : CCResult} (listed : results.ccResults[k]? = some cc)
    {entry : Entry} (member : entry ∈ archivedBy config env results k) :
    ∃ i path, i ∈ visitedBy config env results cc ∧ entry = .file path (.ofFile cc.file.path) ∧
      Path.Under (dirAt config results i) path := by
  obtain ⟨added, below, entries⟩ := archivedBy_eq config env listed
  rw [entries] at member
  obtain ⟨path, found, rfl⟩ := List.mem_map.mp member
  obtain ⟨n, inside, rfl⟩ := List.getElem_of_mem found
  have lengths := below.length_eq
  exact ⟨_, _, List.getElem_mem (lengths ▸ inside), rfl,
    (below.get (lengths ▸ inside) inside).under⟩

/-! ### The whole archive -/

/-- The preprocessed files of the compile loop are what its passes added. -/
theorem filter_compileAt (config : OutputConfig) (env : OutputEnv) (results : Results) {k : Nat}
    (inside : k ≤ results.ccResults.length) :
    (compileAt config env results k).archive.filter isPreprocessed =
      (List.range k).flatMap (archivedBy config env results) := by
  induction k with
  | zero =>
    have start : (compileAt config env results 0).archive =
        .file propertyFilePath (.text []) ::
          (List.range (targetNames config results).length).map fun i =>
            .dir (ppOutputPath config (numbered (targetNames config results) i)) :=
      (layout config results).archive
    rw [start, List.filter_cons_of_neg (by decide), List.range_zero, List.flatMap_nil,
      List.filter_eq_nil_iff]
    intro entry member
    obtain ⟨i, -, rfl⟩ := List.mem_map.mp member
    exact Bool.false_ne_true
  | succ k ih =>
    have listed := List.getElem?_eq_getElem (Nat.lt_of_succ_le inside)
    obtain ⟨added, archived⟩ := compileStep_archived env (compileInv_at env config results k)
      results.ccResults[k]
    have step : (compileAt config env results (k + 1)).archive =
        (compileAt config env results k).archive ++ archivedBy config env results k := by
      rw [archivedBy, compileAt_succ env listed, archived.archive, List.drop_left]
    have preprocessed : (archivedBy config env results k).filter isPreprocessed =
        archivedBy config env results k := by
      rw [List.filter_eq_self]
      intro entry member
      obtain ⟨i, path, -, rfl, -⟩ := mem_archivedBy listed member
      rfl
    rw [step, List.filter_append, ih (Nat.le_of_succ_le inside), preprocessed, List.range_succ,
      List.flatMap_append, List.flatMap_singleton]

theorem filter_propertySteps (config : OutputConfig) (env : OutputEnv) (infos : List LDInfo)
    (state : PropertyState) :
    (infos.foldl (propertyStep config env) state).archive.filter isPreprocessed =
      state.archive.filter isPreprocessed := by
  induction infos generalizing state with
  | nil => rfl
  | cons info rest ih =>
    rw [List.foldl_cons, ih]
    have archive : ∃ text, (propertyStep config env state info).archive =
        state.archive ++ [.file (propertyPath info) (.text text)] := ⟨_, rfl⟩
    obtain ⟨text, archive⟩ := archive
    rw [archive, List.filter_append, List.filter_cons_of_neg Bool.false_ne_true, List.filter_nil,
      List.append_nil]

/-- **The preprocessed files in the archive** are those of the compile results, in their order. -/
theorem filter_output (config : OutputConfig) (env : OutputEnv) (results : Results) :
    (generateOutput config env results).archive.filter isPreprocessed =
      (List.range results.ccResults.length).flatMap (archivedBy config env results) := by
  have loop : compileLoop config env results =
      compileAt config env results results.ccResults.length := by
    rw [compileAt, List.take_length, compileLoop]
  rw [generateOutput, List.filter_append, propertyLoop, filter_propertySteps,
    List.filter_cons_of_neg Bool.false_ne_true, List.filter_nil, List.append_nil,
    ← filter_compileAt config env results (Nat.le_refl _), ← loop]
  rfl

end Entries

/-! ### Once for each link result -/

section Once

variable {config : OutputConfig} {env : OutputEnv} {results : Results}

/-- How often the file of a compile result is below the directory of a link info. -/
theorem countP_archivedBy_at (config : OutputConfig) (env : OutputEnv) {k : Nat} {cc : CCResult}
    (listed : results.ccResults[k]? = some cc) {i : Nat}
    (inside : i < (targetNames config results).length) :
    (archivedBy config env results k).countP (entryUnder (dirAt config results i)) =
      (visitedBy config env results cc).countP fun j =>
        decide (numbered (targetNames config results) j =
          numbered (targetNames config results) i) := by
  obtain ⟨added, below, entries⟩ := archivedBy_eq config env listed
  rw [entries, countP_under (isDir_dirAt inside) (fun j => lt_of_mem_visitedBy) below]
  refine List.countP_congr fun j _ => ?_
  rw [decide_eq_true_iff, decide_eq_true_iff, dirAt, dirAt]
  exact targetDir_injective.eq_iff

/-- How often the file of a compile result is below the directory of a link result. -/
theorem countP_archivedBy (disabled : config.needProcessLinkUsingCompiler = false) {k : Nat}
    {cc : CCResult} (listed : results.ccResults[k]? = some cc) {i : Nat}
    (links : Links results cc.target i) :
    (archivedBy config env results k).countP (entryUnder (dirAt config results i)) =
      (visitedBy config env results cc).countP fun j =>
        decide (numbered (filenames results.ldResults) j =
          numbered (filenames results.ldResults) i) := by
  rw [countP_archivedBy_at config env listed ((links_iff_reaches disabled).mp links).lt,
    targetNames_disabled disabled]

/-- In a list without repetitions one element is counted exactly when there is only one. -/
theorem countP_eq_one_iff_existsUnique {α : Type} {l : List α} (nodup : l.Nodup) {p : α → Bool} :
    l.countP p = 1 ↔ ∃! x, x ∈ l ∧ p x = true := by
  rw [List.countP_eq_length_filter, List.length_eq_one_iff]
  constructor
  · rintro ⟨x, single⟩
    refine ⟨x, List.mem_filter.mp (single ▸ List.mem_singleton_self x), fun y isCounted => ?_⟩
    have member := List.mem_filter.mpr isCounted
    rwa [single, List.mem_singleton] at member
  · rintro ⟨x, isCounted, unique⟩
    have counted := List.mem_filter.mpr isCounted
    refine ⟨x, List.perm_singleton.mp ?_⟩
    refine (List.perm_ext_iff_of_nodup (nodup.filter p) (List.nodup_singleton x)).mpr fun y => ?_
    rw [List.mem_singleton]
    constructor
    · exact fun member => unique y (List.mem_filter.mp member)
    · rintro rfl
      exact counted

/-- A visited element is counted once exactly when no other one looks like it. -/
theorem countP_eq_one_iff {visited : List Nat} (nodup : visited.Nodup) {name : Nat → Str} {i : Nat}
    (member : i ∈ visited) :
    (visited.countP fun j => decide (name j = name i)) = 1 ↔
      ∀ j ∈ visited, name j = name i → j = i := by
  rw [countP_eq_one_iff_existsUnique nodup]
  constructor
  · rintro ⟨x, -, unique⟩ j memberJ same
    rw [unique j ⟨memberJ, decide_eq_true same⟩, unique i ⟨member, decide_eq_true rfl⟩]
  · intro unique
    refine ⟨i, ⟨member, decide_eq_true rfl⟩, ?_⟩
    rintro j ⟨memberJ, same⟩
    exact unique j memberJ (of_decide_eq_true same)

/-- The link results of a compile result have names of their own. -/
theorem targetsApart_iff : TargetsApart results ↔
    ∀ cc ∈ results.ccResults, ∀ i j, Links results cc.target i → Links results cc.target j →
      numbered (filenames results.ldResults) i = numbered (filenames results.ldResults) j →
        i = j := by
  have inside : ∀ {target : Str} {i : Nat}, Links results target i →
      i < (filenames results.ldResults).length := by
    rintro target i ⟨ld, found, -⟩
    rw [length_filenames]
    exact (List.getElem?_eq_some_iff.mp found).1
  constructor
  · intro apart cc member i j linksI linksJ same
    rcases (numbered_eq_iff (inside linksI) (inside linksJ)).mp same with here | met | met
    · exact here
    · exact absurd met (apart cc member i j linksI linksJ)
    · exact absurd met (apart cc member j i linksJ linksI)
  · intro apart cc member i j linksI linksJ met
    have same := (numbered_eq_iff (inside linksI) (inside linksJ)).mpr (Or.inr (Or.inl met))
    exact met.ne (apart cc member i j linksI linksJ same)

theorem archivedByTarget_of_apart (disabled : config.needProcessLinkUsingCompiler = false)
    (apart : TargetsApart results) : ArchivedByTarget config env results := by
  constructor
  · have count : (targetNames config results).length = results.ldResults.length := by
      rw [targetNames_disabled disabled, length_filenames]
    rw [dirPaths_output, count]
    rfl
  · exact filter_output config env results
  · intro k cc listed i links
    have visited : i ∈ visitedBy config env results cc :=
      (mem_visitedBy_iff disabled).mpr ((links_iff_reaches disabled).mp links)
    rw [countP_archivedBy disabled listed links, countP_eq_one_iff visitedBy_nodup visited]
    intro j member same
    have linksJ : Links results cc.target j :=
      (links_iff_reaches disabled).mpr ((mem_visitedBy_iff disabled).mp member)
    exact targetsApart_iff.mp apart cc (List.mem_of_getElem? listed) j i linksJ links same
  · intro k cc listed entry member
    obtain ⟨i, path, visited, form, below⟩ := mem_archivedBy listed member
    exact ⟨i, path, (links_iff_reaches disabled).mpr ((mem_visitedBy_iff disabled).mp visited),
      form, below⟩
  · exact (compileLoop config env results).sourceFiles.nodup
  · intro s
    have inv := compileInv_loop env config results
    show s ∈ (compileLoop config env results).sourceFiles ↔ _
    rw [inv.sources s]
    refine exists_congr fun cc => and_congr_right fun _ => and_congr_left fun _ => ?_
    rw [Counted, disabled]
    simp only [links_iff_reaches disabled, Bool.false_eq_true, or_false]

theorem apart_of_archivedByTarget (disabled : config.needProcessLinkUsingCompiler = false)
    (archived : ArchivedByTarget config env results) : TargetsApart results := by
  refine targetsApart_iff.mpr fun cc member i j linksI linksJ same => ?_
  obtain ⟨k, listed⟩ := List.getElem?_of_mem member
  have visited : ∀ {j}, Links results cc.target j → j ∈ visitedBy config env results cc :=
    fun links => (mem_visitedBy_iff disabled).mpr ((links_iff_reaches disabled).mp links)
  have once := archived.once k cc listed j linksJ
  rw [countP_archivedBy disabled listed linksJ, countP_eq_one_iff visitedBy_nodup (visited linksJ)]
    at once
  exact once i (visited linksI) same

/-- **Without the extra link info, every compile result is archived exactly once for each of its
link results exactly when no two of these have file names that meet.** -/
theorem archivedByTarget_iff (disabled : config.needProcessLinkUsingCompiler = false) :
    ArchivedByTarget config env results ↔ TargetsApart results :=
  ⟨apart_of_archivedByTarget disabled, archivedByTarget_of_apart disabled⟩

end Once

/-! ### One file, two link results, one directory -/

/-- The file of `/w/t.o` is archived twice below the directory that `a.1` and the second `a`
share. -/
theorem archived_twice :
    ¬ ∀ (config : OutputConfig) (env : OutputEnv) (results : Results),
      config.needProcessLinkUsingCompiler = false → ArchivedByTarget config env results := by
  intro archived
  have once := (archived plainConfig plainEnv (linksOf ["/w/x/a", "/w/y/a", "/w/a.1"]) rfl).once
    0 _ rfl 1 ⟨_, rfl, "/w/t.o".toList, by decide, by decide⟩
  exact absurd once (by decide)

/-- The targets `a` and `b` get directories of their own. -/
theorem archivedByTarget_two :
    ArchivedByTarget plainConfig plainEnv (linksOf ["/w/a", "/w/b"]) := by
  refine (archivedByTarget_iff rfl).mpr ?_
  exact fun cc _ i j _ _ => not_meets_of_nodup (by decide) i j

end Xcalbuild.Build
