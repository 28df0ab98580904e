/-
**What the compile loop leaves behind it.**

`visitedBy` are the link infos that the loop walks over for one compile result, and `CompileInv`
says what the variables of the loop are after the compile results so far.

* `compileStep_archived`: one pass archives the result once for each of its link infos;
* `compileInv_step`: it keeps the invariant, and `compileInv_foldl`: so a whole run does.
-/
import Xcalbuild.Build.Archive

namespace Xcalbuild.Build

open Library

/-- The link infos that the compile loop walks over for a compile result, in its order. -/
def visitedBy (config : OutputConfig) (env : OutputEnv) (results : Results) (cc : CCResult) :
    List Nat :=
  let targets := (linkLoop config results).linkTargets
  if (targets cc.target).isSome then env.visit (infosOf targets cc.target)
  else if config.needProcessLinkUsingCompiler then env.visit (infosOf targets testLd) else []

/-- A compile result is taken into account: a link result has it as a source, or all compile
results are. -/
def Counted (config : OutputConfig) (results : Results) (cc : CCResult) : Prop :=
  (∃ i, Reaches config results cc.target i) ∨ config.needProcessLinkUsingCompiler = true

/-- The paths of the files in an archive. -/
def filePaths (archive : List Entry) : List Path :=
  archive.filterMap fun
    | .file path _ => some path
    | .dir _ => none

/-- The paths of the directories in an archive. -/
def dirPaths (archive : List Entry) : List Path :=
  archive.filterMap fun
    | .file _ _ => none
    | .dir path => some path

theorem mem_filePaths {archive : List Entry} {path : Path} :
    path ∈ filePaths archive ↔ ∃ content, .file path content ∈ archive := by
  rw [filePaths, List.mem_filterMap]
  constructor
  · rintro ⟨entry, member, found⟩
    cases entry with
    | file other content =>
      cases found
      exact ⟨content, member⟩
    | dir other => cases found
  · rintro ⟨content, member⟩
    exact ⟨.file path content, member, rfl⟩

theorem filePaths_append (first second : List Entry) :
    filePaths (first ++ second) = filePaths first ++ filePaths second :=
  List.filterMap_append

theorem dirPaths_append (first second : List Entry) :
    dirPaths (first ++ second) = dirPaths first ++ dirPaths second :=
  List.filterMap_append

theorem filePaths_files {α : Type} (path : α → Path) (content : α → Content) (l : List α) :
    filePaths (l.map fun a => .file (path a) (content a)) = l.map path := by
  induction l with
  | nil => rfl
  | cons a rest ih => rw [List.map_cons, List.map_cons, ← ih]; rfl

theorem dirPaths_files {α : Type} (path : α → Path) (content : α → Content) (l : List α) :
    dirPaths (l.map fun a => .file (path a) (content a)) = [] := by
  induction l with
  | nil => rfl
  | cons a rest ih => rw [List.map_cons, ← ih]; rfl

theorem filePaths_dirs {α : Type} (path : α → Path) (l : List α) :
    filePaths (l.map fun a => .dir (path a)) = [] := by
  induction l with
  | nil => rfl
  | cons a rest ih => rw [List.map_cons, ← ih]; rfl

theorem dirPaths_dirs {α : Type} (path : α → Path) (l : List α) :
    dirPaths (l.map fun a => .dir (path a)) = l.map path := by
  induction l with
  | nil => rfl
  | cons a rest ih => rw [List.map_cons, List.map_cons, ← ih]; rfl

section Visited

variable {config : OutputConfig} {env : OutputEnv} {results : Results} {cc : CCResult} {i : Nat}

theorem linkTargets_isSome_iff {key : Str} :
    ((linkLoop config results).linkTargets key).isSome = true ↔
      ∃ i, Reaches config results key i := by
  have lay := layout config results
  constructor
  · intro present
    obtain ⟨infos, found⟩ := Option.isSome_iff_exists.mp present
    obtain ⟨i, rest, rfl⟩ := List.exists_cons_of_ne_nil (lay.wellFormed key infos found).2
    refine ⟨i, (lay.targets key i).mp ?_⟩
    rw [infosOf, found]
    exact List.mem_cons_self
  · rintro ⟨i, reaches⟩
    have member := (lay.targets key i).mpr reaches
    unfold infosOf at member
    cases found : (linkLoop config results).linkTargets key with
    | none => rw [found] at member; cases member
    | some infos => rfl

theorem infosOf_nodup (key : Str) : (infosOf (linkLoop config results).linkTargets key).Nodup := by
  unfold infosOf
  cases found : (linkLoop config results).linkTargets key with
  | none => exact List.nodup_nil
  | some infos => exact ((layout config results).wellFormed key infos found).1

theorem visitedBy_nodup : (visitedBy config env results cc).Nodup := by
  unfold visitedBy
  dsimp only
  split_ifs
  · exact (env.visit_perm _).nodup_iff.mpr (infosOf_nodup _)
  · exact (env.visit_perm _).nodup_iff.mpr (infosOf_nodup _)
  · exact List.nodup_nil

theorem lt_of_mem_visitedBy (member : i ∈ visitedBy config env results cc) :
    i < (targetNames config results).length := by
  unfold visitedBy at member
  dsimp only at member
  split_ifs at member
  · exact (((layout config results).targets _ i).mp ((env.visit_perm _).mem_iff.mp member)).lt
  · exact (((layout config results).targets _ i).mp ((env.visit_perm _).mem_iff.mp member)).lt
  · cases member

theorem mem_visitedBy_of_reaches (reaches : Reaches config results cc.target i) :
    i ∈ visitedBy config env results cc := by
  unfold visitedBy
  rw [if_pos (linkTargets_isSome_iff.mpr ⟨i, reaches⟩)]
  exact (env.visit_perm _).mem_iff.mpr (((layout config results).targets _ i).mpr reaches)

/-- Without the extra link info, exactly the link infos that the target reaches are visited. -/
theorem mem_visitedBy_iff (disabled : config.needProcessLinkUsingCompiler = false) :
    i ∈ visitedBy config env results cc ↔ Reaches config results cc.target i := by
  constructor
  · intro member
    unfold visitedBy at member
    dsimp only at member
    rw [disabled, if_neg Bool.false_ne_true] at member
    split_ifs at member
    · exact ((layout config results).targets _ i).mp ((env.visit_perm _).mem_iff.mp member)
    · cases member
  · exact mem_visitedBy_of_reaches

/-- The link infos that are visited are those of the target, or, when there are none, those of the
extra target. -/
theorem mem_visitedBy_cases :
    i ∈ visitedBy config env results cc ↔
      Reaches config results cc.target i ∨
        ((∀ j, ¬ Reaches config results cc.target j) ∧
          config.needProcessLinkUsingCompiler = true ∧ Reaches config results testLd i) := by
  have lay := layout config results
  constructor
  · intro member
    unfold visitedBy at member
    dsimp only at member
    split_ifs at member with linked enabled
    · exact Or.inl ((lay.targets _ i).mp ((env.visit_perm _).mem_iff.mp member))
    · refine Or.inr ⟨fun j reaches => linked (linkTargets_isSome_iff.mpr ⟨j, reaches⟩), enabled, ?_⟩
      exact (lay.targets _ i).mp ((env.visit_perm _).mem_iff.mp member)
    · exact absurd member List.not_mem_nil
  · rintro (reaches | ⟨absent, enabled, reaches⟩)
    · exact mem_visitedBy_of_reaches reaches
    · have unlinked : ¬ ((linkLoop config results).linkTargets cc.target).isSome = true := by
        intro linked
        obtain ⟨j, reaches'⟩ := linkTargets_isSome_iff.mp linked
        exact absent j reaches'
      unfold visitedBy
      rw [if_neg unlinked, if_pos enabled]
      exact (env.visit_perm _).mem_iff.mpr ((lay.targets _ i).mpr reaches)

end Visited

/-! ### The compile loop -/

/-- What the variables of the compile loop hold after the compile results `ccs`. -/
structure CompileInv (config : OutputConfig) (results : Results) (ccs : List CCResult)
    (state : CompileState) : Prop where
  laidOut : PathsLaidOut config results state.ldInfos
  targets : ∀ key, state.linkTargets key = (linkLoop config results).linkTargets key ∨
    (config.needProcessLinkUsingCompiler = true ∧ key = testLd ∧ state.linkTargets key = some [] ∧
      (linkLoop config results).linkTargets key = none)
  files : filePaths state.archive = propertyFilePath :: state.ppFiles
  dirs : dirPaths state.archive = (List.range (targetNames config results).length).map fun i =>
    ppOutputPath config (numbered (targetNames config results) i)
  lines : state.checksum.map ChecksumLine.path = state.ppFiles.map (Path.append (ppTopPath config))
  apart : FilesApart state.ppFiles
  below : ∀ path ∈ state.ppFiles, ∃ i, i < (targetNames config results).length ∧
    FileBelow (dirAt config results i) path
  dependencies : ∀ i info, state.ldInfos[i]? = some info → ∀ d, d ∈ info.dependencies ↔
    d ∈ linkSources results i ∧ d ∉ ccs.map CCResult.target
  sources : ∀ s, s ∈ state.sourceFiles ↔
    ∃ cc ∈ ccs, Counted config results cc ∧ (s = cc.source ∨ s ∈ cc.deps)

theorem compileInv_init (config : OutputConfig) (results : Results) :
    CompileInv config results [] (linkLoop config results).toCompile := by
  have lay := layout config results
  constructor
  · show PathsLaidOut config results (linkLoop config results).ldInfos
    rw [lay.infos, PathsLaidOut, List.map_map]
    rfl
  · exact fun key => Or.inl rfl
  · show filePaths (linkLoop config results).archive = [propertyFilePath]
    rw [lay.archive]
    exact congrArg (propertyFilePath :: ·) (filePaths_dirs _ _)
  · show dirPaths (linkLoop config results).archive = _
    rw [lay.archive]
    exact dirPaths_dirs _ _
  · rfl
  · exact List.Pairwise.nil
  · exact fun path member => absurd member List.not_mem_nil
  · intro i info found d
    have found' : (linkLoop config results).ldInfos[i]? = some info := found
    rw [lay.infos, List.getElem?_map] at found'
    obtain ⟨j, listed, rfl⟩ := Option.map_eq_some_iff.mp found'
    obtain ⟨inside, same⟩ := List.getElem?_eq_some_iff.mp listed
    rw [List.getElem_range] at same
    subst same
    simp [linkInfo]
  · intro s
    simp [LinkState.toCompile]

section Step

variable {config : OutputConfig} (env : OutputEnv) {results : Results} {ccs : List CCResult}
  {state : CompileState}

theorem infosOf_eq (inv : CompileInv config results ccs state) (key : Str) :
    infosOf state.linkTargets key = infosOf (linkLoop config results).linkTargets key := by
  unfold infosOf
  rcases inv.targets key with same | ⟨-, -, empty, absent⟩
  · rw [same]
  · rw [empty, absent]
    rfl

/-- What a pass does: it archives for the link infos of one target, or it drops the result. -/
theorem compileStep_cases (inv : CompileInv config results ccs state) (cc : CCResult) :
    (∃ target, compileStep config env state cc = archiveAll config env cc target state ∧
        env.visit (infosOf state.linkTargets target) = visitedBy config env results cc ∧
        Counted config results cc ∧
        ((state.linkTargets target).isSome = true ∨
          (config.needProcessLinkUsingCompiler = true ∧ target = testLd))) ∨
      (compileStep config env state cc = { state with removed := state.removed ++ [cc.file.path] } ∧
        visitedBy config env results cc = [] ∧ ¬ Counted config results cc) := by
  unfold compileStep visitedBy Counted
  rw [← linkTargets_isSome_iff]
  dsimp only
  cases present : (state.linkTargets cc.target).isSome with
  | true =>
    refine Or.inl ⟨cc.target, if_pos rfl, ?_, ?_, Or.inl present⟩
    · rw [infosOf_eq inv]
      rcases inv.targets cc.target with same | ⟨enabled, isTestLd, -, missing⟩
      · rw [← same, if_pos present]
      · rw [missing, enabled, isTestLd]
        simp
    · rcases inv.targets cc.target with same | ⟨enabled, -, -, -⟩
      · exact Or.inl (same ▸ present)
      · exact Or.inr enabled
  | false =>
    have absent : ((linkLoop config results).linkTargets cc.target).isSome = false := by
      rcases inv.targets cc.target with same | ⟨-, -, -, missing⟩
      · rw [← same, present]
      · rw [missing]
        rfl
    rw [absent]
    cases enabled : config.needProcessLinkUsingCompiler with
    | true =>
      refine Or.inl ⟨testLd, ?_, ?_, Or.inr rfl, Or.inr ⟨rfl, rfl⟩⟩
      · rw [if_neg Bool.false_ne_true, if_pos rfl]
      · rw [infosOf_eq inv, if_neg Bool.false_ne_true, if_pos rfl]
    | false =>
      refine Or.inr ⟨?_, ?_, by simp⟩
      · rw [if_neg Bool.false_ne_true, if_neg Bool.false_ne_true]
      · rw [if_neg Bool.false_ne_true, if_neg Bool.false_ne_true]

/-- **One pass archives the compile result once for each of its link infos.** -/
theorem compileStep_archived (inv : CompileInv config results ccs state) (cc : CCResult) :
    ∃ added, Archived config results cc (visitedBy config env results cc) state
      (compileStep config env state cc) added := by
  rcases compileStep_cases env inv cc with ⟨target, step, visited, -⟩ | ⟨step, visited, -⟩
  · have inside : ∀ i ∈ visitedBy config env results cc, i < (targetNames config results).length :=
      fun i member => lt_of_mem_visitedBy member
    rw [step, ← visited]
    rw [← visited] at inside
    have laidOut : PathsLaidOut config results ({ state with
        sourceFiles := (state.sourceFiles.insert cc.source).insertAll cc.deps.elems
        linkTargets := Function.update state.linkTargets target
          (some (infosOf state.linkTargets target)) } : CompileState).ldInfos := inv.laidOut
    obtain ⟨added, run⟩ := archive_run cc laidOut inside
    exact ⟨added, run.below, run.chars, run.ppFiles, run.apart, run.archive, run.checksum, run.laidOut⟩
  · rw [step, visited]
    exact ⟨[], .nil, .nil, (List.append_nil _).symm, id, (List.append_nil _).symm,
      (List.append_nil _).symm, inv.laidOut⟩

theorem archived_dependencies (info : LDInfo) (cc : CCResult) :
    (info.archived cc).dependencies = info.dependencies.erase cc.target := by
  unfold LDInfo.archived LDInfo.populate
  split_ifs <;> rfl

/-- What a pass does to the link infos. -/
theorem compileStep_infos (inv : CompileInv config results ccs state) (cc : CCResult) (i : Nat) :
    (compileStep config env state cc).ldInfos[i]? =
      if i ∈ visitedBy config env results cc then
        (state.ldInfos[i]?).map fun info => info.archived cc
      else state.ldInfos[i]? := by
  have nodup : (visitedBy config env results cc).Nodup := visitedBy_nodup
  rcases compileStep_cases env inv cc with ⟨target, step, visited, -⟩ | ⟨step, visited, -⟩
  · rw [step, ← visited]
    rw [← visited] at nodup
    exact archive_infos config cc nodup _ i
  · rw [step, visited, if_neg List.not_mem_nil]

theorem compileStep_targets (inv : CompileInv config results ccs state) (cc : CCResult)
    (key : Str) :
    (compileStep config env state cc).linkTargets key = (linkLoop config results).linkTargets key ∨
      (config.needProcessLinkUsingCompiler = true ∧ key = testLd ∧
        (compileStep config env state cc).linkTargets key = some [] ∧
        (linkLoop config results).linkTargets key = none) := by
  rcases compileStep_cases env inv cc with ⟨target, step, -, -, reason⟩ | ⟨step, -⟩
  · have targets : (compileStep config env state cc).linkTargets =
        Function.update state.linkTargets target (some (infosOf state.linkTargets target)) := by
      rw [step]
      exact (archive_frame config cc _ _).1
    rw [targets]
    by_cases here : key = target
    · subst here
      rw [Function.update_self, infosOf]
      cases found : state.linkTargets key with
      | some infos =>
        rcases inv.targets key with same | ⟨enabled, isTestLd, empty, absent⟩
        · exact Or.inl (by rw [← same, found]; rfl)
        · rw [found] at empty
          exact Or.inr ⟨enabled, isTestLd, empty, absent⟩
      | none =>
        rcases reason with present | ⟨enabled, isTestLd⟩
        · rw [found] at present
          cases present
        · rcases inv.targets key with same | ⟨-, -, empty, -⟩
          · exact Or.inr ⟨enabled, isTestLd, rfl, by rw [← same, found]⟩
          · rw [found] at empty
            cases empty
    · rw [Function.update_of_ne here]
      exact inv.targets key
  · rw [step]
    exact inv.targets key

theorem compileStep_sources (inv : CompileInv config results ccs state) (cc : CCResult) (s : Str) :
    s ∈ (compileStep config env state cc).sourceFiles ↔
      s ∈ state.sourceFiles ∨ (Counted config results cc ∧ (s = cc.source ∨ s ∈ cc.deps)) := by
  rcases compileStep_cases env inv cc with ⟨target, step, -, counted, -⟩ | ⟨step, -, uncounted⟩
  · have sources : (compileStep config env state cc).sourceFiles =
        (state.sourceFiles.insert cc.source).insertAll cc.deps.elems := by
      rw [step]
      exact (archive_frame config cc _ _).2
    rw [sources, OrderedSet.mem_insertAll, OrderedSet.mem_insert, ← OrderedSet.mem_def]
    constructor
    · rintro (dep | source | before)
      · exact Or.inr ⟨counted, Or.inr dep⟩
      · exact Or.inr ⟨counted, Or.inl source⟩
      · exact Or.inl before
    · rintro (before | ⟨-, source | dep⟩)
      · exact Or.inr (Or.inr before)
      · exact Or.inr (Or.inl source)
      · exact Or.inl dep
  · rw [step]
    constructor
    · exact Or.inl
    · rintro (before | ⟨counted, -⟩)
      · exact before
      · exact absurd counted uncounted

/-- **One pass of the compile loop keeps the invariant.** -/
theorem compileInv_step (inv : CompileInv config results ccs state) (cc : CCResult) :
    CompileInv config results (ccs ++ [cc]) (compileStep config env state cc) := by
  obtain ⟨added, archived⟩ := compileStep_archived env inv cc
  constructor
  · exact archived.laidOut
  · exact compileStep_targets env inv cc
  · rw [archived.archive, filePaths_append, inv.files, archived.ppFiles,
      filePaths_files (fun path => path) fun _ => .ofFile cc.file.path, List.map_id',
      List.cons_append]
  · rw [archived.archive, dirPaths_append, inv.dirs,
      dirPaths_files (fun path => path) fun _ => .ofFile cc.file.path, List.append_nil]
  · rw [archived.checksum, archived.ppFiles, List.map_append, inv.lines, List.map_append,
      List.map_map]
    rfl
  · exact archived.apart inv.apart
  · intro path member
    rw [archived.ppFiles, List.mem_append] at member
    rcases member with member | member
    · exact inv.below path member
    · obtain ⟨i, visited, below⟩ : ∃ i ∈ visitedBy config env results cc,
          FileBelow (dirAt config results i) path := by
        obtain ⟨k, inside, rfl⟩ := List.getElem_of_mem member
        have lengths := archived.below.length_eq
        exact ⟨_, List.getElem_mem (lengths ▸ inside), archived.below.get (lengths ▸ inside) inside⟩
      exact ⟨i, lt_of_mem_visitedBy visited, below⟩
  · intro i info found d
    rw [compileStep_infos env inv cc i] at found
    rw [List.map_append, List.map_singleton, List.mem_append, List.mem_singleton, not_or]
    by_cases visited : i ∈ visitedBy config env results cc
    · rw [if_pos visited] at found
      obtain ⟨before, found', rfl⟩ := Option.map_eq_some_iff.mp found
      rw [archived_dependencies, OrderedSet.mem_erase, inv.dependencies i before found' d, and_assoc]
    · rw [if_neg visited] at found
      rw [inv.dependencies i info found d]
      refine ⟨fun ⟨source, absent⟩ => ⟨source, absent, fun same => visited ?_⟩,
        fun ⟨source, absent, _⟩ => ⟨source, absent⟩⟩
      exact mem_visitedBy_of_reaches (Or.inl (same ▸ source))
  · intro s
    rw [compileStep_sources env inv cc s, inv.sources s]
    constructor
    · rintro (⟨other, member, counted, is⟩ | ⟨counted, is⟩)
      · exact ⟨other, List.mem_append_left _ member, counted, is⟩
      · exact ⟨cc, List.mem_append_right _ List.mem_cons_self, counted, is⟩
    · rintro ⟨other, member, counted, is⟩
      rcases List.mem_append.mp member with member | member
      · exact Or.inl ⟨other, member, counted, is⟩
      · rw [List.mem_singleton] at member
        subst member
        exact Or.inr ⟨counted, is⟩

/-- The state of the compile loop after the first compile results. -/
def compileAt (config : OutputConfig) (env : OutputEnv) (results : Results) (k : Nat) :
    CompileState :=
  (results.ccResults.take k).foldl (compileStep config env) (linkLoop config results).toCompile

theorem compileInv_foldl (config : OutputConfig) (results : Results) (ccs : List CCResult) :
    CompileInv config results ccs
      (ccs.foldl (compileStep config env) (linkLoop config results).toCompile) := by
  induction ccs using List.reverseRecOn with
  | nil => exact compileInv_init config results
  | append_singleton ccs cc ih =>
    rw [List.foldl_append]
    exact compileInv_step env ih cc

theorem compileInv_at (config : OutputConfig) (results : Results) (k : Nat) :
    CompileInv config results (results.ccResults.take k) (compileAt config env results k) :=
  compileInv_foldl env config results _

theorem compileInv_loop (config : OutputConfig) (results : Results) :
    CompileInv config results results.ccResults (compileLoop config env results) :=
  compileInv_foldl env config results _

theorem compileAt_succ {k : Nat} {cc : CCResult} (listed : results.ccResults[k]? = some cc) :
    compileAt config env results (k + 1) =
      compileStep config env (compileAt config env results k) cc := by
  rw [compileAt, List.take_add_one, listed, List.foldl_append]
  rfl

end Step

end Xcalbuild.Build
