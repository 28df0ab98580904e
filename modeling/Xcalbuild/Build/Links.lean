/-
**What the link loop leaves behind it.**

The link loop fills five maps and lists at once. `LinkInv` says what each of them is after the link
results so far, in terms of these results alone: the `i`-th link info has the `i`-th numbered file
name as its directory and the substituted sources as its dependencies, and a source belongs to
exactly the link infos that list it.

* `linkInv_step`: one pass keeps the invariant;
* `linkInv_foldl`: so it holds after all of them;
* `Layout`: the same for the whole loop, with the extra link info when it is enabled (`layout`).
-/
import Xcalbuild.Build.Output
import Xcalbuild.Library.Directory
import Xcalbuild.Library.Naming

namespace Xcalbuild.Build

open Library

/-- The file names of the link targets. -/
def filenames (lds : List LDResult) : List Str := lds.map fun ld => Path.filename ld.target

/-- The sources of a link result, with assembler targets substituted. -/
def actualSources (asSource : Str → Option Str) (ld : LDResult) : List Str :=
  ld.sources.map (actualSource asSource)

theorem isName_mem_filenames {lds : List LDResult} {f : Str} (member : f ∈ filenames lds) :
    Path.IsName f := by
  obtain ⟨ld, -, rfl⟩ := List.mem_map.mp member
  exact Path.isName_filename ld.target

/-! ### The maps -/

/-- The link infos of a link source. -/
def infosOf (targets : Str → Option (List Nat)) (key : Str) : List Nat := (targets key).getD []

/-- Every set in the map is a set, and not empty. -/
def TargetsWellFormed (targets : Str → Option (List Nat)) : Prop :=
  ∀ key infos, targets key = some infos → infos.Nodup ∧ infos ≠ []

theorem mem_insertTarget {targets : Str → Option (List Nat)} {key other : Str} {info i : Nat} :
    i ∈ infosOf (insertTarget targets key info) other ↔
      i ∈ infosOf targets other ∨ (i = info ∧ other = key) := by
  unfold infosOf insertTarget
  by_cases same : other = key
  · subst same
    cases found : targets other with
    | none => simp
    | some infos =>
      by_cases member : info ∈ infos
      · have : i = info → i ∈ infos := fun eq => eq ▸ member
        simp [member]
        tauto
      · simp [member]
  · cases found : targets key with
    | none => simp [same]
    | some infos => simp [same]

theorem insertTarget_wellFormed {targets : Str → Option (List Nat)}
    (wellFormed : TargetsWellFormed targets) (key : Str) (info : Nat) :
    TargetsWellFormed (insertTarget targets key info) := by
  intro other infos found
  unfold insertTarget at found
  by_cases same : other = key
  · subst same
    cases old : targets other with
    | none =>
      simp only [old, Function.update_self, Option.some.injEq] at found
      subst found
      exact ⟨by simp, List.cons_ne_nil _ _⟩
    | some before =>
      obtain ⟨nodup, nonempty⟩ := wellFormed other before old
      simp only [old, Function.update_self, Option.some.injEq] at found
      subst found
      by_cases member : info ∈ before
      · rw [if_pos member]
        exact ⟨nodup, nonempty⟩
      · rw [if_neg member]
        refine ⟨?_, List.append_ne_nil_of_left_ne_nil nonempty _⟩
        rw [List.nodup_append]
        refine ⟨nodup, by simp, ?_⟩
        intro a memberA b memberB eq
        rw [List.mem_singleton] at memberB
        exact member (memberB ▸ eq ▸ memberA)
  · cases old : targets key with
    | none =>
      simp only [old, Function.update_of_ne same] at found
      exact wellFormed other infos found
    | some before =>
      simp only [old, Function.update_of_ne same] at found
      exact wellFormed other infos found

/-- The loop over the sources, map by map. -/
theorem foldl_addSource (asSource : Str → Option Str) (info : Nat) (sources : List Str)
    (dependencies : OrderedSet Str) (targets : Str → Option (List Nat)) :
    sources.foldl (addSource asSource info) (dependencies, targets) =
      (dependencies.insertAll (sources.map (actualSource asSource)),
        (sources.map (actualSource asSource)).foldl
          (fun targets key => insertTarget targets key info) targets) := by
  induction sources generalizing dependencies targets with
  | nil => rfl
  | cons source rest ih =>
    rw [List.foldl_cons, addSource, ih]
    rfl

theorem mem_foldl_insertTarget {keys : List Str} {targets : Str → Option (List Nat)} {other : Str}
    {info i : Nat} :
    i ∈ infosOf (keys.foldl (fun targets key => insertTarget targets key info) targets) other ↔
      i ∈ infosOf targets other ∨ (i = info ∧ other ∈ keys) := by
  induction keys generalizing targets with
  | nil => simp
  | cons key rest ih =>
    rw [List.foldl_cons, ih, mem_insertTarget, List.mem_cons]
    tauto

theorem foldl_insertTarget_wellFormed {keys : List Str} {targets : Str → Option (List Nat)}
    (wellFormed : TargetsWellFormed targets) (info : Nat) :
    TargetsWellFormed (keys.foldl (fun targets key => insertTarget targets key info) targets) := by
  induction keys generalizing targets with
  | nil => exact wellFormed
  | cons key rest ih => exact ih (insertTarget_wellFormed wellFormed key info)

/-- The numbering of the target file names counts the occurrences of a name. -/
def CountsNames (seen : Str → Option Nat) (names : List Str) : Prop :=
  ∀ f, seen f = if names.count f = 0 then none else some (names.count f)

theorem dedupFilename_eq {seen : Str → Option Nat} {names : List Str}
    (counts : CountsNames seen names) (f : Str) :
    (dedupFilename seen f).1 = numbered (names ++ [f]) names.length ∧
      CountsNames (dedupFilename seen f).2 (names ++ [f]) := by
  rw [numbered_append_self]
  have here := counts f
  constructor
  · unfold dedupFilename
    by_cases absent : names.count f = 0
    · rw [if_pos absent] at here
      rw [here, absent]
      rfl
    · rw [if_neg absent] at here
      rw [here, occurrence_pos f (Nat.pos_iff_ne_zero.mpr absent)]
      rfl
  · intro g
    have there := counts g
    rw [List.count_append]
    unfold dedupFilename
    by_cases same : g = f
    · subst same
      rw [List.count_singleton_self, if_neg (Nat.succ_ne_zero _)]
      by_cases absent : names.count g = 0
      · rw [if_pos absent] at here
        simp [here, absent]
      · rw [if_neg absent] at here
        simp [here]
    · have notThere : List.count g [f] = 0 := List.count_eq_zero.mpr (by simpa using same)
      rw [notThere, Nat.add_zero]
      cases found : seen f with
      | none => simpa [Function.update_of_ne same] using there
      | some count => simpa [Function.update_of_ne same] using there

/-! ### The link loop -/

/-- What the variables of the link loop hold after the link results `lds`. -/
structure LinkInv (config : OutputConfig) (asSource : Str → Option Str) (lds : List LDResult)
    (state : LinkState) : Prop where
  infos : state.ldInfos = lds.mapIdx fun i ld =>
    { LDInfo.new (ppOutputPath config (numbered (filenames lds) i)) with
      dependencies := .ofList (actualSources asSource ld) }
  targets : ∀ key i, i ∈ infosOf state.linkTargets key ↔
    ∃ ld, lds[i]? = some ld ∧ key ∈ actualSources asSource ld
  wellFormed : TargetsWellFormed state.linkTargets
  counts : CountsNames state.seenTargetFilenames (filenames lds)
  names : ∀ key, state.dependencyNames key =
    (lds.findIdx? fun ld => targetPath ld = key).map (numbered (filenames lds))
  archive : state.archive = .file propertyFilePath (.text []) ::
    (List.range lds.length).map fun i => .dir (ppOutputPath config (numbered (filenames lds) i))

theorem linkInv_init (config : OutputConfig) (asSource : Str → Option Str) :
    LinkInv config asSource [] .init where
  infos := rfl
  targets key i := by simp [infosOf, LinkState.init]
  wellFormed key infos found := by cases found
  counts f := rfl
  names key := rfl
  archive := rfl

theorem filenames_append (lds : List LDResult) (ld : LDResult) :
    filenames (lds ++ [ld]) = filenames lds ++ [Path.filename ld.target] := by
  rw [filenames, List.map_append]
  rfl

theorem length_filenames (lds : List LDResult) : (filenames lds).length = lds.length :=
  List.length_map _

/-- The names that were given stay. -/
theorem numbered_filenames_append {lds : List LDResult} {i : Nat} (inside : i < lds.length)
    (ld : LDResult) :
    numbered (filenames (lds ++ [ld])) i = numbered (filenames lds) i := by
  rw [filenames_append, numbered_append (by rwa [length_filenames])]

theorem insertName_eq {names : Str → Option Str} (key name other : Str) :
    insertName names key name other =
      (names other).or (if other = key then some name else none) := by
  unfold insertName
  by_cases same : other = key
  · subst same
    cases found : names other with
    | none => simp
    | some value => simp [found]
  · rw [if_neg same, Option.or_none]
    cases names key with
    | none => exact Function.update_of_ne same _ _
    | some value => rfl

theorem getElem?_concat_eq_some {α : Type} {l : List α} {a b : α} {i : Nat} :
    (l ++ [a])[i]? = some b ↔ l[i]? = some b ∨ (i = l.length ∧ a = b) := by
  rcases Nat.lt_trichotomy i l.length with before | rfl | after
  · rw [List.getElem?_append_left before]
    constructor
    · exact Or.inl
    · rintro (found | ⟨rfl, -⟩)
      · exact found
      · exact absurd before (Nat.lt_irrefl _)
  · simp
  · rw [List.getElem?_eq_none (by simp; omega), List.getElem?_eq_none (by omega)]
    simp
    omega

/-- What one pass of the link loop does: the new link info has the number of the link result. -/
theorem linkStep_eq {config : OutputConfig} {asSource : Str → Option Str} {lds : List LDResult}
    {state : LinkState} (inv : LinkInv config asSource lds state) (ld : LDResult) :
    linkStep config asSource state ld =
      { ldInfos := state.ldInfos ++ [{ LDInfo.new (ppOutputPath config
            (numbered (filenames (lds ++ [ld])) lds.length)) with
          dependencies := .ofList (actualSources asSource ld) }]
        linkTargets := (actualSources asSource ld).foldl
          (fun targets key => insertTarget targets key lds.length) state.linkTargets
        seenTargetFilenames :=
          (dedupFilename state.seenTargetFilenames (Path.filename ld.target)).2
        dependencyNames := insertName state.dependencyNames (targetPath ld)
          (numbered (filenames (lds ++ [ld])) lds.length)
        archive := state.archive ++ [.dir (ppOutputPath config
          (numbered (filenames (lds ++ [ld])) lds.length))] } := by
  have length : state.ldInfos.length = lds.length := by rw [inv.infos, List.length_mapIdx]
  have name := (dedupFilename_eq inv.counts (Path.filename ld.target)).1
  rw [length_filenames, ← filenames_append] at name
  unfold linkStep
  rw [foldl_addSource, length, ← name]
  rfl

/-- **One pass of the link loop keeps the invariant.** -/
theorem linkInv_step {config : OutputConfig} {asSource : Str → Option Str} {lds : List LDResult}
    {state : LinkState} (inv : LinkInv config asSource lds state) (ld : LDResult) :
    LinkInv config asSource (lds ++ [ld]) (linkStep config asSource state ld) := by
  have counts := (dedupFilename_eq inv.counts (Path.filename ld.target)).2
  rw [← filenames_append] at counts
  rw [linkStep_eq inv]
  constructor
  · show state.ldInfos ++ [_] = (lds ++ [ld]).mapIdx _
    rw [List.mapIdx_concat, inv.infos]
    congr 1
    rw [List.mapIdx_eq_mapIdx_iff]
    intro i inside
    rw [numbered_filenames_append inside]
  · intro key i
    show i ∈ infosOf ((actualSources asSource ld).foldl _ state.linkTargets) key ↔ _
    rw [mem_foldl_insertTarget, inv.targets key i]
    constructor
    · rintro (⟨other, listed, member⟩ | ⟨rfl, member⟩)
      · exact ⟨other, getElem?_concat_eq_some.mpr (Or.inl listed), member⟩
      · exact ⟨ld, getElem?_concat_eq_some.mpr (Or.inr ⟨rfl, rfl⟩), member⟩
    · rintro ⟨other, listed, member⟩
      rcases getElem?_concat_eq_some.mp listed with listed | ⟨rfl, rfl⟩
      · exact Or.inl ⟨other, listed, member⟩
      · exact Or.inr ⟨rfl, member⟩
  · exact foldl_insertTarget_wellFormed inv.wellFormed lds.length
  · exact counts
  · intro key
    show insertName state.dependencyNames (targetPath ld) _ key = _
    rw [insertName_eq, inv.names key, List.findIdx?_append]
    cases found : lds.findIdx? (fun ld => decide (targetPath ld = key)) with
    | some i =>
      have inside := (List.findIdx?_eq_some_iff_findIdx_eq.mp found).1
      simp [numbered_filenames_append inside]
    | none =>
      by_cases same : key = targetPath ld
      · simp [same, List.findIdx?_cons]
      · have differs : ¬ targetPath ld = key := fun eq => same eq.symm
        simp [same, differs, List.findIdx?_cons]
  · show state.archive ++ [_] = _
    rw [inv.archive, List.length_append, List.length_singleton, List.range_succ, List.map_append,
      List.cons_append]
    congr 2
    refine List.map_congr_left ?_
    intro i member
    rw [numbered_filenames_append (List.mem_range.mp member)]

theorem linkInv_foldl (config : OutputConfig) (asSource : Str → Option Str)
    (lds : List LDResult) :
    LinkInv config asSource lds (lds.foldl (linkStep config asSource) .init) := by
  induction lds using List.reverseRecOn with
  | nil => exact linkInv_init config asSource
  | append_singleton lds ld ih =>
    rw [List.foldl_append]
    exact linkInv_step ih ld

/-! ### The whole loop -/

/-- The file names that get a directory. -/
def targetNames (config : OutputConfig) (results : Results) : List Str :=
  filenames results.ldResults ++ if config.needProcessLinkUsingCompiler then [testLd] else []

/-- The sources of the link result at a position. -/
def linkSources (results : Results) (i : Nat) : List Str :=
  match results.ldResults[i]? with
  | some ld => actualSources (asTargetToSource results.asResults) ld
  | none => []

/-- The link info at position `i`, before any compile result. -/
def linkInfo (config : OutputConfig) (results : Results) (i : Nat) : LDInfo :=
  { LDInfo.new (ppOutputPath config (numbered (targetNames config results) i)) with
    dependencies := .ofList (linkSources results i) }

/-- A compile result for the target counts for the link info at position `i`. -/
def Reaches (config : OutputConfig) (results : Results) (target : Str) (i : Nat) : Prop :=
  target ∈ linkSources results i ∨
    (config.needProcessLinkUsingCompiler = true ∧ i = results.ldResults.length ∧
      target = numbered (targetNames config results) i)

/-- What the variables of the link loop hold at its end. -/
structure Layout (config : OutputConfig) (results : Results) (state : LinkState) : Prop where
  infos : state.ldInfos =
    (List.range (targetNames config results).length).map (linkInfo config results)
  targets : ∀ key i, i ∈ infosOf state.linkTargets key ↔ Reaches config results key i
  wellFormed : TargetsWellFormed state.linkTargets
  names : ∀ key, state.dependencyNames key =
    ((results.ldResults.findIdx? fun ld => targetPath ld = key).map
        (numbered (targetNames config results))).or
      (if config.needProcessLinkUsingCompiler ∧ key = testLd then
        some (numbered (targetNames config results) results.ldResults.length) else none)
  archive : state.archive = .file propertyFilePath (.text []) ::
    (List.range (targetNames config results).length).map fun i =>
      .dir (ppOutputPath config (numbered (targetNames config results) i))

theorem mem_linkSources {results : Results} {i : Nat} {key : Str} :
    key ∈ linkSources results i ↔ ∃ ld, results.ldResults[i]? = some ld ∧
      key ∈ actualSources (asTargetToSource results.asResults) ld := by
  unfold linkSources
  cases results.ldResults[i]? with
  | none => simp
  | some ld => simp

theorem linkSources_eq_nil {results : Results} {i : Nat} (outside : results.ldResults.length ≤ i) :
    linkSources results i = [] := by
  rw [linkSources, List.getElem?_eq_none outside]

theorem numbered_targetNames {config : OutputConfig} {results : Results} {i : Nat}
    (inside : i < results.ldResults.length) :
    numbered (targetNames config results) i = numbered (filenames results.ldResults) i :=
  numbered_append (by rwa [length_filenames]) _

theorem mapIdx_eq_linkInfo (config : OutputConfig) (results : Results) :
    (results.ldResults.mapIdx fun i ld =>
        { LDInfo.new (ppOutputPath config (numbered (filenames results.ldResults) i)) with
          dependencies := .ofList (actualSources (asTargetToSource results.asResults) ld) }) =
      (List.range results.ldResults.length).map (linkInfo config results) := by
  refine List.ext_getElem (by simp) ?_
  intro i inside _
  rw [List.length_mapIdx] at inside
  rw [List.getElem_mapIdx, List.getElem_map, List.getElem_range, linkInfo,
    numbered_targetNames inside, linkSources, List.getElem?_eq_getElem inside]

theorem map_findIdx?_numbered (config : OutputConfig) (results : Results) (key : Str) :
    (results.ldResults.findIdx? fun ld => targetPath ld = key).map
        (numbered (filenames results.ldResults)) =
      (results.ldResults.findIdx? fun ld => targetPath ld = key).map
        (numbered (targetNames config results)) := by
  cases found : results.ldResults.findIdx? fun ld => decide (targetPath ld = key) with
  | none => rfl
  | some i =>
    have inside := (List.findIdx?_eq_some_iff_findIdx_eq.mp found).1
    rw [Option.map_some, Option.map_some, numbered_targetNames inside]

/-- Without the extra link info. -/
theorem layout_plain {config : OutputConfig} {results : Results}
    (disabled : config.needProcessLinkUsingCompiler = false) :
    Layout config results (linkLoop config results) := by
  have inv := linkInv_foldl config (asTargetToSource results.asResults) results.ldResults
  have plain : targetNames config results = filenames results.ldResults := by
    rw [targetNames, disabled, if_neg Bool.false_ne_true, List.append_nil]
  have loop : linkLoop config results =
      results.ldResults.foldl (linkStep config (asTargetToSource results.asResults)) .init := by
    rw [linkLoop, disabled, if_neg Bool.false_ne_true]
  rw [loop]
  constructor
  · rw [inv.infos, mapIdx_eq_linkInfo, plain, length_filenames]
  · intro key i
    rw [inv.targets, ← mem_linkSources, Reaches, disabled]
    simp
  · exact inv.wellFormed
  · intro key
    rw [inv.names, map_findIdx?_numbered config, disabled]
    simp
  · rw [inv.archive, plain, length_filenames]

/-- With the extra link info. -/
theorem layout_testLd {config : OutputConfig} {results : Results}
    (enabled : config.needProcessLinkUsingCompiler = true) :
    Layout config results (linkLoop config results) := by
  have inv := linkInv_foldl config (asTargetToSource results.asResults) results.ldResults
  have extended : targetNames config results = filenames results.ldResults ++ [testLd] := by
    rw [targetNames, enabled, if_pos rfl]
  have count : (targetNames config results).length = results.ldResults.length + 1 := by
    rw [extended, List.length_append, length_filenames]
    rfl
  generalize before :
    results.ldResults.foldl (linkStep config (asTargetToSource results.asResults)) .init = state
      at inv
  have loop : linkLoop config results = testLdStep config state := by
    rw [linkLoop, enabled, if_pos rfl, before]
  have length : state.ldInfos.length = results.ldResults.length := by
    rw [inv.infos, List.length_mapIdx]
  obtain ⟨name, -⟩ := dedupFilename_eq inv.counts testLd
  rw [length_filenames, ← extended] at name
  have step : testLdStep config state =
      { ldInfos := state.ldInfos ++ [linkInfo config results results.ldResults.length]
        linkTargets := insertTarget state.linkTargets
          (numbered (targetNames config results) results.ldResults.length) results.ldResults.length
        seenTargetFilenames := (dedupFilename state.seenTargetFilenames testLd).2
        dependencyNames := insertName state.dependencyNames testLd
          (numbered (targetNames config results) results.ldResults.length)
        archive := state.archive ++ [.dir (ppOutputPath config
          (numbered (targetNames config results) results.ldResults.length))] } := by
    rw [linkInfo, linkSources_eq_nil (Nat.le_refl _), ← name, testLdStep, length]
    rfl
  rw [loop, step]
  constructor
  · show state.ldInfos ++ [_] = _
    rw [inv.infos, mapIdx_eq_linkInfo, count, List.range_succ, List.map_append]
    rfl
  · intro key i
    show i ∈ infosOf (insertTarget state.linkTargets _ results.ldResults.length) key ↔ _
    rw [mem_insertTarget, inv.targets, ← mem_linkSources, Reaches, enabled]
    constructor
    · rintro (member | ⟨rfl, rfl⟩)
      · exact Or.inl member
      · exact Or.inr ⟨rfl, rfl, rfl⟩
    · rintro (member | ⟨-, rfl, rfl⟩)
      · exact Or.inl member
      · exact Or.inr ⟨rfl, rfl⟩
  · exact insertTarget_wellFormed inv.wellFormed _ _
  · intro key
    show insertName state.dependencyNames testLd _ key = _
    rw [insertName_eq, inv.names, map_findIdx?_numbered config, enabled]
    simp
  · show state.archive ++ [_] = _
    rw [inv.archive, count, List.range_succ, List.map_append, List.cons_append]
    congr 2
    refine List.map_congr_left ?_
    intro i member
    rw [numbered_targetNames (List.mem_range.mp member)]

/-- **The link loop lays out one directory for each name.** -/
theorem layout (config : OutputConfig) (results : Results) :
    Layout config results (linkLoop config results) := by
  cases enabled : config.needProcessLinkUsingCompiler with
  | true => exact layout_testLd enabled
  | false => exact layout_plain enabled

/-- A link info that a target reaches has a name. -/
theorem Reaches.lt {config : OutputConfig} {results : Results} {key : Str} {i : Nat}
    (reaches : Reaches config results key i) : i < (targetNames config results).length := by
  rw [targetNames, List.length_append, length_filenames]
  rcases reaches with member | ⟨enabled, rfl, -⟩
  · by_contra outside
    rw [linkSources_eq_nil (by omega)] at member
    cases member
  · rw [enabled]
    simp

theorem isName_numbered {config : OutputConfig} {results : Results} {i : Nat}
    (inside : i < (targetNames config results).length) :
    Path.IsName (numbered (targetNames config results) i) := by
  have name : Path.IsName (targetNames config results)[i] := by
    have member := List.getElem_mem inside
    rcases List.mem_append.mp member with member | member
    · exact isName_mem_filenames member
    · split_ifs at member
      · rw [List.mem_singleton] at member
        rw [member]
        exact Path.isName_of_notMem (by decide)
      · cases member
  rw [numbered_of_getElem? (List.getElem?_eq_getElem inside), occurrence]
  split_ifs
  · exact name
  · exact name.append (not_mem_numberSuffix (by decide) (by decide))

theorem isDir_targetDir {config : OutputConfig} {results : Results} {i : Nat}
    (inside : i < (targetNames config results).length) :
    Path.IsDir (targetDir (numbered (targetNames config results) i)) :=
  (isName_numbered inside).isDir (by decide) (by decide)

theorem targetDir_injective : Function.Injective targetDir := fun _ _ same =>
  List.append_cancel_right same

end Xcalbuild.Build
