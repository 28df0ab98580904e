/-
**From the target of one command to the dependency of another.**

An item whose target is a source of another item should be listed there under the name of its
directory. `handle_link` cuts the target down to its file name, and `generate_output` rebuilds a
path from the sources to record the name under, so the two meet only when the rebuilt path is the
target again.

* `LinkBuild`: items with full paths, as the parser leaves them, and the results beside them;
* `putAt_iff`, `dependsOn_iff`: where an item is recorded, and what an item depends on, by the items;
* `resolved_eq`: the entries that are written for the dependencies of an item (`entry`);
* `targetsResolved_iff`: every target is resolved to the directory of its item, and to no other, when
  the object files put the items at their targets (`TargetsMet`), and only then, unless an item is
  recorded under a dependency that is no target (`Unmixed`).
-/
import Xcalbuild.Build.Dependencies
import Xcalbuild.Processor.Link
import Xcalbuild.Profile.FullPath

namespace Xcalbuild.Processor

open Library
open Build
open Profile (ParsedWorkItem IsFull)

/-- The link and archive items of a build, in their order, and the other results. Sources are full
paths (`Profile.parseWorkItem_full`). -/
structure LinkBuild where
  items : List ParsedWorkItem
  asResults : List ASResult
  ccResults : List CCResult
  sourcesFull : ∀ item ∈ items, ∀ source ∈ item.sources, IsFull source.1
  asFull : ∀ as ∈ asResults, IsFull as.source

namespace LinkBuild

variable (config : OutputConfig) (env : OutputEnv) (build : LinkBuild)

/-- The results of the build, without a linker key. -/
def results : Results where
  asResults := build.asResults
  ldResults := build.items.filterMap (handleLink [])
  ccResults := build.ccResults

/-- The name of the directory of an item, without the suffix `.dir`. -/
def directoryName (i : Nat) : Str := numbered (targetNames config build.results) i

/-- **Every item is listed under its directory name** by the items that have its target as a
source, and its target is resolved to no directory of an item with another target. -/
structure TargetsResolved : Prop where
  listed : ∀ (a b : Nat) (item other : ParsedWorkItem), build.items[a]? = some item →
    build.items[b]? = some other →
    item.target ∈ other.sources.map Prod.fst →
      ∃ (entries : List (Str × Str)) (properties : List (Str × Str)),
        (generateOutput config env build.results).resolved[b]? = some entries ∧
        (generateOutput config env build.results).properties[b]? = some properties ∧
        .file (propertyFileAt config build.results b) (.text (writeIni properties)) ∈
          (generateOutput config env build.results).archive ∧
        properties.lookup "dependencies".toList = some (join [' '] (entries.map Prod.snd)) ∧
        directoryName config build a ∈ entries.map Prod.snd ∧
        item.target ∉ entries.map Prod.snd
  apart : ∀ (a c : Nat) (item other : ParsedWorkItem), build.items[a]? = some item →
    build.items[c]? = some other →
    item.target ≠ other.target →
      ∀ entries ∈ (generateOutput config env build.results).resolved,
        (item.target, directoryName config build c) ∉ entries

/-- An object file with the stem of the target. -/
def IsObjectOf (item : ParsedWorkItem) (source : Str) : Prop :=
  Path.extension source = ".o".toList ∧ Path.stem source = Path.stem (targetName item)

/-- The item is put at a path: in the directory of its first object file with the stem of the target,
under the file name of the target. -/
def PutAt (item : ParsedWorkItem) (path : Str) : Prop :=
  ∃ before object after, item.sources.map Prod.fst = before ++ object :: after ∧
    (∀ source ∈ before, ¬ IsObjectOf item source) ∧ IsObjectOf item object ∧
      path = Path.append (Path.parentPath object) (targetName item)

/-- The item at the position is the first one that is put at the path. -/
def FirstPutAt (i : Nat) (path : Str) : Prop :=
  (∃ item, build.items[i]? = some item ∧ PutAt item path) ∧
    ∀ j < i, ∀ item, build.items[j]? = some item → ¬ PutAt item path

/-- The item at the position depends on a path: it is a source, or the source of the last assembler
result for one, and no compile result has it as its target. -/
def DependsOn (b : Nat) (path : Str) : Prop :=
  (∃ item, build.items[b]? = some item ∧ ∃ source ∈ item.sources.map Prod.fst,
      substitution build.asResults source = path) ∧
    ∀ cc ∈ build.ccResults, cc.target ≠ path

/-- No item before the position depends on the path. -/
def Unused (b : Nat) (path : Str) : Prop := ∀ j < b, ¬ build.DependsOn j path

/-- The file names of the targets. -/
def names : List Str := build.items.map targetName

/-- **The object files put the items at their targets**, as far as other items depend on these.

* `met`: an item whose target is a source of another item is the first one that is put at the target,
  the other item depends on it, and is the first that does;
* `owned`, `apart`: what is put at a target that an item is the first to depend on has this target, and
  a file name that meets the one of no item with another target;
* `named`: where an earlier item depends on the target, no other item is the first without a name. -/
structure TargetsMet : Prop where
  met : ∀ (a b : Nat) (item other : ParsedWorkItem), build.items[a]? = some item →
    build.items[b]? = some other → item.target ∈ other.sources.map Prod.fst →
      build.FirstPutAt a item.target ∧ build.DependsOn b item.target ∧
        build.Unused b item.target
  owned : ∀ (b i : Nat) (put : ParsedWorkItem), ∀ item ∈ build.items,
    build.DependsOn b item.target → build.Unused b item.target →
      build.FirstPutAt i item.target → build.items[i]? = some put → put.target = item.target
  apart : ∀ (b i c : Nat) (other : ParsedWorkItem), ∀ item ∈ build.items,
    build.DependsOn b item.target → build.Unused b item.target → build.FirstPutAt i item.target →
      build.items[c]? = some other → item.target ≠ other.target →
        ¬ Meets build.names i c ∧ ¬ Meets build.names c i
  named : ∀ (b i c : Nat) (other : ParsedWorkItem), ∀ item ∈ build.items,
    build.DependsOn b item.target → ¬ build.Unused b item.target → build.FirstPutAt i item.target →
      build.items[c]? = some other → item.target ≠ other.target →
        ¬ (build.names[c]? = some [] ∧ [] ∉ build.names.take c)

/-- An item is only put at a dependency if this is the target of an item, and all targets have file
names. -/
structure Unmixed : Prop where
  targets : ∀ (b i : Nat) (path : Str), build.DependsOn b path → build.FirstPutAt i path →
    ∃ item ∈ build.items, item.target = path
  named : ∀ item ∈ build.items, targetName item ≠ []

/-! ### Where items are recorded -/

/-- The item whose name is recorded for a path: the first one whose rebuilt target it is. -/
def recorder (path : Str) : Option Nat :=
  build.items.findIdx? fun item => decide (targetPath (linkResult item) = path)

/-- An earlier link result has the dependency too. -/
def UsedBefore (b : Nat) (dep : Str) : Prop := ∃ j < b, dep ∈ remaining build.results j

instance (b : Nat) (dep : Str) : Decidable (build.UsedBefore b dep) :=
  inferInstanceAs (Decidable (∃ j < b, dep ∈ remaining build.results j))

/-- The name of an item as a later item finds it: the first use of it as a dependency takes it
away. -/
def nameLeft (b : Nat) (dep : Str) (i : Nat) : Str :=
  if build.UsedBefore b dep then [] else directoryName config build i

/-! ### Entries -/

/-- What a dependency is written as. -/
def entry (b : Nat) (dep : Str) : Str :=
  match build.recorder dep with
  | some i => nameLeft config build b dep i
  | none => dep

variable {config env build}

theorem ldResults_eq : build.results.ldResults = build.items.map linkResult :=
  filterMap_handleLink_nil _

theorem length_ldResults : build.results.ldResults.length = build.items.length := by
  rw [ldResults_eq, List.length_map]

/-- **The rebuilt path of a target** is where the item is put. -/
theorem putAt_iff {item : ParsedWorkItem} {path : Str} (full : IsFull path) :
    targetPath (linkResult item) = path ↔ PutAt item path := by
  have name : Path.filename (targetName item) = targetName item :=
    Path.filename_eq_self (not_mem_targetName item)
  have object : ∀ source : Str, (decide (Path.extension source = ".o".toList) &&
      decide (Path.stem source = Path.stem (targetName item))) = true ↔ IsObjectOf item source :=
    fun source => by rw [Bool.and_eq_true, decide_eq_true_eq, decide_eq_true_eq]; rfl
  unfold targetPath linkResult
  dsimp only
  rw [name]
  cases found : (item.sources.map Prod.fst).find? fun source =>
      decide (Path.extension source = ".o".toList) &&
        decide (Path.stem source = Path.stem (targetName item)) with
  | none =>
    rw [List.find?_eq_none] at found
    constructor
    · rintro rfl
      exact absurd full.mem (not_mem_targetName item)
    · rintro ⟨before, first, after, sources, -, isObject, -⟩
      refine absurd ((object first).mpr isObject) (found first ?_)
      rw [sources]
      exact List.mem_append_right _ List.mem_cons_self
  | some source =>
    obtain ⟨isObject, before, after, sources, rejects⟩ := List.find?_eq_some_iff_append.mp found
    constructor
    · rintro rfl
      refine ⟨before, source, after, sources, fun other member isObject' => ?_,
        (object source).mp isObject, rfl⟩
      have rejected := rejects other member
      rw [(object other).mpr isObject'] at rejected
      cases rejected
    · rintro ⟨before', first, after', sources', others, isObject', rfl⟩
      have same : (item.sources.map Prod.fst).find? (fun source =>
          decide (Path.extension source = ".o".toList) &&
            decide (Path.stem source = Path.stem (targetName item))) = some first := by
        rw [List.find?_eq_some_iff_append]
        refine ⟨(object first).mpr isObject', before', after', sources', fun other member => ?_⟩
        rw [Bool.not_eq_true', ← Bool.not_eq_true]
        exact fun isObject => others other member ((object other).mp isObject)
      rw [found] at same
      cases same
      rfl

/-- The first item that is put at a full path is recorded for it. -/
theorem recorder_eq_some {i : Nat} {path : Str} (full : IsFull path) :
    build.recorder path = some i ↔ build.FirstPutAt i path := by
  unfold recorder FirstPutAt
  rw [List.findIdx?_eq_some_iff_getElem]
  simp only [decide_eq_true_eq, putAt_iff full]
  constructor
  · rintro ⟨inside, put, earlier⟩
    refine ⟨⟨_, List.getElem?_eq_getElem inside, put⟩, fun j before item found => ?_⟩
    rw [List.getElem?_eq_getElem (before.trans inside)] at found
    cases found
    exact earlier j before
  · rintro ⟨⟨item, found, put⟩, earlier⟩
    obtain ⟨inside, rfl⟩ := List.getElem?_eq_some_iff.mp found
    exact ⟨inside, put, fun j before =>
      earlier j before _ (List.getElem?_eq_getElem (before.trans inside))⟩

/-- **The dependencies of an item** after the compile loop. -/
theorem dependsOn_iff {b : Nat} {path : Str} :
    path ∈ remaining build.results b ↔ build.DependsOn b path := by
  rw [mem_remaining, ← links_iff]
  unfold DependsOn Links
  refine and_congr ?_ ?_
  · rw [ldResults_eq, List.getElem?_map]
    constructor
    · rintro ⟨ld, found, source, member, same⟩
      obtain ⟨item, there, rfl⟩ := Option.map_eq_some_iff.mp found
      exact ⟨item, there, source, member, same⟩
    · rintro ⟨item, found, source, member, same⟩
      exact ⟨linkResult item, by rw [found]; rfl, source, member, same⟩
  · rw [List.mem_map]
    exact ⟨fun absent cc member same => absent ⟨cc, member, same⟩,
      fun absent ⟨cc, member, same⟩ => absent cc member same⟩

theorem unused_iff {b : Nat} {path : Str} : build.Unused b path ↔ ¬ build.UsedBefore b path := by
  unfold Unused UsedBefore
  simp only [dependsOn_iff, not_exists, not_and]

theorem full_of_mem_linkSources {b : Nat} {dep : Str} (member : dep ∈ linkSources build.results b) :
    IsFull dep := by
  obtain ⟨ld, listed, member⟩ := mem_linkSources.mp member
  rw [ldResults_eq, List.getElem?_map] at listed
  obtain ⟨item, found, rfl⟩ := Option.map_eq_some_iff.mp listed
  obtain ⟨source, isSource, rfl⟩ := List.mem_map.mp member
  obtain ⟨pair, isPair, rfl⟩ := List.mem_map.mp isSource
  have source := build.sourcesFull item (List.mem_of_getElem? found) pair isPair
  rw [actualSource_eq, substitution]
  cases last : build.results.asResults.reverse.find? fun as => decide (as.target = pair.1) with
  | none => exact source
  | some as => exact build.asFull as (List.mem_reverse.mp (List.mem_of_find?_eq_some last))

theorem full_of_mem_remaining {b : Nat} {dep : Str} (member : dep ∈ remaining build.results b) :
    IsFull dep :=
  full_of_mem_linkSources (mem_remaining.mp member).1

/-- The names that full paths are recorded under. -/
theorem recordedName_eq {dep : Str} (full : IsFull dep) :
    recordedName config build.results dep =
      (build.recorder dep).map (directoryName config build) := by
  have notTest : dep ≠ testLd := fun same => absurd (same ▸ full.mem) (by decide)
  rw [recordedName, if_neg fun both => notTest both.2, Option.or_none, ldResults_eq,
    List.findIdx?_map]
  rfl

theorem writtenAt_eq (b : Nat) :
    writtenAt config build.results b =
      (remaining build.results b).elems.map (entry config build b) := by
  refine List.map_congr_left fun dep member => ?_
  have full : IsFull dep := full_of_mem_remaining (OrderedSet.mem_def.mpr member)
  have recorded : recordedName config build.results dep = _ := recordedName_eq full
  rw [← dependencyNames_eq] at recorded
  unfold entry
  cases found : build.recorder dep with
  | none =>
    rw [found, Option.map_none] at recorded
    rw [movedName_of_none _ recorded, Option.getD_none]
  | some i =>
    rw [found, Option.map_some] at recorded
    rw [movedName_of_some _ recorded, Option.getD_some]
    rfl

/-- **The entries that are written.** -/
theorem resolved_eq {b : Nat} (inside : b < (compileLoop config env build.results).ldInfos.length) :
    (generateOutput config env build.results).resolved[b]? =
      some ((remaining build.results b).elems.map fun dep => (dep, entry config build b dep)) := by
  rw [resolved_at config env build.results inside, writtenAt_eq, List.map_prod_left_eq_zip]

theorem item_inside (config : OutputConfig) (env : OutputEnv) {b : Nat} {item : ParsedWorkItem}
    (listed : build.items[b]? = some item) :
    b < (compileLoop config env build.results).ldInfos.length := by
  have inside := (List.getElem?_eq_some_iff.mp listed).1
  exact infos_inside config env (length_ldResults ▸ inside)

theorem not_mem_directoryName {i : Nat} (inside : i < build.items.length) :
    '/' ∉ directoryName config build i := by
  have listed : (targetNames config build.results)[i]? = some (targetName build.items[i]) := by
    have insideNames : i < (filenames build.results.ldResults).length := by
      rwa [length_filenames, length_ldResults]
    rw [targetNames, List.getElem?_append_left insideNames, filenames, ldResults_eq, List.map_map,
      List.getElem?_map, List.getElem?_eq_getElem inside, Option.map_some]
    exact congrArg some (Path.filename_eq_self (not_mem_targetName _))
  rw [directoryName, numbered_of_getElem? listed, occurrence]
  split_ifs
  · exact not_mem_targetName _
  · rw [List.mem_append]
    rintro (member | member)
    · exact not_mem_targetName _ member
    · exact not_mem_numberSuffix (by decide) (by decide) member

/-- What is left of a name has no separators. -/
theorem not_mem_nameLeft {b i : Nat} {dep : Str} (recorded : build.recorder dep = some i) :
    '/' ∉ nameLeft config build b dep i := by
  unfold nameLeft
  split_ifs
  · exact List.not_mem_nil
  · exact not_mem_directoryName (List.findIdx?_eq_some_iff_findIdx_eq.mp recorded).1

/-- A name is an entry when it is left of a recorded one. -/
theorem name_mem_entries {b : Nat} {name : Str} (single : '/' ∉ name) :
    name ∈ (remaining build.results b).elems.map (entry config build b) ↔
      ∃ dep ∈ remaining build.results b, ∃ i, build.recorder dep = some i ∧
        nameLeft config build b dep i = name := by
  rw [List.mem_map]
  refine exists_congr fun dep => and_congr_right fun member => ?_
  unfold entry
  cases recorded : build.recorder dep with
  | none =>
    constructor
    · rintro rfl
      exact absurd (full_of_mem_remaining (OrderedSet.mem_def.mpr member)).mem single
    · rintro ⟨i, found, -⟩
      cases found
  | some i =>
    constructor
    · intro same
      exact ⟨i, rfl, same⟩
    · rintro ⟨j, found, same⟩
      cases found
      exact same

/-- A full path is an entry when it is a dependency without a recorded name. -/
theorem path_mem_entries {b : Nat} {path : Str} (full : IsFull path) :
    path ∈ (remaining build.results b).elems.map (entry config build b) ↔
      path ∈ remaining build.results b ∧ build.recorder path = none := by
  rw [List.mem_map]
  constructor
  · rintro ⟨dep, member, same⟩
    unfold entry at same
    cases recorded : build.recorder dep with
    | none =>
      rw [recorded] at same
      subst same
      exact ⟨member, recorded⟩
    | some i =>
      rw [recorded] at same
      exact absurd (same ▸ full.mem) (not_mem_nameLeft recorded)
  · rintro ⟨member, recorded⟩
    refine ⟨path, member, ?_⟩
    unfold entry
    rw [recorded]

/-- The entry of one path. -/
theorem pair_mem_entries {b : Nat} {path name : Str} :
    (path, name) ∈ (remaining build.results b).elems.map
        (fun dep => (dep, entry config build b dep)) ↔
      path ∈ remaining build.results b ∧ entry config build b path = name := by
  rw [List.mem_map]
  constructor
  · rintro ⟨dep, member, same⟩
    cases same
    exact ⟨member, rfl⟩
  · rintro ⟨member, rfl⟩
    exact ⟨path, member, rfl⟩

/-! ### Targets and dependencies -/

theorem map_snd_entries (b : Nat) :
    ((remaining build.results b).elems.map fun dep => (dep, entry config build b dep)).map
      Prod.snd = (remaining build.results b).elems.map (entry config build b) := by
  rw [List.map_map]
  rfl

theorem full_of_mem_sources {b : Nat} {item : ParsedWorkItem} (listed : build.items[b]? = some item)
    {path : Str} (source : path ∈ item.sources.map Prod.fst) : IsFull path := by
  obtain ⟨pair, member, rfl⟩ := List.mem_map.mp source
  exact build.sourcesFull item (List.mem_of_getElem? listed) pair member

/-- The file names of the targets, one by one. -/
theorem names_eq : build.names = filenames build.results.ldResults := by
  rw [filenames, ldResults_eq, List.map_map]
  exact List.map_congr_left fun item _ => (Path.filename_eq_self (not_mem_targetName item)).symm

theorem length_names : build.names.length = build.items.length := List.length_map _

theorem directoryName_eq {i : Nat} (inside : i < build.items.length) :
    directoryName config build i = numbered build.names i := by
  rw [directoryName, names_eq, numbered_targetNames (by rwa [length_ldResults])]

/-- Two items have one directory name only if their file names meet. -/
theorem directoryName_eq_iff {i c : Nat} (insideI : i < build.items.length)
    (insideC : c < build.items.length) :
    directoryName config build i = directoryName config build c ↔
      i = c ∨ Meets build.names i c ∨ Meets build.names c i := by
  rw [directoryName_eq insideI, directoryName_eq insideC]
  exact numbered_eq_iff (by rwa [length_names]) (by rwa [length_names])

/-- Only the first item without a file name has an empty directory name. -/
theorem directoryName_eq_nil {c : Nat} (inside : c < build.items.length) :
    directoryName config build c = [] ↔ build.names[c]? = some [] ∧ [] ∉ build.names.take c := by
  have listed : c < build.names.length := by rwa [length_names]
  have found : build.names[c]? = some build.names[c] := List.getElem?_eq_getElem listed
  rw [directoryName_eq inside, numbered_of_getElem? found, ← occurrence_zero [], occurrence_eq_iff,
    found, Option.some.injEq]
  constructor
  · rintro (⟨name, first⟩ | ⟨-, -, name⟩ | ⟨-, pos, -⟩)
    · rw [name] at first
      exact ⟨name, List.count_eq_zero.mp first⟩
    · exact absurd name.symm (List.append_ne_nil_of_right_ne_nil _ (List.cons_ne_nil _ _))
    · exact absurd pos (Nat.lt_irrefl 0)
  · rintro ⟨name, first⟩
    rw [name]
    exact Or.inl ⟨rfl, List.count_eq_zero.mpr first⟩

/-- What is left of the name of the first use is all of it. -/
theorem nameLeft_unused {b i : Nat} {dep : Str} (unused : build.Unused b dep) :
    nameLeft config build b dep i = directoryName config build i :=
  if_neg (unused_iff.mp unused)

theorem nameLeft_used {b i : Nat} {dep : Str} (used : ¬ build.Unused b dep) :
    nameLeft config build b dep i = [] :=
  if_pos (not_not.mp fun unused => used (unused_iff.mpr unused))

theorem inside_of_firstPutAt {i : Nat} {path : Str} (put : build.FirstPutAt i path) :
    i < build.items.length := by
  obtain ⟨⟨item, found, -⟩, -⟩ := put
  exact (List.getElem?_eq_some_iff.mp found).1

theorem resolved_of_targetsMet (met : TargetsMet build) : TargetsResolved config env build := by
  constructor
  · intro a b item other atA atB source
    obtain ⟨first, dependency, unused⟩ := met.met a b item other atA atB source
    have full := full_of_mem_sources atB source
    have recorded := (recorder_eq_some full).mpr first
    have inside : b < build.results.ldResults.length := by
      rw [length_ldResults]
      exact (List.getElem?_eq_some_iff.mp atB).1
    obtain ⟨properties, found, archived, text⟩ :=
      written_at config env build.results (infos_inside config env inside)
    refine ⟨_, properties, resolved_eq (item_inside config env atB), found, archived, ?_, ?_, ?_⟩
    · rw [map_snd_entries, ← writtenAt_eq]
      exact text
    · rw [map_snd_entries]
      exact (name_mem_entries (not_mem_directoryName (List.getElem?_eq_some_iff.mp atA).1)).mpr
        ⟨item.target, dependsOn_iff.mpr dependency, a, recorded, nameLeft_unused unused⟩
    · rw [map_snd_entries, path_mem_entries full]
      rintro ⟨-, missing⟩
      rw [recorded] at missing
      cases missing
  · intro a c item other atA atC differs entries member pair
    obtain ⟨b, found⟩ := List.getElem?_of_mem member
    have inside : b < (compileLoop config env build.results).ldInfos.length := by
      rw [← length_resolved]
      exact (List.getElem?_eq_some_iff.mp found).1
    rw [resolved_eq inside] at found
    cases found
    obtain ⟨dependency, same⟩ := pair_mem_entries.mp pair
    have insideC := (List.getElem?_eq_some_iff.mp atC).1
    have full : IsFull item.target := full_of_mem_remaining dependency
    have listed := List.mem_of_getElem? atA
    unfold entry at same
    cases recorded : build.recorder item.target with
    | none =>
      rw [recorded] at same
      replace same : item.target = directoryName config build c := same
      exact not_mem_directoryName insideC (same ▸ full.mem)
    | some i =>
      rw [recorded] at same
      have first := (recorder_eq_some full).mp recorded
      have depends := dependsOn_iff.mp dependency
      by_cases unused : build.Unused b item.target
      · -- the name of the item that is put at the target
        replace same : directoryName config build i = directoryName config build c :=
          (nameLeft_unused unused).symm.trans same
        rcases (directoryName_eq_iff (inside_of_firstPutAt first) insideC).mp same with
          rfl | meets | meets
        · exact differs (met.owned b i other item listed depends unused first atC).symm
        · exact (met.apart b i c other item listed depends unused first atC differs).1 meets
        · exact (met.apart b i c other item listed depends unused first atC differs).2 meets
      · replace same : directoryName config build c = [] := same.symm.trans (nameLeft_used unused)
        exact met.named b i c other item listed depends unused first atC differs
          ((directoryName_eq_nil insideC).mp same)

/-- A target is resolved to no directory of an item with another target. -/
theorem nameLeft_ne (resolved : TargetsResolved config env build) {b i c : Nat}
    {item other : ParsedWorkItem} (listed : item ∈ build.items)
    (depends : build.DependsOn b item.target) (first : build.FirstPutAt i item.target)
    (atC : build.items[c]? = some other) (differs : item.target ≠ other.target) :
    nameLeft config build b item.target i ≠ directoryName config build c := by
  intro same
  obtain ⟨a, atA⟩ := List.getElem?_of_mem listed
  have dependency := dependsOn_iff.mpr depends
  have recorded := (recorder_eq_some (full_of_mem_remaining dependency)).mpr first
  refine resolved.apart a c item other atA atC differs _
    (List.mem_of_getElem? (resolved_eq (infos_inside config env (lt_of_mem_remaining dependency))))
    (pair_mem_entries.mpr ⟨dependency, ?_⟩)
  unfold entry
  rw [recorded]
  exact same

/-- Items of one target that have one directory name are the same item. -/
theorem eq_of_target {i a : Nat} {put item : ParsedWorkItem} (atI : build.items[i]? = some put)
    (atA : build.items[a]? = some item) (nonempty : item.target ≠ [])
    (target : put.target = item.target)
    (same : directoryName config build i = directoryName config build a) : i = a := by
  have name : targetName put = targetName item := by
    unfold targetName linkTarget
    rw [target, if_neg fun both => nonempty both.1, if_neg fun both => nonempty both.1]
  have apart : ∀ {j c : Nat} {first second : ParsedWorkItem}, build.items[j]? = some first →
      build.items[c]? = some second → targetName first = targetName second →
        ¬ Meets build.names j c := by
    rintro j c first second atJ atC equal ⟨f, k, -, ⟨found, -⟩, found', -⟩
    rw [names, List.getElem?_map] at found found'
    rw [atJ] at found
    rw [atC] at found'
    cases found
    have repeated : targetName second = targetName first ++ numberSuffix k := Option.some.inj found'
    exact append_numberSuffix_ne _ k (repeated.symm.trans equal.symm)
  rcases (directoryName_eq_iff (List.getElem?_eq_some_iff.mp atI).1
    (List.getElem?_eq_some_iff.mp atA).1).mp same with here | meets | meets
  · exact here
  · exact absurd meets (apart atI atA name)
  · exact absurd meets (apart atA atI name.symm)

theorem directoryName_ne_nil (unmixed : Unmixed build) {c : Nat} {other : ParsedWorkItem}
    (atC : build.items[c]? = some other) : directoryName config build c ≠ [] := by
  intro empty
  have unnamed := ((directoryName_eq_nil (List.getElem?_eq_some_iff.mp atC).1).mp empty).1
  rw [names, List.getElem?_map, atC] at unnamed
  exact unmixed.named other (List.mem_of_getElem? atC) (Option.some.inj unnamed)

/-- An item that is listed under its directory name is put at its target. -/
theorem put_of_listed (unmixed : Unmixed build) (resolved : TargetsResolved config env build)
    {a b : Nat} {item other : ParsedWorkItem} (atA : build.items[a]? = some item)
    (atB : build.items[b]? = some other) (source : item.target ∈ other.sources.map Prod.fst) :
    build.FirstPutAt a item.target ∧ build.DependsOn b item.target ∧
      build.Unused b item.target := by
  obtain ⟨entries, properties, found, -, -, -, listed, -⟩ :=
    resolved.listed a b item other atA atB source
  rw [resolved_eq (item_inside config env atB)] at found
  cases found
  rw [map_snd_entries,
    name_mem_entries (not_mem_directoryName (List.getElem?_eq_some_iff.mp atA).1)] at listed
  obtain ⟨dep, dependency, i, recorded, left⟩ := listed
  have full := full_of_mem_remaining dependency
  have first := (recorder_eq_some full).mp recorded
  have depends := dependsOn_iff.mp dependency
  obtain ⟨made, makes, rfl⟩ := unmixed.targets b i dep depends first
  -- the dependency is the target itself: no other target is resolved to its directory
  have same : made.target = item.target :=
    not_not.mp fun differs => nameLeft_ne resolved makes depends first atA differs left
  rw [same] at left full first depends
  have unused : build.Unused b item.target := by
    by_contra used
    exact directoryName_ne_nil unmixed atA (left.symm.trans (nameLeft_used used))
  rw [nameLeft_unused unused] at left
  obtain ⟨⟨put, atI, -⟩, -⟩ := id first
  have target : put.target = item.target := by
    by_contra differs
    exact nameLeft_ne resolved (List.mem_of_getElem? atA) depends first atI (Ne.symm differs)
      (nameLeft_unused unused)
  have nonempty : item.target ≠ [] := by
    intro empty
    rw [empty] at full
    cases full
  obtain rfl := eq_of_target atI atA nonempty target left
  exact ⟨first, depends, unused⟩

theorem targetsMet_of_resolved (unmixed : Unmixed build)
    (resolved : TargetsResolved config env build) : TargetsMet build := by
  refine ⟨fun a b item other atA atB => put_of_listed unmixed resolved atA atB, ?_, ?_, ?_⟩
  · intro b i put item listed depends unused first atI
    by_contra differs
    exact nameLeft_ne resolved listed depends first atI (Ne.symm differs) (nameLeft_unused unused)
  · intro b i c other item listed depends unused first atC differs
    have apart := nameLeft_ne resolved listed depends first atC differs
    rw [nameLeft_unused unused] at apart
    have same := @directoryName_eq_iff config build i c (inside_of_firstPutAt first)
      (List.getElem?_eq_some_iff.mp atC).1
    exact ⟨fun meets => apart (same.mpr (Or.inr (Or.inl meets))),
      fun meets => apart (same.mpr (Or.inr (Or.inr meets)))⟩
  · intro b i c other item listed depends used first atC differs unnamed
    have inside := (List.getElem?_eq_some_iff.mp atC).1
    have empty : directoryName config build c = [] := (directoryName_eq_nil inside).mpr unnamed
    exact directoryName_ne_nil unmixed atC empty

/-- **Targets are resolved to the directories of their items when the object files put the items at
their targets**; and only then, when items are put at dependencies only if these are targets. -/
theorem targetsResolved_iff (config : OutputConfig) (env : OutputEnv) (build : LinkBuild) :
    (TargetsMet build → TargetsResolved config env build) ∧
      (Unmixed build → TargetsResolved config env build → TargetsMet build) :=
  ⟨resolved_of_targetsMet, targetsMet_of_resolved⟩

end LinkBuild

/-! ### A library in a directory of its own -/

/-- An archive of one object file, and a program that is linked with it. -/
def libraryBuild : LinkBuild where
  items := [
    { ParsedWorkItem.init with
      kind := .archive
      target := "/w/lib/libx.a".toList
      sources := [("/w/lib/foo.o".toList, .object)] },
    { ParsedWorkItem.init with
      kind := .link
      target := "/w/app".toList
      sources := [("/w/main.o".toList, .object), ("/w/lib/libx.a".toList, .library)] }]
  asResults := []
  ccResults := []
  sourcesFull := by decide
  asFull := by decide

/-- The program lists the raw path of the archive, which was recorded without its directory. -/
theorem target_directory_lost :
    ¬ ∀ (config : OutputConfig) (env : OutputEnv) (build : LinkBuild),
      LinkBuild.TargetsResolved config env build := by
  intro resolved
  obtain ⟨entries, properties, found, -, -, -, -, notRaw⟩ :=
    (resolved plainConfig plainEnv libraryBuild).listed 0 1 _ _ rfl rfl (by decide)
  rw [LinkBuild.resolved_eq (LinkBuild.item_inside plainConfig plainEnv
    (show libraryBuild.items[1]? = some _ from rfl))] at found
  cases found
  rw [LinkBuild.map_snd_entries, LinkBuild.path_mem_entries (by decide)] at notRaw
  exact notRaw (by decide)

end Xcalbuild.Processor
