/-
**The dependencies that the property files list.**

The property loop replaces each dependency by the name recorded for its path. It moves the name out
of the map, so that the next link target with the same dependency finds an empty string.

* `renameDependencies_eq`: what the loop over the dependencies of one link info writes, and what it
  leaves in the map;
* `written_at`: the dependencies that are written for each link result (`movedName`);
* `dependenciesWritten_iff`: every link result lists the recorded names exactly when no dependency
  with a recorded, nonempty name is shared by two link results.
-/
import Mathlib.Algebra.Order.BigOperators.Group.List
import Mathlib.Algebra.Order.Group.Nat
import Xcalbuild.Build.Membership

namespace Xcalbuild.Build

open Library

/-- The sources of the link result at a position, after substitution, that are not the target of a
compile result, in sorted order. -/
def remaining (results : Results) (i : Nat) : OrderedSet Str :=
  match results.ldResults[i]? with
  | some ld => .ofList ((ld.sources.map (substitution results.asResults)).filter fun source =>
      decide (source ∉ results.ccResults.map CCResult.target))
  | none => .empty

/-- The dependencies with their recorded names. -/
def expectedDependencies (names : Str → Option Str) (results : Results) (i : Nat) : List Str :=
  (remaining results i).elems.map fun dep => (names dep).getD dep

/-- **Every link result lists its remaining sources under the names recorded for them**, in the
property file that is in the archive. -/
def DependenciesWritten (config : OutputConfig) (env : OutputEnv) (results : Results) : Prop :=
  ∀ i, i < results.ldResults.length →
    ∃ properties, (generateOutput config env results).properties[i]? = some properties ∧
      .file (propertyFileAt config results i) (.text (writeIni properties)) ∈
        (generateOutput config env results).archive ∧
      properties.lookup "dependencies".toList =
        some (join [' '] (expectedDependencies (linkLoop config results).dependencyNames results i))

/-- The name recorded for a path: the one of the first link result whose rebuilt target path it is. -/
def recordedName (config : OutputConfig) (results : Results) (path : Str) : Option Str :=
  ((results.ldResults.findIdx? fun ld => decide (targetPath ld = path)).map
      (numbered (targetNames config results))).or
    (if config.needProcessLinkUsingCompiler ∧ path = testLd then
      some (numbered (targetNames config results) results.ldResults.length) else none)

/-- No dependency with a recorded, nonempty name is shared by two link results. -/
def NamesUnshared (config : OutputConfig) (results : Results) : Prop :=
  ∀ i j, i < j → ∀ dep, dep ∈ remaining results i → dep ∈ remaining results j →
    ∀ name, recordedName config results dep = some name → name = []

/-! ### One link info -/

/-- The names that are left when the names of some dependencies have been moved out. -/
def movedName (names : Str → Option Str) (moved : Str → Prop) [DecidablePred moved] (dep : Str) :
    Option Str :=
  (names dep).map fun name => if moved dep then [] else name

theorem movedName_of_none {names : Str → Option Str} (moved : Str → Prop) [DecidablePred moved]
    {dep : Str} (found : names dep = none) : movedName names moved dep = none := by
  rw [movedName, found, Option.map_none]

theorem movedName_of_some {names : Str → Option Str} (moved : Str → Prop) [DecidablePred moved]
    {dep name : Str} (found : names dep = some name) :
    movedName names moved dep = some (if moved dep then [] else name) := by
  rw [movedName, found, Option.map_some]

/-- Names that were not moved are still there. -/
theorem movedName_of_not {names : Str → Option Str} (moved : Str → Prop) [DecidablePred moved]
    {dep : Str} (kept : ¬ moved dep) : movedName names moved dep = names dep := by
  cases found : names dep with
  | none => exact movedName_of_none moved found
  | some name => rw [movedName_of_some moved found, if_neg kept]

/-- Moving names out twice. -/
theorem movedName_movedName (names : Str → Option Str) (first second both : Str → Prop)
    [DecidablePred first] [DecidablePred second] [DecidablePred both]
    (either : ∀ dep, both dep ↔ first dep ∨ second dep) :
    movedName (movedName names first) second = movedName names both := by
  funext dep
  cases found : names dep with
  | none =>
    rw [movedName_of_none second (movedName_of_none first found), movedName_of_none both found]
  | some name =>
    rw [movedName_of_some second (movedName_of_some first found), movedName_of_some both found]
    by_cases isFirst : first dep <;> by_cases isSecond : second dep <;>
      simp [isFirst, isSecond, either]

theorem renameDependency_eq (written : List Str) (names : Str → Option Str) (dep : Str) :
    renameDependency (written, names) dep =
      (written ++ [(names dep).getD dep], movedName names (· = dep)) := by
  unfold renameDependency
  dsimp only
  cases found : names dep with
  | none =>
    refine Prod.ext rfl (funext fun other => ?_)
    by_cases same : other = dep
    · subst same
      exact found.trans (movedName_of_none (· = other) found).symm
    · exact (movedName_of_not (· = dep) same).symm
  | some name =>
    refine Prod.ext rfl (funext fun other => ?_)
    dsimp only
    by_cases same : other = dep
    · subst same
      rw [Function.update_self, movedName_of_some (· = other) found, if_pos rfl]
    · rw [Function.update_of_ne same, movedName_of_not (· = dep) same]

/-- **The loop over the dependencies of one link info.** Each of them is looked up once, so it gets
the name that is there, and the name is empty afterwards. -/
theorem renameDependencies_eq (deps : List Str) (nodup : deps.Nodup) (written : List Str)
    (names : Str → Option Str) :
    deps.foldl renameDependency (written, names) =
      (written ++ deps.map fun dep => (names dep).getD dep, movedName names (· ∈ deps)) := by
  induction deps generalizing written names with
  | nil =>
    refine Prod.ext (List.append_nil _).symm (funext fun dep => ?_)
    exact (movedName_of_not (· ∈ []) List.not_mem_nil).symm
  | cons dep rest ih =>
    have parts := List.nodup_cons.mp nodup
    have later : ∀ other ∈ rest, (movedName names (· = dep) other).getD other =
        (names other).getD other := by
      intro other member
      have differs : other ≠ dep := fun same => parts.1 (same ▸ member)
      rw [movedName_of_not (· = dep) differs]
    rw [List.foldl_cons, renameDependency_eq, ih parts.2, List.map_congr_left later,
      movedName_movedName names (· = dep) (· ∈ rest) (· ∈ dep :: rest) fun _ => List.mem_cons,
      List.append_assoc]
    rfl

/-! ### All link infos -/

section Loop

variable {config : OutputConfig} {env : OutputEnv} {results : Results}

/-- The dependencies of an info that occur before a position. -/
def movedBefore (infos : List LDInfo) (dep : Str) : Prop :=
  ∃ info ∈ infos, dep ∈ info.dependencies

instance (infos : List LDInfo) (dep : Str) : Decidable (movedBefore infos dep) :=
  inferInstanceAs (Decidable (∃ info ∈ infos, dep ∈ info.dependencies))

/-- The dependencies written for a link info after others. -/
def writtenDependencies (names : Str → Option Str) (before : List LDInfo) (info : LDInfo) :
    List Str :=
  info.dependencies.elems.map fun dep => (movedName names (movedBefore before) dep).getD dep

/-- What the property loop holds after the link infos `infos`. -/
structure PropertyInv (config : OutputConfig) (recorded : Str → Option Str) (infos : List LDInfo)
    (state : PropertyState) : Prop where
  names : state.dependencyNames = movedName recorded (movedBefore infos)
  count : state.properties.length = infos.length
  countResolved : state.resolved.length = infos.length
  resolved : ∀ (i : Nat) (info : LDInfo), infos[i]? = some info → state.resolved[i]? = some
    (info.dependencies.elems.zip (writtenDependencies recorded (infos.take i) info))
  written : ∀ (i : Nat) (info : LDInfo), infos[i]? = some info → state.properties[i]? = some
    (propertiesOf config info (writtenDependencies recorded (infos.take i) info))
  archived : ∀ (i : Nat) (info : LDInfo) (properties : List (Str × Str)), infos[i]? = some info →
    state.properties[i]? = some properties →
      .file (propertyPath info) (.text (writeIni properties)) ∈ state.archive

theorem propertyInv_init (config : OutputConfig) (names : Str → Option Str)
    (state : CompileState) : PropertyInv config names [] (state.toProperty names) where
  names := by
    funext dep
    have absent : ¬ movedBefore [] dep := fun ⟨info, member, _⟩ => nomatch member
    exact (movedName_of_not (movedBefore []) absent).symm
  count := rfl
  countResolved := rfl
  resolved i info found := by cases found
  written i info found := by cases found
  archived i info properties found := by cases found

/-- A list that grows by what another list, growing with it, has before and at each position. -/
theorem getElem?_concat_of_steps {α β : Type} {l : List α} {m : List β} (f : List α → α → β)
    (count : m.length = l.length)
    (steps : ∀ (i : Nat) (a : α), l[i]? = some a → m[i]? = some (f (l.take i) a)) (last : α) (i : Nat)
    (a : α) (found : (l ++ [last])[i]? = some a) :
    (m ++ [f l last])[i]? = some (f ((l ++ [last]).take i) a) := by
  rcases getElem?_concat_eq_some.mp found with found | ⟨rfl, rfl⟩
  · have inside := (List.getElem?_eq_some_iff.mp found).1
    rw [List.getElem?_append_left (by rwa [count]), steps i a found,
      List.take_append_of_le_length (Nat.le_of_lt inside)]
  · rw [List.take_left, ← count, List.getElem?_concat_length]

theorem propertyInv_step {names : Str → Option Str} {infos : List LDInfo} {state : PropertyState}
    (inv : PropertyInv config names infos state) (info : LDInfo) :
    PropertyInv config names (infos ++ [info]) (propertyStep config env state info) := by
  have rename := renameDependencies_eq info.dependencies.elems info.dependencies.nodup []
    state.dependencyNames
  have step : propertyStep config env state info =
      { dependencyNames := movedName state.dependencyNames (· ∈ info.dependencies.elems)
        resolved := state.resolved ++
          [info.dependencies.elems.zip (writtenDependencies names infos info)]
        properties := state.properties ++
          [propertiesOf config info (writtenDependencies names infos info)]
        archive := state.archive ++ [.file (propertyPath info) (.text (writeIni
          (propertiesOf config info (writtenDependencies names infos info))))]
        checksum := state.checksum ++ [⟨env.sha1 (writeIni
            (propertiesOf config info (writtenDependencies names infos info))),
          Path.append (ppTopPath config) (propertyPath info)⟩] } := by
    unfold propertyStep
    rw [rename, inv.names, List.nil_append]
    rfl
  rw [step]
  constructor
  · show movedName state.dependencyNames (· ∈ info.dependencies.elems) = _
    rw [inv.names]
    refine movedName_movedName names _ _ _ fun dep => ?_
    unfold movedBefore
    simp [OrderedSet.mem_def, or_and_right, exists_or]
  · show (state.properties ++ [_]).length = (infos ++ [info]).length
    rw [List.length_append, inv.count, List.length_append]
    rfl
  · show (state.resolved ++ [_]).length = (infos ++ [info]).length
    rw [List.length_append, inv.countResolved, List.length_append]
    rfl
  · exact getElem?_concat_of_steps
      (fun before info => info.dependencies.elems.zip (writtenDependencies names before info))
      inv.countResolved inv.resolved info
  · exact getElem?_concat_of_steps
      (fun before info => propertiesOf config info (writtenDependencies names before info))
      inv.count inv.written info
  · intro i other properties found written
    show _ ∈ state.archive ++ [_]
    rw [List.mem_append, List.mem_singleton]
    rcases getElem?_concat_eq_some.mp found with found | ⟨rfl, rfl⟩
    · have inside := (List.getElem?_eq_some_iff.mp found).1
      rw [List.getElem?_append_left (by rwa [inv.count])] at written
      exact Or.inl (inv.archived i other properties found written)
    · rw [← inv.count, List.getElem?_concat_length] at written
      cases written
      exact Or.inr rfl

theorem propertyInv_loop (config : OutputConfig) (env : OutputEnv) (results : Results) :
    PropertyInv config (linkLoop config results).dependencyNames
      (compileLoop config env results).ldInfos (propertyLoop config env results) := by
  have run : ∀ infos : List LDInfo, PropertyInv config (linkLoop config results).dependencyNames
      infos (infos.foldl (propertyStep config env) ((compileLoop config env results).toProperty
        (linkLoop config results).dependencyNames)) := by
    intro infos
    induction infos using List.reverseRecOn with
    | nil => exact propertyInv_init config _ _
    | append_singleton infos info ih =>
      rw [List.foldl_append]
      exact propertyInv_step ih info
  exact run _

/-! ### The written lists -/

theorem mem_remaining {i : Nat} {dep : Str} :
    dep ∈ remaining results i ↔
      dep ∈ linkSources results i ∧ dep ∉ results.ccResults.map CCResult.target := by
  unfold remaining linkSources
  cases results.ldResults[i]? with
  | none => simp
  | some ld =>
    have sources : actualSources (asTargetToSource results.asResults) ld =
        ld.sources.map (substitution results.asResults) :=
      List.map_congr_left fun source _ => actualSource_eq results.asResults source
    dsimp only
    rw [OrderedSet.mem_ofList, List.mem_filter, decide_eq_true_iff, sources]

theorem lt_of_mem_remaining {i : Nat} {dep : Str} (member : dep ∈ remaining results i) :
    i < results.ldResults.length := by
  by_contra outside
  have source := (mem_remaining.mp member).1
  rw [linkSources_eq_nil (by omega)] at source
  cases source

/-- The dependencies of a link info after the compile loop. -/
theorem dependencies_eq_remaining {i : Nat} {info : LDInfo}
    (found : (compileLoop config env results).ldInfos[i]? = some info) :
    info.dependencies = remaining results i := by
  refine OrderedSet.ext_mem fun dep => ?_
  rw [(compileInv_loop env config results).dependencies i info found dep, mem_remaining]

/-- A dependency is moved out before a position when an earlier link result has it. -/
theorem movedBefore_iff {i : Nat} {dep : Str}
    (inside : i ≤ (compileLoop config env results).ldInfos.length) :
    movedBefore ((compileLoop config env results).ldInfos.take i) dep ↔
      ∃ j < i, dep ∈ remaining results j := by
  constructor
  · rintro ⟨info, member, dependency⟩
    obtain ⟨j, listed⟩ := List.getElem?_of_mem member
    have before : j < i := by
      have := (List.getElem?_eq_some_iff.mp listed).1
      rw [List.length_take] at this
      omega
    rw [List.getElem?_take_of_lt before] at listed
    exact ⟨j, before, dependencies_eq_remaining listed ▸ dependency⟩
  · rintro ⟨j, before, member⟩
    have listed := List.getElem?_eq_getElem (Nat.lt_of_lt_of_le before inside)
    refine ⟨_, ?_, (dependencies_eq_remaining listed).symm ▸ member⟩
    refine List.mem_of_getElem? (i := j) ?_
    rw [List.getElem?_take_of_lt before, listed]

/-- The dependencies that are written for the link result at a position. -/
def writtenAt (config : OutputConfig) (results : Results) (i : Nat) : List Str :=
  (remaining results i).elems.map fun dep =>
    (movedName (linkLoop config results).dependencyNames
      (fun dep => ∃ j < i, dep ∈ remaining results j) dep).getD dep

theorem lookup_putProperty_self (key value : Str) (properties : List (Str × Str)) :
    (putProperty key value properties).lookup key = some value := by
  induction properties with
  | nil => simp [putProperty]
  | cons property rest ih =>
    obtain ⟨other, old⟩ := property
    unfold putProperty
    by_cases same : other = key
    · simp [same]
    · have differs : (key == other) = false := beq_eq_false_iff_ne.mpr (Ne.symm same)
      rw [if_neg same, List.lookup_cons, differs]
      exact ih

theorem lookup_putProperty_of_ne {key other value : Str} (differs : other ≠ key)
    (properties : List (Str × Str)) :
    (putProperty key value properties).lookup other = properties.lookup other := by
  have differs' : (other == key) = false := beq_eq_false_iff_ne.mpr differs
  induction properties with
  | nil => simp [putProperty, List.lookup_cons, differs']
  | cons property rest ih =>
    obtain ⟨name, old⟩ := property
    unfold putProperty
    by_cases same : name = key
    · subst same
      rw [if_pos rfl, List.lookup_cons, List.lookup_cons, differs']
    · rw [if_neg same, List.lookup_cons, List.lookup_cons, ih]

theorem lookup_propertiesOf (config : OutputConfig) (info : LDInfo) (dependencies : List Str) :
    (propertiesOf config info dependencies).lookup "dependencies".toList =
      some (join [' '] dependencies) := by
  rw [propertiesOf, lookup_putProperty_of_ne (by decide), lookup_putProperty_of_ne (by decide),
    lookup_putProperty_self]

theorem writtenDependencies_eq_writtenAt {i : Nat} {info : LDInfo}
    (found : (compileLoop config env results).ldInfos[i]? = some info) :
    writtenDependencies (linkLoop config results).dependencyNames
        ((compileLoop config env results).ldInfos.take i) info = writtenAt config results i := by
  have inside := (List.getElem?_eq_some_iff.mp found).1
  rw [writtenDependencies, writtenAt, dependencies_eq_remaining found]
  refine List.map_congr_left fun dep _ => ?_
  unfold movedName
  cases (linkLoop config results).dependencyNames dep with
  | none => rfl
  | some name =>
    have moved := @movedBefore_iff config env results i dep (Nat.le_of_lt inside)
    simp only [Option.map_some, Option.getD_some, moved]

theorem infos_inside (config : OutputConfig) (env : OutputEnv) {results : Results} {i : Nat}
    (inside : i < results.ldResults.length) :
    i < (compileLoop config env results).ldInfos.length := by
  rw [(compileInv_loop env config results).laidOut.length, targetNames, List.length_append,
    length_filenames]
  omega

/-- **What is written for a link info.** -/
theorem written_at (config : OutputConfig) (env : OutputEnv) (results : Results) {i : Nat}
    (inside : i < (compileLoop config env results).ldInfos.length) :
    ∃ properties, (generateOutput config env results).properties[i]? = some properties ∧
      .file (propertyFileAt config results i) (.text (writeIni properties)) ∈
        (generateOutput config env results).archive ∧
      properties.lookup "dependencies".toList = some (join [' '] (writtenAt config results i)) := by
  have inv := propertyInv_loop config env results
  have laidOut := (compileInv_loop env config results).laidOut
  have insideNames : i < (targetNames config results).length := laidOut.length ▸ inside
  have found := List.getElem?_eq_getElem inside
  have path : propertyPath (compileLoop config env results).ldInfos[i] =
      propertyFileAt config results i := by
    have position := congrArg (·[i]?) (map_propertyPath laidOut)
    simpa [found, insideNames] using position
  have written := inv.written i _ found
  have archived := inv.archived i _ _ found written
  rw [path] at archived
  refine ⟨_, written, List.mem_append_left _ archived, ?_⟩
  rw [lookup_propertiesOf, writtenDependencies_eq_writtenAt found]

/-- The entries of a link info, next to the dependencies they stand for. -/
theorem resolved_at (config : OutputConfig) (env : OutputEnv) (results : Results) {i : Nat}
    (inside : i < (compileLoop config env results).ldInfos.length) :
    (generateOutput config env results).resolved[i]? =
      some ((remaining results i).elems.zip (writtenAt config results i)) := by
  have found := List.getElem?_eq_getElem inside
  rw [← dependencies_eq_remaining found, ← writtenDependencies_eq_writtenAt found]
  exact (propertyInv_loop config env results).resolved i _ found

theorem length_resolved (config : OutputConfig) (env : OutputEnv) (results : Results) :
    (generateOutput config env results).resolved.length =
      (compileLoop config env results).ldInfos.length :=
  (propertyInv_loop config env results).countResolved

/-! ### Recorded names -/

theorem dependencyNames_eq (config : OutputConfig) (results : Results) (path : Str) :
    (linkLoop config results).dependencyNames path = recordedName config results path :=
  (layout config results).names path

/-- One of the lists is a copy of the other with some strings emptied: their texts are the same
only if nothing was emptied. -/
theorem join_eq_join_iff {l : List Str} {f g : Str → Str}
    (emptied : ∀ s ∈ l, f s = [] ∨ f s = g s) :
    join [' '] (l.map f) = join [' '] (l.map g) ↔ ∀ s ∈ l, f s = g s := by
  constructor
  · intro same s member
    by_contra differs
    have shorter : ∀ s ∈ l, (f s).length ≤ (g s).length := by
      intro s member
      rcases emptied s member with empty | same
      · rw [empty]
        exact Nat.zero_le _
      · rw [same]
    have strictly : (f s).length < (g s).length := by
      rcases emptied s member with empty | same
      · rw [empty] at differs ⊢
        exact List.length_pos_iff.mpr fun absent => differs absent.symm
      · exact absurd same differs
    have less := List.sum_lt_sum (fun s => (f s).length) (fun s => (g s).length) shorter
      ⟨s, member, strictly⟩
    have lengths := congrArg List.length same
    rw [length_join, length_join, List.length_flatten, List.length_flatten, List.map_map,
      List.map_map, List.length_map, List.length_map] at lengths
    have sums : (l.map fun s => (f s).length).sum = (l.map fun s => (g s).length).sum :=
      Nat.add_right_cancel lengths
    omega
  · intro same
    rw [List.map_congr_left same]

/-- A link result gets the recorded names exactly when no earlier one moved a nonempty one out. -/
theorem written_eq_expected_iff (config : OutputConfig) (results : Results) (i : Nat) :
    join [' '] (writtenAt config results i) =
        join [' '] (expectedDependencies (linkLoop config results).dependencyNames results i) ↔
      ∀ j < i, ∀ dep, dep ∈ remaining results j → dep ∈ remaining results i →
        ∀ name, recordedName config results dep = some name → name = [] := by
  have emptied : ∀ dep ∈ (remaining results i).elems,
      (movedName (linkLoop config results).dependencyNames
          (fun dep => ∃ j < i, dep ∈ remaining results j) dep).getD dep = [] ∨
        (movedName (linkLoop config results).dependencyNames
          (fun dep => ∃ j < i, dep ∈ remaining results j) dep).getD dep =
            ((linkLoop config results).dependencyNames dep).getD dep := by
    intro dep _
    cases found : (linkLoop config results).dependencyNames dep with
    | none => exact Or.inr (by rw [movedName_of_none _ found])
    | some name =>
      rw [movedName_of_some _ found, Option.getD_some]
      split_ifs
      · exact Or.inl rfl
      · exact Or.inr rfl
  rw [writtenAt, expectedDependencies, join_eq_join_iff emptied]
  constructor
  · intro same j before dep earlier now name recorded
    have here := same dep now
    rw [← dependencyNames_eq] at recorded
    rw [movedName_of_some _ recorded, recorded, Option.getD_some, Option.getD_some,
      if_pos ⟨j, before, earlier⟩] at here
    exact here.symm
  · intro unshared dep now
    by_cases moved : ∃ j < i, dep ∈ remaining results j
    · cases found : (linkLoop config results).dependencyNames dep with
      | none => rw [movedName_of_none _ found]
      | some name =>
        obtain ⟨j, before, earlier⟩ := moved
        rw [movedName_of_some _ found, if_pos ⟨j, before, earlier⟩]
        rw [dependencyNames_eq] at found
        rw [unshared j before dep earlier now name found]
    · rw [movedName_of_not (fun dep => ∃ j < i, dep ∈ remaining results j) moved]

theorem namesUnshared_of_written (written : DependenciesWritten config env results) :
    NamesUnshared config results := by
  intro j i before dep earlier now
  obtain ⟨properties, found, -, expected⟩ := written i (lt_of_mem_remaining now)
  obtain ⟨properties', found', -, actual⟩ :=
    written_at config env results (infos_inside config env (lt_of_mem_remaining now))
  rw [found] at found'
  cases found'
  rw [expected, Option.some.injEq] at actual
  exact (written_eq_expected_iff config results i).mp actual.symm j before dep earlier now

theorem written_of_namesUnshared (unshared : NamesUnshared config results) :
    DependenciesWritten config env results := by
  intro i inside
  obtain ⟨properties, found, archived, actual⟩ :=
    written_at config env results (infos_inside config env inside)
  refine ⟨properties, found, archived, ?_⟩
  rw [actual, (written_eq_expected_iff config results i).mpr fun j before =>
    unshared j i before]

/-- **Every link result lists its dependencies under their recorded names exactly when no
dependency with a recorded, nonempty name is shared by two link results.** -/
theorem dependenciesWritten_iff (config : OutputConfig) (env : OutputEnv) (results : Results) :
    DependenciesWritten config env results ↔ NamesUnshared config results :=
  ⟨namesUnshared_of_written, written_of_namesUnshared⟩

end Loop

/-! ### A shared library -/

/-- An archive and two programs that are linked with it. -/
def sharedLibrary : Results where
  asResults := []
  ldResults := [⟨"/w/lib.a".toList, ["/w/a.o".toList]⟩, ⟨"/w/p".toList, ["/w/lib.a".toList]⟩,
    ⟨"/w/q".toList, ["/w/lib.a".toList]⟩]
  ccResults := []

/-- The second program has an empty name in place of `lib.a`. -/
theorem shared_name_lost :
    ¬ ∀ (config : OutputConfig) (env : OutputEnv) (results : Results),
      DependenciesWritten config env results := by
  intro written
  have empty := namesUnshared_of_written (written plainConfig plainEnv sharedLibrary) 1 2
    (by decide) "/w/lib.a".toList (by decide) (by decide) "lib.a".toList (by decide)
  exact absurd empty (by decide)

end Xcalbuild.Build
