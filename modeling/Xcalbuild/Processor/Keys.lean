/-
**The filter keys of the command line.**

`--fkey` and `--lkey` are lists of names, separated by semicolons: names to keep, or, after a first
entry `black`, names to drop. The first list is compared with the last component of the directory
of a work item, the second one with that of the target of a link result.

* `BuildProcessor.keys`: how the constructor reads such a string;
* `Drops`: what the string means, for a canonical absolute path;
* `filteredOut_iff`: the code has that verdict exactly when the string is `Honoured` on the path;
* `process_key`, `dispatch_key`: what the verdict does to a work item, and to its link results;
* **`keys_honoured_iff`**: both filters do what the string says exactly when it is honoured.
-/
import Xcalbuild.Library.Path
import Xcalbuild.Processor.Process

namespace Xcalbuild.Processor

open Library
open Profile (CursorFault Host ParsedWorkItem ToolProfile ToolchainProfile WorkItem parseWorkItem)

/-! ### What the constructor makes of a string -/

/-- The names of a filter string. -/
def keyNames (key : Str) : List Str := split (· = ';') key

/-- A filter key in the constructor of `BuildProcessor`: strings of one character are left out. -/
def BuildProcessor.keys (key : Str) : List Str :=
  if 1 < key.length then keyNames key else []

/-- The filters of a build processor, after the lists of files have been read. -/
def BuildProcessor.filters (fkey lkey : Str) (whitelistFiles blacklistFiles : List Str) :
    Filters where
  filterKey := BuildProcessor.keys fkey
  linkerKey := BuildProcessor.keys lkey
  whitelistFiles := whitelistFiles
  blacklistFiles := blacklistFiles

/-! ### What the string means -/

/-- The first name of a list of names to drop. -/
def blackMode : Str := "black".toList

/-- **The filter string drops a path**: the last component is one of the names after `black`, or
the first name is another one and the last component is none of the names. -/
def Drops (key : Str) (path : Path.Canonical) : Prop :=
  if (keyNames key).head? = some blackMode then
    ∃ name ∈ path.last?, name ∈ (keyNames key).tail
  else ∀ name ∈ path.last?, name ∉ keyNames key

instance (key : Str) (path : Path.Canonical) : Decidable (Drops key path) := by
  unfold Drops
  infer_instance

/-- **The code does what the filter string says.** -/
structure Honoured (key : Str) (path : Path.Canonical) : Prop where
  /-- A string of one character is the last component: nothing is dropped by it. -/
  short : key.length = 1 → ∃ name ∈ path.last?, name ∈ keyNames key
  /-- The root is not taken for a path whose last component is an empty name of the string. -/
  root : path.last? = none → [] ∉ keyNames key
  /-- The word `black` in front is not taken for a name to drop. -/
  mode : (keyNames key).head? = some blackMode → path.last? = some blackMode →
    blackMode ∈ (keyNames key).tail

/-! ### The verdict -/

section Verdict

variable {key : Str} {path : Path.Canonical}

theorem keyNames_eq_cons (key : Str) : ∃ first rest, keyNames key = first :: rest :=
  List.exists_cons_of_ne_nil (split_ne_nil _ key)

theorem filteredOut_black {names : List Str} {name : Str} :
    filteredOut (blackMode :: names) name = true ↔ name = blackMode ∨ name ∈ names := by
  have mode : (blackMode :: names).head? = some "black".toList := rfl
  rw [filteredOut, if_neg (List.cons_ne_nil _ _), if_pos mode, decide_eq_true_iff, List.mem_cons]

theorem filteredOut_white {first : Str} {names : List Str} {name : Str} (white : first ≠ blackMode) :
    filteredOut (first :: names) name = true ↔ name ∉ first :: names := by
  have mode : (first :: names).head? ≠ some "black".toList := fun same => white (Option.some.inj same)
  rw [filteredOut, if_neg (List.cons_ne_nil _ _), if_neg mode, decide_eq_true_iff]

/-- A string of one character is not read. -/
theorem keys_short (short : key.length = 1) : BuildProcessor.keys key = [] := by
  unfold BuildProcessor.keys
  rw [short]
  rfl

theorem keys_long (given : key ≠ []) (long : key.length ≠ 1) :
    BuildProcessor.keys key = keyNames key := by
  have nonempty := List.length_pos_of_ne_nil given
  unfold BuildProcessor.keys
  rw [if_pos (by omega)]

/-- The mode word is no string of one character. -/
theorem short_not_black (short : key.length = 1) : (keyNames key).head? ≠ some blackMode := by
  obtain ⟨c, rfl⟩ := List.length_eq_one_iff.mp short
  unfold keyNames split
  by_cases separator : c = ';'
  · rw [separator]
    decide
  · rw [List.splitOnP_eq_singleton (by simpa using separator)]
    intro same
    cases same

/-- With one character nothing is dropped, which is right for a component that is on the list. -/
theorem honoured_short (short : key.length = 1) : ¬ Drops key path ↔ Honoured key path := by
  unfold Drops
  rw [if_neg (short_not_black short)]
  push Not
  constructor
  · intro listed
    obtain ⟨name, last, member⟩ := listed
    refine ⟨fun _ => ⟨name, last, member⟩, fun root => ?_, fun black => ?_⟩
    · rw [root] at last
      cases last
    · exact absurd black (short_not_black short)
  · exact fun honoured => honoured.short short

/-- With names to drop, the root and the mode word are where the code may go wrong. -/
theorem honoured_black {names : List Str} (long : key.length ≠ 1)
    (parts : keyNames key = blackMode :: names) :
    (path.last?.getD [] = blackMode ∨ path.last?.getD [] ∈ names ↔ Drops key path) ↔
      Honoured key path := by
  have drops : Drops key path ↔ ∃ name ∈ path.last?, name ∈ names := by
    unfold Drops
    rw [parts, List.head?_cons, if_pos rfl, List.tail_cons]
  have honoured : Honoured key path ↔
      (path.last? = none → [] ∉ names) ∧ (path.last? = some blackMode → blackMode ∈ names) := by
    constructor
    · intro honoured
      refine ⟨fun root member => ?_, fun last => ?_⟩
      · exact honoured.root root (parts ▸ List.mem_cons_of_mem _ member)
      · simpa [parts] using honoured.mode (by simp [parts]) last
    · intro both
      refine ⟨fun short => absurd short long, fun root member => ?_, fun _ last => ?_⟩
      · rw [parts, List.mem_cons] at member
        exact member.elim (fun same => nomatch same) (both.1 root)
      · rw [parts, List.tail_cons]
        exact both.2 last
  rw [drops, honoured]
  cases last : path.last? with
  | none =>
    have noName : ¬ ([] : Str) = blackMode := fun same => nomatch same
    simp [noName]
  | some name =>
    by_cases black : name = blackMode
    · simp [black]
    · simp [black]

/-- With names to keep, the root is where the code may go wrong. -/
theorem honoured_white {first : Str} {names : List Str} (long : key.length ≠ 1)
    (parts : keyNames key = first :: names) (white : first ≠ blackMode) :
    (path.last?.getD [] ∉ first :: names ↔ Drops key path) ↔ Honoured key path := by
  have noMode : (keyNames key).head? ≠ some blackMode := by
    rw [parts, List.head?_cons]
    exact fun same => white (Option.some.inj same)
  have drops : Drops key path ↔ ∀ name ∈ path.last?, name ∉ first :: names := by
    unfold Drops
    rw [if_neg noMode, parts]
  have honoured : Honoured key path ↔ (path.last? = none → [] ∉ first :: names) := by
    constructor
    · intro honoured root
      exact parts ▸ honoured.root root
    · intro root
      exact ⟨fun short => absurd short long, parts ▸ root, fun mode => absurd mode noMode⟩
  rw [drops, honoured]
  cases last : path.last? with
  | none => simp
  | some name => simp

/-- **The verdict of the code is that of the filter string** exactly when the string is honoured. -/
theorem filteredOut_iff (given : key ≠ []) :
    (filteredOut (BuildProcessor.keys key) (afterLast '/' path.text) = true ↔ Drops key path) ↔
      Honoured key path := by
  rw [path.afterLast_text]
  by_cases short : key.length = 1
  · rw [keys_short short, ← honoured_short short]
    show (false = true ↔ _) ↔ _
    simp
  · rw [keys_long given short]
    obtain ⟨first, names, parts⟩ := keyNames_eq_cons key
    rw [parts]
    by_cases black : first = blackMode
    · rw [black] at parts ⊢
      rw [filteredOut_black]
      exact honoured_black short parts
    · rw [filteredOut_white black]
      exact honoured_white short parts black

end Verdict

/-! ### What the verdict does -/

/-- The path of the link result that an item may get. -/
def linkPath (machine : Machine) (parsed : ParsedWorkItem) : Str :=
  if parsed.kind = .compile then (withTarget machine parsed).target else parsed.target

/-- **The directory filter does what the string says**: items in a directory that it drops are left
alone, the others are processed as if there were no filter. -/
def DirectoryFilter (key : Str) (dir : Path.Canonical) : Prop :=
  ∀ (lkey : Str) (whitelistFiles blacklistFiles : List Str) (toolchain : ToolchainProfile)
    (machine : Machine) (item : WorkItem), item.directory = dir.text →
      process (BuildProcessor.filters key lkey whitelistFiles blacklistFiles) toolchain machine item =
        if Drops key dir then .ok .nothing
        else process (BuildProcessor.filters [] lkey whitelistFiles blacklistFiles)
          toolchain machine item

/-- **The linker filter does what the string says**: an item whose link result would be for a path
that it drops has no link result, and nothing else changes. -/
def LinkerFilter (key : Str) (target : Path.Canonical) : Prop :=
  ∀ (fkey : Str) (whitelistFiles blacklistFiles : List Str) (profile : ToolProfile)
    (machine : Machine) (parsed : ParsedWorkItem), linkPath machine parsed = target.text →
      dispatch (BuildProcessor.filters fkey key whitelistFiles blacklistFiles) profile machine
          parsed =
        if Drops key target then
          { dispatch (BuildProcessor.filters fkey [] whitelistFiles blacklistFiles) profile machine
            parsed with ldResults := [] }
        else dispatch (BuildProcessor.filters fkey [] whitelistFiles blacklistFiles) profile machine
          parsed

section Effect

variable {fkey lkey : Str} {whitelistFiles blacklistFiles : List Str} {toolchain : ToolchainProfile}
  {profile : ToolProfile} {machine : Machine} {item : WorkItem} {parsed : ParsedWorkItem}

/-- **Every work item is held against the directory filter.** -/
theorem process_key :
    process (BuildProcessor.filters fkey lkey whitelistFiles blacklistFiles) toolchain machine item =
      if filteredOut (BuildProcessor.keys fkey) (afterLast '/' item.directory) = true then
        .ok .nothing
      else process (BuildProcessor.filters [] lkey whitelistFiles blacklistFiles) toolchain machine
        item := by
  unfold process
  cases recognised : toolProfileOf toolchain item with
  | none => simp
  | some profile =>
    show (if filteredOut (BuildProcessor.keys fkey) (afterLast '/' item.directory) = true then _
      else _) = _
    by_cases dropped : filteredOut (BuildProcessor.keys fkey) (afterLast '/' item.directory) = true
    · rw [if_pos dropped, if_pos dropped]
    · rw [if_neg dropped, if_neg dropped]
      rfl

/-- An item with a target path is linked under its last component. -/
theorem handleLink_key {key : Str} {target : Path.Canonical} (path : parsed.target = target.text) :
    handleLink (BuildProcessor.keys key) parsed =
      if filteredOut (BuildProcessor.keys key) (afterLast '/' target.text) = true then none
      else handleLink (BuildProcessor.keys []) parsed := by
  have named : targetName parsed = afterLast '/' target.text := by
    rw [targetName, linkTarget, if_neg, path]
    rw [path]
    exact fun both => nomatch both.1
  rw [← named]
  rfl

/-- The pseudo link result of a compile item goes through the filter as well. -/
theorem handleCompile_key {key : Str} {target : Path.Canonical}
    (path : (withTarget machine parsed).target = target.text) :
    handleCompile (BuildProcessor.keys key) profile machine parsed =
      if filteredOut (BuildProcessor.keys key) (afterLast '/' target.text) = true then
        { handleCompile (BuildProcessor.keys []) profile machine parsed with ldResults := [] }
      else handleCompile (BuildProcessor.keys []) profile machine parsed := by
  rcases sourceLoop_cases profile machine parsed with
    ⟨state, inv, ends⟩ | ⟨done, source, rest, state, parts, inv, there, fails, ends⟩
  · have kept : state.parsed.target = target.text := by
      rw [inv.parsed, clearAll_eq]
      exact path
    unfold handleCompile
    rw [ends]
    dsimp only
    rw [@handleLink_key (pseudoLink state.parsed.target state.pseudoLinkSources) key target kept]
    by_cases dropped : filteredOut (BuildProcessor.keys key) (afterLast '/' target.text) = true
    · rw [if_pos dropped, if_pos dropped]
      simp [CompileState.outcome]
    · rw [if_neg dropped, if_neg dropped]
  · unfold handleCompile
    rw [ends]
    dsimp only
    simp [CompileState.outcome]

/-- A compile item whose first source is not filtered is handed on with its link results. -/
theorem dispatch_compile_key {target : Path.Canonical} (kind : parsed.kind = .compile)
    (path : (withTarget machine parsed).target = target.text) :
    dispatch (BuildProcessor.filters fkey lkey whitelistFiles blacklistFiles) profile machine
        parsed =
      if filteredOut (BuildProcessor.keys lkey) (afterLast '/' target.text) = true then
        { dispatch (BuildProcessor.filters fkey [] whitelistFiles blacklistFiles) profile machine
          parsed with ldResults := [] }
      else dispatch (BuildProcessor.filters fkey [] whitelistFiles blacklistFiles) profile machine
        parsed := by
  unfold dispatch
  rw [kind]
  cases sources : parsed.sources with
  | nil => simp [Outcome.nothing]
  | cons first rest =>
    have same : ∀ linker, (BuildProcessor.filters fkey linker whitelistFiles blacklistFiles).breaks
        first.1 = (BuildProcessor.filters fkey [] whitelistFiles blacklistFiles).breaks first.1 :=
      fun _ => rfl
    dsimp only
    rw [same lkey]
    by_cases breaks :
        (BuildProcessor.filters fkey [] whitelistFiles blacklistFiles).breaks first.1 = true
    · rw [if_pos breaks, if_pos breaks]
      simp [Outcome.nothing]
    · rw [if_neg breaks, if_neg breaks]
      show ({ handleCompile (BuildProcessor.keys lkey) profile machine parsed with
        asResults := []
        passed := first :: rest } : Outcome) = _
      rw [handleCompile_key path]
      by_cases dropped : filteredOut (BuildProcessor.keys lkey) (afterLast '/' target.text) = true
      · rw [if_pos dropped, if_pos dropped]
        rfl
      · rw [if_neg dropped, if_neg dropped]
        rfl

/-- **Every link result is held against the linker filter.** -/
theorem dispatch_key {target : Path.Canonical} (path : linkPath machine parsed = target.text) :
    dispatch (BuildProcessor.filters fkey lkey whitelistFiles blacklistFiles) profile machine
        parsed =
      if filteredOut (BuildProcessor.keys lkey) (afterLast '/' target.text) = true then
        { dispatch (BuildProcessor.filters fkey [] whitelistFiles blacklistFiles) profile machine
          parsed with ldResults := [] }
      else dispatch (BuildProcessor.filters fkey [] whitelistFiles blacklistFiles) profile machine
        parsed := by
  have linked (path : parsed.target = target.text) :
      ({ Outcome.nothing with
        ldResults := (handleLink (BuildProcessor.keys lkey) parsed).toList } : Outcome) =
        if filteredOut (BuildProcessor.keys lkey) (afterLast '/' target.text) = true then
          .nothing
        else { Outcome.nothing with ldResults := (handleLink (BuildProcessor.keys []) parsed).toList } := by
    rw [handleLink_key path]
    by_cases dropped : filteredOut (BuildProcessor.keys lkey) (afterLast '/' target.text) = true
    · rw [if_pos dropped, if_pos dropped]
      rfl
    · rw [if_neg dropped, if_neg dropped]
  unfold linkPath at path
  by_cases kind : parsed.kind = .compile
  · rw [if_pos kind] at path
    exact dispatch_compile_key kind path
  rw [if_neg kind] at path
  unfold dispatch
  cases other : parsed.kind with
  | compile => exact absurd other kind
  | ignore => simp [Outcome.nothing]
  | assemble =>
    cases sources : parsed.sources with
    | nil => simp [Outcome.nothing]
    | cons first rest => simp [Outcome.nothing]
  | archive =>
    cases sources : parsed.sources with
    | nil => simp [Outcome.nothing]
    | cons first rest => exact linked path
  | link =>
    cases sources : parsed.sources with
    | nil => simp [Outcome.nothing]
    | cons first rest => exact linked path

end Effect

/-! ### Both filters -/

section Honoured

variable {key : Str}

/-- Two verdicts that lead to different ends are the same when the ends are. -/
theorem ite_eq_ite_iff {α : Type} {p q : Prop} [Decidable p] [Decidable q] {a b : α}
    (differ : b ≠ a) : (if p then a else b) = (if q then a else b) ↔ (p ↔ q) := by
  by_cases left : p
  · by_cases right : q
    · simp [left, right]
    · simp [left, right, differ.symm]
  · by_cases right : q
    · simp [left, right, differ]
    · simp [left, right]

/-- A machine on which `gcc a.c` is compiled, whatever the directory is. -/
def compilingMachine : Machine :=
  { machineFailingFrom 1 with host := ⟨fun _ _ => "/a.c".toList, fun _ _ => none⟩ }

/-- `gcc a.c` in a directory. -/
def compileIn (dir : Path.Canonical) : WorkItem :=
  ⟨dir.text, ["gcc".toList, "a.c".toList], none⟩

/-- Without a filter the item is compiled. -/
theorem process_compileIn (dir : Path.Canonical) :
    process (BuildProcessor.filters [] [] [] []) gccToolchain compilingMachine (compileIn dir) ≠
      .ok .nothing := by
  intro nothing
  have passed := congrArg (Except.map Outcome.passed) nothing
  cases passed

theorem directoryFilter_iff {dir : Path.Canonical} (given : key ≠ []) :
    DirectoryFilter key dir ↔ Honoured key dir := by
  rw [← filteredOut_iff given]
  constructor
  · intro respected
    have here := respected [] [] [] gccToolchain compilingMachine (compileIn dir) rfl
    rw [process_key] at here
    exact (ite_eq_ite_iff (process_compileIn dir)).mp here
  · intro verdict lkey whitelistFiles blacklistFiles toolchain machine item inDir
    rw [process_key, inDir]
    exact if_congr verdict rfl rfl

/-- A link item for a target. -/
def linkOf (target : Path.Canonical) : ParsedWorkItem :=
  { ParsedWorkItem.init with kind := .link, target := target.text, sources := [([], .object)] }

theorem linkerFilter_iff {target : Path.Canonical} (given : key ≠ []) :
    LinkerFilter key target ↔ Honoured key target := by
  rw [← filteredOut_iff given]
  constructor
  · intro respected
    have here := respected [] [] [] bareProfile compilingMachine (linkOf target) rfl
    have path : linkPath compilingMachine (linkOf target) = target.text := rfl
    rw [dispatch_key path] at here
    refine (ite_eq_ite_iff fun same => ?_).mp here
    cases congrArg (fun outcome : Outcome => outcome.ldResults) same
  · intro verdict fkey whitelistFiles blacklistFiles profile machine parsed path
    rw [dispatch_key path]
    exact if_congr verdict rfl rfl

end Honoured

/-- **The filters do what the filter string says** exactly when the string is honoured on the path:
a string of one character is the last component, no empty name meets the root, and the mode word is
not the last component (or is among the names to drop itself). -/
theorem keys_honoured_iff (key : Str) (given : key ≠ []) (path : Path.Canonical) :
    (DirectoryFilter key path ↔ Honoured key path) ∧ (LinkerFilter key path ↔ Honoured key path) :=
  ⟨directoryFilter_iff given, linkerFilter_iff given⟩

/-- The directory `/work/lib`. -/
def libDirectory : Path.Canonical where
  names := ["work".toList, "lib".toList]
  plain := by decide

/-- **The string `a` drops nothing**, though it is to keep the items of directories named `a`. -/
theorem short_key_ignored :
    ¬ ∀ (key : Str) (_given : key ≠ []) (path : Path.Canonical),
      DirectoryFilter key path ∧ LinkerFilter key path := by
  intro respected
  have honoured := (directoryFilter_iff (List.cons_ne_nil _ _)).mp
    (respected "a".toList (List.cons_ne_nil _ _) libDirectory).1
  have verdict := (filteredOut_iff (List.cons_ne_nil _ _)).mpr honoured
  exact absurd verdict (by decide)

/-- The string `black;lib` is honoured on `/work/lib`, which it drops. -/
theorem black_key_honoured :
    Drops "black;lib".toList libDirectory ∧ Honoured "black;lib".toList libDirectory ∧
      (DirectoryFilter "black;lib".toList libDirectory ↔
        Honoured "black;lib".toList libDirectory) ∧
      (LinkerFilter "black;lib".toList libDirectory ↔
        Honoured "black;lib".toList libDirectory) := by
  have honoured : Honoured "black;lib".toList libDirectory :=
    ⟨fun short => absurd short (by decide), fun root => absurd root (by decide),
      fun _ last => absurd last (by decide)⟩
  exact ⟨by decide, honoured, keys_honoured_iff _ (List.cons_ne_nil _ _) libDirectory⟩

end Xcalbuild.Processor
