/-
**The traced binaries and the lookup of their tool profiles.**

The unix tracer gets the aliases of a toolchain profile as one argument, joined with commas, and
records the commands whose base name is one of the parts; without an alias it keeps a list of its own.
`get_tool_profile` looks a command up by its file name without extension.

* `accepted_iff`: the base names that the tracer accepts, as parts of aliases (`Accepts`);
* `LookedUp`: the base name of an `argv[0]`, and the name that it is looked up under, by its form;
* `recognised_iff`: a command that the tracer accepts gets the tool profile of its base name exactly
  when both names are aliases and one tool is the last with either (`Safe`).
-/
import Xcalbuild.Library.Directory
import Xcalbuild.Profile.Aliases
import Xcalbuild.Tracer.Output

namespace Xcalbuild.Tracer

open Library
open Profile (Address LastWith LoadEnv ToolchainProfile WorkItem allAliases keys_eq
  mem_allAliases_iff sameTool_iff toolAliases)

/-! ### The list of the compilers -/

/-- The loop of `bear_strings_unfold`, `start` being what was read since the last separator. -/
def unfoldFrom (separator : Char) (start : Str) : Str → List Str
  | [] => if start ≠ [] then [start] else []
  | c :: rest =>
      if c = separator then start :: unfoldFrom separator [] rest
      else unfoldFrom separator (start ++ [c]) rest

/-- `bear_strings_unfold` -/
def stringsUnfold (input : Str) (separator : Char) : List Str := unfoldFrom separator [] input

/-- `DEFAULT_COMPILERS` -/
def defaultCompilers : Str :=
  ("ar,cc,ld,gcc,llvm-gcc,clang,c++,g++,llvm-g++,clang++,arm-none-eabi-gcc," ++
    "arm-none-eabi-g++").toList

/-- The value of the option `-c`, which `trace_with_bear` only passes on if there are aliases. -/
def compilersArgument (profile : ToolchainProfile) : Option Str :=
  if profile.binaries.keys = [] then none else some (cStr (join [','] profile.binaries.keys))

/-- The compilers that the tracer is set to. -/
def compilersOf (profile : ToolchainProfile) : List Str :=
  stringsUnfold ((compilersArgument profile).getD defaultCompilers) ','

/-- Only an empty part is lost when a list is unfolded. -/
theorem mem_unfoldFrom {separator : Char} {part : Str} (nonempty : part ≠ []) (start s : Str) :
    part ∈ unfoldFrom separator start s ↔
      part ∈ (split (· = separator) s).modifyHead (start ++ ·) := by
  induction s generalizing start with
  | nil =>
    show part ∈ (if start ≠ [] then [start] else []) ↔ part ∈ [start ++ []]
    rw [List.append_nil, List.mem_singleton]
    by_cases empty : start = []
    · rw [if_neg (not_not_intro empty)]
      exact iff_of_false List.not_mem_nil fun same => nonempty (same.trans empty)
    · rw [if_pos empty, List.mem_singleton]
  | cons c rest ih =>
    rw [unfoldFrom, split, List.splitOnP_cons_eq_if_modifyHead, ← split]
    by_cases isSeparator : c = separator
    · rw [if_pos isSeparator, if_pos (decide_eq_true isSeparator), List.modifyHead_cons,
        List.append_nil, List.mem_cons, List.mem_cons, ih]
      obtain ⟨first, others, tokens⟩ :=
        List.exists_cons_of_ne_nil (split_ne_nil (· = separator) rest)
      rw [tokens]
      rfl
    · rw [if_neg isSeparator, if_neg (by simpa using isSeparator), ih]
      obtain ⟨first, others, tokens⟩ :=
        List.exists_cons_of_ne_nil (split_ne_nil (· = separator) rest)
      rw [tokens]
      simp only [List.modifyHead_cons, List.append_assoc, List.singleton_append]

theorem mem_stringsUnfold {input part : Str} {separator : Char} (nonempty : part ≠ []) :
    part ∈ stringsUnfold input separator ↔ part ∈ split (· = separator) input := by
  rw [stringsUnfold, mem_unfoldFrom nonempty]
  obtain ⟨first, others, tokens⟩ := List.exists_cons_of_ne_nil (split_ne_nil (· = separator) input)
  rw [tokens]
  rfl

theorem basename_ne_nil (path : Str) : basename path ≠ [] := by
  unfold basename
  by_cases empty : path = []
  · rw [if_pos empty]
    exact List.cons_ne_nil _ _
  · rw [if_neg empty]
    dsimp only
    by_cases root : path.rdropWhile (· = '/') = []
    · rw [if_pos root]
      exact List.cons_ne_nil _ _
    · rw [if_neg root]
      have notSlash : (path.rdropWhile (· = '/')).getLast root ≠ '/' := by
        simpa using List.rdropWhile_last_not (fun c => decide (c = '/')) path root
      rw [← List.dropLast_append_getLast root, afterLast_append_of_notMem _ (by
        simpa using notSlash.symm)]
      exact List.append_ne_nil_of_right_ne_nil _ (List.cons_ne_nil _ _)

/-- The base names that the tracer accepts: the parts between the commas of the aliases, or the
default compilers if there are no aliases. -/
def Accepts (aliases : List Str) (name : Str) : Prop :=
  if aliases = [] then name ∈ split (· = ',') defaultCompilers
  else name ∈ split (· = ',') (cStr (join [','] aliases))

/-- **The tracer accepts a command by its base name.** -/
theorem accepted_iff (profile : ToolchainProfile) (argv0 : Str) :
    isKnownCompiler (compilersOf profile) argv0 = true ↔
      Accepts profile.binaries.keys (basename argv0) := by
  rw [isKnownCompiler, stringsFind, decide_eq_true_iff, compilersOf,
    mem_stringsUnfold (basename_ne_nil argv0), Accepts, compilersArgument]
  by_cases empty : profile.binaries.keys = []
  · rw [if_pos empty, if_pos empty, Option.getD_none]
  · rw [if_neg empty, if_neg empty, Option.getD_some]

/-- Without commas and NULs in the aliases, the parts are the aliases. -/
theorem accepted_iff_alias {profile : ToolchainProfile} (argv0 : Str)
    (aliased : profile.binaries.keys ≠ [])
    (plain : ∀ binary ∈ profile.binaries.keys, ',' ∉ binary ∧ '\x00' ∉ binary) :
    isKnownCompiler (compilersOf profile) argv0 = true ↔
      basename argv0 ∈ profile.binaries.keys := by
  have noNul : '\x00' ∉ join [','] profile.binaries.keys := by
    intro member
    rcases mem_join member with comma | ⟨binary, inside, nul⟩
    · exact absurd comma (by decide)
    · exact (plain binary inside).2 nul
  have whole : cStr (join [','] profile.binaries.keys) = join [','] profile.binaries.keys := by
    refine List.takeWhile_eq_self_iff.mpr fun c member => decide_eq_true ?_
    rintro rfl
    exact noNul member
  have single : ∀ binary ∈ profile.binaries.keys, split (· = ',') binary = [binary] := by
    intro binary member
    refine List.splitOnP_eq_singleton fun c inside => decide_eq_false ?_
    rintro rfl
    exact (plain binary member).1 inside
  rw [accepted_iff, Accepts, if_neg aliased, whole, split_join ',' aliased, List.mem_flatMap]
  constructor
  · rintro ⟨binary, member, part⟩
    rw [single binary member, List.mem_singleton] at part
    exact part ▸ member
  · exact fun member => ⟨_, member, by rw [single _ member]; exact List.mem_cons_self⟩

/-! ### The lookup -/

/-- The name that a command is looked up by. -/
def lookedUpName (argv0 : Str) : Str := Path.replaceExtension (Path.filename argv0) []

/-- A file name without its extension, which the names of the two dots do not have. -/
inductive Stem : Str → Str → Prop
  | whole {name : Str} (plain : '.' ∈ name → name = ['.'] ∨ name = ['.', '.']) : Stem name name
  | cut {stem ext : Str} (last : '.' ∉ ext) (name : stem ++ '.' :: ext ≠ ['.'])
      (name' : stem ++ '.' :: ext ≠ ['.', '.']) : Stem (stem ++ '.' :: ext) stem

/-- What stands before the last component of a path. -/
def Folder (dir : Str) : Prop := dir = [] ∨ dir.getLast? = some '/'

/-- A component of a path. -/
def Component (name : Str) : Prop := name ≠ [] ∧ '/' ∉ name

/-- **The forms of an `argv[0]`**, each with the base name, and the name it is looked up under: of a
file, of a network name, and of what only has separators after its last component. -/
inductive LookedUp : Str → Str → Str → Prop
  | file {dir name stem : Str} (folder : Folder dir) (notNetwork : dir ≠ ['/', '/'])
      (component : Component name) (cut : Stem name stem) : LookedUp (dir ++ name) name stem
  | network {name stem : Str} (component : Component name) (cut : Stem ('/' :: '/' :: name) stem) :
      LookedUp ('/' :: '/' :: name) name stem
  | folder {dir name slashes : Str} (folder : Folder dir) (notNetwork : dir ≠ ['/', '/'])
      (component : Component name) (only : ∀ c ∈ slashes, c = '/') :
      LookedUp (dir ++ name ++ '/' :: slashes) name ['.']
  | networkFolder {name slashes : Str} (component : Component name)
      (only : ∀ c ∈ slashes, c = '/') : LookedUp ('/' :: '/' :: name ++ '/' :: slashes) name ['/']
  | root {slashes : Str} (only : ∀ c ∈ slashes, c = '/') (notTwo : slashes ≠ ['/']) :
      LookedUp ('/' :: slashes) ['/'] ['/']
  | twoSlashes : LookedUp ['/', '/'] ['/'] ['/', '/']
  | empty : LookedUp [] ['.'] []

/-! ### The forms are all there are -/

/-- A name is cut at its last dot. -/
theorem stem_iff {name stem : Str} : Stem name stem ↔ stem = (Path.splitExtension name).1 := by
  unfold Path.splitExtension
  constructor
  · rintro (plain | ⟨last, notDot, notDots⟩)
    · rw [if_pos]
      by_cases dot : '.' ∈ name
      · rcases plain dot with here | up
        · exact Or.inl here
        · exact Or.inr (Or.inl up)
      · exact Or.inr (Or.inr dot)
    · rw [if_neg, afterLast_append _ last]
      · dsimp only
        rw [List.length_append, List.length_cons, List.take_left' (by omega)]
      · rintro (here | up | absent)
        · exact notDot here
        · exact notDots up
        · exact absent (by simp)
  · rintro rfl
    split_ifs with plain
    · refine .whole fun dot => ?_
      rcases plain with here | up | absent
      · exact Or.inl here
      · exact Or.inr up
      · exact absurd dot absent
    · push Not at plain
      obtain ⟨notDot, notDots, dot⟩ := plain
      obtain ⟨front, parts⟩ := exists_eq_afterLast dot
      have cut : name.take (name.length - (afterLast '.' name).length - 1) = front := by
        have size : name.length = front.length + ((afterLast '.' name).length + 1) := by
          conv_lhs => rw [parts]
          rw [List.length_append, List.length_cons]
        conv_lhs => rw [parts]
        exact List.take_left' (by rw [← parts]; omega)
      rw [cut]
      have made : Stem (front ++ '.' :: afterLast '.' name) front :=
        .cut (not_mem_afterLast '.' name) (parts ▸ notDot) (parts ▸ notDots)
      rwa [← parts] at made

/-- A file name that is its own file name is looked up under its stem. -/
theorem replaceExtension_nil {q : Path} (own : Path.filename q = q) :
    Path.replaceExtension q [] = (Path.splitExtension q).1 := by
  unfold Path.replaceExtension Path.extension
  rw [own]
  unfold Path.splitExtension
  split_ifs
  · exact List.take_length
  · dsimp only
    rw [List.length_cons, Nat.sub_sub]

theorem isNetworkName_iff {p : Path} :
    Path.isNetworkName p = true ↔ ∃ name, p = '/' :: '/' :: name ∧ Component name := by
  unfold Path.isNetworkName Component
  constructor
  · split
    · next name =>
      intro net
      exact ⟨name, rfl, by simpa using net⟩
    · intro net
      cases net
  · rintro ⟨name, rfl, component⟩
    simpa using component

/-- What a component and separators after it leave before the separators. -/
theorem rdropWhile_component {dir name : Str} (component : Component name) {slashes : Str}
    (only : ∀ c ∈ slashes, c = '/') :
    (dir ++ name ++ slashes).rdropWhile (fun c => decide (c = '/')) = dir ++ name := by
  induction slashes using List.reverseRecOn with
  | nil =>
    rw [List.append_nil, List.rdropWhile_eq_self_iff]
    intro nonempty slash
    rw [List.getLast_append_of_ne_nil _ component.1] at slash
    exact component.2 (of_decide_eq_true slash ▸ List.getLast_mem component.1)
  | append_singleton slashes last ih =>
    have slash : last = '/' := only last (by simp)
    subst slash
    rw [← List.append_assoc, List.rdropWhile_concat_pos (fun c => decide (c = '/')) _ _ rfl]
    exact ih fun c member => only c (List.mem_append_left _ member)

theorem rdropWhile_slashes {slashes : Str} (only : ∀ c ∈ slashes, c = '/') :
    slashes.rdropWhile (fun c => decide (c = '/')) = [] := by
  rw [List.rdropWhile_eq_nil_iff]
  exact fun c member => decide_eq_true (only c member)

theorem afterLast_component {dir name : Str} (folder : Folder dir) (component : Component name) :
    afterLast '/' (dir ++ name) = name := by
  rcases folder with rfl | slash
  · exact afterLast_eq_self component.2
  · obtain ⟨front, rfl⟩ := List.getLast?_eq_some_iff.mp slash
    rw [List.append_assoc, List.singleton_append]
    exact afterLast_append front component.2

theorem isNetworkName_component {dir name : Str} (folder : Folder dir)
    (notNetwork : dir ≠ ['/', '/']) (component : Component name) :
    Path.isNetworkName (dir ++ name) = false := by
  rw [← Bool.not_eq_true, isNetworkName_iff]
  rintro ⟨other, same, component'⟩
  have parts : '/' :: '/' :: other = ['/', '/'] ++ other := rfl
  have last : other = name := by
    rw [← afterLast_component (Or.inr rfl : Folder ['/', '/']) component', ← parts, ← same,
      afterLast_component folder component]
  rw [parts, last] at same
  exact notNetwork (List.append_cancel_right same)

/-- The base name of a component, with separators after it or not. -/
theorem basename_component {dir name : Str} (folder : Folder dir) (component : Component name)
    {slashes : Str} (only : ∀ c ∈ slashes, c = '/') : basename (dir ++ name ++ slashes) = name := by
  have nonempty : dir ++ name ≠ [] := List.append_ne_nil_of_right_ne_nil _ component.1
  unfold basename
  rw [if_neg (List.append_ne_nil_of_left_ne_nil nonempty _)]
  dsimp only
  rw [rdropWhile_component component only, if_neg nonempty, afterLast_component folder component]

theorem getLast?_component {dir name : Str} (component : Component name) :
    (dir ++ name).getLast? ≠ some '/' := by
  rw [List.getLast?_append_of_ne_nil _ component.1]
  exact Path.getLast?_ne_of_notMem component.2

theorem getLast?_slashes (front : Str) {slashes : Str} (only : ∀ c ∈ slashes, c = '/') :
    (front ++ '/' :: slashes).getLast? = some '/' := by
  rw [List.getLast?_append_of_ne_nil _ (List.cons_ne_nil _ _)]
  have member := List.getLast_mem (List.cons_ne_nil '/' slashes)
  rw [List.getLast?_eq_getLast_of_ne_nil (List.cons_ne_nil _ _)]
  rcases List.mem_cons.mp member with slash | member
  · rw [slash]
  · rw [only _ member]

/-- The file name of what has separators after its last component. -/
theorem filename_slashes {dir name : Str} (component : Component name) {slashes : Str}
    (only : ∀ c ∈ slashes, c = '/') :
    Path.filename (dir ++ name ++ '/' :: slashes) =
      if Path.isNetworkName (dir ++ name) then ['/'] else ['.'] := by
  have nonempty : dir ++ name ≠ [] := List.append_ne_nil_of_right_ne_nil _ component.1
  have notTwo : dir ++ name ++ '/' :: slashes ≠ ['/', '/'] := by
    intro same
    obtain ⟨c, member⟩ := List.exists_mem_of_ne_nil name component.1
    have inside : c ∈ ['/', '/'] := by
      rw [← same]
      simp [member]
    have slash : c = '/' := by simpa using inside
    exact component.2 (slash ▸ member)
  unfold Path.filename
  rw [if_pos (getLast?_slashes _ only), if_neg notTwo]
  dsimp only
  rw [rdropWhile_component component (List.forall_mem_cons.mpr ⟨rfl, only⟩)]
  simp only [nonempty, false_or]

/-- **What the two programs make of each form.** -/
theorem lookedUp_spec {argv0 base name : Str} (looked : LookedUp argv0 base name) :
    basename argv0 = base ∧ lookedUpName argv0 = name := by
  have noSlashes : ∀ c ∈ ([] : Str), c = '/' := fun c member => nomatch member
  unfold lookedUpName
  cases looked with
  | @file dir _ _ folder notNetwork component cut =>
    have file : Path.filename (dir ++ base) = base := by
      unfold Path.filename
      rw [if_neg (getLast?_component component), isNetworkName_component folder notNetwork component,
        afterLast_component folder component]
      rfl
    refine ⟨by simpa using basename_component folder component noSlashes, ?_⟩
    rw [file, replaceExtension_nil (Path.filename_eq_self component.2), ← stem_iff.mp cut]
  | network component cut =>
    have net : Path.isNetworkName ('/' :: '/' :: base) = true :=
      isNetworkName_iff.mpr ⟨base, rfl, component⟩
    have file : Path.filename ('/' :: '/' :: base) = '/' :: '/' :: base := by
      unfold Path.filename
      rw [if_neg (show ('/' :: '/' :: base).getLast? ≠ some '/' from
        @getLast?_component ['/', '/'] base component), if_pos net]
    refine ⟨?_, ?_⟩
    · simpa using @basename_component ['/', '/'] base (Or.inr rfl) component [] noSlashes
    · rw [file, replaceExtension_nil file, ← stem_iff.mp cut]
  | folder folder notNetwork component only =>
    refine ⟨basename_component folder component (List.forall_mem_cons.mpr ⟨rfl, only⟩), ?_⟩
    rw [filename_slashes component only, isNetworkName_component folder notNetwork component]
    rfl
  | @networkFolder _ slashes component only =>
    have net : Path.isNetworkName (['/', '/'] ++ base) = true :=
      isNetworkName_iff.mpr ⟨base, rfl, component⟩
    refine ⟨@basename_component ['/', '/'] base (Or.inr rfl) component _
      (List.forall_mem_cons.mpr ⟨rfl, only⟩), ?_⟩
    rw [show '/' :: '/' :: base ++ '/' :: slashes = ['/', '/'] ++ base ++ '/' :: slashes from rfl,
      filename_slashes component only, net]
    rfl
  | @root slashes only notTwo =>
    have all : ∀ c ∈ '/' :: slashes, c = '/' := List.forall_mem_cons.mpr ⟨rfl, only⟩
    refine ⟨?_, ?_⟩
    · unfold basename
      rw [if_neg (List.cons_ne_nil _ _)]
      dsimp only
      rw [rdropWhile_slashes all, if_pos rfl]
    · have file : Path.filename ('/' :: slashes) = ['/'] := by
        unfold Path.filename
        rw [if_pos (show ('/' :: slashes).getLast? = some '/' from getLast?_slashes [] only),
          if_neg fun same => notTwo (List.cons.inj same).2]
        dsimp only
        rw [rdropWhile_slashes all, if_pos (Or.inl rfl)]
      rw [file]
      rfl
  | twoSlashes => exact ⟨rfl, rfl⟩
  | empty => exact ⟨rfl, rfl⟩

/-- The last component of a path, and what stands before it. -/
theorem exists_component {front : Str} (bare : front ≠ []) (notSlash : front.getLast bare ≠ '/') :
    ∃ dir name, front = dir ++ name ∧ Folder dir ∧ Component name := by
  have single := not_mem_afterLast '/' front
  by_cases slash : '/' ∈ front
  · obtain ⟨before, same⟩ := exists_eq_afterLast slash
    have nonempty : afterLast '/' front ≠ [] := by
      intro empty
      rw [empty] at same
      apply notSlash
      simp only [same, List.getLast_append, List.getLast_singleton]
      simp
    refine ⟨before ++ ['/'], afterLast '/' front, ?_, Or.inr (by simp), nonempty, single⟩
    rw [List.append_assoc, List.singleton_append]
    exact same
  · exact ⟨[], front, rfl, Or.inl rfl, bare, slash⟩

/-- **Every `argv[0]` has one of the forms.** -/
theorem exists_lookedUp (argv0 : Str) : ∃ base name, LookedUp argv0 base name := by
  have parts : argv0.rdropWhile (fun c => decide (c = '/')) ++
      argv0.rtakeWhile (fun c => decide (c = '/')) = argv0 := List.rdropWhile_append_rtakeWhile ..
  have only : ∀ c ∈ argv0.rtakeWhile (fun c => decide (c = '/')), c = '/' :=
    fun c member => of_decide_eq_true
      (@List.mem_rtakeWhile_imp _ (fun c => decide (c = '/')) _ _ member)
  generalize argv0.rtakeWhile (fun c => decide (c = '/')) = slashes at parts only
  by_cases bare : argv0.rdropWhile (fun c => decide (c = '/')) = []
  · rw [bare, List.nil_append] at parts
    subst parts
    cases slashes with
    | nil => exact ⟨_, _, .empty⟩
    | cons c rest =>
      obtain ⟨rfl, later⟩ := List.forall_mem_cons.mp only
      by_cases two : rest = ['/']
      · subst two
        exact ⟨_, _, .twoSlashes⟩
      · exact ⟨_, _, .root later two⟩
  · have last := List.rdropWhile_last_not (fun c => decide (c = '/')) argv0 bare
    generalize argv0.rdropWhile (fun c => decide (c = '/')) = front at parts bare last
    subst parts
    have notSlash : front.getLast bare ≠ '/' := by simpa using last
    obtain ⟨dir, name, rfl, folder, component⟩ := exists_component bare notSlash
    by_cases net : dir = ['/', '/']
    · subst net
      cases slashes with
      | nil =>
        rw [List.append_nil]
        exact ⟨_, _, .network component (stem_iff.mpr rfl)⟩
      | cons c rest =>
        obtain ⟨rfl, later⟩ := List.forall_mem_cons.mp only
        exact ⟨_, _, .networkFolder component later⟩
    · cases slashes with
      | nil =>
        rw [List.append_nil]
        exact ⟨_, _, .file folder net component (stem_iff.mpr rfl)⟩
      | cons c rest =>
        obtain ⟨rfl, later⟩ := List.forall_mem_cons.mp only
        exact ⟨_, _, .folder folder net component later⟩

/-! ### Recognised commands -/

/-- **The names that are safe**: the base name is an alias, and so is the name that the command is
looked up under, and one tool is the last one with either. -/
def Safe (tools : List (List Str)) (argv0 : Str) : Prop :=
  ∃ base name i, LookedUp argv0 base name ∧ LastWith tools base i ∧ LastWith tools name i

/-- A file is safe if its name is an alias without an extension. -/
theorem safe_file {tools : List (List Str)} {dir name : Str} (folder : Folder dir)
    (notNetwork : dir ≠ ['/', '/']) (component : Component name)
    (plain : '.' ∈ name → name = ['.'] ∨ name = ['.', '.']) (member : name ∈ allAliases tools) :
    Safe tools (dir ++ name) := by
  obtain ⟨i, last⟩ := mem_allAliases_iff.mp member
  exact ⟨name, name, i, .file folder notNetwork component (.whole plain), last, last⟩

/-- A work item of a command. -/
def itemOf (directory : Str) (respfile : Option Str) (argv0 : Str) (arguments : List Str) :
    WorkItem :=
  ⟨directory, argv0 :: arguments, respfile⟩

/-- **A command that the tracer accepts gets the tool profile of its base name.** -/
def Recognised (profile : ToolchainProfile) (item : WorkItem) (argv0 : Str) : Prop :=
  isKnownCompiler (compilersOf profile) argv0 = true →
    ∃ p, profile.binaries.find (basename argv0) = some p ∧ profile.getToolProfile item = some p

theorem getToolProfile_itemOf (profile : ToolchainProfile) (directory : Str) (respfile : Option Str)
    (argv0 : Str) (arguments : List Str) :
    profile.getToolProfile (itemOf directory respfile argv0 arguments) =
      profile.binaries.find (lookedUpName argv0) :=
  rfl

/-- **A traced command gets its tool profile exactly when its name is safe.** -/
theorem recognised_iff {env : LoadEnv} {profileJson : Json} {profile : ToolchainProfile}
    (ran : (ToolchainProfile.load env profileJson).run .empty = .ok () profile) (directory : Str)
    (respfile : Option Str) (argv0 : Str) (arguments : List Str) :
    Recognised profile (itemOf directory respfile argv0 arguments) argv0 ↔
      (Accepts (allAliases (toolAliases env profileJson)) (basename argv0) →
        Safe (toolAliases env profileJson) argv0) := by
  unfold Recognised
  rw [accepted_iff, getToolProfile_itemOf, keys_eq ran, sameTool_iff ran]
  refine imp_congr_right fun _ => ?_
  constructor
  · rintro ⟨i, last, last'⟩
    obtain ⟨base, name, looked⟩ := exists_lookedUp argv0
    obtain ⟨rfl, rfl⟩ := lookedUp_spec looked
    exact ⟨_, _, i, looked, last, last'⟩
  · rintro ⟨base, name, i, looked, last, last'⟩
    obtain ⟨rfl, rfl⟩ := lookedUp_spec looked
    exact ⟨i, last, last'⟩

/-- A toolchain profile with the alias `gcc`. -/
def gccLoaded : ToolchainProfile :=
  Attempt.stateOf ((ToolchainProfile.load Profile.oneFileEnv
    (Profile.gccWith [.str "gcc".toList])).run .empty)

theorem recognised_gcc :
    Recognised gccLoaded (itemOf "/w".toList none "/usr/bin/gcc".toList ["a.c".toList])
      "/usr/bin/gcc".toList := by
  have folder : Folder "/usr/bin/".toList := Or.inr rfl
  have component : Component "gcc".toList := ⟨by decide, by decide⟩
  have safe : Safe (toolAliases Profile.oneFileEnv (Profile.gccWith [.str "gcc".toList]))
      ("/usr/bin/".toList ++ "gcc".toList) :=
    safe_file folder (by decide) component (by decide) (by decide)
  exact (@recognised_iff Profile.oneFileEnv (Profile.gccWith [.str "gcc".toList]) gccLoaded rfl
    "/w".toList none "/usr/bin/gcc".toList ["a.c".toList]).mpr fun _ => safe

/-! ### A versioned compiler -/

/-- `gcc-4.8` is traced and looked up as `gcc-4`. -/
theorem version_dropped :
    ¬ ∀ (env : Profile.LoadEnv) (profileJson : Json) (profile : ToolchainProfile),
      (ToolchainProfile.load env profileJson).run .empty = .ok () profile →
        ∀ (directory : Str) (respfile : Option Str) (argv0 : Str) (arguments : List Str),
          Recognised profile (itemOf directory respfile argv0 arguments) argv0 := by
  intro all
  have loaded := all Profile.oneFileEnv (Profile.gccWith [.str "gcc-4.8".toList]) _ rfl
  obtain ⟨p, -, found⟩ := loaded "/w".toList none "/usr/bin/gcc-4.8".toList [] (by decide)
  exact Option.some_ne_none p (found.symm.trans rfl)

end Xcalbuild.Tracer
