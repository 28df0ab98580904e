/-
**Where the Windows tracer and the tool profile agree on response-file arguments.**

The tracer compares a whole argument with an alias unless the option has the attached format, so it
does not find the equal form then. With the attached format it takes an argument in the form that
comes first in the profile, and one in the space form also takes the argument after it.

* `taken_alike_iff`: the two do the same with an argument exactly when it is `Expanded`;
* `recognisesAlike_iff`: on a command line they agree exactly when every argument that the option
  gets to is;
* `recognisesAlike_attached`: for an option with the attached format only, they always do.
-/
import Xcalbuild.Windows.ResponseArgs

namespace Xcalbuild.Windows

open Library
open Profile (LoadError OptionArgFormat ToolOption ToolProfile ToolchainProfile)

variable {args : List Str} {i : Nat} {tok : Str} {rest : List Str}

/-! ### Where the two agree -/

/-- An alias, the only equals sign, and the argument. -/
def EqualForm (option : ToolOption) (tok : Str) : Prop :=
  ∃ name ∈ option.orderedAliases, ∃ value, '=' ∉ name ∧ '=' ∉ value ∧ tok = name ++ '=' :: value

/-- The formats of the option agree on an argument that starts with the alias. -/
def ExpandedAttached (option : ToolOption) (name tok : Str) (rest : List Str) : Prop :=
  if '=' ∈ tok then
    option.spaceForm tok = false ∧
      ((.equal ∈ option.argFormat.takeWhile (· ≠ .attached) ↔
          .equal ∈ option.argFormat ∧ EqualForm option tok) ∨
        (split (· = '=') tok)[1]? = some (tok.drop name.length))
  else if option.spaceForm tok then
    (spaces option.argFormat = 1 ∧ rest.head? = some (tok.drop name.length)) ∨
      (2 ≤ spaces option.argFormat ∧ rest.length = 1)
  else spaces option.argFormat = 0

/-- The condition under which the tracer and the option do the same with an argument. Without the
attached format the alias has to be the argument, and so the equal form is not found. -/
def Expanded (option : ToolOption) (tok : Str) (rest : List Str) : Prop :=
  if .attached ∈ option.argFormat then
    ∀ name, (option.orderedAliases.find? fun name => name.isPrefixOf tok) = some name →
      ExpandedAttached option name tok rest
  else if tok ∈ option.orderedAliases then
    if .space ∈ option.argFormat then
      '=' ∉ tok ∧ rest ≠ [] ∧ (option.argFormat.count .space = 1 ∨ rest.length = 1)
    else EqualForm option tok
  else ¬ (.equal ∈ option.argFormat ∧ EqualForm option tok)

section Agree

variable {option : ToolOption} {name : Str}

theorem equalArg_isSome : (option.equalArg tok).isSome = true ↔ EqualForm option tok := by
  rw [Option.isSome_iff_exists]
  constructor
  · rintro ⟨value, given⟩
    obtain ⟨name, isAlias, parts⟩ := ToolOption.equalArg_eq_some.mp given
    exact ⟨name, isAlias, value, parts⟩
  · rintro ⟨name, isAlias, value, parts⟩
    exact ⟨value, ToolOption.equalArg_eq_some.mpr ⟨name, isAlias, parts⟩⟩

theorem equalArg_none (other : ¬ EqualForm option tok) : option.equalArg tok = none := by
  rw [← equalArg_isSome, Bool.not_eq_true, Option.isSome_eq_false_iff] at other
  exact Option.isNone_iff_eq_none.mp other

/-- The argument of the equal form is the second part. -/
theorem second_of_equalForm (form : EqualForm option tok) :
    ∃ value, option.equalArg tok = some value ∧ (split (· = '=') tok)[1]? = some value := by
  obtain ⟨name, isAlias, value, parts⟩ := form
  refine ⟨value, ToolOption.equalArg_eq_some.mpr ⟨name, isAlias, parts⟩, ?_⟩
  rw [split_eq_pair.mpr parts]
  rfl

theorem mem_of_equalForm (form : EqualForm option tok) : '=' ∈ tok := by
  obtain ⟨name, -, value, -, -, rfl⟩ := form
  simp

/-- The argument inside a token, without the attached format. -/
theorem inlineArg_noAttached (unattached : .attached ∉ option.argFormat) :
    option.inlineArg tok = if .equal ∈ option.argFormat then option.equalArg tok else none := by
  rw [ToolOption.inlineArg, if_neg unattached]
  split_ifs
  · cases option.equalArg tok <;> rfl
  · rfl

/-- The argument inside a token that starts with an alias, with the attached format. -/
theorem inlineArg_attached (attached : .attached ∈ option.argFormat)
    (starts : (option.orderedAliases.find? fun name => name.isPrefixOf tok) = some name) :
    option.inlineArg tok =
      some (((if .equal ∈ option.argFormat then option.equalArg tok else none)).getD
        (tok.drop name.length)) := by
  rw [ToolOption.inlineArg, if_pos attached, ToolOption.attachedArg, starts]
  cases if .equal ∈ option.argFormat then option.equalArg tok else none <;> rfl

theorem entryName_attached (attached : .attached ∈ option.argFormat) :
    entryName option tok = option.orderedAliases.find? fun name => name.isPrefixOf tok := by
  simp only [entryName, if_pos attached]

theorem entryName_alone (unattached : .attached ∉ option.argFormat) :
    entryName option tok = if tok ∈ option.orderedAliases then some tok else none := by
  simp only [entryName, if_neg unattached]
  split_ifs with isAlias
  · cases found : option.orderedAliases.find? fun name => decide (name = tok) with
    | none =>
      have refused := List.find?_eq_none.mp found tok isAlias
      exact absurd (decide_eq_true rfl) refused
    | some name =>
      have same := List.find?_some found
      exact congrArg some (of_decide_eq_true same)
  · refine List.find?_eq_none.mpr fun name member same => isAlias ?_
    rw [← of_decide_eq_true same]
    exact member

/-- Both make something of the argument, and the same. -/
def TakenAlike (option : ToolOption) (tok : Str) (rest : List Str) : Prop :=
  ∃ taken, optionTaken option tok rest = some taken ∧ tracerTaken option tok rest = some taken

/-- Two things that are made of an argument, of which one depends on a path. -/
theorem alike_iff {own : Taken} {path : Option Str} {left : List Str} :
    (∃ taken, some own = some taken ∧
        (path.map fun path => ((some path, left) : Taken)) = some taken) ↔
      path.isSome = true ∧ own = (path, left) := by
  cases path with
  | none =>
    refine iff_of_false ?_ fun both => absurd both.1 Bool.false_ne_true
    rintro ⟨taken, -, absent⟩
    cases absent
  | some path =>
    constructor
    · rintro ⟨taken, same, other⟩
      cases other
      exact ⟨rfl, Option.some.inj same⟩
    · rintro ⟨-, rfl⟩
      exact ⟨_, rfl, rfl⟩

/-- **The space form**: the option takes the next token, and only an argument without an equals sign
makes the tracer take one. -/
theorem alike_space (entry : entryName option tok = some name)
    (space : option.spaceForm tok = true) :
    TakenAlike option tok rest ↔ '=' ∉ tok ∧ ∃ next more, rest = next :: more ∧
      spacePath option.argFormat name tok rest = some next ∧
        rest.drop (spaces option.argFormat) = more := by
  unfold TakenAlike optionTaken tracerTaken
  rw [entry, if_pos space]
  cases rest with
  | nil =>
    refine iff_of_false ?_ ?_
    · rintro ⟨taken, absent, -⟩
      cases absent
    · rintro ⟨-, next, more, absent, -⟩
      cases absent
  | cons next more =>
    dsimp only
    by_cases present : '=' ∈ tok
    · rw [if_pos present, alike_iff]
      refine iff_of_false (fun both => ?_) fun both => both.1 present
      exact List.cons_ne_self next more (Prod.mk.inj both.2).2.symm
    · rw [if_neg present, alike_iff, and_iff_right present]
      constructor
      · rintro ⟨-, same⟩
        have parts := Prod.mk.inj same
        exact ⟨next, more, rfl, parts.1.symm, parts.2.symm⟩
      · rintro ⟨next', more', same, path, left⟩
        cases same
        rw [path, left]
        exact ⟨rfl, rfl⟩

/-- **The other forms**: the option takes the argument alone. -/
theorem alike_inline (entry : entryName option tok = some name)
    (space : option.spaceForm tok = false) :
    TakenAlike option tok rest ↔
      if '=' ∈ tok then
        (equalPath option.argFormat name tok).isSome = true ∧
          option.inlineArg tok = equalPath option.argFormat name tok
      else
        (spacePath option.argFormat name tok rest).isSome = true ∧
          option.inlineArg tok = spacePath option.argFormat name tok rest ∧
            rest = rest.drop (spaces option.argFormat) := by
  unfold TakenAlike optionTaken tracerTaken
  rw [entry, if_neg (Bool.eq_false_iff.mp space)]
  dsimp only
  split_ifs with present
  · rw [alike_iff, Prod.mk.injEq, and_iff_left rfl]
  · rw [alike_iff, Prod.mk.injEq]

/-- The last of some tokens is the first of them, and those after it are left, only if there is but
one. -/
theorem takes_one_iff {k : Nat} (positive : 0 < k) :
    (∃ next more, rest = next :: more ∧ (rest.take k).getLast? = some next ∧ rest.drop k = more) ↔
      rest ≠ [] ∧ (k = 1 ∨ rest.length = 1) := by
  constructor
  · rintro ⟨next, more, rfl, -, left⟩
    have lengths := congrArg List.length left
    rw [List.length_drop] at lengths
    rw [List.length_cons] at lengths ⊢
    exact ⟨List.cons_ne_nil next more, by omega⟩
  · rintro ⟨nonempty, counted⟩
    obtain ⟨next, more, rfl⟩ := List.exists_cons_of_ne_nil nonempty
    obtain ⟨k, rfl⟩ := Nat.exists_eq_succ_of_ne_zero (Nat.ne_of_gt positive)
    refine ⟨next, more, rfl, ?_⟩
    rcases counted with one | single
    · obtain rfl : k = 0 := Nat.succ.inj one
      exact ⟨rfl, rfl⟩
    · obtain rfl : more = [] := List.length_eq_zero_iff.mp (Nat.succ.inj single)
      rw [List.take_succ_cons, List.take_nil, List.drop_succ_cons, List.drop_nil]
      exact ⟨rfl, rfl⟩

/-- The second part of a token with an equals sign. -/
theorem second_isSome (present : '=' ∈ tok) : ((split (· = '=') tok)[1]?).isSome = true := by
  rw [isSome_getElem?]
  exact length_split_of_mem present

/-- The equal form is not tried, or it is not the form of the token. -/
theorem equalArg_if_none (other : ¬ (.equal ∈ option.argFormat ∧ EqualForm option tok)) :
    (if .equal ∈ option.argFormat then option.equalArg tok else none) = none := by
  split_ifs with equal
  · exact equalArg_none fun form => other ⟨equal, form⟩
  · rfl

/-! #### With the attached format -/

/-- An alias that starts a token in the space form. -/
theorem alike_attached_space (attached : .attached ∈ option.argFormat)
    (starts : (option.orderedAliases.find? fun name => name.isPrefixOf tok) = some name)
    (space : option.spaceForm tok = true) :
    TakenAlike option tok rest ↔ '=' ∉ tok ∧
      ((spaces option.argFormat = 1 ∧ rest.head? = some (tok.drop name.length)) ∨
        (2 ≤ spaces option.argFormat ∧ rest.length = 1)) := by
  rw [alike_space ((entryName_attached attached).trans starts) space, and_congr_right_iff]
  intro _
  by_cases enough : spaces option.argFormat ≤ rest.length
  · -- the loop gets to the attached format
    have path : spacePath option.argFormat name tok rest = some (tok.drop name.length) := by
      rw [spacePath, if_pos ⟨attached, enough⟩]
    rw [path]
    constructor
    · rintro ⟨next, more, rfl, same, left⟩
      have lengths := congrArg List.length left
      rw [List.length_drop] at lengths
      rw [List.length_cons] at lengths enough
      exact Or.inl ⟨by omega, same.symm⟩
    · rintro (⟨one, first⟩ | ⟨several, single⟩)
      · obtain ⟨more, rfl⟩ := List.head?_eq_some_iff.mp first
        exact ⟨_, more, rfl, rfl, by rw [one]; rfl⟩
      · omega
  · -- the tokens run out before
    have path : spacePath option.argFormat name tok rest =
        (rest.take (spaces option.argFormat)).getLast? := by
      rw [spacePath, if_neg fun both => enough both.2]
    rw [path, takes_one_iff (by omega)]
    constructor
    · rintro ⟨nonempty, counted⟩
      have positive := List.length_pos_iff.mpr nonempty
      exact Or.inr (by omega)
    · rintro (⟨one, first⟩ | ⟨several, single⟩)
      · obtain ⟨more, rfl⟩ := List.head?_eq_some_iff.mp first
        rw [one, List.length_cons] at enough
        omega
      · exact ⟨List.ne_nil_of_length_pos (by omega), Or.inr single⟩

/-- The paths of a token with an equals sign. -/
theorem paths_attached (attached : .attached ∈ option.argFormat) :
    some ((if .equal ∈ option.argFormat then option.equalArg tok else none).getD
        (tok.drop name.length)) = equalPath option.argFormat name tok ↔
      (.equal ∈ option.argFormat.takeWhile (· ≠ .attached) ↔
          .equal ∈ option.argFormat ∧ EqualForm option tok) ∨
        (split (· = '=') tok)[1]? = some (tok.drop name.length) := by
  rw [equalPath, if_pos attached]
  by_cases form : .equal ∈ option.argFormat ∧ EqualForm option tok
  · obtain ⟨value, given, second⟩ := second_of_equalForm form.2
    rw [if_pos form.1, given, second, Option.getD_some]
    split_ifs with early
    · exact iff_of_true rfl (Or.inl (iff_of_true early form))
    · have differ : ¬ (.equal ∈ option.argFormat.takeWhile (· ≠ .attached) ↔
          .equal ∈ option.argFormat ∧ EqualForm option tok) := fun same => early (same.mpr form)
      rw [or_iff_right differ]
  · rw [equalArg_if_none form, Option.getD_none]
    split_ifs with early
    · have differ : ¬ (.equal ∈ option.argFormat.takeWhile (· ≠ .attached) ↔
          .equal ∈ option.argFormat ∧ EqualForm option tok) := fun same => form (same.mp early)
      rw [or_iff_right differ]
      exact eq_comm
    · exact iff_of_true rfl (Or.inl (iff_of_false early form))

/-- An alias that starts a token in another form. -/
theorem alike_attached_inline (attached : .attached ∈ option.argFormat)
    (starts : (option.orderedAliases.find? fun name => name.isPrefixOf tok) = some name)
    (space : option.spaceForm tok = false) :
    TakenAlike option tok rest ↔
      if '=' ∈ tok then
        (.equal ∈ option.argFormat.takeWhile (· ≠ .attached) ↔
            .equal ∈ option.argFormat ∧ EqualForm option tok) ∨
          (split (· = '=') tok)[1]? = some (tok.drop name.length)
      else spaces option.argFormat = 0 := by
  rw [alike_inline ((entryName_attached attached).trans starts) space,
    inlineArg_attached attached starts]
  by_cases present : '=' ∈ tok
  · have nonempty : (equalPath option.argFormat name tok).isSome = true := by
      rw [equalPath, if_pos attached]
      split_ifs
      · exact second_isSome present
      · rfl
    rw [if_pos present, if_pos present, and_iff_right nonempty]
    exact paths_attached attached
  · rw [if_neg present, if_neg present,
      equalArg_if_none fun both => present (mem_of_equalForm both.2), Option.getD_none]
    constructor
    · rintro ⟨nonempty, -, left⟩
      have lengths := congrArg List.length left
      rw [List.length_drop] at lengths
      by_contra taken
      -- no token is left to take, and then there is no path
      obtain rfl : rest = [] := List.length_eq_zero_iff.mp (by omega)
      rw [spacePath, if_neg fun both => taken (Nat.le_zero.mp both.2), List.take_nil] at nonempty
      cases nonempty
    · intro absent
      rw [spacePath, absent, if_pos ⟨attached, Nat.zero_le _⟩]
      exact ⟨rfl, rfl, rfl⟩

/-! #### Without the attached format -/

/-- An argument that is no entry of the configuration. -/
theorem alike_other (absent : entryName option tok = none) :
    TakenAlike option tok rest ↔ ¬ (.equal ∈ option.argFormat ∧ EqualForm option tok) := by
  have notAlias : tok ∉ option.orderedAliases := by
    intro isAlias
    have refused := List.find?_eq_none.mp absent tok isAlias
    split_ifs at refused
    · exact refused (List.isPrefixOf_iff_prefix.mpr (List.prefix_refl tok))
    · exact refused (decide_eq_true rfl)
  have notSpace : option.spaceForm tok = false := by
    rw [ToolOption.spaceForm, decide_eq_false notAlias, Bool.and_false]
  have notAttached : (if .attached ∈ option.argFormat then option.attachedArg tok else none) =
      none := by
    split_ifs with attached
    · rw [ToolOption.attachedArg, ← entryName_attached attached, absent]
      rfl
    · rfl
  unfold TakenAlike optionTaken tracerTaken
  rw [absent, if_neg (Bool.eq_false_iff.mp notSpace), ToolOption.inlineArg, notAttached]
  dsimp only
  by_cases form : .equal ∈ option.argFormat ∧ EqualForm option tok
  · obtain ⟨value, given, -⟩ := second_of_equalForm form.2
    refine iff_of_false ?_ fun other => other form
    rintro ⟨taken, same, other⟩
    cases other
    rw [if_pos form.1, given] at same
    cases same
  · rw [equalArg_if_none form]
    exact iff_of_true ⟨_, rfl, rfl⟩ form

theorem takeWhile_eq_self (unattached : .attached ∉ option.argFormat) :
    option.argFormat.takeWhile (· ≠ .attached) = option.argFormat := by
  refine List.takeWhile_eq_self_iff.mpr fun format member => decide_eq_true ?_
  rintro rfl
  exact unattached member

/-- The path of an alias is the last of the tokens it takes. -/
theorem spacePath_alone (unattached : .attached ∉ option.argFormat) :
    spacePath option.argFormat tok tok rest =
      (rest.take (option.argFormat.count .space)).getLast? := by
  rw [spacePath, if_neg fun both => unattached both.1, spaces, takeWhile_eq_self unattached]

/-- An alias of an option with the space format. -/
theorem alike_alias_space (unattached : .attached ∉ option.argFormat)
    (isAlias : tok ∈ option.orderedAliases) (space : .space ∈ option.argFormat) :
    TakenAlike option tok rest ↔
      '=' ∉ tok ∧ rest ≠ [] ∧ (option.argFormat.count .space = 1 ∨ rest.length = 1) := by
  have entry : entryName option tok = some tok := by rw [entryName_alone unattached, if_pos isAlias]
  have form : option.spaceForm tok = true := ToolOption.spaceForm_eq_true.mpr ⟨space, isAlias⟩
  rw [alike_space entry form, spacePath_alone unattached, spaces, takeWhile_eq_self unattached,
    takes_one_iff (List.count_pos_iff.mpr space)]

/-- An alias of an option with the equal format only. -/
theorem alike_alias_equal (formats : option.argFormat ≠ []) (unattached : .attached ∉ option.argFormat)
    (isAlias : tok ∈ option.orderedAliases) (noSpace : .space ∉ option.argFormat) :
    TakenAlike option tok rest ↔ EqualForm option tok := by
  have entry : entryName option tok = some tok := by rw [entryName_alone unattached, if_pos isAlias]
  have form : option.spaceForm tok = false := by
    rw [ToolOption.spaceForm, decide_eq_false noSpace, Bool.false_and]
  have equal : .equal ∈ option.argFormat := by
    obtain ⟨format, member⟩ := List.exists_mem_of_ne_nil _ formats
    cases format with
    | attached => exact absurd member unattached
    | space => exact absurd member noSpace
    | equal => exact member
  rw [alike_inline entry form, inlineArg_noAttached unattached, if_pos equal, spacePath_alone unattached,
    List.count_eq_zero.mpr noSpace, equalPath, takeWhile_eq_self unattached, if_pos equal]
  split_ifs with present
  · rw [and_iff_right (second_isSome present)]
    constructor
    · intro same
      rw [← equalArg_isSome, same]
      exact second_isSome present
    · intro form
      obtain ⟨value, given, second⟩ := second_of_equalForm form
      rw [given, second]
  · refine iff_of_false ?_ fun form => present (mem_of_equalForm form)
    rintro ⟨unattached, -⟩
    cases unattached

/-- **The tracer does the same with an argument as the option** exactly when it is `Expanded`. -/
theorem taken_alike_iff (formats : option.argFormat ≠ []) :
    TakenAlike option tok rest ↔ Expanded option tok rest := by
  unfold Expanded
  by_cases attached : .attached ∈ option.argFormat
  · rw [if_pos attached]
    cases starts : option.orderedAliases.find? fun name => name.isPrefixOf tok with
    | none =>
      have absent := (entryName_attached attached).trans starts
      rw [alike_other absent]
      refine iff_of_true (fun form => ?_) fun name nonempty => nomatch nonempty
      obtain ⟨name, isAlias, value, -, -, rfl⟩ := form.2
      have refused := List.find?_eq_none.mp starts name isAlias
      exact refused (List.isPrefixOf_iff_prefix.mpr (List.prefix_append _ _))
    | some name =>
      have only : (∀ other, some name = some other → ExpandedAttached option other tok rest) ↔
          ExpandedAttached option name tok rest :=
        ⟨fun all => all name rfl, fun holds other same => Option.some.inj same ▸ holds⟩
      rw [only, ExpandedAttached]
      cases space : option.spaceForm tok with
      | true =>
        rw [alike_attached_space attached starts space]
        by_cases present : '=' ∈ tok
        · rw [if_pos present]
          exact iff_of_false (fun both => both.1 present) fun both => nomatch both.1
        · rw [if_neg present, and_iff_right present, if_pos rfl]
      | false =>
        rw [alike_attached_inline attached starts space]
        by_cases present : '=' ∈ tok
        · rw [if_pos present, if_pos present, and_iff_right rfl]
        · rw [if_neg present, if_neg present, if_neg Bool.false_ne_true]
  · rw [if_neg attached]
    split_ifs with isAlias space
    · exact alike_alias_space attached isAlias space
    · exact alike_alias_equal formats attached isAlias space
    · have absent : entryName option tok = none := by rw [entryName_alone attached, if_neg isAlias]
      exact alike_other absent

end Agree

/-! ### Whole command lines -/

/-- The arguments that the option gets to, each with those after it. It passes over the argument of
the space form. -/
inductive Visits (option : ToolOption) : List Str → Str → List Str → Prop
  | here {tok : Str} {rest : List Str} : Visits option (tok :: rest) tok rest
  | next {first : Str} {later : List Str} {tok : Str} {rest : List Str} :
      Visits option (if option.spaceForm first then later.drop 1 else later) tok rest →
        Visits option (first :: later) tok rest

section Run

variable {option : ToolOption} {config : CompilerConfig} {exeName : Str} {taken taken' : Taken}

theorem optionTaken_rest (made : optionTaken option tok rest = some taken) :
    taken.2 = if option.spaceForm tok then rest.drop 1 else rest := by
  unfold optionTaken at made
  split_ifs at made ⊢ with space
  · cases rest with
    | nil => cases made
    | cons next more =>
      cases made
      rfl
  · cases made
    rfl

theorem optionTaken_suffix (made : optionTaken option tok rest = some taken) :
    taken.2 <:+ rest := by
  rw [optionTaken_rest made]
  split_ifs
  · exact List.drop_suffix 1 rest
  · exact List.suffix_refl rest

theorem tracerTaken_suffix (made : tracerTaken option tok rest = some taken) :
    taken.2 <:+ rest := by
  unfold tracerTaken at made
  split at made
  · cases made
    exact List.suffix_refl rest
  · split_ifs at made
    · obtain ⟨path, -, rfl⟩ := Option.map_eq_some_iff.mp made
      exact List.suffix_refl rest
    · obtain ⟨path, -, rfl⟩ := Option.map_eq_some_iff.mp made
      exact List.drop_suffix _ rest

/-- The outcome of a pass is at its place, and it goes on at a later one. -/
theorem Taken.outcome_forward (length : args.length = i + 1 + rest.length)
    (suffix : taken.2 <:+ rest) :
    i < (taken.outcome args.length i).2 ∧ (taken.outcome args.length i).1.place = i := by
  have shorter := suffix.length_le
  refine ⟨?_, ?_⟩
  · show i < args.length - taken.2.length
    omega
  · unfold Taken.outcome
    cases taken.1 <;> rfl

/-- The outcome tells what became of the argument. -/
theorem Taken.outcome_injective (length : args.length = i + 1 + rest.length)
    (suffix : taken.2 <:+ rest) (suffix' : taken'.2 <:+ rest)
    (same : taken.outcome args.length i = taken'.outcome args.length i) : taken = taken' := by
  obtain ⟨events, places⟩ := Prod.mk.inj same
  have shorter := suffix.length_le
  have shorter' := suffix'.length_le
  have lengths : taken.2.length = taken'.2.length := by omega
  refine Prod.ext ?_ ((List.suffix_of_suffix_length_le suffix suffix'
    (Nat.le_of_eq lengths)).eq_of_length lengths)
  cases path : taken.1 with
  | none =>
    cases path' : taken'.1 with
    | none => rfl
    | some other => rw [path, path'] at events; cases events
  | some own =>
    cases path' : taken'.1 with
    | none => rw [path, path'] at events; cases events
    | some other =>
      rw [path, path'] at events
      cases events
      rfl

theorem exists_drop (inside : i < args.length) : ∃ tok rest, args.drop i = tok :: rest :=
  ⟨args[i], args.drop (i + 1), List.drop_eq_getElem_cons inside⟩

theorem forward_optionScan (formats : option.argFormat ≠ []) :
    Scanner.Forward ArgEvent.place (optionScan option args) args.length := by
  have step : ∀ i next item, i < args.length →
      (optionScan option args).outcome args.length i = some (item, next) →
        i < next ∧ item.place = i := by
    intro i next item inside gives
    obtain ⟨tok, rest, ahead⟩ := exists_drop inside
    rw [outcome_optionScan formats ahead] at gives
    obtain ⟨taken, made, same⟩ := Option.map_eq_some_iff.mp gives
    have forward := Taken.outcome_forward (length_of_drop ahead) (optionTaken_suffix made)
    rw [same] at forward
    exact forward
  exact ⟨fun i next item inside gives => (step i next item inside gives).1,
    fun i next item inside gives => (step i next item inside gives).2⟩

/-- The passes at an argument have the same outcome when both do the same with it. -/
theorem outcomes_iff (formats : option.argFormat ≠ [])
    (configured : config.responseFileArguments.lookup exeName = some (entriesOf option))
    (ahead : args.drop i = tok :: rest) :
    (∃ result, (optionScan option args).outcome args.length i = some result ∧
        (tracerScan config exeName args).outcome args.length i = some result) ↔
      TakenAlike option tok rest := by
  rw [outcome_optionScan formats ahead, outcome_tracerScan configured ahead]
  constructor
  · rintro ⟨result, own, other⟩
    obtain ⟨taken, made, rfl⟩ := Option.map_eq_some_iff.mp own
    refine ⟨taken, made, ?_⟩
    cases made' : tracerTaken option tok rest with
    | none =>
      rw [made'] at other
      have events := congrArg Prod.fst (Option.some.inj other)
      unfold Taken.outcome at events
      cases path : taken.1 with
      | none => rw [path] at events; cases events
      | some path' => rw [path] at events; cases events
    | some taken' =>
      rw [made'] at other
      rw [Taken.outcome_injective (length_of_drop ahead) (tracerTaken_suffix made')
        (optionTaken_suffix made) (Option.some.inj other)]
  · rintro ⟨taken, made, made'⟩
    rw [made, made']
    exact ⟨_, rfl, rfl⟩

/-- The scan of the option gets to the arguments that it visits. -/
theorem visits_iff_gets (formats : option.argFormat ≠ []) (inside : i ≤ args.length) :
    Visits option (args.drop i) tok rest ↔
      ∃ j, (optionScan option args).Gets args.length i j ∧ args.drop j = tok :: rest := by
  constructor
  · intro visits
    generalize same : args.drop i = tokens at visits
    induction visits generalizing i with
    | here =>
      have length := length_of_drop same
      exact ⟨i, .here (by omega), same⟩
    | @next first later tok rest visits ih =>
      have length := length_of_drop same
      have before : i < args.length := by omega
      have suffix : (if option.spaceForm first then later.drop 1 else later) <:+ later := by
        split_ifs
        · exact List.drop_suffix 1 later
        · exact List.suffix_refl later
      have whole : later <:+ args := by
        rw [← ToolOption.drop_succ_of_drop same]
        exact List.drop_suffix _ _
      have drops := (List.suffix_iff_eq_drop.mp (suffix.trans whole)).symm
      obtain ⟨j, gets, ahead⟩ := ih (Nat.sub_le _ _) drops
      refine ⟨j, ?_, ahead⟩
      cases made : optionTaken option first later with
      | none =>
        -- the argument is missing, and nothing is left to visit
        unfold optionTaken at made
        split_ifs at made gets with space
        · cases later with
          | nil =>
            cases gets with
            | here past => exact absurd past (Nat.lt_irrefl _)
            | later past => exact absurd past (Nat.lt_irrefl _)
          | cons next more => cases made
      | some taken =>
        rw [← optionTaken_rest made] at gets
        have gives : (optionScan option args).outcome args.length i =
            some ((taken.outcome args.length i).1, args.length - taken.2.length) := by
          rw [outcome_optionScan formats same, made]
          rfl
        exact .later before gives gets
  · rintro ⟨j, gets, ahead⟩
    induction gets with
    | here before =>
      rw [ahead]
      exact .here
    | @later i next j item before gives gets ih =>
      obtain ⟨first, later, same⟩ := exists_drop before
      rw [outcome_optionScan formats same] at gives
      obtain ⟨taken, made, result⟩ := Option.map_eq_some_iff.mp gives
      have goes : args.length - taken.2.length = next := congrArg Prod.snd result
      have whole : later <:+ args := by
        rw [← ToolOption.drop_succ_of_drop same]
        exact List.drop_suffix _ _
      have drops := List.suffix_iff_eq_drop.mp ((optionTaken_suffix made).trans whole)
      have visitsRest := ih (goes ▸ Nat.sub_le _ _) ahead
      rw [← goes, ← drops, optionTaken_rest made] at visitsRest
      rw [same]
      exact .next visitsRest

/-- **The two agree on a command line** exactly when every argument that the option gets to is
`Expanded`. -/
theorem recognisesAlike_configured (formats : option.argFormat ≠ [])
    (configured : config.responseFileArguments.lookup exeName = some (entriesOf option)) :
    RecognisesAlike config exeName option args ↔
      ∀ tok rest, Visits option args tok rest → Expanded option tok rest := by
  unfold RecognisesAlike
  rw [Scanner.agree_iff (forward_optionScan formats) (forward_tracerScan config exeName args)]
  constructor
  · intro same tok rest visits
    obtain ⟨j, gets, ahead⟩ := (@visits_iff_gets args 0 tok rest option formats
      (Nat.zero_le _)).mp visits
    exact (taken_alike_iff formats).mp ((outcomes_iff formats configured ahead).mp (same j gets))
  · intro all j gets
    have before : j < args.length := gets.lt
    obtain ⟨tok, rest, ahead⟩ := exists_drop before
    have visits := (@visits_iff_gets args 0 tok rest option formats
      (Nat.zero_le _)).mpr ⟨j, gets, ahead⟩
    exact (outcomes_iff formats configured ahead).mpr
      ((taken_alike_iff formats).mpr (all tok rest visits))

end Run

/-! ### Loaded profiles -/

section Loaded

variable {validRegex : Str → Bool} {j : Json} {profile : ToolProfile} {option : ToolOption}
  {exeName : Str} {config : CompilerConfig}

/-- The configuration of a profile with one response option. -/
theorem configured_of_load (loaded : ToolProfile.load validRegex j = .ok profile)
    (single : profile.options.filter ToolOption.isResponse = [option])
    (read : CompilerConfig.ofJson (.arr [ToolchainProfile.tracerConfig exeName profile]) =
      .ok config) :
    option.argFormat ≠ [] ∧
      config.responseFileArguments.lookup exeName = some (entriesOf option) := by
  have member : option ∈ profile.options.filter ToolOption.isResponse := by
    rw [single]
    exact List.mem_singleton_self option
  obtain ⟨listed, isResponse⟩ := List.mem_filter.mp member
  refine ⟨(configLoaded_load loaded).formats option listed isResponse, ?_⟩
  rw [config_of_load loaded, single] at read
  cases read
  rw [List.flatMap_singleton]
  exact List.lookup_cons_self

/-- **The tracer recognises the response-file arguments of a command line as the response option of
the profile does** exactly when every argument that the option gets to is `Expanded`. -/
theorem recognisesAlike_iff (loaded : ToolProfile.load validRegex j = .ok profile)
    (single : profile.options.filter ToolOption.isResponse = [option])
    (read : CompilerConfig.ofJson (.arr [ToolchainProfile.tracerConfig exeName profile]) =
      .ok config) (args : List Str) :
    RecognisesAlike config exeName option args ↔
      ∀ tok rest, Visits option args tok rest → Expanded option tok rest := by
  obtain ⟨formats, configured⟩ := configured_of_load loaded single read
  exact recognisesAlike_configured formats configured

/-- **With the attached format alone they agree on every command line.** -/
theorem recognisesAlike_attached (loaded : ToolProfile.load validRegex j = .ok profile)
    (single : profile.options.filter ToolOption.isResponse = [option])
    (read : CompilerConfig.ofJson (.arr [ToolchainProfile.tracerConfig exeName profile]) =
      .ok config) (only : ∀ format ∈ option.argFormat, format = .attached) (args : List Str) :
    RecognisesAlike config exeName option args := by
  obtain ⟨formats, configured⟩ := configured_of_load loaded single read
  refine (recognisesAlike_configured formats configured).mpr fun tok rest _ => ?_
  have attached : .attached ∈ option.argFormat := by
    obtain ⟨format, member⟩ := List.exists_mem_of_ne_nil _ formats
    rwa [only format member] at member
  have noSpace : OptionArgFormat.space ∉ option.argFormat := fun member => nomatch only _ member
  have noEqual : OptionArgFormat.equal ∉ option.argFormat := fun member => nomatch only _ member
  have notSpace : option.spaceForm tok = false := by
    rw [ToolOption.spaceForm, decide_eq_false noSpace, Bool.false_and]
  unfold Expanded ExpandedAttached
  rw [if_pos attached]
  intro name _
  split_ifs with present space
  · refine ⟨notSpace, Or.inl (iff_of_false (fun early => ?_) fun both => noEqual both.1)⟩
    exact noEqual (List.takeWhile_prefix _ |>.subset early)
  · rw [notSpace] at space
    cases space
  · exact List.count_eq_zero.mpr fun early => noSpace (List.takeWhile_prefix _ |>.subset early)

end Loaded

/-! ### A profile with the space and the equal format -/

/-- A compiler profile with the response option `-f`. -/
def fProfileJson : Json :=
  .obj [("defaultCommandKind".toList, .str "compile".toList),
    ("optionPrefix".toList, .str "-".toList),
    ("options".toList, .arr [.obj [
      ("aliases".toList, .arr [.str "-f".toList, .str "--f".toList]),
      ("argFormat".toList, .arr [.str "space".toList, .str "equal".toList]),
      ("type".toList, .str "response".toList)]])]

/-- The response option of that profile. -/
def fOption : ToolOption where
  behaviour := .response
  defaultPrefix := some "-".toList
  orderedAliases := ["-f".toList, "--f".toList]
  hasAlias := List.cons_ne_nil _ _
  argFormat := [.space, .equal]

/-- The profile that is loaded from that description. -/
def fProfile : ToolProfile :=
  { ToolProfile.init fProfileJson with
    optionPrefix := some "-".toList
    responseFileConfig := (entriesOf fOption).map entryJson
    options := [fOption]
    responseFileOption := some fOption }

theorem load_fProfile : ToolProfile.load (fun _ => true) fProfileJson = .ok fProfile := rfl

/-- The configuration of the tracer for the binary `iccarm` with that profile. -/
def fConfig : CompilerConfig :=
  ⟨["iccarm".toList], [("iccarm".toList, entriesOf fOption)]⟩

theorem read_fConfig :
    CompilerConfig.ofJson (.arr [ToolchainProfile.tracerConfig "iccarm".toList fProfile]) =
      .ok fConfig :=
  config_of_load load_fProfile "iccarm".toList

/-- The arguments visited, one after the other. -/
theorem visits_cons {option : ToolOption} {first : Str} {later : List Str} :
    Visits option (first :: later) tok rest ↔ (tok = first ∧ rest = later) ∨
      Visits option (if option.spaceForm first then later.drop 1 else later) tok rest := by
  constructor
  · intro visits
    cases visits with
    | here => exact Or.inl ⟨rfl, rfl⟩
    | next visits => exact Or.inr visits
  · rintro (⟨rfl, rfl⟩ | visits)
    · exact .here
    · exact .next visits

/-- An argument that is neither an alias nor has an equals sign. -/
theorem expanded_other {option : ToolOption} (unattached : .attached ∉ option.argFormat)
    (notAlias : tok ∉ option.orderedAliases) (absent : '=' ∉ tok) : Expanded option tok rest := by
  rw [Expanded, if_neg unattached, if_neg notAlias]
  exact fun both => absent (mem_of_equalForm both.2)

/-- The command line `iccarm -f args.xcl a.c` is read alike. -/
theorem recognisesAlike_space : RecognisesAlike fConfig "iccarm".toList fOption
    ["iccarm".toList, "-f".toList, "args.xcl".toList, "a.c".toList] := by
  refine (recognisesAlike_iff load_fProfile rfl read_fConfig _).mpr fun tok rest visits => ?_
  have unattached : OptionArgFormat.attached ∉ fOption.argFormat := by decide
  rcases visits_cons.mp visits with ⟨rfl, rfl⟩ | visits
  · exact expanded_other unattached (by decide) (by decide)
  rcases visits_cons.mp (show Visits fOption ["-f".toList, "args.xcl".toList, "a.c".toList] tok rest
    from visits) with ⟨rfl, rfl⟩ | visits
  · rw [Expanded, if_neg unattached, if_pos (by decide), if_pos (by decide)]
    exact ⟨by decide, List.cons_ne_nil _ _, Or.inl rfl⟩
  rcases visits_cons.mp (show Visits fOption ["a.c".toList] tok rest from visits) with
    ⟨rfl, rfl⟩ | visits
  · exact expanded_other unattached (by decide) (by decide)
  · exact nomatch (show Visits fOption [] tok rest from visits)

/-- The equal form `-f=args.xcl` is not found by the tracer. -/
theorem equalForm_unread :
    ¬ ∀ (validRegex : Str → Bool) (j : Json) (profile : ToolProfile) (option : ToolOption)
      (exeName : Str) (config : CompilerConfig) (args : List Str),
      ToolProfile.load validRegex j = .ok profile →
        profile.options.filter ToolOption.isResponse = [option] →
          CompilerConfig.ofJson (.arr [ToolchainProfile.tracerConfig exeName profile]) =
              .ok config →
            RecognisesAlike config exeName option args := by
  intro alike
  obtain ⟨events, own, traced⟩ := alike _ _ _ fOption _ _
    ["iccarm".toList, "-f=args.xcl".toList, "a.c".toList] load_fProfile rfl read_fConfig
  have expanded : (optionScan fOption
      ["iccarm".toList, "-f=args.xcl".toList, "a.c".toList]).items 3 =
        some [.argument 0, .response 1 "args.xcl".toList, .argument 2] := rfl
  have recorded : (tracerScan fConfig "iccarm".toList
      ["iccarm".toList, "-f=args.xcl".toList, "a.c".toList]).items 3 =
        some [.argument 0, .argument 1, .argument 2] := rfl
  have own' := expanded.symm.trans own
  have traced' := recorded.symm.trans traced
  rw [← traced'] at own'
  exact absurd own' (by decide)

end Xcalbuild.Windows
