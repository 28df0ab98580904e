/-
**The kind of a command.**

Command options set the kind of a work item, and the option loop is left after a match that finds the
kind `ignore`. That is meant for options such as `--help`, but it is also so when `ignore` is only
the default and the option that was matched has nothing to do with the kind.

* `commandKinds`: the kinds of the command options in option position, over the whole command line;
* `expectedKind`: what the kind should be;
* `walkTokens_kind`: what it is (`loopKind`);
* **`kind_iff`**: they are the same unless the default is `ignore`, the first option is not a command
  option, and there are command options after it, none of them of the kind `ignore`.
-/
import Xcalbuild.Profile.Cursor
import Xcalbuild.Profile.Tokens

namespace Xcalbuild.Profile

open Library

/-! ### The options of a command line -/

/-- The kind that an option stands for, if it is a command option. -/
def ToolOption.commandKind (o : ToolOption) : Option CommandKind :=
  match o.behaviour with
  | .cmd kind => some kind
  | _ => none

/-- **The options in option position**, matched from left to right over the whole command line. -/
def optionsMet (options : List ToolOption) : List Str → List ToolOption
  | [] => []
  | tok :: rest =>
      match options.find? fun option => option.accepts tok with
      | none => optionsMet options rest
      | some option => option ::
          match rest with
          | [] => []
          | next :: rest =>
              if option.spaceForm tok && !option.prefixStops next then optionsMet options rest
              else optionsMet options (next :: rest)

/-- The kinds of the command options in option position. -/
def commandKinds (options : List ToolOption) (tokens : List Str) : List CommandKind :=
  (optionsMet options tokens).filterMap ToolOption.commandKind

/-- **What the kind should be**: `ignore` if there is an option of that kind, else the kind of the
last command option, else the default. -/
def expectedKind (default : CommandKind) (kinds : List CommandKind) : CommandKind :=
  if .ignore ∈ kinds then .ignore else kinds.getLast?.getD default

/-- What the option loop makes of the kind: it is left when a match finds `ignore`. -/
def loopKind : CommandKind → List ToolOption → CommandKind
  | kind, [] => kind
  | kind, option :: rest =>
      if option.kindAfter kind = .ignore then .ignore else loopKind (option.kindAfter kind) rest

/-- **The walk is not left before the command options are met**, or nothing is lost by that. -/
def KindKept (default : CommandKind) (options : List ToolOption) : Prop :=
  default = .ignore → ∀ first ∈ options.head?, first.commandKind = none →
    options.filterMap ToolOption.commandKind = [] ∨
      .ignore ∈ options.filterMap ToolOption.commandKind

/-! ### The walk -/

section Walk

variable {profile : ToolProfile} {host : Host} {options : List ToolOption} {tok : Str}
  {rest : List Str} {option : ToolOption}

theorem optionsMet_none (refused : options.find? (fun option => option.accepts tok) = none) :
    optionsMet options (tok :: rest) = optionsMet options rest := by
  rw [optionsMet, refused]

theorem optionsMet_some (first : options.find? (fun option => option.accepts tok) = some option) :
    optionsMet options (tok :: rest) =
      option :: optionsMet options (option.takeArg tok rest).2 := by
  rw [optionsMet, first]
  cases rest with
  | nil => cases space : option.spaceForm tok <;> simp [ToolOption.takeArg, space, optionsMet]
  | cons next rest =>
    cases space : option.spaceForm tok <;> cases stops : option.prefixStops next <;>
      simp [ToolOption.takeArg, space, stops]

/-- **The kind that the walk ends with** depends on the options in option position alone. -/
theorem walkTokens_kind {tokens : List Str} {parsed result : ParsedWorkItem}
    (walked : walkTokens profile host parsed tokens = .ok result) :
    result.kind = loopKind parsed.kind (optionsMet profile.options tokens) := by
  induction size : tokens.length using Nat.strong_induction_on generalizing tokens parsed with
  | _ length ih =>
    cases tokens with
    | nil =>
      cases walked
      rfl
    | cons tok rest =>
      rw [List.length_cons] at size
      cases first : profile.options.find? (fun option => option.accepts tok) with
      | none =>
        rw [walkTokens_none first] at walked
        rw [optionsMet_none first, ih rest.length (by omega) walked rfl, leftover_kind]
      | some option =>
        have shorter := option.takeArg_length tok rest
        rw [walkTokens_some first] at walked
        rw [optionsMet_some first, loopKind]
        split_ifs at walked with dangles ignored
        · cases walked
          rw [if_pos ignored, ToolOption.take_kind, ignored]
        · rw [if_neg ignored, ih _ (by omega) walked rfl, ToolOption.take_kind]

end Walk

/-! ### The two kinds -/

section Kinds

variable {kind default : CommandKind} {option : ToolOption} {rest options : List ToolOption}

theorem kindAfter_of_none (other : option.commandKind = none) : option.kindAfter kind = kind := by
  unfold ToolOption.commandKind at other
  unfold ToolOption.kindAfter
  cases behaviour : option.behaviour with
  | cmd kind => rw [behaviour] at other; cases other
  | _ => rfl

theorem kindAfter_of_some {own : CommandKind} (command : option.commandKind = some own) :
    option.kindAfter kind = own := by
  unfold ToolOption.commandKind at command
  unfold ToolOption.kindAfter
  cases behaviour : option.behaviour with
  | cmd kind =>
    rw [behaviour] at command
    exact Option.some.inj command
  | _ => rw [behaviour] at command; cases command

/-- The first command option takes the place of the default. -/
theorem expectedKind_cons {own : CommandKind} {kinds : List CommandKind} (other : own ≠ .ignore) :
    expectedKind default (own :: kinds) = expectedKind own kinds := by
  have noIgnore : .ignore ∈ own :: kinds ↔ .ignore ∈ kinds := by
    rw [List.mem_cons, or_iff_right other.symm]
  unfold expectedKind
  rw [List.getLast?_cons, Option.getD_some]
  exact if_congr noIgnore rfl rfl

/-- When the kind is not `ignore`, the loop is left for an option of that kind only. -/
theorem loopKind_eq (notIgnored : kind ≠ .ignore) :
    loopKind kind options = expectedKind kind (options.filterMap ToolOption.commandKind) := by
  induction options generalizing kind with
  | nil => rfl
  | cons option rest ih =>
    rw [loopKind]
    cases command : option.commandKind with
    | none =>
      rw [kindAfter_of_none command, if_neg notIgnored, ih notIgnored,
        List.filterMap_cons_none command]
    | some own =>
      rw [kindAfter_of_some command, List.filterMap_cons_some command]
      by_cases ignored : own = .ignore
      · rw [if_pos ignored, expectedKind, ignored, if_pos List.mem_cons_self]
      · rw [if_neg ignored, ih ignored, expectedKind_cons ignored]

/-- The expected kind is `ignore` by an option or by default. -/
theorem expectedKind_eq_ignore {kinds : List CommandKind} :
    expectedKind .ignore kinds = .ignore ↔ kinds = [] ∨ .ignore ∈ kinds := by
  unfold expectedKind
  by_cases member : CommandKind.ignore ∈ kinds
  · rw [if_pos member]
    exact iff_of_true rfl (Or.inr member)
  · rw [if_neg member, or_iff_left member]
    cases last : kinds.getLast? with
    | none => exact iff_of_true rfl (List.getLast?_eq_none_iff.mp last)
    | some own =>
      have inside := List.mem_of_getLast? last
      refine iff_of_false (fun same => member ?_) (List.ne_nil_of_mem inside)
      rw [Option.getD_some] at same
      exact same ▸ inside

/-- **The two kinds are the same** unless the walk is left too early. -/
theorem loopKind_iff : loopKind default options =
      expectedKind default (options.filterMap ToolOption.commandKind) ↔
    KindKept default options := by
  by_cases ignored : default = .ignore
  · subst ignored
    unfold KindKept
    rw [imp_iff_right rfl]
    cases options with
    | nil => exact iff_of_true rfl fun first member => nomatch member
    | cons option rest =>
      have head : (∀ first ∈ (option :: rest).head?, first.commandKind = none →
            (option :: rest).filterMap ToolOption.commandKind = [] ∨
              .ignore ∈ (option :: rest).filterMap ToolOption.commandKind) ↔
          (option.commandKind = none →
            (option :: rest).filterMap ToolOption.commandKind = [] ∨
              .ignore ∈ (option :: rest).filterMap ToolOption.commandKind) := by
        simp
      rw [head, loopKind]
      cases command : option.commandKind with
      | none =>
        rw [kindAfter_of_none command, if_pos rfl, imp_iff_right rfl, eq_comm,
          expectedKind_eq_ignore]
      | some own =>
        rw [kindAfter_of_some command, List.filterMap_cons_some command]
        refine iff_of_true ?_ fun absent => nomatch absent
        by_cases ignored : own = .ignore
        · rw [if_pos ignored, expectedKind, ignored, if_pos List.mem_cons_self]
        · rw [if_neg ignored, loopKind_eq ignored, expectedKind_cons ignored]
  · exact iff_of_true (loopKind_eq ignored) fun same => absurd same ignored

end Kinds

/-- **The kind of a parsed work item is the expected one** unless the default is `ignore`, the first
option is not a command option, and there are command options after it, none of them of the kind
`ignore`. -/
theorem kind_iff {profile : ToolProfile} {host : Host} {item : WorkItem} {parsed : ParsedWorkItem}
    (result : parseWorkItem profile host item = .ok parsed) :
    parsed.kind = expectedKind profile.defaultCommandKind
        (commandKinds profile.options (unfoldedTokens profile host item).tail) ↔
      KindKept profile.defaultCommandKind
        (optionsMet profile.options (unfoldedTokens profile host item).tail) := by
  obtain ⟨binary, rest, tokens, walked⟩ := exists_walk result
  rw [tokens, List.tail_cons, walkTokens_kind walked]
  exact loopKind_iff

/-! ### A profile whose default is `ignore` -/

/-- A profile of the default kind `ignore`, with the option `-g` and the command option `-c`. -/
def ignoreProfileJson : Json :=
  .obj [("defaultCommandKind".toList, .str "ignore".toList),
    ("optionPrefix".toList, .str "-".toList),
    ("options".toList, .arr [
      .obj [("aliases".toList, .arr [.str "-g".toList]), ("type".toList, .str "other".toList)],
      .obj [("aliases".toList, .arr [.str "-c".toList]), ("kind".toList, .str "compile".toList),
        ("type".toList, .str "cmd".toList)]])]

/-- The profile that is loaded from it. -/
def ignoreProfile : ToolProfile :=
  { ToolProfile.init ignoreProfileJson with
    defaultCommandKind := .ignore
    optionPrefix := some "-".toList
    options := [
      { behaviour := .other, defaultPrefix := some "-".toList, orderedAliases := ["-g".toList],
        hasAlias := List.cons_ne_nil _ _, argFormat := [] },
      { behaviour := .cmd .compile, defaultPrefix := some "-".toList,
        orderedAliases := ["-c".toList], hasAlias := List.cons_ne_nil _ _, argFormat := [] }] }

theorem load_ignoreProfile (validRegex : Str → Bool) :
    ToolProfile.load validRegex ignoreProfileJson = .ok ignoreProfile := rfl

/-- **The command line `gcc -g -c`** has the kind `ignore`, though `-c` asks for `compile`. -/
theorem ignore_before_command :
    ¬ ∀ (validRegex : Str → Bool) (j : Json) (profile : ToolProfile) (host : Host)
      (item : WorkItem) (parsed : ParsedWorkItem), ToolProfile.load validRegex j = .ok profile →
        parseWorkItem profile host item = .ok parsed →
          parsed.kind = expectedKind profile.defaultCommandKind
            (commandKinds profile.options (unfoldedTokens profile host item).tail) := by
  intro all
  have kind := all (fun _ => true) _ _ emptyHost (gccItem ["-g".toList, "-c".toList]) _
    (load_ignoreProfile _) rfl
  exact absurd kind (by decide)

/-- The command line `gcc -c -g` of the same profile has the kind `compile`. -/
theorem command_before_others :
    ∃ parsed, parseWorkItem ignoreProfile emptyHost (gccItem ["-c".toList, "-g".toList]) =
        .ok parsed ∧
      parsed.kind = .compile ∧
      (parsed.kind = expectedKind ignoreProfile.defaultCommandKind
          (commandKinds ignoreProfile.options
            (unfoldedTokens ignoreProfile emptyHost (gccItem ["-c".toList, "-g".toList])).tail) ↔
        KindKept ignoreProfile.defaultCommandKind
          (optionsMet ignoreProfile.options
            (unfoldedTokens ignoreProfile emptyHost
              (gccItem ["-c".toList, "-g".toList])).tail)) :=
  ⟨_, rfl, rfl, kind_iff rfl⟩

end Xcalbuild.Profile
