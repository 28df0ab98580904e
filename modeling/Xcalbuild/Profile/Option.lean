/-
**The command line options of a tool.**

`ToolOption` is the class `Option` of `option.hpp`, with the data of its ten subclasses in
`OptionBehaviour`. An iterator into the argument vector is a position, and every dereference goes
through `deref`: reading at or past `end()` is the fault `pastEnd`.

`matchAndGetArg` tries the argument formats in the order of the source: no argument, then space,
then equal, then attached. Whether it matches at all is decided by the token under the iterator
alone (`accepts`); the token after it is only read in the space form, and there it is read before
anything has checked that it exists. The three lemmas `matchAndGetArg_refuse`, `_accept` and
`_dangling` say everything one call can do, and the callers use these alone.
-/
import Xcalbuild.Library.Fallible
import Xcalbuild.Profile.WorkItem

namespace Xcalbuild.Profile

open Library

/-- How a walk over an argument vector goes wrong: an iterator is dereferenced at or past the end,
or (in the model only) a loop used up its fuel. -/
inductive CursorFault where
  | pastEnd
  | diverged
  deriving DecidableEq, Repr

/-- `*it`. -/
def deref (args : List Str) (it : Nat) : Except CursorFault Str :=
  match args[it]? with
  | some tok => .ok tok
  | none => .error .pastEnd

inductive OptionArgFormat where
  | attached
  | space
  | equal
  deriving DecidableEq, Repr

/-- `option_arg_format_names`. -/
def optionArgFormatNames : List (Str × OptionArgFormat) :=
  [("attached".toList, .attached), ("space".toList, .space), ("equal".toList, .equal)]

/-- What a `ScanOption` adds to the scan options. -/
structure ScanData where
  cScanOption : Option Str
  cxxScanOption : Option Str
  scanArgFormat : Option OptionArgFormat
  argToCScan : List (Str × Str)
  argToCxxScan : List (Str × Str)

/-- The subclasses of `Option`, one constructor each, with the members they add. -/
inductive OptionBehaviour where
  | cmd (kind : CommandKind)
  | language (argToLang : List (Str × FileFormat))
  | response
  | delete
  | scan (data : ScanData)
  | preprocess
  | output
  | preInclude
  | sysIncPath
  | other

/-- A command line option of a tool. The validation of the profile rejects an empty alias list, so
the first alias, which the option is written back with, always exists. -/
structure ToolOption where
  behaviour : OptionBehaviour
  defaultPrefix : Option Str
  orderedAliases : List Str
  hasAlias : orderedAliases ≠ []
  argFormat : List OptionArgFormat

namespace ToolOption

/-- The option pattern written before the first format: an alias and nothing else. -/
def firstAlias (o : ToolOption) : Str := o.orderedAliases.head o.hasAlias

/-- `OptionType::OT_RESPFILE` -/
def isResponse (o : ToolOption) : Bool :=
  match o.behaviour with
  | .response => true
  | _ => false

/-- The argument of a token written in the equal form: exactly one `=`, after an alias. -/
def equalArg (o : ToolOption) (tok : Str) : Option Str :=
  match split (· = '=') tok with
  | [name, value] => if name ∈ o.orderedAliases then some value else none
  | _ => none

/-- The argument of a token written in the attached form, after the first alias it starts with. -/
def attachedArg (o : ToolOption) (tok : Str) : Option Str :=
  (o.orderedAliases.find? fun name => name.isPrefixOf tok).map fun name => tok.drop name.length

/-- The argument inside a token: the equal form is tried before the attached form. -/
def inlineArg (o : ToolOption) (tok : Str) : Option Str :=
  (if .equal ∈ o.argFormat then o.equalArg tok else none) <|>
    (if .attached ∈ o.argFormat then o.attachedArg tok else none)

/-- The token that may be an argument starts with the option prefix of the profile, so it is not
taken as one. -/
def prefixStops (o : ToolOption) (tok : Str) : Bool :=
  match o.defaultPrefix with
  | some lead => lead.isPrefixOf tok
  | none => false

/-- `Option::match_and_get_arg`: the position after the match and the argument, or `none` when the
option does not match. `arg` is the value the caller's variable has before the call; a match that
has no argument leaves it alone. -/
def matchAndGetArg (o : ToolOption) (args : List Str) (it : Nat) (arg : Str) :
    Except CursorFault (Option (Nat × Str)) := do
  let tok ← deref args it
  if o.argFormat = [] then
    return if tok ∈ o.orderedAliases then some (it + 1, arg) else none
  else if .space ∈ o.argFormat ∧ tok ∈ o.orderedAliases then
    let next ← deref args (it + 1)
    return if o.prefixStops next then some (it + 1, arg) else some (it + 2, next)
  else return (o.inlineArg tok).map fun value => (it + 1, value)

/-- `add_option` in `ScanOption::process`. -/
def addScanOption (format : OptionArgFormat) (values : List (Str × Str)) (option arg : Str)
    (options : List Str) : List Str :=
  let scanArg := (values.lookup arg).getD arg
  match format with
  | .space => options ++ [option, scanArg]
  | .attached => options ++ [option ++ scanArg]
  | .equal => options ++ [option ++ '=' :: scanArg]

/-- `Option::process`, the virtual function: the new state, and whether the matched tokens are
copied to the preprocessing options. -/
def process (host : Host) (o : ToolOption) (arg : Str) (parsed : ParsedWorkItem) :
    Bool × ParsedWorkItem :=
  match o.behaviour with
  | .cmd kind => (true, { parsed with kind := kind })
  | .language argToLang =>
      match argToLang.lookup arg with
      | some format => (false, { parsed with fileFormat := format })
      | none => (false, parsed)
  | .response => (false, parsed)
  | .delete => (false, parsed)
  | .scan data =>
      let cOption := data.cScanOption.getD o.firstAlias
      let cxxOption := data.cxxScanOption.getD o.firstAlias
      match data.scanArgFormat with
      | none => (true, { parsed with
          cScanOptions := parsed.cScanOptions ++ [cOption]
          cxxScanOptions := parsed.cxxScanOptions ++ [cxxOption] })
      | some format => (true, { parsed with
          cScanOptions := addScanOption format data.argToCScan cOption arg parsed.cScanOptions
          cxxScanOptions :=
            addScanOption format data.argToCxxScan cxxOption arg parsed.cxxScanOptions })
  | .preprocess => (false, parsed)
  | .output => (false, { parsed with target := host.getFullPathStr arg parsed.dir })
  | .preInclude => (true, parsed)
  | .sysIncPath => (true, parsed)
  | .other => (true, parsed)

/-- The state after a match, with the matched tokens copied if `process` asks for it. -/
def processMatch (o : ToolOption) (host : Host) (matched : List Str) (arg : Str)
    (parsed : ParsedWorkItem) : ParsedWorkItem :=
  let result := o.process host arg parsed
  if result.1 then { result.2 with ppOptions := result.2.ppOptions ++ matched } else result.2

/-- `Option::match`: the position after the match and the new state, or `none`. -/
def matchOption (host : Host) (o : ToolOption) (args : List Str) (it : Nat)
    (parsed : ParsedWorkItem) : Except CursorFault (Option (Nat × ParsedWorkItem)) := do
  match ← o.matchAndGetArg args it [] with
  | none => return none
  | some (it', arg) =>
      return some (it', o.processMatch host ((args.drop it).take (it' - it)) arg parsed)

/-- The smallest format of the set, which the option is written back in. -/
def firstFormat (o : ToolOption) : Option OptionArgFormat :=
  if .attached ∈ o.argFormat then some .attached
  else if .space ∈ o.argFormat then some .space
  else if .equal ∈ o.argFormat then some .equal
  else none

/-- `Option::make_string_option` -/
def makeStringOption (o : ToolOption) (arg : Str) : List Str :=
  match o.firstFormat with
  | none => [o.firstAlias]
  | some .attached => [o.firstAlias ++ arg]
  | some .space => [o.firstAlias, arg]
  | some .equal => [o.firstAlias ++ '=' :: arg]

/-! ### What one match can do -/

/-- The token is an alias of an option that takes its argument from the next element. -/
def spaceForm (o : ToolOption) (tok : Str) : Bool :=
  decide (.space ∈ o.argFormat) && decide (tok ∈ o.orderedAliases)

/-- The option matches at this token, whatever comes after it. -/
def accepts (o : ToolOption) (tok : Str) : Bool :=
  if o.argFormat = [] then decide (tok ∈ o.orderedAliases)
  else o.spaceForm tok || (o.inlineArg tok).isSome

/-- The argument of an accepted token, and the tokens after the match. -/
def takeArg (o : ToolOption) (tok : Str) (rest : List Str) : Str × List Str :=
  if o.spaceForm tok then
    match rest with
    | [] => ([], [])
    | next :: rest => if o.prefixStops next then ([], next :: rest) else (next, rest)
  else ((o.inlineArg tok).getD [], rest)

/-- The token takes its argument from the next element, and there is no next element. -/
def dangles (o : ToolOption) (tok : Str) (rest : List Str) : Bool :=
  o.spaceForm tok && rest.isEmpty

theorem spaceForm_eq_true {o : ToolOption} {tok : Str} :
    o.spaceForm tok = true ↔ .space ∈ o.argFormat ∧ tok ∈ o.orderedAliases := by
  simp [spaceForm]

theorem format_of_spaceForm {o : ToolOption} {tok : Str} (space : o.spaceForm tok = true) :
    o.argFormat ≠ [] :=
  List.ne_nil_of_mem (spaceForm_eq_true.mp space).1

theorem accepts_of_spaceForm {o : ToolOption} {tok : Str} (space : o.spaceForm tok = true) :
    o.accepts tok = true := by
  rw [accepts, if_neg (format_of_spaceForm space), space, Bool.true_or]

variable {o : ToolOption} {args : List Str} {it : Nat} {tok : Str}

theorem getElem?_eq_head?_drop (args : List Str) (it : Nat) : args[it]? = (args.drop it).head? := by
  rw [List.head?_drop]

theorem getElem?_of_drop {rest : List Str} (ahead : args.drop it = tok :: rest) :
    args[it]? = some tok := by
  rw [getElem?_eq_head?_drop, ahead, List.head?_cons]

theorem drop_succ_of_drop {rest : List Str} (ahead : args.drop it = tok :: rest) :
    args.drop (it + 1) = rest := by
  rw [← List.tail_drop, ahead, List.tail_cons]

theorem deref_of_getElem? (found : args[it]? = some tok) : deref args it = .ok tok := by
  simp [deref, found]

theorem deref_of_none (missing : args[it]? = none) : deref args it = .error .pastEnd := by
  simp [deref, missing]

/-- Outside the space form the match is decided by the one token. -/
theorem matchAndGetArg_inline (found : args[it]? = some tok) (notSpace : o.spaceForm tok = false)
    (arg : Str) :
    o.matchAndGetArg args it arg =
      .ok (if o.argFormat = [] then if tok ∈ o.orderedAliases then some (it + 1, arg) else none
        else (o.inlineArg tok).map fun value => (it + 1, value)) := by
  have notBoth : ¬ (.space ∈ o.argFormat ∧ tok ∈ o.orderedAliases) := fun both => by
    rw [spaceForm_eq_true.mpr both] at notSpace
    cases notSpace
  unfold matchAndGetArg
  rw [deref_of_getElem? found, ok_bind, if_neg notBoth]
  by_cases noFormat : o.argFormat = []
  · rw [if_pos noFormat, if_pos noFormat]
    rfl
  · rw [if_neg noFormat, if_neg noFormat]
    rfl

/-- A token the option does not accept is left alone. -/
theorem matchAndGetArg_refuse (found : args[it]? = some tok) (refused : o.accepts tok = false)
    (arg : Str) : o.matchAndGetArg args it arg = .ok none := by
  have notSpace : o.spaceForm tok = false := by
    cases space : o.spaceForm tok with
    | false => rfl
    | true => rw [accepts_of_spaceForm space] at refused; cases refused
  rw [matchAndGetArg_inline found notSpace]
  unfold accepts at refused
  split_ifs at refused ⊢ with noFormat isAlias
  · simp [isAlias] at refused
  · rfl
  · rw [notSpace, Bool.false_or, Option.isSome_eq_false_iff, Option.isNone_iff_eq_none] at refused
    rw [refused, Option.map_none]

/-- **An accepted token is consumed, together with its argument**, when the token is not the last
one or needs no argument after it. -/
theorem matchAndGetArg_accept {rest : List Str} (ahead : args.drop it = tok :: rest)
    (accepted : o.accepts tok = true) (complete : o.dangles tok rest = false) :
    ∃ it', o.matchAndGetArg args it [] = .ok (some (it', (o.takeArg tok rest).1)) ∧
      args.drop it' = (o.takeArg tok rest).2 ∧ (it' = it + 1 ∨ it' = it + 2) ∧
        it' ≤ args.length := by
  have found : args[it]? = some tok := getElem?_of_drop ahead
  have tail : args.drop (it + 1) = rest := drop_succ_of_drop ahead
  have inside : it < args.length := (List.getElem?_eq_some_iff.mp found).1
  cases space : o.spaceForm tok with
  | false =>
    refine ⟨it + 1, ?_, by simp [takeArg, space, tail], Or.inl rfl, inside⟩
    rw [matchAndGetArg_inline found space]
    unfold accepts at accepted
    split_ifs at accepted ⊢ with noFormat isAlias
    · simp [takeArg, space, inlineArg, noFormat]
    · simp [isAlias] at accepted
    · rw [space, Bool.false_or] at accepted
      obtain ⟨value, given⟩ := Option.isSome_iff_exists.mp accepted
      simp [takeArg, space, given]
  | true =>
    cases rest with
    | nil => simp [dangles, space] at complete
    | cons next rest =>
      have follows : args[it + 1]? = some next := getElem?_of_drop tail
      have inside' : it + 1 < args.length := (List.getElem?_eq_some_iff.mp follows).1
      unfold matchAndGetArg
      rw [deref_of_getElem? found, ok_bind, if_neg (format_of_spaceForm space),
        if_pos (spaceForm_eq_true.mp space), deref_of_getElem? follows, ok_bind, pure_eq_ok]
      cases stops : o.prefixStops next with
      | true =>
        exact ⟨it + 1, by simp [takeArg, space, stops], by simp [takeArg, space, stops, tail],
          Or.inl rfl, inside⟩
      | false =>
        exact ⟨it + 2, by simp [takeArg, space, stops],
          by simp [takeArg, space, stops, drop_succ_of_drop tail], Or.inr rfl, inside'⟩

/-- **In the space form the next element is read whether or not it exists.** -/
theorem matchAndGetArg_dangling {rest : List Str} (ahead : args.drop it = tok :: rest)
    (hangs : o.dangles tok rest = true) (arg : Str) :
    o.matchAndGetArg args it arg = .error .pastEnd := by
  obtain ⟨space, last⟩ := Bool.and_eq_true_iff.mp hangs
  have missing : args[it + 1]? = none := by
    rw [getElem?_eq_head?_drop, drop_succ_of_drop ahead, List.isEmpty_iff.mp last]
    rfl
  unfold matchAndGetArg
  rw [deref_of_getElem? (getElem?_of_drop ahead), ok_bind, if_neg (format_of_spaceForm space),
    if_pos (spaceForm_eq_true.mp space), deref_of_none missing, error_bind]

end ToolOption

end Xcalbuild.Profile
