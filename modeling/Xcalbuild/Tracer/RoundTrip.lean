/-
**An argument vector through the build specification.**

The tracer prints the arguments of a command as an array of strings, with escaped quotes around
those that have white space in them; the profile takes the quotes around an argument off again.

* `stringArray_argumentsText`: the strings that are read from the array;
* `unquote_argValue_iff`: unquoting gives an argument back exactly when it has no quotes of its own
  or has white space;
* `arguments_roundTrip`: the argument vector is read back, with its white space as spaces.
-/
import Xcalbuild.Profile.Parse
import Xcalbuild.Tracer.Objects

namespace Xcalbuild.Tracer

open Library
open Library.Json (lex lex_append_eq_some parse parseTokens parseTokens_append parseTokens_array
  tokenize)
open Profile (unquote)

/-- The arguments of a command, as the tracer prints them. -/
def argumentsText (argv : List Str) : Str :=
  ['['] ++ (stringsFold (jsonEscapeStrings argv) ',' ++ [']'])

/-- The strings of a JSON array. -/
def stringArray (text : Str) : Option (List Str) :=
  match parse text with
  | some (.arr elems) => elems.mapM fun elem => elem.getString.toOption
  | _ => none

/-- There are quotes around the argument. -/
def Quoted (arg : Str) : Prop := arg.head? = some '"' ∧ arg.getLast? = some '"'

/-- There is no white space in the argument. -/
def NoSpace (arg : Str) : Prop := ∀ c ∈ arg, isSpace c = false

instance (arg : Str) : Decidable (NoSpace arg) := List.decidableBAll _ arg

/-! ### Reading the array -/

theorem parse_argumentsText {argv : List Str} (clean : ∀ arg ∈ argv, NoControl arg) :
    parse (argumentsText argv) = some (.arr (argv.map fun arg => .str (argValue arg))) := by
  have args := (lex_args argv).mpr ⟨clean, rfl, rfl⟩
  have text : lex .between (argumentsText argv) =
      some (.between, [.lbracket] ++ (argTokens argv ++ [.rbracket])) :=
    lex_append_eq_some.mpr ⟨_, _, _, rfl, lex_append_eq_some.mpr ⟨_, _, _, args, rfl, rfl⟩, rfl⟩
  have array := parseTokens_array (fun arg => [.string (argValue arg)])
    (fun arg => .str (argValue arg)) argv (fun _ _ _ => rfl) []
  have start : parseTokens (.value []) [.lbracket] = some (.firstElem []) := rfl
  unfold parse tokenize
  rw [text]
  dsimp only
  rw [Option.bind_some, parseTokens_append, start, Option.bind_some]
  unfold argTokens
  rw [array]
  rfl

/-- **The strings that are read from the array.** -/
theorem stringArray_argumentsText {argv : List Str} (clean : ∀ arg ∈ argv, NoControl arg) :
    stringArray (argumentsText argv) = some (argv.map argValue) := by
  have strings : ∀ values : List Str,
      (values.map Json.str).mapM (fun elem => elem.getString.toOption) = some values := by
    intro values
    induction values with
    | nil => rfl
    | cons value rest ih =>
      rw [List.map_cons, List.mapM_cons, ih]
      rfl
  have elems : (argv.map fun arg => Json.str (argValue arg)) = (argv.map argValue).map Json.str := by
    rw [List.map_map]
    rfl
  unfold stringArray
  rw [parse_argumentsText clean, elems]
  exact strings _

/-! ### Unquoting -/

theorem map_spaced_of_noSpace {arg : Str} (noSpace : NoSpace arg) : arg.map spaced = arg := by
  refine (List.map_congr_left fun c member => ?_).trans (List.map_id arg)
  rw [spaced, noSpace c member]
  rfl

/-- Without white space an argument is read as it is. -/
theorem argValue_of_noSpace {arg : Str} (noSpace : NoSpace arg) : argValue arg = arg := by
  rw [argValue, if_pos (countP_eq_zero_iff.mpr noSpace), map_spaced_of_noSpace noSpace]

/-- Quotes that were put around a string are taken off. -/
theorem unquote_quotes (s : Str) : unquote ('"' :: s ++ ['"']) = s := by
  have quoted : ('"' :: s ++ ['"']).head? = some '"' ∧ ('"' :: s ++ ['"']).getLast? = some '"' :=
    ⟨rfl, List.getLast?_concat⟩
  rw [unquote, if_pos quoted]
  show (s ++ ['"']).dropLast = s
  exact List.dropLast_concat

/-- A string is left as it is exactly when there are no quotes around it. -/
theorem unquote_eq_self_iff {s : Str} : unquote s = s ↔ ¬ Quoted s := by
  unfold unquote Quoted
  split_ifs with quoted
  · refine iff_of_false (fun same => ?_) (not_not_intro quoted)
    -- Two quotes less, or one if it is only one, is a shorter string.
    have nonempty : s ≠ [] := by
      rintro rfl
      cases quoted.1
    have lengths := congrArg List.length same
    rw [List.length_dropLast, List.length_tail] at lengths
    have positive := List.length_pos_of_ne_nil nonempty
    omega
  · exact iff_of_true rfl quoted

/-- **Unquoting gives an argument back** exactly when it has no quotes of its own, or white space. -/
theorem unquote_argValue_iff (arg : Str) :
    unquote (argValue arg) = arg.map spaced ↔ (NoSpace arg → ¬ Quoted arg) := by
  by_cases noSpace : NoSpace arg
  · rw [argValue_of_noSpace noSpace, map_spaced_of_noSpace noSpace, unquote_eq_self_iff]
    exact (imp_iff_right noSpace).symm
  · have spaces : ¬ arg.countP isSpace = 0 := fun absent => noSpace (countP_eq_zero_iff.mp absent)
    rw [argValue, if_neg spaces]
    exact iff_of_true (unquote_quotes _) fun clean => absurd clean noSpace

/-- **The argument vector is read back**, with its white space as spaces. -/
theorem arguments_roundTrip (argv : List Str) (clean : ∀ arg ∈ argv, NoControl arg)
    (unquoted : ∀ arg ∈ argv, NoSpace arg → ¬ Quoted arg) :
    ∃ arguments, stringArray (argumentsText argv) = some arguments ∧
      arguments.map unquote = argv.map fun arg => arg.map spaced := by
  refine ⟨_, stringArray_argumentsText clean, ?_⟩
  rw [List.map_map]
  exact List.map_congr_left fun arg member =>
    (unquote_argValue_iff arg).mpr (unquoted arg member)

/-- Quotes, backslashes, white space and an empty argument. -/
theorem arguments_roundTrip_mixed :
    ∃ arguments, stringArray (argumentsText ["gcc".toList, [], "\"a b\"".toList,
        "-DX=\"\\y\"".toList, "\\ \t\"".toList]) = some arguments ∧
      arguments.map unquote = ["gcc".toList, [], "\"a b\"".toList, "-DX=\"\\y\"".toList,
        "\\  \"".toList] := by
  refine arguments_roundTrip ["gcc".toList, [], "\"a b\"".toList, "-DX=\"\\y\"".toList,
    "\\ \t\"".toList] ?_ ?_
  · simp [NoControl, isControl, isSpace]
  · simp [NoSpace, Quoted, isSpace]

end Xcalbuild.Tracer
