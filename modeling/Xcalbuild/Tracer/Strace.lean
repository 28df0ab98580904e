/-
**The commands that strace reports.**

With `-f -v -e trace=execve`, strace prints one line for each call of `execve`, with the path, the
arguments and the environment in quotes. `trace_with_strace` reads a call from its line with one
regular expression, whose classes exclude the bracket `[` from the arguments and from the
environment, apart from the value of `PWD`.

* `entry_of_match`: where the expression can find the entry of `PWD`;
* `matches_line_iff`: the line of a call is matched exactly when no argument and no other entry of
  the environment has a bracket, and then the groups hold the path, the arguments and the directory;
* `recordOf_line`: the record of a call;
* **`records_iff`**: the output has a record for each call of a known binary exactly when none of
  them has such a bracket.
-/
import Mathlib.Data.Char
import Mathlib.Data.List.Lex
import Xcalbuild.Library.JsonText
import Xcalbuild.Library.OrderedMap
import Xcalbuild.Library.Path
import Xcalbuild.Library.Regex
import Xcalbuild.Processor.Compile

namespace Xcalbuild.Tracer

open Library
open Library.Json (lex lex_append_eq_some lex_join_eq lex_plain lex_cons_of_step Plain parse
  parseTokens parseTokens_append parseTokens_array tokenize)
open Library.Regex (Matches Captures many1 seqs matches_lit matches_many1 matches_group matches_alt
  matches_seqs_singleton matches_seqs_lit matches_seqs_many matches_seqs_many1 matches_seqs_group
  regexMatch_eq_some regexMatch_eq_none_iff)

/-! ### `trace_with_strace` -/

/-- `\d+\s+execve\("([^\"]+)", (\[[^\[]+\]), \[[^\[]*"PWD=([^\"]+)"[^\[]*\](\) = 0| <unfinished \.\.\.>)` -/
def execveLine : Regex :=
  seqs [many1 Char.isDigit, many1 isSpace, .lit "execve(\"".toList, .group 1 (many1 (· ≠ '"')),
    .lit "\", ".toList, .group 2 (seqs [.lit ['['], many1 (· ≠ '['), .lit [']']]),
    .lit ", [".toList, .many (· ≠ '['), .lit "\"PWD=".toList, .group 3 (many1 (· ≠ '"')),
    .lit ['"'], .many (· ≠ '['), .lit [']'],
    .group 4 (.alt (.lit ") = 0".toList) (.lit " <unfinished ...>".toList))]

/-- The record of a line, if it is a call of a known binary. -/
def recordOf (binaries : OrderedMap Str Path) (line : Str) : Option Json :=
  match execveLine.regexMatch line with
  | none => none
  | some found =>
      -- Filter by binary file name.
      if binaries.find (Path.filename (found.get 1)) = none then none
      else match parse (found.get 2) with
        | none => none
        | some arguments =>
            some (.obj [("arguments".toList, arguments), ("directory".toList, .str (found.get 3))])

/-- `trace_with_strace`, given the exit code of strace and the file it leaves: the exit code, and the
compile database if it is written. -/
def traceWithStrace (binaries : OrderedMap Str Path) (ec : Nat) (straceIn : Str) :
    Nat × Option Json :=
  if ec ≠ 0 then (ec, none)
  else (0, some (.arr ((lines straceIn).filterMap (recordOf binaries))))

/-! ### What strace prints -/

/-- A printable ASCII character that strace does not escape. -/
def PrintedAsIs (c : Char) : Prop := ' ' ≤ c ∧ c ≤ '~' ∧ c ≠ '"' ∧ c ≠ '\\'

instance (c : Char) : Decidable (PrintedAsIs c) :=
  inferInstanceAs (Decidable (' ' ≤ c ∧ c ≤ '~' ∧ c ≠ '"' ∧ c ≠ '\\'))

/-- The start of the entry that holds the directory. -/
def pwdKey : Str := "PWD=".toList

/-- **A successful call of `execve`.** -/
structure ExecveCall where
  pid : Nat
  path : Str
  argv : List Str
  env : List Str
  pwd : Str
  path_ne_nil : path ≠ []
  argv_ne_nil : argv ≠ []
  pwd_ne_nil : pwd ≠ []
  /-- There is one entry for the directory. -/
  pwd_only : env.filter (fun entry => pwdKey <+: entry) = [pwdKey ++ pwd]
  path_printed : ∀ c ∈ path, PrintedAsIs c
  argv_printed : ∀ arg ∈ argv, ∀ c ∈ arg, PrintedAsIs c
  env_printed : ∀ entry ∈ env, ∀ c ∈ entry, PrintedAsIs c

/-- A string in quotes. -/
def quoted (s : Str) : Str := '"' :: (s ++ ['"'])

/-- Strings in quotes, with commas between them. -/
def stringList (strings : List Str) : Str := join ", ".toList (strings.map quoted)

/-- The line of a call. -/
def ExecveCall.line (call : ExecveCall) : Str :=
  decimal call.pid ++ (' ' :: ("execve(".toList ++ (quoted call.path ++ (", [".toList ++
    (stringList call.argv ++ ("], [".toList ++ (stringList call.env ++ "]) = 0".toList)))))))

/-- The file that strace leaves. -/
def straceFile (calls : List ExecveCall) : Str := calls.flatMap fun call => call.line ++ ['\n']

/-- The record that a call should have. -/
def ExecveCall.record (call : ExecveCall) : Json :=
  .obj [("arguments".toList, .arr (call.argv.map .str)), ("directory".toList, .str call.pwd)]

/-- The call is one of a known binary. -/
def ExecveCall.known (binaries : OrderedMap Str Path) (call : ExecveCall) : Bool :=
  (binaries.find (Path.filename call.path)).isSome

/-- **No bracket in an argument or in another entry of the environment than `PWD`.** -/
def ExecveCall.NoBracket (call : ExecveCall) : Prop :=
  (∀ arg ∈ call.argv, '[' ∉ arg) ∧ ∀ entry ∈ call.env, ¬ pwdKey <+: entry → '[' ∉ entry

instance (call : ExecveCall) : Decidable call.NoBracket :=
  have : Decidable (∀ arg ∈ call.argv, '[' ∉ arg) := List.decidableBAll _ call.argv
  have : Decidable (∀ entry ∈ call.env, ¬ pwdKey <+: entry → '[' ∉ entry) :=
    List.decidableBAll _ call.env
  instDecidableAnd

/-! ### The shape of a matched line -/

/-- A character class that excludes one character. -/
theorem forall_ne_iff {sep : Char} {s : Str} : (∀ c ∈ s, decide (c ≠ sep) = true) ↔ sep ∉ s := by
  simp only [decide_eq_true_eq]
  exact ⟨fun all member => all sep member rfl, fun absent c member same => absent (same ▸ member)⟩

/-- A line with its parts. -/
def lineText (pid blank path args front pwd back tail : Str) : Str :=
  pid ++ (blank ++ ("execve(\"".toList ++ (path ++ ("\", ".toList ++ (('[' :: (args ++ [']'])) ++
    (", [".toList ++ (front ++ ("\"PWD=".toList ++ (pwd ++ ('"' :: (back ++ ']' :: tail)))))))))))

theorem lineText_eq (pid blank path args front pwd back tail : Str) :
    lineText pid blank path args front pwd back tail =
      pid ++ (blank ++ ("execve(".toList ++ '"' :: (path ++ '"' :: (", [".toList ++ (args ++
        ("], [".toList ++ (front ++ '"' :: (pwdKey ++ (pwd ++ '"' :: (back ++ ']' :: tail)))))))))) := by
  have list : ∀ later : Str, '[' :: (args ++ [']']) ++ (", [".toList ++ later) =
      '[' :: (args ++ ("], [".toList ++ later)) := by
    intro later
    rw [List.cons_append, List.append_assoc]
    rfl
  unfold lineText
  rw [list]
  rfl

/-- **What the expression matches**, with what its groups hold. -/
theorem matches_execveLine {s : Str} {captures : Captures} :
    Matches execveLine s captures ↔ ∃ pid blank path args front pwd back tail : Str,
      (pid ≠ [] ∧ ∀ c ∈ pid, c.isDigit = true) ∧ (blank ≠ [] ∧ ∀ c ∈ blank, isSpace c = true) ∧
      (path ≠ [] ∧ '"' ∉ path) ∧ (args ≠ [] ∧ '[' ∉ args) ∧ '[' ∉ front ∧ (pwd ≠ [] ∧ '"' ∉ pwd) ∧
      '[' ∉ back ∧ (tail = ") = 0".toList ∨ tail = " <unfinished ...>".toList) ∧
      s = lineText pid blank path args front pwd back tail ∧
      captures = [(1, path), (2, '[' :: (args ++ [']'])), (3, pwd), (4, tail)] := by
  unfold execveLine
  simp only [matches_seqs_lit, matches_seqs_many, matches_seqs_many1, matches_seqs_group,
    matches_seqs_singleton, matches_many1, matches_lit, matches_group, matches_alt, ← or_and_right,
    forall_ne_iff]
  refine ⟨?_, ?_⟩
  · rintro ⟨pid, _, rfl, pidOk, blank, _, rfl, blankOk, _, rfl, path, _, _, _, rfl, rfl,
      ⟨pathNe, pathOk, rfl⟩, _, rfl, _, _, _, _, rfl, rfl, ⟨_, rfl, args, _, rfl, argsOk, rfl, rfl⟩,
      _, rfl, front, _, rfl, frontOk, _, rfl, pwd, _, _, _, rfl, rfl, ⟨pwdNe, pwdOk, rfl⟩, _, rfl,
      back, _, rfl, backOk, tail, rfl, _, ⟨which, rfl⟩, rfl⟩
    exact ⟨pid, blank, path, args, front, pwd, back, tail, pidOk, blankOk, ⟨pathNe, pathOk⟩, argsOk,
      frontOk, ⟨pwdNe, pwdOk⟩, backOk, which, rfl, rfl⟩
  · rintro ⟨pid, blank, path, args, front, pwd, back, tail, pidOk, blankOk, ⟨pathNe, pathOk⟩, argsOk,
      frontOk, ⟨pwdNe, pwdOk⟩, backOk, which, rfl, rfl⟩
    exact ⟨pid, _, rfl, pidOk, blank, _, rfl, blankOk, _, rfl, path, _, [], _, rfl, rfl,
      ⟨pathNe, pathOk, rfl⟩, _, rfl, _, _, [], _, rfl, rfl, ⟨_, rfl, args, _, rfl, argsOk, rfl, rfl⟩,
      _, rfl, front, _, rfl, frontOk, _, rfl, pwd, _, [], _, rfl, rfl, ⟨pwdNe, pwdOk, rfl⟩, _, rfl,
      back, _, rfl, backOk, tail, rfl, [], ⟨which, rfl⟩, rfl⟩

/-! ### Quoted strings -/

/-- A run of a class ends where it has to. -/
theorem append_inj_of_class {p : Char → Bool} {s t x y : Str} (inS : ∀ c ∈ s, p c = true)
    (inT : ∀ c ∈ t, p c = true) (stopX : (x.takeWhile p) = []) (stopY : y.takeWhile p = [])
    (same : s ++ x = t ++ y) : s = t ∧ x = y := by
  have taken := congrArg (List.takeWhile p) same
  rw [List.takeWhile_append_of_pos inS, List.takeWhile_append_of_pos inT, stopX, stopY,
    List.append_nil, List.append_nil] at taken
  subst taken
  exact ⟨rfl, List.append_cancel_left same⟩

/-- A text without a separator ends at the separator. -/
theorem append_cons_inj {sep : Char} {s t x y : Str} (notInS : sep ∉ s) (notInT : sep ∉ t)
    (same : s ++ sep :: x = t ++ sep :: y) : s = t ∧ x = y := by
  have stop : ∀ z, (sep :: z).takeWhile (fun c => decide (c ≠ sep)) = [] := by simp
  obtain ⟨parts, rest⟩ := append_inj_of_class (forall_ne_iff.mpr notInS) (forall_ne_iff.mpr notInT)
    (stop x) (stop y) same
  exact ⟨parts, (List.cons.inj rest).2⟩

/-- The strings before an entry. -/
def before (strings : List Str) : Str := strings.flatMap fun s => quoted s ++ ", ".toList

/-- The strings after an entry. -/
def after (strings : List Str) : Str := strings.flatMap fun s => ", ".toList ++ quoted s

theorem stringList_cons (s : Str) (rest : List Str) :
    stringList (s :: rest) = quoted s ++ after rest := by
  induction rest generalizing s with
  | nil => exact (List.append_nil _).symm
  | cons t rest ih =>
    have step : stringList (s :: t :: rest) = quoted s ++ (", ".toList ++ stringList (t :: rest)) :=
      List.append_assoc _ _ _
    rw [step, ih t]
    simp [after]

theorem stringList_append (front : List Str) (entry : Str) (back : List Str) :
    stringList (front ++ entry :: back) = before front ++ (quoted entry ++ after back) := by
  induction front with
  | nil => exact stringList_cons entry back
  | cons s front ih =>
    have nonempty : front ++ entry :: back ≠ [] :=
      List.append_ne_nil_of_right_ne_nil _ (List.cons_ne_nil _ _)
    obtain ⟨t, rest, parts⟩ := List.exists_cons_of_ne_nil nonempty
    have step : stringList (s :: t :: rest) = quoted s ++ (", ".toList ++ stringList (t :: rest)) :=
      List.append_assoc _ _ _
    rw [List.cons_append, parts, step, ← parts, ih]
    simp [before]

theorem after_cons (s : Str) (rest : List Str) (tail : Str) :
    after (s :: rest) ++ tail = ',' :: ' ' :: (quoted s ++ (after rest ++ tail)) := by
  simp [after]

/-- After a string that is closed there is no key. -/
theorem after_ne_key {rest : List Str} {tail pwd later : Str} (tailOk : '"' ∉ tail)
    (same : after rest ++ tail = pwdKey ++ (pwd ++ '"' :: later)) : False := by
  cases rest with
  | nil =>
    have whole : tail = pwdKey ++ (pwd ++ '"' :: later) := same
    exact tailOk (whole ▸ by simp)
  | cons s rest =>
    rw [after_cons] at same
    cases same

/-- A quote after a string that is closed opens one of the next strings. -/
theorem exists_of_after_eq {rest : List Str} {tail front later : Str} (tailOk : '"' ∉ tail)
    (same : after rest ++ tail = front ++ '"' :: later) :
    ∃ s others front', rest = s :: others ∧ front = ", ".toList ++ front' ∧
      quoted s ++ (after others ++ tail) = front' ++ '"' :: later := by
  cases rest with
  | nil =>
    have whole : tail = front ++ '"' :: later := same
    exact absurd (whole ▸ by simp) tailOk
  | cons s others =>
    rw [after_cons] at same
    match front, same with
    | [], same => cases same
    | [_], same => cases same
    | _ :: _ :: front', same =>
      obtain ⟨comma, same⟩ := List.cons.inj same
      obtain ⟨blank, same⟩ := List.cons.inj same
      exact ⟨s, others, front', rfl, by rw [← comma, ← blank]; rfl, same⟩

/-- A quote with the key after it opens the first string, or comes after that string. -/
theorem opened_or_later {s : Str} {rest : List Str} {tail front pwd later : Str}
    (notInS : '"' ∉ s) (tailOk : '"' ∉ tail) (pwdOk : '"' ∉ pwd)
    (same : quoted s ++ (after rest ++ tail) = front ++ '"' :: (pwdKey ++ (pwd ++ '"' :: later))) :
    (front = [] ∧ s = pwdKey ++ pwd ∧ later = after rest ++ tail) ∨
      ∃ front', front = quoted s ++ front' ∧
        after rest ++ tail = front' ++ '"' :: (pwdKey ++ (pwd ++ '"' :: later)) := by
  have opened : '"' :: (s ++ '"' :: (after rest ++ tail)) =
      front ++ '"' :: (pwdKey ++ (pwd ++ '"' :: later)) := by
    rw [← same]
    simp [quoted]
  cases front with
  | nil =>
    have here : s ++ '"' :: (after rest ++ tail) = (pwdKey ++ pwd) ++ '"' :: later := by
      rw [List.append_assoc]
      exact (List.cons.inj opened).2
    obtain ⟨name, ends⟩ := append_cons_inj notInS (by simp [pwdKey, pwdOk]) here
    exact Or.inl ⟨rfl, name, ends.symm⟩
  | cons c front =>
    rw [List.cons_append] at opened
    obtain ⟨quote, inside⟩ := List.cons.inj opened
    by_cases within : '"' ∈ front
    · obtain ⟨own, others, parts, notInOwn⟩ := List.eq_append_cons_of_mem within
      rw [parts, List.append_assoc] at inside
      obtain ⟨name, later'⟩ := append_cons_inj notInS notInOwn inside
      refine Or.inr ⟨others, ?_, later'⟩
      rw [parts, ← quote, name]
      simp [quoted]
    · -- The key would come right after the quote that closes the string.
      obtain ⟨-, later'⟩ := append_cons_inj notInS within inside
      exact (after_ne_key tailOk later').elim

/-- **Where the entry of `PWD` is found**: at an entry, since the quote before it opens a string. -/
theorem entry_of_match {tail pwd later : Str} (tailOk : '"' ∉ tail) (pwdOk : '"' ∉ pwd)
    {s : Str} {rest : List Str} {front : Str} (clean : ∀ t ∈ s :: rest, '"' ∉ t)
    (same : quoted s ++ (after rest ++ tail) = front ++ '"' :: (pwdKey ++ (pwd ++ '"' :: later))) :
    ∃ first last, s :: rest = first ++ (pwdKey ++ pwd) :: last ∧ front = before first ∧
      later = after last ++ tail := by
  induction rest generalizing s front with
  | nil =>
    rcases opened_or_later (clean s List.mem_cons_self) tailOk pwdOk same with
      ⟨rfl, rfl, rfl⟩ | ⟨front', -, rest⟩
    · exact ⟨[], [], rfl, rfl, rfl⟩
    · obtain ⟨t, others, -, absent, -⟩ := exists_of_after_eq tailOk rest
      cases absent
  | cons t rest ih =>
    rcases opened_or_later (clean s List.mem_cons_self) tailOk pwdOk same with
      ⟨rfl, rfl, rfl⟩ | ⟨front', rfl, there⟩
    · exact ⟨[], t :: rest, rfl, rfl, rfl⟩
    · obtain ⟨t', others, front', parts, rfl, same'⟩ := exists_of_after_eq tailOk there
      cases parts
      obtain ⟨first, last, entries, rfl, ends⟩ :=
        ih (fun u member => clean u (List.mem_cons_of_mem s member)) same'
      refine ⟨s :: first, last, ?_, ?_, ends⟩
      · rw [entries]
        rfl
      · simp [before]

/-! ### Brackets -/

theorem bracket_mem_before {strings : List Str} :
    '[' ∈ before strings ↔ ∃ s ∈ strings, '[' ∈ s := by
  simp [before, quoted]

theorem bracket_mem_after {strings : List Str} :
    '[' ∈ after strings ↔ ∃ s ∈ strings, '[' ∈ s := by
  simp [after, quoted]

theorem bracket_mem_stringList {strings : List Str} :
    '[' ∈ stringList strings ↔ ∃ s ∈ strings, '[' ∈ s := by
  cases strings with
  | nil => simp [stringList, join]
  | cons s rest =>
    rw [stringList_cons, List.mem_append, bracket_mem_after, List.exists_mem_cons_iff]
    refine or_congr_left ?_
    simp [quoted]

/-- The last string is closed. -/
theorem stringList_closed {strings : List Str} (nonempty : strings ≠ []) :
    ∃ body, stringList strings = body ++ ['"'] := by
  have parts := List.dropLast_append_getLast nonempty
  refine ⟨before strings.dropLast ++ ('"' :: strings.getLast nonempty), ?_⟩
  conv_lhs => rw [← parts, stringList_append]
  simp [after, quoted]

/-- **Between the lists there is a bracket that no directory can hold**: it does not come right after
an open string. -/
theorem bracket_between {early late front pwd back : Str} (notInFront : '[' ∉ front)
    (pwdOk : '"' ∉ pwd) (notInBack : '[' ∉ back)
    (same : early ++ '"' :: ("], ".toList ++ '[' :: late) =
      front ++ '"' :: (pwdKey ++ (pwd ++ '"' :: back))) : False := by
  have cut : (early ++ '"' :: "], ".toList) ++ '[' :: late =
      (front ++ '"' :: pwdKey) ++ (pwd ++ '"' :: back) := by
    rw [List.append_assoc, List.append_assoc]
    exact same
  have notInKey : '[' ∉ front ++ '"' :: pwdKey := by simp [notInFront, pwdKey]
  obtain ⟨mid, start, rest⟩ : ∃ mid, early ++ '"' :: "], ".toList = (front ++ '"' :: pwdKey) ++ mid ∧
      pwd ++ '"' :: back = mid ++ '[' :: late := by
    rcases List.append_eq_append_iff.mp cut with ⟨mid, key, rest⟩ | found
    · cases mid with
      | nil => exact ⟨[], by rw [key]; simp, rest.symm⟩
      | cons c mid =>
        obtain ⟨rfl, -⟩ := List.cons.inj rest
        exact absurd (key ▸ by simp) notInKey
    · exact found
  by_cases quote : '"' ∈ mid
  · -- The directory has ended, and there is no bracket after it.
    obtain ⟨own, others, rfl, notInOwn⟩ := List.eq_append_cons_of_mem quote
    rw [List.append_assoc] at rest
    obtain ⟨-, later⟩ := append_cons_inj pwdOk notInOwn rest
    exact notInBack (later ▸ by simp)
  · have last := congrArg (afterLast '"') start
    rw [afterLast_append early (by decide), List.append_assoc, List.cons_append,
      afterLast_append front (by simp [pwdKey, quote])] at last
    cases last

theorem separator_eq (late : Str) : "], [".toList ++ late = "], ".toList ++ '[' :: late := rfl

/-- **The bracket between the lists is found**, so there is none in the arguments. -/
theorem args_of_match {argv : List Str} {late args front pwd back : Str} (argvNe : argv ≠ [])
    (argsOk : '[' ∉ args) (frontOk : '[' ∉ front) (pwdOk : '"' ∉ pwd) (backOk : '[' ∉ back)
    (same : stringList argv ++ ("], [".toList ++ late) =
      args ++ ("], [".toList ++ (front ++ '"' :: (pwdKey ++ (pwd ++ '"' :: back))))) :
    stringList argv = args ∧ late = front ++ '"' :: (pwdKey ++ (pwd ++ '"' :: back)) := by
  have notInArgs : '[' ∉ args ++ "], ".toList := by simp [argsOk]
  rw [separator_eq, separator_eq, ← List.append_assoc args] at same
  by_cases inside : '[' ∈ stringList argv
  · exfalso
    obtain ⟨own, others, parts, notInOwn⟩ := List.eq_append_cons_of_mem inside
    rw [parts, List.append_assoc] at same
    obtain ⟨-, between⟩ := append_cons_inj notInOwn notInArgs same
    -- What follows the bracket in the arguments ends with a quote.
    obtain ⟨body, closed⟩ := stringList_closed argvNe
    obtain ⟨early, rfl⟩ : ∃ early, others = early ++ ['"'] := by
      have ends := closed.symm.trans parts
      rcases List.eq_nil_or_concat others with rfl | ⟨early, c, rfl⟩
      · cases (List.append_inj' ends rfl).2
      · rw [List.concat_eq_append, ← List.cons_append, ← List.append_assoc] at ends
        exact ⟨early, by rw [List.concat_eq_append, ← (List.append_inj' ends rfl).2]⟩
    have between : early ++ '"' :: ("], ".toList ++ '[' :: late) =
        front ++ '"' :: (pwdKey ++ (pwd ++ '"' :: back)) := by
      rw [← between]
      exact (List.append_assoc early ['"'] _).symm
    exact bracket_between frontOk pwdOk backOk between
  · rw [← List.append_assoc] at same
    obtain ⟨front', rest⟩ := append_cons_inj (by simp [inside]) notInArgs same
    exact ⟨List.append_cancel_right front', rest⟩

/-- **The entry of `PWD` is found.** -/
theorem env_of_match {env : List Str} {front pwd back : Str} (envNe : env ≠ [])
    (envClean : ∀ entry ∈ env, '"' ∉ entry) (pwdOk : '"' ∉ pwd)
    (same : stringList env ++ "]) = 0".toList = front ++ '"' :: (pwdKey ++ (pwd ++ '"' :: back))) :
    ∃ first last, env = first ++ (pwdKey ++ pwd) :: last ∧ front = before first ∧
      back = after last ++ "]) = 0".toList := by
  obtain ⟨entry, rest, rfl⟩ := List.exists_cons_of_ne_nil envNe
  rw [stringList_cons, List.append_assoc] at same
  exact entry_of_match (by decide) pwdOk envClean same

/-! ### The line of a call -/

theorem ExecveCall.line_eq (call : ExecveCall) :
    call.line = decimal call.pid ++ ([' '] ++ ("execve(".toList ++ '"' :: (call.path ++ '"' ::
      (", [".toList ++ (stringList call.argv ++ ("], [".toList ++
        (stringList call.env ++ "]) = 0".toList)))))) ) := by
  have path : ∀ later, quoted call.path ++ later = '"' :: (call.path ++ '"' :: later) := by
    simp [quoted]
  unfold ExecveCall.line
  rw [path]
  rfl

theorem PrintedAsIs.ne_quote {s : Str} (printed : ∀ c ∈ s, PrintedAsIs c) : '"' ∉ s :=
  fun member => (printed '"' member).2.2.1 rfl

/-- The entry of the directory, and the other entries. -/
theorem ExecveCall.env_parts (call : ExecveCall) :
    ∃ first last, call.env = first ++ (pwdKey ++ call.pwd) :: last ∧
      ∀ entry ∈ first ++ last, ¬ pwdKey <+: entry := by
  have found : pwdKey ++ call.pwd ∈ call.env.filter fun entry => pwdKey <+: entry := by
    rw [call.pwd_only]
    exact List.mem_singleton_self _
  obtain ⟨first, last, parts⟩ := List.append_of_mem (List.mem_filter.mp found).1
  refine ⟨first, last, parts, ?_⟩
  have one := congrArg List.length call.pwd_only
  rw [parts, List.filter_append, List.filter_cons_of_pos (p := fun entry => pwdKey <+: entry)
    (List.mem_filter.mp found).2, List.length_append, List.length_cons, List.length_singleton] at one
  have absent : (first ++ last).filter (fun entry => pwdKey <+: entry) = [] := by
    rw [List.filter_append, List.append_eq_nil_iff, ← List.length_eq_zero_iff,
      ← List.length_eq_zero_iff]
    omega
  simpa using List.filter_eq_nil_iff.mp absent

theorem ExecveCall.env_ne_nil (call : ExecveCall) : call.env ≠ [] := by
  obtain ⟨first, last, parts, -⟩ := call.env_parts
  rw [parts]
  exact List.append_ne_nil_of_right_ne_nil _ (List.cons_ne_nil _ _)

/-- There is one directory. -/
theorem ExecveCall.pwd_unique (call : ExecveCall) {pwd : Str} (member : pwdKey ++ pwd ∈ call.env) :
    call.pwd = pwd := by
  have found : pwdKey ++ pwd ∈ call.env.filter fun entry => pwdKey <+: entry :=
    List.mem_filter.mpr ⟨member, decide_eq_true (List.prefix_append _ _)⟩
  rw [call.pwd_only, List.mem_singleton] at found
  exact (List.append_cancel_left found).symm

/-- What the groups hold for a call. -/
def ExecveCall.captures (call : ExecveCall) : Captures :=
  [(1, call.path), (2, '[' :: (stringList call.argv ++ [']'])), (3, call.pwd), (4, ") = 0".toList)]

/-- **The line of a call without brackets is matched.** -/
theorem matches_line {call : ExecveCall} (clean : call.NoBracket) :
    Matches execveLine call.line call.captures := by
  obtain ⟨first, last, parts, others⟩ := call.env_parts
  have noBracket : ∀ entry ∈ first ++ last, '[' ∉ entry := fun entry member =>
    clean.2 entry (by
      rw [parts]
      simp only [List.mem_append, List.mem_cons] at member ⊢
      exact member.imp_right Or.inr) (others entry member)
  obtain ⟨argsBody, closed⟩ := stringList_closed call.argv_ne_nil
  refine matches_execveLine.mpr ⟨decimal call.pid, [' '], call.path, stringList call.argv,
    before first, call.pwd, after last, ") = 0".toList, ⟨?_, fun c => digit_of_mem_decimal⟩, ?_,
    ⟨call.path_ne_nil, PrintedAsIs.ne_quote call.path_printed⟩, ⟨?_, ?_⟩, ?_, ⟨call.pwd_ne_nil, ?_⟩,
    ?_, Or.inl rfl, ?_, rfl⟩
  · exact Nat.toDigits_ne_nil
  · exact ⟨List.cons_ne_nil _ _, List.forall_mem_singleton.mpr rfl⟩
  · rw [closed]
    exact List.append_ne_nil_of_right_ne_nil _ (List.cons_ne_nil _ _)
  · rw [bracket_mem_stringList]
    exact fun ⟨arg, member, inside⟩ => clean.1 arg member inside
  · rw [bracket_mem_before]
    exact fun ⟨entry, member, inside⟩ =>
      noBracket entry (List.mem_append_left last member) inside
  · have entry := call.env_printed (pwdKey ++ call.pwd) (by rw [parts]; simp)
    exact PrintedAsIs.ne_quote fun c member => entry c (List.mem_append_right pwdKey member)
  · rw [bracket_mem_after]
    exact fun ⟨entry, member, inside⟩ =>
      noBracket entry (List.mem_append_right first member) inside
  · have entry : stringList call.env ++ "]) = 0".toList = before first ++ '"' :: (pwdKey ++
        (call.pwd ++ '"' :: (after last ++ ']' :: ") = 0".toList))) := by
      rw [parts, stringList_append]
      simp [quoted]
    rw [ExecveCall.line_eq, lineText_eq, entry]

/-- A blank is no digit. -/
theorem not_digit_of_isSpace {c : Char} (space : isSpace c = true) : c.isDigit = false := by
  simp only [isSpace, Bool.or_eq_true, decide_eq_true_eq] at space
  rcases space with ((((rfl | rfl) | rfl) | rfl) | rfl) | rfl <;> decide

/-- **The line of a call is matched in one way only, and only without brackets.** -/
theorem noBracket_of_matches {call : ExecveCall} {captures : Captures}
    (found : Matches execveLine call.line captures) : call.NoBracket ∧ captures = call.captures := by
  obtain ⟨pid, blank, path, args, front, pwd, back, tail, ⟨-, digits⟩, ⟨blankNe, blanks⟩,
    ⟨-, pathOk⟩, ⟨-, argsOk⟩, frontOk, ⟨-, pwdOk⟩, backOk, which, text, rfl⟩ :=
    matches_execveLine.mp found
  have argvClean : ∀ arg ∈ call.argv, '"' ∉ arg := fun arg member =>
    PrintedAsIs.ne_quote (call.argv_printed arg member)
  have envClean : ∀ entry ∈ call.env, '"' ∉ entry := fun entry member =>
    PrintedAsIs.ne_quote (call.env_printed entry member)
  rw [ExecveCall.line_eq, lineText_eq] at text
  -- The process, the blank and the path.
  obtain ⟨b, bs, rfl⟩ := List.exists_cons_of_ne_nil blankNe
  obtain ⟨-, afterPid⟩ := append_inj_of_class (fun c => digit_of_mem_decimal) digits rfl
    (by simp [not_digit_of_isSpace (blanks b List.mem_cons_self)]) text
  have single : ∀ c ∈ [' '], isSpace c = true := List.forall_mem_singleton.mpr rfl
  obtain ⟨-, afterBlank⟩ := append_inj_of_class single blanks rfl rfl afterPid
  obtain ⟨samePath, afterPath⟩ := append_cons_inj (PrintedAsIs.ne_quote call.path_printed) pathOk
    (List.cons.inj (List.append_cancel_left afterBlank)).2
  have lists := List.append_cancel_left afterPath
  -- The arguments and the environment.
  have tailOk : '[' ∉ back ++ ']' :: tail := by
    rcases which with rfl | rfl <;> simp [backOk]
  obtain ⟨sameArgs, env⟩ := args_of_match call.argv_ne_nil argsOk frontOk pwdOk tailOk lists
  obtain ⟨first, last, parts, rfl, ends⟩ := env_of_match call.env_ne_nil envClean pwdOk env
  have samePwd : call.pwd = pwd := call.pwd_unique (by rw [parts]; simp)
  have noBracket : call.NoBracket := by
    refine ⟨fun arg member inside => ?_, fun entry member other inside => ?_⟩
    · exact argsOk (sameArgs ▸ bracket_mem_stringList.mpr ⟨arg, member, inside⟩)
    · rw [parts, List.mem_append, List.mem_cons] at member
      rcases member with member | rfl | member
      · exact frontOk (bracket_mem_before.mpr ⟨entry, member, inside⟩)
      · exact other (List.prefix_append _ _)
      · refine tailOk ?_
        rw [ends]
        exact List.mem_append_left _ (bracket_mem_after.mpr ⟨entry, member, inside⟩)
  have sameTail : tail = ") = 0".toList := by
    rcases which with rfl | rfl
    · rfl
    · have lasts := congrArg List.getLast? ends
      simp at lasts
  rw [ExecveCall.captures, samePath, sameArgs, samePwd, sameTail]
  exact ⟨noBracket, rfl⟩

/-! ### The records -/

theorem lex_quoted {s : Str} (printed : ∀ c ∈ s, PrintedAsIs c) :
    lex .between (quoted s) = some (.between, [.string s]) := by
  have plain : ∀ c ∈ s, Plain c := fun c member =>
    ⟨not_lt_of_ge (printed c member).1, (printed c member).2.2⟩
  rw [quoted, lex_cons_of_step rfl, lex_plain plain]
  rfl

/-- **The arguments are read back.** -/
theorem parse_stringList {strings : List Str} (printed : ∀ s ∈ strings, ∀ c ∈ s, PrintedAsIs c) :
    parse ('[' :: (stringList strings ++ [']'])) = some (.arr (strings.map .str)) := by
  have inside : lex .between (stringList strings) =
      some (.between, join [.comma] (strings.map fun s => [.string s])) :=
    lex_join_eq quoted (fun s => [.string s]) rfl strings fun s member =>
      lex_quoted (printed s member)
  have text : lex .between (['['] ++ (stringList strings ++ [']'])) = some (.between,
      [.lbracket] ++ (join [.comma] (strings.map fun s => [.string s]) ++ [.rbracket])) :=
    lex_append_eq_some.mpr ⟨_, _, _, rfl, lex_append_eq_some.mpr ⟨_, _, _, inside, rfl, rfl⟩, rfl⟩
  have array := parseTokens_array (fun s => [.string s]) Json.str strings (fun _ _ _ => rfl) []
  have start : parseTokens (.value []) [.lbracket] = some (.firstElem []) := rfl
  unfold parse tokenize
  rw [← List.singleton_append, text]
  dsimp only
  rw [Option.bind_some, parseTokens_append, start, Option.bind_some, array]
  rfl

/-- **The record of the line of a call.** -/
theorem recordOf_line (binaries : OrderedMap Str Path) (call : ExecveCall) :
    recordOf binaries call.line =
      if call.known binaries ∧ call.NoBracket then some call.record else none := by
  unfold recordOf
  by_cases clean : call.NoBracket
  · have found : execveLine.regexMatch call.line = some call.captures :=
      regexMatch_eq_some (matches_line clean) fun other found => (noBracket_of_matches found).2
    have path : call.captures.get 1 = call.path := rfl
    have args : call.captures.get 2 = '[' :: (stringList call.argv ++ [']']) := rfl
    have pwd : call.captures.get 3 = call.pwd := rfl
    rw [found]
    dsimp only
    rw [path, args, pwd, parse_stringList call.argv_printed]
    unfold ExecveCall.known
    by_cases unknown : binaries.find (Path.filename call.path) = none
    · simp [unknown]
    · rw [if_neg unknown, if_pos ⟨Option.isSome_iff_ne_none.mpr unknown, clean⟩]
      rfl
  · have missed : execveLine.regexMatch call.line = none :=
      regexMatch_eq_none_iff.mpr fun _ found => clean (noBracket_of_matches found).1
    rw [missed, if_neg fun both => clean both.2]

theorem newline_notMem_line (call : ExecveCall) : '\n' ∉ call.line := by
  have printed : ∀ s : Str, (∀ c ∈ s, PrintedAsIs c) → '\n' ∉ s := fun s clean member =>
    absurd (clean '\n' member) (by decide)
  have strings : ∀ list : List Str, (∀ s ∈ list, ∀ c ∈ s, PrintedAsIs c) →
      '\n' ∉ stringList list := by
    intro list clean member
    cases list with
    | nil => cases member
    | cons s rest =>
      have own := printed s (clean s List.mem_cons_self)
      have others : ∀ t ∈ rest, '\n' ∉ t := fun t inside =>
        printed t (clean t (List.mem_cons_of_mem s inside))
      rw [stringList_cons] at member
      simp [quoted, after, own] at member
      obtain ⟨t, inside, found⟩ := member
      exact others t inside found
  have pid : '\n' ∉ decimal call.pid := not_mem_decimal (by decide)
  rw [ExecveCall.line_eq]
  simp [pid, printed _ call.path_printed, strings _ call.argv_printed, strings _ call.env_printed]

/-- The records of the lines of some calls. -/
theorem filterMap_recordOf (binaries : OrderedMap Str Path) (calls : List ExecveCall) :
    (calls.map ExecveCall.line).filterMap (recordOf binaries) = ((calls.filter
      (ExecveCall.known binaries)).filter fun call => call.NoBracket).map ExecveCall.record := by
  induction calls with
  | nil => rfl
  | cons call rest ih =>
    rw [List.map_cons, List.filterMap_cons, recordOf_line, ih]
    by_cases isKnown : call.known binaries = true
    · by_cases clean : call.NoBracket
      · simp [isKnown, clean]
      · simp [isKnown, clean]
    · simp [isKnown]

/-- **The output**: a record for each call of a known binary without brackets. -/
theorem traceWithStrace_eq (binaries : OrderedMap Str Path) (calls : List ExecveCall) :
    traceWithStrace binaries 0 (straceFile calls) = (0, some (.arr (((calls.filter
      (ExecveCall.known binaries)).filter fun call => call.NoBracket).map ExecveCall.record))) := by
  have text : straceFile calls = (calls.map ExecveCall.line).flatMap fun line => line ++ ['\n'] := by
    rw [List.flatMap_map]
    rfl
  unfold traceWithStrace
  rw [if_neg (not_not.mpr rfl), text, lines_ended, filterMap_recordOf]
  intro line member
  obtain ⟨call, -, rfl⟩ := List.mem_map.mp member
  exact newline_notMem_line call

/-- **The output has a record for each call of a known binary** exactly when none of these calls has
a bracket in an argument or in another entry of the environment than `PWD`. -/
theorem records_iff (binaries : OrderedMap Str Path) (calls : List ExecveCall) :
    traceWithStrace binaries 0 (straceFile calls) =
        (0, some (.arr ((calls.filter (ExecveCall.known binaries)).map ExecveCall.record))) ↔
      ∀ call ∈ calls, call.known binaries = true → call.NoBracket := by
  rw [traceWithStrace_eq, Prod.mk.injEq, Option.some_inj, Json.arr.injEq, and_iff_right rfl]
  refine ⟨fun same => ?_, fun clean => ?_⟩
  · have lengths := congrArg List.length same
    rw [List.length_map, List.length_map, List.length_filter_eq_length_iff] at lengths
    intro call member isKnown
    exact of_decide_eq_true (lengths call (List.mem_filter.mpr ⟨member, isKnown⟩))
  · rw [List.filter_eq_self.mpr]
    intro call member
    obtain ⟨inside, isKnown⟩ := List.mem_filter.mp member
    exact decide_eq_true (clean call inside isKnown)

theorem printed_of_all {s : Str} (all : s.all (fun c => decide (PrintedAsIs c)) = true) :
    ∀ c ∈ s, PrintedAsIs c :=
  fun c member => of_decide_eq_true (List.all_eq_true.mp all c member)

/-- The compiler is called with the macro of an array element. -/
def bracketCall : ExecveCall where
  pid := 100
  path := "/usr/bin/gcc".toList
  argv := ["gcc".toList, "-DX=a[1]".toList]
  env := ["PWD=/w".toList]
  pwd := "/w".toList
  path_ne_nil := by decide
  argv_ne_nil := by decide
  pwd_ne_nil := by decide
  pwd_only := by decide
  path_printed := printed_of_all (by decide)
  argv_printed := List.forall_mem_cons.mpr ⟨printed_of_all (by decide),
    List.forall_mem_singleton.mpr (printed_of_all (by decide))⟩
  env_printed := List.forall_mem_singleton.mpr (printed_of_all (by decide))

def bracketBinaries : OrderedMap Str Path :=
  OrderedMap.empty.set "gcc".toList "/usr/bin/gcc".toList

/-- **The call is dropped.** -/
theorem bracketCall_dropped :
    traceWithStrace bracketBinaries 0 (straceFile [bracketCall]) = (0, some (.arr [])) ∧
      ([bracketCall].filter (ExecveCall.known bracketBinaries)).map ExecveCall.record ≠ [] := by
  refine ⟨?_, by decide⟩
  rw [traceWithStrace_eq]
  rfl

end Xcalbuild.Tracer
