/-
**How an object of the tracer is read back.**

An object of the output is read by a JSON reader piece by piece. The arguments and the response
content are escaped, so only control characters stop the reader there (`lex_args`, `lex_resp`). The
directory is printed as it is: what the reader makes of it depends on its text, but since no string
goes over the end of a line, the reader has left the string it is in when the line ends
(`lex_middle`).

* `lex_object`: the tokens of an object, whenever it can be read;
* `parseTokens_object`: the value of an object whose directory is read as it is.
-/
import Mathlib.Data.List.Forall2
import Xcalbuild.Library.JsonText
import Xcalbuild.Tracer.Output

namespace Xcalbuild.Tracer

open Library
open Library.Json (LexState Token ParseState Frame Plain lex lex_append lex_append_eq_some
  lex_cons_of_step lex_cons_of_none lex_unescaped lexStep lexStep_string lexStep_plain lex_join
  lex_join_eq parseTokens parseTokens_append parseTokens_array complete)

/-! ### Escaped text -/

/-- White space is printed as a space. -/
def spaced (c : Char) : Char := if isSpace c then ' ' else c

/-- A control character that is no white space. -/
def isControl (c : Char) : Bool := decide (c < ' ') && !isSpace c

/-- Without control characters there is nothing to stop a reader. -/
def NoControl (s : Str) : Prop := ∀ c ∈ s, isControl c = false

instance (s : Str) : Decidable (NoControl s) :=
  inferInstanceAs (Decidable (∀ c ∈ s, isControl c = false))

theorem needsStrEscape_iff {c : Char} : needsStrEscape c = true ↔ c = '\\' ∨ c = '"' := by
  simp [needsStrEscape]

theorem not_needsStrEscape_of_isSpace {c : Char} (space : isSpace c = true) :
    needsStrEscape c = false := by
  unfold isSpace at space
  unfold needsStrEscape
  grind

/-- The reader on one escaped character. -/
theorem lex_escapeChar (value : Str) (c : Char) (rest : Str) :
    lex (.string value) (escapeChar c ++ rest) =
      if isControl c then none else lex (.string (value ++ [spaced c])) rest := by
  by_cases space : isSpace c = true
  · have printed : escapeChar c = [' '] := by
      simp [escapeChar, not_needsStrEscape_of_isSpace space, space]
    have passes : isControl c = false := by simp [isControl, space]
    rw [printed, passes, if_neg Bool.false_ne_true, spaced, if_pos space, List.singleton_append]
    exact lex_cons_of_step (lexStep_plain (by decide) value) rest
  · by_cases escaped : needsStrEscape c = true
    · have printed : escapeChar c = ['\\', c] := by simp [escapeChar, escaped, space]
      have passes : isControl c = false := by
        rcases needsStrEscape_iff.mp escaped with rfl | rfl <;> decide
      have read : lexStep (.escape value) c = some (.string (value ++ [c]), []) := by
        rcases needsStrEscape_iff.mp escaped with rfl | rfl <;> rfl
      rw [printed, passes, if_neg Bool.false_ne_true, spaced, if_neg space]
      exact (lex_cons_of_step rfl (c :: rest)).trans (lex_cons_of_step read rest)
    · have printed : escapeChar c = [c] := by simp [escapeChar, escaped, space]
      have notSpecial := not_or.mp (mt needsStrEscape_iff.mpr escaped)
      rw [printed, List.singleton_append, spaced, if_neg space]
      by_cases control : c < ' '
      · have stops : isControl c = true := by simp [isControl, control, space]
        rw [stops, if_pos rfl]
        refine lex_cons_of_none ?_ rest
        rw [lexStep_string, if_neg notSpecial.2, if_neg notSpecial.1, if_pos control]
      · have passes : isControl c = false := by simp [isControl, control]
        rw [passes, if_neg Bool.false_ne_true]
        exact lex_cons_of_step (lexStep_plain ⟨control, notSpecial.2, notSpecial.1⟩ value) rest

/-- **Escaped text is read with its white space as spaces**, unless there is a control character
in it. -/
theorem lex_escaped (value s : Str) (rest : Str) :
    lex (.string value) (s.flatMap escapeChar ++ rest) =
      if NoControl s then lex (.string (value ++ s.map spaced)) rest else none := by
  induction s generalizing value with
  | nil => simp [NoControl]
  | cons c tail ih =>
    rw [List.flatMap_cons, List.append_assoc, lex_escapeChar, ih]
    cases control : isControl c with
    | true => simp [NoControl, control]
    | false => simp [NoControl, control]

/-! ### Arguments -/

/-- What an argument is read as: there are quotes around one with spaces. -/
def argValue (arg : Str) : Str :=
  if arg.countP isSpace = 0 then arg.map spaced else '"' :: arg.map spaced ++ ['"']

/-- Text without white space and without anything to escape is printed as it is. -/
theorem flatMap_escapeChar {s : Str} (noSpace : ∀ c ∈ s, isSpace c = false)
    (nothing : ∀ c ∈ s, needsEscape c = false) : s.flatMap escapeChar = s := by
  induction s with
  | nil => rfl
  | cons c rest ih =>
    have here := nothing c List.mem_cons_self
    have noEscape : needsStrEscape c = false := by
      unfold needsEscape at here
      unfold needsStrEscape
      grind
    have printed : escapeChar c = [c] := by
      simp [escapeChar, noSpace c List.mem_cons_self, noEscape]
    rw [List.flatMap_cons, printed, ih
      (fun other member => noSpace other (List.mem_cons_of_mem c member))
      fun other member => nothing other (List.mem_cons_of_mem c member)]
    rfl

theorem countP_eq_zero_iff {p : Char → Bool} {s : Str} :
    s.countP p = 0 ↔ ∀ c ∈ s, p c = false := by
  rw [List.countP_eq_zero]
  exact forall₂_congr fun c _ => iff_of_eq (Bool.not_eq_true (p c))

/-- The quotes around an argument with spaces. -/
def argQuote (arg : Str) : Str := if arg.countP isSpace = 0 then [] else ['\\', '"']

/-- The printed form of an argument. -/
theorem jsonEscapeString_arg (arg : Str) :
    (jsonEscapeString arg true).getD arg = argQuote arg ++ arg.flatMap escapeChar ++ argQuote arg := by
  unfold jsonEscapeString argQuote
  dsimp only
  rw [if_pos rfl]
  by_cases absent : arg.countP isSpace = 0 ∧ arg.countP needsEscape = 0
  · have printed := flatMap_escapeChar (countP_eq_zero_iff.mp absent.1)
      (countP_eq_zero_iff.mp absent.2)
    rw [if_pos absent, if_pos absent.1, printed, List.nil_append, List.append_nil]
    rfl
  · rw [if_neg absent, Option.getD_some]
    by_cases space : arg.countP isSpace = 0
    · rw [if_pos space, if_neg (not_not.mpr space)]
    · rw [if_neg space, if_pos space]

/-- The reader at the start of a string. -/
theorem lex_quote (rest : Str) : lex .between ('"' :: rest) = lex (.string []) rest :=
  lex_cons_of_step rfl rest

theorem lex_escapedQuote (value rest : Str) :
    lex (.string value) ('\\' :: '"' :: rest) = lex (.string (value ++ ['"'])) rest :=
  (lex_cons_of_step rfl ('"' :: rest)).trans (lex_cons_of_step rfl rest)

/-- The reader on one argument. -/
theorem lex_arg (arg : Str) :
    lex .between ('"' :: (jsonEscapeString arg true).getD arg ++ ['"']) =
      if NoControl arg then some (.between, [.string (argValue arg)]) else none := by
  rw [jsonEscapeString_arg, List.cons_append, lex_quote]
  unfold argQuote argValue
  by_cases space : arg.countP isSpace = 0
  · rw [if_pos space, if_pos space, List.nil_append, List.append_nil, lex_escaped,
      List.nil_append]
    rfl
  · rw [if_neg space, if_neg space]
    have parts : (['\\', '"'] ++ arg.flatMap escapeChar ++ ['\\', '"']).append ['"'] =
        '\\' :: '"' :: (arg.flatMap escapeChar ++ '\\' :: '"' :: ['"']) := by simp
    refine (congrArg (lex (.string [])) parts).trans ?_
    rw [lex_escapedQuote, lex_escaped, lex_escapedQuote]
    rfl

/-- The tokens of the arguments. -/
def argTokens (cmd : List Str) : List Token :=
  join [.comma] (cmd.map fun arg => [.string (argValue arg)])

theorem stringsFold_eq (cmd : List Str) :
    stringsFold (jsonEscapeStrings cmd) ',' =
      join [','] (cmd.map fun arg => '"' :: (jsonEscapeString arg true).getD arg ++ ['"']) := by
  rw [stringsFold, jsonEscapeStrings, List.map_map]
  rfl

/-- **The arguments can be read exactly when they have no control characters.** -/
theorem lex_args (cmd : List Str) {final : LexState} {tokens : List Token} :
    lex .between (stringsFold (jsonEscapeStrings cmd) ',') = some (final, tokens) ↔
      (∀ arg ∈ cmd, NoControl arg) ∧ final = .between ∧ tokens = argTokens cmd := by
  have comma : lex .between [','] = some (.between, [.comma]) := rfl
  rw [stringsFold_eq]
  constructor
  · intro read
    obtain ⟨closed, parts, all, rfl⟩ := lex_join
      (fun arg => '"' :: (jsonEscapeString arg true).getD arg ++ ['"'])
      (fun arg tokens => NoControl arg ∧ tokens = [.string (argValue arg)]) comma
      cmd (fun arg _ final tokens read => by
        rw [lex_arg] at read
        split_ifs at read with clean
        cases read
        exact ⟨rfl, clean, rfl⟩) read
    obtain ⟨clean, same⟩ := (List.forall₂_and_left _ _).mp all
    have images := List.forall₂_map_right_iff.mpr same.flip
    rw [List.forall₂_eq_eq_eq] at images
    exact ⟨clean, closed, congrArg (join [.comma]) images⟩
  · rintro ⟨clean, rfl, rfl⟩
    refine lex_join_eq _ (fun arg => [.string (argValue arg)]) comma cmd fun arg member => ?_
    rw [lex_arg, if_pos (clean arg member)]

/-! ### Response content -/

/-- Nothing stops the reader in the response content. It is not escaped at all when there is nothing
to escape but white space. -/
def RespClean (content : Str) : Prop :=
  if content.countP needsEscape = 0 then ∀ c ∈ content, ¬ c < ' ' else NoControl content

instance (content : Str) : Decidable (RespClean content) :=
  have : Decidable (∀ c ∈ content, ¬ c < ' ') := List.decidableBAll _ content
  inferInstanceAs (Decidable (if content.countP needsEscape = 0 then ∀ c ∈ content, ¬ c < ' '
    else NoControl content))

/-- What the response content is read as. -/
def respValue (content : Str) : Str :=
  if content.countP needsEscape = 0 then content else content.map spaced

/-- The printed form of the response content. -/
theorem jsonEscapeString_resp (content : Str) :
    (jsonEscapeString content false).getD content =
      if content.countP needsEscape = 0 then content else content.flatMap escapeChar := by
  unfold jsonEscapeString
  dsimp only
  rw [if_neg Bool.false_ne_true]
  by_cases nothing : content.countP needsEscape = 0
  · rw [if_pos ⟨rfl, nothing⟩, if_pos nothing]
    rfl
  · rw [if_neg fun both => nothing both.2, if_neg nothing, if_neg (not_not.mpr rfl),
      Option.getD_some, List.nil_append, List.append_nil]

theorem lex_resp (content rest : Str) :
    lex (.string []) ((jsonEscapeString content false).getD content ++ rest) =
      if RespClean content then lex (.string (respValue content)) rest else none := by
  rw [jsonEscapeString_resp, respValue]
  by_cases nothing : content.countP needsEscape = 0
  · have unescaped : ∀ c ∈ content, c ≠ '"' ∧ c ≠ '\\' := by
      intro c member
      have escapes := countP_eq_zero_iff.mp nothing c member
      unfold needsEscape at escapes
      grind
    have clean : RespClean content ↔ ∀ c ∈ content, ¬ c < ' ' := by
      rw [RespClean, if_pos nothing]
    rw [if_pos nothing, if_pos nothing, lex_unescaped unescaped]
    exact if_congr clean.symm rfl rfl
  · have clean : RespClean content ↔ NoControl content := by
      rw [RespClean, if_neg nothing]
    rw [if_neg nothing, if_neg nothing, lex_escaped]
    exact if_congr clean.symm rfl rfl

/-- The tokens of the response content. -/
def respTokens (content : Str) : List Token :=
  if content ≠ [] then
    [.comma, .string "respfile".toList, .colon, .string (respValue content)]
  else []

/-- The text after the arguments. -/
def tailText (e : Message) : Str :=
  [']'] ++ (if e.respFile ≠ [] then
    ",\n  \"respfile\": \"".toList ++ (jsonEscapeString e.respFile false).getD e.respFile ++ ['"']
  else []) ++ "\n\x7d\n".toList

theorem lex_tail (e : Message) :
    lex .between (tailText e) =
      if RespClean e.respFile then
        some (.between, .rbracket :: respTokens e.respFile ++ [.rbrace])
      else none := by
  unfold tailText respTokens
  by_cases empty : e.respFile = []
  · have clean : RespClean [] := List.forall_mem_nil _
    rw [empty, if_neg (not_not.mpr rfl), if_pos clean, if_neg (not_not.mpr rfl)]
    rfl
  · have start : lex .between "],\n  \"respfile\": \"".toList =
        some (.string [], [.rbracket, .comma, .string "respfile".toList, .colon]) := rfl
    rw [if_pos empty, if_pos empty]
    have parts : [']'] ++ (",\n  \"respfile\": \"".toList ++
        (jsonEscapeString e.respFile false).getD e.respFile ++ ['"']) ++ "\n\x7d\n".toList =
        "],\n  \"respfile\": \"".toList ++ ((jsonEscapeString e.respFile false).getD e.respFile ++
          "\"\n\x7d\n".toList) := by simp
    rw [parts, lex_append, start, Option.bind_some, lex_resp]
    by_cases clean : RespClean e.respFile
    · rw [if_pos clean, if_pos clean]
      rfl
    · rw [if_neg clean, if_neg clean]
      rfl

/-! ### Objects -/

/-- **A string is closed at the end of its line**: after the directory the reader is in a string. -/
theorem lex_middle {state final : LexState} {tokens : List Token} :
    lex state "\",\n  \"arguments\": [".toList = some (final, tokens) ↔
      ∃ value, state = .string value ∧ final = .between ∧
        tokens = [.string value, .comma, .string "arguments".toList, .colon, .lbracket] := by
  constructor
  · intro read
    cases state with
    | string value =>
      cases read
      exact ⟨value, rfl, rfl, rfl⟩
    | between => cases read
    | word lexeme => cases read
    | escape value => cases read
    | hex value high digits => cases read
    | low value high => cases read
    | lowEscape value high => cases read
  · rintro ⟨value, rfl, rfl, rfl⟩
    rfl

/-- The tokens of an object, given how its directory is read. -/
def objectTokens (e : Message) (inner : List Token) (value : Str) : List Token :=
  [.lbrace, .string "directory".toList, .colon] ++ inner ++
    [.string value, .comma, .string "arguments".toList, .colon, .lbracket] ++ argTokens e.cmd ++
    (.rbracket :: respTokens e.respFile ++ [.rbrace])

/-- **The tokens of an object that can be read.** -/
theorem lex_object (e : Message) {final : LexState} {tokens : List Token} :
    lex .between (objectText e) = some (final, tokens) ↔
      final = .between ∧ (∀ arg ∈ e.cmd, NoControl arg) ∧ RespClean e.respFile ∧
        ∃ inner value, lex (.string []) e.cwd = some (.string value, inner) ∧
          tokens = objectTokens e inner value := by
  have parts : objectText e = "\x7b\n  \"directory\": \"".toList ++ (e.cwd ++
      ("\",\n  \"arguments\": [".toList ++ (stringsFold (jsonEscapeStrings e.cmd) ',' ++
        tailText e))) := by
    unfold objectText entryText tailText
    simp only [List.append_assoc]
  have start : lex .between "\x7b\n  \"directory\": \"".toList =
      some (.string [], [.lbrace, .string "directory".toList, .colon]) := rfl
  rw [parts, lex_append_eq_some]
  constructor
  · rintro ⟨state, _, _, head, afterHead, rfl⟩
    rw [start] at head
    cases head
    obtain ⟨state, inner, _, directory, afterDirectory, rfl⟩ := lex_append_eq_some.mp afterHead
    obtain ⟨_, _, _, middle, afterMiddle, rfl⟩ := lex_append_eq_some.mp afterDirectory
    obtain ⟨value, rfl, rfl, rfl⟩ := lex_middle.mp middle
    obtain ⟨_, _, _, args, tail, rfl⟩ := lex_append_eq_some.mp afterMiddle
    obtain ⟨clean, rfl, rfl⟩ := (lex_args e.cmd).mp args
    rw [lex_tail] at tail
    split_ifs at tail with respClean
    cases tail
    refine ⟨rfl, clean, respClean, inner, value, directory, ?_⟩
    simp [objectTokens]
  · rintro ⟨rfl, clean, respClean, inner, value, directory, rfl⟩
    have tail : lex .between (tailText e) = _ := (lex_tail e).trans (if_pos respClean)
    have args := (lex_args e.cmd).mpr ⟨clean, rfl, rfl⟩
    have middle := lex_middle.mpr ⟨value, rfl, rfl, rfl⟩
    refine ⟨_, _, _, start, lex_append_eq_some.mpr ⟨_, _, _, directory, lex_append_eq_some.mpr
      ⟨_, _, _, middle, lex_append_eq_some.mpr ⟨_, _, _, args, tail, rfl⟩, rfl⟩, rfl⟩, ?_⟩
    simp [objectTokens]

end Xcalbuild.Tracer
