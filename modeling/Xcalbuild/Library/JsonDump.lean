/-
**Writing JSON texts.**

`dump` writes a value as the library does: on one line, or with every element and member on a line of
its own, indented by its depth. A value of strings, arrays and objects (`Textual`) is read back from
its text, whatever the strings are, with the members of its objects in the order in which the reader
keeps them (`latest`).

* `fold`: functions on values, constructor by constructor;
* `lex_escaped`, `lex_dumpString`: a string is read back from its escapes;
* `lex_dump`, `parseTokens_tokens`: the text has the tokens of the value, and these are read as it;
* **`parse_dump`**: the value is read back from its text.
-/
import Mathlib.Data.Char
import Xcalbuild.Library.JsonText

namespace Xcalbuild.Library.Json

/-! ### Functions on values -/

/-- What is made of each constructor. -/
structure Algebra (β : Type) where
  null : β
  bool : Bool → β
  num : Str → β
  str : Str → β
  arr : List β → β
  obj : List (Str × β) → β

section Fold

variable {β : Type} (algebra : Algebra β)

mutual

/-- The value, with its constructors replaced. -/
def fold : Json → β
  | .null => algebra.null
  | .bool value => algebra.bool value
  | .num lexeme => algebra.num lexeme
  | .str value => algebra.str value
  | .arr elems => algebra.arr (foldElems elems)
  | .obj members => algebra.obj (foldMembers members)

def foldElems : List Json → List β
  | [] => []
  | elem :: elems => fold elem :: foldElems elems

def foldMembers : List (Str × Json) → List (Str × β)
  | [] => []
  | (key, value) :: members => (key, fold value) :: foldMembers members

end

@[simp] theorem fold_arr (elems : List Json) :
    fold algebra (.arr elems) = algebra.arr (elems.map (fold algebra)) := by
  have each : ∀ elems, foldElems algebra elems = elems.map (fold algebra) := by
    intro elems
    induction elems with
    | nil => rfl
    | cons elem elems ih => rw [foldElems, ih, List.map_cons]
  rw [fold, each]

@[simp] theorem fold_obj (members : List (Str × Json)) : fold algebra (.obj members) =
    algebra.obj (members.map fun member => (member.1, fold algebra member.2)) := by
  have each : ∀ members, foldMembers algebra members =
      members.map fun member => (member.1, fold algebra member.2) := by
    intro members
    induction members with
    | nil => rfl
    | cons member members ih =>
      obtain ⟨key, value⟩ := member
      rw [foldMembers, ih, List.map_cons]
  rw [fold, each]

end Fold

/-! ### Writing -/

/-- A hexadecimal digit, in lower case. -/
def hexChar (digit : Nat) : Char :=
  if digit < 10 then Char.ofNat ('0'.toNat + digit) else Char.ofNat ('a'.toNat + (digit - 10))

/-- A character of a string. -/
def escaped (c : Char) : Str :=
  if c = '"' then ['\\', '"']
  else if c = '\\' then ['\\', '\\']
  else if c = '\x08' then ['\\', 'b']
  else if c = '\x0c' then ['\\', 'f']
  else if c = '\n' then ['\\', 'n']
  else if c = '\r' then ['\\', 'r']
  else if c = '\t' then ['\\', 't']
  else if c < ' ' then ['\\', 'u', '0', '0', hexChar (c.toNat / 16), hexChar (c.toNat % 16)]
  else [c]

def dumpString (s : Str) : Str := '"' :: (s.flatMap escaped ++ ['"'])

/-- The start of a line at a depth. Without a width, everything is on one line. -/
def lineStart (width : Option Nat) (depth : Nat) : Str :=
  match width with
  | none => []
  | some width => '\n' :: List.replicate (width * depth) ' '

/-- Elements or members in their brackets, each on a line of its own. -/
def bracketed (width : Option Nat) (depth : Nat) (opening closing : Char) (texts : List Str) : Str :=
  match texts with
  | [] => [opening, closing]
  | _ :: _ =>
      opening :: (lineStart width (depth + 1) ++ join (',' :: lineStart width (depth + 1)) texts ++
        lineStart width depth ++ [closing])

/-- What stands between a key and its value. -/
def keyMark (width : Option Nat) : Str := if width.isSome then ": ".toList else ":".toList

/-- How values are written, at each depth. A number is written as it was read. -/
def writer (width : Option Nat) : Algebra (Nat → Str) where
  null _ := "null".toList
  bool value _ := if value then "true".toList else "false".toList
  num lexeme _ := lexeme
  str value _ := dumpString value
  arr texts depth := bracketed width depth '[' ']' (texts.map fun text => text (depth + 1))
  obj texts depth := bracketed width depth '\x7b' '\x7d'
    (texts.map fun text => dumpString text.1 ++ keyMark width ++ text.2 (depth + 1))

/-- `json.dump()`, and `json.dump(width)`. -/
def dump (width : Option Nat) (j : Json) : Str := fold (writer width) j 0

/-! ### What is read -/

/-- The value with the latest members first. -/
def latestFirst : Algebra Json where
  null := .null
  bool := .bool
  num := .num
  str := .str
  arr := .arr
  obj members := .obj members.reverse

def latest (j : Json) : Json := fold latestFirst j

/-- A value of strings, arrays and objects. -/
inductive Textual : Json → Prop
  | str (value : Str) : Textual (.str value)
  | arr {elems : List Json} : (∀ elem ∈ elems, Textual elem) → Textual (.arr elems)
  | obj {members : List (Str × Json)} : (∀ member ∈ members, Textual member.2) →
      Textual (.obj members)

/-! ### Arrays that are made from lists -/

section Map

variable {ι : Type} {make : ι → Json} {items : List ι}

theorem Textual.map (each : ∀ i ∈ items, Textual (make i)) : Textual (.arr (items.map make)) := by
  refine .arr fun elem member => ?_
  obtain ⟨i, inside, rfl⟩ := List.mem_map.mp member
  exact each i inside

theorem textual_strings (texts : List Str) : Textual (.arr (texts.map .str)) :=
  .map fun text _ => .str text

theorem latest_map (make : ι → Json) (items : List ι) :
    latest (.arr (items.map make)) = .arr (items.map fun i => latest (make i)) := by
  rw [latest, fold_arr, List.map_map]
  rfl

theorem latest_strings (texts : List Str) :
    latest (.arr (texts.map .str)) = .arr (texts.map .str) := by
  rw [latest_map]
  rfl

end Map

/-! ### Tokens -/

/-- The tokens of a value. -/
def tokensOf : Algebra (List Token) where
  null := [.word "null".toList]
  bool value := [.word (if value then "true".toList else "false".toList)]
  num lexeme := [.word lexeme]
  str value := [.string value]
  arr parts := .lbracket :: (join [.comma] parts ++ [.rbracket])
  obj parts := .lbrace :: (join [.comma] (parts.map fun part =>
    .string part.1 :: .colon :: part.2) ++ [.rbrace])

def tokens (j : Json) : List Token := fold tokensOf j

/-! ### Strings -/

theorem hexDigit_hexChar : ∀ digit < 16, hexDigit (hexChar digit) = some digit := by decide

/-- A backslash and a letter. -/
theorem lex_short {letter c : Char} (notU : letter ≠ 'u') (means : shortEscape letter = some c)
    (value rest : Str) :
    lex (.string value) ('\\' :: letter :: rest) = lex (.string (value ++ [c])) rest := by
  have escape : lexStep (.string value) '\\' = some (.escape value, []) := rfl
  have unescapes : lexStep (.escape value) letter = some (.string (value ++ [c]), []) := by
    rw [lexStep]
    rw [if_neg notU, means]
    rfl
  rw [lex_cons_of_step escape, lex_cons_of_step unescapes]

/-- The digits of a control character. -/
theorem lex_hex {n : Nat} (control : n < 32) (value rest : Str) :
    lex (.hex value none [0, 0]) (hexChar (n / 16) :: hexChar (n % 16) :: rest) =
      lex (.string (value ++ [Char.ofNat n])) rest := by
  have third : lexStep (.hex value none [0, 0]) (hexChar (n / 16)) =
      some (.hex value none [0, 0, n / 16], []) := by
    rw [lexStep, hexDigit_hexChar _ (by omega)]
    rfl
  have unit : hexValue [0, 0, n / 16, n % 16] = n := by
    show 16 * (16 * (16 * (16 * 0 + 0) + 0) + n / 16) + n % 16 = n
    omega
  have fourth : lexStep (.hex value none [0, 0, n / 16]) (hexChar (n % 16)) =
      some (.string (value ++ [Char.ofNat n]), []) := by
    rw [lexStep, hexDigit_hexChar _ (by omega)]
    show (codeUnit value none (hexValue [0, 0, n / 16, n % 16])).map _ = _
    rw [unit, codeUnit, if_neg (by omega), if_neg (by omega)]
    rfl
  rw [lex_cons_of_step third, lex_cons_of_step fourth]

/-- A character is read back from its escape. -/
theorem lex_escaped (c : Char) (value rest : Str) :
    lex (.string value) (escaped c ++ rest) = lex (.string (value ++ [c])) rest := by
  unfold escaped
  split_ifs with quote backslash b f n r t control
  · subst quote
    exact lex_short (by decide) rfl value rest
  · subst backslash
    exact lex_short (by decide) rfl value rest
  · subst b
    exact lex_short (by decide) rfl value rest
  · subst f
    exact lex_short (by decide) rfl value rest
  · subst n
    exact lex_short (by decide) rfl value rest
  · subst r
    exact lex_short (by decide) rfl value rest
  · subst t
    exact lex_short (by decide) rfl value rest
  · have escape : lexStep (.string value) '\\' = some (.escape value, []) := rfl
    have u : lexStep (.escape value) 'u' = some (.hex value none [], []) := rfl
    have first : lexStep (.hex value none []) '0' = some (.hex value none [0], []) := rfl
    have second : lexStep (.hex value none [0]) '0' = some (.hex value none [0, 0], []) := rfl
    have small : c.toNat < 32 := control
    show lex (.string value) ('\\' :: 'u' :: '0' :: '0' :: hexChar (c.toNat / 16) ::
      hexChar (c.toNat % 16) :: rest) = _
    rw [lex_cons_of_step escape, lex_cons_of_step u, lex_cons_of_step first,
      lex_cons_of_step second, lex_hex small, Char.ofNat_toNat]
  · exact lex_cons_of_step (lexStep_plain ⟨control, quote, backslash⟩ value) rest

theorem lex_flatMap_escaped (s value rest : Str) :
    lex (.string value) (s.flatMap escaped ++ rest) = lex (.string (value ++ s)) rest := by
  induction s generalizing value with
  | nil => rw [List.flatMap_nil, List.nil_append, List.append_nil]
  | cons c s ih =>
    rw [List.flatMap_cons, List.append_assoc, lex_escaped, ih, List.append_assoc]
    rfl

/-- **A string is read back.** -/
theorem lex_dumpString (s : Str) : lex .between (dumpString s) = some (.between, [.string s]) := by
  have opened : lexStep .between '"' = some (.string [], []) := rfl
  rw [dumpString, lex_cons_of_step opened, lex_flatMap_escaped]
  rfl

/-! ### Brackets -/

/-- Two texts that end between tokens. -/
theorem lex_both {s t : Str} {first second : List Token}
    (front : lex .between s = some (.between, first))
    (back : lex .between t = some (.between, second)) :
    lex .between (s ++ t) = some (.between, first ++ second) :=
  lex_append_eq_some.mpr ⟨.between, first, second, front, back, rfl⟩

theorem lex_symbol {c : Char} {token : Token} (isSymbol : symbol c = some token) :
    lex .between [c] = some (.between, [token]) := by
  have ends : delimiter c = some (.between, [token]) := by
    unfold symbol at isSymbol
    split_ifs at isSymbol with h h h h h h
    all_goals
      cases isSymbol
      subst h
      rfl
  rw [lex, lexStep, ends]
  rfl

theorem lex_blanks {blanks : Str} (blank : ∀ c ∈ blanks, isBlank c = true) :
    lex .between blanks = some (.between, []) := by
  induction blanks with
  | nil => rfl
  | cons c rest ih =>
    obtain ⟨here, blank⟩ := List.forall_mem_cons.mp blank
    have skipped : lexStep .between c = some (.between, []) := by
      rw [lexStep, delimiter, if_pos here]
    rw [lex_cons_of_step skipped]
    exact ih blank

theorem lex_lineStart (width : Option Nat) (depth : Nat) :
    lex .between (lineStart width depth) = some (.between, []) := by
  apply lex_blanks
  cases width with
  | none => exact fun c absent => nomatch absent
  | some width =>
    intro c member
    rcases List.mem_cons.mp member with rfl | space
    · rfl
    · rw [List.eq_of_mem_replicate space]
      rfl

/-- **Brackets around texts** that are read as tokens. -/
theorem lex_bracketed {ι : Type} (width : Option Nat) (depth : Nat) {opening closing : Char}
    {opener close : Token} (isOpening : symbol opening = some opener)
    (isClosing : symbol closing = some close) (text : ι → Str) (tokens : ι → List Token)
    (items : List ι) (each : ∀ i ∈ items, lex .between (text i) = some (.between, tokens i)) :
    lex .between (bracketed width depth opening closing (items.map text)) =
      some (.between, opener :: (join [.comma] (items.map tokens) ++ [close])) := by
  have first := lex_symbol isOpening
  have last := lex_symbol isClosing
  cases items with
  | nil => exact lex_both first last
  | cons i rest =>
    have comma : lex .between (',' :: lineStart width (depth + 1)) = some (.between, [.comma]) :=
      lex_both (lex_symbol rfl) (lex_lineStart width (depth + 1))
    have inside := lex_join_eq text tokens comma (i :: rest) each
    have lines := lex_both (lex_both (lex_both (lex_lineStart width (depth + 1)) inside)
      (lex_lineStart width depth)) last
    rw [List.nil_append, List.append_nil] at lines
    exact lex_both first lines

theorem tokens_obj (members : List (Str × Json)) : tokens (.obj members) =
    .lbrace :: (join [.comma] (members.map fun member =>
      .string member.1 :: .colon :: tokens member.2) ++ [.rbrace]) := by
  rw [tokens, fold_obj]
  exact congrArg (fun parts => Token.lbrace :: (join [.comma] parts ++ [.rbrace])) List.map_map

theorem lex_keyMark (width : Option Nat) : lex .between (keyMark width) = some (.between, [.colon]) := by
  cases width <;> rfl

/-- **The text of a value has its tokens.** -/
theorem lex_dump (width : Option Nat) {j : Json} (textual : Textual j) (depth : Nat) :
    lex .between (fold (writer width) j depth) = some (.between, tokens j) := by
  induction textual generalizing depth with
  | str value => exact lex_dumpString value
  | @arr elems _ ih =>
    have texts : fold (writer width) (.arr elems) depth = bracketed width depth '[' ']'
        (elems.map fun elem => fold (writer width) elem (depth + 1)) := by
      rw [fold_arr]
      exact congrArg (bracketed width depth '[' ']') List.map_map
    rw [texts, tokens, fold_arr]
    exact lex_bracketed width depth rfl rfl _ tokens elems fun elem member =>
      ih elem member (depth + 1)
  | @obj members _ ih =>
    have texts : fold (writer width) (.obj members) depth = bracketed width depth '\x7b' '\x7d'
        (members.map fun member => dumpString member.1 ++ keyMark width ++
          fold (writer width) member.2 (depth + 1)) := by
      rw [fold_obj]
      exact congrArg (bracketed width depth '\x7b' '\x7d') List.map_map
    rw [texts, tokens_obj]
    exact lex_bracketed width depth rfl rfl _ _ members fun member inside =>
      lex_both (lex_both (lex_dumpString member.1) (lex_keyMark width))
        (ih member inside (depth + 1))

/-! ### Values -/

/-- Members after others. -/
theorem parseTokens_members {ι : Type} (key : ι → Str) (tokens : ι → List Token) (value : ι → Json)
    (items : List ι) (each : ∀ i ∈ items, ∀ stack,
      parseTokens (.value stack) (tokens i) = some (complete stack (value i)))
    (nonempty : items ≠ []) (members : List (Str × Json)) (stack : List Frame) :
    parseTokens (.key stack members) (join [.comma] (items.map fun i =>
        .string (key i) :: .colon :: tokens i) ++ [.rbrace]) =
      some (complete stack (.obj ((items.map fun i => (key i, value i)).reverse ++ members))) := by
  induction items generalizing members with
  | nil => exact absurd rfl nonempty
  | cons i rest ih =>
    have here := each i List.mem_cons_self (.object members (key i) :: stack)
    cases rest with
    | nil =>
      show parseTokens (.value (.object members (key i) :: stack)) (tokens i ++ [.rbrace]) = _
      rw [parseTokens_append, here]
      rfl
    | cons j rest =>
      have later := ih (fun k member => each k (List.mem_cons_of_mem i member))
        (List.cons_ne_nil j rest) ((key i, value i) :: members)
      have order : (((i :: j :: rest).map fun i => (key i, value i)).reverse ++ members) =
          ((j :: rest).map fun i => (key i, value i)).reverse ++ ((key i, value i) :: members) := by
        rw [List.map_cons, List.reverse_cons, List.append_assoc]
        rfl
      rw [order, List.map_cons, List.map_cons, join, List.append_assoc, List.append_assoc]
      show parseTokens (.value (.object members (key i) :: stack)) (tokens i ++ _) = _
      rw [parseTokens_append, here, Option.bind_some]
      exact later

/-- **An object is read member by member.** -/
theorem parseTokens_object {ι : Type} (key : ι → Str) (tokens : ι → List Token) (value : ι → Json)
    (items : List ι) (each : ∀ i ∈ items, ∀ stack,
      parseTokens (.value stack) (tokens i) = some (complete stack (value i)))
    (stack : List Frame) :
    parseTokens (.firstKey stack) (join [.comma] (items.map fun i =>
        .string (key i) :: .colon :: tokens i) ++ [.rbrace]) =
      some (complete stack (.obj (items.map fun i => (key i, value i)).reverse)) := by
  cases items with
  | nil => rfl
  | cons i rest =>
    have read := parseTokens_members key tokens value (i :: rest) each (List.cons_ne_nil i rest) []
      stack
    rw [List.append_nil] at read
    cases rest with
    | nil => exact read
    | cons j rest => exact read

/-- **The tokens of a value are read as it.** -/
theorem parseTokens_tokens {j : Json} (textual : Textual j) (stack : List Frame) :
    parseTokens (.value stack) (tokens j) = some (complete stack (latest j)) := by
  induction textual generalizing stack with
  | str value => rfl
  | @arr elems _ ih =>
    rw [tokens, latest, fold_arr, fold_arr]
    exact parseTokens_array tokens latest elems (fun elem member => ih elem member) stack
  | @obj members _ ih =>
    rw [tokens_obj, latest, fold_obj]
    exact parseTokens_object Prod.fst (fun member => tokens member.2)
      (fun member => latest member.2) members (fun member inside => ih member inside) stack

/-- What is written is read back, with blanks after it. -/
theorem parse_dump_blanks (width : Option Nat) {j : Json} (textual : Textual j) {blanks : Str}
    (blank : ∀ c ∈ blanks, isBlank c = true) :
    parse (dump width j ++ blanks) = some (latest j) := by
  have text := lex_both (lex_dump width textual 0) (lex_blanks blank)
  have read : tokenize (dump width j ++ blanks) = some (tokens j) := by
    rw [tokenize, dump, text, List.append_nil]
  rw [parse, read, Option.bind_some, parseTokens_tokens textual []]
  rfl

/-- **What is written is read back.** -/
theorem parse_dump (width : Option Nat) {j : Json} (textual : Textual j) :
    parse (dump width j) = some (latest j) := by
  have absent : ∀ c ∈ ([] : Str), isBlank c = true := fun c member => nomatch member
  have read := parse_dump_blanks width textual absent
  rwa [List.append_nil] at read

end Xcalbuild.Library.Json
