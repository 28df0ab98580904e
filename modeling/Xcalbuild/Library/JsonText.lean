/-
**Reading JSON texts.**

A JSON text is read by two machines: a lexer that takes one character at a time (`lexStep`), and a
parser with a stack that takes one token at a time (`parseStep`), as a streaming reader does. A
member of an object that occurs twice counts the last time, so members are kept with the latest
first.

* `lex_append`, `parseTokens_append`: reading one text after another;
* `lex_unescaped`, `lex_length`, `plain_of_length`: a string is never longer than its text, and as long
  only if it has no escapes;
* `lex_join`, `lex_join_eq`, `parseTokens_array`: lists of values.
-/
import Mathlib.Data.List.Infix
import Xcalbuild.Library.Json

namespace Xcalbuild.Library.Json

/-! ### Tokens -/

inductive Token where
  | lbrace
  | rbrace
  | lbracket
  | rbracket
  | colon
  | comma
  /-- A number, `true`, `false` or `null`. -/
  | word (lexeme : Str)
  | string (value : Str)
  deriving DecidableEq

/-- Where the lexer is. In a string, `value` is what was read so far. -/
inductive LexState where
  | between
  | word (lexeme : Str)
  | string (value : Str)
  /-- After a backslash. -/
  | escape (value : Str)
  /-- In the four digits of `\u`, after the high surrogate `high` if there is one. -/
  | hex (value : Str) (high : Option Nat) (digits : List Nat)
  /-- After a high surrogate. -/
  | low (value : Str) (high : Nat)
  | lowEscape (value : Str) (high : Nat)
  deriving DecidableEq

def isBlank (c : Char) : Bool := c = ' ' || c = '\t' || c = '\n' || c = '\r'

def symbol (c : Char) : Option Token :=
  if c = '{' then some .lbrace
  else if c = '}' then some .rbrace
  else if c = '[' then some .lbracket
  else if c = ']' then some .rbracket
  else if c = ':' then some .colon
  else if c = ',' then some .comma
  else none

/-- A character that ends a word. -/
def delimiter (c : Char) : Option (LexState × List Token) :=
  if isBlank c then some (.between, [])
  else if c = '"' then some (.string [], [])
  else (symbol c).map fun token => (.between, [token])

/-- The character that a backslash and a letter stand for. -/
def shortEscape (c : Char) : Option Char :=
  if c = '"' ∨ c = '\\' ∨ c = '/' then some c
  else if c = 'b' then some '\x08'
  else if c = 'f' then some '\x0c'
  else if c = 'n' then some '\n'
  else if c = 'r' then some '\r'
  else if c = 't' then some '\t'
  else none

def hexDigit (c : Char) : Option Nat :=
  if '0' ≤ c ∧ c ≤ '9' then some (c.toNat - '0'.toNat)
  else if 'a' ≤ c ∧ c ≤ 'f' then some (c.toNat - 'a'.toNat + 10)
  else if 'A' ≤ c ∧ c ≤ 'F' then some (c.toNat - 'A'.toNat + 10)
  else none

def hexValue (digits : List Nat) : Nat := digits.foldl (fun n d => 16 * n + d) 0

/-- What four hexadecimal digits stand for, after a high surrogate if there is one. -/
def codeUnit (value : Str) (high : Option Nat) (unit : Nat) : Option LexState :=
  match high with
  | none =>
      if 0xd800 ≤ unit ∧ unit < 0xdc00 then some (.low value unit)
      else if 0xdc00 ≤ unit ∧ unit < 0xe000 then none
      else some (.string (value ++ [Char.ofNat unit]))
  | some first =>
      if 0xdc00 ≤ unit ∧ unit < 0xe000 then
        some (.string (value ++ [Char.ofNat (0x10000 + (first - 0xd800) * 0x400 + (unit - 0xdc00))]))
      else none

/-- One character: the next state, and the tokens that end here. -/
def lexStep (state : LexState) (c : Char) : Option (LexState × List Token) :=
  match state with
  | .between =>
      match delimiter c with
      | some result => some result
      | none => some (.word [c], [])
  | .word lexeme =>
      match delimiter c with
      | some (next, tokens) => some (next, .word lexeme :: tokens)
      | none => some (.word (lexeme ++ [c]), [])
  | .string value =>
      if c = '"' then some (.between, [.string value])
      else if c = '\\' then some (.escape value, [])
      else if c < ' ' then none
      else some (.string (value ++ [c]), [])
  | .escape value =>
      if c = 'u' then some (.hex value none [], [])
      else (shortEscape c).map fun char => (.string (value ++ [char]), [])
  | .hex value high digits =>
      match hexDigit c with
      | none => none
      | some digit =>
          if digits.length < 3 then some (.hex value high (digits ++ [digit]), [])
          else (codeUnit value high (hexValue (digits ++ [digit]))).map fun next => (next, [])
  | .low value high => if c = '\\' then some (.lowEscape value high, []) else none
  | .lowEscape value high => if c = 'u' then some (.hex value (some high) [], []) else none

/-- The lexer on a text. -/
def lex : LexState → Str → Option (LexState × List Token)
  | state, [] => some (state, [])
  | state, c :: rest =>
      match lexStep state c with
      | none => none
      | some (next, tokens) => (lex next rest).map fun result => (result.1, tokens ++ result.2)

/-- The tokens of a text. -/
def tokenize (text : Str) : Option (List Token) :=
  match lex .between text with
  | some (.between, tokens) => some tokens
  | some (.word lexeme, tokens) => some (tokens ++ [.word lexeme])
  | _ => none

/-! ### Values -/

def isDigit (c : Char) : Bool := decide ('0' ≤ c ∧ c ≤ '9')

/-- The exponent of a number, if any. -/
def isExponent : Str → Bool
  | [] => true
  | e :: rest =>
      let digits := match rest with
        | '+' :: digits => digits
        | '-' :: digits => digits
        | digits => digits
      (e = 'e' || e = 'E') && !digits.isEmpty && digits.all isDigit

/-- The part of a number after its integer. -/
def isFraction : Str → Bool
  | '.' :: rest => !(rest.takeWhile isDigit).isEmpty && isExponent (rest.dropWhile isDigit)
  | rest => isExponent rest

def isNumber (lexeme : Str) : Bool :=
  let unsigned := match lexeme with
    | '-' :: rest => rest
    | rest => rest
  let int := unsigned.takeWhile isDigit
  (int.length = 1 || (1 < int.length && int.head? ≠ some '0')) &&
    isFraction (unsigned.dropWhile isDigit)

/-- The value of a word. -/
def wordValue (lexeme : Str) : Option Json :=
  if lexeme = "true".toList then some (.bool true)
  else if lexeme = "false".toList then some (.bool false)
  else if lexeme = "null".toList then some .null
  else if isNumber lexeme then some (.num lexeme)
  else none

/-- An array or object that is not complete yet. -/
inductive Frame where
  | array (elems : List Json)
  | object (members : List (Str × Json)) (key : Str)

/-- What the parser has read, and what may come next. -/
inductive ParseState where
  | value (stack : List Frame)
  /-- After `[`. -/
  | firstElem (stack : List Frame)
  /-- After `{`. -/
  | firstKey (stack : List Frame)
  | key (stack : List Frame) (members : List (Str × Json))
  | colon (stack : List Frame) (members : List (Str × Json)) (key : Str)
  /-- After an element or a member. -/
  | after (frame : Frame) (stack : List Frame)
  | done (value : Json)

/-- A value is complete. -/
def complete (stack : List Frame) (value : Json) : ParseState :=
  match stack with
  | [] => .done value
  | .array elems :: stack => .after (.array (elems ++ [value])) stack
  | .object members key :: stack => .after (.object ((key, value) :: members) key) stack

/-- The first token of a value. -/
def beginValue (stack : List Frame) : Token → Option ParseState
  | .string value => some (complete stack (.str value))
  | .word lexeme => (wordValue lexeme).map (complete stack)
  | .lbracket => some (.firstElem stack)
  | .lbrace => some (.firstKey stack)
  | _ => none

/-- One token. -/
def parseStep (state : ParseState) (token : Token) : Option ParseState :=
  match state, token with
  | .value stack, token => beginValue stack token
  | .firstElem stack, .rbracket => some (complete stack (.arr []))
  | .firstElem stack, token => beginValue (.array [] :: stack) token
  | .firstKey stack, .rbrace => some (complete stack (.obj []))
  | .firstKey stack, .string key => some (.colon stack [] key)
  | .key stack members, .string key => some (.colon stack members key)
  | .colon stack members key, .colon => some (.value (.object members key :: stack))
  | .after (.array elems) stack, .comma => some (.value (.array elems :: stack))
  | .after (.array elems) stack, .rbracket => some (complete stack (.arr elems))
  | .after (.object members _) stack, .comma => some (.key stack members)
  | .after (.object members _) stack, .rbrace => some (complete stack (.obj members))
  | _, _ => none

/-- The parser on a list of tokens. -/
def parseTokens : ParseState → List Token → Option ParseState
  | state, [] => some state
  | state, token :: rest =>
      match parseStep state token with
      | none => none
      | some next => parseTokens next rest

/-- The value of a JSON text. -/
def parse (text : Str) : Option Json :=
  match (tokenize text).bind (parseTokens (.value [])) with
  | some (.done value) => some value
  | _ => none

/-! ### One text after another -/

theorem lex_append (state : LexState) (s t : Str) :
    lex state (s ++ t) = (lex state s).bind fun first =>
      (lex first.1 t).map fun second => (second.1, first.2 ++ second.2) := by
  induction s generalizing state with
  | nil => simp [lex]
  | cons c rest ih =>
    rw [List.cons_append, lex, lex]
    cases lexStep state c with
    | none => rfl
    | some result =>
      obtain ⟨next, tokens⟩ := result
      dsimp only
      rw [ih]
      cases lex next rest with
      | none => rfl
      | some first => simp [Function.comp_def]

/-- A text that can be read can be read in two parts. -/
theorem lex_append_eq_some {state final : LexState} {s t : Str} {tokens : List Token} :
    lex state (s ++ t) = some (final, tokens) ↔
      ∃ next first second, lex state s = some (next, first) ∧
        lex next t = some (final, second) ∧ tokens = first ++ second := by
  rw [lex_append]
  constructor
  · intro read
    obtain ⟨⟨next, first⟩, front, rest⟩ := Option.bind_eq_some_iff.mp read
    obtain ⟨⟨final', second⟩, back, same⟩ := Option.map_eq_some_iff.mp rest
    cases same
    exact ⟨next, first, second, front, back, rfl⟩
  · rintro ⟨next, first, second, front, back, rfl⟩
    rw [front, Option.bind_some, back]
    rfl

/-- A character that ends no token. -/
theorem lex_cons_of_step {state next : LexState} {c : Char} (step : lexStep state c = some (next, []))
    (rest : Str) : lex state (c :: rest) = lex next rest := by
  rw [lex, step]
  cases read : lex next rest with
  | none => simp [read]
  | some result => simp [read]

/-- A character that stops the reader. -/
theorem lex_cons_of_none {state : LexState} {c : Char} (stops : lexStep state c = none)
    (rest : Str) : lex state (c :: rest) = none := by
  rw [lex, stops]

theorem parseTokens_append (state : ParseState) (first second : List Token) :
    parseTokens state (first ++ second) =
      (parseTokens state first).bind fun next => parseTokens next second := by
  induction first generalizing state with
  | nil => rfl
  | cons token rest ih =>
    rw [List.cons_append, parseTokens, parseTokens]
    cases parseStep state token with
    | none => rfl
    | some next => exact ih next

/-! ### Strings -/

/-- A character that stands for itself in a string. -/
def Plain (c : Char) : Prop := ¬ c < ' ' ∧ c ≠ '"' ∧ c ≠ '\\'

instance (c : Char) : Decidable (Plain c) :=
  inferInstanceAs (Decidable (¬ c < ' ' ∧ c ≠ '"' ∧ c ≠ '\\'))

theorem lexStep_string (value : Str) (c : Char) :
    lexStep (.string value) c =
      if c = '"' then some (.between, [.string value])
      else if c = '\\' then some (.escape value, [])
      else if c < ' ' then none
      else some (.string (value ++ [c]), []) := rfl

theorem lexStep_plain {c : Char} (plain : Plain c) (value : Str) :
    lexStep (.string value) c = some (.string (value ++ [c]), []) := by
  obtain ⟨printable, notQuote, notBackslash⟩ := plain
  rw [lexStep_string, if_neg notQuote, if_neg notBackslash, if_neg printable]

/-- Text without quotes and backslashes is read as it is, up to a control character. -/
theorem lex_unescaped {s : Str} [decided : Decidable (∀ c ∈ s, ¬ c < ' ')]
    (unescaped : ∀ c ∈ s, c ≠ '"' ∧ c ≠ '\\') (value rest : Str) :
    lex (.string value) (s ++ rest) =
      if ∀ c ∈ s, ¬ c < ' ' then lex (.string (value ++ s)) rest else none := by
  induction s generalizing value decided with
  | nil => simp
  | cons c tail ih =>
    obtain ⟨notQuote, notBackslash⟩ := unescaped c List.mem_cons_self
    have later := ih fun other member => unescaped other (List.mem_cons_of_mem c member)
    rw [List.cons_append]
    by_cases control : c < ' '
    · rw [if_neg fun all => all c List.mem_cons_self control]
      refine lex_cons_of_none ?_ _
      rw [lexStep_string, if_neg notQuote, if_neg notBackslash, if_pos control]
    · rw [lex_cons_of_step (lexStep_plain ⟨control, notQuote, notBackslash⟩ value), later]
      refine if_congr ?_ (by rw [List.append_assoc]; rfl) rfl
      rw [List.forall_mem_cons, and_iff_right control]

/-- Plain text is read as it is. -/
theorem lex_plain {s : Str} (plain : ∀ c ∈ s, Plain c) (value rest : Str) :
    lex (.string value) (s ++ rest) = lex (.string (value ++ s)) rest := by
  rw [lex_unescaped fun c member => (plain c member).2, if_pos fun c member => (plain c member).1]

/-- What was read of an open string. -/
def LexState.open_ : LexState → Str
  | .between => []
  | .word _ => []
  | .string value => value
  | .escape value => value
  | .hex value _ _ => value
  | .low value _ => value
  | .lowEscape value _ => value

theorem delimiter_open {c : Char} {next : LexState} {tokens : List Token}
    (ends : delimiter c = some (next, tokens)) :
    next.open_ = [] ∧ ∀ v, .string v ∉ tokens := by
  unfold delimiter symbol at ends
  split_ifs at ends <;> cases ends <;> simp [LexState.open_]

theorem codeUnit_open {value : Str} {high : Option Nat} {unit : Nat} {next : LexState}
    (read : codeUnit value high unit = some next) :
    next.open_.length ≤ value.length + 1 := by
  unfold codeUnit at read
  cases high with
  | none =>
    dsimp only at read
    split_ifs at read <;> cases read <;> simp [LexState.open_]
  | some first =>
    dsimp only at read
    split_ifs at read
    cases read
    simp [LexState.open_]

/-- One character makes an open string longer by one at most, and closes it without making it
longer. -/
theorem lexStep_length {state next : LexState} {c : Char} {tokens : List Token}
    (step : lexStep state c = some (next, tokens)) :
    next.open_.length ≤ state.open_.length + 1 ∧
      ∀ v, .string v ∈ tokens → v.length ≤ state.open_.length ∧ next.open_ = [] := by
  cases state with
  | between =>
    simp only [lexStep] at step
    cases ends : delimiter c with
    | none =>
      rw [ends] at step
      cases step
      simp [LexState.open_]
    | some result =>
      rw [ends] at step
      cases step
      obtain ⟨closed, absent⟩ := delimiter_open ends
      exact ⟨by simp [closed], fun v member => absurd member (absent v)⟩
  | word lexeme =>
    simp only [lexStep] at step
    cases ends : delimiter c with
    | none =>
      rw [ends] at step
      cases step
      simp [LexState.open_]
    | some result =>
      obtain ⟨next', tokens'⟩ := result
      rw [ends] at step
      cases step
      obtain ⟨closed, absent⟩ := delimiter_open ends
      refine ⟨by simp [closed], fun v member => ?_⟩
      rcases List.mem_cons.mp member with same | member
      · cases same
      · exact absurd member (absent v)
  | string value =>
    rw [lexStep_string] at step
    split_ifs at step <;> cases step <;> simp [LexState.open_]
  | escape value =>
    simp only [lexStep] at step
    split_ifs at step
    · cases step
      simp [LexState.open_]
    · obtain ⟨char, -, same⟩ := Option.map_eq_some_iff.mp step
      cases same
      simp [LexState.open_]
  | hex value high digits =>
    simp only [lexStep] at step
    cases found : hexDigit c with
    | none =>
      rw [found] at step
      cases step
    | some digit =>
      rw [found] at step
      dsimp only at step
      split_ifs at step
      · cases step
        simp [LexState.open_]
      · obtain ⟨next', unit, same⟩ := Option.map_eq_some_iff.mp step
        cases same
        exact ⟨codeUnit_open unit, fun v member => (nomatch member)⟩
  | low value high =>
    simp only [lexStep] at step
    split_ifs at step
    cases step
    simp [LexState.open_]
  | lowEscape value high =>
    simp only [lexStep] at step
    split_ifs at step
    cases step
    simp [LexState.open_]

/-- **A string is shorter than the text it was read from**, with its quotes or without. -/
theorem lex_length {state final : LexState} {s : Str} {tokens : List Token}
    (read : lex state s = some (final, tokens)) :
    final.open_.length ≤ state.open_.length + s.length ∧
      ∀ v, .string v ∈ tokens → v.length < state.open_.length + s.length := by
  induction s generalizing state tokens with
  | nil =>
    cases read
    exact ⟨Nat.le_refl _, fun v member => (nomatch member)⟩
  | cons c rest ih =>
    rw [lex] at read
    cases step : lexStep state c with
    | none => simp [step] at read
    | some result =>
      obtain ⟨next, first⟩ := result
      rw [step] at read
      obtain ⟨⟨final', second⟩, tail, same⟩ := Option.map_eq_some_iff.mp read
      cases same
      obtain ⟨grows, closes⟩ := lexStep_length step
      obtain ⟨shorter, inside⟩ := ih tail
      rw [List.length_cons]
      refine ⟨by omega, fun v member => ?_⟩
      rcases List.mem_append.mp member with member | member
      · have := (closes v member).1
        omega
      · have := inside v member
        omega

/-- **A string that is as long as its text is its text.** -/
theorem plain_of_length {value : Str} {final : LexState} {s : Str} {tokens : List Token}
    (read : lex (.string value) s = some (final, tokens))
    (long : value.length + s.length ≤ final.open_.length) : ∀ c ∈ s, Plain c := by
  induction s generalizing value tokens with
  | nil => exact fun c member => (nomatch member)
  | cons c rest ih =>
    rw [List.length_cons] at long
    rw [lex] at read
    by_cases plain : Plain c
    · rw [lexStep_plain plain] at read
      obtain ⟨⟨final', second⟩, tail, same⟩ := Option.map_eq_some_iff.mp read
      cases same
      have more := ih tail (by rw [List.length_append, List.length_singleton]; omega)
      intro other member
      rcases List.mem_cons.mp member with rfl | member
      · exact plain
      · exact more other member
    · exfalso
      rw [lexStep_string] at read
      by_cases quote : c = '"'
      · rw [if_pos quote] at read
        obtain ⟨⟨final', second⟩, tail, same⟩ := Option.map_eq_some_iff.mp read
        cases same
        have short : final'.open_.length ≤ 0 + rest.length := (lex_length tail).1
        dsimp only at long
        omega
      rw [if_neg quote] at read
      by_cases backslash : c = '\\'
      · rw [if_pos backslash] at read
        obtain ⟨⟨final', second⟩, tail, same⟩ := Option.map_eq_some_iff.mp read
        cases same
        have short : final'.open_.length ≤ value.length + rest.length := (lex_length tail).1
        dsimp only at long
        omega
      rw [if_neg backslash] at read
      by_cases control : c < ' '
      · rw [if_pos control] at read
        cases read
      · exact plain ⟨control, quote, backslash⟩

/-! ### Lists -/

/-- Parts with a separator between them are read part by part. -/
theorem lex_join {ι : Type} (text : ι → Str) (reads : ι → List Token → Prop) {separator : Str}
    {token : List Token} (sep : lex .between separator = some (.between, token))
    (items : List ι) (each : ∀ i ∈ items, ∀ final tokens,
      lex .between (text i) = some (final, tokens) → final = .between ∧ reads i tokens)
    {final : LexState} {tokens : List Token}
    (read : lex .between (join separator (items.map text)) = some (final, tokens)) :
    final = .between ∧ ∃ parts, List.Forall₂ reads items parts ∧ tokens = join token parts := by
  induction items generalizing final tokens with
  | nil =>
    cases read
    exact ⟨rfl, [], List.Forall₂.nil, rfl⟩
  | cons i rest ih =>
    have later : ∀ j ∈ rest, ∀ final tokens, lex .between (text j) = some (final, tokens) →
        final = .between ∧ reads j tokens :=
      fun j member => each j (List.mem_cons_of_mem i member)
    cases rest with
    | nil =>
      obtain ⟨closed, here⟩ := each i List.mem_cons_self final tokens read
      exact ⟨closed, [tokens], .cons here .nil, rfl⟩
    | cons j rest =>
      rw [List.map_cons, List.map_cons, join, ← List.map_cons, List.append_assoc,
        lex_append_eq_some] at read
      obtain ⟨next, first, others, front, back, rfl⟩ := read
      obtain ⟨rfl, here⟩ := each i List.mem_cons_self next first front
      rw [lex_append_eq_some] at back
      obtain ⟨middle, comma, second, separates, back, rfl⟩ := back
      rw [sep] at separates
      cases separates
      obtain ⟨closed, parts, all, rfl⟩ := ih later back
      refine ⟨closed, first :: parts, .cons here all, ?_⟩
      cases all with
      | cons _ _ => simp [join]

/-- The other way round, when every part can be read. -/
theorem lex_join_eq {ι : Type} (text : ι → Str) (tokens : ι → List Token) {separator : Str}
    {token : List Token} (sep : lex .between separator = some (.between, token))
    (items : List ι) (each : ∀ i ∈ items, lex .between (text i) = some (.between, tokens i)) :
    lex .between (join separator (items.map text)) =
      some (.between, join token (items.map tokens)) := by
  induction items with
  | nil => rfl
  | cons i rest ih =>
    have here := each i List.mem_cons_self
    have later := ih fun j member => each j (List.mem_cons_of_mem i member)
    cases rest with
    | nil => exact here
    | cons j rest =>
      rw [List.map_cons, List.map_cons, List.map_cons, List.map_cons, join, join, ← List.map_cons,
        ← List.map_cons, List.append_assoc, lex_append_eq_some]
      refine ⟨.between, tokens i, _, here, ?_, List.append_assoc _ _ _⟩
      exact lex_append_eq_some.mpr ⟨.between, token, _, sep, later, rfl⟩

/-- The first token of a value is the first token of an element. -/
theorem parseTokens_firstElem {stack : List Frame} {tokens : List Token} {next : ParseState}
    (nonempty : tokens ≠ [])
    (read : parseTokens (.value (.array [] :: stack)) tokens = some next) :
    parseTokens (.firstElem stack) tokens = some next := by
  obtain ⟨token, rest, rfl⟩ := List.exists_cons_of_ne_nil nonempty
  cases token with
  | rbracket => cases read
  | _ => exact read

/-- **An array is read element by element.** -/
theorem parseTokens_elems {ι : Type} (tokens : ι → List Token) (value : ι → Json) (items : List ι)
    (each : ∀ i ∈ items, ∀ stack,
      parseTokens (.value stack) (tokens i) = some (complete stack (value i)))
    (nonempty : items ≠ []) (elems : List Json) (stack : List Frame) :
    parseTokens (.value (.array elems :: stack)) (join [.comma] (items.map tokens) ++ [.rbracket]) =
      some (complete stack (.arr (elems ++ items.map value))) := by
  induction items generalizing elems with
  | nil => exact absurd rfl nonempty
  | cons i rest ih =>
    have here := each i List.mem_cons_self (.array elems :: stack)
    cases rest with
    | nil =>
      rw [List.map_singleton, join, parseTokens_append, here]
      rfl
    | cons j rest =>
      have later := ih (fun k member => each k (List.mem_cons_of_mem i member))
        (List.cons_ne_nil j rest) (elems ++ [value i])
      rw [List.map_cons, List.map_cons, join, ← List.map_cons, List.append_assoc,
        List.append_assoc, parseTokens_append, here, Option.bind_some]
      rw [List.append_assoc] at later
      exact later

theorem parseTokens_array {ι : Type} (tokens : ι → List Token) (value : ι → Json) (items : List ι)
    (each : ∀ i ∈ items, ∀ stack,
      parseTokens (.value stack) (tokens i) = some (complete stack (value i)))
    (stack : List Frame) :
    parseTokens (.firstElem stack) (join [.comma] (items.map tokens) ++ [.rbracket]) =
      some (complete stack (.arr (items.map value))) := by
  cases items with
  | nil => rfl
  | cons i rest =>
    exact parseTokens_firstElem (List.append_ne_nil_of_right_ne_nil _ (List.cons_ne_nil _ _))
      (parseTokens_elems tokens value (i :: rest) each (List.cons_ne_nil i rest) [] stack)

end Xcalbuild.Library.Json
