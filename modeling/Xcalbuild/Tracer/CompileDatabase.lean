/-
**The compile database that the tracer writes.**

The output should be a JSON array with one object for each message of a known compiler, from which
the message can be read back (`WellWritten`). The directory is not escaped, the response content is
not escaped in one case, and control characters never are.

* `wellWritten_of_clean`: without such characters (`Clean`) the output is right;
* `directory_read`: in any output that is right, the directory of a message is a string on the line
  of the directory of some message;
* `wellWritten_iff`: the output is right exactly when the messages are clean. An unclean directory
  is read as something shorter, so the longest unclean one is not read back anywhere.
-/
import Mathlib.Data.List.MinMax
import Xcalbuild.Library.JsonMembers
import Xcalbuild.Tracer.Objects

namespace Xcalbuild.Tracer

open Library
open Library.Json (LexState Token ParseState Frame Plain lex lex_append_eq_some lex_plain lex_length
  plain_of_length lex_join lex_join_eq parseTokens parseTokens_append parseTokens_array complete
  tokenize parse Adjacent adjacent_split adjacent_of_separator parse_adjacent)

/-- **The message can be read back from the object.** -/
structure Describes (e : Message) (object : Json) : Prop where
  isObject : object.isObject = true
  directory : object.find "directory".toList = some (.str e.cwd)
  arguments : ∃ args, object.find "arguments".toList = some (.arr args) ∧
    (∀ arg ∈ args, arg.isString = true) ∧ args.length = e.cmd.length
  respFile : e.respFile ≠ [] → ∃ content, object.find "respfile".toList = some (.str content) ∧
    content.map spaced = e.respFile.map spaced

/-- **The output is an array with one object for each message of a known compiler**, in the order
in which they arrived. -/
def WellWritten (compilers : List Str) (messages : List Message) : Prop :=
  ∃ objects, parse (collectMessages compilers false messages) = some (.arr objects) ∧
    List.Forall₂ Describes (messages.filter (known compilers)) objects

/-- Nothing in the message has to be escaped that is not. -/
structure Clean (e : Message) : Prop where
  cwd : ∀ c ∈ e.cwd, Plain c
  cmd : ∀ arg ∈ e.cmd, NoControl arg
  respFile : RespClean e.respFile

/-! ### Clean messages -/

def respMembers (content : Str) : List (Str × Json) :=
  if content ≠ [] then [("respfile".toList, .str (respValue content))] else []

/-- The object of a clean message. -/
def objectValue (e : Message) : Json :=
  .obj (respMembers e.respFile ++
    [("arguments".toList, .arr (e.cmd.map fun arg => .str (argValue arg))),
    ("directory".toList, .str e.cwd)])

theorem parseTokens_object (e : Message) (stack : List Frame) :
    parseTokens (.value stack) (objectTokens e [] e.cwd) = some (complete stack (objectValue e)) := by
  have parts : objectTokens e [] e.cwd =
      [.lbrace, .string "directory".toList, .colon, .string e.cwd, .comma,
        .string "arguments".toList, .colon, .lbracket] ++
      ((argTokens e.cmd ++ [.rbracket]) ++ (respTokens e.respFile ++ [.rbrace])) := by
    simp [objectTokens]
  have start : parseTokens (.value stack) [.lbrace, .string "directory".toList, .colon,
      .string e.cwd, .comma, .string "arguments".toList, .colon, .lbracket] =
      some (.firstElem (.object [("directory".toList, .str e.cwd)] "arguments".toList :: stack)) := rfl
  have args := parseTokens_array (fun arg => [.string (argValue arg)])
    (fun arg => .str (argValue arg)) e.cmd (fun _ _ _ => rfl)
    (.object [("directory".toList, .str e.cwd)] "arguments".toList :: stack)
  rw [parts, parseTokens_append, start, Option.bind_some, parseTokens_append]
  unfold argTokens
  rw [args, Option.bind_some]
  unfold respTokens objectValue respMembers
  by_cases empty : e.respFile = []
  · rw [if_neg (not_not.mpr empty), if_neg (not_not.mpr empty)]
    rfl
  · rw [if_pos empty, if_pos empty]
    rfl

theorem map_spaced_spaced (s : Str) : (s.map spaced).map spaced = s.map spaced := by
  rw [List.map_map]
  refine List.map_congr_left fun c _ => ?_
  unfold spaced
  by_cases space : isSpace c = true
  · simp only [Function.comp_apply, if_pos space]
    decide
  · simp only [Function.comp_apply, if_neg space]

theorem describes_objectValue (e : Message) : Describes e (objectValue e) := by
  constructor
  · rfl
  · unfold objectValue respMembers
    split_ifs <;> rfl
  · refine ⟨e.cmd.map fun arg => .str (argValue arg), ?_, ?_, List.length_map _⟩
    · unfold objectValue respMembers
      split_ifs <;> rfl
    · intro arg member
      obtain ⟨s, -, rfl⟩ := List.mem_map.mp member
      rfl
  · intro nonempty
    refine ⟨respValue e.respFile, ?_, ?_⟩
    · unfold objectValue respMembers
      rw [if_pos nonempty]
      rfl
    · unfold respValue
      split_ifs
      · rfl
      · exact map_spaced_spaced e.respFile

/-- The tokens of a clean object. -/
theorem lex_clean {e : Message} (clean : Clean e) :
    lex .between (objectText e) = some (.between, objectTokens e [] e.cwd) := by
  refine (lex_object e).mpr ⟨rfl, clean.cmd, clean.respFile, [], e.cwd, ?_, rfl⟩
  have read := lex_plain clean.cwd [] []
  rwa [List.append_nil, List.nil_append] at read

theorem lex_separator : lex .between ",\n".toList = some (.between, [.comma]) := rfl

/-- **The output for clean messages is read** object by object. -/
theorem parse_clean {compilers : List Str} {messages : List Message}
    (clean : ∀ e ∈ messages, known compilers e = true → Clean e) :
    parse (collectMessages compilers false messages) =
      some (.arr ((messages.filter (known compilers)).map objectValue)) := by
  have cleanOnes : ∀ e ∈ messages.filter (known compilers), Clean e := by
    intro e member
    obtain ⟨inside, isKnown⟩ := List.mem_filter.mp member
    exact clean e inside isKnown
  have objects := lex_join_eq objectText (fun e => objectTokens e [] e.cwd) lex_separator
    (messages.filter (known compilers)) fun e member => lex_clean (cleanOnes e member)
  have array := parseTokens_array (fun e => objectTokens e [] e.cwd) objectValue
    (messages.filter (known compilers)) (fun e _ stack => parseTokens_object e stack) []
  have text : lex .between (collectMessages compilers false messages) =
      some (.between, [.lbracket] ++ (join [.comma] ((messages.filter (known compilers)).map
        fun e => objectTokens e [] e.cwd) ++ [.rbracket])) := by
    rw [collectMessages_eq, List.append_assoc]
    exact lex_append_eq_some.mpr ⟨_, _, _, rfl,
      lex_append_eq_some.mpr ⟨_, _, _, objects, rfl, rfl⟩, rfl⟩
  unfold parse tokenize
  rw [text]
  dsimp only
  rw [Option.bind_some, parseTokens_append]
  have start : parseTokens (.value []) [.lbracket] = some (.firstElem []) := rfl
  rw [start, Option.bind_some, array]
  rfl

/-- **The output for clean messages is right.** -/
theorem wellWritten_of_clean {compilers : List Str} {messages : List Message}
    (clean : ∀ e ∈ messages, known compilers e = true → Clean e) :
    WellWritten compilers messages := by
  refine ⟨(messages.filter (known compilers)).map objectValue, parse_clean clean, ?_⟩
  rw [List.forall₂_map_right_iff, List.forall₂_same]
  exact fun e _ => describes_objectValue e

/-! ### The tokens of any output -/

/-- The tokens of the object of a message. -/
def Reads (e : Message) (tokens : List Token) : Prop :=
  (∀ arg ∈ e.cmd, NoControl arg) ∧ RespClean e.respFile ∧
    ∃ inner value, lex (.string []) e.cwd = some (.string value, inner) ∧
      tokens = objectTokens e inner value

theorem tokenize_output {compilers : List Str} {messages : List Message} {tokens : List Token}
    (read : tokenize (collectMessages compilers false messages) = some tokens) :
    ∃ parts, List.Forall₂ Reads (messages.filter (known compilers)) parts ∧
      tokens = .lbracket :: (join [.comma] parts ++ .rbracket :: []) := by
  have lexed : ∀ final tokens, lex .between (collectMessages compilers false messages) =
      some (final, tokens) → final = .between ∧
        ∃ parts, List.Forall₂ Reads (messages.filter (known compilers)) parts ∧
          tokens = .lbracket :: (join [.comma] parts ++ .rbracket :: []) := by
    intro final tokens read
    rw [collectMessages_eq, List.append_assoc] at read
    obtain ⟨_, _, _, head, afterHead, rfl⟩ := lex_append_eq_some.mp read
    cases head
    obtain ⟨_, _, _, objects, tail, rfl⟩ := lex_append_eq_some.mp afterHead
    obtain ⟨rfl, parts, all, rfl⟩ := lex_join objectText Reads lex_separator
      (messages.filter (known compilers)) (fun e _ final tokens read => by
        obtain ⟨closed, clean⟩ := (lex_object e).mp read
        exact ⟨closed, clean⟩) objects
    cases tail
    exact ⟨rfl, parts, all, rfl⟩
  unfold tokenize at read
  cases result : lex .between (collectMessages compilers false messages) with
  | none => simp [result] at read
  | some pair =>
    obtain ⟨final, tokens'⟩ := pair
    obtain ⟨rfl, parts, all, rfl⟩ := lexed final tokens' result
    rw [result] at read
    cases read
    exact ⟨parts, all, rfl⟩

theorem adjacent_join {parts : List (List Token)} {key value : Str}
    (adjacent : Adjacent (join [.comma] parts) key value) :
    ∃ part ∈ parts, Adjacent part key value := by
  induction parts with
  | nil => exact absurd adjacent.length_le (by simp [join])
  | cons first rest ih =>
    cases rest with
    | nil => exact ⟨first, List.mem_cons_self, adjacent⟩
    | cons second rest =>
      rw [join, List.append_assoc, List.singleton_append] at adjacent
      rcases adjacent_split rfl adjacent with here | later
      · exact ⟨first, List.mem_cons_self, here⟩
      · obtain ⟨part, member, inside⟩ := ih later
        exact ⟨part, List.mem_cons_of_mem first member, inside⟩

theorem not_adjacent_of_length {tokens : List Token} {key value : Str}
    (short : tokens.length < 3) : ¬ Adjacent tokens key value := by
  intro adjacent
  have long : 3 ≤ tokens.length := adjacent.length_le
  omega

/-- The value is not among the first two tokens. -/
theorem mem_of_adjacent {first second : Token} {tokens : List Token} {key value : Str}
    (adjacent : Adjacent (first :: second :: tokens) key value) : .string value ∈ tokens := by
  obtain ⟨front, back, same⟩ := adjacent
  cases front with
  | nil =>
    cases same
    exact List.mem_cons_self
  | cons a front =>
    cases front with
    | nil =>
      cases same
      simp
    | cons b front =>
      cases same
      simp

theorem not_adjacent_argTokens {cmd : List Str} {key value : Str} :
    ¬ Adjacent (argTokens cmd) key value := by
  intro adjacent
  obtain ⟨part, member, inside⟩ := adjacent_join adjacent
  obtain ⟨arg, -, rfl⟩ := List.mem_map.mp member
  exact not_adjacent_of_length (by simp) inside

theorem not_adjacent_respTokens {content value : Str} :
    ¬ Adjacent (respTokens content) "directory".toList value := by
  intro adjacent
  unfold respTokens at adjacent
  split_ifs at adjacent
  · have same := (adjacent_of_separator rfl adjacent).eq_of_length rfl
    simp at same
  · exact not_adjacent_of_length (by simp) adjacent

/-- **The directory of an object is on the line of the directory of its message.** -/
theorem adjacent_objectTokens {e : Message} {inner : List Token} {value directory : Str}
    (adjacent : Adjacent (objectTokens e inner value) "directory".toList directory) :
    directory = value ∨ .string directory ∈ inner := by
  have parts : objectTokens e inner value =
      [] ++ .lbrace :: ((.string "directory".toList :: .colon :: (inner ++ [.string value])) ++
        .comma :: ([.string "arguments".toList, .colon] ++ .lbracket :: (argTokens e.cmd ++
          .rbracket :: (respTokens e.respFile ++ .rbrace :: [])))) := by
    simp [objectTokens]
  rw [parts] at adjacent
  rcases adjacent_split rfl adjacent with nothing | adjacent
  · exact absurd nothing (not_adjacent_of_length (by simp))
  rcases adjacent_split rfl adjacent with line | adjacent
  · rcases List.mem_append.mp (mem_of_adjacent line) with member | member
    · exact Or.inr member
    · rw [List.mem_singleton] at member
      cases member
      exact Or.inl rfl
  rcases adjacent_split rfl adjacent with arguments | adjacent
  · exact absurd arguments (not_adjacent_of_length (by simp))
  rcases adjacent_split rfl adjacent with args | adjacent
  · exact absurd args not_adjacent_argTokens
  rcases adjacent_split rfl adjacent with resp | nothing
  · exact absurd resp not_adjacent_respTokens
  · exact absurd nothing (not_adjacent_of_length (by simp))

/-! ### Outputs that are right -/

section Written

variable {compilers : List Str} {messages : List Message}

theorem exists_of_forall₂ {α β : Type} {r : α → β → Prop} {l : List α} {m : List β}
    (all : List.Forall₂ r l m) {a : α} (member : a ∈ l) : ∃ b ∈ m, r a b := by
  induction all with
  | nil => cases member
  | cons here _ ih =>
    rcases List.mem_cons.mp member with rfl | member
    · exact ⟨_, List.mem_cons_self, here⟩
    · obtain ⟨b, inside, related⟩ := ih member
      exact ⟨b, List.mem_cons_of_mem _ inside, related⟩

theorem mem_of_find {key : Str} {object value : Json} (found : object.find key = some value) :
    ∃ members, object = .obj members ∧ (key, value) ∈ members := by
  cases object with
  | obj members =>
    refine ⟨members, rfl, ?_⟩
    obtain ⟨front, back, same, -⟩ := List.lookup_eq_some_iff.mp found
    rw [same]
    exact List.mem_append_right _ List.mem_cons_self
  | _ => cases found

theorem exists_right_of_forall₂ {α β : Type} {r : α → β → Prop} {l : List α} {m : List β}
    (all : List.Forall₂ r l m) {b : β} (member : b ∈ m) : ∃ a ∈ l, r a b := by
  obtain ⟨a, inside, related⟩ := exists_of_forall₂ all.flip member
  exact ⟨a, inside, related⟩

/-- **In an output that is right, every directory is a string on the line of some directory.** -/
theorem directory_read (written : WellWritten compilers messages) :
    (∀ e ∈ messages.filter (known compilers),
      (∀ arg ∈ e.cmd, NoControl arg) ∧ RespClean e.respFile) ∧
      ∀ e ∈ messages.filter (known compilers), ∃ other ∈ messages.filter (known compilers),
        ∃ inner value, lex (.string []) other.cwd = some (.string value, inner) ∧
          (e.cwd = value ∨ .string e.cwd ∈ inner) := by
  obtain ⟨objects, parsed, described⟩ := written
  have hasTokens : ∃ tokens, tokenize (collectMessages compilers false messages) = some tokens := by
    unfold parse at parsed
    cases lexed : tokenize (collectMessages compilers false messages) with
    | none => simp [lexed] at parsed
    | some tokens => exact ⟨tokens, rfl⟩
  obtain ⟨tokens, lexed⟩ := hasTokens
  obtain ⟨parts, reads, rfl⟩ := tokenize_output lexed
  constructor
  · intro e member
    obtain ⟨part, -, cmd, resp, -⟩ := exists_of_forall₂ reads member
    exact ⟨cmd, resp⟩
  · intro e member
    obtain ⟨object, inside, describes⟩ := exists_of_forall₂ described member
    obtain ⟨members, rfl, pair⟩ := mem_of_find describes.directory
    obtain ⟨tokens', lexed', adjacent⟩ := parse_adjacent parsed inside pair
    rw [lexed] at lexed'
    cases lexed'
    rcases adjacent_split rfl (adjacent_of_separator rfl adjacent) with adjacent | nothing
    · obtain ⟨part, partOf, adjacent⟩ := adjacent_join adjacent
      obtain ⟨other, otherOf, -, -, inner, value, read, rfl⟩ := exists_right_of_forall₂ reads partOf
      exact ⟨other, otherOf, inner, value, read, adjacent_objectTokens adjacent⟩
    · exact absurd nothing (not_adjacent_of_length (by simp))

/-- A string on the line of a directory is shorter than the directory, or it is the directory and
nothing was escaped in it. -/
theorem length_lt_of_read {text value directory : Str} {inner : List Token}
    (read : lex (.string []) text = some (.string value, inner))
    (inside : directory = value ∨ .string directory ∈ inner) :
    directory.length < text.length ∨ (directory = text ∧ ∀ c ∈ text, Plain c) := by
  obtain ⟨longest, shorter⟩ := lex_length read
  simp only [Json.LexState.open_, List.length_nil, Nat.zero_add] at longest shorter
  rcases inside with rfl | member
  · by_cases less : directory.length < text.length
    · exact Or.inl less
    · have plain := plain_of_length read (by
        simp only [Json.LexState.open_, List.length_nil, Nat.zero_add]
        omega)
      have whole := lex_plain plain [] []
      rw [List.append_nil, read, List.nil_append] at whole
      cases whole
      exact Or.inr ⟨rfl, plain⟩
  · exact Or.inl (shorter directory member)

/-- Something in the directory has to be escaped. -/
def unplain (e : Message) : Bool := e.cwd.any fun c => !decide (Plain c)

theorem unplain_eq_true {e : Message} : unplain e = true ↔ ¬ ∀ c ∈ e.cwd, Plain c := by
  unfold unplain
  rw [List.any_eq_true, not_forall]
  refine exists_congr fun c => ?_
  rw [Bool.not_eq_true', decide_eq_false_iff_not, Classical.not_imp]

/-- **No directory of an output that is right has to be escaped.** -/
theorem plain_of_wellWritten (written : WellWritten compilers messages) :
    ∀ e ∈ messages.filter (known compilers), ∀ c ∈ e.cwd, Plain c := by
  by_contra unclean
  let bad := (messages.filter (known compilers)).filter unplain
  have nonempty : bad ≠ [] := by
    rw [not_forall] at unclean
    obtain ⟨e, special⟩ := unclean
    obtain ⟨member, special⟩ := Classical.not_imp.mp special
    exact List.ne_nil_of_mem (List.mem_filter.mpr ⟨member, unplain_eq_true.mpr special⟩)
  -- the longest directory that has to be escaped
  obtain ⟨e, longest⟩ := Option.ne_none_iff_exists'.mp
    (mt (List.argmax_eq_none (f := fun e : Message => e.cwd.length)).mp nonempty)
  obtain ⟨member, special⟩ := List.mem_filter.mp (List.argmax_mem longest)
  obtain ⟨other, otherOf, inner, value, read, inside⟩ := (directory_read written).2 e member
  rcases length_lt_of_read read inside with less | ⟨same, plain⟩
  · have otherBad : unplain other = true := by
      refine unplain_eq_true.mpr fun plain => ?_
      have whole := lex_plain plain [] []
      rw [List.append_nil, read, List.nil_append] at whole
      cases whole
      rcases inside with same | member
      · rw [same] at less
        exact absurd less (Nat.lt_irrefl _)
      · cases member
    have bound := List.le_of_mem_argmax (f := fun e : Message => e.cwd.length)
      (List.mem_filter.mpr ⟨otherOf, otherBad⟩) longest
    exact absurd less (Nat.not_lt.mpr bound)
  · rw [← same] at plain
    exact unplain_eq_true.mp special plain

theorem clean_of_wellWritten (written : WellWritten compilers messages) :
    ∀ e ∈ messages, known compilers e = true → Clean e := by
  intro e member isKnown
  have inside := List.mem_filter.mpr ⟨member, isKnown⟩
  obtain ⟨cmd, resp⟩ := (directory_read written).1 e inside
  exact ⟨plain_of_wellWritten written e inside, cmd, resp⟩

/-- **The output is right exactly when the messages of known compilers are clean.** -/
theorem wellWritten_iff (compilers : List Str) (messages : List Message) :
    WellWritten compilers messages ↔
      ∀ e ∈ messages, known compilers e = true → Clean e :=
  ⟨clean_of_wellWritten, wellWritten_of_clean⟩

end Written

/-! ### A directory with a quote -/

/-- A compiler that is called in a directory with a double quote in its name. -/
def quotedDirectory : Message where
  pid := 2
  ppid := 1
  function := "execve".toList
  cwd := "/w/a\"b".toList
  respFile := []
  cmd := ["gcc".toList, "-c".toList, "a.c".toList]

theorem directory_not_escaped :
    ¬ ∀ (compilers : List Str) (messages : List Message), WellWritten compilers messages := by
  intro written
  have plain := plain_of_wellWritten (written ["gcc".toList] [quotedDirectory])
    quotedDirectory (by decide) '"' (by decide)
  exact absurd plain (by decide)

end Xcalbuild.Tracer
