/-
**The output of the unix tracer.**

The functions of `output.c`, with the ones of `json.c` and `stringarray.c` that they call: an array
of objects is printed by hand, one object for each message of a known compiler. A C string is the
list of its characters, none of which is NUL; writing to the file succeeds.
-/
import Xcalbuild.Library.Text

namespace Xcalbuild.Tracer

open Library

/-- `struct bear_message`. -/
structure Message where
  pid : Nat
  ppid : Nat
  /-- `fun`, the function that was called. -/
  function : Str
  cwd : Str
  /-- The content of the response file, if any. -/
  respFile : Str
  cmd : List Str
  deriving DecidableEq

/-! ### Escaping -/

def needsEscape (c : Char) : Bool := c = '\\' || c = '"' || c = '\n' || c = '\r'

/-- `\r` and `\n` are handled by `isspace`. -/
def needsStrEscape (c : Char) : Bool := c = '\\' || c = '"'

/-- What is printed for a character. -/
def escapeChar (c : Char) : Str :=
  (if needsStrEscape c then ['\\'] else []) ++ [if isSpace c then ' ' else c]

/-- `bear_json_escape_string`: `none` when there is nothing to escape. Quotes are put around a
string with spaces in it. -/
def jsonEscapeString (raw : Str) (handleSpace : Bool) : Option Str :=
  let spaces := if handleSpace then raw.countP isSpace else 0
  let json := raw.countP needsEscape
  if spaces = 0 ∧ json = 0 then none
  else
    let quote := if spaces ≠ 0 then ['\\', '"'] else []
    some (quote ++ raw.flatMap escapeChar ++ quote)

/-- `bear_json_escape_strings` -/
def jsonEscapeStrings (raw : List Str) : List Str :=
  raw.map fun s => (jsonEscapeString s true).getD s

/-- `bear_strings_fold` -/
def stringsFold (strings : List Str) (separator : Char) : Str :=
  join [separator] (strings.map fun s => '"' :: s ++ ['"'])

/-- `bear_strings_find` -/
def stringsFind (strings : List Str) (e : Str) : Bool := decide (e ∈ strings)

/-! ### Known compilers -/

/-- `basename`, as POSIX has it. -/
def basename (path : Str) : Str :=
  if path = [] then ['.']
  else
    let base := path.rdropWhile (· = '/')
    if base = [] then ['/'] else afterLast '/' base

/-- `is_known_compiler` -/
def isKnownCompiler (compilers : List Str) (cmd : Str) : Bool := stringsFind compilers (basename cmd)

/-- The message is from a known compiler. -/
def known (compilers : List Str) (e : Message) : Bool :=
  match e.cmd with
  | [] => false
  | first :: _ => isKnownCompiler compilers first

/-! ### The output file -/

/-- The output file, and the count of the objects in it. -/
structure OutputFile where
  count : Nat
  text : Str

/-- `bear_open_json_output` -/
def openJsonOutput : OutputFile := ⟨0, "[\n".toList⟩

/-- The text of an object, with debugging on. -/
def debugText (e : Message) (cmd : Str) (isKnown : Bool) : Str :=
  "\x7b\n  \"pid\": \"".toList ++ decimal e.pid ++
  "\",\n  \"ppid\": \"".toList ++ decimal e.ppid ++
  "\",\n  \"function\": \"".toList ++ e.function ++
  "\",\n  \"directory\": \"".toList ++ e.cwd ++
  "\",\n  \"arguments\": [".toList ++ cmd ++
  "],\n  \"respfile\": \"".toList ++ (jsonEscapeString e.respFile false).getD e.respFile ++
  "\",\n  \"isKnown\": ".toList ++ (if isKnown then ['1'] else ['0']) ++ "\n\x7d\n".toList

/-- The text of an object. -/
def entryText (e : Message) (cmd : Str) : Str :=
  "\x7b\n  \"directory\": \"".toList ++ e.cwd ++ "\",\n  \"arguments\": [".toList ++ cmd ++ [']'] ++
  (if e.respFile ≠ [] then
    ",\n  \"respfile\": \"".toList ++ (jsonEscapeString e.respFile false).getD e.respFile ++ ['"']
  else []) ++ "\n\x7d\n".toList

/-- Writes an object, with a comma before it unless it is the first one. -/
def OutputFile.write (file : OutputFile) (object : Str) : OutputFile where
  count := file.count + 1
  text := file.text ++ (if file.count ≠ 0 then ",\n".toList else []) ++ object

/-- `bear_append_json_output` -/
def appendJsonOutput (compilers : List Str) (debug : Bool) (file : OutputFile) (e : Message) :
    OutputFile :=
  let isKnown := known compilers e
  let cmd := stringsFold (jsonEscapeStrings e.cmd) ','
  if debug then file.write (debugText e cmd isKnown)
  else if isKnown then file.write (entryText e cmd)
  else file

/-- `bear_close_json_output` -/
def closeJsonOutput (file : OutputFile) : Str := file.text ++ "]\n".toList

/-- `collect_messages`: what is in the file after the messages. -/
def collectMessages (compilers : List Str) (debug : Bool) (messages : List Message) : Str :=
  closeJsonOutput (messages.foldl (appendJsonOutput compilers debug) openJsonOutput)

/-! ### The whole text -/

/-- The text of the object of a message. -/
def objectText (e : Message) : Str := entryText e (stringsFold (jsonEscapeStrings e.cmd) ',')

/-- **The text is an array of the objects of the known messages**, with commas between them. -/
theorem collectMessages_eq (compilers : List Str) (messages : List Message) :
    collectMessages compilers false messages =
      "[\n".toList ++ join ",\n".toList ((messages.filter (known compilers)).map objectText) ++
        "]\n".toList := by
  have state : messages.foldl (appendJsonOutput compilers false) openJsonOutput =
      { count := (messages.filter (known compilers)).length
        text := "[\n".toList ++
          join ",\n".toList ((messages.filter (known compilers)).map objectText) } := by
    induction messages using List.reverseRecOn with
    | nil => rfl
    | append_singleton messages e ih =>
      rw [List.foldl_append, ih, List.foldl_cons, List.foldl_nil, List.filter_append,
        List.filter_singleton, appendJsonOutput]
      cases isKnown : known compilers e with
      | false => simp
      | true =>
        simp only [Bool.false_eq_true, if_false, if_true, cond_true, List.map_append,
          List.map_cons, List.map_nil, join_concat, OutputFile.write, List.length_append,
          List.length_singleton]
        congr 1
        by_cases absent : messages.filter (known compilers) = []
        · simp [absent, objectText]
        · simp [absent, objectText]
  rw [collectMessages, state]
  rfl

end Xcalbuild.Tracer
