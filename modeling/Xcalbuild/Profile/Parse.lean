/-
**`ToolProfile::parse_work_item`.**

A tool profile and the parsing of a work item with it: the arguments are unquoted, the response
file is unfolded (`unfoldLoop`), the binary decides the default language, and the option loop
(`optionLoop`) walks over what is left. Both loops are `while (it != end())` loops over an argument
vector, with the iterator as a position in their state.
-/
import Xcalbuild.Library.Loop
import Xcalbuild.Library.Path
import Xcalbuild.Library.Json
import Xcalbuild.Profile.Option

namespace Xcalbuild.Profile

open Library

/-- A text substitution on preprocessed source code. -/
inductive TextSubstitution where
  | string (pattern replacement : Str)
  | regex (pattern replacement : Str)

/-- Tool profile loader and info provider. -/
structure ToolProfile where
  profileJson : Json
  aliases : List Str
  cAliases : List Str
  cxxAliases : List Str
  defaultCommandKind : CommandKind
  responseFileConfig : List Json
  options : List ToolOption
  responseFileOption : Option ToolOption
  preprocessOption : Option ToolOption
  outputOption : Option ToolOption
  preIncludeOption : Option ToolOption
  sysIncPathOption : Option ToolOption
  optionPrefix : Option Str
  cPrependPreprocessingOptions : List Str
  cxxPrependPreprocessingOptions : List Str
  cAppendPreprocessingOptions : List Str
  cxxAppendPreprocessingOptions : List Str
  cPrependScanOptions : List Str
  cxxPrependScanOptions : List Str
  cPreIncludes : List Str
  cxxPreIncludes : List Str
  cSysIncPaths : List Str
  cxxSysIncPaths : List Str
  sourceExtensions : List (Str × FileFormat)
  targetExtensions : List (Str × FileFormat)
  textSubstitutions : List TextSubstitution

/-- Removes the quotes around a naively quoted option. -/
def unquote (orig : Str) : Str :=
  if orig.head? = some '"' ∧ orig.getLast? = some '"' then orig.tail.dropLast else orig

/-- The tokens of a response file: `boost::split` at white space, then `unquote`. -/
def respTokens (content : Str) : List Str := (split isSpace content).map unquote

/-! ### Unfolding the response file -/

/-- The variables of the unfolding loop. -/
structure UnfoldState where
  it : Nat
  args : List Str
  deriving DecidableEq

/-- The content of the response file: the one the work item carries, else the file itself, else
nothing. -/
def respContent (host : Host) (item : WorkItem) (respArg : Str) : Str :=
  match item.respfile with
  | some content => content
  | none => (host.regularFile respArg item.directory).getD []

/-- The loop that looks for the response file option. It stops at the first match. `resp_arg` is
only assigned by a match, and a match ends the loop, so it is empty at every head. -/
def unfoldLoop (host : Host) (item : WorkItem) (option : ToolOption) (rawArgs : List Str) :
    Loop UnfoldState CursorFault where
  done state := state.it = rawArgs.length
  body state :=
    match option.matchAndGetArg rawArgs state.it [] with
    | .error fault => .fault fault
    | .ok (some (it, respArg)) =>
        .leave ⟨it, state.args ++ respTokens (respContent host item respArg)⟩
    | .ok none =>
        match deref rawArgs state.it with
        | .error fault => .fault fault
        | .ok tok => .next ⟨state.it + 1, state.args ++ [tok]⟩

/-- What the loop leaves behind it, with the rest of the vector moved over. -/
def UnfoldState.finish (rawArgs : List Str) (state : UnfoldState) : List Str :=
  state.args ++ rawArgs.drop state.it

/-- The result of a loop over an argument vector. -/
def exitState {σ : Type} : Exit σ CursorFault → Except CursorFault σ
  | .finished state => .ok state
  | .broke state => .ok state
  | .fault fault => .error fault
  | .exhausted => .error .diverged

/-- The argument vector with the response file unfolded. -/
def unfoldRespfile (profile : ToolProfile) (host : Host) (item : WorkItem) (rawArgs : List Str) :
    Except CursorFault (List Str) :=
  match profile.responseFileOption with
  | none => .ok rawArgs
  | some option => do
      let state ← exitState
        ((unfoldLoop host item option rawArgs).run (rawArgs.length + 1) ⟨0, []⟩)
      return state.finish rawArgs

/-! ### The option loop -/

/-- The variables of the option loop. -/
structure LoopState where
  it : Nat
  parsed : ParsedWorkItem
  deriving DecidableEq

/-- The inner `for`: the first option that matches. -/
def matchAny (host : Host) (options : List ToolOption) (args : List Str) (it : Nat)
    (parsed : ParsedWorkItem) : Except CursorFault (Option (Nat × ParsedWorkItem)) :=
  match options with
  | [] => .ok none
  | option :: rest => do
      match ← option.matchOption host args it parsed with
      | some result => return some result
      | none => matchAny host rest args it parsed

/-- `fs::path(tok).extension().string()` -/
def extensionOf (tok : Str) : Str := Path.extension tok

/-- An argument that no option matched. -/
def leftover (profile : ToolProfile) (host : Host) (tok : Str) (parsed : ParsedWorkItem) :
    ParsedWorkItem :=
  if (profile.optionPrefix.any fun lead => lead.isPrefixOf tok) then
    { parsed with ppOptions := parsed.ppOptions ++ [tok] }
  else if 0 < profile.targetExtensions.length ∧ parsed.target = [] ∧
      (profile.targetExtensions.lookup (extensionOf tok)).isSome then
    { parsed with target := host.getFullPathStr tok parsed.dir }
  else
    match profile.sourceExtensions.lookup (extensionOf tok) with
    | some byExtension =>
        let format := if parsed.fileFormat = .ext then byExtension else parsed.fileFormat
        { parsed with sources := parsed.sources ++ [(host.getFullPathStr tok parsed.dir, format)] }
    | none =>
        if tok ≠ [] then { parsed with ppOptions := parsed.ppOptions ++ [tok] } else parsed

/-- The loop over the options. It is left when a matched option finds the kind to be `ignore`. -/
def optionLoop (profile : ToolProfile) (host : Host) (args : List Str) :
    Loop LoopState CursorFault where
  done state := state.it = args.length
  body state :=
    match matchAny host profile.options args state.it state.parsed with
    | .error fault => .fault fault
    | .ok (some (it, parsed)) =>
        if parsed.kind = .ignore then .leave ⟨it, parsed⟩ else .next ⟨it, parsed⟩
    | .ok none =>
        match deref args state.it with
        | .error fault => .fault fault
        | .ok tok => .next ⟨state.it + 1, leftover profile host tok state.parsed⟩

/-- The language that the name of the binary stands for. -/
def binaryFormat (profile : ToolProfile) (binary : Str) : FileFormat :=
  let basename := Path.stem binary
  if basename ∈ profile.cAliases then .cSource
  else if basename ∈ profile.cxxAliases then .cxxSource
  else .ext

/-- The state before the option loop. -/
def startParsed (profile : ToolProfile) (item : WorkItem) (binary : Str) : ParsedWorkItem :=
  { ParsedWorkItem.init with
    kind := profile.defaultCommandKind
    dir := item.directory
    binary := binary
    fileFormat :=
      if profile.defaultCommandKind = .compile then binaryFormat profile binary
      else ParsedWorkItem.init.fileFormat
    cScanOptions := ParsedWorkItem.init.cScanOptions ++ profile.cPrependScanOptions
    cxxScanOptions := ParsedWorkItem.init.cxxScanOptions ++ profile.cxxPrependScanOptions }

/-- The arguments of the work item, unquoted. -/
def rawArgs (item : WorkItem) : List Str := item.arguments.map unquote

/-- The part of `parse_work_item` after the response file is unfolded. -/
def parseArgs (profile : ToolProfile) (host : Host) (item : WorkItem) (args : List Str) :
    Except CursorFault ParsedWorkItem := do
  let binary ← deref args 0
  let state ← exitState ((optionLoop profile host args).run (args.length + 1)
    ⟨1, startParsed profile item binary⟩)
  return state.parsed

/-- `ToolProfile::parse_work_item` -/
def parseWorkItem (profile : ToolProfile) (host : Host) (item : WorkItem) :
    Except CursorFault ParsedWorkItem := do
  let args ← unfoldRespfile profile host item (rawArgs item)
  parseArgs profile host item args

end Xcalbuild.Profile
