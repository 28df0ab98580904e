/-
**`Prober::probe_macros` and `Prober::probe_toolchain`.**

The prober goes through the compile database and, for every tool profile that it meets for the first
time, runs the compiler on the macros of the C++ directive and then of the C directive. The actions
that are found change the JSON value of the tool profile.

The state of the run is the toolchain profile and the set of tool profiles that were met (`probed`),
with a record of the calls of `probe_macros` and the actions that they returned (`returned`).
-/
import Mathlib.Data.Char
import Mathlib.Data.List.Lex
import Xcalbuild.Library.OrderedSet
import Xcalbuild.Profile.Action
import Xcalbuild.Profile.Lookup
import Xcalbuild.Prober.Macros

namespace Xcalbuild.Prober

open Library
open Profile (Address SpecItem ToolOption ToolProfile ToolchainProfile)

/-- How a probing run goes wrong: at an entry of the compile database, at the JSON value of a tool
profile, at the expansion of a macro, or at a tool profile that was destroyed. -/
inductive ProberFault where
  | item (fault : Json.Fault)
  | profile (fault : Json.Fault)
  | macros (fault : ProbeFault)
  | dangling
  deriving DecidableEq

/-- A run of the compiler on a test file. -/
structure ProbeCommand where
  binary : Path
  args : List Str
  /-- The content of the test file. -/
  text : Str
  deriving DecidableEq

/-- The machine, as the prober sees it. -/
structure ProbeHost where
  /-- `fs::exists` -/
  present : Path → Bool
  /-- `get_full_path_str(binary, dir, /*search*/true)` -/
  searchBinary : Str → Str → Str
  /-- `get_temp_path()` for the test file and for the output of a probe. -/
  inputTemp : Address → Bool → Path
  outputTemp : Address → Bool → Path
  /-- The exit code of the compiler, 1 if it could not be started, and what it wrote. -/
  run : ProbeCommand → Int × Str

/-- `probeCxxMacros` or `probeCMacros` -/
def macroProperty (isCxx : Bool) : Str :=
  if isCxx then "probeCxxMacros".toList else "probeCMacros".toList

/-- The binary next to another one. -/
def besides (binaryPath : Path) (alias_ : Str) : Path :=
  Path.replaceExtension (Path.append (Path.parentPath binaryPath) alias_)
    (Path.extension binaryPath)

/-- The binary that is probed: if the given one is for the other language, the first one of the
needed language (or a generic one) that is there. The sets of aliases are walked in order. -/
def probedBinary (host : ProbeHost) (profile : ToolProfile) (isCxx : Bool) (binaryPath : Path) :
    Path :=
  let filter := if isCxx then profile.cAliases else profile.cxxAliases
  let needed := if isCxx then profile.cxxAliases else profile.cAliases
  if Path.stem binaryPath ∈ filter then
    let candidates :=
      if needed ≠ [] then needed else profile.aliases.filter fun alias_ => alias_ ∉ filter
    (((OrderedSet.ofList candidates).elems.map (besides binaryPath)).find? host.present).getD
      binaryPath
  else binaryPath

/-- The command of a probe. -/
def probeCommand (host : ProbeHost) (p : Address) (profile : ToolProfile) (output : ToolOption)
    (isCxx : Bool) (binaryPath : Path) (macros : Json) : ProbeCommand where
  binary := probedBinary host profile isCxx binaryPath
  args := output.makeStringOption (host.outputTemp p isCxx) ++
    (match profile.preprocessOption with
      | some option => option.makeStringOption []
      | none => []) ++
    [Path.replaceExtension (host.inputTemp p isCxx) (if isCxx then ".cc".toList else ".c".toList)]
  text := generateMacrosTestFile macros

/-- What a probe returns: the actions for the expansions, or none when the compiler fails. -/
def probeOutcome (host : ProbeHost) (p : Address) (profile : ToolProfile) (output : ToolOption)
    (isCxx : Bool) (binaryPath : Path) (macros : Json) : Except ProberFault (List Json) :=
  match host.run (probeCommand host p profile output isCxx binaryPath macros) with
  | (0, text) => do
      let lists ← (parseMacroExpansions macros text).mapError .macros
      return lists.flatMap Json.range
  | _ => .ok []

/-! ### The state of a run -/

/-- A call of `probe_macros`, with the actions that it applied. -/
structure Returned where
  profile : Address
  isCxx : Bool
  actions : List Json

structure ProbeState where
  toolchain : ToolchainProfile
  probed : List Address
  returned : List Returned

/-- The toolchain profile after a change of the JSON value of a tool profile. -/
def setJson (p : Address) (j : Json) (toolchain : ToolchainProfile) : ToolchainProfile :=
  { toolchain with
    profiles := mapAt p (fun profile => { profile with profileJson := j }) toolchain.profiles }

/-- `Prober::probe_macros` -/
def probeMacros (host : ProbeHost) (p : Address) (output : ToolOption) (isCxx : Bool)
    (binaryPath : Path) (state : ProbeState) : Except ProberFault ProbeState :=
  match state.toolchain.profiles.lookup p with
  | none => .error .dangling
  | some profile => do
      let macros ← (profile.profileJson.atKey (macroProperty isCxx)).mapError .profile
      let actions ← probeOutcome host p profile output isCxx binaryPath macros
      let json ← (Profile.applyActions profile.profileJson actions).mapError .profile
      return { state with
        toolchain := setJson p json state.toolchain
        returned := state.returned ++ [⟨p, isCxx, actions⟩] }

/-- A probe, if the tool profile has the directive. It is not empty after validation. -/
def probeIfAny (host : ProbeHost) (p : Address) (output : ToolOption) (isCxx : Bool)
    (binaryPath : Path) (state : ProbeState) : Except ProberFault ProbeState :=
  match state.toolchain.profiles.lookup p with
  | none => .error .dangling
  | some profile =>
      if profile.profileJson.count (macroProperty isCxx) then
        probeMacros host p output isCxx binaryPath state
      else .ok state

/-- The loop body of `probe_toolchain` for a tool profile that is met for the first time. -/
def probeProfile (host : ProbeHost) (p : Address) (binaryPath : Path) (workItem : Json)
    (state : ProbeState) : Except ProberFault ProbeState :=
  match state.toolchain.profiles.lookup p with
  | none => .error .dangling
  | some profile =>
      match profile.outputOption with
      | none => .ok state
      | some output => do
          let directory ← (workItem.atKey "directory".toList).mapError .item
          let dir ← directory.getString.mapError .item
          let profilePath := host.searchBinary binaryPath dir
          let state ← probeIfAny host p output true profilePath state
          probeIfAny host p output false profilePath state

/-- The loop body of `probe_toolchain`. -/
def probeItem (host : ProbeHost) (state : ProbeState) (workItem : Json) :
    Except ProberFault ProbeState :=
  -- Skip if no directory.
  if workItem.count "directory".toList = false then .ok state
  -- Skip if no arguments.
  else if workItem.count "arguments".toList = false then .ok state
  else do
    let arguments ← (workItem.atKey "arguments".toList).mapError .item
    -- Skip if empty arguments.
    if arguments.size = 0 then return state
    match ← (state.toolchain.getMutableToolProfileAndBinaryPath workItem).mapError .item with
    | none => return state
    | some (p, binaryPath) =>
        if p ∈ state.probed then return state
        probeProfile host p binaryPath workItem { state with probed := state.probed ++ [p] }

/-- `Prober::probe_toolchain` -/
def probeToolchain (host : ProbeHost) (cdb : List Json) (toolchain : ToolchainProfile) :
    Except ProberFault ProbeState :=
  cdb.foldlM (probeItem host) ⟨toolchain, [], []⟩

end Xcalbuild.Prober
