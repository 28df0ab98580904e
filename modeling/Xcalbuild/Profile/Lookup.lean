/-
**Looking up the tool profile of an entry of the compile database.**

The entries of the database are JSON values, and nothing checks them when they are read. This module has
the lookup on such a value, with the accesses it makes, and the entries with the documented types
(`SpecItem`), each property of which may be missing.

* `lookup_eq`: the lookup accesses nothing that an entry does not have;
* `recognise_workItem`: on an entry with all properties it is the lookup of the work item.
-/
import Xcalbuild.Profile.Toolchain

namespace Xcalbuild.Profile

open Library

/-- `get_mutable_tool_profile_and_binary_path` -/
def ToolchainProfile.getMutableToolProfileAndBinaryPath (toolchain : ToolchainProfile)
    (workItem : Json) : Except Json.Fault (Option (Address × Path)) :=
  if workItem.count "arguments".toList = false then .ok none
  else do
    let arguments ← workItem.atKey "arguments".toList
    if arguments.size = 0 then return none
    let binaryPath ← (← arguments.front).getString
    let binary := Path.replaceExtension (Path.filename binaryPath) []
    return (toolchain.binaries.find binary).map fun p => (p, binaryPath)

/-- An entry of the compile database with the types of the build specification, in which every
property may be missing. -/
structure SpecItem where
  json : Json
  directory : Option Str
  arguments : Option (List Str)
  respfile : Option Str
  hasDirectory : json.find "directory".toList = directory.map .str
  hasArguments : json.find "arguments".toList = arguments.map fun args => .arr (args.map .str)
  hasRespfile : json.find "respfile".toList = respfile.map .str

namespace SpecItem

/-- The entry has a directory and arguments. -/
def complete (item : SpecItem) : Bool := item.directory.isSome && item.arguments.any (· ≠ [])

/-- The tool profile and the path of the binary of an entry. -/
def recognise (toolchain : ToolchainProfile) (item : SpecItem) : Option (Address × Path) :=
  match item.arguments with
  | some (binaryPath :: _) =>
      (toolchain.binaries.find (Path.replaceExtension (Path.filename binaryPath) [])).map
        fun p => (p, binaryPath)
  | _ => none

variable (toolchain : ToolchainProfile) (item : SpecItem)

theorem count_arguments : item.json.count "arguments".toList = item.arguments.isSome := by
  rw [Json.count, item.hasArguments, Option.isSome_map]

theorem count_directory : item.json.count "directory".toList = item.directory.isSome := by
  rw [Json.count, item.hasDirectory, Option.isSome_map]

theorem at_arguments {args : List Str} (given : item.arguments = some args) :
    item.json.atKey "arguments".toList = .ok (.arr (args.map .str)) := by
  apply atKey_of_find
  rw [item.hasArguments, given]
  rfl

theorem at_directory {dir : Str} (given : item.directory = some dir) :
    item.json.atKey "directory".toList = .ok (.str dir) := by
  apply atKey_of_find
  rw [item.hasDirectory, given]
  rfl

/-- **The lookup accesses nothing that the entry does not have.** -/
theorem lookup_eq : toolchain.getMutableToolProfileAndBinaryPath item.json =
    .ok (item.recognise toolchain) := by
  unfold ToolchainProfile.getMutableToolProfileAndBinaryPath recognise
  rw [item.count_arguments]
  cases given : item.arguments with
  | none => rfl
  | some args =>
    rw [if_neg (by simp), item.at_arguments given]
    cases args with
    | nil => rfl
    | cons first rest => rfl

/-- A recognised entry has arguments. -/
theorem arguments_of_recognise {found : Address × Path}
    (recognised : item.recognise toolchain = some found) :
    ∃ rest, item.arguments = some (found.2 :: rest) := by
  unfold recognise at recognised
  cases given : item.arguments with
  | none =>
    rw [given] at recognised
    cases recognised
  | some args =>
    cases args with
    | nil =>
      rw [given] at recognised
      cases recognised
    | cons first rest =>
      rw [given] at recognised
      obtain ⟨p, -, same⟩ := Option.map_eq_some_iff.mp recognised
      exact ⟨rest, by rw [← same]⟩

/-- **On an entry with all properties** it is the lookup of the work item. -/
theorem recognise_workItem {workItem : WorkItem}
    (given : item.arguments = some workItem.arguments) :
    (item.recognise toolchain).map Prod.fst = toolchain.getToolProfile workItem := by
  unfold recognise ToolchainProfile.getToolProfile ToolchainProfile.getMutableToolProfile
  rw [given]
  cases workItem.arguments with
  | nil => rfl
  | cons first rest =>
    show ((toolchain.binaries.find _).map _).map Prod.fst = toolchain.binaries.find _
    rw [Option.map_map]
    exact Option.map_id'

end SpecItem

end Xcalbuild.Profile
