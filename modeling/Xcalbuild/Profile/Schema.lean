/-
**The documented schema of a tool profile.**

The definitions of the user documentation for tool profiles, as shapes of JSON values: which
properties there are, which of them are optional, and what their values are. They are compared with
what `ToolProfile::load` checks.

The documentation says of an option that it takes no argument if `argFormat` is not specified, so
`argFormat` is optional here.
-/
import Xcalbuild.Library.JsonShape
import Xcalbuild.Profile.Load

namespace Xcalbuild.Profile

open Library Library.Shape

/-- The names a table gives values for. -/
def namesOf {α : Type} (table : List (Str × α)) : List Str := table.map Prod.fst

/-- `string[]` -/
def StringArray : Shape := array string

/-- `FileFormatTypeWithExt` -/
def FileFormatTypeWithExt : Shape := oneOf (namesOf fileFormatNames)

/-- `FileFormatType`: a file format that is not `ext`. -/
def IsFileFormatType (name : Str) : Prop := name ∈ namesOf fileFormatNames ∧ name ≠ "ext".toList

/-- `CommandKind` -/
def CommandKindDef : Shape := oneOf (namesOf commandKindNames)

/-- `ArgFormatType` -/
def ArgFormatType : Shape := oneOf (namesOf optionArgFormatNames)

/-! ### Options -/

/-- A property names a value of a table. -/
def Named {α : Type} (table : List (Str × α)) (j : Json) (key : Str) (a : α) : Prop :=
  ∃ text, j.find key = some (.str text) ∧ table.lookup text = some a

/-- The type of an option definition. -/
def HasType (j : Json) (type : OptionType) : Prop := Named optionTypeNames j "type".toList type

structure BaseOptionDef (j : Json) : Prop where
  aliases : required "aliases".toList StringArray j
  argFormat : optional "argFormat".toList (array ArgFormatType) j
  type : required "type".toList (oneOf (namesOf optionTypeNames)) j

def CmdOptionDef : Shape := required "kind".toList CommandKindDef

def LangOptionDef : Shape := required "argValues".toList (map (fun _ => True) FileFormatTypeWithExt)

structure ScanOptionDef (j : Json) : Prop where
  cScanOption : optional "cScanOption".toList string j
  cxxScanOption : optional "cxxScanOption".toList string j
  scanArgFormat : optional "scanArgFormat".toList ArgFormatType j
  cArgValues : optional "cArgValues".toList (map (fun _ => True) string) j
  cxxArgValues : optional "cxxArgValues".toList (map (fun _ => True) string) j

/-- The option definition that each type extends the base definition with. -/
structure OptionDef (j : Json) : Prop where
  base : BaseOptionDef j
  cmd : HasType j .cmd → CmdOptionDef j
  lang : HasType j .lang → LangOptionDef j
  scan : HasType j .scan → ScanOptionDef j

/-! ### The other properties -/

def FileExtDef : Shape := map IsFileFormatType StringArray

structure ProbeActionDef (j : Json) : Prop where
  config : required "config".toList (oneOf actionableConfigs) j
  action : required "action".toList (oneOf ["prepend".toList]) j
  value : required "value".toList StringArray j

def ProbeOutcomeDef : Shape := map (fun _ => True) (array ProbeActionDef)

def ProbeMacroDef : Shape := map (fun _ => True) ProbeOutcomeDef

/-- `RegexSubDef | StringSubDef` -/
structure TextSubDef (j : Json) : Prop where
  text : required "regex".toList string j ∨ required "string".toList string j
  replacement : required "replacement".toList string j

/-- `ToolProfile` of the documentation. -/
structure ToolProfileDef (j : Json) : Prop where
  aliases : required "aliases".toList StringArray j
  cAliases : optional "cAliases".toList StringArray j
  cxxAliases : optional "cxxAliases".toList StringArray j
  defaultCommandKind : required "defaultCommandKind".toList CommandKindDef j
  optionPrefix : optional "optionPrefix".toList string j
  options : required "options".toList (array OptionDef) j
  actionable : ∀ key ∈ actionableConfigs, optional key StringArray j
  probeCMacros : optional "probeCMacros".toList ProbeMacroDef j
  probeCxxMacros : optional "probeCxxMacros".toList ProbeMacroDef j
  sourceExtensions : optional "sourceExtensions".toList FileExtDef j
  targetExtensions : optional "targetExtensions".toList FileExtDef j
  textSubstitutions : optional "textSubstitutions".toList (array TextSubDef) j

end Xcalbuild.Profile
