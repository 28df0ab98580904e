/-
**`WorkItemProcessor::handle_link`.**

A link or archive item becomes a link result. The target is cut down to its last component, which
is also what the linker key is compared with (`filteredOut`).
-/
import Xcalbuild.Build.Results

namespace Xcalbuild.Processor

open Library
open Build (LDResult)
open Profile (ParsedWorkItem)

/-- The target of a link item, with the default if it has none. -/
def linkTarget (parsed : ParsedWorkItem) : Str :=
  if parsed.target = [] ∧ parsed.kind = .link then "DEFAULT_OUTPUT".toList else parsed.target

/-- The last component of the target: `erase` cuts the target itself. -/
def targetName (parsed : ParsedWorkItem) : Str := afterLast '/' (linkTarget parsed)

/-- The linker key is a list of the targets to keep, or, after a first entry `black`, to drop. -/
def filteredOut (linkerKey : List Str) (name : Str) : Bool :=
  if linkerKey = [] then false
  else if linkerKey.head? = some "black".toList then decide (name ∈ linkerKey)
  else decide (name ∉ linkerKey)

/-- The link result of an item. -/
def linkResult (parsed : ParsedWorkItem) : LDResult where
  target := targetName parsed
  sources := parsed.sources.map Prod.fst

/-- `WorkItemProcessor::handle_link`: the link result that is appended, if any. -/
def handleLink (linkerKey : List Str) (parsed : ParsedWorkItem) : Option LDResult :=
  if filteredOut linkerKey (targetName parsed) then none else some (linkResult parsed)

/-- Without a linker key every item has a link result. -/
theorem handleLink_nil (parsed : ParsedWorkItem) : handleLink [] parsed = some (linkResult parsed) :=
  rfl

theorem filterMap_handleLink_nil (items : List ParsedWorkItem) :
    items.filterMap (handleLink []) = items.map linkResult := by
  rw [← List.filterMap_eq_map]
  rfl

theorem not_mem_targetName (parsed : ParsedWorkItem) : '/' ∉ targetName parsed :=
  not_mem_afterLast '/' _

end Xcalbuild.Processor
