/-
**`Prober::parse_macro_expansions`.**

To probe the macros of a directive, a line with a marker is preprocessed for each of them
(`generateMacrosTestFile`), and the lines with the marker are read back: a macro whose name is a
prefix of what comes after the marker expands to the text from one character after the name.

* `parseMacroExpansions_eq`: the actions that are found for the lines of a probe;
* `probed_iff`: they are the actions of the expansions exactly when no expansion is empty and no line
  is taken for one of another macro.
-/
import Xcalbuild.Library.Collect
import Xcalbuild.Library.Json
import Xcalbuild.Processor.Compile

namespace Xcalbuild.Prober

open Library

def xcalPrefix : Str := "__XCAL__".toList

def xcalPrefixLength : Nat := 8

/-- `std::out_of_range` -/
inductive ProbeFault where
  | outOfRange
  deriving DecidableEq

/-- `text.substr(pos)` -/
def substr (text : Str) (pos : Nat) : Except ProbeFault Str :=
  if pos ≤ text.length then .ok (text.drop pos) else .error .outOfRange

/-- `Prober::generate_macros_test_file` -/
def generateMacrosTestFile (macros : Json) : Str :=
  macros.items.flatMap fun item => xcalPrefix ++ item.1 ++ ' ' :: item.1 ++ ['\n']

/-- The actions that a macro of the directive has for a line, without the marker. -/
def macroActions (rest : Str) (item : Str × Json) : Except ProbeFault (List Json) :=
  if item.1 <+: rest then do
    let val ← substr rest (item.1.length + 1)
    return (item.2.find val).toList
  else return []

/-- The actions that are found for a line with the marker. -/
def lineActions (macros : Json) (line : Str) : Except ProbeFault (List Json) := do
  let rest ← substr line xcalPrefixLength
  collect (macroActions rest) macros.items

/-- `Prober::parse_macro_expansions` -/
def parseMacroExpansions (macros : Json) (text : Str) : Except ProbeFault (List Json) :=
  collect (fun line => if xcalPrefix.isPrefixOf line then lineActions macros line else .ok [])
    (lines text)

/-! ### Probing with a preprocessor -/

/-- What a macro's line is without the marker, after preprocessing. -/
def probedRest (name expansion : Str) : Str :=
  if expansion = [] then name else name ++ ' ' :: expansion

/-- A directive, and a run of the native preprocessor on the test file for it: it expands the macro
of each line, and the marker is on no other line. -/
structure Probe where
  macros : Json
  /-- An object has each key once. -/
  distinct : (macros.items.map Prod.fst).Nodup
  expansion : Str → Str
  preprocess : Str → Str
  probed : (lines (preprocess (generateMacrosTestFile macros))).filter xcalPrefix.isPrefixOf =
    macros.items.map fun item => xcalPrefix ++ probedRest item.1 (expansion item.1)

namespace Probe

variable (probe : Probe)

/-- The preprocessed test file. -/
def output : Str := probe.preprocess (generateMacrosTestFile probe.macros)

/-- The line of a macro, without the marker. -/
def rest (item : Str × Json) : Str := probedRest item.1 (probe.expansion item.1)

/-- **The actions of the expansions are found, one list for each macro that has one.** -/
def ActionsFound : Prop :=
  parseMacroExpansions probe.macros probe.output =
    .ok (probe.macros.items.flatMap fun item => (item.2.find (probe.expansion item.1)).toList)

/-- No line is too short, or taken for a line of another macro. -/
structure Unambiguous : Prop where
  nonempty : ∀ item ∈ probe.macros.items, probe.expansion item.1 ≠ []
  alone : ∀ item ∈ probe.macros.items, ∀ other ∈ probe.macros.items, other.1 ≠ item.1 →
    other.1 <+: item.1 ++ ' ' :: probe.expansion item.1 →
      other.1 ≠ item.1 ++ ' ' :: probe.expansion item.1 ∧
        other.2.find ((item.1 ++ ' ' :: probe.expansion item.1).drop (other.1.length + 1)) = none

/-- A macro that is a prefix of a line leaves something of it. -/
def Safe (line : Str) (other : Str × Json) : Prop := other.1 <+: line → other.1.length < line.length

instance (line : Str) : DecidablePred (Safe line) := fun other =>
  inferInstanceAs (Decidable (other.1 <+: line → other.1.length < line.length))

/-- What a macro has for a line. -/
def finds (line : Str) (other : Str × Json) : List Json :=
  if other.1 <+: line then (other.2.find (line.drop (other.1.length + 1))).toList else []

theorem macroActions_eq (line : Str) (other : Str × Json) : macroActions line other =
    if Safe line other then .ok (finds line other) else .error .outOfRange := by
  unfold macroActions finds substr
  by_cases lead : other.1 <+: line
  · rw [if_pos lead, if_pos lead]
    by_cases inside : other.1.length < line.length
    · have safe : Safe line other := fun _ => inside
      rw [if_pos (Nat.succ_le_of_lt inside), if_pos safe]
      rfl
    · have notSafe : ¬ Safe line other := fun safe => inside (safe lead)
      rw [if_neg fun long => inside (Nat.lt_of_succ_le long), if_neg notSafe]
      rfl
  · have safe : Safe line other := fun lead' => absurd lead' lead
    rw [if_neg lead, if_neg lead, if_pos safe]
    rfl

theorem lineActions_eq (macros : Json) (line : Str) :
    lineActions macros (xcalPrefix ++ line) = if ∀ other ∈ macros.items, Safe line other then
      .ok (macros.items.flatMap (finds line)) else .error .outOfRange := by
  have rest : substr (xcalPrefix ++ line) xcalPrefixLength = .ok line := by
    unfold substr
    rw [if_pos (by rw [List.length_append]; exact Nat.le_add_right _ _)]
    rfl
  unfold lineActions
  rw [rest, ok_bind]
  exact collect_guarded fun other _ => macroActions_eq line other

/-- **The actions that are found for the lines of a probe.** -/
theorem parseMacroExpansions_eq : parseMacroExpansions probe.macros probe.output =
    if ∀ item ∈ probe.macros.items, ∀ other ∈ probe.macros.items, Safe (probe.rest item) other then
      .ok (probe.macros.items.flatMap fun item =>
        probe.macros.items.flatMap (finds (probe.rest item)))
    else .error .outOfRange := by
  unfold parseMacroExpansions output
  rw [collect_filter, probe.probed, collect_map]
  exact collect_guarded fun item _ => lineActions_eq probe.macros (probe.rest item)

/-! ### One line -/

variable {probe}

/-- The line of a macro whose expansion is not empty. -/
theorem rest_of_nonempty {item : Str × Json} (nonempty : probe.expansion item.1 ≠ []) :
    probe.rest item = item.1 ++ ' ' :: probe.expansion item.1 := by
  rw [rest, probedRest, if_neg nonempty]

/-- A line without an expansion is too short for its own macro. -/
theorem nonempty_of_safe {item : Str × Json} (safe : Safe (probe.rest item) item) :
    probe.expansion item.1 ≠ [] := by
  intro empty
  have same : probe.rest item = item.1 := by
    rw [rest, probedRest, if_pos empty]
  rw [Safe, same] at safe
  exact Nat.lt_irrefl _ (safe (List.prefix_refl item.1))

/-- A macro has the actions of its expansion for its own line. -/
theorem finds_own {item : Str × Json} (nonempty : probe.expansion item.1 ≠ []) :
    finds (probe.rest item) item = (item.2.find (probe.expansion item.1)).toList := by
  have lead : item.1 <+: item.1 ++ ' ' :: probe.expansion item.1 := List.prefix_append _ _
  have val : (item.1 ++ ' ' :: probe.expansion item.1).drop (item.1.length + 1) =
      probe.expansion item.1 := by
    rw [List.drop_append, Nat.add_sub_cancel_left, List.drop_eq_nil_of_le (Nat.le_succ _)]
    rfl
  rw [rest_of_nonempty nonempty, finds, if_pos lead, val]

/-- What a macro has for its own line is part of what is found for the line. -/
theorem finds_sublist {item : Str × Json} (member : item ∈ probe.macros.items) (line : Str) :
    (finds line item).Sublist (probe.macros.items.flatMap (finds line)) := by
  rw [← flatMap_key probe.distinct member (finds line)]
  refine List.Sublist.flatMap_right _ fun other _ => ?_
  split_ifs
  · exact List.Sublist.refl _
  · exact List.nil_sublist _

/-- **Only a macro's own actions are found for its line** exactly when no other macro has any. -/
theorem finds_only_iff {item : Str × Json} (member : item ∈ probe.macros.items) (line : Str) :
    finds line item = probe.macros.items.flatMap (finds line) ↔
      ∀ other ∈ probe.macros.items, other.1 ≠ item.1 → finds line other = [] := by
  have parts : ∀ other ∈ probe.macros.items,
      (if other.1 = item.1 then finds line other else []).Sublist (finds line other) := by
    intro other _
    split_ifs
    · exact List.Sublist.refl _
    · exact List.nil_sublist _
  rw [← flatMap_key probe.distinct member (finds line), flatMap_eq_flatMap_iff parts]
  refine forall₂_congr fun other _ => ?_
  by_cases same : other.1 = item.1
  · rw [if_pos same]
    exact iff_of_true rfl fun differs => absurd same differs
  · rw [if_neg same]
    exact ⟨fun empty _ => empty.symm, fun empty => (empty same).symm⟩

/-! ### All lines -/

theorem unambiguous_of_found (found : probe.ActionsFound) : probe.Unambiguous := by
  rw [ActionsFound, parseMacroExpansions_eq] at found
  split_ifs at found with safe
  have same := Except.ok.inj found
  have nonempty : ∀ item ∈ probe.macros.items, probe.expansion item.1 ≠ [] :=
    fun item member => nonempty_of_safe (safe item member item member)
  have parts : ∀ item ∈ probe.macros.items,
      ((item.2.find (probe.expansion item.1)).toList).Sublist
        (probe.macros.items.flatMap (finds (probe.rest item))) := by
    intro item member
    rw [← finds_own (nonempty item member)]
    exact finds_sublist member _
  have lines := (flatMap_eq_flatMap_iff parts).mp same.symm
  refine ⟨nonempty, fun item member other listed differs lead => ?_⟩
  rw [← rest_of_nonempty (nonempty item member)] at lead ⊢
  constructor
  · intro whole
    have short := safe item member other listed lead
    rw [whole] at short
    exact Nat.lt_irrefl _ short
  · have only := lines item member
    rw [← finds_own (nonempty item member), finds_only_iff member] at only
    have absent := only other listed differs
    rw [finds, if_pos lead] at absent
    exact Option.toList_eq_nil_iff.mp absent

theorem found_of_unambiguous (unambiguous : probe.Unambiguous) : probe.ActionsFound := by
  have safe : ∀ item ∈ probe.macros.items, ∀ other ∈ probe.macros.items,
      Safe (probe.rest item) other := by
    intro item member other listed lead
    have line := rest_of_nonempty (unambiguous.nonempty item member)
    rw [line] at lead ⊢
    by_cases same : other.1 = item.1
    · rw [same, List.length_append, List.length_cons]
      omega
    · have differs := (unambiguous.alone item member other listed same lead).1
      exact lt_of_le_of_ne lead.length_le fun long => differs (lead.eq_of_length long)
  rw [ActionsFound, parseMacroExpansions_eq, if_pos safe]
  refine congrArg Except.ok (List.flatMap_congr fun item member => ?_)
  have nonempty := unambiguous.nonempty item member
  rw [← finds_own nonempty, eq_comm, finds_only_iff member]
  intro other listed differs
  unfold finds
  split_ifs with lead
  · rw [rest_of_nonempty nonempty] at lead ⊢
    rw [(unambiguous.alone item member other listed differs lead).2]
    rfl
  · rfl

/-- **The actions of the expansions are found exactly when no expansion is empty and no line is
taken for one of another macro.** -/
theorem probed_iff (probe : Probe) : probe.ActionsFound ↔ probe.Unambiguous :=
  ⟨unambiguous_of_found, found_of_unambiguous⟩

end Probe

/-! ### A macro without an expansion -/

/-- `NDEBUG` is defined as nothing. -/
def emptyExpansion : Probe where
  macros := .obj [("NDEBUG".toList, .obj [([], .arr [.obj []])])]
  distinct := List.pairwise_singleton _ _
  expansion _ := []
  preprocess _ := "# 1 \"probe.c\"\n__XCAL__NDEBUG\n".toList
  probed := rfl

/-- The line of the macro ends before the place that its expansion is read from. -/
theorem empty_expansion_throws : ¬ ∀ probe : Probe, probe.ActionsFound := by
  intro found
  have unambiguous := Probe.unambiguous_of_found (found emptyExpansion)
  exact unambiguous.nonempty _ List.mem_cons_self rfl

end Xcalbuild.Prober
