/-
**The pseudo link result of a command with several sources.**

The compile results of a command with several sources get targets of their own, and a pseudo link
result for the target of the command has these targets as its sources. It is appended after the
loop over the sources, so it is missing when the loop is left, and it has no sources when the
target is a directory.

* `handleCompile_leading`, `handleCompile_multi`: the results that are appended, from the sources
  before the first one that fails (`leading`);
* `linkAgrees_iff`: the compile results and the link result agree exactly when nothing is appended,
  or no source fails and the target is no directory.
-/
import Mathlib.Data.List.Nodup
import Xcalbuild.Processor.Languages

namespace Xcalbuild.Processor

open Library
open Build (CCResult LDResult)
open Profile (FileFormat ParsedWorkItem ToolProfile)

/-- The name of the target of a command. -/
def commandTarget (machine : Machine) (parsed : ParsedWorkItem) : Str :=
  targetName (pseudoLink (withTarget machine parsed).target [])

/-- **The compile results and the link result of a command agree.** -/
structure LinkAgrees (profile : ToolProfile) (machine : Machine) (parsed : ParsedWorkItem) :
    Prop where
  linked : ∀ cc ∈ (handleCompile [] profile machine parsed).ccResults,
    ∃ link ∈ (handleCompile [] profile machine parsed).ldResults,
      link.target = commandTarget machine parsed ∧ cc.target ∈ link.sources
  compiled : ∀ link ∈ (handleCompile [] profile machine parsed).ldResults,
    link.target = commandTarget machine parsed → ∀ source ∈ link.sources,
      (handleCompile [] profile machine parsed).ccResults.countP
        (fun cc => decide (cc.target = source)) = 1

/-- The sources before the first one on which the preprocessor fails. -/
def leading (machine : Machine) (parsed : ParsedWorkItem) : List Source :=
  (sourcesOf machine parsed).takeWhile fun source => decide (machine.exitCode source.position = 0)

/-- Nothing is appended, or no source fails and the target is no directory. -/
def NothingLost (machine : Machine) (parsed : ParsedWorkItem) : Prop :=
  leading machine parsed = [] ∨ (leading machine parsed = sourcesOf machine parsed ∧
    machine.isDirectory (withTarget machine parsed).target = false)

section Item

variable {profile : ToolProfile} {machine : Machine} {parsed : ParsedWorkItem}

/-- The link result that is appended after the loop. -/
def bridge (machine : Machine) (parsed : ParsedWorkItem) : LDResult :=
  linkResult (pseudoLink (withTarget machine parsed).target
    ((sourcesOf machine parsed).flatMap fun source =>
      pseudoSource machine true source (withTarget machine parsed)))

/-- **The loop handles the leading sources**, and is left unless these are all that are there. -/
theorem sourceLoop_leading (profile : ToolProfile) (machine : Machine) (parsed : ParsedWorkItem) :
    ∃ state, state.ccResults = resultsOf profile machine (multiSources parsed)
        (withTarget machine parsed) (leading machine parsed) ∧
      ((leading machine parsed = sourcesOf machine parsed ∧
          ItemInv profile machine parsed parsed.sources.zipIdx state ∧
          sourceLoop profile machine parsed = .next state) ∨
        (leading machine parsed ≠ sourcesOf machine parsed ∧
          sourceLoop profile machine parsed = .leave state)) := by
  rcases sourceLoop_cases profile machine parsed with
    ⟨state, inv, ends⟩ | ⟨done, source, rest, state, parts, inv, there, fails, ends⟩
  · have all : leading machine parsed = sourcesOf machine parsed :=
      List.takeWhile_eq_self_iff.mpr fun source member =>
        decide_eq_true (inv.succeeded source member)
    refine ⟨state, ?_, Or.inl ⟨all, inv, ends⟩⟩
    rw [all]
    exact inv.results
  · have split : sourcesOf machine parsed =
        existing machine done ++ source :: existing machine rest := by
      unfold sourcesOf existing
      rw [parts, List.filter_append, List.filter_cons, if_pos there]
    have front : leading machine parsed = existing machine done := by
      rw [leading, split, List.takeWhile_append_of_pos
        (fun other member => decide_eq_true (inv.succeeded other member)),
        List.takeWhile_cons_of_neg (by simpa using fails), List.append_nil]
    refine ⟨state.failed profile machine source, ?_, Or.inr ⟨?_, ends⟩⟩
    · rw [front]
      exact inv.results
    · rw [front, split]
      intro same
      have := congrArg List.length same
      simp at this

/-- **The compile results of a command** are those of its leading sources. -/
theorem handleCompile_leading (linkerKey : List Str) (profile : ToolProfile) (machine : Machine)
    (parsed : ParsedWorkItem) :
    (handleCompile linkerKey profile machine parsed).ccResults =
      resultsOf profile machine (multiSources parsed) (withTarget machine parsed)
        (leading machine parsed) := by
  obtain ⟨state, results, ⟨-, -, ends⟩ | ⟨-, ends⟩⟩ := sourceLoop_leading profile machine parsed
  · unfold handleCompile
    rw [ends]
    exact results
  · unfold handleCompile
    rw [ends]
    exact results

/-- **What is appended for a command with several sources.** -/
theorem handleCompile_multi (profile : ToolProfile) (machine : Machine)
    (several : 1 < parsed.sources.length) :
    (handleCompile [] profile machine parsed).ccResults =
        resultsOf profile machine true (withTarget machine parsed) (leading machine parsed) ∧
      (handleCompile [] profile machine parsed).ldResults =
        if leading machine parsed = sourcesOf machine parsed then [bridge machine parsed]
        else [] := by
  have multi : multiSources parsed = true := decide_eq_true several
  refine ⟨multi ▸ handleCompile_leading [] profile machine parsed, ?_⟩
  obtain ⟨state, -, ⟨all, inv, ends⟩ | ⟨notAll, ends⟩⟩ := sourceLoop_leading profile machine parsed
  · have target : state.parsed.target = (withTarget machine parsed).target := by
      rw [inv.parsed, clearAll_eq]
    unfold handleCompile
    rw [ends, if_pos all]
    dsimp only [CompileState.outcome]
    rw [if_pos multi, handleLink_nil, target, inv.pseudo, multi]
    rfl
  · unfold handleCompile
    rw [ends, if_neg notAll]
    rfl

/-- In a directory the results have targets there, and the link result has no sources. -/
theorem bridge_directory (directory : machine.isDirectory (withTarget machine parsed).target = true) :
    (bridge machine parsed).sources = [] := by
  unfold bridge linkResult pseudoLink pseudoSource
  simp [directory]

/-- Outside a directory, every source has a path of its own. -/
theorem bridge_sources (plain : machine.isDirectory (withTarget machine parsed).target = false) :
    (bridge machine parsed).sources =
      (sourcesOf machine parsed).map fun source => machine.uniquePath source.position := by
  unfold bridge linkResult pseudoLink pseudoSource
  simp [plain, ← List.map_eq_flatMap]

theorem targets_resultsOf (plain : machine.isDirectory (withTarget machine parsed).target = false)
    (sources : List Source) :
    (resultsOf profile machine true (withTarget machine parsed) sources).map CCResult.target =
      sources.map fun source => machine.uniquePath source.position := by
  refine List.ext_getElem (by simp [resultsOf]) ?_
  intro k inside _
  simp [resultsOf, ccResult, sourceTarget, clearAll_eq, plain]

theorem nodup_sources (machine : Machine) (parsed : ParsedWorkItem) :
    ((sourcesOf machine parsed).map fun source => machine.uniquePath source.position).Nodup := by
  have positions : ((sourcesOf machine parsed).map Source.position).Nodup := by
    have all : (parsed.sources.zipIdx.map Source.position).Nodup := by
      have range : parsed.sources.zipIdx.map Source.position =
          List.range' 0 parsed.sources.length := List.zipIdx_map_snd 0 parsed.sources
      rw [range]
      exact List.nodup_range'
    exact all.sublist (List.filter_sublist.map _)
  have paths := List.Nodup.map machine.uniquePath_injective positions
  rwa [List.map_map] at paths

theorem nothingLost_of_linkAgrees (several : 1 < parsed.sources.length)
    (agrees : LinkAgrees profile machine parsed) : NothingLost machine parsed := by
  obtain ⟨results, links⟩ := handleCompile_multi profile machine several
  by_cases nothing : leading machine parsed = []
  · exact Or.inl nothing
  right
  have nonempty : (handleCompile [] profile machine parsed).ccResults ≠ [] := by
    rw [results, resultsOf, ne_eq, List.mapIdx_eq_nil_iff]
    exact nothing
  obtain ⟨cc, rest, first⟩ := List.exists_cons_of_ne_nil nonempty
  obtain ⟨link, member, -, source⟩ := agrees.linked cc (first ▸ List.mem_cons_self)
  rw [links] at member
  split_ifs at member with all
  · refine ⟨all, ?_⟩
    rw [List.mem_singleton] at member
    subst member
    cases directory : machine.isDirectory (withTarget machine parsed).target with
    | false => rfl
    | true =>
      rw [bridge_directory directory] at source
      cases source
  · cases member

theorem linkAgrees_of_nothingLost (several : 1 < parsed.sources.length)
    (kept : NothingLost machine parsed) : LinkAgrees profile machine parsed := by
  obtain ⟨results, links⟩ := handleCompile_multi profile machine several
  rcases kept with nothing | ⟨all, plain⟩
  · rw [nothing] at results links
    constructor
    · intro cc member
      rw [results] at member
      cases member
    · intro link member _ source isSource
      rw [links] at member
      split_ifs at member with absent
      · rw [List.mem_singleton] at member
        subst member
        have empty : (bridge machine parsed).sources = [] := by
          unfold bridge linkResult pseudoLink
          rw [← absent]
          rfl
        rw [empty] at isSource
        cases isSource
      · cases member
  · rw [if_pos all] at links
    rw [all] at results
    have targets := @targets_resultsOf profile machine parsed plain (sourcesOf machine parsed)
    constructor
    · intro cc member
      refine ⟨bridge machine parsed, by rw [links]; exact List.mem_singleton_self _, rfl, ?_⟩
      rw [bridge_sources plain, ← targets, ← results]
      exact List.mem_map_of_mem member
    · intro link member _ source isSource
      rw [links, List.mem_singleton] at member
      subst member
      rw [bridge_sources plain] at isSource
      have once := List.count_eq_one_of_mem (nodup_sources machine parsed) isSource
      rw [← targets, ← results, List.count, List.countP_map] at once
      rw [← once]
      refine List.countP_congr fun cc _ => ?_
      simp

/-- **The compile results and the link result of a command with several sources agree exactly when
nothing is lost**: nothing is appended, or no source fails and the target is no directory. -/
theorem linkAgrees_iff (several : 1 < parsed.sources.length) :
    LinkAgrees profile machine parsed ↔ NothingLost machine parsed :=
  ⟨nothingLost_of_linkAgrees several, linkAgrees_of_nothingLost several⟩

end Item

/-! ### A second source that fails -/

/-- The result of the first source is in no link result when the second source fails. -/
theorem link_result_lost :
    ¬ ∀ (profile : ToolProfile) (machine : Machine) (parsed : ParsedWorkItem),
      1 < parsed.sources.length → LinkAgrees profile machine parsed := by
  intro agrees
  have several : 1 < (compileItem
      [("/w/a.c".toList, .cSource), ("/w/b.c".toList, .cSource)]).sources.length := by decide
  have kept := nothingLost_of_linkAgrees several
    (agrees bareProfile (machineFailingFrom 1) _ several)
  revert kept
  unfold NothingLost
  decide

/-- Without a failure both results are linked. -/
theorem linkAgrees_two :
    LinkAgrees bareProfile (machineFailingFrom 2)
      (compileItem [("/w/a.c".toList, .cSource), ("/w/b.c".toList, .cSource)]) :=
  (linkAgrees_iff (by decide)).mpr (Or.inr (by decide))

end Xcalbuild.Processor
