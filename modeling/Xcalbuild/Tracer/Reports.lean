/-
**Every intercepted call is reported once.**

A call that the program makes itself should send one message, whatever came before it, and a call
that is made while a wrapper is running should send none (`ReportedOnce`). It fails in two ways.
`posix_spawn` and `posix_spawnp` leave the flag set in the caller (`SpawnReturned`), so the next
call of the image, or of a child forked from it, is lost. `execl`, `execlp` and `execle` clear the
flag also when they have not set it (`FlagCleared`), so a wrapper that runs after one of them inside
the same call reports a second time.

* `Tracked`: the flag of a process, by its lineage;
* `reportedOnce_step`: at such a process a call is reported once exactly when neither applies;
* `tracked_successor`: and its successors are such processes again;
* `reportedOnce_iff`: in any run, all calls are reported once exactly when neither applies to any.
-/
import Xcalbuild.Tracer.Execs

namespace Xcalbuild.Tracer

open Library

/-- A step of a traced process, in a run. -/
abbrev Step := Taken Process Action (List Message)

/-- The steps that led to a process since its image was started, the last one first. -/
abbrev Past := List (Process × Action)

/-- **A call of the program sends the message of the call, and a call inside it sends none.** -/
def ReportedOnce (step : Step) : Prop :=
  ∀ function argv surroundings, step.action = .call function argv surroundings →
    step.output = if step.node.state.calls = [] then
      [report step.node.state surroundings function argv] else []

/-! ### The condition -/

/-- The steps taken inside the last call of the program. -/
def within (past : Past) : Past := past.takeWhile fun entry => !entry.1.calls.isEmpty

/-- An `execl`, `execlp` or `execle` that was called inside another call fails. -/
def ClearsFlag (entry : Process × Action) : Prop :=
  entry.2 = .failed ∧ ∃ inner outer calls,
    entry.1.calls = inner :: outer :: calls ∧ inner.function.variadic = true

/-- One has failed inside the last call of the program. -/
def FlagCleared (past : Past) : Prop := ∃ entry ∈ within past, ClearsFlag entry

/-- A `posix_spawn` or `posix_spawnp` that the program has called returns. -/
def ReturnsSpawn (entry : Process × Action) : Prop :=
  (entry.2 = .failed ∨ ∃ child, entry.2 = .spawned child) ∧
    ∃ call, entry.1.calls = [call] ∧ call.function.spawns = true

/-- Such a call has returned, with none inside it that had cleared the flag. -/
def SpawnReturned : Past → Prop
  | [] => False
  | entry :: past => (ReturnsSpawn entry ∧ ¬ FlagCleared past) ∨ SpawnReturned past

/-- **The condition on the process that takes a step**: if this is a call of the program, no spawn
has returned in its image, and if it is a call inside another, none in that has cleared the flag. -/
def Unmarked (step : Step) : Prop :=
  (∃ function argv surroundings, step.action = .call function argv surroundings) →
    if step.node.state.calls = [] then ¬ SpawnReturned step.node.lineage
    else ¬ FlagCleared step.node.lineage

/-! ### The flag -/

/-- The wrappers that are running: only the outermost found the flag clear. -/
def Nested : List Call → Prop
  | [] => True
  | [outermost] => outermost.reportState = false
  | inner :: outer :: calls => inner.reportState = true ∧ Nested (outer :: calls)

/-- **The flag, by the lineage.** -/
structure Tracked (node : Node Process Action) : Prop where
  nested : Nested node.state.calls
  outside : node.state.calls = [] →
    (node.state.alreadyReported = true ↔ SpawnReturned node.lineage)
  inside : node.state.calls ≠ [] →
    (node.state.alreadyReported = false ↔ FlagCleared node.lineage)
  unmarked : node.state.calls ≠ [] → ¬ SpawnReturned node.lineage

theorem tracked_image (pid ppid : Nat) : Tracked ⟨.image pid ppid, []⟩ where
  nested := trivial
  outside _ := by simp [Process.image, SpawnReturned]
  inside running := absurd rfl running
  unmarked _ := not_false

/-- The wrappers that restore the flag are the ones that do not spawn. -/
theorem leave_of_spawns {call : Call} (spawns : call.function.spawns = true) (flag : Bool) :
    call.leave flag = flag := by
  obtain ⟨function, reportState⟩ := call
  cases function <;> first | rfl | cases spawns

theorem leave_of_outermost {call : Call} (spawns : call.function.spawns = false)
    (clear : call.reportState = false) (flag : Bool) : call.leave flag = false := by
  obtain ⟨function, reportState⟩ := call
  cases clear
  cases function <;> first | rfl | cases spawns

theorem leave_of_inner {call : Call} (flagged : call.reportState = true) (flag : Bool) :
    call.leave flag = (flag && !call.function.variadic) := by
  obtain ⟨function, reportState⟩ := call
  cases flagged
  cases function <;> cases flag <;> rfl

theorem not_variadic_of_spawns {function : Intercepted} (spawns : function.spawns = true) :
    function.variadic = false := by
  cases function <;> first | rfl | cases spawns

theorem flagCleared_cons_outside {entry : Process × Action} {past : Past}
    (outside : entry.1.calls = []) : ¬ FlagCleared (entry :: past) := by
  rintro ⟨other, member, -⟩
  simp [within, outside] at member

theorem flagCleared_cons {entry : Process × Action} {past : Past} (inside : entry.1.calls ≠ []) :
    FlagCleared (entry :: past) ↔ ClearsFlag entry ∨ FlagCleared past := by
  have split : within (entry :: past) = entry :: within past := by
    unfold within
    rw [List.takeWhile_cons_of_pos (by simpa using inside)]
  unfold FlagCleared
  rw [split, List.exists_mem_cons_iff]

theorem not_returnsSpawn_call {process : Process} {function : Intercepted} {argv : List Str}
    {surroundings : Surroundings} : ¬ ReturnsSpawn (process, .call function argv surroundings) := by
  rintro ⟨failed | ⟨child, spawned⟩, -⟩
  · cases failed
  · cases spawned

theorem not_returnsSpawn_forked {process : Process} {child : Nat} :
    ¬ ReturnsSpawn (process, .forked child) := by
  rintro ⟨failed | ⟨other, spawned⟩, -⟩
  · cases failed
  · cases spawned

/-- Only the return of the outermost wrapper ends a call of the program. -/
theorem not_returnsSpawn_inner {process : Process} {inner outer : Call} {calls : List Call}
    {action : Action} (running : process.calls = inner :: outer :: calls) :
    ¬ ReturnsSpawn (process, action) := by
  rintro ⟨-, call, alone, -⟩
  rw [running] at alone
  cases alone

theorem spawnReturned_cons {entry : Process × Action} {past : Past} (other : ¬ ReturnsSpawn entry) :
    SpawnReturned (entry :: past) ↔ SpawnReturned past :=
  or_iff_right fun returned => other returned.1

/-! ### One step -/

/-- What a process can do. -/
theorem step_cases {process : Process} {action : Action} {successors : List (Successor Process)}
    {output : List Message} (stepped : process.step action = some (successors, output)) :
    (∃ function argv surroundings, action = .call function argv surroundings ∧
      output = (if process.alreadyReported = true then [] else
        [report process surroundings function argv]) ∧
      successors = [.heir { process with
        alreadyReported := true
        calls := ⟨function, process.alreadyReported⟩ :: process.calls }]) ∨
    (∃ call calls, process.calls = call :: calls ∧
      (action = .failed ∨ ∃ child, action = .spawned child ∧ call.function.spawns = true) ∧
      ∀ successor ∈ successors, successor = .heir (process.returned call calls) ∨
        ∃ pid ppid, successor = .fresh (.image pid ppid)) ∨
    (action = .replaced ∧ successors = [.fresh (.image process.pid process.ppid)]) ∨
    (∃ child, action = .forked child ∧
      successors = [.heir process, .heir { process with pid := child, ppid := process.pid }]) ∨
    (action = .exited ∧ successors = []) := by
  cases action with
  | call function argv surroundings =>
    refine Or.inl ⟨function, argv, surroundings, rfl, ?_⟩
    unfold Process.step reportCall at stepped
    cases flag : process.alreadyReported <;> rw [flag] at stepped <;> cases stepped <;>
      exact ⟨rfl, rfl⟩
  | failed =>
    refine Or.inr (Or.inl ?_)
    unfold Process.step at stepped
    cases running : process.calls with
    | nil => simp [running] at stepped
    | cons call calls =>
      simp only [running, Option.some.injEq, Prod.mk.injEq] at stepped
      refine ⟨call, calls, rfl, Or.inl rfl, fun successor member => Or.inl ?_⟩
      rw [← stepped.1, List.mem_singleton] at member
      exact member
  | replaced =>
    refine Or.inr (Or.inr (Or.inl ⟨rfl, ?_⟩))
    unfold Process.step at stepped
    cases running : process.calls with
    | nil => simp [running] at stepped
    | cons call calls =>
      simp only [running, Option.ite_none_left_eq_some, Option.some.injEq, Prod.mk.injEq] at stepped
      exact stepped.2.1.symm
  | spawned child =>
    refine Or.inr (Or.inl ?_)
    unfold Process.step at stepped
    cases running : process.calls with
    | nil => simp [running] at stepped
    | cons call calls =>
      simp only [running, Option.ite_none_right_eq_some, Option.some.injEq, Prod.mk.injEq] at stepped
      refine ⟨call, calls, rfl, Or.inr ⟨child, rfl, stepped.1⟩, fun successor member => ?_⟩
      rw [← stepped.2.1, List.mem_pair] at member
      exact member.imp_right fun fresh => ⟨child, process.pid, fresh⟩
  | forked child =>
    unfold Process.step at stepped
    cases stepped
    exact Or.inr (Or.inr (Or.inr (Or.inl ⟨child, rfl, rfl⟩)))
  | exited =>
    unfold Process.step at stepped
    cases stepped
    exact Or.inr (Or.inr (Or.inr (Or.inr ⟨rfl, rfl⟩)))

theorem reportedOnce_call {node : Node Process Action} {function : Intercepted} {argv : List Str}
    {surroundings : Surroundings} {output : List Message} :
    ReportedOnce ⟨node, .call function argv surroundings, output⟩ ↔
      output = if node.state.calls = [] then [report node.state surroundings function argv]
        else [] := by
  constructor
  · intro once
    exact once function argv surroundings rfl
  · intro sent _ _ _ same
    cases same
    exact sent

theorem unmarked_call {node : Node Process Action} {function : Intercepted} {argv : List Str}
    {surroundings : Surroundings} {output : List Message} :
    Unmarked ⟨node, .call function argv surroundings, output⟩ ↔
      if node.state.calls = [] then ¬ SpawnReturned node.lineage
      else ¬ FlagCleared node.lineage :=
  ⟨fun unmarked => unmarked ⟨function, argv, surroundings, rfl⟩, fun free _ => free⟩

/-- **At a tracked process, a call is reported once exactly when the condition holds.** -/
theorem reportedOnce_step {node : Node Process Action} {action : Action}
    {successors : List (Successor Process)} {output : List Message} (tracked : Tracked node)
    (stepped : node.state.step action = some (successors, output)) :
    ReportedOnce ⟨node, action, output⟩ ↔ Unmarked ⟨node, action, output⟩ := by
  rcases step_cases stepped with ⟨function, argv, surroundings, rfl, sent, -⟩ | other
  · rw [reportedOnce_call, unmarked_call, sent]
    by_cases outside : node.state.calls = []
    · rw [if_pos outside, if_pos outside, ← tracked.outside outside]
      cases node.state.alreadyReported <;> simp
    · rw [if_neg outside, if_neg outside, ← tracked.inside outside]
      cases node.state.alreadyReported <;> simp
  · have noCall : ∀ function argv surroundings, action ≠ .call function argv surroundings := by
      rintro function argv surroundings rfl
      rcases other with ⟨_, _, _, same | ⟨_, same, _⟩, _⟩ | ⟨same, _⟩ | ⟨_, same, _⟩ | ⟨same, _⟩ <;>
        cases same
    constructor
    · rintro - ⟨function, argv, surroundings, same⟩
      exact absurd same (noCall function argv surroundings)
    · intro _ function argv surroundings same
      exact absurd same (noCall function argv surroundings)

section Successors

variable {node : Node Process Action}

/-- A call of the program itself. -/
theorem tracked_call_outside {function : Intercepted} {argv : List Str}
    {surroundings : Surroundings} (outside : node.state.calls = [])
    (clear : node.state.alreadyReported = false) (free : ¬ SpawnReturned node.lineage) :
    Tracked ⟨{ node.state with
      alreadyReported := true
      calls := ⟨function, node.state.alreadyReported⟩ :: node.state.calls },
      node.past (.call function argv surroundings)⟩ := by
  constructor
  · rw [outside]
    exact clear
  · intro absent
    cases absent
  · intro _
    have kept : ¬ FlagCleared (node.past (.call function argv surroundings)) :=
      flagCleared_cons_outside outside
    simpa using kept
  · intro _
    exact mt (spawnReturned_cons not_returnsSpawn_call).mp free

/-- A call inside another. -/
theorem tracked_call_inside {function : Intercepted} {argv : List Str}
    {surroundings : Surroundings} (tracked : Tracked node) (inside : node.state.calls ≠ [])
    (flagged : node.state.alreadyReported = true) :
    Tracked ⟨{ node.state with
      alreadyReported := true
      calls := ⟨function, node.state.alreadyReported⟩ :: node.state.calls },
      node.past (.call function argv surroundings)⟩ := by
  constructor
  · cases running : node.state.calls with
    | nil => exact absurd running inside
    | cons outer calls =>
      refine ⟨flagged, ?_⟩
      rw [← running]
      exact tracked.nested
  · intro absent
    cases absent
  · intro _
    have kept : ¬ FlagCleared (node.past (.call function argv surroundings)) := by
      unfold Node.past
      rw [flagCleared_cons inside, ← tracked.inside inside]
      rintro (⟨failed, -⟩ | clear)
      · cases failed
      · rw [flagged] at clear
        cases clear
    simpa using kept
  · intro _
    exact mt (spawnReturned_cons not_returnsSpawn_call).mp (tracked.unmarked inside)

/-- The outermost wrapper returns. -/
theorem tracked_returned_outermost {action : Action} {call : Call} (tracked : Tracked node)
    (running : node.state.calls = [call])
    (returns : action = .failed ∨ ∃ child, action = .spawned child) :
    Tracked ⟨node.state.returned call [], node.past action⟩ := by
  have inside : node.state.calls ≠ [] := by
    rw [running]
    exact List.cons_ne_nil _ _
  have nested := tracked.nested
  rw [running] at nested
  refine ⟨trivial, fun _ => ?_, fun running' => absurd rfl running',
    fun running' => absurd rfl running'⟩
  show call.leave node.state.alreadyReported = true ↔
    (ReturnsSpawn (node.state, action) ∧ ¬ FlagCleared node.lineage) ∨ SpawnReturned node.lineage
  rw [or_iff_left (tracked.unmarked inside), ← tracked.inside inside]
  cases spawns : call.function.spawns with
  | true =>
    rw [leave_of_spawns spawns, and_iff_right ⟨returns, call, running, spawns⟩]
    simp
  | false =>
    rw [leave_of_outermost spawns nested]
    constructor
    · intro flagged
      cases flagged
    · rintro ⟨⟨-, other, running', spawns'⟩, -⟩
      rw [running] at running'
      cases running'
      rw [spawns] at spawns'
      cases spawns'

/-- An inner wrapper returns. -/
theorem tracked_returned_inner {action : Action} {call outer : Call} {calls : List Call}
    (tracked : Tracked node) (running : node.state.calls = call :: outer :: calls)
    (returns : action = .failed ∨ ∃ child, action = .spawned child ∧ call.function.spawns = true) :
    Tracked ⟨node.state.returned call (outer :: calls), node.past action⟩ := by
  have inside : node.state.calls ≠ [] := by
    rw [running]
    exact List.cons_ne_nil _ _
  have nested := tracked.nested
  rw [running] at nested
  refine ⟨nested.2, fun absent => absurd absent (List.cons_ne_nil _ _), fun _ => ?_, fun _ => ?_⟩
  · show call.leave node.state.alreadyReported = false ↔ FlagCleared (node.past action)
    unfold Node.past
    rw [flagCleared_cons inside, ← tracked.inside inside, leave_of_inner nested.1]
    have clears : ClearsFlag (node.state, action) ↔ call.function.variadic = true := by
      constructor
      · rintro ⟨-, inner, outer', calls', running', variadic⟩
        rw [running] at running'
        cases running'
        exact variadic
      · intro variadic
        refine ⟨?_, call, outer, calls, running, variadic⟩
        rcases returns with failed | ⟨child, -, spawns⟩
        · exact failed
        · rw [not_variadic_of_spawns spawns] at variadic
          cases variadic
    rw [clears]
    cases node.state.alreadyReported <;> cases call.function.variadic <;> simp
  · exact mt (spawnReturned_cons (not_returnsSpawn_inner running)).mp (tracked.unmarked inside)

/-- A step that is no call and no return, such as a fork. -/
theorem tracked_forked {state : Process} {child : Nat} (tracked : Tracked node)
    (flag : state.alreadyReported = node.state.alreadyReported)
    (calls : state.calls = node.state.calls) : Tracked ⟨state, node.past (.forked child)⟩ := by
  have returned : SpawnReturned (node.past (.forked child)) ↔ SpawnReturned node.lineage :=
    spawnReturned_cons not_returnsSpawn_forked
  refine ⟨?_, fun outside => ?_, fun inside => ?_, fun inside => ?_⟩
  · rw [calls]
    exact tracked.nested
  · rw [calls] at outside
    rw [flag, returned]
    exact tracked.outside outside
  · rw [calls] at inside
    unfold Node.past
    rw [flag, flagCleared_cons inside, ← tracked.inside inside]
    refine (or_iff_right ?_).symm
    rintro ⟨failed, -⟩
    cases failed
  · rw [calls] at inside
    rw [returned]
    exact tracked.unmarked inside

/-- **The successors of a tracked process are tracked.** -/
theorem tracked_successor {action : Action} {successors : List (Successor Process)}
    {output : List Message} (tracked : Tracked node)
    (stepped : node.state.step action = some (successors, output))
    (once : ReportedOnce ⟨node, action, output⟩) :
    ∀ successor ∈ successors, Tracked (successor.node (node.past action)) := by
  intro successor member
  rcases step_cases stepped with ⟨function, argv, surroundings, rfl, sent, rfl⟩ |
    ⟨call, calls, running, returns, all⟩ | ⟨rfl, rfl⟩ | ⟨child, rfl, rfl⟩ | ⟨rfl, rfl⟩
  · rw [List.mem_singleton] at member
    subst member
    rw [reportedOnce_step tracked stepped, unmarked_call] at once
    by_cases outside : node.state.calls = []
    · rw [if_pos outside] at once
      have clear := mt (tracked.outside outside).mp once
      exact tracked_call_outside outside (Bool.eq_false_iff.mpr clear) once
    · rw [if_neg outside] at once
      have flagged := mt (tracked.inside outside).mp once
      exact tracked_call_inside tracked outside (Bool.ne_false_iff.mp flagged)
  · rcases all successor member with rfl | ⟨pid, ppid, rfl⟩
    · cases calls with
      | nil =>
        exact tracked_returned_outermost tracked running
          (returns.imp_right fun ⟨child, spawned, _⟩ => ⟨child, spawned⟩)
      | cons outer calls => exact tracked_returned_inner tracked running returns
    · exact tracked_image pid ppid
  · rw [List.mem_singleton] at member
    subst member
    exact tracked_image _ _
  · rcases List.mem_pair.mp member with rfl | rfl
    · exact tracked_forked tracked rfl rfl
    · exact tracked_forked tracked rfl rfl
  · cases member

end Successors

/-! ### Runs -/

/-- The runs of the build command and of all the processes it starts. -/
abbrev BuildRun (pid ppid : Nat) (taken : List Step) (last : List (Node Process Action)) : Prop :=
  Run Process.step [⟨.image pid ppid, []⟩] taken last

theorem tracked_root (pid ppid : Nat) :
    ∀ node ∈ ([⟨.image pid ppid, []⟩] : List (Node Process Action)), Tracked node :=
  List.forall_mem_singleton.mpr (tracked_image pid ppid)

/-- From processes whose flags are tracked, the two go together. -/
theorem once_iff_unmarked {forest last : List (Node Process Action)} {taken : List Step}
    (run : Run Process.step forest taken last) (tracked : ∀ node ∈ forest, Tracked node) :
    (∀ step ∈ taken, ReportedOnce step) ↔ ∀ step ∈ taken, Unmarked step := by
  refine run.agree Tracked ?_ ?_ tracked
  · intro node action successors output tracked stepped
    exact reportedOnce_step tracked stepped
  · intro node action successors output tracked stepped once
    exact tracked_successor tracked stepped once

/-- **In a run, all calls are reported once exactly when the condition holds of all its steps.** -/
theorem reportedOnce_iff {pid ppid : Nat} {taken : List Step} {last : List (Node Process Action)}
    (run : BuildRun pid ppid taken last) :
    (∀ step ∈ taken, ReportedOnce step) ↔ ∀ step ∈ taken, Unmarked step :=
  once_iff_unmarked run (tracked_root pid ppid)

/-! ### A search, and two spawns -/

/-- A directory without response files. -/
def plainDirectory : Surroundings := ⟨"/w".toList, fun _ => none⟩

def callOf (function : Intercepted) (file : String) : Action :=
  .call function ["gcc".toList, "-c".toList, file.toList] plainDirectory

/-- The process of a shell before it calls anything. -/
def shell : Node Process Action := ⟨.image 2 1, []⟩

/-- It calls `execve` with a path at which there is no compiler. -/
def searching : Node Process Action :=
  ⟨⟨2, 1, true, [⟨.execve, false⟩]⟩, shell.past (callOf .execve "a.c")⟩

def searched : Node Process Action := ⟨.image 2 1, searching.past .failed⟩

/-- A shell tries two paths. -/
def searchSteps : List Step :=
  [⟨shell, callOf .execve "a.c", [report shell.state plainDirectory .execve
      ["gcc".toList, "-c".toList, "a.c".toList]]⟩,
    ⟨searching, .failed, []⟩,
    ⟨searched, callOf .execve "a.c", [report shell.state plainDirectory .execve
      ["gcc".toList, "-c".toList, "a.c".toList]]⟩]

theorem run_searchSteps : ∃ last, BuildRun 2 1 searchSteps last :=
  ⟨_, .take [] [] shell _ rfl (.take [] [] searching _ rfl (.take [] [] searched _ rfl (.done _)))⟩

theorem unmarked_searchSteps : ∀ step ∈ searchSteps, Unmarked step := by
  unfold searchSteps
  simp only [List.forall_mem_cons, List.not_mem_nil, false_implies, implies_true, and_true]
  refine ⟨unmarked_call.mpr not_false, ?_, unmarked_call.mpr ?_⟩
  · rintro ⟨function, argv, surroundings, same⟩
    cases same
  rintro (⟨⟨-, call, running, spawns⟩, -⟩ | called)
  · cases running
    cases spawns
  · exact (spawnReturned_cons not_returnsSpawn_call).mp called

/-- Both calls are reported. -/
theorem reportedOnce_search : ∃ last, BuildRun 2 1 searchSteps last ∧
    ∀ step ∈ searchSteps, ReportedOnce step := by
  obtain ⟨last, run⟩ := run_searchSteps
  exact ⟨last, run, (reportedOnce_iff run).mpr unmarked_searchSteps⟩

/-- It spawns a compiler. -/
def spawning : Node Process Action :=
  ⟨⟨2, 1, true, [⟨.posixSpawn, false⟩]⟩, shell.past (callOf .posixSpawn "a.c")⟩

def spawned : Node Process Action := ⟨⟨2, 1, true, []⟩, spawning.past (.spawned 3)⟩

/-- A build tool spawns two compilers. -/
def spawnSteps : List Step :=
  [⟨shell, callOf .posixSpawn "a.c", [report shell.state plainDirectory .posixSpawn
      ["gcc".toList, "-c".toList, "a.c".toList]]⟩,
    ⟨spawning, .spawned 3, []⟩,
    ⟨spawned, callOf .posixSpawn "b.c", []⟩]

theorem run_spawnSteps : ∃ last, BuildRun 2 1 spawnSteps last :=
  ⟨_, .take [] [] shell _ rfl (.take [] [] spawning _ rfl (.take [] [_] spawned _ rfl (.done _)))⟩

/-- **The second of two compilers that a process spawns is not reported.** -/
theorem spawn_not_reported : ¬ ∀ (pid ppid : Nat) (taken : List Step)
    (last : List (Node Process Action)), BuildRun pid ppid taken last →
      ∀ step ∈ taken, ReportedOnce step := by
  intro all
  obtain ⟨last, run⟩ := run_spawnSteps
  have once := all 2 1 spawnSteps last run _
    (List.mem_cons_of_mem _ (List.mem_cons_of_mem _ List.mem_cons_self))
  cases reportedOnce_call.mp once

end Xcalbuild.Tracer
