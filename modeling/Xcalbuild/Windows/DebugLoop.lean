/-
**The debug loop of the Windows tracer.**

`trace_process` runs the build as a debugger. It waits for the events of all processes of the build,
records a process when it is created, and lets the process go on. The loop ends with the process
that was started first, whatever the others do. What the system delivers is a list of events, after
which waiting fails.

* `debugLoop_eq`: the loop on any events: what is recorded, which events are continued and how, and
  the exit status;
* **`build_recorded`**: in whatever order the events of the processes come, the database has the
  processes that were created before the first one ended, and all processes if that one ends last.
-/
import Xcalbuild.Library.Interleaving
import Xcalbuild.Library.JsonDump
import Xcalbuild.Profile.Lookup
import Xcalbuild.Windows.ResponseArgs

namespace Xcalbuild.Windows

open Library
open Library.Json (Textual dump latest latest_map latest_strings parse textual_strings)
open Profile (SpecItem)

/-! ### Events -/

/-- What the tracer can see of a process when it is created. -/
inductive Inspected where
  /-- `OpenProcess` fails. -/
  | unopened
  /-- The parameter block cannot be read. -/
  | unread
  | read (cwd : Str) (argv : List Str)

/-- `dwDebugEventCode`, with what is read of the event. -/
inductive DebugCode where
  | createProcess (process : Inspected)
  | exitProcess (exitCode : UInt32)
  | exception (exceptionCode : UInt32)
  | other

/-- `DEBUG_EVENT` -/
structure DebugEvent where
  processId : Nat
  threadId : Nat
  code : DebugCode

inductive ContinueStatus where
  | continue_
  | exceptionNotHandled
  deriving DecidableEq

/-- `EXCEPTION_BREAKPOINT` and `STATUS_WX86_BREAKPOINT` -/
def breakpoints : List UInt32 := [0x80000003, 0x4000001F]

namespace DebugEvent

/-- `continue_status` -/
def continueStatus (event : DebugEvent) : ContinueStatus :=
  match event.code with
  | .exception code => if code ∉ breakpoints then .exceptionNotHandled else .continue_
  | _ => .continue_

/-- The event is about a process that cannot be opened. -/
def unopened (event : DebugEvent) : Bool :=
  match event.code with
  | .createProcess .unopened => true
  | _ => false

/-- The exit code, if the event is the exit of the process. -/
def exitOf (root : Nat) (event : DebugEvent) : Option UInt32 :=
  match event.code with
  | .exitProcess exitCode => if event.processId = root then some exitCode else none
  | _ => none

/-- What is recorded at the event. -/
def logged (host : ProcessHost) (config : CompilerConfig) (event : DebugEvent) :
    Option (Str × List Str) :=
  match event.code with
  | .createProcess (.read cwd argv) => logCreateProcess host config cwd argv
  | _ => none

end DebugEvent

/-! ### The loop -/

/-- The variables of the loop, with the calls of `ContinueDebugEvent`. -/
structure Tracing where
  array : List (Str × List Str)
  continued : List (DebugEvent × ContinueStatus)
  rootProcessExitStatus : UInt32

/-- `EXIT_FAILURE` -/
def exitFailure : UInt32 := 1

def Tracing.init : Tracing where
  array := []
  continued := []
  rootProcessExitStatus := exitFailure

section Loop

variable (host : ProcessHost) (config : CompilerConfig) (root : Nat)

/-- The rest of the loop body for an event whose process could be opened. -/
def tracePass (event : DebugEvent) (state : Tracing) : Tracing where
  array := state.array ++ (event.logged host config).toList
  continued := state.continued ++ [(event, event.continueStatus)]
  rootProcessExitStatus := (event.exitOf root).getD state.rootProcessExitStatus

/-- The loop on the events that are delivered. -/
def debugLoop : List DebugEvent → Tracing → Tracing
  -- `WaitForDebugEvent` fails
  | [], state => state
  | event :: later, state =>
      if event.unopened then state
      else if (event.exitOf root).isSome then tracePass host config root event state
      else debugLoop later (tracePass host config root event state)

/-- The JSON value of a recorded process. -/
def processJson (process : Str × List Str) : Json :=
  .obj [("arguments".toList, .arr (process.2.map .str)), ("directory".toList, .str process.1)]

/-- **`trace_process`**: the exit status, and the compile database if it is written. There is no
process when `CreateProcessW` fails. -/
def traceProcess (started : Option Nat) (events : List DebugEvent) : UInt32 × Option Str :=
  match started with
  | none => (exitFailure, none)
  | some root =>
      let state := debugLoop host config root events .init
      (state.rootProcessExitStatus,
        some (dump (some 4) (.arr (state.array.map processJson)) ++ ['\n']))

/-! ### What the loop does -/

/-- The event ends the loop. -/
def DebugEvent.ends (event : DebugEvent) : Bool := event.unopened || (event.exitOf root).isSome

/-- The events before the one that ends the loop. -/
def received (events : List DebugEvent) : List DebugEvent :=
  events.takeWhile fun event => !event.ends root

/-- The exit of the first process, if it is what ends the loop. -/
def ending (events : List DebugEvent) : Option DebugEvent :=
  (events.find? fun event => event.ends root).filter fun event => !event.unopened

variable {host config root}

/-- Only a creation is recorded. -/
theorem logged_of_exit {event : DebugEvent} (exits : (event.exitOf root).isSome = true) :
    event.logged host config = none := by
  obtain ⟨processId, threadId, code⟩ := event
  cases code with
  | exitProcess exitCode => rfl
  | _ => cases exits

/-- An event that ends the loop. -/
theorem ended_cons {event : DebugEvent} (later : List DebugEvent) (ends : event.ends root = true) :
    received root (event :: later) = [] ∧
      ending root (event :: later) = if event.unopened then none else some event := by
  refine ⟨List.takeWhile_cons_of_neg (by simp [ends]), ?_⟩
  unfold ending
  rw [List.find?_cons_of_pos ends, Option.filter_some]
  cases event.unopened <;> rfl

/-- An event that does not end the loop. -/
theorem ended_later {event : DebugEvent} (later : List DebugEvent) (goes : ¬ event.ends root = true) :
    received root (event :: later) = event :: received root later ∧
      ending root (event :: later) = ending root later := by
  refine ⟨List.takeWhile_cons_of_pos (by simpa using goes), ?_⟩
  unfold ending
  rw [List.find?_cons_of_neg goes]

/-- The events before the first one that ends the loop. -/
theorem ended_at {before : List DebugEvent} {last : DebugEvent} (after : List DebugEvent)
    (goes : ∀ event ∈ before, ¬ event.ends root = true) (ends : last.ends root = true) :
    received root (before ++ last :: after) = before ∧
      ending root (before ++ last :: after) = if last.unopened then none else some last := by
  induction before with
  | nil => exact ended_cons after ends
  | cons event before ih =>
    obtain ⟨here, goes⟩ := List.forall_mem_cons.mp goes
    obtain ⟨first, rest⟩ := ended_later (before ++ last :: after) here
    obtain ⟨others, final⟩ := ih goes
    exact ⟨first.trans (congrArg _ others), rest.trans final⟩

/-- **The loop on any events.** Every event is continued once, in order, but for the one of a
process that cannot be opened. -/
theorem debugLoop_eq (events : List DebugEvent) (state : Tracing) :
    debugLoop host config root events state =
      { array := state.array ++ (received root events).filterMap (DebugEvent.logged host config)
        continued := state.continued ++ (received root events ++ (ending root events).toList).map
          fun event => (event, event.continueStatus)
        rootProcessExitStatus :=
          ((ending root events).bind (DebugEvent.exitOf root)).getD
            state.rootProcessExitStatus } := by
  induction events generalizing state with
  | nil =>
    show state = ⟨state.array ++ [], state.continued ++ [], state.rootProcessExitStatus⟩
    rw [List.append_nil, List.append_nil]
  | cons event later ih =>
    rw [debugLoop]
    by_cases unopened : event.unopened = true
    · have ends : event.ends root = true := by rw [DebugEvent.ends, unopened, Bool.true_or]
      obtain ⟨nothing, absent⟩ := ended_cons later ends
      rw [if_pos unopened, nothing, absent, if_pos unopened]
      show state = ⟨state.array ++ [], state.continued ++ [], state.rootProcessExitStatus⟩
      rw [List.append_nil, List.append_nil]
    · rw [if_neg unopened]
      by_cases exits : (event.exitOf root).isSome = true
      · have ends : event.ends root = true := by rw [DebugEvent.ends, exits, Bool.or_true]
        obtain ⟨nothing, last⟩ := ended_cons later ends
        rw [if_pos exits, nothing, last, if_neg unopened, tracePass, logged_of_exit exits]
        rfl
      · have goes : ¬ event.ends root = true := by
          rw [DebugEvent.ends, Bool.or_eq_true, not_or]
          exact ⟨unopened, exits⟩
        obtain ⟨here, rest⟩ := ended_later later goes
        have running : event.exitOf root = none := Option.not_isSome_iff_eq_none.mp exits
        rw [if_neg exits, ih, here, rest, tracePass, running, List.filterMap_cons]
        cases event.logged host config with
        | none => simp
        | some process => simp

end Loop

/-! ### The database -/

theorem latest_processJson (process : Str × List Str) : latest (processJson process) =
    .obj [("directory".toList, .str process.1), ("arguments".toList, .arr (process.2.map .str))] := by
  rw [← latest_strings, processJson, latest, Json.fold_obj]
  rfl

/-- The entry of a process, as it is loaded. -/
def processEntry (process : Str × List Str) : SpecItem where
  json := latest (processJson process)
  directory := some process.1
  arguments := some process.2
  respfile := none
  hasDirectory := by
    rw [latest_processJson]
    rfl
  hasArguments := by
    rw [latest_processJson]
    rfl
  hasRespfile := by
    rw [latest_processJson]
    rfl

/-- **The entries are read back** from the database. -/
theorem parse_database (array : List (Str × List Str)) :
    parse (dump (some 4) (.arr (array.map processJson)) ++ ['\n']) =
      some (.arr (array.map fun process => (processEntry process).json)) := by
  have textual : Textual (.arr (array.map processJson)) :=
    .map fun process _ => .obj (List.forall_mem_cons.mpr
      ⟨textual_strings process.2, List.forall_mem_singleton.mpr (.str process.1)⟩)
  have newline : ∀ c ∈ ['\n'], Json.isBlank c = true := List.forall_mem_singleton.mpr rfl
  rw [Json.parse_dump_blanks (some 4) textual newline, latest_map]
  rfl

/-! ### Processes -/

/-- **A process of the build**, which can be opened: it is created, it runs, and it ends. -/
structure Debuggee where
  id : Nat
  /-- The directory and the arguments, if the parameter block can be read. -/
  block : Option (Str × List Str)
  mainThread : Nat
  /-- The events of the threads in between: the process is not created or ended by them. -/
  running : List (Nat × Option UInt32)
  exitCode : UInt32

namespace Debuggee

/-- `CREATE_PROCESS_DEBUG_EVENT` -/
def creation (debuggee : Debuggee) : DebugEvent where
  processId := debuggee.id
  threadId := debuggee.mainThread
  code := .createProcess (match debuggee.block with
    | some (cwd, argv) => .read cwd argv
    | none => .unread)

/-- `EXIT_PROCESS_DEBUG_EVENT` -/
def exit (debuggee : Debuggee) : DebugEvent where
  processId := debuggee.id
  threadId := debuggee.mainThread
  code := .exitProcess debuggee.exitCode

/-- An exception in a thread, or another event. -/
def event (debuggee : Debuggee) (what : Nat × Option UInt32) : DebugEvent where
  processId := debuggee.id
  threadId := what.1
  code := match what.2 with
    | some exceptionCode => .exception exceptionCode
    | none => .other

/-- The events of the process, in their order. -/
def events (debuggee : Debuggee) : List DebugEvent :=
  debuggee.creation :: (debuggee.running.map debuggee.event ++ [debuggee.exit])

/-- What is recorded for the process. -/
def recorded (host : ProcessHost) (config : CompilerConfig) (debuggee : Debuggee) :
    Option (Str × List Str) :=
  debuggee.block.bind fun block => logCreateProcess host config block.1 block.2

section Events

variable {host : ProcessHost} {config : CompilerConfig} {root : Nat} (debuggee : Debuggee)

/-- What the events of a process are. -/
theorem event_cases {event : DebugEvent} (member : event ∈ debuggee.events) :
    event.processId = debuggee.id ∧ event.unopened = false ∧
      (event = debuggee.exit ∨ event.exitOf root = none) := by
  rcases List.mem_cons.mp member with rfl | later
  · refine ⟨rfl, ?_, Or.inr rfl⟩
    unfold DebugEvent.unopened creation
    cases debuggee.block with
    | none => rfl
    | some block => rfl
  · rcases List.mem_append.mp later with middle | last
    · obtain ⟨what, -, rfl⟩ := List.mem_map.mp middle
      unfold Debuggee.event DebugEvent.unopened DebugEvent.exitOf
      cases what.2 with
      | none => exact ⟨rfl, rfl, Or.inr rfl⟩
      | some exceptionCode => exact ⟨rfl, rfl, Or.inr rfl⟩
    · rw [List.mem_singleton.mp last]
      exact ⟨rfl, rfl, Or.inl rfl⟩

/-- **A process is recorded once**, when it is created. -/
theorem filterMap_logged :
    debuggee.events.filterMap (DebugEvent.logged host config) =
      (debuggee.recorded host config).toList := by
  have middle : (debuggee.running.map debuggee.event).filterMap (DebugEvent.logged host config) =
      [] := by
    refine List.filterMap_eq_nil_iff.mpr fun event member => ?_
    obtain ⟨what, -, rfl⟩ := List.mem_map.mp member
    unfold Debuggee.event DebugEvent.logged
    cases what.2 <;> rfl
  have first : debuggee.creation.logged host config = debuggee.recorded host config := by
    unfold DebugEvent.logged creation recorded
    cases debuggee.block <;> rfl
  have last : [debuggee.exit].filterMap (DebugEvent.logged host config) = [] := rfl
  rw [events, List.filterMap_cons, List.filterMap_append, middle, last, first]
  cases debuggee.recorded host config <;> rfl

end Events

end Debuggee

/-! ### Builds -/

section Build

variable {host : ProcessHost} {config : CompilerConfig}

/-- What is recorded for some processes. -/
theorem flatten_logged (debuggees : List Debuggee) :
    (debuggees.map Debuggee.events).flatten.filterMap (DebugEvent.logged host config) =
      debuggees.filterMap (Debuggee.recorded host config) := by
  induction debuggees with
  | nil => rfl
  | cons debuggee rest ih =>
    rw [List.map_cons, List.flatten_cons, List.filterMap_append, ih, debuggee.filterMap_logged,
      List.filterMap_cons]
    cases debuggee.recorded host config <;> rfl

/-- **A build is recorded**, in whatever order the events of its processes come: its exit status is
that of the process that was started first, every event up to its exit is continued once, and the
database has the processes that were created before it. If it ends last, these are all processes. The
system may use the id of a process again once that has ended, but not the one of the first process. -/
theorem build_recorded {root : Debuggee} {children : List Debuggee} {events : List DebugEvent}
    (distinct : ∀ child ∈ children, child.id ≠ root.id)
    (order : Interleaving ((root :: children).map Debuggee.events) events) :
    ∃ before after text, events = before ++ root.exit :: after ∧
      traceProcess host config (some root.id) events = (root.exitCode, some text) ∧
      (debugLoop host config root.id events .init).continued =
        (before ++ [root.exit]).map (fun event => (event, event.continueStatus)) ∧
      parse text = some (.arr ((before.filterMap (DebugEvent.logged host config)).map
        fun process => (processEntry process).json)) ∧
      (after = [] → (before.filterMap (DebugEvent.logged host config)).Perm
        ((root :: children).filterMap (Debuggee.recorded host config))) := by
  have isRoot : root.exit ∈ ((root :: children).map Debuggee.events).flatten :=
    List.mem_flatten.mpr ⟨root.events, List.mem_cons_self,
      List.mem_cons_of_mem _ (List.mem_append_right _ (List.mem_singleton_self _))⟩
  obtain ⟨before, after, parts, first⟩ :=
    List.eq_append_cons_of_mem (order.perm.symm.subset isRoot)
  have goes : ∀ event ∈ before, ¬ event.ends root.id = true := by
    intro event member
    have inside : event ∈ events := parts ▸ List.mem_append_left _ member
    obtain ⟨stream, isStream, inside⟩ := List.mem_flatten.mp (order.perm.subset inside)
    obtain ⟨debuggee, among, rfl⟩ := List.mem_map.mp isStream
    obtain ⟨-, opened, exits | absent⟩ := @debuggee.event_cases root.id event inside
    · have other : debuggee.id ≠ root.id := by
        rcases List.mem_cons.mp among with rfl | child
        · rw [exits] at member
          exact absurd member first
        · exact distinct debuggee child
      have running : event.exitOf root.id = none := by
        rw [exits]
        exact if_neg other
      rw [DebugEvent.ends, opened, running]
      exact Bool.false_ne_true
    · rw [DebugEvent.ends, opened, absent]
      exact Bool.false_ne_true
  have status : root.exit.exitOf root.id = some root.exitCode := if_pos rfl
  have ends : root.exit.ends root.id = true := by
    rw [DebugEvent.ends, status]
    rfl
  obtain ⟨all, last⟩ := ended_at after goes ends
  have opened : root.exit.unopened = false := rfl
  rw [opened, if_neg Bool.false_ne_true] at last
  refine ⟨before, after, _, parts, ?_, ?_, parse_database _, fun ended => ?_⟩
  · rw [traceProcess, debugLoop_eq, parts, all, last, Option.bind_some, status]
    rfl
  · rw [debugLoop_eq, parts, all, last]
    rfl
  · have perm := order.perm.filterMap (DebugEvent.logged host config)
    rw [flatten_logged, parts, ended, List.filterMap_append] at perm
    have nothing : [root.exit].filterMap (DebugEvent.logged host config) = [] := rfl
    rwa [nothing, List.append_nil] at perm

end Build

/-! ### A compiler below `make` -/

/-- A machine on which binaries are called by their names. -/
def plainHost : ProcessHost where
  exeName path := path
  recorded arg := arg
  responseFileArgs _ _ := none

def iccarmConfig : CompilerConfig := ⟨["iccarm".toList], [("iccarm".toList, [])]⟩

/-- `make all` -/
def makeProcess : Debuggee where
  id := 4
  block := some ("C:\\w".toList, ["make".toList, "all".toList])
  mainThread := 5
  running := [(5, none)]
  exitCode := 2

/-- `iccarm a.c`, with a breakpoint. -/
def compilerProcess : Debuggee where
  id := 6
  block := some ("C:\\w".toList, ["iccarm".toList, "a.c".toList])
  mainThread := 7
  running := [(7, some 0x80000003)]
  exitCode := 0

/-- The compiler runs while `make` waits for it. -/
def compilerInside : List DebugEvent :=
  makeProcess.creation :: (compilerProcess.events ++ [makeProcess.event (5, none), makeProcess.exit])

theorem interleaving_inside :
    Interleaving ([makeProcess, compilerProcess].map Debuggee.events) compilerInside :=
  .call (n := 0) rfl <| .call (n := 1) rfl <| .call (n := 1) rfl <| .call (n := 1) rfl <|
    .call (n := 0) rfl <| .call (n := 0) rfl <| .done (by simp)

theorem build_recorded_inside :
    ∃ before after text, compilerInside = before ++ makeProcess.exit :: after ∧
      traceProcess plainHost iccarmConfig (some 4) compilerInside = (2, some text) ∧
      (debugLoop plainHost iccarmConfig 4 compilerInside .init).continued =
        (before ++ [makeProcess.exit]).map (fun event => (event, event.continueStatus)) ∧
      parse text = some (.arr ((before.filterMap (DebugEvent.logged plainHost iccarmConfig)).map
        fun process => (processEntry process).json)) ∧
      (after = [] → (before.filterMap (DebugEvent.logged plainHost iccarmConfig)).Perm
        ([makeProcess, compilerProcess].filterMap (Debuggee.recorded plainHost iccarmConfig))) :=
  build_recorded (by decide) interleaving_inside

end Xcalbuild.Windows
