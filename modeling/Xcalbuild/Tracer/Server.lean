/-
**The tracer as a server.**

The functions of `main.c` after the fork: the tracer blocks the signals, opens the output and makes
the socket, lets the child go and takes messages from the socket until `child_pid` is zero or `accept`
is interrupted. Around it the child ends or stops, traced processes connect, and signals come, in any
order. A signal is handled as soon as it is not blocked; a call that waits may be interrupted by it,
and the handlers do not restart it.

* `Server.step`: one event, of the tracer itself or of its surroundings;
* `collected`: the messages in the file are the first that came in, in their order, each once, and
  what the file is in the end;
* `listens_or_over`: once the child has been let go, the socket is there until the tracer has ended.
-/
import Xcalbuild.Library.Reach
import Xcalbuild.Tracer.Output

namespace Xcalbuild.Tracer

open Library

/-! ### The state -/

/-- Where the tracer is. -/
inductive Phase where
  /-- Before `install_signal_handler(SIGCHLD)`. -/
  | installChld
  /-- Before `install_signal_handler(SIGINT)`. -/
  | installInt
  /-- Before `mask_all_signals(SIG_BLOCK)`. -/
  | block
  /-- In `collect_messages`, before `bear_open_json_output`. -/
  | openOutput
  /-- Before `bear_create_unix_socket`. -/
  | createSocket
  /-- In `receive_on_unix_socket`, before `mask_all_signals(SIG_UNBLOCK)`. -/
  | unblock
  /-- Before `notify_child`. -/
  | notify
  /-- At the test of `child_pid`. -/
  | test
  /-- The test has passed, and `accept` is not yet called. -/
  | call
  /-- In `accept`. -/
  | accept
  /-- In `bear_read_message`. -/
  | read (message : Message)
  /-- The message is read, and signals are blocked until it is written. -/
  | append (message : Message)
  /-- Out of the loop, before `mask_all_signals(SIG_BLOCK)`. -/
  | leave
  /-- Before the socket and the output are closed. -/
  | close
  | exited (status : Nat)
  /-- Ended by a call that failed, which may have been the one that read a message. -/
  | died (reading : Option Message)

inductive Signal where
  | chld
  | int
  deriving DecidableEq

/-- The child, with its exit status where it has one. -/
inductive Child where
  /-- In `wait_for_parent`. -/
  | waiting
  | running
  | ended (status : Option Nat)
  | reaped (status : Option Nat)

structure Server where
  phase : Phase
  /-- `child_pid` is not zero. -/
  childPid : Bool
  childStatus : Nat
  file : OutputFile
  /-- The handlers that are running, the innermost first. -/
  handling : List Signal
  pending : List Signal
  child : Child
  /-- The child has gone on to run the command. -/
  released : Bool
  /-- The messages whose connections wait for `accept`. -/
  queue : List Message

/-- `EXIT_FAILURE` -/
def exitFailure : Nat := 1

/-- The tracer after the fork. -/
def Server.start : Server where
  phase := .installChld
  childPid := true
  childStatus := exitFailure
  file := ⟨0, []⟩
  handling := []
  pending := []
  child := .waiting
  released := false
  queue := []

/-! ### The phases -/

namespace Phase

def masked : Phase → Bool
  | .openOutput | .createSocket | .unblock | .append _ | .close => true
  | _ => false

/-- The tracer has ended. -/
def terminated : Phase → Bool
  | .exited _ | .died _ => true
  | _ => false

/-- There is a socket. -/
def listens : Phase → Bool
  | .unblock | .notify | .test | .call | .accept | .read _ | .append _ | .leave | .close => true
  | _ => false

/-- The output is open. -/
def opened : Phase → Bool
  | .installChld | .installInt | .block | .openOutput | .died none => false
  | _ => true

/-- The pipe is written to, or closed. -/
def letsGo : Phase → Bool
  | .test | .call | .accept | .read _ | .append _ | .leave | .close | .exited _ | .died _ => true
  | _ => false

/-- The message that is taken from the queue and is not in the file. -/
def current : Phase → List Message
  | .read message | .append message | .died (some message) => [message]
  | _ => []

/-- A call may wait here, and is done when it returns. -/
def waits : Phase → Bool
  | .accept | .read _ => true
  | _ => false

/-- What a signal makes of the call that is waiting. -/
def interrupted (interrupts : Bool) : Phase → Phase
  | .accept => .leave
  | .read message => if interrupts then .died (some message) else .read message
  | phase => phase

/-- The phase after one whose work is done. -/
def next (childPid : Bool) (childStatus : Nat) : Phase → Option Phase
  | .installChld => some .installInt
  | .installInt => some .block
  | .block => some .openOutput
  | .createSocket => some .unblock
  | .unblock => some .notify
  | .test => some (if childPid then .call else .leave)
  | .call => some .accept
  | .read message => some (.append message)
  | .leave => some .close
  | .close => some (.exited childStatus)
  | .openOutput | .notify | .accept | .append _ | .exited _ | .died _ => none

end Phase

/-! ### Events -/

inductive Event where
  /-- The tracer goes on. -/
  | tracer
  /-- A call fails, and the tracer exits; if it is `accept`, it leaves the loop. -/
  | fails
  | deliver (signal : Signal) (interrupts : Bool)
  /-- The innermost handler runs. The status is the one that a variable has which is not set. -/
  | handler (unset : Option Nat)
  /-- The child has waited for the tracer. -/
  | released
  | ended (status : Option Nat)
  /-- The child stops or continues. -/
  | stopped
  /-- `SIGINT` comes. -/
  | interrupt
  | connect (message : Message)
  /-- A traced process finds no socket, and exits. -/
  | refused (message : Message)

namespace Server

/-- The signal is pending. -/
def raise (signal : Signal) (pending : List Signal) : List Signal :=
  if signal ∈ pending then pending else signal :: pending

/-- `SIGCHLD`, which is ignored before there is a handler. -/
def raiseChld (server : Server) : Server :=
  match server.phase with
  | .installChld => server
  | _ => { server with pending := raise .chld server.pending }

/-- The next thing that the tracer does. It does it after the signals that are not blocked. -/
def advance (compilers : List Str) (debug : Bool) (server : Server) : Option Server :=
  if server.phase.masked || server.phase.waits || server.pending.isEmpty then
    match server.phase with
    | .openOutput => some { server with file := openJsonOutput, phase := .createSocket }
    | .notify =>
        match server.child with
        | .waiting | .running => some { server with phase := .test }
        -- the pipe has no reader, and `SIGPIPE` ends the tracer
        | .ended _ | .reaped _ => some { server with phase := .died none }
    | .accept =>
        match server.queue with
        | [] => none
        | message :: queue => some { server with phase := .read message, queue := queue }
    | .append message =>
        some { server with
          file := appendJsonOutput compilers debug server.file message
          phase := .test }
    | phase =>
        (phase.next server.childPid server.childStatus).map fun phase => { server with phase := phase }
  else none

/-- `handler`. A status that is not set is as it happens to be. -/
def handle (server : Server) (unset : Option Nat) : Signal → Option Server
  | .chld =>
      match server.child with
      | .ended status =>
          some { server with
            childPid := false, childStatus := status.getD exitFailure, child := .reaped status }
      | .waiting | .running =>
          some { server with childPid := false, childStatus := unset.getD exitFailure }
      -- there is no child, and the loop around `waitpid` has no end
      | .reaped _ => none
  | .int =>
      -- `kill` with zero signals the tracer too
      if server.childPid then some server else some { server with pending := raise .int server.pending }

/-- **One event**, if it is possible: `room` connections may wait at the socket. A message that is read is
complete: `read` fails only when a signal interrupts it. Writing to the output succeeds. -/
def step (compilers : List Str) (debug : Bool) (room : Nat) (server : Server) : Event → Option Server
  | .tracer => if server.handling = [] then server.advance compilers debug else none
  | .fails =>
      match server.handling, server.phase with
      | [], .installChld | [], .installInt | [], .openOutput | [], .createSocket | [], .notify =>
          some { server with phase := .died none }
      | [], .accept => some { server with phase := .leave }
      | _, _ => none
  | .deliver signal interrupts =>
      if signal ∈ server.pending ∧ signal ∉ server.handling ∧ server.phase.masked = false ∧
          server.phase.terminated = false then
        some { server with
          phase := server.phase.interrupted interrupts
          handling := signal :: server.handling
          pending := server.pending.erase signal }
      else none
  | .handler unset =>
      match server.handling with
      | [] => none
      | signal :: handling => ({ server with handling := handling }).handle unset signal
  | .released =>
      match server.child with
      | .waiting =>
          if server.phase.letsGo then some { server with child := .running, released := true } else none
      | _ => none
  | .ended status =>
      match server.child with
      | .waiting | .running => some ({ server with child := .ended status }).raiseChld
      | _ => none
  | .stopped =>
      match server.child with
      | .waiting | .running => some server.raiseChld
      | _ => none
  | .interrupt =>
      match server.phase with
      | .installChld | .installInt => some { server with phase := .died none }
      | _ => some { server with pending := raise .int server.pending }
  | .connect message =>
      if server.released ∧ server.phase.listens = true ∧ server.queue.length < room then
        some { server with queue := server.queue ++ [message] }
      else none
  | .refused _ => if server.released ∧ server.phase.listens = false then some server else none

end Server

/-- The messages whose connections have come to the socket. -/
def connected (events : List Event) : List Message :=
  events.filterMap fun event =>
    match event with
    | .connect message => some message
    | _ => none

/-- What the file holds. -/
def Server.text (server : Server) : Str :=
  match server.phase with
  | .exited _ => closeJsonOutput server.file
  | _ => server.file.text

/-! ### What the tracer does next -/

section Steps

variable {compilers : List Str} {debug : Bool} {room : Nat} {server server' : Server}

/-- **The ways in which the tracer goes on.** -/
theorem advance_cases (advanced : server.advance compilers debug = some server') :
    (∃ phase, server.phase.next server.childPid server.childStatus = some phase ∧
        server' = { server with phase := phase }) ∨
      (server.phase = .openOutput ∧
        server' = { server with file := openJsonOutput, phase := .createSocket }) ∨
      (server.phase = .notify ∧
        (server' = { server with phase := .test } ∨ server' = { server with phase := .died none })) ∨
      (∃ message queue, server.phase = .accept ∧ server.queue = message :: queue ∧
        server' = { server with phase := .read message, queue := queue }) ∨
      (∃ message, server.phase = .append message ∧
        server' = { server with
          file := appendJsonOutput compilers debug server.file message, phase := .test }) := by
  obtain ⟨phase, childPid, childStatus, file, handling, pending, child, released, queue⟩ := server
  unfold Server.advance at advanced
  split_ifs at advanced
  cases phase with
  | openOutput =>
    cases advanced
    exact Or.inr (Or.inl ⟨rfl, rfl⟩)
  | notify =>
    refine Or.inr (Or.inr (Or.inl ⟨rfl, ?_⟩))
    cases child <;> cases advanced
    · exact Or.inl rfl
    · exact Or.inl rfl
    · exact Or.inr rfl
    · exact Or.inr rfl
  | accept =>
    cases queue with
    | nil => cases advanced
    | cons message queue =>
      cases advanced
      exact Or.inr (Or.inr (Or.inr (Or.inl ⟨message, queue, rfl, rfl, rfl⟩)))
  | append message =>
    cases advanced
    exact Or.inr (Or.inr (Or.inr (Or.inr ⟨message, rfl, rfl⟩)))
  | installChld | installInt | block | createSocket | unblock | test | call | read | leave | close
  | exited | died =>
    obtain ⟨phase, next, same⟩ := Option.map_eq_some_iff.mp advanced
    exact Or.inl ⟨phase, next, same.symm⟩

/-! ### The messages in the file -/

/-- The event is no connection. -/
def Event.silent : Event → Prop
  | .connect _ => False
  | _ => True

theorem connected_silent {event : Event} (events : List Event) (silent : event.silent) :
    connected (events ++ [event]) = connected events := by
  rw [connected, List.filterMap_append]
  cases event <;> first | exact List.append_nil _ | exact silent.elim

/-- What a run keeps: the messages that have come in are those in the file, the one that is being
taken, and those that wait. -/
structure Served (compilers : List Str) (debug : Bool) (room : Nat) (events : List Event)
    (server : Server) : Prop where
  letsGo : server.released = true → server.phase.letsGo = true
  quiet : server.released = false → connected events = []
  room : server.queue.length ≤ room
  file : ∃ appended, connected events = appended ++ server.phase.current ++ server.queue ∧
    (server.phase.opened = true →
      server.file = appended.foldl (appendJsonOutput compilers debug) openJsonOutput)

/-- A phase may follow another without anything being done. -/
structure Follows (phase phase' : Phase) : Prop where
  current : phase'.current = phase.current
  letsGo : phase.letsGo = true → phase'.letsGo = true
  opened : phase'.opened = true → phase.opened = true

variable {events events' : List Event}

theorem Served.move (served : Served compilers debug room events server)
    (same : connected events' = connected events) (follows : Follows server.phase server'.phase)
    (file : server'.file = server.file) (released : server'.released = server.released)
    (queue : server'.queue = server.queue) : Served compilers debug room events' server' where
  letsGo := by
    rw [released]
    exact fun gone => follows.letsGo (served.letsGo gone)
  quiet := by
    rw [released, same]
    exact served.quiet
  room := by
    rw [queue]
    exact served.room
  file := by
    obtain ⟨appended, parts, text⟩ := served.file
    exact ⟨appended, by rw [same, follows.current, queue, parts],
      fun opened => by rw [file, text (follows.opened opened)]⟩

theorem follows_refl (phase : Phase) : Follows phase phase := ⟨rfl, id, id⟩

theorem follows_next {phase phase' : Phase} {childPid : Bool} {childStatus : Nat}
    (next : phase.next childPid childStatus = some phase') : Follows phase phase' := by
  cases phase with
  | test =>
    cases next
    cases childPid <;> exact ⟨rfl, id, id⟩
  | installChld | installInt | block | createSocket | unblock | call | leave | close | read =>
    cases next
    exact ⟨rfl, by simp [Phase.letsGo], by simp [Phase.opened]⟩
  | openOutput | notify | accept | append | exited | died => cases next

theorem follows_interrupted (phase : Phase) (interrupts : Bool) :
    Follows phase (phase.interrupted interrupts) := by
  cases phase with
  | accept => exact ⟨rfl, id, id⟩
  | read message => cases interrupts <;> exact ⟨rfl, id, id⟩
  | _ => exact follows_refl _

/-- **What the tracer does keeps it.** -/
theorem served_advance (served : Served compilers debug room events server)
    (same : connected events' = connected events)
    (advanced : server.advance compilers debug = some server') :
    Served compilers debug room events' server' := by
  rcases advance_cases advanced with ⟨phase, next, rfl⟩ | ⟨reached, rfl⟩ | ⟨reached, rfl | rfl⟩ |
    ⟨message, queue, reached, waiting, rfl⟩ | ⟨message, reached, rfl⟩
  · exact served.move same (follows_next next) rfl rfl rfl
  · have held : server.released = false := by
      by_contra gone
      have := served.letsGo (by simpa using gone)
      rw [reached] at this
      cases this
    obtain ⟨appended, parts, -⟩ := served.file
    rw [reached, served.quiet held] at parts
    have empty : appended = [] ∧ server.queue = [] := by simpa [Phase.current] using parts.symm
    refine ⟨fun gone => absurd gone (by simp [held]), by rw [same]; exact served.quiet,
      served.room, [], ?_, fun _ => rfl⟩
    show connected events' = [] ++ [] ++ server.queue
    rw [same, served.quiet held, empty.2]
    rfl
  · refine served.move same ?_ rfl rfl rfl
    rw [reached]
    exact ⟨rfl, fun _ => rfl, fun _ => rfl⟩
  · refine served.move same ?_ rfl rfl rfl
    rw [reached]
    exact ⟨rfl, fun _ => rfl, fun opened => by cases opened⟩
  · obtain ⟨appended, parts, text⟩ := served.file
    rw [reached, waiting] at parts
    refine ⟨fun _ => rfl, by rw [same]; exact served.quiet, ?_, appended, ?_, fun _ => text ?_⟩
    · have room := served.room
      rw [waiting, List.length_cons] at room
      exact Nat.le_of_succ_le room
    · rw [same, parts]
      show appended ++ [] ++ message :: queue = appended ++ [message] ++ queue
      simp
    · rw [reached]
      rfl
  · obtain ⟨appended, parts, text⟩ := served.file
    rw [reached] at parts text
    refine ⟨fun _ => rfl, by rw [same]; exact served.quiet, served.room, appended ++ [message], ?_,
      fun _ => ?_⟩
    · rw [same, parts]
      show appended ++ [message] ++ server.queue = appended ++ [message] ++ [] ++ server.queue
      rw [List.append_nil]
    · rw [text rfl, List.foldl_append]
      rfl

/-- A handler touches neither the file nor the queue. -/
theorem handle_frame {unset : Option Nat} {signal : Signal}
    (handled : server.handle unset signal = some server') :
    server'.phase = server.phase ∧ server'.file = server.file ∧
      server'.released = server.released ∧ server'.queue = server.queue := by
  cases signal with
  | chld =>
    simp only [Server.handle] at handled
    split at handled <;> cases handled <;> exact ⟨rfl, rfl, rfl, rfl⟩
  | int =>
    simp only [Server.handle] at handled
    split_ifs at handled <;> cases handled <;> exact ⟨rfl, rfl, rfl, rfl⟩

theorem raiseChld_frame (server : Server) :
    server.raiseChld.phase = server.phase ∧ server.raiseChld.file = server.file ∧
      server.raiseChld.released = server.released ∧ server.raiseChld.queue = server.queue := by
  unfold Server.raiseChld
  split <;> exact ⟨rfl, rfl, rfl, rfl⟩

/-- **Every event keeps it.** -/
theorem served_step {event : Event} (served : Served compilers debug room events server)
    (step : server.step compilers debug room event = some server') :
    Served compilers debug room (events ++ [event]) server' := by
  cases event with
  | tracer =>
    simp only [Server.step] at step
    split_ifs at step
    exact served_advance served (connected_silent events trivial) step
  | fails =>
    simp only [Server.step] at step
    split at step
    all_goals cases step
    all_goals
      refine served.move (connected_silent events trivial) ?_ rfl rfl rfl
      simp only [*]
      exact ⟨rfl, fun _ => rfl, by decide⟩
  | deliver signal interrupts =>
    simp only [Server.step] at step
    split_ifs at step
    cases step
    exact served.move (connected_silent events trivial) (follows_interrupted _ _) rfl rfl rfl
  | handler unset =>
    simp only [Server.step] at step
    split at step
    · cases step
    · obtain ⟨phase, file, released, queue⟩ := handle_frame step
      refine served.move (connected_silent events trivial) ?_ file released queue
      rw [phase]
      exact follows_refl _
  | released =>
    simp only [Server.step] at step
    split at step
    · split_ifs at step with letsGo
      cases step
      obtain ⟨appended, parts, text⟩ := served.file
      have same : connected (events ++ [.released]) = connected events :=
        connected_silent events trivial
      exact ⟨fun _ => letsGo, fun held => absurd held (by simp), served.room, appended,
        same.trans parts, text⟩
    · cases step
  | ended status =>
    simp only [Server.step] at step
    split at step
    all_goals cases step
    all_goals
      obtain ⟨phase, file, released, queue⟩ := raiseChld_frame { server with child := .ended status }
      refine served.move (connected_silent events trivial) ?_ file released queue
      rw [phase]
      exact follows_refl _
  | stopped =>
    simp only [Server.step] at step
    split at step
    all_goals cases step
    all_goals
      obtain ⟨phase, file, released, queue⟩ := raiseChld_frame server
      refine served.move (connected_silent events trivial) ?_ file released queue
      rw [phase]
      exact follows_refl _
  | interrupt =>
    simp only [Server.step] at step
    split at step
    all_goals cases step
    all_goals refine served.move (connected_silent events trivial) ?_ rfl rfl rfl
    all_goals simp only [*]
    · exact ⟨rfl, fun _ => rfl, by simp [Phase.opened]⟩
    · exact ⟨rfl, fun _ => rfl, by simp [Phase.opened]⟩
    · exact follows_refl _
  | connect message =>
    simp only [Server.step] at step
    split_ifs at step with possible
    cases step
    obtain ⟨released, -, room⟩ := possible
    obtain ⟨appended, parts, text⟩ := served.file
    refine ⟨served.letsGo, fun held => ?_, ?_, appended, ?_, text⟩
    · exact absurd held (by simp [released])
    · rw [List.length_append]
      exact room
    · rw [connected, List.filterMap_append, ← connected, parts]
      simp
  | refused message =>
    simp only [Server.step] at step
    split_ifs at step
    cases step
    exact served.move (connected_silent events trivial) (follows_refl _) rfl rfl rfl

/-- **A run of the tracer and its surroundings.** -/
abbrev Serves (compilers : List Str) (debug : Bool) (room : Nat) : List Event → Server → Prop :=
  Reaches (Server.step compilers debug room) .start

theorem served_run (run : Serves compilers debug room events server) :
    Served compilers debug room events server := by
  refine Reaches.invariant _ ?_ (fun _ _ _ _ _ served step => served_step served step) run
  exact ⟨(fun gone => absurd gone (by decide)), fun _ => rfl, Nat.zero_le _, [], rfl,
    fun opened => absurd opened (by decide)⟩

/-- **The messages in the file are the first that came to the socket**, in their order and each once.
Of the other ones at most one is being taken, and `room` wait; these are lost when the tracer ends,
and the file is then as it should be. -/
theorem collected (run : Serves compilers debug room events server) :
    ∃ appended, connected events = appended ++ server.phase.current ++ server.queue ∧
      server.queue.length ≤ room ∧
      (server.phase.opened = true →
        server.file = appended.foldl (appendJsonOutput compilers debug) openJsonOutput) ∧
      ∀ status, server.phase = .exited status →
        server.text = collectMessages compilers debug appended ∧
          connected events = appended ++ server.queue := by
  obtain ⟨-, -, fits, appended, parts, file⟩ := served_run run
  refine ⟨appended, parts, fits, file, fun status exited => ⟨?_, ?_⟩⟩
  · rw [Server.text, exited, file (by rw [exited]; rfl)]
    rfl
  · rw [parts, exited]
    exact congrArg (· ++ server.queue) (List.append_nil appended)

/-- The traced processes run only while there is a socket or after the tracer has ended. -/
theorem listens_or_over (run : Serves compilers debug room events server)
    (released : server.released = true) : server.phase.listens = true ∨ server.phase.terminated = true := by
  have letsGo := (served_run run).letsGo released
  cases phase : server.phase with
  | test | call | accept | read | append | leave | close => exact Or.inl rfl
  | exited | died => exact Or.inr rfl
  | installChld | installInt | block | openOutput | createSocket | unblock | notify =>
    rw [phase] at letsGo
    cases letsGo

end Steps

/-! ### A run with one message -/

/-- The tracer gets to the test of `child_pid`, and the child runs. -/
def letGo : List Event := List.replicate 7 .tracer ++ [.released]

def compileCall : Message where
  pid := 7
  ppid := 6
  function := "execve".toList
  cwd := "/w".toList
  respFile := []
  cmd := ["gcc".toList, "a.c".toList]

/-- One message, of a call of `gcc`, is written, and another one waits when the child has ended. -/
def oneWritten : List Event :=
  letGo ++ [.tracer, .tracer, .connect compileCall, .tracer, .connect compileCall, .tracer, .tracer,
    .ended (some 3), .deliver .chld false, .handler none, .tracer, .tracer, .tracer]

theorem serves_oneWritten : ∃ server : Server, Serves ["gcc".toList] false 1 oneWritten server ∧
    server.phase = .exited 3 := ⟨_, reaches_of_foldlM rfl, rfl⟩

theorem collected_one : ∃ server : Server, server.phase = .exited 3 ∧
    ∃ appended, connected oneWritten = appended ++ server.phase.current ++ server.queue ∧
      server.queue.length ≤ 1 ∧
      (server.phase.opened = true →
        server.file = appended.foldl (appendJsonOutput ["gcc".toList] false) openJsonOutput) ∧
      ∀ status, server.phase = .exited status →
        server.text = collectMessages ["gcc".toList] false appended ∧
          connected oneWritten = appended ++ server.queue := by
  obtain ⟨server, run, exited⟩ := serves_oneWritten
  exact ⟨server, exited, collected run⟩

theorem listens_or_over_one : ∃ server : Server, Serves [] false 1 (letGo ++ [.tracer]) server ∧
    (server.phase.listens = true ∨ server.phase.terminated = true) := by
  have run : Serves [] false 1 (letGo ++ [.tracer]) _ := reaches_of_foldlM rfl
  exact ⟨_, run, listens_or_over run rfl⟩

end Xcalbuild.Tracer
