/-
**A build under the tracer.**

The tracer (`Server.step`) and the processes of the build (`Image.step`) run side by side. The child
of the tracer becomes the root of the processes when it is let go. A wrapper connects to the socket
that the environment of its process names, waits while there is no room, and ends the process if
nobody listens.

* `Session.step`: one event, of the tracer and its surroundings or of one of the processes;
* `coupled_run`: a session is a run of the tracer and a run of the processes, and what these send is
  what comes to the socket;
* `calls_eq`: the calls that are refused are the last ones, as the socket is gone then;
* **`recorded`**: where the programs are careful and every call is reported once, the compile
  database has the calls that they make, in their order, but for the last ones: those that still wait
  when the tracer ends, and those that are refused after it;
* **`undisturbed`**: as long as the tracer has not ended, it does not end a process of the build.
-/
import Xcalbuild.Tracer.CompileDatabase
import Xcalbuild.Tracer.Images
import Xcalbuild.Tracer.Reports
import Xcalbuild.Tracer.Server

namespace Xcalbuild.Tracer

open Library

/-! ### The tracer and the processes -/

/-- What a session starts with. -/
structure Setup where
  compilers : List Str
  debug : Bool
  /-- How many connections may wait at the socket. -/
  room : Nat
  loader : Loader
  settings : Settings
  /-- The process id of the child. -/
  pid : Nat
  /-- The one of the tracer. -/
  ppid : Nat
  /-- The environment of the tracer. -/
  environ : List Str

/-- What a process sets out to do, with the messages that it sends. If it finds no socket for them, it
exits. -/
structure Attempt where
  step : ImageStep
  refused : Bool

/-- The step that the process takes. -/
def Attempt.effect (attempt : Attempt) : ImageStep :=
  if attempt.refused then ⟨attempt.step.node, .proceed .exited, []⟩ else attempt.step

structure Session where
  server : Server
  /-- The processes of the build. -/
  forest : List (Node Image ImageAction)
  /-- What they have set out to do so far. -/
  log : List Attempt

inductive SessionEvent where
  /-- An event of the tracer, its child or a signal. -/
  | tracer (event : Event)
  /-- A process takes a step, and the messages of it come to their sockets. -/
  | process (position : Nat) (action : ImageAction)
  /-- A process takes a step, finds no socket for its message, and exits. -/
  | refused (position : Nat) (action : ImageAction)

namespace Setup

variable (setup : Setup)

/-- The command of the build, in the child. -/
def root : Node Image ImageAction :=
  ⟨.start setup.loader (.image setup.pid setup.ppid) (rootEnviron setup.settings setup.environ), []⟩

/-- The loader puts the library into an image that has the two variables. -/
def Loads : Prop :=
  setup.loader (some setup.settings.preload) (some setup.settings.libraryPath) = true

def serve : Server → Event → Option Server := Server.step setup.compilers setup.debug setup.room

/-- The messages that are sent to the socket of the tracer. -/
def arriving (output : List (Str × Message)) : List Message :=
  (output.filter fun sent => sent.1 = setup.settings.output).map Prod.snd

/-- The message finds no socket. One that is not the socket of the tracer may be there or not. -/
def refuse (server : Server) (sent : Str × Message) : Option Server :=
  if sent.1 = setup.settings.output then setup.serve server (.refused sent.2) else some server

/-- The processes after an event that is none of theirs. The child ends when it has exited, and what
comes to the socket comes from the processes. -/
def forestAfter (forest : List (Node Image ImageAction)) :
    Event → Option (List (Node Image ImageAction))
  | .released => some [setup.root]
  | .ended _ =>
      if forest.any fun node => node.state.process.pid = setup.pid then none else some forest
  | .connect _ | .refused _ => none
  | .tracer | .fails | .deliver .. | .handler _ | .stopped | .interrupt => some forest

end Setup

namespace Session

def start : Session where
  server := .start
  forest := []
  log := []

/-- The processes after a step of one of them. -/
def grown (session : Session) (position : Nat) (successors : List (Node Image ImageAction)) :
    List (Node Image ImageAction) :=
  session.forest.take position ++ (successors ++ session.forest.drop (position + 1))

/-- **One event of a session**, if it is possible. -/
def step (setup : Setup) (session : Session) : SessionEvent → Option Session
  | .tracer event => do
      let server ← setup.serve session.server event
      let forest ← setup.forestAfter session.forest event
      return { session with server := server, forest := forest }
  | .process position action => do
      let node ← session.forest[position]?
      let (successors, output) ← node.state.step setup.loader action
      let server ← ((setup.arriving output).map Event.connect).foldlM setup.serve session.server
      return {
        server := server
        forest := session.grown position (successors.map (Successor.node (node.past action)))
        log := session.log ++ [⟨⟨node, action, output⟩, false⟩] }
  | .refused position action => do
      let node ← session.forest[position]?
      let (_, output) ← node.state.step setup.loader action
      let sent ← output.head?
      let server ← setup.refuse session.server sent
      return {
        server := server
        forest := session.grown position []
        log := session.log ++ [⟨⟨node, action, output⟩, true⟩] }

/-- The steps of the processes. -/
def taken (session : Session) : List ImageStep := session.log.map Attempt.effect

/-- The steps of the wrappers alone. -/
def steps (session : Session) : List Step :=
  session.taken.filterMap (Taken.map Image.process ImageAction.shown (List.map Prod.snd))

end Session

/-- **A run of the tracer together with the build.** -/
abbrev Setup.Runs (setup : Setup) : List SessionEvent → Session → Prop :=
  Reaches (Session.step setup) .start

/-- The message of a call that a program makes itself. -/
def programCall (step : Step) : Option Message :=
  match step.action with
  | .call function argv surroundings =>
      if step.node.state.calls = [] then some (report step.node.state surroundings function argv)
      else none
  | _ => none

/-- The messages of the calls that the programs make themselves, in order. -/
def programCalls (steps : List Step) : List Message := steps.filterMap programCall

/-- The call of a program that a process sets out to make. -/
def Attempt.call (attempt : Attempt) : Option Message :=
  (attempt.step.map Image.process ImageAction.shown (List.map Prod.snd)).bind programCall

/-- **The calls that the programs make themselves**, in order, those that are refused included. -/
def Session.calls (session : Session) : List Message := session.log.filterMap Attempt.call

/-- Those of them that are refused. -/
def Session.refusedCalls (session : Session) : List Message :=
  (session.log.filter Attempt.refused).filterMap Attempt.call

/-! ### What an event leaves -/

section Events

variable {compilers : List Str} {debug : Bool} {room : Nat} {server server' : Server}
  {event : Event}

/-- What an event of the tracer leaves as it was. -/
structure Leaves (event : Event) (server server' : Server) : Prop where
  terminated : server.phase.terminated = true → server'.phase.terminated = true
  child : server'.child = .waiting → server.child = .waiting
  released : event ≠ .released → server'.released = server.released

theorem leaves_advance (advanced : server.advance compilers debug = some server') :
    Leaves event server server' := by
  rcases advance_cases advanced with ⟨phase, next, rfl⟩ | ⟨reached, rfl⟩ | ⟨reached, rfl | rfl⟩ |
    ⟨message, queue, reached, -, rfl⟩ | ⟨message, reached, rfl⟩
  · refine ⟨fun ended => ?_, id, fun _ => rfl⟩
    cases reached : server.phase with
    | exited | died =>
      rw [reached] at next
      cases next
    | _ =>
      rw [reached] at ended
      cases ended
  all_goals
    refine ⟨fun ended => ?_, id, fun _ => rfl⟩
    rw [reached] at ended
    cases ended

theorem leaves_handle {unset : Option Nat} {signal : Signal}
    (handled : server.handle unset signal = some server') : Leaves event server server' := by
  obtain ⟨phase, -, released, -⟩ := handle_frame handled
  refine ⟨fun ended => by rwa [phase], ?_, fun _ => released⟩
  cases signal with
  | chld =>
    simp only [Server.handle] at handled
    split at handled
    all_goals cases handled
    · intro waits
      cases waits
    · exact id
    · exact id
  | int =>
    simp only [Server.handle] at handled
    split_ifs at handled <;> cases handled <;> exact id

theorem leaves_step (step : server.step compilers debug room event = some server') :
    Leaves event server server' := by
  cases event with
  | tracer =>
    simp only [Server.step] at step
    split_ifs at step
    exact leaves_advance step
  | fails =>
    simp only [Server.step] at step
    split at step
    all_goals cases step
    all_goals exact ⟨fun ended => by simp_all [Phase.terminated], id, fun _ => rfl⟩
  | deliver signal interrupts =>
    simp only [Server.step] at step
    split_ifs at step with delivered
    cases step
    refine ⟨fun ended => ?_, id, fun _ => rfl⟩
    rw [delivered.2.2.2] at ended
    cases ended
  | handler unset =>
    simp only [Server.step] at step
    split at step
    · cases step
    · have left : Leaves (.handler unset) _ server' := leaves_handle step
      exact ⟨left.terminated, left.child, left.released⟩
  | released =>
    simp only [Server.step] at step
    split at step
    · split_ifs at step
      cases step
      exact ⟨id, (fun waits => by cases waits), fun other => absurd rfl other⟩
    · cases step
  | ended status =>
    simp only [Server.step] at step
    split at step
    all_goals cases step
    all_goals
      obtain ⟨phase, -, released, -⟩ := raiseChld_frame { server with child := .ended status }
      refine ⟨fun ended => by rwa [phase], fun waits => ?_, fun _ => released⟩
      unfold Server.raiseChld at waits
      split at waits <;> cases waits
  | stopped =>
    simp only [Server.step] at step
    split at step
    all_goals cases step
    all_goals
      obtain ⟨phase, -, released, -⟩ := raiseChld_frame server
      refine ⟨fun ended => by rwa [phase], fun waits => ?_, fun _ => released⟩
      unfold Server.raiseChld at waits
      split at waits <;> exact waits
  | interrupt =>
    simp only [Server.step] at step
    split at step
    all_goals cases step
    · exact ⟨fun _ => rfl, id, fun _ => rfl⟩
    · exact ⟨fun _ => rfl, id, fun _ => rfl⟩
    · exact ⟨id, id, fun _ => rfl⟩
  | connect message =>
    simp only [Server.step] at step
    split_ifs at step
    cases step
    exact ⟨id, id, fun _ => rfl⟩
  | refused message =>
    simp only [Server.step] at step
    split_ifs at step
    cases step
    exact ⟨id, id, fun _ => rfl⟩

/-- The child is let go once. -/
theorem released_of_step (step : server.step compilers debug room .released = some server') :
    server.child = .waiting ∧ server'.child ≠ .waiting ∧ server'.released = true := by
  simp only [Server.step] at step
  split at step
  · next child =>
    split_ifs at step
    cases step
    exact ⟨child, Child.noConfusion, rfl⟩
  · cases step

/-- A connection leaves all but the queue. -/
theorem connects_frame {messages : List Message}
    (connects : (messages.map Event.connect).foldlM (Server.step compilers debug room) server =
      some server') :
    server'.phase = server.phase ∧ server'.child = server.child ∧
      server'.released = server.released := by
  induction messages generalizing server with
  | nil =>
    cases connects
    exact ⟨rfl, rfl, rfl⟩
  | cons message messages ih =>
    rw [List.map_cons, List.foldlM_cons] at connects
    obtain ⟨middle, first, rest⟩ := Option.bind_eq_some_iff.mp connects
    simp only [Server.step] at first
    split_ifs at first
    cases first
    have kept := ih rest
    exact kept

/-- There is a socket to connect to. -/
theorem listens_of_connects {message : Message} {messages : List Message}
    (connects : ((message :: messages).map Event.connect).foldlM
      (Server.step compilers debug room) server = some server') : server.phase.listens = true := by
  rw [List.map_cons, List.foldlM_cons] at connects
  obtain ⟨middle, first, -⟩ := Option.bind_eq_some_iff.mp connects
  simp only [Server.step] at first
  split_ifs at first with room
  exact room.2.1

theorem connected_connects (events : List Event) (messages : List Message) :
    connected (events ++ messages.map Event.connect) = connected events ++ messages := by
  unfold connected
  rw [List.filterMap_append, List.filterMap_map]
  exact congrArg _ (List.filterMap_some)

/-- A process is refused when it runs and there is no socket. -/
theorem refused_of_step {message : Message}
    (step : server.step compilers debug room (.refused message) = some server') :
    server' = server ∧ server.released = true ∧ server.phase.listens = false := by
  simp only [Server.step] at step
  split_ifs at step with possible
  cases step
  exact ⟨rfl, possible⟩

end Events

/-! ### Both together -/

section Coupled

variable {setup : Setup} {session session' : Session} {events : List SessionEvent}

/-- **The ways in which a session goes on.** -/
theorem session_cases {event : SessionEvent} (step : session.step setup event = some session') :
    (∃ own server forest, event = .tracer own ∧ setup.serve session.server own = some server ∧
        setup.forestAfter session.forest own = some forest ∧
        session' = ⟨server, forest, session.log⟩) ∨
      (∃ position before node after action successors output server,
        event = .process position action ∧ session.forest = before ++ node :: after ∧
        node.state.step setup.loader action = some (successors, output) ∧
        ((setup.arriving output).map Event.connect).foldlM setup.serve session.server =
          some server ∧
        session' = ⟨server, before ++ (successors.map (Successor.node (node.past action)) ++ after),
          session.log ++ [⟨⟨node, action, output⟩, false⟩]⟩) ∨
      ∃ before node after action successors sent rest server,
        session.forest = before ++ node :: after ∧
        node.state.step setup.loader action = some (successors, sent :: rest) ∧
        setup.refuse session.server sent = some server ∧
        session' = ⟨server, before ++ after,
          session.log ++ [⟨⟨node, action, sent :: rest⟩, true⟩]⟩ := by
  have parts : ∀ {position : Nat} {node : Node Image ImageAction},
      session.forest[position]? = some node →
        session.forest =
          session.forest.take position ++ node :: session.forest.drop (position + 1) := by
    intro position node listed
    obtain ⟨inside, rfl⟩ := List.getElem?_eq_some_iff.mp listed
    rw [← List.drop_eq_getElem_cons inside, List.take_append_drop]
  cases event with
  | tracer own =>
    simp only [Session.step, Option.bind_eq_bind, Option.bind_eq_some_iff] at step
    obtain ⟨server, served, forest, after, same⟩ := step
    cases same
    exact Or.inl ⟨own, server, forest, rfl, served, after, rfl⟩
  | process position action =>
    simp only [Session.step, Option.bind_eq_bind, Option.bind_eq_some_iff] at step
    obtain ⟨node, listed, ⟨successors, output⟩, stepped, server, served, same⟩ := step
    cases same
    exact Or.inr (Or.inl ⟨position, _, node, _, action, successors, output, server, rfl, parts listed,
      stepped, served, rfl⟩)
  | refused position action =>
    simp only [Session.step, Option.bind_eq_bind, Option.bind_eq_some_iff] at step
    obtain ⟨node, listed, ⟨successors, output⟩, stepped, sent, first, server, served, same⟩ := step
    cases same
    obtain ⟨rest, rfl⟩ := List.head?_eq_some_iff.mp first
    exact Or.inr (Or.inr ⟨_, node, _, action, successors, sent, rest, server, parts listed, stepped,
      served, rfl⟩)

theorem taken_concat (session : Session) (server : Server)
    (forest : List (Node Image ImageAction)) (attempt : Attempt) :
    (Session.mk server forest (session.log ++ [attempt])).taken =
      session.taken ++ [attempt.effect] :=
  List.map_append

theorem mem_taken_concat {step : ImageStep} (member : step ∈ session.taken) (server : Server)
    (forest : List (Node Image ImageAction)) (attempt : Attempt) :
    step ∈ (Session.mk server forest (session.log ++ [attempt])).taken := by
  rw [taken_concat]
  exact List.mem_append_left _ member

/-- What comes to the socket in a session. -/
def Session.arrived (setup : Setup) (session : Session) : List Message :=
  session.taken.flatMap fun step => setup.arriving step.output

/-- **A session is a run of the tracer and one of the processes**, and what these send is what has
come to the socket. -/
structure Coupled (setup : Setup) (session : Session) : Prop where
  served : ∃ events, Serves setup.compilers setup.debug setup.room events session.server ∧
    connected events = session.arrived setup
  waiting : session.server.child = .waiting → session.server.released = false
  held : session.server.released = false → session.taken = [] ∧ session.forest = []
  run : session.server.released = true →
    Run (Image.step setup.loader) [setup.root] session.taken session.forest

theorem coupled_start (setup : Setup) : Coupled setup .start where
  served := ⟨[], .start, rfl⟩
  waiting _ := rfl
  held _ := ⟨rfl, rfl⟩
  run released := by cases released

/-- An event of the tracer keeps it. -/
theorem Coupled.tracer (coupled : Coupled setup session) {own : Event} {server : Server}
    {forest : List (Node Image ImageAction)} (served : setup.serve session.server own = some server)
    (after : setup.forestAfter session.forest own = some forest) :
    Coupled setup ⟨server, forest, session.log⟩ := by
  obtain ⟨events, serves, arrived⟩ := coupled.served
  have silent : own.silent := by
    cases own with
    | connect | refused => cases after
    | _ => trivial
  have connects : ∃ events, Serves setup.compilers setup.debug setup.room events server ∧
      connected events = session.arrived setup :=
    ⟨events ++ [own], serves.step served, (connected_silent events silent).trans arrived⟩
  obtain ⟨-, child, released⟩ := leaves_step served
  by_cases goes : own = .released
  · subst goes
    cases after
    obtain ⟨waits, runs, gone⟩ := released_of_step served
    have absent := (coupled.held (coupled.waiting waits)).1
    refine ⟨connects, fun waits => absurd waits runs, fun held => ?_, fun _ => ?_⟩
    · exact absurd (gone.symm.trans held) Bool.noConfusion
    · show Run _ _ session.taken _
      rw [absent]
      exact .done _
  · have same : forest = session.forest := by
      cases own with
      | released => exact absurd rfl goes
      | ended status =>
        simp only [Setup.forestAfter] at after
        split_ifs at after
        exact (Option.some.inj after).symm
      | connect | refused => cases after
      | _ => exact (Option.some.inj after).symm
    subst same
    have kept := released goes
    refine ⟨connects, fun waits => ?_, fun held => ?_, fun runs => ?_⟩
    · exact kept.trans (coupled.waiting (child waits))
    · exact coupled.held (kept.symm.trans held)
    · exact coupled.run (kept.symm.trans runs)

/-- There are no processes before the child is let go. -/
theorem Coupled.released (coupled : Coupled setup session)
    {before after : List (Node Image ImageAction)} {node : Node Image ImageAction}
    (parts : session.forest = before ++ node :: after) :
    session.server.released = true := by
  by_contra held
  have absent := (coupled.held (by simpa using held)).2
  rw [parts] at absent
  exact List.append_ne_nil_of_right_ne_nil _ (List.cons_ne_nil _ _) absent

/-- A step of a process keeps it. -/
theorem Coupled.process (coupled : Coupled setup session)
    {before after : List (Node Image ImageAction)} {node : Node Image ImageAction}
    {action : ImageAction} {successors : List (Successor Image)} {output : List (Str × Message)}
    {server : Server} (parts : session.forest = before ++ node :: after)
    (stepped : node.state.step setup.loader action = some (successors, output))
    (served : ((setup.arriving output).map Event.connect).foldlM setup.serve session.server =
      some server) :
    Coupled setup ⟨server, before ++ (successors.map (Successor.node (node.past action)) ++ after),
      session.log ++ [⟨⟨node, action, output⟩, false⟩]⟩ := by
  have running := coupled.released parts
  obtain ⟨events, serves, arrived⟩ := coupled.served
  obtain ⟨-, child, released⟩ := connects_frame served
  have still : server.released = true := released.trans running
  refine ⟨⟨_, serves.trans (reaches_of_foldlM served), ?_⟩, fun waits => ?_, fun held => ?_,
    fun _ => ?_⟩
  · rw [connected_connects, arrived]
    unfold Session.arrived
    rw [taken_concat, List.flatMap_append, List.flatMap_singleton]
    rfl
  · exact released.trans (coupled.waiting (child.symm.trans waits))
  · exact absurd (still.symm.trans held) Bool.noConfusion
  · have run := coupled.run running
    rw [parts] at run
    rw [taken_concat]
    exact run.snoc stepped

/-- So does the end of a process that is refused. -/
theorem Coupled.refused (coupled : Coupled setup session)
    {before after : List (Node Image ImageAction)} {node : Node Image ImageAction} {server : Server}
    {action : ImageAction} {sent : Str × Message} {output : List (Str × Message)}
    (parts : session.forest = before ++ node :: after)
    (served : setup.refuse session.server sent = some server) :
    Coupled setup ⟨server, before ++ after, session.log ++ [⟨⟨node, action, output⟩, true⟩]⟩ := by
  have running := coupled.released parts
  have same : server = session.server := by
    unfold Setup.refuse at served
    split_ifs at served
    · exact (refused_of_step served).1
    · exact (Option.some.inj served).symm
  subst same
  refine ⟨?_, coupled.waiting, fun held => absurd (running.symm.trans held) Bool.noConfusion,
    fun _ => ?_⟩
  · obtain ⟨events, serves, arrived⟩ := coupled.served
    refine ⟨events, serves, arrived.trans ?_⟩
    unfold Session.arrived
    rw [taken_concat, List.flatMap_append]
    exact (List.append_nil _).symm
  · have run := coupled.run running
    rw [parts] at run
    have exits : node.state.step setup.loader (.proceed .exited) = some ([], []) := rfl
    rw [taken_concat]
    exact run.snoc exits

/-- **Every session is coupled.** -/
theorem coupled_run (run : setup.Runs events session) : Coupled setup session := by
  refine Reaches.invariant (fun _ => Coupled setup) (coupled_start setup) ?_ run
  intro _ session event session' _ coupled step
  rcases session_cases step with ⟨own, server, forest, -, served, after, rfl⟩ |
    ⟨-, before, node, after, action, successors, output, server, -, parts, stepped, served, rfl⟩ |
    ⟨before, node, after, action, successors, sent, rest, server, parts, -, served, rfl⟩
  · exact coupled.tracer served after
  · exact coupled.process parts stepped served
  · exact coupled.refused parts served

end Coupled

/-! ### The messages of the programs -/

section Programs

variable {settings : Settings} {loader : Loader} {pid ppid : Nat}

/-- What a process sends in a step where its call is reported once. -/
theorem output_of_once {node : Node Process Action} {action : Action}
    {successors : List (Successor Process)} {output : List Message}
    (stepped : node.state.step action = some (successors, output))
    (once : ReportedOnce ⟨node, action, output⟩) :
    output = (programCall ⟨node, action, output⟩).toList := by
  obtain ⟨⟨pid, ppid, flag, calls⟩, lineage⟩ := node
  cases action with
  | call function argv surroundings =>
    refine (once function argv surroundings rfl).trans ?_
    unfold programCall
    dsimp only
    split_ifs <;> rfl
  | failed =>
    cases calls <;> cases stepped
    rfl
  | replaced =>
    cases calls with
    | nil => cases stepped
    | cons call calls =>
      simp only [Process.step] at stepped
      split_ifs at stepped
      cases stepped
      rfl
  | spawned child =>
    cases calls with
    | nil => cases stepped
    | cons call calls =>
      simp only [Process.step] at stepped
      split_ifs at stepped
      cases stepped
      rfl
  | forked child =>
    cases stepped
    rfl
  | exited =>
    cases stepped
    rfl

/-- What is sent then are the calls of the programs. -/
theorem outputs_eq {taken : List Step} {last : List (Node Process Action)}
    (run : BuildRun pid ppid taken last) (unmarked : ∀ step ∈ taken, Unmarked step) :
    taken.flatMap Taken.output = programCalls taken := by
  have once := (once_iff_unmarked run (tracked_root pid ppid)).mpr unmarked
  unfold programCalls
  rw [List.filterMap_eq_flatMap_toList]
  refine List.flatMap_congr fun step member => ?_
  obtain ⟨successors, stepped⟩ := run.steps member
  exact output_of_once stepped (once step member)

/-- What the wrappers alone do not show sends nothing. -/
theorem hidden_sends_nothing {image : Image} {action : ImageAction}
    {successors : List (Successor Image)} {output : List (Str × Message)}
    (hidden : action.shown = none) (step : image.step loader action = some (successors, output)) :
    output = [] := by
  cases action with
  | call | proceed => cases hidden
  | setEnviron environ =>
    cases step
    rfl
  | untraced child envp =>
    simp only [Image.step] at step
    split at step
    · cases step
    · cases child <;> cases step <;> rfl

end Programs

/-! ### The compile database of a build -/

section Recorded

variable {setup : Setup} {session : Session} {events : List SessionEvent}

/-- The process goes on after a call of a wrapper. -/
def GoesOn (loader : Loader) (step : ImageStep) : Prop :=
  ∀ function argv surroundings envp, step.action = .call function argv surroundings envp →
    ∃ image, step.node.state.step loader step.action = some ([.heir image], step.output)

/-- It does where the wrappers alone have the step. -/
theorem goesOn_of_matches {loader : Loader} {node : Node Image ImageAction} {action : ImageAction}
    {successors : List (Successor Image)} {output : List (Str × Message)}
    (stepped : node.state.step loader action = some (successors, output))
    (matched : Matches Process.step Image.process ImageAction.shown (List.map Prod.snd) node.state
      action successors output) : GoesOn loader ⟨node, action, output⟩ := by
  rintro function argv surroundings envp rfl
  obtain ⟨single, -⟩ := Prod.mk.inj (Option.some.inj matched)
  obtain ⟨successor, rfl⟩ := List.length_eq_one_iff.mp
    ((List.length_map ..).symm.trans (congrArg List.length single).symm)
  cases successor with
  | heir image => exact ⟨image, stepped⟩
  | fresh image => cases single

/-- With careful programs, the processes of a session are traced, and make a run of the wrappers
alone. -/
theorem traced_session (loads : setup.Loads) (coupled : Coupled setup session)
    (careful : ∀ step ∈ session.taken, Careful setup.settings step)
    (released : session.server.released = true) :
    (∀ node ∈ session.forest, Traced setup.settings node.state) ∧
      (∀ step ∈ session.taken, Arrives setup.settings step ∧ GoesOn setup.loader step) ∧
      BuildRun setup.pid setup.ppid session.steps
        (session.forest.map (Node.map Image.process ImageAction.shown)) := by
  refine Run.simulate (f := Image.process) (g := ImageAction.shown) (h := List.map Prod.snd)
    (Traced setup.settings) (Careful setup.settings)
    (fun step => Arrives setup.settings step ∧ GoesOn setup.loader step)
    (fun node action successors output traced allowed stepped => ?_) (coupled.run released)
    (fun node member => ?_) careful
  · obtain ⟨matched, succeeds, arrives⟩ :=
      traced_step loads node action successors output traced allowed stepped
    exact ⟨matched, succeeds, arrives, goesOn_of_matches stepped matched⟩
  · rw [List.mem_singleton.mp member]
    exact traced_start loads rfl (carries_rootEnviron setup.settings setup.environ)

/-- What arrives is what the wrappers send. -/
theorem arrived_eq_outputs (coupled : Coupled setup session)
    (released : session.server.released = true)
    (arrives : ∀ step ∈ session.taken, Arrives setup.settings step) :
    session.arrived setup = session.steps.flatMap Taken.output := by
  unfold Session.arrived Session.steps
  rw [List.filterMap_eq_flatMap_toList, List.flatMap_assoc]
  refine List.flatMap_congr fun step member => ?_
  have all : (step.output.filter fun sent => sent.1 = setup.settings.output) = step.output :=
    List.filter_eq_self.mpr fun sent inside => decide_eq_true (arrives step member sent inside)
  unfold Setup.arriving
  rw [all]
  cases shown : step.action.shown with
  | some action =>
    rw [Taken.map, shown]
    exact (List.append_nil _).symm
  | none =>
    obtain ⟨successors, stepped⟩ := (coupled.run released).steps member
    rw [hidden_sends_nothing shown stepped, Taken.map, shown]
    rfl

/-- **What comes to the socket are the calls of the programs**, each once and in their order. -/
theorem arrived_eq (loads : setup.Loads) (coupled : Coupled setup session)
    (careful : ∀ step ∈ session.taken, Careful setup.settings step)
    (unmarked : ∀ step ∈ session.steps, Unmarked step) :
    session.arrived setup = programCalls session.steps := by
  cases released : session.server.released with
  | false =>
    have absent := (coupled.held released).1
    unfold Session.steps Session.arrived
    rw [absent]
    rfl
  | true =>
    obtain ⟨-, all, run⟩ := traced_session loads coupled careful released
    rw [arrived_eq_outputs coupled released fun step member => (all step member).1]
    exact outputs_eq run unmarked

/-- What a traced process sends, it sends to the tracer. -/
theorem sent_to_tracer {settings : Settings} {loader : Loader} {image : Image}
    {action : ImageAction} {successors : List (Successor Image)} {output : List (Str × Message)}
    (traced : Traced settings image) (step : image.step loader action = some (successors, output))
    {sent : Str × Message} (member : sent ∈ output) : sent.1 = settings.output := by
  cases action with
  | call function argv surroundings envp =>
    simp only [Image.step] at step
    rw [if_pos traced.loaded, sends_eq traced.environ] at step
    have messages : output = (reportCall image.process.alreadyReported
        (report image.process surroundings function argv)).2.map fun message =>
          (settings.output, message) := by
      dsimp only at step
      split at step <;> cases step <;> rfl
    rw [messages] at member
    obtain ⟨message, -, rfl⟩ := List.mem_map.mp member
    rfl
  | setEnviron environ =>
    cases step
    cases member
  | untraced child envp =>
    rw [hidden_sends_nothing rfl step] at member
    cases member
  | proceed action =>
    have silent : output = [] := by
      cases action with
      | call => cases step
      | failed | replaced | spawned =>
        obtain ⟨result, -, same⟩ := Option.map_eq_some_iff.mp step
        exact (Prod.mk.inj same).2.symm
      | forked | exited =>
        cases step
        rfl
    rw [silent] at member
    cases member

/-- The socket is gone when the tracer has ended. -/
theorem not_listens_of_terminated {phase : Phase} (ended : phase.terminated = true) :
    phase.listens = false := by
  cases phase with
  | exited | died => rfl
  | _ => cases ended

/-- The socket is gone only when the tracer has ended. -/
theorem terminated_of_letsGo {phase : Phase} (letsGo : phase.letsGo = true)
    (gone : phase.listens = false) : phase.terminated = true := by
  cases phase with
  | exited | died => rfl
  | test | call | accept | read | append | leave | close => exact absurd gone Bool.noConfusion
  | _ => exact absurd letsGo Bool.noConfusion

/-- A process of a session that is refused has lived longer than the tracer. -/
theorem terminated_of_refused (loads : setup.Loads) (coupled : Coupled setup session)
    (careful : ∀ step ∈ session.taken, Careful setup.settings step)
    {before after : List (Node Image ImageAction)} {node : Node Image ImageAction}
    {action : ImageAction} {successors : List (Successor Image)} {sent : Str × Message}
    {rest : List (Str × Message)} {server : Server}
    (parts : session.forest = before ++ node :: after)
    (stepped : node.state.step setup.loader action = some (successors, sent :: rest))
    (refused : setup.refuse session.server sent = some server) :
    server.phase.terminated = true := by
  have released := coupled.released parts
  obtain ⟨traced, -, -⟩ := traced_session loads coupled careful released
  have here := traced node (by rw [parts]; exact List.mem_append_right _ List.mem_cons_self)
  unfold Setup.refuse at refused
  rw [if_pos (sent_to_tracer here stepped List.mem_cons_self)] at refused
  obtain ⟨rfl, -, gone⟩ := refused_of_step refused
  obtain ⟨connections, serves, -⟩ := coupled.served
  exact terminated_of_letsGo ((served_run serves).letsGo released) gone

/-- A call of a program is reported, so it needs the socket. -/
theorem listens_of_call (loads : setup.Loads) (coupled : Coupled setup session)
    {before after : List (Node Image ImageAction)} {node : Node Image ImageAction}
    {action : ImageAction} {successors : List (Successor Image)} {output : List (Str × Message)}
    {server : Server} (parts : session.forest = before ++ node :: after)
    (stepped : node.state.step setup.loader action = some (successors, output))
    (served : ((setup.arriving output).map Event.connect).foldlM setup.serve session.server =
      some server)
    (careful : ∀ step ∈ (Session.mk server
      (before ++ (successors.map (Successor.node (node.past action)) ++ after))
      (session.log ++ [⟨⟨node, action, output⟩, false⟩])).taken, Careful setup.settings step)
    (unmarked : ∀ step ∈ (Session.mk server
      (before ++ (successors.map (Successor.node (node.past action)) ++ after))
      (session.log ++ [⟨⟨node, action, output⟩, false⟩])).steps, Unmarked step)
    {message : Message} (made : Attempt.call ⟨⟨node, action, output⟩, false⟩ = some message) :
    session.server.phase.listens = true := by
  have released := (connects_frame served).2.2.trans (coupled.released parts)
  obtain ⟨-, all, run⟩ :=
    traced_session loads (coupled.process parts stepped served) careful released
  have last : (⟨node, action, output⟩ : ImageStep) ∈ (Session.mk server
      (before ++ (successors.map (Successor.node (node.past action)) ++ after))
      (session.log ++ [⟨⟨node, action, output⟩, false⟩])).taken := by
    rw [taken_concat]
    exact List.mem_append_right _ (List.mem_singleton_self _)
  obtain ⟨step, shown, call⟩ := Option.bind_eq_some_iff.mp made
  have member := List.mem_filterMap.mpr ⟨_, last, shown⟩
  have once := (once_iff_unmarked run (tracked_root setup.pid setup.ppid)).mpr unmarked step member
  obtain ⟨following, taken⟩ := run.steps member
  have sent : step.output = [message] := by
    have whole : step.output = (programCall step).toList := output_of_once taken once
    rw [whole, call]
    rfl
  obtain ⟨action', -, same⟩ := Option.map_eq_some_iff.mp shown
  have own : output.filter (fun sent => decide (sent.1 = setup.settings.output)) = output :=
    List.filter_eq_self.mpr fun sent inside => decide_eq_true ((all _ last).1 sent inside)
  have arriving : setup.arriving output = [message] := by
    unfold Setup.arriving
    rw [own, ← sent, ← same]
  rw [arriving] at served
  exact listens_of_connects served

/-- What a session adds to the calls of the programs. -/
theorem calls_concat (session : Session) (server : Server)
    (forest : List (Node Image ImageAction)) (attempt : Attempt) :
    (Session.mk server forest (session.log ++ [attempt])).calls =
        session.calls ++ attempt.call.toList ∧
      (Session.mk server forest (session.log ++ [attempt])).refusedCalls =
        session.refusedCalls ++ (if attempt.refused then attempt.call.toList else []) ∧
      programCalls (Session.mk server forest (session.log ++ [attempt])).steps =
        programCalls session.steps ++ (if attempt.refused then [] else attempt.call.toList) := by
  obtain ⟨step, refused⟩ := attempt
  have one : ∀ refused, programCalls ([Attempt.effect ⟨step, refused⟩].filterMap
      (Taken.map Image.process ImageAction.shown (List.map Prod.snd))) =
        if refused then [] else (Attempt.call ⟨step, refused⟩).toList := by
    intro refused
    cases refused with
    | true => rfl
    | false =>
      show programCalls ([step].filterMap _) = (Option.bind _ programCall).toList
      unfold programCalls
      cases shown : step.map Image.process ImageAction.shown (List.map Prod.snd) with
      | none => simp [shown]
      | some image => cases call : programCall image <;> simp [shown, call]
  refine ⟨?_, ?_, ?_⟩
  · unfold Session.calls
    rw [List.filterMap_append]
    cases call : Attempt.call ⟨step, refused⟩ <;> simp [call]
  · unfold Session.refusedCalls
    rw [List.filter_append, List.filterMap_append]
    cases refused <;> cases call : Attempt.call ⟨step, _⟩ <;> simp [call]
  · unfold Session.steps programCalls
    rw [taken_concat, List.filterMap_append, List.filterMap_append]
    exact congrArg _ (one refused)

/-- **The calls that are refused are the last ones**: then the tracer has ended. -/
structure RefusedLast (session : Session) : Prop where
  split : session.calls = programCalls session.steps ++ session.refusedCalls
  ended : session.refusedCalls ≠ [] → session.server.phase.terminated = true

/-- **One more step**: if its call gets through, none was refused before. -/
theorem refusedLast_concat {session : Session} (last : RefusedLast session) {server : Server}
    {forest : List (Node Image ImageAction)} {attempt : Attempt}
    (first : attempt.refused = false → attempt.call ≠ none → session.refusedCalls = [])
    (ended : session.refusedCalls ≠ [] ∨ attempt.refused = true →
      server.phase.terminated = true) :
    RefusedLast ⟨server, forest, session.log ++ [attempt]⟩ := by
  obtain ⟨calls, refused, made⟩ := calls_concat session server forest attempt
  cases isRefused : attempt.refused with
  | true =>
    rw [isRefused, if_pos rfl] at refused made
    refine ⟨?_, fun _ => ended (Or.inr isRefused)⟩
    rw [calls, refused, made, last.split, List.append_nil, List.append_assoc]
  | false =>
    rw [isRefused, if_neg Bool.false_ne_true] at refused made
    rw [List.append_nil] at refused
    refine ⟨?_, fun nonempty => ended (Or.inl (by rwa [refused] at nonempty))⟩
    rw [calls, refused, made, last.split]
    cases call : attempt.call with
    | none => simp
    | some message =>
      have nothing : session.refusedCalls = [] := first isRefused (by simp [call])
      rw [nothing, List.append_nil, List.append_nil]

theorem calls_eq (loads : setup.Loads) (run : setup.Runs events session)
    (careful : ∀ step ∈ session.taken, Careful setup.settings step)
    (unmarked : ∀ step ∈ session.steps, Unmarked step) : RefusedLast session := by
  refine Reaches.invariant (fun _ session => (∀ step ∈ session.taken, Careful setup.settings step) →
    (∀ step ∈ session.steps, Unmarked step) → RefusedLast session) ?_ ?_ run careful unmarked
  · exact fun _ _ => ⟨rfl, fun nonempty => absurd rfl nonempty⟩
  intro events session event session' before kept step careful unmarked
  have coupled := coupled_run before
  have earlier : ∀ (server : Server) (forest : List (Node Image ImageAction)) (attempt : Attempt),
      session' = ⟨server, forest, session.log ++ [attempt]⟩ → RefusedLast session := by
    rintro server forest attempt rfl
    refine kept (fun step member => careful step (mem_taken_concat member _ _ _))
      fun step member => unmarked step ?_
    unfold Session.steps at member ⊢
    rw [taken_concat, List.filterMap_append]
    exact List.mem_append_left _ member
  rcases session_cases step with ⟨own, server, forest, -, served, after, rfl⟩ |
    ⟨position, front, node, back, action, successors, output, server, -, parts, stepped, served, same⟩ |
    ⟨front, node, back, action, successors, sent, rest, server, parts, stepped, served, same⟩
  · have last := kept careful unmarked
    exact ⟨last.split, fun refused => (leaves_step served).terminated (last.ended refused)⟩
  · have last := earlier _ _ _ same
    subst same
    refine refusedLast_concat last (fun _ called => ?_) fun either => ?_
    · obtain ⟨message, call⟩ := Option.ne_none_iff_exists'.mp called
      have listens := listens_of_call loads coupled parts stepped served careful unmarked call
      by_contra nonempty
      rw [not_listens_of_terminated (last.ended nonempty)] at listens
      cases listens
    · have ended := last.ended (either.resolve_right Bool.false_ne_true)
      exact (congrArg Phase.terminated (connects_frame served).1).trans ended
  · have last := earlier _ _ _ same
    subst same
    refine refusedLast_concat last (fun isRefused => nomatch isRefused) fun _ => ?_
    exact terminated_of_refused loads coupled
      (fun step member => careful step (mem_taken_concat member _ _ _)) parts stepped served

/-- **The compile database of a build.** Where the programs are careful and every call is reported
once, the file that the tracer leaves has the calls of the programs in their order, but for the last
ones: those that wait at the socket, which fit into its room, and those that are refused. If nothing has
to be escaped that is not, the file is read as an array with an object for each of the calls of a known
compiler. -/
theorem recorded (loads : setup.Loads) (run : setup.Runs events session)
    (careful : ∀ step ∈ session.taken, Careful setup.settings step)
    (unmarked : ∀ step ∈ session.steps, Unmarked step) {status : Nat}
    (exited : session.server.phase = .exited status) :
    ∃ written waiting, session.calls = written ++ waiting ++ session.refusedCalls ∧
      waiting.length ≤ setup.room ∧
      session.server.text = collectMessages setup.compilers setup.debug written ∧
      (setup.debug = false → (∀ e ∈ written, known setup.compilers e = true → Clean e) →
        ∃ objects, Json.parse session.server.text = some (.arr objects) ∧
          List.Forall₂ Describes (written.filter (known setup.compilers)) objects) := by
  have coupled := coupled_run run
  obtain ⟨connections, serves, arrived⟩ := coupled.served
  obtain ⟨-, -, room, written, parts, file⟩ := served_run serves
  have text : session.server.text = collectMessages setup.compilers setup.debug written := by
    rw [Server.text, exited, file (by rw [exited]; rfl)]
    rfl
  refine ⟨written, session.server.queue, ?_, room, text, fun noDebug clean => ?_⟩
  · rw [(calls_eq loads run careful unmarked).split, ← arrived_eq loads coupled careful unmarked, ← arrived,
      parts, exited]
    exact congrArg (· ++ session.server.queue ++ session.refusedCalls) (List.append_nil written)
  · rw [text, noDebug]
    exact wellWritten_of_clean clean

/-! ### The build as it would be -/

/-- The event ends a process that finds no socket. -/
def SessionEvent.refuses : SessionEvent → Bool
  | .refused .. => true
  | .tracer _ | .process .. => false

/-- **As long as the tracer has not ended, no process of the build ends because of it**: each goes
on after every call, and none is refused. -/
theorem undisturbed (loads : setup.Loads) (run : setup.Runs events session)
    (careful : ∀ step ∈ session.taken, Careful setup.settings step)
    (running : session.server.phase.terminated = false) :
    (∀ step ∈ session.taken, GoesOn setup.loader step) ∧
      ∀ event ∈ events, event.refuses = false := by
  constructor
  · have coupled := coupled_run run
    cases released : session.server.released with
    | false =>
      rw [(coupled.held released).1]
      exact fun _ member => absurd member List.not_mem_nil
    | true =>
      exact fun step member =>
        ((traced_session loads coupled careful released).2.1 step member).2
  · refine Reaches.invariant (fun events session => (∀ step ∈ session.taken,
      Careful setup.settings step) → session.server.phase.terminated = false →
        ∀ event ∈ events, event.refuses = false) ?_ ?_ run careful running
    · exact fun _ _ _ member => absurd member List.not_mem_nil
    intro events session event session' before kept step careful running
    rcases session_cases step with ⟨own, server, forest, rfl, served, after, rfl⟩ |
      ⟨position, front, node, back, action, successors, output, server, rfl, parts, stepped, served,
        rfl⟩ |
      ⟨front, node, back, action, successors, sent, rest, server, parts, stepped, served, rfl⟩
    · have still : session.server.phase.terminated = false := by
        by_contra ended
        have leaves := (leaves_step served).terminated (by simpa using ended)
        exact absurd (leaves.symm.trans running) Bool.noConfusion
      exact List.forall_mem_append.mpr ⟨kept careful still, List.forall_mem_singleton.mpr rfl⟩
    · have still : session.server.phase.terminated = false := by
        rw [← (connects_frame served).1]
        exact running
      have earlier := kept (fun step member => careful step (mem_taken_concat member _ _ _)) still
      exact List.forall_mem_append.mpr ⟨earlier, List.forall_mem_singleton.mpr rfl⟩
    · have ended := terminated_of_refused loads (coupled_run before)
        (fun step member => careful step (mem_taken_concat member _ _ _)) parts stepped served
      exact absurd (ended.symm.trans running) Bool.noConfusion

end Recorded

/-! ### A build with one compiler -/

def compilerSetup : Setup where
  compilers := ["gcc".toList]
  debug := false
  room := 1
  loader := bothSet
  settings := tracedSettings
  pid := 7
  ppid := 6
  environ := []

theorem loads_compiler : compilerSetup.Loads := rfl

/-- The build command calls the compiler, which starts another process, compiles and exits while the tracer
takes the message. The tracer is about to close its socket. -/
def compilerEvents : List SessionEvent :=
  letGo.map .tracer ++ [.tracer .tracer, .tracer .tracer, .process 0 execCompiler, .tracer .tracer,
    .process 0 (.proceed .replaced), .process 0 (.proceed (.forked 8)), .tracer .tracer,
    .tracer .tracer, .process 0 (.proceed .exited), .tracer (.ended (some 3)),
    .tracer (.deliver .chld false), .tracer (.handler none), .tracer .tracer, .tracer .tracer]

/-- The tracer ends, and the other process calls the compiler once more. -/
def lateEvents : List SessionEvent := compilerEvents ++ [.tracer .tracer, .refused 0 execCompiler]

/-- The steps of the processes: a call, then another image, which exits like the process that it forks. -/
structure OneCompiler (session : Session) : Prop where
  actions : ∃ exits, session.taken.map Taken.action =
    [execCompiler, .proceed .replaced, .proceed (.forked 8)] ++
      List.replicate exits (.proceed .exited)
  steps : ∃ output rest exits, session.steps =
      ⟨⟨.image 7 6, []⟩, .call .execve ["gcc".toList, "a.c".toList] ⟨"/w".toList, fun _ => none⟩,
        output⟩ :: rest ∧
    rest.map Taken.action = [.replaced, .forked 8] ++ List.replicate exits .exited

theorem runs_compilerEvents : ∃ session : Session, compilerSetup.Runs compilerEvents session ∧
    session.server.phase = .close ∧ OneCompiler session :=
  ⟨_, reaches_of_foldlM rfl, rfl, ⟨1, rfl⟩, _, _, 1, rfl, rfl⟩

theorem runs_lateEvents : ∃ session : Session, compilerSetup.Runs lateEvents session ∧
    session.server.phase = .exited 3 ∧ session.calls.length = 2 ∧
      session.refusedCalls.length = 1 ∧ OneCompiler session :=
  ⟨_, reaches_of_foldlM rfl, rfl, rfl, rfl, ⟨2, rfl⟩, _, _, 2, rfl, rfl⟩

namespace OneCompiler

variable {session : Session}

theorem careful (one : OneCompiler session) :
    ∀ step ∈ session.taken, Careful compilerSetup.settings step := by
  intro step member
  obtain ⟨exits, actions⟩ := one.actions
  have listed := List.mem_map_of_mem (f := Taken.action) member
  rw [actions, List.mem_append] at listed
  unfold Careful
  rcases listed with listed | listed
  · simp only [List.mem_cons, List.not_mem_nil, or_false] at listed
    rcases listed with call | replaced | forked
    · rw [call]
      exact fun _ => spared_pathOnly
    · rw [replaced]
      trivial
    · rw [forked]
      trivial
  · rw [List.eq_of_mem_replicate listed]
    trivial

theorem unmarked (one : OneCompiler session) : ∀ step ∈ session.steps, Unmarked step := by
  obtain ⟨output, rest, exits, steps, actions⟩ := one.steps
  rw [steps]
  refine List.forall_mem_cons.mpr ⟨unmarked_call.mpr not_false, fun step member => ?_⟩
  rintro ⟨function, argv, surroundings, call⟩
  have listed := List.mem_map_of_mem (f := Taken.action) member
  rw [actions, call, List.mem_append] at listed
  rcases listed with listed | listed
  · simp at listed
  · cases List.eq_of_mem_replicate listed

end OneCompiler

theorem recorded_compiler : ∃ session : Session, session.server.phase = .exited 3 ∧
    session.calls.length = 2 ∧ session.refusedCalls.length = 1 ∧
    ∃ written waiting, session.calls = written ++ waiting ++ session.refusedCalls ∧
      waiting.length ≤ 1 ∧
      session.server.text = collectMessages ["gcc".toList] false written ∧
      (false = false → (∀ e ∈ written, known ["gcc".toList] e = true → Clean e) →
        ∃ objects, Json.parse session.server.text = some (.arr objects) ∧
          List.Forall₂ Describes (written.filter (known ["gcc".toList])) objects) := by
  obtain ⟨session, run, exited, calls, refused, one⟩ := runs_lateEvents
  exact ⟨session, exited, calls, refused,
    recorded loads_compiler run one.careful one.unmarked exited⟩

theorem undisturbed_compiler : ∃ session : Session, session.server.phase = .close ∧
    (∀ step ∈ session.taken, GoesOn bothSet step) ∧
      ∀ event ∈ compilerEvents, event.refuses = false := by
  obtain ⟨session, run, closing, one⟩ := runs_compilerEvents
  exact ⟨session, closing,
    undisturbed loads_compiler run one.careful (by rw [closing]; rfl)⟩

end Xcalbuild.Tracer
