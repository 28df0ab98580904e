/-
**How the tracer ends.**

The tracer should end when the child has, with the status of the child. It does if nothing makes
`child_status` another one (`exitStatus`). But the end of the child may be missed: the handler sets
`child_pid` to zero, and if this happens after the test of `child_pid` and before `accept`, the tracer
waits in `accept` with no one to come.

* `finishes`: with timely signals the tracer can always end once the child has;
* `never_ends`: after the child has ended at the wrong moment it does not, whatever came before, until
  someone connects or interrupts it or a call fails.
-/
import Xcalbuild.Tracer.Server

namespace Xcalbuild.Tracer

open Library

/-! ### The status -/

/-- The child has not ended. -/
def Child.alive : Child → Bool
  | .waiting | .running => true
  | .ended _ | .reaped _ => false

/-- What a run keeps: `child_status` is the status of the child, if the run has nothing in it that
makes it another. -/
structure Accounted (events : List Event) (server : Server) : Prop where
  chld : (.chld ∈ server.pending ∨ .chld ∈ server.handling) → server.child.alive = true →
    Event.stopped ∈ events
  int : (.int ∈ server.pending ∨ .int ∈ server.handling) → Event.interrupt ∈ events
  reaped : ∀ status, server.child = .reaped status →
    server.childPid = false ∧ server.childStatus = status.getD exitFailure
  cleared : server.childPid = false → (∃ status, server.child = .reaped status) ∨ Event.stopped ∈ events
  untouched : server.childPid = true → server.childStatus = exitFailure
  leaves : server.phase = .leave →
    server.childPid = false ∨ .chld ∈ server.handling ∨ Event.interrupt ∈ events ∨ Event.fails ∈ events
  closes : server.phase = .close →
    server.childPid = false ∨ Event.interrupt ∈ events ∨ Event.fails ∈ events
  exits : ∀ status, server.phase = .exited status → server.handling = [] ∧
    status = server.childStatus ∧
      (server.childPid = false ∨ Event.interrupt ∈ events ∨ Event.fails ∈ events)

section Shutdown

variable {compilers : List Str} {debug : Bool} {room : Nat} {server server' : Server}
  {events : List Event}

/-- A phase that comes after another, and what it needs. -/
structure Onward (server : Server) (phase : Phase) : Prop where
  letsGo : server.phase.letsGo = true → phase.letsGo = true
  leave : phase = .leave → server.childPid = false
  call : phase = .call → server.phase = .test ∧ server.childPid = true
  accept : phase = .accept → server.phase = .call
  close : phase = .close → server.phase = .leave
  exited : ∀ status, phase = .exited status → server.phase = .close ∧ status = server.childStatus

theorem onward_next {phase' : Phase}
    (next : server.phase.next server.childPid server.childStatus = some phase') :
    Onward server phase' := by
  obtain ⟨phase, childPid, childStatus, file, handling, pending, child, released, queue⟩ := server
  cases phase with
  | test =>
    cases next
    cases childPid <;> exact ⟨fun _ => rfl, by simp, by simp, by simp, by simp, by simp⟩
  | close =>
    cases next
    exact ⟨fun _ => rfl, by simp, by simp, by simp, by simp, by simp⟩
  | installChld | installInt | block | createSocket | unblock | call | read | leave =>
    cases next
    exact ⟨by simp [Phase.letsGo], by simp, by simp, by simp, by simp, by simp⟩
  | openOutput | notify | accept | append | exited | died => cases next

/-- **The tracer goes on** with another phase, and may change the file and the queue. -/
theorem onward_advance (advanced : server.advance compilers debug = some server') :
    ∃ phase file queue, server' = { server with phase := phase, file := file, queue := queue } ∧
      Onward server phase := by
  rcases advance_cases advanced with ⟨phase, next, rfl⟩ | ⟨reached, rfl⟩ | ⟨reached, rfl | rfl⟩ |
    ⟨message, queue, reached, -, rfl⟩ | ⟨message, reached, rfl⟩
  · exact ⟨_, _, _, rfl, onward_next next⟩
  all_goals
    refine ⟨_, _, _, rfl, ?_⟩
    exact ⟨by simp [reached, Phase.letsGo], by simp, by simp, by simp, by simp, by simp⟩

/-- What a signal can do to the phase. -/
theorem interrupted_cases (phase : Phase) (interrupts : Bool) :
    (phase = .accept ∧ phase.interrupted interrupts = .leave) ∨
      (∃ message, phase.interrupted interrupts = .died (some message)) ∨
      (phase ≠ .accept ∧ phase.interrupted interrupts = phase) := by
  cases phase with
  | accept => exact Or.inl ⟨rfl, rfl⟩
  | read message => cases interrupts <;> simp [Phase.interrupted]
  | _ => exact Or.inr (Or.inr ⟨by simp, rfl⟩)

theorem mem_raise {signal other : Signal} {pending : List Signal}
    (member : other ∈ Server.raise signal pending) : other = signal ∨ other ∈ pending := by
  unfold Server.raise at member
  split_ifs at member
  · exact Or.inr member
  · exact List.mem_cons.mp member

namespace Accounted

/-- It is kept when more happens. -/
theorem mono {more : List Event} (accounted : Accounted events server)
    (subset : ∀ event ∈ events, event ∈ more) : Accounted more server where
  chld raised alive := subset _ (accounted.chld raised alive)
  int raised := subset _ (accounted.int raised)
  reaped := accounted.reaped
  cleared zero := (accounted.cleared zero).imp_right (subset _)
  untouched := accounted.untouched
  leaves reached := (accounted.leaves reached).imp_right (Or.imp_right (Or.imp (subset _) (subset _)))
  closes reached := (accounted.closes reached).imp_right (Or.imp (subset _) (subset _))
  exits status reached := by
    obtain ⟨idle, same, why⟩ := accounted.exits status reached
    exact ⟨idle, same, why.imp_right (Or.imp (subset _) (subset _))⟩

/-- Another phase, with the same child and the same signals. -/
theorem onward {phase : Phase} {file : OutputFile} {queue : List Message}
    (accounted : Accounted events server)
    (leave : phase = .leave → server.childPid = false ∨ .chld ∈ server.handling ∨
      Event.interrupt ∈ events ∨ Event.fails ∈ events)
    (close : phase = .close → server.phase = .leave ∧ server.handling = [])
    (exited : ∀ status, phase = .exited status →
      server.phase = .close ∧ server.handling = [] ∧ status = server.childStatus) :
    Accounted events { server with phase := phase, file := file, queue := queue } where
  chld := accounted.chld
  int := accounted.int
  reaped := accounted.reaped
  cleared := accounted.cleared
  untouched := accounted.untouched
  leaves := leave
  closes reached := by
    obtain ⟨left, idle⟩ := close reached
    have why := accounted.leaves left
    rw [idle] at why
    exact why.imp_right fun other => other.resolve_left List.not_mem_nil
  exits status reached := by
    obtain ⟨closing, idle, same⟩ := exited status reached
    exact ⟨idle, same, accounted.closes closing⟩

/-- `SIGCHLD` comes. -/
theorem raiseChld (accounted : Accounted events server)
    (why : server.child.alive = true → Event.stopped ∈ events) :
    Accounted events server.raiseChld := by
  unfold Server.raiseChld
  split
  · exact accounted
  · exact
      { accounted with
        chld := fun _ => why
        int := fun raised => accounted.int (raised.imp_left fun member =>
          (mem_raise member).resolve_left (by simp)) }

/-- A handler runs. -/
theorem handled {unset : Option Nat} {signal : Signal} {handling : List Signal}
    (accounted : Accounted events server) (running : server.handling = signal :: handling)
    (step : ({ server with handling := handling }).handle unset signal = some server') :
    Accounted events server' := by
  obtain ⟨chld, int, reaped, cleared, untouched, leaves, closes, exits⟩ := accounted
  obtain ⟨phase, childPid, childStatus, file, all, pending, child, released, queue⟩ := server
  cases running
  have goes : ∀ status, phase ≠ .exited status := fun status reached => by cases (exits status reached).1
  have still : ∀ other, (other ∈ pending ∨ other ∈ handling) →
      (other ∈ pending ∨ other ∈ signal :: handling) := fun other =>
    Or.imp_right (List.mem_cons_of_mem signal)
  cases signal with
  | chld =>
    cases child with
    | reaped status => cases step
    | ended status =>
      cases step
      exact ⟨(fun _ alive => by cases alive), fun raised => int (still _ raised),
        (fun other same => by cases same; exact ⟨rfl, rfl⟩), fun _ => Or.inl ⟨status, rfl⟩,
        (fun set => by cases set), fun _ => Or.inl rfl, fun _ => Or.inl rfl,
        fun other reached => absurd reached (goes other)⟩
    | waiting | running =>
      have stopped : Event.stopped ∈ events := chld (Or.inr List.mem_cons_self) rfl
      cases step
      exact ⟨fun _ _ => stopped, fun raised => int (still _ raised),
        (fun other same => by cases same), fun _ => Or.inr stopped, (fun set => by cases set),
        fun _ => Or.inl rfl, fun _ => Or.inl rfl, fun other reached => absurd reached (goes other)⟩
  | int =>
    have came : Event.interrupt ∈ events := int (Or.inr List.mem_cons_self)
    simp only [Server.handle] at step
    split_ifs at step with alive
    · cases step
      exact ⟨fun raised => chld (still _ raised), fun _ => came, reaped, cleared, untouched,
        fun _ => Or.inr (Or.inr (Or.inl came)), fun _ => Or.inr (Or.inl came),
        fun other reached => absurd reached (goes other)⟩
    · cases step
      refine ⟨fun raised => chld (still _ (raised.imp_left fun member => ?_)), fun _ => came, reaped,
        cleared, untouched, fun _ => Or.inr (Or.inr (Or.inl came)), fun _ => Or.inr (Or.inl came),
        fun other reached => absurd reached (goes other)⟩
      exact (mem_raise member).resolve_left (by simp)

/-- A signal is delivered. -/
theorem deliver {signal : Signal} (interrupts : Bool) (accounted : Accounted events server)
    (waits : signal ∈ server.pending) (goes : server.phase.terminated = false) :
    Accounted events { server with
      phase := server.phase.interrupted interrupts
      handling := signal :: server.handling
      pending := server.pending.erase signal } := by
  obtain ⟨chld, int, reaped, cleared, untouched, leaves, closes, exits⟩ := accounted
  have before : ∀ other, (other ∈ server.pending.erase signal ∨ other ∈ signal :: server.handling) →
      (other ∈ server.pending ∨ other ∈ server.handling) := by
    rintro other (left | taken)
    · exact Or.inl (List.mem_of_mem_erase left)
    · rcases List.mem_cons.mp taken with rfl | old
      · exact Or.inl waits
      · exact Or.inr old
  have came : .chld ∈ signal :: server.handling ∨ Event.interrupt ∈ events := by
    cases signal with
    | chld => exact Or.inl List.mem_cons_self
    | int => exact Or.inr (int (Or.inl waits))
  have phases := interrupted_cases server.phase interrupts
  refine ⟨fun raised => chld (before _ raised), fun raised => int (before _ raised), reaped, cleared,
    untouched, fun _ => Or.inr (came.imp_right Or.inl), fun reached => closes ?_, fun status reached => ?_⟩
  · have stays : server.phase.interrupted interrupts = .close := reached
    rcases phases with ⟨-, left⟩ | ⟨message, died⟩ | ⟨-, same⟩
    · cases left.symm.trans stays
    · cases died.symm.trans stays
    · exact same.symm.trans stays
  · have stays : server.phase.interrupted interrupts = .exited status := reached
    rcases phases with ⟨-, left⟩ | ⟨message, died⟩ | ⟨-, same⟩
    · cases left.symm.trans stays
    · cases died.symm.trans stays
    · rw [same.symm.trans stays] at goes
      cases goes

end Accounted

/-- **Every event keeps it.** -/
theorem accounted_step {event : Event} (before : Accounted events server)
    (step : server.step compilers debug room event = some server') :
    Accounted (events ++ [event]) server' := by
  have accounted := before.mono fun other member => List.mem_append_left [event] member
  have here : event ∈ events ++ [event] := List.mem_append_right _ (List.mem_singleton_self event)
  cases event with
  | tracer =>
    simp only [Server.step] at step
    split_ifs at step with idle
    obtain ⟨phase, file, queue, rfl, onward⟩ := onward_advance step
    exact accounted.onward (fun reached => Or.inl (onward.leave reached))
      (fun reached => ⟨onward.close reached, idle⟩)
      fun status reached => ⟨(onward.exited status reached).1, idle, (onward.exited status reached).2⟩
  | fails =>
    simp only [Server.step] at step
    split at step
    all_goals cases step
    all_goals
      exact accounted.onward (fun _ => Or.inr (Or.inr (Or.inr here))) (fun reached => by cases reached)
        fun status reached => by cases reached
  | deliver signal interrupts =>
    simp only [Server.step] at step
    split_ifs at step with waits
    cases step
    exact accounted.deliver interrupts waits.1 waits.2.2.2
  | handler unset =>
    simp only [Server.step] at step
    split at step
    · cases step
    · next signal handling running => exact accounted.handled running step
  | released =>
    simp only [Server.step] at step
    split at step
    · next child =>
      split_ifs at step
      cases step
      have alive : server.child.alive = true := by rw [child]; rfl
      exact
        { accounted with
          chld := fun raised _ => accounted.chld raised alive
          reaped := fun status same => by cases same
          cleared := fun zero => (accounted.cleared zero).imp_left fun reaped => by
            obtain ⟨status, same⟩ := reaped
            rw [child] at same
            cases same }
    · cases step
  | ended status =>
    have gone : server.child.alive = true →
        Accounted (events ++ [.ended status]) { server with child := .ended status } := fun alive =>
      { accounted with
        chld := fun _ dead => by cases dead
        reaped := fun other same => by cases same
        cleared := fun zero => (accounted.cleared zero).imp_left fun reaped => by
          obtain ⟨other, same⟩ := reaped
          rw [same] at alive
          cases alive }
    simp only [Server.step] at step
    split at step
    · next child =>
      cases step
      exact (gone (by rw [child]; rfl)).raiseChld fun dead => by cases dead
    · next child =>
      cases step
      exact (gone (by rw [child]; rfl)).raiseChld fun dead => by cases dead
    · cases step
  | stopped =>
    simp only [Server.step] at step
    split at step
    all_goals cases step
    all_goals exact accounted.raiseChld fun _ => here
  | interrupt =>
    simp only [Server.step] at step
    split at step
    all_goals cases step
    · exact accounted.onward (fun reached => by cases reached) (fun reached => by cases reached)
        fun status reached => by cases reached
    · exact accounted.onward (fun reached => by cases reached) (fun reached => by cases reached)
        fun status reached => by cases reached
    · exact
        { accounted with
          chld := fun raised => accounted.chld (raised.imp_left fun member =>
            (mem_raise member).resolve_left (by simp))
          int := fun _ => here }
  | connect message =>
    simp only [Server.step] at step
    split_ifs at step
    cases step
    exact { accounted with }
  | refused message =>
    simp only [Server.step] at step
    split_ifs at step
    cases step
    exact accounted

/-- **The status of the tracer is the status of the child**, if it was not stopped, and the tracer has
not left the loop before the child has ended. -/
theorem exitStatus {status : Nat} (run : Serves compilers debug room events server)
    (exited : server.phase = .exited status) :
    (∃ ended, server.child = .reaped ended ∧ status = ended.getD exitFailure) ∨
      Event.stopped ∈ events ∨
      ((Event.interrupt ∈ events ∨ Event.fails ∈ events) ∧ status = exitFailure) := by
  have accounted : Accounted events server := by
    refine Reaches.invariant _ ?_ (fun _ _ _ _ _ accounted step => accounted_step accounted step) run
    constructor <;> simp [Server.start]
  obtain ⟨-, same, why⟩ := accounted.exits status exited
  cases childPid : server.childPid with
  | false =>
    rcases accounted.cleared childPid with ⟨ended, reaped⟩ | stopped
    · exact Or.inl ⟨ended, reaped, same.trans (accounted.reaped ended reaped).2⟩
    · exact Or.inr (Or.inl stopped)
  | true =>
    rw [childPid] at why
    exact Or.inr (Or.inr ⟨why.resolve_left (by simp), same.trans (accounted.untouched childPid)⟩)

/-! ### Timely signals -/

/-- The child ends after it has been let go, and not between the test of `child_pid` and `accept`. It does
not stop, no call fails, and `SIGINT` does not come. -/
def timely (server : Server) : Event → Bool
  | .ended _ => server.released && (match server.phase with | .call => false | _ => true)
  | .stopped | .interrupt | .fails => false
  | _ => true

/-- What such runs keep. -/
structure Timely (server : Server) : Prop where
  letsGo : server.released = true → server.phase.letsGo = true
  alive : server.child.alive = true →
    server.childPid = true ∧ server.pending = [] ∧ server.handling = [] ∧ server.phase ≠ .leave ∧
      server.phase ≠ .close ∧ ∀ status, server.phase ≠ .exited status
  ended : ∀ status, server.child = .ended status → server.released = true ∧ server.childPid = true ∧
    server.phase ≠ .call ∧ server.phase ≠ .close ∧ (∀ status, server.phase ≠ .exited status) ∧
      ((server.pending = [.chld] ∧ server.handling = [] ∧ server.phase ≠ .leave) ∨
        (server.pending = [] ∧ server.handling = [.chld] ∧ server.phase ≠ .accept ∧
          server.phase.masked = false))
  reaped : ∀ status, server.child = .reaped status → server.released = true ∧
    server.childPid = false ∧ server.pending = [] ∧ server.handling = [] ∧
      server.childStatus = status.getD exitFailure ∧ server.phase ≠ .call ∧ server.phase ≠ .accept

/-- What a signal keeps of the phase. -/
theorem interrupted_phases (phase : Phase) (interrupts : Bool) :
    phase.interrupted interrupts ≠ .accept ∧
      (phase.interrupted interrupts = .call → phase = .call) ∧
      (phase.interrupted interrupts = .close → phase = .close) ∧
      (∀ status, phase.interrupted interrupts = .exited status → phase = .exited status) ∧
      (phase.masked = false → (phase.interrupted interrupts).masked = false) := by
  rcases interrupted_cases phase interrupts with ⟨-, left⟩ | ⟨message, died⟩ | ⟨other, same⟩
  · rw [left]
    exact ⟨by simp, by simp, by simp, by simp, fun _ => rfl⟩
  · rw [died]
    exact ⟨by simp, by simp, by simp, by simp, fun _ => rfl⟩
  · rw [same]
    exact ⟨other, id, id, fun _ => id, id⟩

namespace Timely

/-- The tracer goes on. -/
theorem onward {phase : Phase} {file : OutputFile} {queue : List Message} (kept : Timely server)
    (idle : server.handling = [])
    (ready : server.phase.masked = true ∨ server.phase.waits = true ∨ server.pending = [])
    (next : Onward server phase) :
    Timely { server with phase := phase, file := file, queue := queue } where
  letsGo gone := next.letsGo (kept.letsGo gone)
  alive isAlive := by
    obtain ⟨set, absent, quiet, noLeave, noClose, -⟩ := kept.alive isAlive
    refine ⟨set, absent, quiet, fun reached => ?_, fun reached => noLeave (next.close reached),
      fun status reached => noClose (next.exited status reached).1⟩
    cases set.symm.trans (next.leave reached)
  ended status gone := by
    obtain ⟨free, set, noCall, noClose, -, ⟨waits, -, noLeave⟩ | ⟨-, running, -⟩⟩ :=
      kept.ended status gone
    · refine ⟨free, set, fun reached => ?_, fun reached => noLeave (next.close reached),
        fun other reached => noClose (next.exited other reached).1, Or.inl ⟨waits, idle, fun reached => ?_⟩⟩
      · -- the signal comes before the test is made
        rw [(next.call reached).1, waits] at ready
        rcases ready with masked | waiting | absent
        · cases masked
        · cases waiting
        · cases absent
      · cases set.symm.trans (next.leave reached)
    · cases idle.symm.trans running
  reaped status gone := by
    obtain ⟨free, zero, absent, quiet, same, noCall, -⟩ := kept.reaped status gone
    refine ⟨free, zero, absent, quiet, same, fun reached => ?_, fun reached => noCall (next.accept reached)⟩
    cases zero.symm.trans (next.call reached).2

/-- A signal is delivered. -/
theorem deliver {signal : Signal} (interrupts : Bool) (kept : Timely server)
    (waits : signal ∈ server.pending) (unblocked : server.phase.masked = false) :
    Timely { server with
      phase := server.phase.interrupted interrupts
      handling := signal :: server.handling
      pending := server.pending.erase signal } := by
  obtain ⟨letsGo, alive, ended, reaped⟩ := kept
  obtain ⟨noAccept, call, close, exited, unmasked⟩ := interrupted_phases server.phase interrupts
  refine ⟨fun gone => (follows_interrupted server.phase interrupts).letsGo (letsGo gone),
    fun isAlive => ?_, fun status gone => ?_, fun status gone => ?_⟩
  · rw [(alive isAlive).2.1] at waits
    cases waits
  · obtain ⟨free, set, noCall, noClose, noExit, ⟨one, idle, -⟩ | ⟨absent, -⟩⟩ := ended status gone
    · rw [one, List.mem_singleton] at waits
      subst waits
      refine ⟨free, set, fun reached => noCall (call reached), fun reached => noClose (close reached),
        fun other reached => noExit other (exited other reached),
        Or.inr ⟨?_, ?_, noAccept, unmasked unblocked⟩⟩
      · show server.pending.erase .chld = []
        rw [one]
        rfl
      · show .chld :: server.handling = [.chld]
        rw [idle]
    · rw [absent] at waits
      cases waits
  · rw [(reaped status gone).2.2.1] at waits
    cases waits

/-- A handler runs. -/
theorem handled {unset : Option Nat} {signal : Signal} {handling : List Signal}
    (kept : Timely server) (running : server.handling = signal :: handling)
    (step : ({ server with handling := handling }).handle unset signal = some server') :
    Timely server' := by
  obtain ⟨letsGo, alive, ended, reaped⟩ := kept
  obtain ⟨phase, childPid, childStatus, file, all, pending, child, released, queue⟩ := server
  cases running
  cases child with
  | waiting | running => cases (alive rfl).2.2.1
  | reaped status => cases (reaped status rfl).2.2.2.1
  | ended status =>
    obtain ⟨free, -, noCall, -, -, ⟨-, idle, -⟩ | ⟨absent, own, noAccept, -⟩⟩ := ended status rfl
    · cases idle
    · cases own
      cases step
      exact ⟨letsGo, (fun isAlive => by cases isAlive), (fun other gone => by cases gone),
        fun other gone => by
          cases gone
          exact ⟨free, rfl, absent, rfl, rfl, noCall, noAccept⟩⟩

/-- The child ends. -/
theorem gone {status : Option Nat} (kept : Timely server) (isAlive : server.child.alive = true)
    (allowed : timely server (.ended status) = true) :
    Timely ({ server with child := .ended status }).raiseChld := by
  obtain ⟨letsGo, alive, -, -⟩ := kept
  obtain ⟨set, absent, idle, noLeave, noClose, noExit⟩ := alive isAlive
  obtain ⟨phase, childPid, childStatus, file, handling, pending, child, released, queue⟩ := server
  cases absent
  cases idle
  have free : released = true := (Bool.and_eq_true_iff.mp allowed).1
  have noCall : phase ≠ .call := by
    rintro rfl
    cases (Bool.and_eq_true_iff.mp allowed).2
  have ignored : phase ≠ .installChld := by
    rintro rfl
    cases letsGo free
  unfold Server.raiseChld
  split
  · next reached => exact absurd reached ignored
  · refine ⟨letsGo, (fun dead => by cases dead), fun other same => ?_, fun other same => by cases same⟩
    exact ⟨free, set, noCall, noClose, noExit, Or.inl ⟨rfl, rfl, noLeave⟩⟩

end Timely

/-- **Every timely event keeps it.** -/
theorem timely_step {event : Event} (kept : Timely server) (allowed : timely server event = true)
    (step : server.step compilers debug room event = some server') : Timely server' := by
  cases event with
  | tracer =>
    simp only [Server.step] at step
    split_ifs at step with idle
    have ready : server.phase.masked = true ∨ server.phase.waits = true ∨ server.pending = [] := by
      unfold Server.advance at step
      split_ifs at step with ready
      simpa [or_assoc] using ready
    obtain ⟨phase, file, queue, rfl, next⟩ := onward_advance step
    exact kept.onward idle ready next
  | deliver signal interrupts =>
    simp only [Server.step] at step
    split_ifs at step with waits
    cases step
    exact kept.deliver interrupts waits.1 waits.2.2.1
  | handler unset =>
    simp only [Server.step] at step
    split at step
    · cases step
    · next signal handling running => exact kept.handled running step
  | released =>
    simp only [Server.step] at step
    split at step
    · next child =>
      split_ifs at step with letsGo
      cases step
      exact ⟨fun _ => letsGo, fun _ => kept.alive (by rw [child]; rfl),
        (fun status same => by cases same), fun status same => by cases same⟩
    · cases step
  | ended status =>
    simp only [Server.step] at step
    split at step
    · next child =>
      cases step
      exact kept.gone (by rw [child]; rfl) allowed
    · next child =>
      cases step
      exact kept.gone (by rw [child]; rfl) allowed
    · cases step
  | stopped | interrupt | fails => cases allowed
  | connect message =>
    simp only [Server.step] at step
    split_ifs at step
    cases step
    exact { kept with }
  | refused message =>
    simp only [Server.step] at step
    split_ifs at step
    cases step
    exact kept

/-- An event that the tracer brings about itself. -/
def Event.own : Event → Bool
  | .tracer | .deliver .. | .handler _ => true
  | _ => false

/-- The tracer can go on by itself until it has ended with the status. -/
def Finishes (compilers : List Str) (debug : Bool) (room : Nat) (server : Server) (status : Nat) :
    Prop :=
  ∃ more last, Reaches (Server.step compilers debug room) server more last ∧
    (∀ event ∈ more, event.own = true) ∧ last.phase = .exited status

theorem Finishes.cons (event : Event) {status : Nat} (own : event.own = true)
    (step : server.step compilers debug room event = some server')
    (finishes : Finishes compilers debug room server' status) :
    Finishes compilers debug room server status := by
  obtain ⟨more, last, run, owns, exited⟩ := finishes
  exact ⟨event :: more, last, .cons step run, List.forall_mem_cons.mpr ⟨own, owns⟩, exited⟩

/-- After the handler the tracer leaves the loop at the next test. -/
theorem finishes_handled {status : Nat} (phase : Phase) (file : OutputFile) (child : Child)
    (released : Bool) (queue : List Message) (letsGo : phase.letsGo = true)
    (running : phase.terminated = false) (called : phase ≠ .call) (accepting : phase ≠ .accept) :
    Finishes compilers debug room ⟨phase, false, status, file, [], [], child, released, queue⟩
      status := by
  have close (file : OutputFile) : Finishes compilers debug room
      ⟨.close, false, status, file, [], [], child, released, queue⟩ status :=
    .cons .tracer rfl rfl ⟨[], _, .start, by simp, rfl⟩
  have leave (file : OutputFile) : Finishes compilers debug room
      ⟨.leave, false, status, file, [], [], child, released, queue⟩ status :=
    .cons .tracer rfl rfl (close file)
  have test (file : OutputFile) : Finishes compilers debug room
      ⟨.test, false, status, file, [], [], child, released, queue⟩ status :=
    .cons .tracer rfl rfl (leave file)
  have append (message : Message) : Finishes compilers debug room
      ⟨.append message, false, status, file, [], [], child, released, queue⟩ status :=
    .cons .tracer rfl rfl (test _)
  cases phase with
  | test => exact test file
  | leave => exact leave file
  | close => exact close file
  | append message => exact append message
  | read message => exact .cons .tracer rfl rfl (append message)
  | call => exact absurd rfl called
  | accept => exact absurd rfl accepting
  | exited | died => cases running
  | installChld | installInt | block | openOutput | createSocket | unblock | notify => cases letsGo

/-- The handler that has not run yet. -/
theorem finishes_handling {status : Option Nat} (phase : Phase) (childPid : Bool) (childStatus : Nat)
    (file : OutputFile) (released : Bool) (queue : List Message) (letsGo : phase.letsGo = true)
    (running : phase.terminated = false) (called : phase ≠ .call) (accepting : phase ≠ .accept) :
    Finishes compilers debug room
      ⟨phase, childPid, childStatus, file, [.chld], [], .ended status, released, queue⟩
      (status.getD exitFailure) :=
  .cons (.handler none) rfl rfl
    (finishes_handled phase file (.reaped status) released queue letsGo running called accepting)

/-- The signal that is not delivered yet. -/
theorem finishes_pending {status : Option Nat} (phase : Phase) (childPid : Bool) (childStatus : Nat)
    (file : OutputFile) (released : Bool) (queue : List Message) (letsGo : phase.letsGo = true)
    (running : phase.terminated = false) (called : phase ≠ .call) (closing : phase ≠ .close) :
    Finishes compilers debug room
      ⟨phase, childPid, childStatus, file, [], [.chld], .ended status, released, queue⟩
      (status.getD exitFailure) := by
  have test (file : OutputFile) : Finishes compilers debug room
      ⟨.test, childPid, childStatus, file, [], [.chld], .ended status, released, queue⟩
      (status.getD exitFailure) :=
    .cons (.deliver .chld false) rfl rfl
      (finishes_handling .test _ _ _ _ _ rfl rfl (by simp) (by simp))
  cases phase with
  | test => exact test file
  | append message => exact .cons .tracer rfl rfl (test _)
  | accept | leave =>
    exact .cons (.deliver .chld false) rfl rfl
      (finishes_handling .leave _ _ _ _ _ rfl rfl (by simp) (by simp))
  | read message =>
    exact .cons (.deliver .chld false) rfl rfl
      (finishes_handling (.read message) _ _ _ _ _ rfl rfl (by simp) (by simp))
  | call => exact absurd rfl called
  | close => exact absurd rfl closing
  | exited | died => cases running
  | installChld | installInt | block | openOutput | createSocket | unblock | notify => cases letsGo

theorem timely_run
    (run : Reaches (restrict (Server.step compilers debug room) timely) .start events server) :
    Timely server := by
  refine Reaches.invariant (fun _ => Timely) ?_ (fun _ _ _ _ _ kept step => ?_) run
  · exact ⟨fun gone => absurd gone (by decide),
      fun _ => ⟨rfl, rfl, rfl, nofun, nofun, nofun⟩, nofun, nofun⟩
  · obtain ⟨allowed, step⟩ := restrict_eq_some.mp step
    exact timely_step kept allowed step

/-- **With timely signals the tracer ends with the child**: whenever the child has ended, the tracer
can end by itself, with the status of the child, unless it is over. -/
theorem finishes
    (run : Reaches (restrict (Server.step compilers debug room) timely) .start events server)
    (running : server.phase.terminated = false) {status : Option Nat}
    (gone : server.child = .ended status ∨ server.child = .reaped status) :
    Finishes compilers debug room server (status.getD exitFailure) := by
  obtain ⟨letsGo, -, ended, reaped⟩ := timely_run run
  obtain ⟨phase, childPid, childStatus, file, handling, pending, child, released, queue⟩ := server
  rcases gone with rfl | rfl
  · obtain ⟨free, -, called, closing, -, ⟨rfl, rfl, -⟩ | ⟨rfl, rfl, accepting, -⟩⟩ := ended status rfl
    · exact finishes_pending phase _ _ _ _ _ (letsGo free) running called closing
    · exact finishes_handling phase _ _ _ _ _ (letsGo free) running called accepting
  · obtain ⟨free, rfl, rfl, rfl, rfl, called, accepting⟩ := reaped status rfl
    exact finishes_handled phase _ _ _ _ (letsGo free) running called accepting

/-! ### A signal that is missed -/

/-- The child has ended after the test of `child_pid`, and the tracer is not yet in `accept`, or it
is there and every signal has been handled. -/
structure Missed (server : Server) : Prop where
  queue : server.queue = []
  gone : server.child.alive = false
  place : server.phase = .call ∨
    (server.phase = .accept ∧ server.pending = [] ∧ server.handling = [])

/-- No one connects, no call fails, and no signal comes from outside. -/
def Event.quiet : Event → Bool
  | .connect _ | .interrupt | .fails => false
  | _ => true

/-- A handler leaves the place of the tracer and the end of the child as they are. -/
theorem missed_handled {unset : Option Nat} {signal : Signal} (missed : Missed server)
    (called : server.phase = .call) (step : server.handle unset signal = some server') :
    Missed server' := by
  obtain ⟨phase, -, -, queue⟩ := handle_frame step
  refine ⟨queue.trans missed.queue, ?_, Or.inl (phase.trans called)⟩
  obtain ⟨-, gone, -⟩ := missed
  cases signal with
  | chld =>
    simp only [Server.handle] at step
    split at step
    · cases step
      rfl
    · cases step
      exact gone
    · cases step
      exact gone
    · cases step
  | int =>
    simp only [Server.handle] at step
    split_ifs at step <;> cases step <;> exact gone

/-- What the tracer does: it goes to `accept` with every signal handled, and there it waits. -/
theorem missed_advance (missed : Missed server) (idle : server.handling = [])
    (step : server.advance compilers debug = some server') : Missed server' := by
  obtain ⟨phase, childPid, childStatus, file, handling, pending, child, released, queue⟩ := server
  obtain ⟨empty, gone, called | ⟨accepting, -, -⟩⟩ := missed
  · cases called; cases idle
    unfold Server.advance at step
    split_ifs at step with ready
    cases step
    exact ⟨empty, gone, Or.inr ⟨rfl, by simpa [Phase.masked, Phase.waits] using ready, rfl⟩⟩
  · cases accepting; cases empty
    simp [Server.advance] at step

theorem missed_step {event : Event} (missed : Missed server) (quiet : event.quiet = true)
    (step : server.step compilers debug room event = some server') : Missed server' := by
  have gone := missed.gone
  cases event with
  | tracer =>
    simp only [Server.step] at step
    split_ifs at step with idle
    exact missed_advance missed idle step
  | deliver signal interrupts =>
    simp only [Server.step] at step
    split_ifs at step with waits
    cases step
    rcases missed.place with called | ⟨-, absent, -⟩
    · exact ⟨missed.queue, gone, Or.inl (by simp [called, Phase.interrupted])⟩
    · rw [absent] at waits
      exact absurd waits.1 List.not_mem_nil
  | handler unset =>
    simp only [Server.step] at step
    split at step
    · cases step
    · next signal handling running =>
      rcases missed.place with called | ⟨-, -, idle⟩
      · have still : Missed { server with handling := handling } :=
          ⟨missed.queue, gone, Or.inl called⟩
        exact missed_handled still called step
      · rw [idle] at running
        cases running
  | released | ended status | stopped =>
    simp only [Server.step] at step
    split at step
    all_goals first | cases step | skip
    all_goals
      next child =>
      rw [child] at gone
      cases gone
  | refused message =>
    simp only [Server.step] at step
    split_ifs at step
    cases step
    exact missed
  | connect | interrupt | fails => cases quiet

/-- **The end of the child is missed**: if it comes between the test of `child_pid` and `accept`, with
no one waiting at the socket, the tracer does not end until someone connects or interrupts it or a call
fails. -/
theorem never_ends {last : Server} {later : List Event} {status : Option Nat}
    (called : server.phase = .call) (empty : server.queue = [])
    (ends : server.step compilers debug room (.ended status) = some server')
    (more : Reaches (Server.step compilers debug room) server' later last)
    (quiet : ∀ event ∈ later, event.quiet = true) : last.phase.terminated = false := by
  have missed : Missed server' := by
    obtain ⟨phase, -, -, queue⟩ := raiseChld_frame { server with child := .ended status }
    have raised : server' = ({ server with child := .ended status } : Server).raiseChld := by
      simp only [Server.step] at ends
      split at ends <;> cases ends <;> rfl
    rw [raised]
    refine ⟨queue.trans empty, ?_, Or.inl (phase.trans called)⟩
    unfold Server.raiseChld
    split <;> rfl
  have stays : Missed last := by
    refine Reaches.invariant (fun events server => (∀ event ∈ events, event.quiet = true) →
      Missed server) (fun _ => missed) (fun events server event server' _ kept step quiet => ?_) more
        quiet
    exact missed_step (kept fun other member => quiet other (List.mem_append_left _ member))
      (quiet event (List.mem_append_right _ List.mem_cons_self)) step
  rcases stays.place with called | ⟨accepting, -, -⟩
  · rw [called]
    rfl
  · rw [accepting]
    rfl

end Shutdown

/-! ### Three runs -/

theorem exitStatus_one : ∃ server : Server, Serves ["gcc".toList] false 1 oneWritten server ∧
    ((∃ ended, server.child = .reaped ended ∧ 3 = ended.getD exitFailure) ∨
      Event.stopped ∈ oneWritten ∨
      ((Event.interrupt ∈ oneWritten ∨ Event.fails ∈ oneWritten) ∧ 3 = exitFailure)) := by
  obtain ⟨server, run, exited⟩ := serves_oneWritten
  exact ⟨server, run, exitStatus run exited⟩

/-- The child ends while the tracer is in `accept`. -/
theorem finishes_one : ∃ server : Server,
    Reaches (restrict (Server.step [] false 1) timely) .start
      (letGo ++ [.tracer, .tracer, .ended (some 3)]) server ∧
    Finishes [] false 1 server 3 := by
  have run : Reaches (restrict (Server.step [] false 1) timely) .start
    (letGo ++ [.tracer, .tracer, .ended (some 3)]) _ := reaches_of_foldlM rfl
  exact ⟨_, run, finishes run rfl (Or.inl rfl)⟩

/-- The child ends before the tracer is in `accept`. -/
theorem ends_early : ∃ server server' last : Server,
    Reaches (restrict (Server.step [] false 1) timely) .start (letGo ++ [.tracer]) server ∧
      server.phase = .call ∧ server.queue = [] ∧
      server.step [] false 1 (.ended (some 3)) = some server' ∧
      Reaches (Server.step [] false 1) server' [.deliver .chld false, .handler none, .tracer] last :=
  ⟨_, _, _, reaches_of_foldlM rfl, rfl, rfl, rfl, reaches_of_foldlM rfl⟩

theorem never_ends_one : ∃ last : Server,
    Reaches (Server.step [] false 1) .start (letGo ++ [.tracer] ++ [.ended (some 3)] ++
      [.deliver .chld false, .handler none, .tracer]) last ∧ last.phase.terminated = false := by
  obtain ⟨server, server', last, run, called, empty, ends, more⟩ := ends_early
  refine ⟨last, (run.unrestrict.trans (Reaches.single ends)).trans more, ?_⟩
  refine never_ends called empty ends more fun event member => ?_
  simp only [List.mem_cons, List.not_mem_nil, or_false] at member
  rcases member with rfl | rfl | rfl <;> rfl

end Xcalbuild.Tracer
