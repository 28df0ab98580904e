/-
**The intercepted calls of the preloaded library.**

The wrappers of `execs.c`. Each reports the command and hands on to the function of the same family
in libc; the `exec` ones, when that has failed, restore the flag that says that a command is reported
already. A process is its flag and the wrappers that are running in it, the innermost first, so that
a call which libc makes inside a call of the program is one made while a wrapper is running.

* `Intercepted.wrapper`: the ten wrappers, each by its name, callee and what it restores;
* `Process.step`: one step of a traced process. The library is loaded into every image, the socket
  is known and accepts every message, and the calls that `dlsym` looks up are found.
-/
import Xcalbuild.Library.Lineage
import Xcalbuild.Tracer.Output

namespace Xcalbuild.Tracer

open Library

/-! ### The wrappers -/

/-- The functions of libc that the wrappers hand on to. -/
inductive Callee where
  | execve
  | execvpe
  | execvp
  | execvP
  | posixSpawn
  | posixSpawnp
  deriving DecidableEq

/-- It starts the image in a child. -/
def Callee.spawns : Callee → Bool
  | .posixSpawn | .posixSpawnp => true
  | _ => false

/-- The state a wrapper gives to `report_failed_call`. -/
inductive Restore where
  /-- The flag as it was on entry. -/
  | reportState
  | zero
  /-- `report_failed_call` is not called. -/
  | nothing
  deriving DecidableEq

/-- A wrapper: the name it reports, what it calls and what it restores. -/
structure Wrapper where
  function : Str
  callee : Callee
  restore : Restore

namespace Wrapper

def execve : Wrapper := ⟨"execve".toList, .execve, .reportState⟩

def execv : Wrapper := ⟨"execv".toList, .execve, .reportState⟩

def execvpe : Wrapper := ⟨"execvpe".toList, .execvpe, .reportState⟩

def execvp : Wrapper := ⟨"execvp".toList, .execvp, .reportState⟩

def execvP : Wrapper := ⟨"execvP".toList, .execvP, .reportState⟩

def execl : Wrapper := ⟨"execl".toList, .execve, .zero⟩

def execlp : Wrapper := ⟨"execlp".toList, .execvp, .zero⟩

def execle : Wrapper := ⟨"execle".toList, .execve, .zero⟩

def posixSpawn : Wrapper := ⟨"posix_spawn".toList, .posixSpawn, .nothing⟩

def posixSpawnp : Wrapper := ⟨"posix_spawnp".toList, .posixSpawnp, .nothing⟩

end Wrapper

/-- The intercepted functions. -/
inductive Intercepted where
  | execve
  | execv
  | execvpe
  | execvp
  | execvP
  | execl
  | execlp
  | execle
  | posixSpawn
  | posixSpawnp
  deriving DecidableEq

def Intercepted.wrapper : Intercepted → Wrapper
  | .execve => .execve
  | .execv => .execv
  | .execvpe => .execvpe
  | .execvp => .execvp
  | .execvP => .execvP
  | .execl => .execl
  | .execlp => .execlp
  | .execle => .execle
  | .posixSpawn => .posixSpawn
  | .posixSpawnp => .posixSpawnp

/-- `posix_spawn` or `posix_spawnp`. -/
def Intercepted.spawns (function : Intercepted) : Bool := function.wrapper.callee.spawns

/-- `execl`, `execlp` or `execle`. -/
def Intercepted.variadic (function : Intercepted) : Bool := decide (function.wrapper.restore = .zero)

/-! ### A traced process -/

/-- A wrapper that is running, with the `report_state` it has saved. -/
structure Call where
  function : Intercepted
  reportState : Bool

structure Process where
  pid : Nat
  ppid : Nat
  alreadyReported : Bool
  /-- The wrappers that are running, the innermost first. -/
  calls : List Call

/-- A process in which an image has just been started. -/
def Process.image (pid ppid : Nat) : Process where
  pid := pid
  ppid := ppid
  alreadyReported := false
  calls := []

/-- What a wrapper reads of its surroundings. -/
structure Surroundings where
  getcwd : Str
  /-- `read_resp_file`, with `none` for a null pointer. -/
  readRespFile : Str → Option Str

/-- The response file of a command: the one of the first argument that names any. A missing one is
sent as an empty string. -/
def respFile (surroundings : Surroundings) (argv : List Str) : Str :=
  match argv.find? fun arg => arg.head? = some '@' with
  | none => []
  | some arg => (surroundings.readRespFile arg.tail).getD []

/-- The message of `report`. -/
def report (process : Process) (surroundings : Surroundings) (function : Intercepted)
    (argv : List Str) : Message where
  pid := process.pid
  ppid := process.ppid
  function := function.wrapper.function
  cwd := surroundings.getcwd
  respFile := respFile surroundings argv
  cmd := argv

/-- `report_call`: the flag after it, and the messages it sends. -/
def reportCall (alreadyReported : Bool) (message : Message) : Bool × List Message :=
  if alreadyReported then (alreadyReported, []) else (true, [message])

/-- `report_failed_call` -/
def reportFailedCall (alreadyReported reportState : Bool) : Bool :=
  if !reportState then false else alreadyReported

/-- The flag after what a wrapper does when its callee has returned. -/
def Call.leave (call : Call) (alreadyReported : Bool) : Bool :=
  match call.function.wrapper.restore with
  | .reportState => reportFailedCall alreadyReported call.reportState
  | .zero => reportFailedCall alreadyReported false
  | .nothing => alreadyReported

/-- What a process does next. -/
inductive Action where
  /-- The program, or libc if a wrapper is running, calls an intercepted function. -/
  | call (function : Intercepted) (argv : List Str) (surroundings : Surroundings)
  /-- The callee of the innermost wrapper fails. -/
  | failed
  /-- The callee of the innermost wrapper starts a new image in the process. -/
  | replaced
  /-- The callee of the innermost wrapper starts a new image in a child, and returns. -/
  | spawned (child : Nat)
  | forked (child : Nat)
  | exited

/-- The process after the innermost wrapper has returned. -/
def Process.returned (process : Process) (call : Call) (calls : List Call) : Process :=
  { process with alreadyReported := call.leave process.alreadyReported, calls := calls }

/-- **A step of a traced process**: what it is followed by, and the messages it sends. -/
def Process.step (process : Process) : Action → Option (List (Successor Process) × List Message)
  | .call function argv surroundings =>
      let (alreadyReported, sent) :=
        reportCall process.alreadyReported (report process surroundings function argv)
      some ([.heir { process with
        alreadyReported := alreadyReported
        calls := ⟨function, process.alreadyReported⟩ :: process.calls }], sent)
  | .failed =>
      match process.calls with
      | [] => none
      | call :: calls => some ([.heir (process.returned call calls)], [])
  | .replaced =>
      match process.calls with
      | [] => none
      | call :: _ =>
          if call.function.spawns then none
          else some ([.fresh (.image process.pid process.ppid)], [])
  | .spawned child =>
      match process.calls with
      | [] => none
      | call :: calls =>
          if call.function.spawns then
            some ([.heir (process.returned call calls), .fresh (.image child process.pid)], [])
          else none
  | .forked child =>
      some ([.heir process, .heir { process with pid := child, ppid := process.pid }], [])
  | .exited => some ([], [])

end Xcalbuild.Tracer
