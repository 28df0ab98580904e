/-
**The library stays loaded.**

An image has its environment, and the dynamic loader puts the library into it or does not, by what it
finds there. A wrapper hands on an environment of its own making, a program can change the one of its
process, and an image without the library starts others as it likes. The model of the wrappers alone
(`Process.step`) has none of this: there the library is in every image and every message arrives.

* `Image.step`: one step of a process with its environment;
* `Careful`: the program leaves the three variables as they are in its process, and gives the
  wrappers environments on which no insertion is misled;
* `traced_step` and `traced_run`: with careful programs, every image of every run has the library and
  the variables, every message goes to the tracer, and the run is one of the wrappers alone.
-/
import Xcalbuild.Tracer.Environ
import Xcalbuild.Tracer.Execs

namespace Xcalbuild.Tracer

open Library

/-! ### Images -/

/-- The dynamic loader: whether it puts the library into an image, by the values of `ENV_PRELOAD` and
`ENV_LIBRARY_PATH`. -/
abbrev Loader := Option Str → Option Str → Bool

/-- A process with what the loader and the wrappers read of its environment. -/
structure Image where
  process : Process
  environ : List Str
  /-- The library is in the image. -/
  loaded : Bool
  /-- The environments that the running wrappers hand on, the innermost first. -/
  handedOn : List (List Str)

/-- An image that has just been started. -/
def Image.start (loader : Loader) (process : Process) (environ : List Str) : Image where
  process := process
  environ := environ
  loaded := loader (getenv environ envPreload) (getenv environ envLibraryPath)
  handedOn := []

/-- The wrapper has an argument `envp`. The other ones take the environment of the process. -/
def Intercepted.takesEnvp : Intercepted → Bool
  | .execve | .execvpe | .execle | .posixSpawn | .posixSpawnp => true
  | .execv | .execvp | .execvP | .execl | .execlp => false

/-- The `call_` function makes a `menvp`. -/
def Callee.inserts : Callee → Bool
  | .execve | .execvpe | .posixSpawn | .posixSpawnp => true
  | .execvp | .execvP => false

/-- The environment that the wrapper is given. -/
def Intercepted.given (function : Intercepted) (environ envp : List Str) : List Str :=
  if function.takesEnvp then envp else environ

/-- The environment that the wrapper hands on. -/
def Intercepted.handsOn (function : Intercepted) (environ envp : List Str) :
    Except EnvFailure (List Str) :=
  if function.wrapper.callee.inserts then menvp environ (function.given environ envp)
  else .ok (function.given environ envp)

/-- The messages of `report_call`, each with the socket it is sent to. The process exits if it has
no socket. -/
def sends (environ : List Str) (messages : List Message) : Option (List (Str × Message)) :=
  if messages = [] then some []
  else (getenv environ envOutput).map fun socket => messages.map fun message => (socket, message)

/-- What a process does next. -/
inductive ImageAction where
  | call (function : Intercepted) (argv : List Str) (surroundings : Surroundings) (envp : List Str)
  /-- The program changes the environment of the process. -/
  | setEnviron (environ : List Str)
  /-- An image without the library starts another one, in a child or in its place. -/
  | untraced (child : Option Nat) (envp : List Str)
  /-- Any other action of a process. -/
  | proceed (action : Action)

/-- The environments of the wrappers that are still running after an action. -/
def remaining (handedOn : List (List Str)) : Action → List (List Str)
  | .failed | .spawned _ => handedOn.tail
  | .call .. | .replaced | .forked _ | .exited => handedOn

/-- A process after an action. A fresh image has the environment that the innermost wrapper hands
on. -/
def Image.successor (loader : Loader) (image : Image) (action : Action) :
    Successor Process → Successor Image
  | .heir process =>
      .heir { image with process := process, handedOn := remaining image.handedOn action }
  | .fresh process => .fresh (.start loader process (image.handedOn.headD []))

/-- **A step of a process with its environment**: what it is followed by, and the messages it sends. -/
def Image.step (loader : Loader) (image : Image) :
    ImageAction → Option (List (Successor Image) × List (Str × Message))
  | .call function argv surroundings envp =>
      if image.loaded then
        let (alreadyReported, messages) := reportCall image.process.alreadyReported
          (report image.process surroundings function argv)
        match sends image.environ messages with
        | none => some ([], [])
        | some sent =>
            match function.handsOn image.environ envp with
            | .ok envs =>
                some ([.heir { image with
                  process := { image.process with
                    alreadyReported := alreadyReported
                    calls := ⟨function, image.process.alreadyReported⟩ :: image.process.calls }
                  handedOn := envs :: image.handedOn }], sent)
            | .error .exited => some ([], sent)
            -- what follows is undefined
            | .error .outOfBounds => none
      else none
  | .setEnviron environ => some ([.heir { image with environ := environ }], [])
  | .untraced child envp =>
      if image.loaded then none
      else match child with
        | some child =>
            some ([.heir image, .fresh (.start loader (.image child image.process.pid) envp)], [])
        | none =>
            some ([.fresh (.start loader (.image image.process.pid image.process.ppid) envp)], [])
  | .proceed (.call ..) => none
  | .proceed action =>
      (image.process.step action).map fun (successors, _) =>
        (successors.map (image.successor loader action), [])

/-- The environment of the root of the traced processes. -/
def rootEnviron (settings : Settings) (environ : List Str) : List Str :=
  setenv envOutput settings.output
    (setenv envLibraryPath settings.libraryPath (setenv envPreload settings.preload environ))

/-! ### Careful programs -/

/-- A step in a run. -/
abbrev ImageStep := Taken Image ImageAction (List (Str × Message))

/-- **The condition on a step.** -/
def Careful (settings : Settings) (step : ImageStep) : Prop :=
  match step.action with
  | .call function _ _ envp =>
      function.wrapper.callee.inserts = true → Spared (function.given step.node.state.environ envp)
  | .setEnviron environ => Carries settings environ
  | .untraced .. | .proceed _ => True

/-- The library is in the image, and it has the three variables and hands them on. -/
structure Traced (settings : Settings) (image : Image) : Prop where
  loaded : image.loaded = true
  environ : Carries settings image.environ
  handedOn : ∀ envs ∈ image.handedOn, Carries settings envs
  running : image.handedOn.length = image.process.calls.length

/-- What the wrappers alone show of an action. -/
def ImageAction.shown : ImageAction → Option Action
  | .call function argv surroundings _ => some (.call function argv surroundings)
  | .setEnviron _ | .untraced .. => none
  | .proceed action => some action

/-- Every message goes to the tracer. -/
def Arrives (settings : Settings) (step : ImageStep) : Prop :=
  ∀ sent ∈ step.output, sent.1 = settings.output

section Traced

variable {settings : Settings} {loader : Loader}

theorem carries_rootEnviron (settings : Settings) (environ : List Str) :
    Carries settings (rootEnviron settings environ) where
  preload := by
    rw [rootEnviron, getenv_setenv_other _ plain_output plain_preload output_ne_preload.symm,
      getenv_setenv_other _ plain_libraryPath plain_preload libraryPath_ne_preload.symm,
      getenv_setenv]
  libraryPath := by
    rw [rootEnviron, getenv_setenv_other _ plain_output plain_libraryPath output_ne_libraryPath.symm,
      getenv_setenv]
  output := getenv_setenv _

/-- An image that is started with the variables is traced. -/
theorem traced_start (loads : loader (some settings.preload) (some settings.libraryPath) = true)
    {process : Process} (fresh : process.calls = []) {environ : List Str}
    (carries : Carries settings environ) : Traced settings (.start loader process environ) where
  loaded := by rw [Image.start, carries.preload, carries.libraryPath, loads]
  environ := carries
  handedOn := by simp [Image.start]
  running := by simp [Image.start, fresh]

/-- What a wrapper hands on has the variables. -/
theorem carries_handsOn {function : Intercepted} {environ envp envs : List Str}
    (carries : Carries settings environ)
    (spared : function.wrapper.callee.inserts = true → Spared (function.given environ envp))
    (handed : function.handsOn environ envp = .ok envs) : Carries settings envs := by
  unfold Intercepted.handsOn at handed
  by_cases inserts : function.wrapper.callee.inserts = true
  · rw [if_pos inserts, menvp_of_spared carries (spared inserts)] at handed
    cases handed
    exact carries_withSettings settings _
  · rw [if_neg inserts] at handed
    cases handed
    have own : function.takesEnvp = false := by
      cases function <;> first | rfl | exact absurd rfl inserts
    rw [Intercepted.given, own]
    exact carries

theorem handsOn_ok {function : Intercepted} {environ envp : List Str}
    (carries : Carries settings environ)
    (spared : function.wrapper.callee.inserts = true → Spared (function.given environ envp)) :
    ∃ envs, function.handsOn environ envp = .ok envs := by
  unfold Intercepted.handsOn
  by_cases inserts : function.wrapper.callee.inserts = true
  · rw [if_pos inserts, menvp_of_spared carries (spared inserts)]
    exact ⟨_, rfl⟩
  · rw [if_neg inserts]
    exact ⟨_, rfl⟩

/-- The messages of a process that has the socket. -/
theorem sends_eq {environ : List Str} (carries : Carries settings environ) (messages : List Message) :
    sends environ messages = some (messages.map fun message => (settings.output, message)) := by
  unfold sends
  split_ifs with empty
  · rw [empty, List.map_nil]
  · rw [carries.output]
    rfl

/-! ### Steps and runs -/

/-- A successor of a process has as many wrappers running as environments are left, or it is a new
image, which some wrapper has started. -/
def Fits (handedOn : List (List Str)) (action : Action) : Successor Process → Prop
  | .heir process => (remaining handedOn action).length = process.calls.length
  | .fresh process => process.calls = [] ∧ handedOn ≠ []

/-- What is not a call sends nothing. -/
theorem proceed_fits {process : Process} {action : Action}
    {successors : List (Successor Process)} {sent : List Message}
    (other : ∀ function argv surroundings, action ≠ .call function argv surroundings)
    (step : process.step action = some (successors, sent)) {handedOn : List (List Str)}
    (running : handedOn.length = process.calls.length) :
    sent = [] ∧ ∀ successor ∈ successors, Fits handedOn action successor := by
  obtain ⟨pid, ppid, flag, calls⟩ := process
  cases action with
  | call function argv surroundings => exact absurd rfl (other function argv surroundings)
  | failed =>
    cases calls with
    | nil => cases step
    | cons call calls =>
      cases step
      refine ⟨rfl, fun successor member => ?_⟩
      rw [List.mem_singleton.mp member]
      simp [Fits, remaining, Process.returned, running]
  | replaced =>
    cases calls with
    | nil => cases step
    | cons call calls =>
      simp only [Process.step] at step
      split_ifs at step
      cases step
      refine ⟨rfl, fun successor member => ?_⟩
      rw [List.mem_singleton.mp member]
      exact ⟨rfl, List.ne_nil_of_length_eq_add_one running⟩
  | spawned child =>
    cases calls with
    | nil => cases step
    | cons call calls =>
      simp only [Process.step] at step
      split_ifs at step
      cases step
      refine ⟨rfl, List.forall_mem_cons.mpr ⟨?_, fun successor member => ?_⟩⟩
      · simp [Fits, remaining, Process.returned, running]
      · rw [List.mem_singleton.mp member]
        exact ⟨rfl, List.ne_nil_of_length_eq_add_one running⟩
  | forked child =>
    cases step
    exact ⟨rfl, by simpa [Fits, remaining] using running⟩
  | exited =>
    cases step
    exact ⟨rfl, by simp⟩

theorem process_successor (loader : Loader) (image : Image) (action : Action)
    (successor : Successor Process) :
    (image.successor loader action successor).map Image.process = successor := by
  cases successor <;> rfl

theorem traced_successor (loads : loader (some settings.preload) (some settings.libraryPath) = true)
    {image : Image} (traced : Traced settings image) {action : Action}
    {successor : Successor Process} (fits : Fits image.handedOn action successor) :
    Traced settings (image.successor loader action successor).state := by
  cases successor with
  | heir process =>
    refine ⟨traced.loaded, traced.environ, fun envs member => ?_, fits⟩
    have inside : envs ∈ image.handedOn := by
      cases action with
      | failed | spawned => exact List.mem_of_mem_tail member
      | call | replaced | forked | exited => exact member
    exact traced.handedOn envs inside
  | fresh process =>
    obtain ⟨fresh, nonempty⟩ := fits
    refine traced_start loads fresh ?_
    obtain ⟨envs, rest, handed⟩ := List.exists_cons_of_ne_nil nonempty
    rw [handed]
    exact traced.handedOn envs (by rw [handed]; exact List.mem_cons_self)

/-- **A step of a traced process with a careful program**: it is one of the wrappers alone, its
messages go to the tracer, and what follows it is traced. -/
theorem traced_step (loads : loader (some settings.preload) (some settings.libraryPath) = true)
    (node : Node Image ImageAction) (action : ImageAction) (successors : List (Successor Image))
    (output : List (Str × Message)) (traced : Traced settings node.state)
    (careful : Careful settings ⟨node, action, output⟩)
    (step : node.state.step loader action = some (successors, output)) :
    Matches Process.step Image.process ImageAction.shown (List.map Prod.snd) node.state action
        successors output ∧
      (∀ successor ∈ successors, Traced settings successor.state) ∧
        Arrives settings ⟨node, action, output⟩ := by
  cases action with
  | call function argv surroundings envp =>
    obtain ⟨envs, handed⟩ := handsOn_ok traced.environ careful
    simp only [Image.step] at step
    rw [if_pos traced.loaded, sends_eq traced.environ] at step
    simp only [handed] at step
    cases step
    refine ⟨?_, ?_, ?_⟩
    · show node.state.process.step (.call function argv surroundings) = _
      rw [List.map_map]
      simp [Process.step, Successor.map, Function.comp_def]
    · intro successor member
      rw [List.mem_singleton.mp member]
      exact ⟨traced.loaded, traced.environ,
        List.forall_mem_cons.mpr ⟨carries_handsOn traced.environ careful handed, traced.handedOn⟩,
        congrArg (· + 1) traced.running⟩
    · intro sent member
      obtain ⟨message, -, rfl⟩ := List.mem_map.mp member
      rfl
  | setEnviron environ =>
    cases step
    refine ⟨⟨_, rfl, rfl⟩, ?_, by simp [Arrives]⟩
    intro successor member
    rw [List.mem_singleton.mp member]
    exact ⟨traced.loaded, careful, traced.handedOn, traced.running⟩
  | untraced child envp =>
    simp only [Image.step] at step
    rw [if_pos traced.loaded] at step
    cases step
  | proceed action =>
    have other : ∀ function argv surroundings, action ≠ .call function argv surroundings := by
      rintro function argv surroundings rfl
      cases step
    have unfolded : (node.state.process.step action).map (fun result =>
        (result.1.map (node.state.successor loader action), ([] : List (Str × Message)))) =
          some (successors, output) := by
      cases action with
      | call => exact absurd rfl (other _ _ _)
      | failed | replaced | spawned | forked | exited => exact step
    obtain ⟨⟨processes, sent⟩, found, same⟩ := Option.map_eq_some_iff.mp unfolded
    cases same
    obtain ⟨silent, fits⟩ := proceed_fits other found traced.running
    refine ⟨?_, ?_, by simp [Arrives]⟩
    · show node.state.process.step action = _
      have back : (processes.map (node.state.successor loader action)).map
          (Successor.map Image.process) = processes := by
        rw [List.map_map]
        exact (List.map_congr_left fun successor _ =>
          process_successor loader node.state action successor).trans processes.map_id
      rw [found, silent, back]
      rfl
    · intro successor member
      obtain ⟨process, inside, rfl⟩ := List.mem_map.mp member
      exact traced_successor loads traced (fits process inside)

/-- **With careful programs the library stays loaded.** In every run from the root, every image is
traced, every message goes to the tracer, and the processes make a run of the wrappers alone. -/
theorem traced_run (loads : loader (some settings.preload) (some settings.libraryPath) = true)
    (pid ppid : Nat) (environ : List Str) {taken : List ImageStep}
    {last : List (Node Image ImageAction)}
    (run : Run (Image.step loader)
      [⟨.start loader (.image pid ppid) (rootEnviron settings environ), []⟩] taken last)
    (careful : ∀ step ∈ taken, Careful settings step) :
    (∀ node ∈ last, Traced settings node.state) ∧ (∀ step ∈ taken, Arrives settings step) ∧
      Run Process.step [⟨.image pid ppid, []⟩]
        (taken.filterMap (Taken.map Image.process ImageAction.shown (List.map Prod.snd)))
        (last.map (Node.map Image.process ImageAction.shown)) := by
  refine Run.simulate (Traced settings) (Careful settings) (Arrives settings)
    (traced_step loads) run ?_ careful
  intro node member
  rw [List.mem_singleton.mp member]
  exact traced_start loads rfl (carries_rootEnviron settings environ)

end Traced

/-! ### A compiler that is started -/

/-- The library is put into an image that has both variables. -/
def bothSet : Loader := fun preload libraryPath => preload.isSome && libraryPath.isSome

theorem spared_pathOnly : Spared pathOnly where
  several := by
    show ¬ (names _ _ = true)
    decide
  preload := id
  libraryPath := id
  output := id

/-- `execve` of a compiler. -/
def execCompiler : ImageAction :=
  .call .execve ["gcc".toList, "a.c".toList] ⟨"/w".toList, fun _ => none⟩ pathOnly

/-- The compiler takes the place of the image. -/
theorem runs_compiler : ∃ taken last, Run (Image.step bothSet)
    [⟨.start bothSet (.image 7 6) (rootEnviron tracedSettings []), []⟩] taken last ∧
      taken.map Taken.action = [execCompiler, .proceed .replaced] :=
  ⟨_, _, .take [] [] _ execCompiler rfl <| .take [] [] _ (.proceed .replaced) rfl <| .done _, rfl⟩

theorem traced_run_compiler : ∃ (taken : List ImageStep) (last : List (Node Image ImageAction)),
    taken.length = 2 ∧ (∀ node ∈ last, Traced tracedSettings node.state) ∧
      (∀ step ∈ taken, Arrives tracedSettings step) ∧
      Run Process.step [⟨.image 7 6, []⟩]
        (taken.filterMap (Taken.map Image.process ImageAction.shown (List.map Prod.snd)))
        (last.map (Node.map Image.process ImageAction.shown)) := by
  obtain ⟨taken, last, run, actions⟩ := runs_compiler
  refine ⟨taken, last, by simpa using congrArg List.length actions,
    traced_run rfl 7 6 [] run fun step member => ?_⟩
  have listed := List.mem_map_of_mem (f := Taken.action) member
  rw [actions] at listed
  unfold Careful
  simp only [List.mem_cons, List.not_mem_nil, or_false] at listed
  rcases listed with call | other
  · rw [call]
    exact fun _ => spared_pathOnly
  · rw [other]
    trivial

end Xcalbuild.Tracer
