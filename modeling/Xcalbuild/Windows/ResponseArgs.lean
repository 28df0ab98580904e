/-
**Response-file arguments, in the Windows tracer and in the tool profile.**

`log_create_process` replaces each response-file argument of a command line by the arguments in the
file, with a matcher of its own. `parse_work_item` has `Option::match_and_get_arg`. Both are scans
of the command line that note for each argument whether it stays, or the path that is read.

* `tracerScan_total`: the loop of the tracer ends, so it records every process of an interesting
  binary (`isSome_logCreateProcess`);
* `formatLoop_equal`, `formatLoop_space`: what the loop over the argument formats leaves behind it;
* `outcome_tracerScan`, `outcome_optionScan`: what the two scans do at one argument (`tracerTaken`,
  `optionTaken`).
-/
import Xcalbuild.Library.Scan
import Xcalbuild.Profile.ReadBack
import Xcalbuild.Windows.CompilerConfig

namespace Xcalbuild.Windows

open Library
open Profile (CursorFault LoadError OptionArgFormat ToolOption ToolProfile ToolchainProfile deref)

/-! ### The loop over the arguments -/

/-- What is done with the argument at a place: it is recorded as it stands, or the file with the
path is read in its place, or it is taken for a response-file argument that has no path. -/
inductive ArgEvent where
  | argument (i : Nat)
  | response (i : Nat) (path : Str)
  | unread (i : Nat)
  deriving DecidableEq

/-- The place of the argument. -/
def ArgEvent.place : ArgEvent → Nat
  | .argument i => i
  | .response i _ => i
  | .unread i => i

/-- The loop over the formats of an entry, from the format on that is next: the place it leaves `i`
at, and `response_path`. -/
def formatLoop (argv : List Str) (name arg : Str) : List Str → Nat → Option Str → Nat × Option Str
  | [], i, path => (i, path)
  | kind :: kinds, i, path =>
      let splitStr := split (· = '=') arg
      if kind = "attached".toList then (i, some (arg.drop name.length))
      else if kind = "equal".toList ∧ 1 < splitStr.length then (i, splitStr[1]?)
      else if kind = "space".toList ∧ splitStr.length = 1 then
        match argv[i + 1]? with
        -- the `break` for an argument that is missing
        | none => (i + 1, path)
        | some next => formatLoop argv name arg kinds (i + 1) (some next)
      else formatLoop argv name arg kinds i path

/-- A pass of the loop over the arguments. Without a path the loop is left. -/
def argPass (config : CompilerConfig) (exeName : Str) (argv : List Str) (i : Nat) :
    Pass (Nat × ArgEvent) CursorFault :=
  match deref argv i with
  | .error fault => .fault fault
  | .ok arg =>
      match config.isResponseFileArg exeName arg with
      | none => .next (i + 1, .argument i)
      | some entry =>
          let read := formatLoop argv entry.1 arg entry.2 i none
          match read.2 with
          | none => .leave (read.1, .unread i)
          | some path => .next (read.1 + 1, .response i path)

def tracerScan (config : CompilerConfig) (exeName : Str) (argv : List Str) :
    Scanner ArgEvent CursorFault where
  pass := argPass config exeName argv

/-- What `log_create_process` takes from the system. `recorded` is the path conversion for arguments
that are no Windows names, and `responseFileArgs` gives the arguments of the file with a path, which
is relative to the directory. -/
structure ProcessHost where
  exeName : Str → Str
  recorded : Str → Str
  responseFileArgs : Str → Str → Option (List Str)

/-- The arguments that are recorded for one of the process. -/
def ArgEvent.arguments (host : ProcessHost) (cwd : Str) (argv : List Str) : ArgEvent → List Str
  | .argument i => (argv[i]?.map host.recorded).toList
  | .response _ path => ((host.responseFileArgs path cwd).getD []).map host.recorded
  | .unread _ => []

/-- `log_create_process`: the directory and the arguments that are recorded for a process. -/
def logCreateProcess (host : ProcessHost) (config : CompilerConfig) (cwd : Str) (argv : List Str) :
    Option (Str × List Str) :=
  match argv with
  | [] => none
  | exePath :: _ =>
      if config.isInterestingBinary (host.exeName exePath) then
        ((tracerScan config (host.exeName exePath) argv).items argv.length).map fun events =>
          (cwd, events.flatMap (ArgEvent.arguments host cwd argv))
      else none

/-- The option without the rule for optional arguments. -/
def unprefixed (option : ToolOption) : ToolOption := { option with defaultPrefix := none }

/-- The loop of `parse_work_item` with the response option, for all its matches. -/
def optionScan (option : ToolOption) (args : List Str) : Scanner ArgEvent CursorFault where
  pass i :=
    match (unprefixed option).matchAndGetArg args i [] with
    | .error fault => .fault fault
    | .ok none => .next (i + 1, .argument i)
    | .ok (some (i', path)) => .next (i', .response i path)

/-- **The tracer recognises what the option does**: both scans get to the end, with the same
response-file arguments, the same paths and the same other arguments. -/
def RecognisesAlike (config : CompilerConfig) (exeName : Str) (option : ToolOption)
    (args : List Str) : Prop :=
  ∃ events, (optionScan option args).items args.length = some events ∧
    (tracerScan config exeName args).items args.length = some events

/-! ### The loop ends -/

theorem le_formatLoop (argv : List Str) (name arg : Str) (kinds : List Str) (i : Nat)
    (path : Option Str) : i ≤ (formatLoop argv name arg kinds i path).1 := by
  induction kinds generalizing i path with
  | nil => exact Nat.le_refl i
  | cons kind kinds ih =>
    rw [formatLoop]
    split_ifs
    · exact Nat.le_refl i
    · exact Nat.le_refl i
    · split
      · exact Nat.le_succ i
      · exact Nat.le_trans (Nat.le_succ i) (ih (i + 1) _)
    · exact ih i path

/-- What a pass of the loop over the arguments can do. -/
theorem argPass_cases (config : CompilerConfig) (exeName : Str) {argv : List Str} {i : Nat}
    (inside : i < argv.length) :
    ∃ next event, i ≤ next ∧ ArgEvent.place event = i ∧
      (argPass config exeName argv i = .next (next + 1, event) ∨
        argPass config exeName argv i = .leave (next, event)) := by
  have read : deref argv i = .ok argv[i] :=
    ToolOption.deref_of_getElem? (List.getElem?_eq_getElem inside)
  unfold argPass
  rw [read]
  dsimp only
  cases config.isResponseFileArg exeName argv[i] with
  | none => exact ⟨i, _, Nat.le_refl i, rfl, Or.inl rfl⟩
  | some entry =>
    have further := le_formatLoop argv entry.1 argv[i] entry.2 i none
    dsimp only
    cases (formatLoop argv entry.1 argv[i] entry.2 i none).2 with
    | none => exact ⟨_, _, further, rfl, Or.inr rfl⟩
    | some path => exact ⟨_, _, further, rfl, Or.inl rfl⟩

theorem outcome_of_inside (config : CompilerConfig) (exeName : Str) {argv : List Str} {i : Nat}
    (inside : i < argv.length) :
    ∃ item next, (tracerScan config exeName argv).outcome argv.length i = some (item, next) ∧
      i < next ∧ ArgEvent.place item = i := by
  obtain ⟨next, event, further, placed, goes | leaves⟩ := argPass_cases config exeName inside
  · refine ⟨event, min (next + 1) argv.length, ?_, by omega, placed⟩
    simp only [Scanner.outcome, tracerScan, goes]
  · refine ⟨event, argv.length, ?_, inside, placed⟩
    simp only [Scanner.outcome, tracerScan, leaves]

theorem forward_tracerScan (config : CompilerConfig) (exeName : Str) (argv : List Str) :
    Scanner.Forward ArgEvent.place (tracerScan config exeName argv) argv.length := by
  constructor
  · intro i next item inside gives
    obtain ⟨item', next', same, further, -⟩ := outcome_of_inside config exeName inside
    rw [same] at gives
    cases gives
    exact further
  · intro i next item inside gives
    obtain ⟨item', next', same, -, placed⟩ := outcome_of_inside config exeName inside
    rw [same] at gives
    cases gives
    exact placed

/-- **The tracer gets to an end on every command line.** -/
theorem tracerScan_total (config : CompilerConfig) (exeName : Str) (argv : List Str) :
    ∃ events, (tracerScan config exeName argv).items argv.length = some events := by
  refine Scanner.exists_items (forward_tracerScan config exeName argv) fun i inside => ?_
  obtain ⟨item, next, same, -⟩ := outcome_of_inside config exeName inside
  exact ⟨(item, next), same⟩

/-- **A process is recorded** exactly when it has arguments and its binary is interesting. -/
theorem isSome_logCreateProcess {host : ProcessHost} {config : CompilerConfig} {cwd : Str}
    {argv : List Str} :
    (logCreateProcess host config cwd argv).isSome = true ↔
      ∃ exePath ∈ argv.head?, config.isInterestingBinary (host.exeName exePath) = true := by
  cases argv with
  | nil => simp [logCreateProcess]
  | cons exePath rest =>
    obtain ⟨events, same⟩ := tracerScan_total config (host.exeName exePath) (exePath :: rest)
    rw [logCreateProcess, same, Option.map_some]
    simp

/-! ### What the tracer does at one argument -/

variable {args : List Str} {i : Nat} {tok : Str} {rest : List Str}

theorem length_split_of_mem {sep : Char} {s : Str} (present : sep ∈ s) :
    1 < (split (· = sep) s).length := by
  obtain ⟨front, back, rfl, absent⟩ := List.eq_append_cons_of_mem present
  rw [split_append_cons, split_of_notMem absent, List.length_append]
  have := List.length_pos_iff.mpr (split_ne_nil (· = sep) back)
  show 1 < 1 + _
  omega

/-- The path that an argument with an equals sign has, by the formats that are tried. -/
def equalPath (formats : List OptionArgFormat) (name tok : Str) : Option Str :=
  if .equal ∈ formats.takeWhile (· ≠ .attached) then (split (· = '=') tok)[1]?
  else if .attached ∈ formats then some (tok.drop name.length)
  else none

/-- How many of the tokens after it an argument without an equals sign takes, if there are as
many. -/
def spaces (formats : List OptionArgFormat) : Nat :=
  (formats.takeWhile (· ≠ .attached)).count .space

/-- The path that an argument without an equals sign has, by the tokens after it. -/
def spacePath (formats : List OptionArgFormat) (name tok : Str) (rest : List Str) : Option Str :=
  if .attached ∈ formats ∧ spaces formats ≤ rest.length then some (tok.drop name.length)
  else (rest.take (spaces formats)).getLast?

theorem formatLoop_equal (present : '=' ∈ tok) (name : Str) (formats : List OptionArgFormat)
    (i : Nat) : formatLoop args name tok (formats.map formatName) i none =
      (i, equalPath formats name tok) := by
  have several := length_split_of_mem present
  have notOne : (split (· = '=') tok).length ≠ 1 := by omega
  induction formats with
  | nil => rfl
  | cons format formats ih =>
    cases format with
    | attached => rfl
    | space =>
      rw [List.map_cons, formatLoop, if_neg (by decide),
        if_neg (fun both => absurd both.1 (by decide)), if_neg (fun both => notOne both.2), ih]
      simp [equalPath]
    | equal =>
      rw [List.map_cons, formatLoop, if_neg (by decide), if_pos ⟨rfl, several⟩]
      simp [equalPath]

theorem spaces_cons_space (formats : List OptionArgFormat) :
    spaces (.space :: formats) = spaces formats + 1 := by
  simp [spaces]

theorem spaces_cons_equal (formats : List OptionArgFormat) :
    spaces (.equal :: formats) = spaces formats := by
  simp [spaces]

/-- **What the loop over the formats leaves behind it**, for an argument without an equals sign. -/
theorem formatLoop_space (absent : '=' ∉ tok) (name : Str) (formats : List OptionArgFormat)
    (path : Option Str) (after : args.drop (i + 1) = rest) :
    formatLoop args name tok (formats.map formatName) i path =
      if .attached ∈ formats ∧ spaces formats ≤ rest.length then
        (i + spaces formats, some (tok.drop name.length))
      else (i + min (spaces formats) (rest.length + 1),
        ((rest.take (spaces formats)).getLast?).or path) := by
  have single : (split (· = '=') tok).length = 1 := by rw [split_of_notMem absent]; rfl
  induction formats generalizing i rest path with
  | nil =>
    rw [if_neg fun both => absurd both.1 List.not_mem_nil]
    show (i, path) = (i + min 0 _, _)
    rw [Nat.zero_min]
    rfl
  | cons format formats ih =>
    cases format with
    | attached =>
      rw [if_pos ⟨List.mem_cons_self, Nat.zero_le _⟩]
      rfl
    | equal =>
      rw [List.map_cons, formatLoop, if_neg (by decide), if_neg (fun both => by omega),
        if_neg (fun both => absurd both.1 (by decide)), ih path after, spaces_cons_equal]
      simp
    | space =>
      have missing : args[i + 1]? = rest.head? := by rw [← after, List.head?_drop]
      rw [List.map_cons, formatLoop, if_neg (by decide), if_neg (fun both => by omega),
        if_pos ⟨rfl, single⟩, missing, spaces_cons_space]
      cases rest with
      | nil =>
        rw [if_neg fun both => absurd both.2 (by simp)]
        show (i + 1, path) = _
        simp
      | cons next more =>
        have further : args.drop (i + 1 + 1) = more := by
          rw [← List.tail_drop, after, List.tail_cons]
        show formatLoop args name tok (formats.map formatName) (i + 1) (some next) = _
        rw [ih (some next) further, List.take_succ_cons, List.getLast?_cons]
        have counts : (.attached ∈ formats ∧ spaces formats ≤ more.length) ↔
            OptionArgFormat.attached ∈ OptionArgFormat.space :: formats ∧
              spaces formats + 1 ≤ (next :: more).length := by
          simp
        have last : ((more.take (spaces formats)).getLast?).or (some next) =
            (some ((more.take (spaces formats)).getLast?.getD next)).or path := by
          cases (more.take (spaces formats)).getLast? <;> rfl
        rw [if_congr counts rfl rfl, last, List.length_cons]
        have moved : ∀ k, i + 1 + k = i + (k + 1) := fun k => by omega
        rw [moved, moved, Nat.add_min_add_right]

/-- The alias of the entry that is found for an argument. -/
def entryName (option : ToolOption) (tok : Str) : Option Str :=
  option.orderedAliases.find? fun name =>
    if .attached ∈ option.argFormat then name.isPrefixOf tok else decide (name = tok)

/-- What becomes of an argument: the path, if it is taken for a response-file argument, and the
arguments that are looked at after it. -/
abbrev Taken := Option Str × List Str

/-- What the tracer does with an argument. There is no result where it leaves the loop. -/
def tracerTaken (option : ToolOption) (tok : Str) (rest : List Str) : Option Taken :=
  match entryName option tok with
  | none => some (none, rest)
  | some name =>
      if '=' ∈ tok then
        (equalPath option.argFormat name tok).map fun path => (some path, rest)
      else
        (spacePath option.argFormat name tok rest).map fun path =>
          (some path, rest.drop (spaces option.argFormat))

/-- The outcome of a pass at a place. -/
def Taken.outcome (n i : Nat) (taken : Taken) : ArgEvent × Nat :=
  (match taken.1 with
    | none => .argument i
    | some path => .response i path, n - taken.2.length)

theorem formatName_mem {format : OptionArgFormat} {formats : List OptionArgFormat} :
    formatName format ∈ formats.map formatName ↔ format ∈ formats :=
  List.mem_map_of_injective formatName_injective

/-- The entry that is found in the configuration of an option. -/
theorem isResponseFileArg_entriesOf {config : CompilerConfig} {exeName : Str} {option : ToolOption}
    (configured : config.responseFileArguments.lookup exeName = some (entriesOf option))
    (tok : Str) :
    config.isResponseFileArg exeName tok =
      (entryName option tok).map fun name => (name, option.argFormat.map formatName) := by
  unfold CompilerConfig.isResponseFileArg entryName
  rw [configured]
  show ((option.orderedAliases.map _).find? _ : Option ResponseFileEntry) = _
  rw [List.find?_map]
  congr 2
  funext name
  show ResponseFileEntry.fits (name, option.argFormat.map formatName) tok = _
  unfold ResponseFileEntry.fits
  exact if_congr (@formatName_mem .attached option.argFormat) rfl rfl

section Outcome

variable {config : CompilerConfig} {exeName : Str} {option : ToolOption}

theorem length_of_drop (ahead : args.drop i = tok :: rest) : args.length = i + 1 + rest.length := by
  have lengths := congrArg List.length ahead
  rw [List.length_drop, List.length_cons] at lengths
  omega

/-- A scan that goes on at the next place has the tokens after it left. -/
theorem next_eq (length : args.length = i + 1 + rest.length) :
    min (i + 1) args.length = args.length - rest.length := by
  omega

/-- **What the scan of the tracer does at an argument.** -/
theorem outcome_tracerScan
    (configured : config.responseFileArguments.lookup exeName = some (entriesOf option))
    (ahead : args.drop i = tok :: rest) :
    (tracerScan config exeName args).outcome args.length i =
      some (((tracerTaken option tok rest).map (Taken.outcome args.length i)).getD
        (.unread i, args.length)) := by
  have length := length_of_drop ahead
  have found := ToolOption.getElem?_of_drop ahead
  have after := ToolOption.drop_succ_of_drop ahead
  have read : deref args i = .ok tok := ToolOption.deref_of_getElem? found
  have entry := isResponseFileArg_entriesOf configured tok
  unfold Scanner.outcome tracerScan argPass tracerTaken
  dsimp only
  rw [read]
  dsimp only
  rw [entry]
  cases entryName option tok with
  | none =>
    show some (ArgEvent.argument i, min (i + 1) args.length) =
      some (.argument i, args.length - rest.length)
    rw [next_eq length]
  | some name =>
    dsimp only [Option.map_some]
    by_cases present : '=' ∈ tok
    · rw [if_pos present, formatLoop_equal present]
      cases equalPath option.argFormat name tok with
      | none => rfl
      | some path =>
        show some (ArgEvent.response i path, min (i + 1) args.length) =
          some (.response i path, args.length - rest.length)
        rw [next_eq length]
    · rw [if_neg present, formatLoop_space present name option.argFormat none after, spacePath]
      split_ifs with both
      · show some (ArgEvent.response i _, min (i + spaces option.argFormat + 1) args.length) =
          some (.response i _, args.length - (rest.drop (spaces option.argFormat)).length)
        rw [List.length_drop, length]
        congr 2
        omega
      · rw [Option.or_none]
        cases (rest.take (spaces option.argFormat)).getLast? with
        | none => rfl
        | some path =>
          show some (ArgEvent.response i path,
              min (i + min (spaces option.argFormat) (rest.length + 1) + 1) args.length) =
            some (.response i path, args.length - (rest.drop (spaces option.argFormat)).length)
          rw [List.length_drop, length]
          congr 2
          omega

/-- What the option does with an argument. There is no result where the argument after it is
missing. -/
def optionTaken (option : ToolOption) (tok : Str) (rest : List Str) : Option Taken :=
  if option.spaceForm tok then
    match rest with
    | [] => none
    | next :: more => some (some next, more)
  else some (option.inlineArg tok, rest)

/-- **What the scan of the option does at an argument.** -/
theorem outcome_optionScan (formats : option.argFormat ≠ []) (ahead : args.drop i = tok :: rest) :
    (optionScan option args).outcome args.length i =
      (optionTaken option tok rest).map (Taken.outcome args.length i) := by
  have length := length_of_drop ahead
  have found := ToolOption.getElem?_of_drop ahead
  have after := ToolOption.drop_succ_of_drop ahead
  unfold Scanner.outcome optionScan optionTaken
  dsimp only
  cases space : option.spaceForm tok with
  | false =>
    have matched := @ToolOption.matchAndGetArg_inline (unprefixed option) args i tok found space []
    rw [matched, if_neg (show (unprefixed option).argFormat ≠ [] from formats)]
    show _ = some (Taken.outcome args.length i (option.inlineArg tok, rest))
    have same : (unprefixed option).inlineArg tok = option.inlineArg tok := rfl
    rw [same]
    cases option.inlineArg tok with
    | none =>
      show some (ArgEvent.argument i, min (i + 1) args.length) =
        some (.argument i, args.length - rest.length)
      rw [next_eq length]
    | some path =>
      show some (ArgEvent.response i path, min (i + 1) args.length) =
        some (.response i path, args.length - rest.length)
      rw [next_eq length]
  | true =>
    have space' : (unprefixed option).spaceForm tok = true := space
    cases rest with
    | nil =>
      have dangling : (unprefixed option).dangles tok [] = true := by
        rw [ToolOption.dangles, space']
        rfl
      rw [ToolOption.matchAndGetArg_dangling ahead dangling]
      rfl
    | cons next more =>
      have follows : args[i + 1]? = some next := ToolOption.getElem?_of_drop after
      have matched : (unprefixed option).matchAndGetArg args i [] = .ok (some (i + 2, next)) := by
        unfold ToolOption.matchAndGetArg
        rw [ToolOption.deref_of_getElem? found, ok_bind,
          if_neg (ToolOption.format_of_spaceForm space'),
          if_pos (ToolOption.spaceForm_eq_true.mp space'), ToolOption.deref_of_getElem? follows,
          ok_bind]
        rfl
      rw [matched]
      show some (ArgEvent.response i next, min (i + 2) args.length) =
        some (.response i next, args.length - more.length)
      rw [length, List.length_cons]
      congr 2
      omega

end Outcome

end Xcalbuild.Windows
