/-
**Parsed paths are full paths.**

`get_full_path_str` gives full paths. The parser passes every source and every target through it,
so a parsed work item has full paths wherever it has one (`parseWorkItem_full`).
-/
import Xcalbuild.Profile.Parse

namespace Xcalbuild.Profile

open Library

/-- The path starts at the root. -/
def IsFull (path : Str) : Prop := path.head? = some '/'

instance (path : Str) : Decidable (IsFull path) := inferInstanceAs (Decidable (path.head? = some '/'))

/-- The sources of the item are full paths, and so is the target if there is one. -/
structure ParsedWorkItem.Full (parsed : ParsedWorkItem) : Prop where
  sources : ∀ source ∈ parsed.sources, IsFull source.1
  target : parsed.target = [] ∨ IsFull parsed.target

variable {host : Host} {parsed : ParsedWorkItem}

theorem IsFull.mem {path : Str} (full : IsFull path) : '/' ∈ path := List.mem_of_head? full

/-- An option that is processed sets the target to a full path, and leaves the sources alone. -/
theorem processMatch_full (absolute : ∀ path dir, IsFull (host.canonical path dir))
    (o : ToolOption) (matched : List Str) (arg : Str) (full : parsed.Full) :
    (o.processMatch host matched arg parsed).Full := by
  have process : (o.process host arg parsed).2.Full := by
    unfold ToolOption.process
    cases o.behaviour with
    | cmd kind => exact ⟨full.sources, full.target⟩
    | language argToLang =>
      dsimp only
      cases argToLang.lookup arg with
      | none => exact full
      | some format => exact ⟨full.sources, full.target⟩
    | response => exact full
    | delete => exact full
    | scan data =>
      dsimp only
      cases data.scanArgFormat with
      | none => exact ⟨full.sources, full.target⟩
      | some format => exact ⟨full.sources, full.target⟩
    | preprocess => exact full
    | output => exact ⟨full.sources, Or.inr (absolute arg parsed.dir)⟩
    | preInclude => exact full
    | sysIncPath => exact full
    | other => exact full
  unfold ToolOption.processMatch
  dsimp only
  split_ifs
  · exact ⟨process.sources, process.target⟩
  · exact process

theorem matchAny_full (absolute : ∀ path dir, IsFull (host.canonical path dir))
    {options : List ToolOption} {args : List Str} {it it' : Nat} {parsed' : ParsedWorkItem}
    (full : parsed.Full)
    (matched : matchAny host options args it parsed = .ok (some (it', parsed'))) :
    parsed'.Full := by
  induction options with
  | nil => cases matched
  | cons option rest ih =>
    obtain ⟨result, found, next⟩ := bind_eq_ok matched
    cases result with
    | none => exact ih next
    | some result =>
      obtain ⟨taken, got, made⟩ := bind_eq_ok found
      cases next
      cases taken with
      | none => cases made
      | some pair =>
        cases made
        exact processMatch_full absolute option _ _ full

theorem leftover_full (absolute : ∀ path dir, IsFull (host.canonical path dir))
    (profile : ToolProfile) (tok : Str) (full : parsed.Full) :
    (leftover profile host tok parsed).Full := by
  unfold leftover
  by_cases option : (profile.optionPrefix.any fun lead => lead.isPrefixOf tok) = true
  · rw [if_pos option]
    exact ⟨full.sources, full.target⟩
  rw [if_neg option]
  by_cases target : 0 < profile.targetExtensions.length ∧ parsed.target = [] ∧
      (profile.targetExtensions.lookup (extensionOf tok)).isSome
  · rw [if_pos target]
    exact ⟨full.sources, Or.inr (absolute tok parsed.dir)⟩
  rw [if_neg target]
  cases profile.sourceExtensions.lookup (extensionOf tok) with
  | some byExtension =>
    refine ⟨fun source member => ?_, full.target⟩
    rcases List.mem_append.mp member with member | member
    · exact full.sources source member
    · rw [List.mem_singleton.mp member]
      exact absolute tok parsed.dir
  | none =>
    dsimp only
    split_ifs
    · exact ⟨full.sources, full.target⟩
    · exact full

/-- One pass of the option loop, whether it leaves the loop or not. -/
theorem optionLoop_full (absolute : ∀ path dir, IsFull (host.canonical path dir))
    {profile : ToolProfile} {args : List Str} {state state' : LoopState}
    (full : state.parsed.Full)
    (step : (optionLoop profile host args).body state = .next state' ∨
      (optionLoop profile host args).body state = .leave state') : state'.parsed.Full := by
  unfold optionLoop at step
  dsimp only at step
  cases matched : matchAny host profile.options args state.it state.parsed with
  | error fault => simp [matched] at step
  | ok found =>
    rw [matched] at step
    cases found with
    | some pair =>
      have kept := matchAny_full absolute full matched
      dsimp only at step
      split_ifs at step
      · obtain same | same := step <;> cases same
        exact kept
      · obtain same | same := step <;> cases same
        exact kept
    | none =>
      cases read : deref args state.it with
      | error fault => simp [read] at step
      | ok tok =>
        rw [read] at step
        obtain same | same := step <;> cases same
        exact leftover_full absolute profile tok full

/-- **A parsed work item has full paths.** -/
theorem parseWorkItem_full (absolute : ∀ path dir, IsFull (host.canonical path dir))
    {profile : ToolProfile} {item : WorkItem}
    (result : parseWorkItem profile host item = .ok parsed) : parsed.Full := by
  obtain ⟨args, -, result⟩ := bind_eq_ok result
  obtain ⟨binary, -, result⟩ := bind_eq_ok result
  obtain ⟨state, ends, result⟩ := bind_eq_ok result
  cases result
  have reached : (optionLoop profile host args).run (args.length + 1)
        ⟨1, startParsed profile item binary⟩ = .finished state ∨
      (optionLoop profile host args).run (args.length + 1)
        ⟨1, startParsed profile item binary⟩ = .broke state := by
    cases run : (optionLoop profile host args).run (args.length + 1)
        ⟨1, startParsed profile item binary⟩ with
    | finished final => rw [run] at ends; cases ends; exact Or.inl rfl
    | broke final => rw [run] at ends; cases ends; exact Or.inr rfl
    | fault error => rw [run] at ends; cases ends
    | exhausted => rw [run] at ends; cases ends
  exact Loop.run_invariant (fun state => state.parsed.Full)
    ⟨fun _ member => (nomatch member), Or.inl rfl⟩
    (fun _ _ full step => optionLoop_full absolute full (Or.inl step))
    (fun _ _ full step => optionLoop_full absolute full (Or.inr step)) reached

end Xcalbuild.Profile
