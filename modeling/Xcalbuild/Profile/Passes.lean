/-
**The passes of the option loop.**

Everything one pass of the option loop of `parse_work_item` can do, said once:

* `optionLoop_next`: a pass that goes on is the match of an option, or one argument left over;
* `matchOption_some`: a match moves over one or two arguments and changes the state by
  `processMatch`;
* `leftover_cases`: the four things that happen to an argument no option matched;
* `parseArgs_of_safe`: a walk that stays inside the vector gives a parsed work item, and unless the
  kind is `ignore` it got to the end.
-/
import Xcalbuild.Library.Walk
import Xcalbuild.Profile.Cursor

namespace Xcalbuild.Profile

open Library

namespace ToolOption

variable {host : Host} {o : ToolOption} {args : List Str} {it it' : Nat} {arg : Str}
  {parsed parsed' : ParsedWorkItem}

/-- The tokens of a match are not copied to the preprocessing options. -/
def drops (o : ToolOption) : Bool :=
  match o.behaviour with
  | .language _ | .response | .delete | .preprocess | .output => true
  | .cmd _ | .scan _ | .preInclude | .sysIncPath | .other => false

variable (o host) in
/-- The virtual function asks for the tokens exactly when the option does not drop them. -/
theorem process_copies (arg : Str) (parsed : ParsedWorkItem) :
    (o.process host arg parsed).1 = !o.drops := by
  unfold process drops
  cases o.behaviour with
  | language argToLang => dsimp only; split <;> rfl
  | scan data => dsimp only; split <;> rfl
  | _ => rfl

variable (o host) in
/-- No virtual function touches the preprocessing options or the sources. -/
theorem process_keeps (arg : Str) (parsed : ParsedWorkItem) :
    (o.process host arg parsed).2.ppOptions = parsed.ppOptions ∧
      (o.process host arg parsed).2.sources = parsed.sources ∧
        (o.process host arg parsed).2.dir = parsed.dir := by
  unfold process
  cases o.behaviour with
  | language argToLang => dsimp only; split <;> exact ⟨rfl, rfl, rfl⟩
  | scan data => dsimp only; split <;> exact ⟨rfl, rfl, rfl⟩
  | _ => exact ⟨rfl, rfl, rfl⟩

theorem processMatch_ppOptions (matched : List Str) (arg : Str) (parsed : ParsedWorkItem) :
    (o.processMatch host matched arg parsed).ppOptions =
      if o.drops then parsed.ppOptions else parsed.ppOptions ++ matched := by
  obtain ⟨same, -⟩ := process_keeps host o arg parsed
  unfold processMatch
  dsimp only
  rw [process_copies]
  cases o.drops <;> simp [same]

theorem processMatch_sources (matched : List Str) (arg : Str) (parsed : ParsedWorkItem) :
    (o.processMatch host matched arg parsed).sources = parsed.sources := by
  obtain ⟨-, same, -⟩ := process_keeps host o arg parsed
  unfold processMatch
  dsimp only
  split_ifs <;> exact same

theorem processMatch_dir (matched : List Str) (arg : Str) (parsed : ParsedWorkItem) :
    (o.processMatch host matched arg parsed).dir = parsed.dir := by
  obtain ⟨-, -, same⟩ := process_keeps host o arg parsed
  unfold processMatch
  dsimp only
  split_ifs <;> exact same

variable (host o) in
/-- The target after a match is the old one or the full path of the argument. -/
theorem processMatch_target (matched : List Str) (arg : Str) (parsed : ParsedWorkItem) :
    (o.processMatch host matched arg parsed).target = parsed.target ∨
      (o.processMatch host matched arg parsed).target = host.getFullPathStr arg parsed.dir := by
  have process : (o.process host arg parsed).2.target = parsed.target ∨
      (o.process host arg parsed).2.target = host.getFullPathStr arg parsed.dir := by
    unfold process
    cases o.behaviour with
    | language argToLang => dsimp only; split <;> exact Or.inl rfl
    | scan data => dsimp only; split <;> exact Or.inl rfl
    | output => exact Or.inr rfl
    | _ => exact Or.inl rfl
  unfold processMatch
  dsimp only
  split_ifs <;> exact process

/-- A match moves the position forward by one or two, and stays inside the vector. -/
theorem matchAndGetArg_some (taken : o.matchAndGetArg args it [] = .ok (some (it', arg))) :
    (it' = it + 1 ∨ it' = it + 2) ∧ it' ≤ args.length := by
  cases found : args[it]? with
  | none =>
    rw [matchAndGetArg, deref_of_none found, error_bind] at taken
    cases taken
  | some tok =>
    have ahead : args.drop it = tok :: args.drop (it + 1) := by
      obtain ⟨inside, same⟩ := List.getElem?_eq_some_iff.mp found
      rw [List.drop_eq_getElem_cons inside, same]
    by_cases accepted : o.accepts tok = true
    · by_cases dangling : o.dangles tok (args.drop (it + 1)) = true
      · rw [matchAndGetArg_dangling ahead dangling] at taken
        cases taken
      · obtain ⟨next, taken', -, moved, inside⟩ :=
          matchAndGetArg_accept ahead accepted (Bool.not_eq_true _ ▸ dangling)
        rw [taken] at taken'
        cases taken'
        exact ⟨moved, inside⟩
    · rw [matchAndGetArg_refuse found (Bool.not_eq_true _ ▸ accepted)] at taken
      cases taken

/-- **What a match does.** -/
theorem matchOption_some (matched : o.matchOption host args it parsed = .ok (some (it', parsed'))) :
    ∃ arg, o.matchAndGetArg args it [] = .ok (some (it', arg)) ∧
      parsed' = o.processMatch host ((args.drop it).take (it' - it)) arg parsed ∧
        (it' = it + 1 ∨ it' = it + 2) ∧ it' ≤ args.length := by
  obtain ⟨found, taken, made⟩ := bind_eq_ok matched
  cases found with
  | none => cases made
  | some pair =>
    obtain ⟨next, arg⟩ := pair
    cases made
    exact ⟨arg, taken, rfl, matchAndGetArg_some taken⟩

end ToolOption

section Passes

variable {profile : ToolProfile} {host : Host} {args : List Str} {state state' : LoopState}

/-- The pass is the match of this option: the options before it in the profile do not match at the
argument, and it does. -/
structure MatchedBy (profile : ToolProfile) (host : Host) (args : List Str)
    (state state' : LoopState) (option : ToolOption) : Prop where
  first : ∃ front back, profile.options = front ++ option :: back ∧
    ∀ other ∈ front, other.matchOption host args state.it state.parsed = .ok none
  result : option.matchOption host args state.it state.parsed = .ok (some (state'.it, state'.parsed))

/-- No option of the profile matches at the argument. -/
def Unmatched (profile : ToolProfile) (host : Host) (args : List Str) (state : LoopState) : Prop :=
  ∀ option ∈ profile.options, option.matchOption host args state.it state.parsed = .ok none

/-- **The inner loop finds the first option of the list that matches.** -/
theorem matchAny_some_first {options : List ToolOption} {it it' : Nat}
    {parsed parsed' : ParsedWorkItem}
    (matched : matchAny host options args it parsed = .ok (some (it', parsed'))) :
    ∃ front option back, options = front ++ option :: back ∧
      (∀ other ∈ front, other.matchOption host args it parsed = .ok none) ∧
        option.matchOption host args it parsed = .ok (some (it', parsed')) := by
  induction options with
  | nil => cases matched
  | cons option rest ih =>
    obtain ⟨found, result, next⟩ := bind_eq_ok matched
    cases found with
    | none =>
      obtain ⟨front, other, back, rfl, refused, same⟩ := ih next
      refine ⟨option :: front, other, back, rfl, fun before member => ?_, same⟩
      rcases List.mem_cons.mp member with rfl | member
      · exact result
      · exact refused before member
    | some pair =>
      cases next
      exact ⟨[], option, rest, rfl, fun _ member => absurd member List.not_mem_nil, result⟩

theorem matchAny_none_mem {options : List ToolOption} {it : Nat} {parsed : ParsedWorkItem}
    (refused : matchAny host options args it parsed = .ok none) :
    ∀ option ∈ options, option.matchOption host args it parsed = .ok none := by
  induction options with
  | nil => exact fun option member => absurd member List.not_mem_nil
  | cons option rest ih =>
    obtain ⟨found, first, next⟩ := bind_eq_ok refused
    cases found with
    | some result => cases next
    | none =>
      intro other member
      rcases List.mem_cons.mp member with rfl | member
      · exact first
      · exact ih next other member

theorem MatchedBy.mem {option : ToolOption}
    (matched : MatchedBy profile host args state state' option) : option ∈ profile.options := by
  obtain ⟨⟨front, back, parts, -⟩, -⟩ := matched
  rw [parts]
  exact List.mem_append_right _ List.mem_cons_self

/-- A pass is the match of one option only. -/
theorem MatchedBy.unique {option other : ToolOption}
    (first : MatchedBy profile host args state state' option)
    (second : MatchedBy profile host args state state' other) : option = other := by
  obtain ⟨⟨front, back, parts, refused⟩, result⟩ := first
  obtain ⟨⟨front', back', parts', refused'⟩, result'⟩ := second
  rw [parts] at parts'
  rcases List.append_eq_append_iff.mp parts' with ⟨between, rfl, rest⟩ | ⟨between, rfl, rest⟩
  · cases between with
    | nil => cases rest; rfl
    | cons head tail =>
      cases rest
      rw [refused' option (List.mem_append_right _ List.mem_cons_self)] at result
      cases result
  · cases between with
    | nil => cases rest; rfl
    | cons head tail =>
      cases rest
      rw [refused other (List.mem_append_right _ List.mem_cons_self)] at result'
      cases result'

/-- A pass that no option matches is not the match of any. -/
theorem Unmatched.not_matched (unmatched : Unmatched profile host args state)
    {option : ToolOption} : ¬ MatchedBy profile host args state state' option := by
  intro matched
  have result := matched.result
  rw [unmatched option matched.mem] at result
  cases result

/-- **Everything the body of the option loop can do.** -/
theorem optionLoop_body (profile : ToolProfile) (host : Host) (args : List Str) (state : LoopState) :
    (∃ fault, (optionLoop profile host args).body state = .fault fault) ∨
      (∃ state' option, MatchedBy profile host args state state' option ∧
        (optionLoop profile host args).body state =
          if state'.parsed.kind = .ignore then .leave state' else .next state') ∨
      (Unmatched profile host args state ∧ ∃ tok, deref args state.it = .ok tok ∧
        (optionLoop profile host args).body state =
          .next ⟨state.it + 1, leftover profile host tok state.parsed⟩) := by
  unfold optionLoop
  dsimp only
  cases matched : matchAny host profile.options args state.it state.parsed with
  | error fault => exact Or.inl ⟨fault, rfl⟩
  | ok found =>
    cases found with
    | some pair =>
      obtain ⟨front, option, back, parts, refused, result⟩ := matchAny_some_first matched
      exact Or.inr (Or.inl ⟨⟨pair.1, pair.2⟩, option, ⟨⟨front, back, parts, refused⟩, result⟩, rfl⟩)
    | none =>
      cases read : deref args state.it with
      | error fault => exact Or.inl ⟨fault, rfl⟩
      | ok tok => exact Or.inr (Or.inr ⟨matchAny_none_mem matched, tok, rfl, rfl⟩)

/-- **A pass that goes on** is the match of an option that does not make the command one to ignore,
or it moves over one argument that no option matches. -/
theorem optionLoop_next (step : (optionLoop profile host args).body state = .next state') :
    (∃ option, MatchedBy profile host args state state' option ∧ state'.parsed.kind ≠ .ignore) ∨
      (Unmatched profile host args state ∧ ∃ tok, deref args state.it = .ok tok ∧
        state' = ⟨state.it + 1, leftover profile host tok state.parsed⟩) := by
  rcases optionLoop_body profile host args state with
    ⟨fault, body⟩ | ⟨next, option, matched, body⟩ | ⟨unmatched, tok, read, body⟩
  · rw [step] at body
    cases body
  · rw [step] at body
    split_ifs at body with ignored
    cases body
    exact Or.inl ⟨option, matched, ignored⟩
  · rw [step] at body
    cases body
    exact Or.inr ⟨unmatched, tok, read, rfl⟩

/-- A pass that leaves the loop has found the kind `ignore`. -/
theorem optionLoop_leave (step : (optionLoop profile host args).body state = .leave state') :
    state'.parsed.kind = .ignore := by
  rcases optionLoop_body profile host args state with
    ⟨fault, body⟩ | ⟨next, option, matched, body⟩ | ⟨unmatched, tok, read, body⟩
  · rw [step] at body
    cases body
  · rw [step] at body
    split_ifs at body with ignored
    cases body
    exact ignored
  · rw [step] at body
    cases body

theorem lt_of_deref {it : Nat} {tok : Str} (read : deref args it = .ok tok) :
    ∃ inside : it < args.length, args[it] = tok := by
  unfold deref at read
  cases found : args[it]? with
  | none => rw [found] at read; cases read
  | some other =>
    rw [found] at read
    cases read
    exact List.getElem?_eq_some_iff.mp found

/-- A pass that goes on moves over one or two arguments, and stays inside the vector. -/
theorem optionLoop_moves (step : (optionLoop profile host args).body state = .next state') :
    (state'.it = state.it + 1 ∨ state'.it = state.it + 2) ∧ state'.it ≤ args.length := by
  rcases optionLoop_next step with ⟨option, matched, -⟩ | ⟨-, tok, read, rfl⟩
  · obtain ⟨-, -, -, moved, inside⟩ := ToolOption.matchOption_some matched.result
    exact ⟨moved, inside⟩
  · obtain ⟨inside, -⟩ := lt_of_deref read
    exact ⟨Or.inl rfl, inside⟩

variable (profile host args) in
theorem optionLoop_advances : (optionLoop profile host args).Advances LoopState.it := by
  intro s s' step
  obtain ⟨moved, -⟩ := optionLoop_moves step
  omega

/-- The argument is recorded as the target because of its extension. -/
def TakenAsTarget (profile : ToolProfile) (tok : Str) (parsed : ParsedWorkItem) : Prop :=
  (profile.targetExtensions.lookup (extensionOf tok)).isSome ∧ parsed.target = []

/-- **What happens to an argument that no option matched.** -/
theorem leftover_cases (profile : ToolProfile) (host : Host) (tok : Str) (parsed : ParsedWorkItem) :
    leftover profile host tok parsed = { parsed with ppOptions := parsed.ppOptions ++ [tok] } ∨
      (TakenAsTarget profile tok parsed ∧ leftover profile host tok parsed =
        { parsed with target := host.getFullPathStr tok parsed.dir }) ∨
      (∃ byExtension, profile.sourceExtensions.lookup (extensionOf tok) = some byExtension ∧
        leftover profile host tok parsed =
          { parsed with sources := parsed.sources ++ [(host.getFullPathStr tok parsed.dir,
            if parsed.fileFormat = .ext then byExtension else parsed.fileFormat)] }) ∨
      (tok = [] ∧ leftover profile host tok parsed = parsed) := by
  unfold leftover
  by_cases lead : (profile.optionPrefix.any fun lead => lead.isPrefixOf tok) = true
  · rw [if_pos lead]
    exact Or.inl rfl
  rw [if_neg lead]
  by_cases target : 0 < profile.targetExtensions.length ∧ parsed.target = [] ∧
      (profile.targetExtensions.lookup (extensionOf tok)).isSome
  · rw [if_pos target]
    exact Or.inr (Or.inl ⟨⟨target.2.2, target.2.1⟩, rfl⟩)
  rw [if_neg target]
  cases byExtension : profile.sourceExtensions.lookup (extensionOf tok) with
  | some format => exact Or.inr (Or.inr (Or.inl ⟨format, rfl, rfl⟩))
  | none =>
    dsimp only
    by_cases empty : tok = []
    · rw [if_neg (not_not_intro empty)]
      exact Or.inr (Or.inr (Or.inr ⟨empty, rfl⟩))
    · rw [if_pos empty]
      exact Or.inl rfl

/-- **A walk that stays inside the vector is parsed**, and unless the command is one to ignore the
walk got to the end. -/
theorem parseArgs_of_safe {item : WorkItem} {binary : Str} {rest : List Str}
    (safe : OptionSafe profile host (binary :: rest) ⟨1, startParsed profile item binary⟩) :
    ∃ final : LoopState, parseArgs profile host item (binary :: rest) = .ok final.parsed ∧
      (final.parsed.kind ≠ .ignore →
        (optionLoop profile host (binary :: rest)).run ((binary :: rest).length + 1)
          ⟨1, startParsed profile item binary⟩ = .finished final) := by
  have first : deref (binary :: rest) 0 = .ok binary := rfl
  rcases safe.ends with ⟨final, -, -, run⟩ | ⟨_, final, -, -, -, -, ignored, run⟩
  · refine ⟨final, ?_, fun _ => run⟩
    rw [parseArgs, first, ok_bind, run]
    rfl
  · refine ⟨final, ?_, fun kept => absurd ignored kept⟩
    rw [parseArgs, first, ok_bind, run]
    rfl

end Passes

end Xcalbuild.Profile
