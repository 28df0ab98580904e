/-
**Where the cursor of `parse_work_item` can go.**

Both loops of `parse_work_item` walk an iterator over an argument vector and compare it with
`end()` at the head only. `CursorSafe` says that both walks stay inside their vectors. One thing
breaks it: an option that takes its argument from the next element and stands last, so that
`match_and_get_arg` reads `*end()`.

* `optionLoop_safe_iff`: the option loop is safe unless the walk over the tokens ends in such an
  option (`danglingArgument`);
* `cursorSafe_iff`: the same for both loops, in terms of the work item.
-/
import Xcalbuild.Profile.Unfold

namespace Xcalbuild.Profile

open Library

namespace ToolOption

/-- The kind of the command after the option is processed. -/
def kindAfter (o : ToolOption) (kind : CommandKind) : CommandKind :=
  match o.behaviour with
  | .cmd kind => kind
  | _ => kind

variable {host : Host} {o : ToolOption} {args : List Str} {it : Nat} {tok : Str} {rest : List Str}

variable (o host) in
theorem process_kind (arg : Str) (parsed : ParsedWorkItem) :
    (o.process host arg parsed).2.kind = o.kindAfter parsed.kind := by
  unfold process kindAfter
  cases o.behaviour with
  | language argToLang => dsimp only; split <;> rfl
  | scan data => dsimp only; split <;> rfl
  | _ => rfl

theorem processMatch_kind (matched : List Str) (arg : Str) (parsed : ParsedWorkItem) :
    (o.processMatch host matched arg parsed).kind = o.kindAfter parsed.kind := by
  rw [← process_kind host o arg parsed, processMatch]
  cases copied : (o.process host arg parsed).1 <;> rfl

theorem matchOption_refuse (ahead : args.drop it = tok :: rest) (refused : o.accepts tok = false)
    (parsed : ParsedWorkItem) : o.matchOption host args it parsed = .ok none := by
  unfold matchOption
  rw [matchAndGetArg_refuse (getElem?_of_drop ahead) refused, ok_bind]
  rfl

theorem matchOption_accept (host : Host) (ahead : args.drop it = tok :: rest)
    (accepted : o.accepts tok = true) (complete : o.dangles tok rest = false) (parsed : ParsedWorkItem) :
    ∃ it' parsed', o.matchOption host args it parsed = .ok (some (it', parsed')) ∧
      parsed'.kind = o.kindAfter parsed.kind ∧ args.drop it' = (o.takeArg tok rest).2 ∧
        (it' = it + 1 ∨ it' = it + 2) ∧ it' ≤ args.length := by
  obtain ⟨it', taken, left, moved, inside⟩ := matchAndGetArg_accept ahead accepted complete
  unfold matchOption
  rw [taken, ok_bind]
  exact ⟨it', _, rfl, processMatch_kind _ _ _, left, moved, inside⟩

theorem matchOption_dangling (ahead : args.drop it = tok :: rest) (dangling : o.dangles tok rest = true)
    (parsed : ParsedWorkItem) : o.matchOption host args it parsed = .error .pastEnd := by
  unfold matchOption
  rw [matchAndGetArg_dangling ahead dangling, error_bind]

end ToolOption

/-- The walk of the option loop comes to an option that takes its argument from the next element
and stands last. At every token the first option that accepts it decides how far the walk goes; the
kind of the command is followed because the kind `ignore` ends the walk. -/
def danglingArgument (options : List ToolOption) : CommandKind → List Str → Bool
  | _, [] => false
  | kind, tok :: rest =>
      match options.find? fun option => option.accepts tok with
      | none => danglingArgument options kind rest
      | some option =>
          match rest with
          | [] => option.spaceForm tok
          | next :: rest =>
              if option.kindAfter kind = .ignore then false
              else if option.spaceForm tok && !option.prefixStops next then
                danglingArgument options (option.kindAfter kind) rest
              else danglingArgument options (option.kindAfter kind) (next :: rest)

section Options

variable {host : Host} {options : List ToolOption} {args : List Str} {it : Nat} {tok : Str}
  {rest : List Str}

theorem danglingArgument_none (kind : CommandKind)
    (refused : options.find? (fun option => option.accepts tok) = none) :
    danglingArgument options kind (tok :: rest) = danglingArgument options kind rest := by
  rw [danglingArgument, refused]

theorem danglingArgument_some (kind : CommandKind) {option : ToolOption}
    (first : options.find? (fun option => option.accepts tok) = some option) :
    danglingArgument options kind (tok :: rest) =
      if option.dangles tok rest then true
      else if option.kindAfter kind = .ignore then false
      else danglingArgument options (option.kindAfter kind) (option.takeArg tok rest).2 := by
  rw [danglingArgument, first]
  cases rest with
  | nil =>
    cases space : option.spaceForm tok <;>
      simp [ToolOption.dangles, ToolOption.takeArg, space, danglingArgument]
  | cons next rest =>
    cases space : option.spaceForm tok <;> cases stops : option.prefixStops next <;>
      simp [ToolOption.dangles, ToolOption.takeArg, space, stops]

/-- No option accepts the token: none of them matches. -/
theorem matchAny_none (ahead : args.drop it = tok :: rest)
    (refused : options.find? (fun option => option.accepts tok) = none) (parsed : ParsedWorkItem) :
    matchAny host options args it parsed = .ok none := by
  induction options with
  | nil => rfl
  | cons option options ih =>
    rw [List.find?_cons] at refused
    cases accepted : option.accepts tok with
    | true => rw [accepted] at refused; cases refused
    | false =>
      rw [accepted] at refused
      rw [matchAny, ToolOption.matchOption_refuse ahead accepted, ok_bind]
      exact ih refused

/-- The first option that accepts the token is the one that is matched. -/
theorem matchAny_some (ahead : args.drop it = tok :: rest) {option : ToolOption}
    (first : options.find? (fun option => option.accepts tok) = some option)
    (parsed : ParsedWorkItem) :
    matchAny host options args it parsed = option.matchOption host args it parsed := by
  induction options with
  | nil => cases first
  | cons other options ih =>
    rw [List.find?_cons] at first
    rw [matchAny]
    cases accepted : other.accepts tok with
    | false =>
      rw [accepted] at first
      rw [ToolOption.matchOption_refuse ahead accepted, ok_bind]
      exact ih first
    | true =>
      rw [accepted] at first
      cases first
      cases dangling : option.dangles tok rest with
      | true => rw [ToolOption.matchOption_dangling ahead dangling, error_bind]
      | false =>
        obtain ⟨it', parsed', matched, -⟩ :=
          ToolOption.matchOption_accept host ahead accepted dangling parsed
        rw [matched, ok_bind]
        rfl

end Options

section OptionLoop

variable (profile : ToolProfile) (host : Host) {args : List Str}

variable {profile host} in
theorem option_done {state : LoopState} :
    (optionLoop profile host args).done state = true ↔ state.it = args.length := by
  simp [optionLoop]

theorem option_notDone {state : LoopState} {tok : Str} {rest : List Str}
    (ahead : args.drop state.it = tok :: rest) :
    (optionLoop profile host args).done state = false := by
  have inside := (List.getElem?_eq_some_iff.mp (ToolOption.getElem?_of_drop ahead)).1
  rw [← Bool.not_eq_true, option_done]
  omega

variable {profile host} in
/-- What processing a leftover token does to the kind of the command: nothing. -/
theorem leftover_kind (tok : Str) (parsed : ParsedWorkItem) :
    (leftover profile host tok parsed).kind = parsed.kind := by
  unfold leftover
  cases profile.sourceExtensions.lookup (extensionOf tok) with
  | some byExtension => split_ifs <;> rfl
  | none => split_ifs <;> rfl

theorem option_leftover {state : LoopState} {tok : Str} {rest : List Str}
    (ahead : args.drop state.it = tok :: rest)
    (refused : profile.options.find? (fun option => option.accepts tok) = none) :
    (optionLoop profile host args).body state =
      .next ⟨state.it + 1, leftover profile host tok state.parsed⟩ := by
  simp [optionLoop, matchAny_none ahead refused,
    ToolOption.deref_of_getElem? (ToolOption.getElem?_of_drop ahead)]

theorem option_dangling {state : LoopState} {tok : Str} {rest : List Str} {option : ToolOption}
    (ahead : args.drop state.it = tok :: rest)
    (first : profile.options.find? (fun option => option.accepts tok) = some option)
    (dangling : option.dangles tok rest = true) :
    (optionLoop profile host args).body state = .fault .pastEnd := by
  simp [optionLoop, matchAny_some ahead first, ToolOption.matchOption_dangling ahead dangling]

theorem option_match {state : LoopState} {tok : Str} {rest : List Str} {option : ToolOption}
    (ahead : args.drop state.it = tok :: rest)
    (first : profile.options.find? (fun option => option.accepts tok) = some option)
    (complete : option.dangles tok rest = false) :
    ∃ state' : LoopState, (optionLoop profile host args).body state =
        (if option.kindAfter state.parsed.kind = .ignore then .leave state' else .next state') ∧
      state'.parsed.kind = option.kindAfter state.parsed.kind ∧
      args.drop state'.it = (option.takeArg tok rest).2 ∧
      (state'.it = state.it + 1 ∨ state'.it = state.it + 2) ∧ state'.it ≤ args.length := by
  have accepted : option.accepts tok = true :=
    List.find?_some (p := fun option : ToolOption => option.accepts tok) first
  obtain ⟨it', parsed', matched, kind, left, moved, inside⟩ :=
    ToolOption.matchOption_accept host ahead accepted complete state.parsed
  refine ⟨⟨it', parsed'⟩, ?_, kind, left, moved, inside⟩
  simp [optionLoop, matchAny_some ahead first, matched, kind]

/-- The iterator of the option loop stays inside the vector, and the loop ends at the end or at the
break for the kind `ignore`. -/
def OptionSafe (profile : ToolProfile) (host : Host) (args : List Str) (start : LoopState) : Prop :=
  (optionLoop profile host args).WalkSafe LoopState.it args.length
    (fun state => state.parsed.kind = .ignore) start

/-- A walk that comes to a dangling option runs into a fault. -/
theorem option_faults {state : LoopState} {tokens : List Str} (ahead : args.drop state.it = tokens)
    (dangling : danglingArgument profile.options state.parsed.kind tokens = true) :
    ∃ head, (optionLoop profile host args).Heads state head ∧
      (optionLoop profile host args).done head = false ∧
        (optionLoop profile host args).body head = .fault .pastEnd := by
  induction size : tokens.length using Nat.strong_induction_on generalizing state tokens with
  | _ length ih =>
    cases tokens with
    | nil => cases dangling
    | cons tok rest =>
      have notDone := option_notDone profile host ahead
      cases first : profile.options.find? (fun option => option.accepts tok) with
      | none =>
        rw [danglingArgument_none _ first] at dangling
        have step := option_leftover profile host ahead first
        have left : args.drop (LoopState.mk (state.it + 1)
            (leftover profile host tok state.parsed)).it = rest := ToolOption.drop_succ_of_drop ahead
        obtain ⟨head, heads, headNotDone, faulty⟩ := ih rest.length (by rw [← size]; simp) left
          (by rwa [leftover_kind]) rfl
        exact ⟨head, heads.head notDone step, headNotDone, faulty⟩
      | some option =>
        rw [danglingArgument_some _ first] at dangling
        cases hangs : option.dangles tok rest with
        | true => exact ⟨state, .enter, notDone, option_dangling profile host ahead first hangs⟩
        | false =>
          rw [hangs, if_neg Bool.false_ne_true] at dangling
          obtain ⟨state', step, kind, left, moved, -⟩ := option_match profile host ahead first hangs
          split_ifs at dangling step with ignored
          have shorter : (option.takeArg tok rest).2.length < length := by
            rw [← size, ← left, ← ahead, List.length_drop, List.length_drop]
            have inside := (List.getElem?_eq_some_iff.mp (ToolOption.getElem?_of_drop ahead)).1
            omega
          obtain ⟨head, heads, headNotDone, faulty⟩ := ih _ shorter left (by rwa [kind]) rfl
          exact ⟨head, heads.head notDone step, headNotDone, faulty⟩

variable {profile host} in
/-- **The option loop is safe exactly when the walk over the tokens does not end in an option that
waits for its argument.** -/
theorem optionLoop_safe_iff {start : LoopState} (inside : start.it ≤ args.length) :
    OptionSafe profile host args start ↔
      danglingArgument profile.options start.parsed.kind (args.drop start.it) = false := by
  constructor
  · intro safe
    cases dangling : danglingArgument profile.options start.parsed.kind (args.drop start.it) with
    | false => rfl
    | true =>
      obtain ⟨head, heads, notDone, faulty⟩ := option_faults profile host rfl dangling
      exact absurd faulty (safe.reads head heads notDone _)
  · intro complete
    refine Loop.walkSafe_of_invariant
      (fun state => state.it ≤ args.length ∧
        danglingArgument profile.options state.parsed.kind (args.drop state.it) = false)
      ⟨inside, complete⟩ (fun state done => option_done.mp done) ?_
    rintro state ⟨inside, complete⟩ notDone
    have notEnd : state.it ≠ args.length := fun atEnd => by
      rw [option_done.mpr atEnd] at notDone
      cases notDone
    obtain ⟨tok, rest, ahead⟩ := exists_drop_of_lt (Nat.lt_of_le_of_ne inside notEnd)
    have here := (List.getElem?_eq_some_iff.mp (ToolOption.getElem?_of_drop ahead)).1
    rw [ahead] at complete
    cases first : profile.options.find? (fun option => option.accepts tok) with
    | none =>
      rw [danglingArgument_none _ first] at complete
      refine Or.inl ⟨_, option_leftover profile host ahead first, ⟨here, ?_⟩, Or.inl rfl, here⟩
      rwa [leftover_kind, ToolOption.drop_succ_of_drop ahead]
    | some option =>
      rw [danglingArgument_some _ first] at complete
      cases hangs : option.dangles tok rest with
      | true => rw [hangs] at complete; cases complete
      | false =>
        rw [hangs, if_neg Bool.false_ne_true] at complete
        obtain ⟨state', step, kind, left, moved, inside'⟩ :=
          option_match profile host ahead first hangs
        split_ifs at complete step with ignored
        · exact Or.inr ⟨state', step, kind.trans ignored, inside'⟩
        · exact Or.inl ⟨state', step, ⟨inside', by rwa [kind, left]⟩, moved, inside'⟩

end OptionLoop

/-! ### Both loops -/

/-- **Both loops of `parse_work_item` keep their iterators inside the argument vectors.** The
second vector is what the unfolding leaves; its first element is the binary. -/
structure CursorSafe (profile : ToolProfile) (host : Host) (item : WorkItem) : Prop where
  unfolding : ∀ option, profile.responseFileOption = some option →
    UnfoldSafe host item option (rawArgs item)
  options : ∃ args binary, unfoldRespfile profile host item (rawArgs item) = .ok args ∧
    deref args 0 = .ok binary ∧
      OptionSafe profile host args ⟨1, startParsed profile item binary⟩

/-- The tokens the option loop walks over, the binary in front. -/
def unfoldedTokens (profile : ToolProfile) (host : Host) (item : WorkItem) : List Str :=
  match profile.responseFileOption with
  | none => rawArgs item
  | some option => unfoldTokens host item option (rawArgs item)

/-- No option of the command line waits for an argument that is not there. -/
def ArgumentsComplete (profile : ToolProfile) (host : Host) (item : WorkItem) : Prop :=
  (∀ option, profile.responseFileOption = some option →
      danglingResponse option (rawArgs item) = false) ∧
    danglingArgument profile.options profile.defaultCommandKind
      (unfoldedTokens profile host item).tail = false

variable {profile : ToolProfile} {host : Host} {item : WorkItem}

variable (profile host) in
theorem unfoldedTokens_ne_nil (nonempty : item.arguments ≠ []) :
    unfoldedTokens profile host item ≠ [] := by
  have raw : rawArgs item ≠ [] := by
    rw [rawArgs, Ne, List.map_eq_nil_iff]
    exact nonempty
  unfold unfoldedTokens
  cases profile.responseFileOption with
  | none => exact raw
  | some option => exact unfoldTokens_ne_nil raw

theorem unfoldRespfile_ok
    (complete : ∀ option, profile.responseFileOption = some option →
      danglingResponse option (rawArgs item) = false) :
    unfoldRespfile profile host item (rawArgs item) = .ok (unfoldedTokens profile host item) := by
  unfold unfoldedTokens
  cases given : profile.responseFileOption with
  | none => rw [unfoldRespfile, given]
  | some option => exact unfoldRespfile_eq given (complete option given)

/-- What the option loop does with the unfolded tokens, whatever its start state reads as binary. -/
theorem optionSafe_iff (nonempty : item.arguments ≠ []) (binary : Str) :
    OptionSafe profile host (unfoldedTokens profile host item)
        ⟨1, startParsed profile item binary⟩ ↔
      danglingArgument profile.options profile.defaultCommandKind
        (unfoldedTokens profile host item).tail = false := by
  have inside := List.length_pos_iff.mpr (unfoldedTokens_ne_nil profile host nonempty)
  have start : (LoopState.mk 1 (startParsed profile item binary)).it ≤
      (unfoldedTokens profile host item).length := inside
  rw [optionLoop_safe_iff start, ← List.drop_one]
  rfl

theorem argumentsComplete_of_cursorSafe (nonempty : item.arguments ≠ [])
    (safe : CursorSafe profile host item) : ArgumentsComplete profile host item := by
  obtain ⟨unfolding, args, binary, unfolded, -, options⟩ := safe
  have responses : ∀ option, profile.responseFileOption = some option →
      danglingResponse option (rawArgs item) = false := fun option given =>
    unfoldLoop_safe_iff.mp (unfolding option given)
  rw [unfoldRespfile_ok responses] at unfolded
  cases unfolded
  exact ⟨responses, (optionSafe_iff nonempty binary).mp options⟩

theorem cursorSafe_of_argumentsComplete (nonempty : item.arguments ≠ [])
    (complete : ArgumentsComplete profile host item) : CursorSafe profile host item := by
  obtain ⟨binary, rest, tokens⟩ := List.exists_cons_of_ne_nil
    (unfoldedTokens_ne_nil profile host nonempty)
  have first : deref (unfoldedTokens profile host item) 0 = .ok binary := by
    rw [tokens]
    rfl
  exact ⟨fun option given => unfoldLoop_safe_iff.mpr (complete.1 option given), _, binary,
    unfoldRespfile_ok complete.1, first, (optionSafe_iff nonempty binary).mpr complete.2⟩

/-- **The cursor is safe exactly when no option waits for an argument that is not there.** -/
theorem cursorSafe_iff (nonempty : item.arguments ≠ []) :
    CursorSafe profile host item ↔ ArgumentsComplete profile host item :=
  ⟨argumentsComplete_of_cursorSafe nonempty, cursorSafe_of_argumentsComplete nonempty⟩

/-! ### An option that dangles -/

/-- A profile with one option, `-o` with its argument in the next element. -/
def outputProfileJson : Json :=
  .obj [("defaultCommandKind".toList, .str "compile".toList),
    ("optionPrefix".toList, .str "-".toList),
    ("options".toList, .arr [.obj [("aliases".toList, .arr [.str "-o".toList]),
      ("argFormat".toList, .arr [.str "space".toList]), ("type".toList, .str "output".toList)]])]

/-- A machine without files. -/
def emptyHost : Host where
  canonical path dir := Path.append dir path
  regularFile _ _ := none

/-- The command `gcc` with the given arguments, run in `/work`. -/
def gccItem (arguments : List Str) : WorkItem where
  directory := "/work".toList
  arguments := "gcc".toList :: arguments
  respfile := none

/-- The command line `gcc -o`: the option loop reads `*end()`. -/
theorem cursor_past_end :
    ¬ ∀ (validRegex : Str → Bool) (j : Json) (profile : ToolProfile) (host : Host)
      (item : WorkItem), ToolProfile.load validRegex j = .ok profile → item.arguments ≠ [] →
        CursorSafe profile host item := by
  intro safe
  have complete := argumentsComplete_of_cursorSafe (List.cons_ne_nil _ _)
    (safe (fun _ => true) outputProfileJson _ emptyHost (gccItem ["-o".toList]) rfl
      (List.cons_ne_nil _ _))
  exact absurd complete.2 (by decide)

/-- The command line `gcc -o a.out a.c` of the same profile is walked safely. -/
theorem cursorSafe_output :
    ∃ profile, ToolProfile.load (fun _ => true) outputProfileJson = .ok profile ∧
      CursorSafe profile emptyHost (gccItem ["-o".toList, "a.out".toList, "a.c".toList]) := by
  refine ⟨_, rfl, ?_⟩
  refine (cursorSafe_iff (List.cons_ne_nil _ _)).mpr ⟨?_, by decide⟩
  intro option given
  cases given

end Xcalbuild.Profile
