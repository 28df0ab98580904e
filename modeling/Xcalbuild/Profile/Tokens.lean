/-
**The option loop, by recursion over the tokens.**

The option loop walks an iterator over the argument vector. What it makes of the tokens that are left
depends on these tokens and on the state alone (`walkTokens`): the first option that accepts a token
takes it, with its argument, and a token that no option accepts is left over.

* `walkTokens_some`, `walkTokens_none`: one step; `walkTokens_invariant`: what every step keeps;
* **`parseArgs_eq`**, `exists_walk`: parsing is walking over the tokens.
-/
import Xcalbuild.Profile.Passes

namespace Xcalbuild.Profile

open Library

namespace ToolOption

/-- The tokens of a match: the token, and the next one if it is the argument. -/
def takenTokens (o : ToolOption) (tok : Str) (rest : List Str) : List Str :=
  match rest with
  | [] => [tok]
  | next :: _ => if o.spaceForm tok && !o.prefixStops next then [tok, next] else [tok]

/-- The state after the option has taken a token. -/
def take (o : ToolOption) (host : Host) (tok : Str) (rest : List Str) (parsed : ParsedWorkItem) :
    ParsedWorkItem :=
  o.processMatch host (o.takenTokens tok rest) (o.takeArg tok rest).1 parsed

variable {o : ToolOption} {host : Host} {tok next : Str} {rest : List Str} {parsed : ParsedWorkItem}

theorem takenTokens_append (o : ToolOption) (tok : Str) (rest : List Str) :
    o.takenTokens tok rest ++ (o.takeArg tok rest).2 = tok :: rest := by
  unfold takenTokens takeArg
  cases rest with
  | nil => cases o.spaceForm tok <;> rfl
  | cons next rest =>
    cases space : o.spaceForm tok <;> cases stops : o.prefixStops next <;> simp [stops]

variable (o host tok rest parsed) in
theorem take_kind : (o.take host tok rest parsed).kind = o.kindAfter parsed.kind :=
  processMatch_kind _ _ _

/-- What is left after a match is shorter. -/
theorem takeArg_length (o : ToolOption) (tok : Str) (rest : List Str) :
    (o.takeArg tok rest).2.length ≤ rest.length := by
  unfold takeArg
  cases rest with
  | nil => split_ifs <;> exact Nat.le_refl _
  | cons next rest =>
    dsimp only
    split_ifs
    · exact Nat.le_refl _
    · exact Nat.le_succ _
    · exact Nat.le_refl _

/-- What an option takes depends on the next token only. -/
theorem take_next (next : Str) (rest : List Str) :
    o.take host tok (next :: rest) parsed = o.take host tok [next] parsed := by
  have arg : (o.takeArg tok (next :: rest)).1 = (o.takeArg tok [next]).1 := by
    unfold takeArg
    dsimp only
    split_ifs <;> rfl
  unfold take
  rw [arg]
  rfl

/-- Outside the space form nothing after the token is taken. -/
theorem take_inline (inline : o.spaceForm tok = false) (rest : List Str) :
    o.take host tok rest parsed = o.take host tok [] parsed := by
  unfold take takeArg takenTokens
  cases rest with
  | nil => rfl
  | cons next rest => simp [inline]

end ToolOption

/-- **The walk over the tokens that are left.** -/
def walkTokens (profile : ToolProfile) (host : Host) :
    ParsedWorkItem → List Str → Except CursorFault ParsedWorkItem
  | parsed, [] => .ok parsed
  | parsed, tok :: rest =>
      match profile.options.find? fun option => option.accepts tok with
      | none => walkTokens profile host (leftover profile host tok parsed) rest
      | some option =>
          match rest with
          | [] => if option.spaceForm tok then .error .pastEnd else .ok (option.take host tok [] parsed)
          | next :: rest =>
              if (option.take host tok (next :: rest) parsed).kind = .ignore then
                .ok (option.take host tok (next :: rest) parsed)
              else if option.spaceForm tok && !option.prefixStops next then
                walkTokens profile host (option.take host tok (next :: rest) parsed) rest
              else walkTokens profile host (option.take host tok (next :: rest) parsed) (next :: rest)

section Walk

variable {profile : ToolProfile} {host : Host} {tok : Str} {rest : List Str}
  {parsed : ParsedWorkItem} {option : ToolOption}

theorem walkTokens_none
    (refused : profile.options.find? (fun option => option.accepts tok) = none) :
    walkTokens profile host parsed (tok :: rest) =
      walkTokens profile host (leftover profile host tok parsed) rest := by
  rw [walkTokens, refused]

theorem walkTokens_some
    (first : profile.options.find? (fun option => option.accepts tok) = some option) :
    walkTokens profile host parsed (tok :: rest) =
      if option.dangles tok rest then .error .pastEnd
      else if option.kindAfter parsed.kind = .ignore then .ok (option.take host tok rest parsed)
      else walkTokens profile host (option.take host tok rest parsed) (option.takeArg tok rest).2 := by
  rw [walkTokens, first, ← ToolOption.take_kind option host tok rest parsed]
  cases rest with
  | nil => cases space : option.spaceForm tok <;>
      simp [ToolOption.dangles, ToolOption.takeArg, space, walkTokens]
  | cons next rest =>
    cases space : option.spaceForm tok <;> cases stops : option.prefixStops next <;>
      simp [ToolOption.dangles, ToolOption.takeArg, space, stops]

/-- The argument is in the token itself, or there is none. -/
theorem walkTokens_inline
    (first : profile.options.find? (fun option => option.accepts tok) = some option)
    (inline : option.spaceForm tok = false) (rest : List Str) :
    walkTokens profile host parsed (tok :: rest) =
      if option.kindAfter parsed.kind = .ignore then .ok (option.take host tok [] parsed)
      else walkTokens profile host (option.take host tok [] parsed) rest := by
  rw [walkTokens_some first, ToolOption.take_inline inline]
  simp [ToolOption.dangles, ToolOption.takeArg, inline]

/-- The next token is the argument. -/
theorem walkTokens_space
    (first : profile.options.find? (fun option => option.accepts tok) = some option)
    (space : option.spaceForm tok = true) {next : Str} (goes : option.prefixStops next = false)
    (rest : List Str) :
    walkTokens profile host parsed (tok :: next :: rest) =
      if option.kindAfter parsed.kind = .ignore then .ok (option.take host tok [next] parsed)
      else walkTokens profile host (option.take host tok [next] parsed) rest := by
  rw [walkTokens_some first, ToolOption.take_next]
  simp [ToolOption.dangles, ToolOption.takeArg, space, goes]

/-- The next token starts with the option prefix, so it is no argument. -/
theorem walkTokens_stopped
    (first : profile.options.find? (fun option => option.accepts tok) = some option)
    (space : option.spaceForm tok = true) {next : Str} (stops : option.prefixStops next = true)
    (rest : List Str) :
    walkTokens profile host parsed (tok :: next :: rest) =
      if option.kindAfter parsed.kind = .ignore then .ok (option.take host tok [next] parsed)
      else walkTokens profile host (option.take host tok [next] parsed) (next :: rest) := by
  rw [walkTokens_some first, ToolOption.take_next]
  simp [ToolOption.dangles, ToolOption.takeArg, space, stops]

/-- The argument is not there. -/
theorem walkTokens_dangling
    (first : profile.options.find? (fun option => option.accepts tok) = some option)
    (space : option.spaceForm tok = true) :
    walkTokens profile host parsed [tok] = .error .pastEnd := by
  rw [walkTokens_some first, ToolOption.dangles, space]
  rfl

/-- **What every step keeps, the walk keeps.** -/
theorem walkTokens_invariant (inv : ParsedWorkItem → Prop)
    (keptLeftover : ∀ tok parsed, inv parsed → inv (leftover profile host tok parsed))
    (keptTake : ∀ option tok rest parsed,
      profile.options.find? (fun option => option.accepts tok) = some option →
        inv parsed → inv (option.take host tok rest parsed))
    {tokens : List Str} {result : ParsedWorkItem} (start : inv parsed)
    (walked : walkTokens profile host parsed tokens = .ok result) : inv result := by
  induction size : tokens.length using Nat.strong_induction_on generalizing tokens parsed with
  | _ length ih =>
    cases tokens with
    | nil =>
      cases walked
      exact start
    | cons tok rest =>
      rw [List.length_cons] at size
      cases first : profile.options.find? (fun option => option.accepts tok) with
      | none =>
        rw [walkTokens_none first] at walked
        exact ih rest.length (by omega) (keptLeftover tok parsed start) walked rfl
      | some option =>
        have shorter := option.takeArg_length tok rest
        have taken := keptTake option tok rest parsed first start
        rw [walkTokens_some first] at walked
        split_ifs at walked with dangles ignored
        · cases walked
          exact taken
        · exact ih _ (by omega) taken walked rfl

end Walk

/-! ### The loop is the walk -/

section Run

variable (profile : ToolProfile) (host : Host) {args : List Str}

variable {profile host} in
/-- The pass at an option that is matched. -/
theorem option_take {state : LoopState} {tok : Str} {rest : List Str} {option : ToolOption}
    (ahead : args.drop state.it = tok :: rest)
    (first : profile.options.find? (fun option => option.accepts tok) = some option)
    (complete : option.dangles tok rest = false) :
    ∃ it', (optionLoop profile host args).body state =
        (if option.kindAfter state.parsed.kind = .ignore then
          .leave ⟨it', option.take host tok rest state.parsed⟩
        else .next ⟨it', option.take host tok rest state.parsed⟩) ∧
      args.drop it' = (option.takeArg tok rest).2 ∧ state.it < it' ∧ it' ≤ args.length := by
  have accepted : option.accepts tok = true :=
    List.find?_some (p := fun option : ToolOption => option.accepts tok) first
  obtain ⟨it', taken, left, moved, inside⟩ :=
    ToolOption.matchAndGetArg_accept ahead accepted complete
  have tokens : (args.drop state.it).take (it' - state.it) = option.takenTokens tok rest := by
    have parts := option.takenTokens_append tok rest
    rw [← ahead, ← left] at parts
    have lengths := congrArg List.length parts
    rw [List.length_append, List.length_drop, List.length_drop] at lengths
    rw [← parts]
    exact List.take_left' (by omega)
  refine ⟨it', ?_, left, by omega, inside⟩
  have matched : option.matchOption host args state.it state.parsed =
      .ok (some (it', option.take host tok rest state.parsed)) := by
    rw [ToolOption.matchOption, taken, ok_bind, ToolOption.take, ← tokens]
    rfl
  simp only [optionLoop, matchAny_some ahead first, matched, ToolOption.take_kind]

/-- The run from any head. -/
theorem run_eq_walkTokens {state : LoopState} {tokens : List Str} {fuel : Nat}
    (ahead : args.drop state.it = tokens) (inside : state.it ≤ args.length)
    (enough : tokens.length < fuel) :
    (exitState ((optionLoop profile host args).run fuel state)).map LoopState.parsed =
      walkTokens profile host state.parsed tokens := by
  induction size : tokens.length using Nat.strong_induction_on generalizing state tokens fuel with
  | _ length ih =>
    cases tokens with
    | nil =>
      have atEnd : state.it = args.length := by
        have := List.drop_eq_nil_iff.mp ahead
        omega
      rw [Loop.run_done (option_done.mpr atEnd)]
      rfl
    | cons tok rest =>
      obtain ⟨fuel, rfl⟩ : ∃ fuel', fuel = fuel' + 1 := ⟨fuel - 1, by omega⟩
      have notDone := option_notDone profile host ahead
      have here := (List.getElem?_eq_some_iff.mp (ToolOption.getElem?_of_drop ahead)).1
      rw [List.length_cons] at enough size
      cases first : profile.options.find? (fun option => option.accepts tok) with
      | none =>
        rw [walkTokens_none first, Loop.run_next notDone (option_leftover profile host ahead first)]
        exact ih rest.length (by omega) (ToolOption.drop_succ_of_drop ahead) here (by omega) rfl
      | some option =>
        rw [walkTokens_some first]
        by_cases dangling : option.dangles tok rest = true
        · rw [if_pos dangling,
            Loop.run_fault notDone (option_dangling profile host ahead first dangling)]
          rfl
        · rw [if_neg dangling]
          obtain ⟨it', step, left, -, inside'⟩ :=
            option_take ahead first (Bool.not_eq_true _ ▸ dangling)
          have shorter := option.takeArg_length tok rest
          by_cases ignored : option.kindAfter state.parsed.kind = .ignore
          · rw [if_pos ignored] at step ⊢
            rw [Loop.run_leave notDone step]
            rfl
          · rw [if_neg ignored] at step ⊢
            rw [Loop.run_next notDone step]
            exact ih _ (by omega) left inside' (by omega) rfl

/-- **Parsing an argument vector is walking over its tokens.** -/
theorem parseArgs_eq (item : WorkItem) (binary : Str) (rest : List Str) :
    parseArgs profile host item (binary :: rest) =
      walkTokens profile host (startParsed profile item binary) rest := by
  have first : deref (binary :: rest) 0 = .ok binary := rfl
  have start : (binary :: rest).drop (LoopState.mk 1 (startParsed profile item binary)).it = rest :=
    rfl
  have enough : rest.length < (binary :: rest).length + 1 := by
    rw [List.length_cons]
    omega
  rw [← run_eq_walkTokens profile host start (Nat.succ_le_succ (Nat.zero_le _)) enough, parseArgs,
    first, ok_bind]
  cases exitState ((optionLoop profile host (binary :: rest)).run ((binary :: rest).length + 1)
    ⟨1, startParsed profile item binary⟩) <;> rfl

variable {profile host} in
/-- **A work item that is parsed is walked over, token by token.** -/
theorem exists_walk {item : WorkItem} {parsed : ParsedWorkItem}
    (result : parseWorkItem profile host item = .ok parsed) :
    ∃ binary rest, unfoldedTokens profile host item = binary :: rest ∧
      walkTokens profile host (startParsed profile item binary) rest = .ok parsed := by
  obtain ⟨args, unfolded, walked⟩ := bind_eq_ok result
  have tokens : args = unfoldedTokens profile host item := by
    have complete : ∀ option, profile.responseFileOption = some option →
        danglingResponse option (rawArgs item) = false := by
      intro option given
      cases dangling : danglingResponse option (rawArgs item) with
      | false => rfl
      | true =>
        rw [unfoldRespfile_dangling given dangling] at unfolded
        cases unfolded
    rw [unfoldRespfile_ok complete] at unfolded
    exact (Except.ok.inj unfolded).symm
  cases args with
  | nil => cases walked
  | cons binary rest =>
    rw [parseArgs_eq] at walked
    exact ⟨binary, rest, tokens.symm, walked⟩

end Run

end Xcalbuild.Profile
