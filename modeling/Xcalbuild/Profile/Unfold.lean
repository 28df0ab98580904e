/-
**Unfolding the response file.**

The unfolding loop of `parse_work_item` looks for the first token that the response option accepts.
`unfoldTokens` says what it makes of the tokens, by recursion over them.

* `unfoldRespfile_eq`: the argument vector after the loop is `unfoldTokens` of the one before it;
* `unfoldLoop_safe_iff`: the iterator stays inside the vector unless the response option takes its
  argument from the next element and stands last (`danglingResponse`).
-/
import Xcalbuild.Profile.Load

namespace Xcalbuild.Profile

open Library

/-- The first token the response option accepts takes its argument from the next element and is
the last one. -/
def danglingResponse (option : ToolOption) : List Str → Bool
  | [] => false
  | tok :: rest => if option.accepts tok then option.dangles tok rest else danglingResponse option rest

/-- The tokens with the first response file unfolded. -/
def unfoldTokens (host : Host) (item : WorkItem) (option : ToolOption) : List Str → List Str
  | [] => []
  | tok :: rest =>
      if option.accepts tok then
        respTokens (respContent host item (option.takeArg tok rest).1) ++ (option.takeArg tok rest).2
      else tok :: unfoldTokens host item option rest

theorem respTokens_ne_nil (content : Str) : respTokens content ≠ [] := by
  unfold respTokens
  rw [Ne, List.map_eq_nil_iff]
  exact split_ne_nil isSpace content

theorem unfoldTokens_ne_nil {host : Host} {item : WorkItem} {option : ToolOption}
    {tokens : List Str} (nonempty : tokens ≠ []) : unfoldTokens host item option tokens ≠ [] := by
  cases tokens with
  | nil => exact absurd rfl nonempty
  | cons tok rest =>
    unfold unfoldTokens
    split_ifs
    · exact List.append_ne_nil_of_left_ne_nil (respTokens_ne_nil _) _
    · exact List.cons_ne_nil _ _

/-- The tokens that are left before the end of a vector. -/
theorem exists_drop_of_lt {args : List Str} {it : Nat} (inside : it < args.length) :
    ∃ tok rest, args.drop it = tok :: rest :=
  ⟨args[it], args.drop (it + 1), List.drop_eq_getElem_cons inside⟩

variable (host : Host) (item : WorkItem) {option : ToolOption} {raw : List Str}

/-! ### One pass -/

variable {host item} in
theorem unfold_done {state : UnfoldState} :
    (unfoldLoop host item option raw).done state = true ↔ state.it = raw.length := by
  simp [unfoldLoop]

variable {host item} in
/-- The heads of the loop that are not done stand on a token. -/
theorem unfold_token {state : UnfoldState} (inside : state.it ≤ raw.length)
    (notDone : (unfoldLoop host item option raw).done state = false) :
    ∃ tok rest, raw.drop state.it = tok :: rest := by
  have notEnd : state.it ≠ raw.length := fun atEnd => by
    rw [unfold_done.mpr atEnd] at notDone
    cases notDone
  exact exists_drop_of_lt (by omega)

theorem unfold_notDone (option : ToolOption) {state : UnfoldState} {tok : Str} {rest : List Str}
    (ahead : raw.drop state.it = tok :: rest) :
    (unfoldLoop host item option raw).done state = false := by
  have inside := (List.getElem?_eq_some_iff.mp (ToolOption.getElem?_of_drop ahead)).1
  rw [← Bool.not_eq_true, unfold_done]
  omega

theorem unfold_refuse {state : UnfoldState} {tok : Str} {rest : List Str}
    (ahead : raw.drop state.it = tok :: rest) (refused : option.accepts tok = false) :
    (unfoldLoop host item option raw).body state = .next ⟨state.it + 1, state.args ++ [tok]⟩ := by
  have found := ToolOption.getElem?_of_drop ahead
  simp [unfoldLoop, ToolOption.matchAndGetArg_refuse found refused,
    ToolOption.deref_of_getElem? found]

theorem unfold_accept {state : UnfoldState} {tok : Str} {rest : List Str}
    (ahead : raw.drop state.it = tok :: rest) (accepted : option.accepts tok = true)
    (complete : option.dangles tok rest = false) :
    ∃ it', (unfoldLoop host item option raw).body state = .leave ⟨it', state.args ++
        respTokens (respContent host item (option.takeArg tok rest).1)⟩ ∧
      raw.drop it' = (option.takeArg tok rest).2 ∧ it' ≤ raw.length := by
  obtain ⟨it', taken, left, -, inside⟩ := ToolOption.matchAndGetArg_accept ahead accepted complete
  exact ⟨it', by simp [unfoldLoop, taken], left, inside⟩

theorem unfold_dangling {state : UnfoldState} {tok : Str} {rest : List Str}
    (ahead : raw.drop state.it = tok :: rest) (dangling : option.dangles tok rest = true) :
    (unfoldLoop host item option raw).body state = .fault .pastEnd := by
  simp [unfoldLoop, ToolOption.matchAndGetArg_dangling ahead dangling]

/-! ### The whole loop -/

/-- What a run from any head makes of the tokens that are left. -/
theorem unfold_run {tokens : List Str} {state : UnfoldState} {fuel : Nat}
    (ahead : raw.drop state.it = tokens) (inside : state.it ≤ raw.length)
    (complete : danglingResponse option tokens = false) (enough : tokens.length < fuel) :
    ∃ final, exitState ((unfoldLoop host item option raw).run fuel state) = .ok final ∧
      final.finish raw = state.args ++ unfoldTokens host item option tokens := by
  induction tokens generalizing state fuel with
  | nil =>
    have atEnd : state.it = raw.length := by
      have := List.drop_eq_nil_iff.mp ahead
      omega
    refine ⟨state, ?_, ?_⟩
    · rw [Loop.run_done (unfold_done.mpr atEnd)]
      rfl
    · rw [UnfoldState.finish, ahead]
      rfl
  | cons tok rest ih =>
    obtain ⟨fuel, rfl⟩ : ∃ fuel', fuel = fuel' + 1 := ⟨fuel - 1, by omega⟩
    have notDone := unfold_notDone host item option ahead
    unfold danglingResponse at complete
    unfold unfoldTokens
    cases accepted : option.accepts tok with
    | true =>
      rw [if_pos accepted] at complete
      obtain ⟨it', step, left, -⟩ := unfold_accept host item ahead accepted complete
      refine ⟨_, by rw [Loop.run_leave notDone step]; rfl, ?_⟩
      rw [UnfoldState.finish, left, if_pos rfl, List.append_assoc]
    | false =>
      rw [accepted, if_neg Bool.false_ne_true] at complete
      have step := unfold_refuse host item ahead accepted
      have here := (List.getElem?_eq_some_iff.mp (ToolOption.getElem?_of_drop ahead)).1
      have left : raw.drop (UnfoldState.mk (state.it + 1) (state.args ++ [tok])).it = rest :=
        ToolOption.drop_succ_of_drop ahead
      obtain ⟨final, run, finish⟩ := ih left here complete (Nat.lt_of_succ_lt_succ enough)
      refine ⟨final, by rw [Loop.run_next notDone step, run], ?_⟩
      rw [finish, if_neg Bool.false_ne_true, List.append_assoc]
      rfl

/-- A run that comes to a dangling response option ends in a fault. -/
theorem unfold_run_dangling {tokens : List Str} {state : UnfoldState} {fuel : Nat}
    (ahead : raw.drop state.it = tokens) (dangling : danglingResponse option tokens = true)
    (enough : tokens.length < fuel) :
    (unfoldLoop host item option raw).run fuel state = .fault .pastEnd := by
  induction tokens generalizing state fuel with
  | nil => cases dangling
  | cons tok rest ih =>
    obtain ⟨fuel, rfl⟩ : ∃ fuel', fuel = fuel' + 1 := ⟨fuel - 1, by omega⟩
    have notDone := unfold_notDone host item option ahead
    unfold danglingResponse at dangling
    cases accepted : option.accepts tok with
    | true =>
      rw [if_pos accepted] at dangling
      exact Loop.run_fault notDone (unfold_dangling host item ahead dangling) fuel
    | false =>
      rw [accepted, if_neg Bool.false_ne_true] at dangling
      have left : raw.drop (UnfoldState.mk (state.it + 1) (state.args ++ [tok])).it = rest :=
        ToolOption.drop_succ_of_drop ahead
      rw [Loop.run_next notDone (unfold_refuse host item ahead accepted)]
      exact ih left dangling (Nat.lt_of_succ_lt_succ enough)

variable {host item} in
/-- A dangling response option is a fault of the whole unfolding. -/
theorem unfoldRespfile_dangling {profile : ToolProfile}
    (given : profile.responseFileOption = some option)
    (dangling : danglingResponse option raw = true) :
    unfoldRespfile profile host item raw = .error .pastEnd := by
  have whole : raw.drop (UnfoldState.mk 0 []).it = raw := List.drop_zero
  have run := unfold_run_dangling host item whole dangling (Nat.lt_succ_self raw.length)
  rw [unfoldRespfile, given]
  simp only [run]
  rfl

variable {host item} in
/-- **The unfolded argument vector**, by recursion over the tokens. -/
theorem unfoldRespfile_eq {profile : ToolProfile} (given : profile.responseFileOption = some option)
    (complete : danglingResponse option raw = false) :
    unfoldRespfile profile host item raw = .ok (unfoldTokens host item option raw) := by
  have whole : raw.drop (UnfoldState.mk 0 []).it = raw := List.drop_zero
  obtain ⟨final, run, finish⟩ :=
    unfold_run host item whole (Nat.zero_le _) complete (Nat.lt_succ_self raw.length)
  rw [unfoldRespfile, given]
  simp only [run, ok_bind, finish]
  rfl

/-! ### The iterator -/

/-- The iterator of the unfolding loop stays inside the vector, and the loop ends at the end or at
a match. -/
def UnfoldSafe (host : Host) (item : WorkItem) (option : ToolOption) (raw : List Str) : Prop :=
  (unfoldLoop host item option raw).WalkSafe UnfoldState.it raw.length
    (fun _ => raw.any option.accepts = true) ⟨0, []⟩

/-- A walk that comes to a dangling response option runs into a fault. -/
theorem unfold_faults {tokens : List Str} {state : UnfoldState}
    (ahead : raw.drop state.it = tokens) (dangling : danglingResponse option tokens = true) :
    ∃ head, (unfoldLoop host item option raw).Heads state head ∧
      (unfoldLoop host item option raw).done head = false ∧
        (unfoldLoop host item option raw).body head = .fault .pastEnd := by
  induction tokens generalizing state with
  | nil => cases dangling
  | cons tok rest ih =>
    have notDone := unfold_notDone host item option ahead
    unfold danglingResponse at dangling
    cases accepted : option.accepts tok with
    | true =>
      rw [if_pos accepted] at dangling
      exact ⟨state, .enter, notDone, unfold_dangling host item ahead dangling⟩
    | false =>
      rw [accepted, if_neg Bool.false_ne_true] at dangling
      have step := unfold_refuse host item ahead accepted
      have left : raw.drop (UnfoldState.mk (state.it + 1) (state.args ++ [tok])).it = rest :=
        ToolOption.drop_succ_of_drop ahead
      obtain ⟨head, heads, headNotDone, faulty⟩ := ih left dangling
      exact ⟨head, heads.head notDone step, headNotDone, faulty⟩

theorem any_of_drop {args : List Str} {it : Nat} {tok : Str} {rest : List Str} {p : Str → Bool}
    (ahead : args.drop it = tok :: rest) (holds : p tok = true) : args.any p = true :=
  List.any_eq_true.mpr ⟨tok, List.mem_of_mem_drop (ahead ▸ List.mem_cons_self), holds⟩

variable {host item} in
/-- **The unfolding loop is safe exactly when the response option does not dangle.** -/
theorem unfoldLoop_safe_iff :
    UnfoldSafe host item option raw ↔ danglingResponse option raw = false := by
  constructor
  · intro safe
    cases dangling : danglingResponse option raw with
    | false => rfl
    | true =>
      have whole : raw.drop (UnfoldState.mk 0 []).it = raw := List.drop_zero
      obtain ⟨head, heads, notDone, faulty⟩ := unfold_faults host item whole dangling
      exact absurd faulty (safe.reads head heads notDone _)
  · intro complete
    refine Loop.walkSafe_of_invariant
      (fun state => state.it ≤ raw.length ∧
        danglingResponse option (raw.drop state.it) = false)
      ⟨Nat.zero_le _, by rwa [List.drop_zero]⟩ (fun state done => unfold_done.mp done) ?_
    rintro state ⟨inside, rest⟩ notDone
    obtain ⟨tok, tail, ahead⟩ := unfold_token inside notDone
    have here := (List.getElem?_eq_some_iff.mp (ToolOption.getElem?_of_drop ahead)).1
    rw [ahead, danglingResponse] at rest
    cases accepted : option.accepts tok with
    | true =>
      rw [if_pos accepted] at rest
      obtain ⟨it', step, -, inside'⟩ := unfold_accept host item ahead accepted rest
      exact Or.inr ⟨_, step, any_of_drop ahead accepted, inside'⟩
    | false =>
      rw [accepted, if_neg Bool.false_ne_true] at rest
      refine Or.inl ⟨_, unfold_refuse host item ahead accepted, ⟨here, ?_⟩, Or.inl rfl, here⟩
      rwa [ToolOption.drop_succ_of_drop ahead]

end Xcalbuild.Profile
