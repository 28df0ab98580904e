/-
**The fate of every argument.**

The option loop moves over the arguments after the binary, one or two with each pass. `Fate` lists
what can become of an argument, and `Fate.Given` says which pass gives which fate.

* `fate_exists`: every pass gives its arguments one of the five fates;
* `existsUnique_fate`: and no second one;
* `arguments_accounted`: so every argument after the binary has exactly one fate, at most one of
  them is the target by its extension, and the preprocessing options and the sources are the
  arguments with these fates, in the order of the command line.
-/
import Xcalbuild.Profile.FullPath
import Xcalbuild.Profile.Passes

namespace Xcalbuild.Profile

open Library

/-- What becomes of an argument of the command line. -/
inductive Fate where
  /-- It is appended to the preprocessing options. -/
  | copied
  /-- It lies in the block of a matched option that drops its block. -/
  | consumed
  /-- It is recorded as a source. -/
  | source
  /-- It is recorded as the target, by its extension. -/
  | target
  /-- It is empty, and nothing is recorded of it. -/
  | empty
  deriving DecidableEq, Repr

/-- The arguments a pass moves over. -/
def passedOver (args : List Str) (state state' : LoopState) : List Str :=
  (args.drop state.it).take (state'.it - state.it)

/-- **The pass from `state` to `state'` gives its arguments this fate.** -/
def Fate.Given (profile : ToolProfile) (host : Host) (args : List Str) (state state' : LoopState) :
    Fate → Prop
  | .copied =>
      state'.parsed.ppOptions = state.parsed.ppOptions ++ passedOver args state state' ∧
        state'.parsed.sources = state.parsed.sources
  | .consumed => ∃ option, MatchedBy profile host args state state' option ∧ option.drops = true ∧
      (state'.it = state.it + 1 ∨ state'.it = state.it + 2) ∧
        state'.parsed.ppOptions = state.parsed.ppOptions ∧
          state'.parsed.sources = state.parsed.sources
  | .source => Unmatched profile host args state ∧ ∃ tok format, deref args state.it = .ok tok ∧
      state' = ⟨state.it + 1, { state.parsed with
        sources := state.parsed.sources ++
          [(host.getFullPathStr tok state.parsed.dir, format)] }⟩
  | .target => Unmatched profile host args state ∧ ∃ tok, deref args state.it = .ok tok ∧
      TakenAsTarget profile tok state.parsed ∧
        state' = ⟨state.it + 1, { state.parsed with
          target := host.getFullPathStr tok state.parsed.dir }⟩
  | .empty => Unmatched profile host args state ∧ deref args state.it = .ok [] ∧
      state' = ⟨state.it + 1, state.parsed⟩

/-- The argument at the position has the fate, in the walk of the option loop from `start`. -/
def FateOf (profile : ToolProfile) (host : Host) (args : List Str) (start : LoopState) (i : Nat)
    (fate : Fate) : Prop :=
  ∃ state state', (optionLoop profile host args).Covers LoopState.it start i state state' ∧
    fate.Given profile host args state state'

/-- The full path of the argument at a position. -/
def pathAt (host : Host) (args : List Str) (dir : Str) (i : Nat) : Str :=
  host.getFullPathStr (args.getD i []) dir

/-- **The arguments after the binary are accounted for.** -/
structure Accounted (profile : ToolProfile) (host : Host) (args : List Str) (start : LoopState)
    (parsed : ParsedWorkItem) : Prop where
  oneFate : ∀ i, start.it ≤ i → i < args.length → ∃! fate, FateOf profile host args start i fate
  oneTarget : ∀ i j, FateOf profile host args start i .target →
    FateOf profile host args start j .target → i = j
  ppOptions : ∃ places : List Nat, places.Pairwise (· < ·) ∧
    (∀ i, i ∈ places ↔ FateOf profile host args start i .copied) ∧
      parsed.ppOptions = places.map fun i => args.getD i []
  sources : ∃ places : List Nat, places.Pairwise (· < ·) ∧
    (∀ i, i ∈ places ↔ FateOf profile host args start i .source) ∧
      parsed.sources.map Prod.fst = places.map (pathAt host args start.parsed.dir)

variable {profile : ToolProfile} {host : Host} {args : List Str} {state state' start : LoopState}

/-! ### One fate for each pass -/

theorem consumed_of_drops {option : ToolOption}
    (matched : MatchedBy profile host args state state' option) (dropped : option.drops = true) :
    Fate.Given profile host args state state' .consumed := by
  obtain ⟨arg, -, made, moved, -⟩ := ToolOption.matchOption_some matched.result
  refine ⟨option, matched, dropped, moved, ?_, ?_⟩
  · rw [made, ToolOption.processMatch_ppOptions, if_pos dropped]
  · rw [made, ToolOption.processMatch_sources]

theorem copied_of_match {option : ToolOption}
    (matched : MatchedBy profile host args state state' option) (kept : option.drops = false) :
    Fate.Given profile host args state state' .copied := by
  obtain ⟨arg, -, made, -, -⟩ := ToolOption.matchOption_some matched.result
  refine ⟨?_, ?_⟩
  · rw [made, ToolOption.processMatch_ppOptions, kept, if_neg Bool.false_ne_true]
    rfl
  · rw [made, ToolOption.processMatch_sources]

theorem passedOver_one {tok : Str} (read : deref args state.it = .ok tok)
    (next : state'.it = state.it + 1) : passedOver args state state' = [tok] := by
  obtain ⟨inside, same⟩ := lt_of_deref read
  rw [passedOver, next, Nat.add_sub_cancel_left, List.drop_eq_getElem_cons inside, same]
  rfl

/-- **A pass that goes on gives its arguments a fate.** -/
theorem fate_exists (step : (optionLoop profile host args).body state = .next state') :
    ∃ fate : Fate, fate.Given profile host args state state' := by
  rcases optionLoop_next step with ⟨option, matched, -⟩ | ⟨unmatched, tok, read, rfl⟩
  · by_cases dropped : option.drops = true
    · exact ⟨.consumed, consumed_of_drops matched dropped⟩
    · exact ⟨.copied, copied_of_match matched (Bool.not_eq_true _ ▸ dropped)⟩
  · rcases leftover_cases profile host tok state.parsed with
      made | ⟨taken, made⟩ | ⟨byExtension, -, made⟩ | ⟨rfl, made⟩
    · refine ⟨.copied, ?_, ?_⟩
      · rw [passedOver_one read rfl, made]
      · rw [made]
    · exact ⟨.target, unmatched, tok, read, taken, by rw [made]⟩
    · exact ⟨.source, unmatched, tok, _, read, by rw [made]⟩
    · exact ⟨.empty, unmatched, read, by rw [made]⟩

/-- A pass moves over something. -/
theorem passedOver_ne_nil (step : (optionLoop profile host args).body state = .next state') :
    passedOver args state state' ≠ [] := by
  intro nothing
  obtain ⟨moved, inside⟩ := optionLoop_moves step
  have size := congrArg List.length nothing
  rw [passedOver, List.length_take, List.length_drop, List.length_nil] at size
  omega

/-! ### No second fate -/

open Classical in
/-- The fate of a pass, read off what the pass changes. -/
noncomputable def fateSeen (profile : ToolProfile) (host : Host) (args : List Str)
    (state state' : LoopState) : Fate :=
  if state'.parsed.ppOptions ≠ state.parsed.ppOptions then .copied
  else if state'.parsed.sources ≠ state.parsed.sources then .source
  else if ∃ option, MatchedBy profile host args state state' option then .consumed
  else if state'.parsed.target ≠ state.parsed.target then .target
  else .empty

/-- **The fate a pass gives is the one that is seen.** -/
theorem fate_eq_seen (absolute : ∀ path dir, IsFull (host.canonical path dir))
    (step : (optionLoop profile host args).body state = .next state') {fate : Fate}
    (given : fate.Given profile host args state state') :
    fate = fateSeen profile host args state state' := by
  unfold fateSeen
  cases fate with
  | copied =>
    have changed : state'.parsed.ppOptions ≠ state.parsed.ppOptions := by
      rw [given.1]
      exact fun same => passedOver_ne_nil step (List.append_right_eq_self.mp same)
    rw [if_pos changed]
  | consumed =>
    obtain ⟨option, matched, -, -, options, sources⟩ := given
    rw [if_neg (not_not_intro options), if_neg (not_not_intro sources), if_pos ⟨option, matched⟩]
  | source =>
    obtain ⟨-, tok, format, -, rfl⟩ := given
    have changed : state.parsed.sources ++ [(host.getFullPathStr tok state.parsed.dir, format)] ≠
        state.parsed.sources :=
      fun same => List.cons_ne_nil _ _ (List.append_right_eq_self.mp same)
    rw [if_neg (not_not_intro rfl), if_pos changed]
  | target =>
    obtain ⟨unmatched, tok, -, taken, rfl⟩ := given
    have changed : host.getFullPathStr tok state.parsed.dir ≠ state.parsed.target := by
      rw [taken.2]
      exact List.ne_nil_of_mem (absolute tok state.parsed.dir).mem
    rw [if_neg (not_not_intro rfl), if_neg (not_not_intro rfl),
      if_neg fun matched => unmatched.not_matched matched.choose_spec, if_pos changed]
  | empty =>
    obtain ⟨unmatched, -, rfl⟩ := given
    rw [if_neg (not_not_intro rfl), if_neg (not_not_intro rfl),
      if_neg fun matched => unmatched.not_matched matched.choose_spec, if_neg (not_not_intro rfl)]

theorem sources_of_fate {fate : Fate} (given : fate.Given profile host args state state')
    (other : fate ≠ .source) : state'.parsed.sources = state.parsed.sources := by
  cases fate with
  | copied => exact given.2
  | consumed => exact given.choose_spec.2.2.2.2
  | source => exact absurd rfl other
  | target =>
    obtain ⟨-, tok, -, -, rfl⟩ := given
    rfl
  | empty =>
    obtain ⟨-, -, rfl⟩ := given
    rfl

theorem ppOptions_of_fate {fate : Fate} (given : fate.Given profile host args state state')
    (other : fate ≠ .copied) : state'.parsed.ppOptions = state.parsed.ppOptions := by
  cases fate with
  | copied => exact absurd rfl other
  | consumed => exact given.choose_spec.2.2.2.1
  | source =>
    obtain ⟨-, tok, format, -, rfl⟩ := given
    rfl
  | target =>
    obtain ⟨-, tok, -, -, rfl⟩ := given
    rfl
  | empty =>
    obtain ⟨-, -, rfl⟩ := given
    rfl

/-! ### The whole walk -/

/-- The directory of the work item stays what it is. -/
theorem dir_kept (step : (optionLoop profile host args).body state = .next state') :
    state'.parsed.dir = state.parsed.dir := by
  rcases optionLoop_next step with ⟨option, matched, -⟩ | ⟨-, tok, -, rfl⟩
  · obtain ⟨arg, -, made, -⟩ := ToolOption.matchOption_some matched.result
    rw [made, ToolOption.processMatch_dir]
  · rcases leftover_cases profile host tok state.parsed with
      made | ⟨-, made⟩ | ⟨byExtension, -, made⟩ | ⟨-, made⟩ <;> rw [made]

theorem dir_constant (heads : (optionLoop profile host args).Heads start state) :
    state.parsed.dir = start.parsed.dir :=
  @Loop.heads_invariant _ _ _ (fun s : LoopState => s.parsed.dir = start.parsed.dir) _ rfl
    (fun _ _ same _ step => (dir_kept step).trans same) _ heads

/-- A target that is there is only replaced by another one. -/
theorem target_kept (absolute : ∀ path dir, IsFull (host.canonical path dir))
    (step : (optionLoop profile host args).body state = .next state')
    (there : IsFull state.parsed.target) : IsFull state'.parsed.target := by
  rcases optionLoop_next step with ⟨option, matched, -⟩ | ⟨-, tok, -, rfl⟩
  · obtain ⟨arg, -, made, -⟩ := ToolOption.matchOption_some matched.result
    rw [made]
    rcases ToolOption.processMatch_target host option _ arg state.parsed with same | same
    · rwa [same]
    · rw [same]
      exact absolute arg state.parsed.dir
  · rcases leftover_cases profile host tok state.parsed with
      made | ⟨-, made⟩ | ⟨byExtension, -, made⟩ | ⟨-, made⟩ <;> rw [made]
    · exact there
    · exact absolute tok state.parsed.dir
    · exact there
    · exact there

section Walk

variable (absolute : ∀ path dir, IsFull (host.canonical path dir))

include absolute in
/-- An argument that is passed over has exactly one fate. -/
theorem existsUnique_fate {i : Nat}
    (covers : (optionLoop profile host args).Covers LoopState.it start i state state') :
    ∃! fate, FateOf profile host args start i fate := by
  obtain ⟨fate, given⟩ := fate_exists covers.step
  refine ⟨fate, ⟨state, state', covers, given⟩, ?_⟩
  rintro other ⟨other', other'', covers', given'⟩
  obtain ⟨rfl, rfl⟩ := Loop.covers_unique (optionLoop_advances profile host args) covers covers'
  rw [fate_eq_seen absolute covers.step given', fate_eq_seen absolute covers.step given]

include absolute in
/-- Once a target is recorded by its extension, no later argument is. -/
theorem no_later_target {i : Nat} {other other' : LoopState}
    (covers : (optionLoop profile host args).Covers LoopState.it start i state state')
    (given : Fate.Given profile host args state state' .target)
    (later : (optionLoop profile host args).Heads state other)
    (again : Fate.Given profile host args other other' .target) : other = state := by
  obtain ⟨-, tok, -, -, next⟩ := given
  obtain ⟨-, tok', -, taken, -⟩ := again
  rcases later.split covers.notDone covers.step with same | further
  · exact same
  · have kept : IsFull other.parsed.target := by
      refine Loop.heads_invariant ?_
        (fun s s' there _ step => target_kept absolute step there) further
      rw [next]
      exact absolute tok state.parsed.dir
    rw [IsFull, taken.2] at kept
    cases kept

include absolute in
theorem oneTarget {i j : Nat} (first : FateOf profile host args start i .target)
    (second : FateOf profile host args start j .target) : i = j := by
  obtain ⟨s, s', covers, given⟩ := first
  obtain ⟨t, t', covers', given'⟩ := second
  have same : s = t := by
    rcases Loop.heads_comparable covers.heads covers'.heads with ahead | behind
    · exact (no_later_target absolute covers given ahead given').symm
    · exact no_later_target absolute covers' given' behind given
  subst same
  obtain ⟨-, tok, -, -, next⟩ := given
  obtain ⟨-, tok', -, -, next'⟩ := given'
  have upper := covers.upper
  have upper' := covers'.upper
  have lower := covers.lower
  have lower' := covers'.lower
  rw [next] at upper
  rw [next'] at upper'
  dsimp only at upper upper'
  omega

theorem range'_map_read {a k : Nat} (inside : a + k ≤ args.length) :
    (List.range' a k).map (fun i => args.getD i []) = (args.drop a).take k := by
  induction k generalizing a with
  | zero => rfl
  | succ k ih =>
    have here : a < args.length := by omega
    rw [List.range'_succ, List.map_cons, ih (by omega), List.drop_eq_getElem_cons here,
      List.take_succ_cons, List.getD_eq_getElem?_getD, List.getElem?_eq_getElem here]
    rfl

/-- The places of the passes that give a fate are the places with this fate. -/
theorem places_iff {final : LoopState} (atEnd : final.it = args.length) (fate : Fate) (i : Nat) :
    (i < final.it ∧ ∃ s s', (optionLoop profile host args).Covers LoopState.it start i s s' ∧
      fate.Given profile host args s s') ↔ FateOf profile host args start i fate := by
  refine ⟨fun covered => covered.2, fun covered => ⟨?_, covered⟩⟩
  obtain ⟨s, s', covers, -⟩ := covered
  have inside := (optionLoop_moves covers.step).2
  have upper := covers.upper
  omega

/-- The preprocessing options are the arguments with the fate `copied`. -/
theorem ppOptions_places {final : LoopState} (empty : start.parsed.ppOptions = [])
    (heads : (optionLoop profile host args).Heads start final) (atEnd : final.it = args.length) :
    ∃ places : List Nat, places.Pairwise (· < ·) ∧
      (∀ i, i ∈ places ↔ FateOf profile host args start i .copied) ∧
        final.parsed.ppOptions = places.map fun i => args.getD i [] := by
  have passes : ∀ s s', (optionLoop profile host args).Heads start s →
      (optionLoop profile host args).done s = false →
      (optionLoop profile host args).body s = .next s' →
        (Fate.Given profile host args s s' .copied ∧ ∃ new,
          s'.parsed.ppOptions = s.parsed.ppOptions ++ new ∧
            List.Forall₂ (fun i entry => entry = args.getD i [])
              (List.range' s.it (s'.it - s.it)) new) ∨
        (¬ Fate.Given profile host args s s' .copied ∧
          s'.parsed.ppOptions = s.parsed.ppOptions) := by
    intro s s' _ _ step
    obtain ⟨fate, given⟩ := fate_exists step
    by_cases copied : Fate.Given profile host args s s' .copied
    · obtain ⟨moved, inside⟩ := optionLoop_moves step
      refine Or.inl ⟨copied, _, copied.1, ?_⟩
      rw [passedOver, ← range'_map_read (by omega)]
      exact List.forall₂_map_right_iff.mpr (List.forall₂_same.mpr fun i _ => rfl)
    · exact Or.inr ⟨copied, ppOptions_of_fate given fun same => copied (same ▸ given)⟩
  obtain ⟨places, sorted, listed, entries⟩ := Loop.log_of_passes
    (optionLoop_advances profile host args) (fun s => s.parsed.ppOptions) _ _ empty passes heads
  exact ⟨places, sorted, fun i => (listed i).trans (places_iff atEnd .copied i),
    Loop.eq_map_of_entries entries⟩

/-- Every source is the full path of an argument with the fate `source`, together with what the
entry of the argument is known to satisfy. -/
theorem sources_places {final : LoopState} (entry : Nat → Str × FileFormat → Prop)
    (empty : start.parsed.sources = [])
    (records : ∀ s s' tok format, (optionLoop profile host args).Heads start s →
      (optionLoop profile host args).done s = false →
      (optionLoop profile host args).body s = .next s' → deref args s.it = .ok tok →
      s'.parsed.sources = s.parsed.sources ++ [(host.getFullPathStr tok s.parsed.dir, format)] →
        entry s.it (host.getFullPathStr tok s.parsed.dir, format))
    (heads : (optionLoop profile host args).Heads start final) (atEnd : final.it = args.length) :
    ∃ places : List Nat, places.Pairwise (· < ·) ∧
      (∀ i, i ∈ places ↔ FateOf profile host args start i .source) ∧
        List.Forall₂ entry places final.parsed.sources := by
  have passes : ∀ s s', (optionLoop profile host args).Heads start s →
      (optionLoop profile host args).done s = false →
      (optionLoop profile host args).body s = .next s' →
        (Fate.Given profile host args s s' .source ∧ ∃ new,
          s'.parsed.sources = s.parsed.sources ++ new ∧
            List.Forall₂ entry (List.range' s.it (s'.it - s.it)) new) ∨
        (¬ Fate.Given profile host args s s' .source ∧
          s'.parsed.sources = s.parsed.sources) := by
    intro s s' heads notDone step
    obtain ⟨fate, given⟩ := fate_exists step
    by_cases source : Fate.Given profile host args s s' .source
    · obtain ⟨-, tok, format, read, next⟩ := id source
      have sources : s'.parsed.sources = s.parsed.sources ++
          [(host.getFullPathStr tok s.parsed.dir, format)] := by rw [next]
      refine Or.inl ⟨source, _, sources, ?_⟩
      have one : List.range' s.it (s'.it - s.it) = [s.it] := by
        rw [next, Nat.add_sub_cancel_left]
        rfl
      rw [one]
      exact List.Forall₂.cons (records s s' tok format heads notDone step read sources) .nil
    · exact Or.inr ⟨source, sources_of_fate given fun same => source (same ▸ given)⟩
  obtain ⟨places, sorted, listed, entries⟩ := Loop.log_of_passes
    (optionLoop_advances profile host args) (fun s => s.parsed.sources) entry _ empty passes heads
  exact ⟨places, sorted, fun i => (listed i).trans (places_iff atEnd .source i), entries⟩

end Walk

theorem getD_of_deref {i : Nat} {tok : Str} (read : deref args i = .ok tok) :
    args.getD i [] = tok := by
  obtain ⟨inside, same⟩ := lt_of_deref read
  rw [List.getD_eq_getElem?_getD, List.getElem?_eq_getElem inside, same]
  rfl

/-- **Every argument after the binary has exactly one fate**, for every profile and every argument
vector that the option loop walks safely to its end. -/
theorem arguments_accounted (profile : ToolProfile) (host : Host)
    (absolute : ∀ path dir, IsFull (host.canonical path dir)) (item : WorkItem) (binary : Str)
    (rest : List Str)
    (safe : OptionSafe profile host (binary :: rest) ⟨1, startParsed profile item binary⟩) :
    ∃ parsed, parseArgs profile host item (binary :: rest) = .ok parsed ∧
      (parsed.kind ≠ .ignore → Accounted profile host (binary :: rest)
        ⟨1, startParsed profile item binary⟩ parsed) := by
  obtain ⟨final, result, atEnd⟩ := parseArgs_of_safe safe
  refine ⟨final.parsed, result, fun kept => ?_⟩
  obtain ⟨heads, done⟩ := Loop.run_finished (atEnd kept)
  have whole : final.it = (binary :: rest).length := option_done.mp done
  obtain ⟨places, sorted, listed, entries⟩ := sources_places
    (fun i source => source.1 = pathAt host (binary :: rest) item.directory i) rfl
    (fun s s' tok format before _ _ read _ => by
      rw [pathAt, getD_of_deref read, dir_constant before]
      rfl) heads whole
  exact
    { oneFate := fun i lower upper => by
        obtain ⟨s, s', covers⟩ := Loop.covers_before lower heads (by rwa [whole])
        exact existsUnique_fate absolute covers
      oneTarget := fun i j first second => oneTarget absolute first second
      ppOptions := ppOptions_places rfl heads whole
      sources := ⟨places, sorted, listed, Loop.eq_map_of_entries
        (List.forall₂_map_right_iff.mpr entries)⟩ }

/-! ### A command line -/

/-- A machine without files, whose current directory is the root. -/
def rootHost : Host where
  canonical path dir :=
    let full := if IsFull path then path else Path.append dir path
    if IsFull full then full else '/' :: full
  regularFile _ _ := none

theorem rootHost_absolute (path dir : Str) : IsFull (rootHost.canonical path dir) := by
  show IsFull (if IsFull _ then _ else _)
  by_cases full : IsFull (if IsFull path then path else Path.append dir path)
  · rw [if_pos full]
    exact full
  · rw [if_neg full]
    rfl

/-- A profile with the options `-o` and `-x`, which take their arguments from the next element, the
option `-I` with its argument attached, and the source extensions of two languages. -/
def ccProfileJson : Json :=
  .obj [("cAliases".toList, .arr [.str "gcc".toList]),
    ("cxxAliases".toList, .arr [.str "g++".toList]),
    ("defaultCommandKind".toList, .str "compile".toList),
    ("optionPrefix".toList, .str "-".toList),
    ("options".toList, .arr [
      .obj [("aliases".toList, .arr [.str "-o".toList]),
        ("argFormat".toList, .arr [.str "space".toList]), ("type".toList, .str "output".toList)],
      .obj [("aliases".toList, .arr [.str "-x".toList]),
        ("argFormat".toList, .arr [.str "space".toList]),
        ("argValues".toList, .obj [("c".toList, .str "c".toList),
          ("c++".toList, .str "c++".toList), ("none".toList, .str "ext".toList)]),
        ("type".toList, .str "language".toList)],
      .obj [("aliases".toList, .arr [.str "-I".toList]),
        ("argFormat".toList, .arr [.str "attached".toList]),
        ("type".toList, .str "isystem".toList)]]),
    ("sourceExtensions".toList, .obj [("c".toList, .arr [.str ".c".toList]),
      ("c++".toList, .arr [.str ".cc".toList])])]

/-- The profile that is loaded from it. -/
def ccProfile : ToolProfile := (ToolProfile.load (fun _ => true) ccProfileJson).toOption.get rfl

/-- `gcc -Iinc a.c -o a.out -lm` -/
def ccArgs : List Str :=
  ["gcc".toList, "-Iinc".toList, "a.c".toList, "-o".toList, "a.out".toList, "-lm".toList]

/-- The arguments of a command line are accounted for. -/
theorem arguments_accounted_gcc :
    ∃ parsed, parseArgs ccProfile rootHost (gccItem []) ccArgs = .ok parsed ∧
      parsed.ppOptions = ["-Iinc".toList, "-lm".toList] ∧
        Accounted ccProfile rootHost ccArgs
          ⟨1, startParsed ccProfile (gccItem []) "gcc".toList⟩ parsed := by
  have safe : OptionSafe ccProfile rootHost ccArgs
      ⟨1, startParsed ccProfile (gccItem []) "gcc".toList⟩ :=
    (optionLoop_safe_iff (by decide)).mpr (by decide)
  obtain ⟨parsed, result, accounted⟩ := arguments_accounted ccProfile rootHost rootHost_absolute
    (gccItem []) "gcc".toList ccArgs.tail safe
  have made : (parseArgs ccProfile rootHost (gccItem []) ccArgs).map
      (fun parsed => (parsed.kind, parsed.ppOptions)) =
        .ok (.compile, ["-Iinc".toList, "-lm".toList]) := by
    decide
  rw [show ccArgs = "gcc".toList :: ccArgs.tail from rfl, result] at made
  obtain ⟨kind, options⟩ := Prod.mk.inj (Except.ok.inj made)
  refine ⟨parsed, result, options, accounted ?_⟩
  rw [kind]
  decide

end Xcalbuild.Profile
