/-
**The language of every source.**

The option loop carries the current language with it: the name of the binary sets it, a language
option with a known argument sets it again, and an argument recorded as a source takes it, or the
language of its own extension when the current one is `ext`.

* `LanguageAt`: the argument at a position is a language option that is matched with a known
  argument;
* `LanguageBefore`: the language in force at a position, by the nearest of these before it, or by
  the name of the binary when there is none;
* `inForce_head`: the language the loop carries is the one in force;
* `formats_recorded`: so every source is recorded with the language in force at its place, and
  what is recorded stays as it is; `sources_formats` says which formats these are for commands of any
  default kind.
-/
import Xcalbuild.Profile.Fates

namespace Xcalbuild.Profile

open Library

namespace ToolOption

variable {host : Host} {o : ToolOption}

/-- The current language after the option is processed. -/
def languageAfter (o : ToolOption) (arg : Str) (current : FileFormat) : FileFormat :=
  match o.behaviour with
  | .language argToLang => (argToLang.lookup arg).getD current
  | _ => current

theorem processMatch_fileFormat (matched : List Str) (arg : Str) (parsed : ParsedWorkItem) :
    (o.processMatch host matched arg parsed).fileFormat =
      o.languageAfter arg parsed.fileFormat := by
  have process : (o.process host arg parsed).2.fileFormat =
      o.languageAfter arg parsed.fileFormat := by
    unfold process languageAfter
    cases o.behaviour with
    | language argToLang =>
      dsimp only
      cases argToLang.lookup arg <;> rfl
    | scan data => dsimp only; split <;> rfl
    | _ => rfl
  unfold processMatch
  dsimp only
  split_ifs <;> exact process

end ToolOption

section Language

variable (profile : ToolProfile) (host : Host) (args : List Str) (start : LoopState)

/-- The argument at the position is a matched language option whose own argument is one of its
`argValues`, and stands for this format. -/
def LanguageAt (i : Nat) (format : FileFormat) : Prop :=
  ∃ state state' option argToLang arg,
    (optionLoop profile host args).Covers LoopState.it start i state state' ∧ state.it = i ∧
      MatchedBy profile host args state state' option ∧
        option.behaviour = .language argToLang ∧
          option.matchAndGetArg args i [] = .ok (some (state'.it, arg)) ∧
            argToLang.lookup arg = some format

/-- The nearest language option with a known argument before the position stands for this
format. -/
def NearestLanguage (i : Nat) (format : FileFormat) : Prop :=
  ∃ j, j < i ∧ LanguageAt profile host args start j format ∧
    ∀ k, j < k → k < i → ∀ other, ¬ LanguageAt profile host args start k other

/-- The format that the name of a binary stands for: C when its stem is a C alias, else C++ when it is
a C++ alias, else `ext`. -/
def StandsFor (binary : Str) (format : FileFormat) : Prop :=
  (Path.stem binary ∈ profile.cAliases ∧ format = .cSource) ∨
    (Path.stem binary ∉ profile.cAliases ∧ Path.stem binary ∈ profile.cxxAliases ∧
      format = .cxxSource) ∨
    (Path.stem binary ∉ profile.cAliases ∧ Path.stem binary ∉ profile.cxxAliases ∧ format = .ext)

/-- The format in force at the position: that of the nearest language option with a known argument,
or, when there is none, the one the name of the binary stands for. -/
def LanguageBefore (i : Nat) (format : FileFormat) : Prop :=
  NearestLanguage profile host args start i format ∨
    ((∀ j, j < i → ∀ other, ¬ LanguageAt profile host args start j other) ∧
      StandsFor profile start.parsed.binary format)

/-- The format in force at the position, in a loop that starts with the given one. -/
def InForce (first : FileFormat) (i : Nat) (format : FileFormat) : Prop :=
  NearestLanguage profile host args start i format ∨
    ((∀ j, j < i → ∀ other, ¬ LanguageAt profile host args start j other) ∧ format = first)

/-- The format that a source at the position is recorded with. -/
def RecordedFormat (i : Nat) (format : FileFormat) : Prop :=
  ∃ language byExtension, InForce profile host args start start.parsed.fileFormat i language ∧
    profile.sourceExtensions.lookup (extensionOf (args.getD i [])) = some byExtension ∧
      format = if language = .ext then byExtension else language

/-- The positions of the arguments that are recorded as sources, in order. -/
def SourcePlaces (places : List Nat) : Prop :=
  places.Pairwise (· < ·) ∧ ∀ i, i ∈ places ↔ FateOf profile host args start i .source

/-- The path and the format recorded of the argument at the position. -/
def RecordedAt (i : Nat) (source : Str × FileFormat) : Prop :=
  source.1 = pathAt host args start.parsed.dir i ∧
    ∃ language byExtension, LanguageBefore profile host args start i language ∧
      profile.sourceExtensions.lookup (extensionOf (args.getD i [])) = some byExtension ∧
        source.2 = if language = .ext then byExtension else language

/-- **Every source is recorded with the language in force at its place**, and a recorded source
stays as it is. -/
structure FormatsRecorded (parsed : ParsedWorkItem) : Prop where
  sources : ∃ places : List Nat, places.Pairwise (· < ·) ∧
    (∀ i, i ∈ places ↔ FateOf profile host args start i .source) ∧
      List.Forall₂ (RecordedAt profile host args start) places parsed.sources
  kept : ∀ state, (optionLoop profile host args).Heads start state →
    state.parsed.sources <+: parsed.sources

end Language

variable {profile : ToolProfile} {host : Host} {args : List Str} {state state' start : LoopState}

/-- The aliases are asked in this order. -/
theorem standsFor_iff {binary : Str} {format : FileFormat} :
    StandsFor profile binary format ↔ format = binaryFormat profile binary := by
  unfold StandsFor binaryFormat
  by_cases isC : Path.stem binary ∈ profile.cAliases
  · simp [isC]
  · by_cases isCxx : Path.stem binary ∈ profile.cxxAliases
    · simp [isC, isCxx]
    · simp [isC, isCxx]

/-- The language before a position is the one in force there, when the name of the binary sets the
first one. -/
theorem languageBefore_iff {i : Nat} {format : FileFormat} :
    LanguageBefore profile host args start i format ↔
      InForce profile host args start (binaryFormat profile start.parsed.binary) i format := by
  unfold LanguageBefore InForce
  rw [standsFor_iff]

/-- Only a language option with a known argument changes the current language. -/
theorem languageAfter_cases (option : ToolOption) (arg : Str) (current : FileFormat) :
    (∃ argToLang format, option.behaviour = .language argToLang ∧
        argToLang.lookup arg = some format ∧ option.languageAfter arg current = format) ∨
      ((∀ argToLang, option.behaviour = .language argToLang → argToLang.lookup arg = none) ∧
        option.languageAfter arg current = current) := by
  unfold ToolOption.languageAfter
  cases behaviour : option.behaviour with
  | language argToLang =>
    cases known : argToLang.lookup arg with
    | some format => exact Or.inl ⟨argToLang, format, rfl, known, by simp [known]⟩
    | none =>
      refine Or.inr ⟨fun other same => ?_, by simp [known]⟩
      cases same
      exact known
  | _ =>
    refine Or.inr ⟨fun other same => ?_, rfl⟩
    cases same

/-- A leftover argument does not change the current language. -/
theorem leftover_fileFormat (tok : Str) (parsed : ParsedWorkItem) :
    (leftover profile host tok parsed).fileFormat = parsed.fileFormat := by
  rcases leftover_cases profile host tok parsed with
    made | ⟨-, made⟩ | ⟨byExtension, -, made⟩ | ⟨-, made⟩ <;> rw [made]

/-- **One pass either is a language option with a known argument, and sets the current language, or
it leaves the language alone.** -/
theorem language_pass (heads : (optionLoop profile host args).Heads start state)
    (notDone : (optionLoop profile host args).done state = false)
    (step : (optionLoop profile host args).body state = .next state') :
    LanguageAt profile host args start state.it state'.parsed.fileFormat ∨
      ((∀ k, state.it ≤ k → k < state'.it →
          ∀ format, ¬ LanguageAt profile host args start k format) ∧
        state'.parsed.fileFormat = state.parsed.fileFormat) := by
  obtain ⟨moved, -⟩ := optionLoop_moves step
  have covers : (optionLoop profile host args).Covers LoopState.it start state.it state state' :=
    ⟨heads, notDone, step, Nat.le_refl _, by omega⟩
  -- a language option at a place of this pass is the match of this pass
  have only : ∀ k format, state.it ≤ k → k < state'.it →
      LanguageAt profile host args start k format → ∃ option argToLang arg,
        MatchedBy profile host args state state' option ∧
          option.behaviour = .language argToLang ∧
            option.matchAndGetArg args state.it [] = .ok (some (state'.it, arg)) ∧
              argToLang.lookup arg = some format := by
    rintro k format lower upper ⟨t, t', option, argToLang, arg, covers', here, rest⟩
    obtain ⟨rfl, rfl⟩ := Loop.covers_unique (optionLoop_advances profile host args)
      (⟨heads, notDone, step, lower, upper⟩ : Loop.Covers _ _ _ _ state state') covers'
    rw [← here] at rest
    exact ⟨option, argToLang, arg, rest⟩
  rcases optionLoop_next step with ⟨option, matched, -⟩ | ⟨unmatched, tok, -, rfl⟩
  · obtain ⟨arg, taken, made, -, -⟩ := ToolOption.matchOption_some matched.result
    have format : state'.parsed.fileFormat = option.languageAfter arg state.parsed.fileFormat := by
      rw [made, ToolOption.processMatch_fileFormat]
    rcases languageAfter_cases option arg state.parsed.fileFormat with
      ⟨argToLang, known, behaviour, found, same⟩ | ⟨unknown, same⟩
    · refine Or.inl ⟨state, state', option, argToLang, arg, covers, rfl, matched, behaviour, taken,
        ?_⟩
      rw [format, same]
      exact found
    · refine Or.inr ⟨fun k lower upper other found => ?_, format.trans same⟩
      obtain ⟨option', argToLang, arg', matched', behaviour, taken', known⟩ :=
        only k other lower upper found
      cases matched.unique matched'
      rw [taken] at taken'
      cases taken'
      rw [unknown argToLang behaviour] at known
      cases known
  · refine Or.inr ⟨fun k lower upper other found => ?_, leftover_fileFormat tok state.parsed⟩
    obtain ⟨option, -, -, matched, -⟩ := only k other lower upper found
    exact unmatched.not_matched matched

/-- The language in force is the one before, when no language option lies between. -/
theorem InForce.extend {first : FileFormat} {i j : Nat} {format : FileFormat} (forward : i ≤ j)
    (before : InForce profile host args start first i format)
    (between : ∀ k, i ≤ k → k < j → ∀ other, ¬ LanguageAt profile host args start k other) :
    InForce profile host args start first j format := by
  rcases before with ⟨inForce, earlier, language, nearest⟩ | ⟨nothing, same⟩
  · refine Or.inl ⟨inForce, by omega, language, fun k after upper other => ?_⟩
    by_cases early : k < i
    · exact nearest k after early other
    · exact between k (Nat.le_of_not_lt early) upper other
  · refine Or.inr ⟨fun k upper other => ?_, same⟩
    by_cases early : k < i
    · exact nothing k early other
    · exact between k (Nat.le_of_not_lt early) upper other

/-- A language option stands for one format. -/
theorem LanguageAt.unique {i : Nat} {format other : FileFormat}
    (first : LanguageAt profile host args start i format)
    (second : LanguageAt profile host args start i other) : format = other := by
  obtain ⟨s, s', option, values, arg, covers, -, matched, behaviour, taken, known⟩ := first
  obtain ⟨t, t', option', values', arg', covers', -, matched', behaviour', taken', known'⟩ := second
  obtain ⟨rfl, rfl⟩ := Loop.covers_unique (optionLoop_advances profile host args) covers covers'
  cases matched.unique matched'
  rw [behaviour] at behaviour'
  rw [taken] at taken'
  cases behaviour'
  cases taken'
  rw [known] at known'
  exact Option.some.inj known'

/-- **One language is in force at every place.** -/
theorem InForce.unique {initial : FileFormat} {i : Nat} {format other : FileFormat}
    (first : InForce profile host args start initial i format)
    (second : InForce profile host args start initial i other) : format = other := by
  rcases first with ⟨j, early, inForce, nearest⟩ | ⟨nothing, same⟩
  · rcases second with ⟨k, early', inForce', nearest'⟩ | ⟨nothing', -⟩
    · rcases Nat.lt_trichotomy j k with before | rfl | after
      · exact absurd inForce' (nearest k before early' other)
      · exact inForce.unique inForce'
      · exact absurd inForce (nearest' j after early format)
    · exact absurd inForce (nothing' j early format)
  · rcases second with ⟨k, early', inForce', -⟩ | ⟨-, same'⟩
    · exact absurd inForce' (nothing k early' other)
    · rw [same, same']

theorem LanguageBefore.unique {i : Nat} {format other : FileFormat}
    (first : LanguageBefore profile host args start i format)
    (second : LanguageBefore profile host args start i other) : format = other :=
  (languageBefore_iff.mp first).unique (languageBefore_iff.mp second)

/-- **A source is recorded with one format.** -/
theorem RecordedFormat.unique {i : Nat} {format other : FileFormat}
    (first : RecordedFormat profile host args start i format)
    (second : RecordedFormat profile host args start i other) : format = other := by
  obtain ⟨language, byExtension, inForce, known, same⟩ := first
  obtain ⟨language', byExtension', inForce', known', same'⟩ := second
  cases inForce.unique inForce'
  rw [known] at known'
  cases known'
  rw [same, same']

/-- **The language the loop carries is the one in force.** -/
theorem inForce_head (heads : (optionLoop profile host args).Heads start state) :
    InForce profile host args start start.parsed.fileFormat state.it state.parsed.fileFormat := by
  induction heads with
  | enter =>
    refine Or.inr ⟨fun j early other found => ?_, rfl⟩
    obtain ⟨s, s', -, -, -, covers, here, -⟩ := found
    have forward := Loop.position_mono (optionLoop_advances profile host args) covers.heads
    omega
  | @pass state state' before notDone step ih =>
    obtain ⟨moved, -⟩ := optionLoop_moves step
    rcases language_pass before notDone step with found | ⟨nothing, same⟩
    · refine Or.inl ⟨state.it, by omega, found, fun k after upper other found' => ?_⟩
      -- a second place of the same pass is not where its option stands
      obtain ⟨s, s', -, -, -, covers, here, -⟩ := found'
      obtain ⟨rfl, rfl⟩ := Loop.covers_unique (optionLoop_advances profile host args)
        (⟨before, notDone, step, Nat.le_of_lt after, upper⟩ : Loop.Covers _ _ _ _ state state')
        covers
      omega
    · rw [same]
      exact ih.extend (by omega) nothing

/-- No pass takes back a recorded source. -/
theorem sources_prefix (step : (optionLoop profile host args).body state = .next state') :
    state.parsed.sources <+: state'.parsed.sources := by
  obtain ⟨fate, given⟩ := fate_exists step
  by_cases source : fate = .source
  · subst source
    obtain ⟨-, tok, format, -, rfl⟩ := given
    exact List.prefix_append _ _
  · exact sources_of_fate given source ▸ List.prefix_refl _

/-- The format that a pass records of a source. -/
theorem recordedFormat_of_pass (heads : (optionLoop profile host args).Heads start state)
    (step : (optionLoop profile host args).body state = .next state') {tok : Str}
    {format : FileFormat} (read : deref args state.it = .ok tok)
    (records : state'.parsed.sources = state.parsed.sources ++
      [(host.getFullPathStr tok state.parsed.dir, format)]) :
    RecordedFormat profile host args start state.it format := by
  have grows : ∀ {other : ParsedWorkItem}, state'.parsed.sources = other.sources →
      other.sources ≠ state.parsed.sources := by
    intro other same unchanged
    rw [← same, records] at unchanged
    exact List.cons_ne_nil _ _ (List.append_right_eq_self.mp unchanged)
  rcases optionLoop_next step with ⟨option, matched, -⟩ | ⟨-, tok', read', rfl⟩
  · obtain ⟨arg, -, made, -⟩ := ToolOption.matchOption_some matched.result
    exact absurd (by rw [made, ToolOption.processMatch_sources]) (grows rfl)
  · rw [read] at read'
    cases read'
    rcases leftover_cases profile host tok state.parsed with
      made | ⟨-, made⟩ | ⟨byExtension, known, made⟩ | ⟨-, made⟩
    · exact absurd (by rw [made]) (grows rfl)
    · exact absurd (by rw [made]) (grows rfl)
    · rw [made] at records
      have same := List.append_cancel_left records
      refine ⟨state.parsed.fileFormat, byExtension, inForce_head heads, ?_, ?_⟩
      · rw [getD_of_deref read]
        exact known
      · exact (congrArg Prod.snd (List.singleton_inj.mp same)).symm
    · exact absurd (by rw [made]) (grows rfl)

/-- What a pass records of a source. -/
theorem recordedAt_of_pass
    (first : start.parsed.fileFormat = binaryFormat profile start.parsed.binary)
    (heads : (optionLoop profile host args).Heads start state)
    (step : (optionLoop profile host args).body state = .next state') {tok : Str}
    {format : FileFormat} (read : deref args state.it = .ok tok)
    (records : state'.parsed.sources = state.parsed.sources ++
      [(host.getFullPathStr tok state.parsed.dir, format)]) :
    RecordedAt profile host args start state.it
      (host.getFullPathStr tok state.parsed.dir, format) := by
  obtain ⟨language, byExtension, inForce, known, same⟩ :=
    recordedFormat_of_pass heads step read records
  rw [first] at inForce
  refine ⟨?_, language, byExtension, languageBefore_iff.mpr inForce, known, same⟩
  rw [pathAt, getD_of_deref read, dir_constant heads]

/-- The work item is parsed by a run of the option loop over the unfolded arguments, and unless the
command is one to ignore the loop ends at its condition. -/
theorem parseWorkItem_run {item : WorkItem} {parsed : ParsedWorkItem}
    (result : parseWorkItem profile host item = .ok parsed) (kept : parsed.kind ≠ .ignore) :
    ∃ binary rest final, unfoldRespfile profile host item (rawArgs item) = .ok (binary :: rest) ∧
      (optionLoop profile host (binary :: rest)).run ((binary :: rest).length + 1)
        ⟨1, startParsed profile item binary⟩ = .finished final ∧ final.parsed = parsed := by
  obtain ⟨args, unfolded, result⟩ := bind_eq_ok result
  obtain ⟨binary, read, result⟩ := bind_eq_ok result
  obtain ⟨final, ends, made⟩ := bind_eq_ok result
  cases made
  cases args with
  | nil => cases read
  | cons first rest =>
    cases read
    refine ⟨binary, rest, final, unfolded, ?_, rfl⟩
    cases run : (optionLoop profile host (binary :: rest)).run ((binary :: rest).length + 1)
        ⟨1, startParsed profile item binary⟩ with
    | finished last => rw [run] at ends; cases ends; rfl
    | broke last =>
      rw [run] at ends
      cases ends
      obtain ⟨state, leaves⟩ := Loop.run_broke run
      exact absurd (optionLoop_leave leaves) kept
    | fault error => rw [run] at ends; cases ends
    | exhausted => rw [run] at ends; cases ends

/-- **The format recorded of every source is the one of the nearest language option before it with
a known argument, else the one of the binary's name; and in place of `ext` the one of the source's
extension.** -/
theorem formats_recorded (profile : ToolProfile) (host : Host) (item : WorkItem)
    (parsed : ParsedWorkItem) (compiles : profile.defaultCommandKind = .compile)
    (result : parseWorkItem profile host item = .ok parsed) (kept : parsed.kind ≠ .ignore) :
    ∃ binary rest, unfoldRespfile profile host item (rawArgs item) = .ok (binary :: rest) ∧
      FormatsRecorded profile host (binary :: rest) ⟨1, startParsed profile item binary⟩ parsed := by
  obtain ⟨binary, rest, final, unfolded, run, rfl⟩ := parseWorkItem_run result kept
  obtain ⟨heads, done⟩ := Loop.run_finished run
  have first : (startParsed profile item binary).fileFormat = binaryFormat profile binary := by
    rw [startParsed, compiles]
    rfl
  refine ⟨binary, rest, unfolded, ?_, ?_⟩
  · exact sources_places _ rfl
      (fun s s' tok format before _ step read records =>
        recordedAt_of_pass first before step read records) heads (option_done.mp done)
  · intro state before
    rcases Loop.heads_comparable before heads with ahead | behind
    · exact Loop.log_prefix (fun s : LoopState => s.parsed.sources)
        (fun s s' step => sources_prefix step) ahead
    · exact behind.eq_of_done done ▸ List.prefix_refl _

/-- **The formats of the sources**, whatever the command is: each is recorded of the argument at its
place. -/
theorem sources_formats {item : WorkItem} {parsed : ParsedWorkItem}
    (result : parseWorkItem profile host item = .ok parsed) (kept : parsed.kind ≠ .ignore) :
    ∃ binary rest places, unfoldRespfile profile host item (rawArgs item) = .ok (binary :: rest) ∧
      SourcePlaces profile host (binary :: rest) ⟨1, startParsed profile item binary⟩ places ∧
        List.Forall₂ (fun i source => RecordedFormat profile host (binary :: rest)
          ⟨1, startParsed profile item binary⟩ i source.2) places parsed.sources := by
  obtain ⟨binary, rest, final, unfolded, run, rfl⟩ := parseWorkItem_run result kept
  obtain ⟨heads, done⟩ := Loop.run_finished run
  obtain ⟨places, sorted, listed, entries⟩ := sources_places
    (fun i source => RecordedFormat profile host (binary :: rest)
      ⟨1, startParsed profile item binary⟩ i source.2) rfl
    (fun s s' tok format before _ step read records =>
      recordedFormat_of_pass before step read records) heads (option_done.mp done)
  exact ⟨binary, rest, places, unfolded, ⟨sorted, listed⟩, entries⟩

/-- `gcc a.c -x c++ b.c -x none c.cc` -/
def threeSources : WorkItem :=
  gccItem ["a.c".toList, "-x".toList, "c++".toList, "b.c".toList, "-x".toList, "none".toList,
    "c.cc".toList]

/-- `g++ a.c -x c b.cc -x none c.cc` -/
def aliasedSources : WorkItem where
  directory := "/work".toList
  arguments := ["g++".toList, "a.c".toList, "-x".toList, "c".toList, "b.cc".toList, "-x".toList,
    "none".toList, "c.cc".toList]
  respfile := none

/-- The alias of the binary, a language option and the extension decide the language of one source
each. -/
theorem formats_recorded_aliased :
    ∃ parsed, parsed.sources = [("/work/a.c".toList, .cxxSource), ("/work/b.cc".toList, .cSource),
        ("/work/c.cc".toList, .cxxSource)] ∧
      ∃ binary rest, unfoldRespfile ccProfile rootHost aliasedSources (rawArgs aliasedSources) =
          .ok (binary :: rest) ∧
        FormatsRecorded ccProfile rootHost (binary :: rest)
          ⟨1, startParsed ccProfile aliasedSources binary⟩ parsed := by
  have made : (parseWorkItem ccProfile rootHost aliasedSources).map
        (fun parsed => (parsed.kind, parsed.sources)) =
      .ok (.compile, [("/work/a.c".toList, .cxxSource), ("/work/b.cc".toList, .cSource),
        ("/work/c.cc".toList, .cxxSource)]) := by
    decide
  cases result : parseWorkItem ccProfile rootHost aliasedSources with
  | error fault => rw [result] at made; cases made
  | ok parsed =>
    rw [result] at made
    obtain ⟨kind, sources⟩ := Prod.mk.inj (Except.ok.inj made)
    refine ⟨parsed, sources, formats_recorded ccProfile rootHost _ parsed rfl result ?_⟩
    rw [kind]
    decide

end Xcalbuild.Profile
