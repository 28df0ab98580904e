/-
**White space in a response file.**

The content of a response file is split at every white space character, so that each run of `n` of
them leaves `n - 1` empty tokens (`none` in `marks`), and so do leading and trailing ones. These
tokens go through the option loop like all others.

* `blankUse`: what the walk makes of the first empty token that is not ignored;
* `walkTokens_unseen`: where it ignores all of them, they can be left out;
* `walkTokens_kept`: one that an option takes for its argument, and keeps, is seen in the result;
* **`parse_respaced`**: so two contents with the same words give the same parsed work item when no
  empty token is used, and different ones when one of them is kept.
-/
import Mathlib.Data.List.ReduceOption
import Xcalbuild.Profile.Response
import Xcalbuild.Profile.Tokens

namespace Xcalbuild.Profile

open Library

/-! ### Contents and their words -/

/-- The words of a content. -/
def contentWords (content : Str) : List Str := (split isSpace content).filter (· ≠ [])

/-- The tokens of a content, with `none` for an empty token that white space makes. -/
def marks (content : Str) : List (Option Str) :=
  (split isSpace content).map fun token => if token = [] then none else some (unquote token)

/-- The tokens that marks stand for. -/
def markTokens (marked : List (Option Str)) : List Str := marked.map (·.getD [])

theorem markTokens_marks (content : Str) : markTokens (marks content) = respTokens content := by
  unfold markTokens marks respTokens
  rw [List.map_map]
  refine List.map_congr_left fun token _ => ?_
  by_cases empty : token = []
  · simp [empty, unquote]
  · simp [empty]

theorem reduceOption_marks (content : Str) :
    (marks content).reduceOption = (contentWords content).map unquote := by
  unfold marks contentWords
  induction split isSpace content with
  | nil => rfl
  | cons token rest ih =>
    by_cases empty : token = []
    · simpa [empty] using ih
    · simpa [empty] using ih

/-- The place of the response-file argument in an argument vector. -/
structure ResponseSlot where
  before : List Str
  name : Str
  after : List Str

/-- The first argument that the response option accepts. -/
def responseSlot (option : ToolOption) : List Str → Option ResponseSlot
  | [] => none
  | tok :: rest =>
      if option.accepts tok then some ⟨[], (option.takeArg tok rest).1, (option.takeArg tok rest).2⟩
      else (responseSlot option rest).map fun slot => { slot with before := tok :: slot.before }

/-- The work item with this content of its response file. -/
def WorkItem.withContent (item : WorkItem) (content : Str) : WorkItem :=
  { item with respfile := some content }

/-- The unfolded argument vector, with `none` for the empty tokens that white space makes. -/
def vectorMarks (slot : ResponseSlot) (content : Str) : List (Option Str) :=
  slot.before.map some ++ (marks content ++ slot.after.map some)

/-! ### Where an empty token is not seen -/

/-- Nothing is made of an empty token that stands where an option may stand. -/
def blankIgnored (profile : ToolProfile) (hasTarget : Bool) : Bool :=
  (profile.options.find? fun option => option.accepts []).isNone &&
    decide (profile.optionPrefix ≠ some []) &&
    (hasTarget || (profile.targetExtensions.lookup []).isNone) &&
    (profile.sourceExtensions.lookup []).isNone

/-- There is a target after the option has taken its argument. -/
def ToolOption.targetAfter (o : ToolOption) (host : Host) (dir arg : Str) (hasTarget : Bool) : Bool :=
  match o.behaviour with
  | .output => decide (host.getFullPathStr arg dir ≠ [])
  | _ => hasTarget

/-- There is a target after a token that no option accepts. -/
def leftoverTarget (profile : ToolProfile) (host : Host) (dir tok : Str) (hasTarget : Bool) : Bool :=
  if (profile.optionPrefix.any fun lead => lead.isPrefixOf tok) then hasTarget
  else if hasTarget = false ∧ (profile.targetExtensions.lookup (extensionOf tok)).isSome then
    decide (host.getFullPathStr tok dir ≠ [])
  else hasTarget

/-- What the walk makes of the empty tokens. -/
inductive BlankUse where
  /-- All of them are ignored. -/
  | unseen
  /-- The first that is not ignored is taken for its argument by an option that keeps its tokens, and
  it is in the place of a word or of nothing. -/
  | kept
  /-- The first that is not ignored is taken for something else. -/
  | other
  deriving DecidableEq

/-- **What the walk makes of the empty tokens**: it is followed with the kind of the command, since
`ignore` ends it, and with whether there is a target. -/
def blankUse (profile : ToolProfile) (host : Host) (dir : Str) :
    CommandKind → Bool → List (Option Str) → BlankUse
  | _, _, [] => .unseen
  | kind, hasTarget, none :: rest =>
      if blankIgnored profile hasTarget then blankUse profile host dir kind hasTarget rest else .other
  | kind, hasTarget, some tok :: rest =>
      match profile.options.find? fun option => option.accepts tok with
      | none => blankUse profile host dir kind (leftoverTarget profile host dir tok hasTarget) rest
      | some option =>
          match rest with
          | [] => .unseen
          | none :: rest =>
              if option.spaceForm tok then
                if !option.drops && !option.prefixStops [] && rest.reduceOption.head? ≠ some [] then
                  .kept
                else .other
              else if option.kindAfter kind = .ignore then .unseen
              else
                blankUse profile host dir (option.kindAfter kind)
                  (option.targetAfter host dir (option.takeArg tok []).1 hasTarget) (none :: rest)
          | some next :: rest =>
              if option.kindAfter kind = .ignore then .unseen
              else if option.spaceForm tok && !option.prefixStops next then
                blankUse profile host dir (option.kindAfter kind)
                  (option.targetAfter host dir next hasTarget) rest
              else
                blankUse profile host dir (option.kindAfter kind)
                  (option.targetAfter host dir (option.takeArg tok [next]).1 hasTarget)
                  (some next :: rest)

/-! ### The scan follows the walk -/

section Follow

variable {profile : ToolProfile} {host : Host} {tok next : Str} {rest : List Str}
  {parsed : ParsedWorkItem} {option : ToolOption}

/-- There is a target. -/
def hasTarget (parsed : ParsedWorkItem) : Bool := decide (parsed.target ≠ [])

theorem take_dir : (option.take host tok rest parsed).dir = parsed.dir :=
  ToolOption.processMatch_dir _ _ _

theorem process_hasTarget (arg : Str) : hasTarget (option.process host arg parsed).2 =
    option.targetAfter host parsed.dir arg (hasTarget parsed) := by
  unfold ToolOption.process ToolOption.targetAfter
  cases option.behaviour with
  | language argToLang => dsimp only; split <;> rfl
  | scan data => dsimp only; split <;> rfl
  | _ => rfl

theorem take_hasTarget : hasTarget (option.take host tok rest parsed) =
    option.targetAfter host parsed.dir (option.takeArg tok rest).1 (hasTarget parsed) := by
  rw [← process_hasTarget, ToolOption.take, ToolOption.processMatch]
  cases copied : (option.process host (option.takeArg tok rest).1 parsed).1 <;> rfl

theorem leftover_dir (tok : Str) (parsed : ParsedWorkItem) :
    (leftover profile host tok parsed).dir = parsed.dir := by
  rcases leftover_cases profile host tok parsed with
    made | ⟨-, made⟩ | ⟨_, -, made⟩ | ⟨-, made⟩ <;> rw [made]

theorem leftover_hasTarget (tok : Str) (parsed : ParsedWorkItem) :
    hasTarget (leftover profile host tok parsed) =
      leftoverTarget profile host parsed.dir tok (hasTarget parsed) := by
  unfold leftover leftoverTarget hasTarget
  by_cases lead : (profile.optionPrefix.any fun lead => lead.isPrefixOf tok) = true
  · rw [if_pos lead, if_pos lead]
  rw [if_neg lead, if_neg lead]
  by_cases empty : parsed.target = []
  · by_cases target : (profile.targetExtensions.lookup (extensionOf tok)).isSome = true
    · have nonempty : 0 < profile.targetExtensions.length := by
        apply List.length_pos_of_ne_nil
        intro absent
        rw [absent] at target
        cases target
      simp [empty, target, nonempty]
    · simp only [empty, target]
      cases profile.sourceExtensions.lookup (extensionOf tok) with
      | some format => simp
      | none => by_cases blank : tok = [] <;> simp [blank, empty]
  · have given : decide (parsed.target ≠ []) = true := decide_eq_true empty
    rw [given]
    simp only [empty, false_and, and_false]
    cases profile.sourceExtensions.lookup (extensionOf tok) with
    | some format => simp [empty]
    | none => by_cases blank : tok = [] <;> simp [blank, empty]

/-- The empty token does not start with an option prefix. -/
theorem not_lead_blank (lead : profile.optionPrefix ≠ some []) :
    ¬ (profile.optionPrefix.any fun lead => lead.isPrefixOf []) = true := by
  intro nonempty
  obtain ⟨lead', given, short⟩ := (Option.any_eq_true _ _).mp nonempty
  rw [given] at lead
  exact lead (congrArg some (List.prefix_nil.mp (List.isPrefixOf_iff_prefix.mp short)))

/-- Nothing is made of an empty token. -/
theorem leftover_blank (ignored : blankIgnored profile (hasTarget parsed) = true) :
    leftover profile host [] parsed = parsed := by
  unfold blankIgnored at ignored
  simp only [Bool.and_eq_true, Bool.or_eq_true, Option.isNone_iff_eq_none, decide_eq_true_eq] at ignored
  obtain ⟨⟨⟨-, lead⟩, target⟩, source⟩ := ignored
  have noExtension : extensionOf [] = [] := rfl
  have noTarget : ¬ (0 < profile.targetExtensions.length ∧ parsed.target = [] ∧
      (profile.targetExtensions.lookup []).isSome) := by
    rintro ⟨-, empty, isTarget⟩
    rcases target with given | absent
    · exact of_decide_eq_true given empty
    · rw [absent] at isTarget
      cases isTarget
  unfold leftover
  rw [if_neg (not_lead_blank lead), noExtension, if_neg noTarget, source]
  rfl

theorem refused_blank {target : Bool} (ignored : blankIgnored profile target = true) :
    profile.options.find? (fun option => option.accepts []) = none := by
  unfold blankIgnored at ignored
  simp only [Bool.and_eq_true, Option.isNone_iff_eq_none] at ignored
  exact ignored.1.1.1

section Scan

variable {dir : Str} {kind : CommandKind} {target : Bool}

theorem blankUse_inline
    (first : profile.options.find? (fun option => option.accepts tok) = some option)
    (inline : option.spaceForm tok = false) (rest : List (Option Str)) :
    blankUse profile host dir kind target (some tok :: rest) =
      if option.kindAfter kind = .ignore then .unseen
      else blankUse profile host dir (option.kindAfter kind)
        (option.targetAfter host dir (option.takeArg tok []).1 target) rest := by
  rw [blankUse, first]
  match rest with
  | [] => simp [blankUse]
  | none :: rest => simp [inline]
  | some next :: rest =>
    have arg : (option.takeArg tok [next]).1 = (option.takeArg tok []).1 := by
      simp [ToolOption.takeArg, inline]
    simp [inline, arg]

theorem blankUse_space
    (first : profile.options.find? (fun option => option.accepts tok) = some option)
    (space : option.spaceForm tok = true) (goes : option.prefixStops next = false)
    (rest : List (Option Str)) :
    blankUse profile host dir kind target (some tok :: some next :: rest) =
      if option.kindAfter kind = .ignore then .unseen
      else blankUse profile host dir (option.kindAfter kind)
        (option.targetAfter host dir (option.takeArg tok [next]).1 target) rest := by
  rw [blankUse, first]
  simp [space, goes, ToolOption.takeArg]

theorem blankUse_stopped
    (first : profile.options.find? (fun option => option.accepts tok) = some option)
    (space : option.spaceForm tok = true) (stops : option.prefixStops next = true)
    (rest : List (Option Str)) :
    blankUse profile host dir kind target (some tok :: some next :: rest) =
      if option.kindAfter kind = .ignore then .unseen
      else blankUse profile host dir (option.kindAfter kind)
        (option.targetAfter host dir (option.takeArg tok [next]).1 target) (some next :: rest) := by
  rw [blankUse, first]
  simp [space, stops]

/-- An empty token is taken for the argument. -/
theorem blankUse_blank
    (first : profile.options.find? (fun option => option.accepts tok) = some option)
    (space : option.spaceForm tok = true) (rest : List (Option Str)) :
    blankUse profile host dir kind target (some tok :: none :: rest) =
      if !option.drops && !option.prefixStops [] && rest.reduceOption.head? ≠ some [] then .kept
      else .other := by
  rw [blankUse, first]
  simp [space]

end Scan

end Follow

/-! ### Without the empty tokens -/

variable {profile : ToolProfile} {host : Host}

/-- What is left after a match is followed from the state after the match. -/
theorem blankUse_take {option : ToolOption} {tok : Str} {tokens : List Str} {parsed : ParsedWorkItem}
    {left : List (Option Str)} (goesOn : option.kindAfter parsed.kind ≠ .ignore) :
    blankUse profile host (option.take host tok tokens parsed).dir
        (option.take host tok tokens parsed).kind (hasTarget (option.take host tok tokens parsed))
        left =
      if option.kindAfter parsed.kind = .ignore then .unseen
      else blankUse profile host parsed.dir (option.kindAfter parsed.kind)
        (option.targetAfter host parsed.dir (option.takeArg tok tokens).1 (hasTarget parsed)) left := by
  rw [if_neg goesOn, take_dir, ToolOption.take_kind, take_hasTarget]

/-- At this token an option that keeps its tokens takes an empty token for its argument, in the place
of a word or of nothing. -/
structure KeptAt (profile : ToolProfile) (option : ToolOption) (tok : Str)
    (rest : List (Option Str)) : Prop where
  first : profile.options.find? (fun option => option.accepts tok) = some option
  space : option.spaceForm tok = true
  keeps : option.drops = false
  goes : option.prefixStops [] = false
  word : rest.reduceOption.head? ≠ some []

/-- **The walks with the empty tokens and without them**: they are the same where these are not seen,
and they are in the same state where the first of them is kept. -/
def Aligned (profile : ToolProfile) (host : Host) (parsed : ParsedWorkItem)
    (marked : List (Option Str)) : BlankUse → Prop
  | .unseen => walkTokens profile host parsed (markTokens marked) =
      walkTokens profile host parsed marked.reduceOption
  | .kept => ∃ parsed' option tok rest, KeptAt profile option tok rest ∧
      walkTokens profile host parsed (markTokens marked) =
        walkTokens profile host parsed' (tok :: [] :: markTokens rest) ∧
      walkTokens profile host parsed marked.reduceOption =
        walkTokens profile host parsed' (tok :: rest.reduceOption)
  | .other => True

/-- Walks that go on in the same way are aligned in the same way. -/
theorem Aligned.step {parsed parsed' : ParsedWorkItem} {marked left : List (Option Str)}
    {use : BlankUse} (aligned : Aligned profile host parsed' left use)
    (tokens : walkTokens profile host parsed (markTokens marked) =
      walkTokens profile host parsed' (markTokens left))
    (reduced : walkTokens profile host parsed marked.reduceOption =
      walkTokens profile host parsed' left.reduceOption) :
    Aligned profile host parsed marked use := by
  cases use with
  | unseen => exact tokens.trans (aligned.trans reduced.symm)
  | kept =>
    obtain ⟨state, option, tok, rest, kept, here, there⟩ := aligned
    exact ⟨state, option, tok, rest, kept, tokens.trans here, reduced.trans there⟩
  | other => trivial

/-- After a match that does not end the walk both walks are in the same state. -/
theorem aligned_take {profile : ToolProfile} {host : Host} {parsed : ParsedWorkItem}
    {option : ToolOption} {tok : Str} {next : List Str} {rest left : List (Option Str)}
    (tokens : walkTokens profile host parsed (tok :: markTokens rest) =
      (if option.kindAfter parsed.kind = .ignore then .ok (option.take host tok next parsed)
      else walkTokens profile host (option.take host tok next parsed) (markTokens left)))
    (reducedTokens : walkTokens profile host parsed (tok :: rest.reduceOption) =
      (if option.kindAfter parsed.kind = .ignore then .ok (option.take host tok next parsed)
      else walkTokens profile host (option.take host tok next parsed) left.reduceOption))
    (later : Aligned profile host (option.take host tok next parsed) left
      (blankUse profile host (option.take host tok next parsed).dir
        (option.take host tok next parsed).kind (hasTarget (option.take host tok next parsed))
        left)) :
    Aligned profile host parsed (some tok :: rest)
      (if option.kindAfter parsed.kind = .ignore then .unseen
      else blankUse profile host parsed.dir (option.kindAfter parsed.kind)
        (option.targetAfter host parsed.dir (option.takeArg tok next).1 (hasTarget parsed)) left) := by
  have reduced : (some tok :: rest).reduceOption = tok :: rest.reduceOption :=
    List.reduceOption_cons_of_some _ _
  by_cases ends : option.kindAfter parsed.kind = .ignore
  · rw [if_pos ends] at tokens reducedTokens ⊢
    show walkTokens profile host parsed (tok :: markTokens rest) = _
    rw [tokens, reduced, reducedTokens]
  · rw [blankUse_take ends] at later
    rw [if_neg ends] at tokens reducedTokens
    exact later.step tokens (reduced ▸ reducedTokens)

theorem aligned (profile : ToolProfile) (host : Host) (parsed : ParsedWorkItem)
    (marked : List (Option Str)) :
    Aligned profile host parsed marked
      (blankUse profile host parsed.dir parsed.kind (hasTarget parsed) marked) := by
  induction size : marked.length using Nat.strong_induction_on generalizing marked parsed with
  | _ length ih =>
    match marked with
    | [] => exact rfl
    | none :: rest =>
      rw [blankUse]
      split_ifs with ignored
      · refine (ih rest.length (by rw [← size]; simp) parsed rest rfl).step ?_ rfl
        show walkTokens profile host parsed ([] :: markTokens rest) = _
        rw [walkTokens_none (refused_blank ignored), leftover_blank ignored]
      · trivial
    | some tok :: rest =>
      rw [List.length_cons] at size
      have reduced : (some tok :: rest).reduceOption = tok :: rest.reduceOption :=
        List.reduceOption_cons_of_some _ _
      cases first : profile.options.find? (fun option => option.accepts tok) with
      | none =>
        rw [blankUse, first]
        have later := ih rest.length (by omega) (leftover profile host tok parsed) rest rfl
        rw [leftover_dir, leftover_kind, leftover_hasTarget] at later
        refine later.step (walkTokens_none first) ?_
        rw [reduced, walkTokens_none first]
      | some option =>
        cases space : option.spaceForm tok with
        | false =>
          rw [blankUse_inline first space]
          exact aligned_take (walkTokens_inline first space _) (walkTokens_inline first space _)
            (ih rest.length (by omega) _ rest rfl)
        | true =>
          match rest with
          | [] =>
            rw [blankUse, first]
            exact rfl
          | none :: rest =>
            rw [blankUse_blank first space]
            split_ifs with isKept
            · simp only [Bool.and_eq_true, Bool.not_eq_true', decide_eq_true_eq] at isKept
              exact ⟨parsed, option, tok, rest,
                ⟨first, space, isKept.1.1, isKept.1.2, isKept.2⟩, rfl, rfl⟩
            · trivial
          | some next :: rest =>
            have nextReduced : (some next :: rest).reduceOption = next :: rest.reduceOption :=
              List.reduceOption_cons_of_some _ _
            rw [List.length_cons] at size
            cases stops : option.prefixStops next with
            | true =>
              rw [blankUse_stopped first space stops]
              refine aligned_take (walkTokens_stopped first space stops _) ?_
                (ih _ (by rw [List.length_cons]; omega) _ (some next :: rest) rfl)
              rw [nextReduced]
              exact walkTokens_stopped first space stops _
            | false =>
              rw [blankUse_space first space stops]
              refine aligned_take (walkTokens_space first space stops _) ?_
                (ih rest.length (by omega) _ rest rfl)
              rw [nextReduced]
              exact walkTokens_space first space stops _

/-- **The empty tokens can be left out** where all of them are ignored. -/
theorem walkTokens_unseen {marked : List (Option Str)} {parsed : ParsedWorkItem}
    (unseen : blankUse profile host parsed.dir parsed.kind (hasTarget parsed) marked = .unseen) :
    walkTokens profile host parsed (markTokens marked) =
      walkTokens profile host parsed marked.reduceOption := by
  have both := aligned profile host parsed marked
  rwa [unseen] at both

/-! ### An empty token that is kept -/

section Kept

variable {tok next : Str} {rest : List Str} {parsed result : ParsedWorkItem} {option : ToolOption}

/-- The empty token is no option, and does not start with the option prefix. -/
def BlankPlain (profile : ToolProfile) : Prop :=
  profile.options.find? (fun option => option.accepts []) = none ∧ profile.optionPrefix ≠ some []

instance (profile : ToolProfile) : Decidable (BlankPlain profile) :=
  have : Decidable (profile.options.find? (fun option => option.accepts []) = none) :=
    decidable_of_iff _ Option.isNone_iff_eq_none
  instDecidableAnd

theorem take_ppOptions : (option.take host tok rest parsed).ppOptions =
    if option.drops then parsed.ppOptions
    else parsed.ppOptions ++ option.takenTokens tok rest :=
  ToolOption.processMatch_ppOptions _ _ _

/-- The list is longer by something that does not start with an empty token. -/
def Extends (longer list : List Str) : Prop := ∃ more, longer = list ++ more ∧ more.head? ≠ some []

theorem Extends.refl (list : List Str) : Extends list list :=
  ⟨[], (List.append_nil list).symm, Option.some_ne_none _ ∘ Eq.symm⟩

theorem Extends.trans {a b c : List Str} (first : Extends c b) (second : Extends b a) :
    Extends c a := by
  obtain ⟨more, rfl, start⟩ := first
  obtain ⟨own, rfl, start'⟩ := second
  refine ⟨own ++ more, List.append_assoc _ _ _, ?_⟩
  cases own with
  | nil => exact start
  | cons tok rest => exact start'

theorem leftover_extends (plain : BlankPlain profile) (tok : Str) (parsed : ParsedWorkItem) :
    Extends (leftover profile host tok parsed).ppOptions parsed.ppOptions := by
  by_cases empty : tok = []
  · have same : (leftover profile host [] parsed).ppOptions = parsed.ppOptions := by
      unfold leftover
      rw [if_neg (not_lead_blank plain.2)]
      cases profile.sourceExtensions.lookup (extensionOf []) with
      | some format =>
        dsimp only
        split_ifs <;> rfl
      | none =>
        dsimp only
        rw [if_neg (not_not.mpr rfl)]
        split_ifs <;> rfl
    rw [empty, same]
    exact Extends.refl _
  · have appended : Extends (parsed.ppOptions ++ [tok]) parsed.ppOptions :=
      ⟨[tok], rfl, fun same => empty (Option.some.inj same)⟩
    rcases leftover_cases profile host tok parsed with
      made | ⟨-, made⟩ | ⟨_, -, made⟩ | ⟨-, made⟩ <;> rw [made]
    · exact appended
    · exact Extends.refl _
    · exact Extends.refl _
    · exact Extends.refl _

theorem take_extends (nonempty : tok ≠ []) :
    Extends (option.take host tok rest parsed).ppOptions parsed.ppOptions := by
  rw [take_ppOptions]
  split_ifs with drops
  · exact Extends.refl _
  · refine ⟨_, rfl, ?_⟩
    unfold ToolOption.takenTokens
    cases rest with
    | nil => exact fun same => nonempty (Option.some.inj same)
    | cons next rest =>
      dsimp only
      split_ifs <;> exact fun same => nonempty (Option.some.inj same)

theorem nonempty_of_accepts (plain : BlankPlain profile)
    (first : profile.options.find? (fun option => option.accepts tok) = some option) : tok ≠ [] := by
  rintro rfl
  rw [plain.1] at first
  cases first

/-- **What the walk appends to the preprocessing options does not start with an empty token.** -/
theorem walkTokens_extends (plain : BlankPlain profile) {tokens : List Str}
    (walked : walkTokens profile host parsed tokens = .ok result) :
    Extends result.ppOptions parsed.ppOptions := by
  refine walkTokens_invariant (fun state => Extends state.ppOptions parsed.ppOptions) ?_ ?_
    (Extends.refl _) walked
  · exact fun tok state before => (leftover_extends plain tok state).trans before
  · exact fun option tok rest state first before =>
      (take_extends (nonempty_of_accepts plain first)).trans before

/-- After a match as well, whether it ends the walk or not. -/
theorem match_extends (plain : BlankPlain profile) {left : List Str} {ends : Prop} [Decidable ends]
    (walked : (if ends then .ok parsed else walkTokens profile host parsed left) = .ok result) :
    Extends result.ppOptions parsed.ppOptions := by
  split_ifs at walked
  · cases walked
    exact Extends.refl _
  · exact walkTokens_extends plain walked

/-- **An empty token that is kept is seen**: in its place there is a word, or nothing. -/
theorem walkTokens_kept (plain : BlankPlain profile) {marked : List (Option Str)}
    (kept : blankUse profile host parsed.dir parsed.kind (hasTarget parsed) marked = .kept)
    (walked : walkTokens profile host parsed marked.reduceOption = .ok result) :
    walkTokens profile host parsed (markTokens marked) ≠ .ok result := by
  have both := aligned profile host parsed marked
  rw [kept] at both
  obtain ⟨state, option, tok, rest, ⟨first, space, keeps, goes, word⟩, tokens, reduced⟩ := both
  rw [reduced] at walked
  rw [tokens, walkTokens_space first space goes]
  intro blank
  -- With the empty token the options go on with the token and the empty token.
  obtain ⟨more, withBlank, -⟩ := match_extends plain blank
  have taken : ∀ next, (option.take host tok [next] state).ppOptions =
      state.ppOptions ++ if option.prefixStops next then [tok] else [tok, next] := by
    intro next
    rw [take_ppOptions, keeps, if_neg Bool.false_ne_true]
    cases stops : option.prefixStops next <;> simp [ToolOption.takenTokens, space, stops]
  rw [taken, goes, if_neg Bool.false_ne_true, List.append_assoc] at withBlank
  cases words : rest.reduceOption with
  | nil =>
    rw [words, walkTokens_dangling first space] at walked
    cases walked
  | cons next others =>
    rw [words] at walked word
    cases stops : option.prefixStops next with
    | true =>
      rw [walkTokens_stopped first space stops] at walked
      obtain ⟨more', withWord, start⟩ := match_extends plain walked
      rw [taken, stops, if_pos rfl, withBlank, List.append_assoc] at withWord
      have tails : [] :: more = more' := (List.cons.inj (List.append_cancel_left withWord)).2
      exact start (tails ▸ rfl)
    | false =>
      rw [walkTokens_space first space stops] at walked
      obtain ⟨more', withWord, -⟩ := match_extends plain walked
      rw [taken, stops, if_neg Bool.false_ne_true, withBlank, List.append_assoc] at withWord
      have tails : ([] : Str) :: more = next :: more' :=
        (List.cons.inj (List.append_cancel_left withWord)).2
      exact word (congrArg some (List.cons.inj tails).1.symm)

end Kept

/-! ### Contents of a response file -/

section Contents

variable {item : WorkItem} {option : ToolOption} {slot : ResponseSlot}

/-- The unfolded vector has the tokens of the content in the place of the response-file argument. -/
theorem unfoldTokens_slot {raw : List Str} (found : responseSlot option raw = some slot) :
    unfoldTokens host item option raw =
      slot.before ++ (respTokens (respContent host item slot.name) ++ slot.after) := by
  induction raw generalizing slot with
  | nil => cases found
  | cons tok rest ih =>
    rw [responseSlot] at found
    rw [unfoldTokens]
    by_cases accepted : option.accepts tok = true
    · rw [if_pos accepted] at found ⊢
      cases found
      rfl
    · rw [if_neg accepted] at found ⊢
      obtain ⟨later, found', rfl⟩ := Option.map_eq_some_iff.mp found
      rw [ih found']
      rfl

/-- The work item, parsed with the tokens of the content in place. -/
theorem parse_slot (given : profile.responseFileOption = some option)
    (found : responseSlot option (rawArgs item) = some slot) :
    parseWorkItem profile host item =
      if danglingResponse option (rawArgs item) then .error .pastEnd
      else parseArgs profile host item
        (slot.before ++ (respTokens (respContent host item slot.name) ++ slot.after)) := by
  rw [parseWorkItem]
  by_cases dangling : danglingResponse option (rawArgs item) = true
  · rw [if_pos dangling, unfoldRespfile_dangling given dangling]
    rfl
  · rw [if_neg dangling, unfoldRespfile_eq given (Bool.not_eq_true _ ▸ dangling), ok_bind,
      unfoldTokens_slot found]

/-- **The content of a file is parsed as the content that a work item carries.** -/
theorem parse_withContent (given : profile.responseFileOption = some option)
    (found : responseSlot option (rawArgs item) = some slot) :
    parseWorkItem profile host item =
      parseWorkItem profile host (item.withContent (respContent host item slot.name)) := by
  have found' : responseSlot option
      (rawArgs (item.withContent (respContent host item slot.name))) = some slot := found
  rw [parse_slot given found, parse_slot given found']
  rfl

/-- What the parse makes of the empty tokens of a content. An empty token that stands for the binary
is kept when there is a word in its place. -/
def contentUse (profile : ToolProfile) (host : Host) (item : WorkItem) (slot : ResponseSlot)
    (content : Str) : BlankUse :=
  match vectorMarks slot content with
  | [] => .unseen
  | none :: rest =>
      if contentWords content = [] then
        blankUse profile host item.directory profile.defaultCommandKind false rest
      else if rest.reduceOption.head? ≠ some [] then .kept
      else .other
  | some _ :: rest => blankUse profile host item.directory profile.defaultCommandKind false rest

/-- The parse of the words of a content, without empty tokens. -/
def parseWords (profile : ToolProfile) (host : Host) (item : WorkItem) (slot : ResponseSlot)
    (words : List Str) : Except CursorFault ParsedWorkItem :=
  if slot.before = [] ∧ words = [] then
    walkTokens profile host (startParsed profile item []) slot.after
  else parseArgs profile host item (slot.before ++ (words.map unquote ++ slot.after))

theorem markTokens_vectorMarks (slot : ResponseSlot) (content : Str) :
    markTokens (vectorMarks slot content) =
      slot.before ++ (respTokens content ++ slot.after) := by
  have plain : ∀ tokens : List Str, markTokens (tokens.map some) = tokens := by
    intro tokens
    simp [markTokens, Function.comp_def]
  unfold vectorMarks
  rw [← markTokens_marks]
  conv_rhs => rw [← plain slot.before, ← plain slot.after]
  simp [markTokens]

theorem reduceOption_vectorMarks (slot : ResponseSlot) (content : Str) :
    (vectorMarks slot content).reduceOption =
      slot.before ++ ((contentWords content).map unquote ++ slot.after) := by
  have plain : ∀ tokens : List Str, (tokens.map some).reduceOption = tokens := by
    intro tokens
    simp [List.reduceOption]
  unfold vectorMarks
  rw [List.reduceOption_append, List.reduceOption_append, plain, plain, reduceOption_marks]

/-- A vector that starts with an empty token starts with the content. -/
theorem before_of_blank {content : Str} {rest : List (Option Str)}
    (blank : vectorMarks slot content = none :: rest) : slot.before = [] := by
  cases before : slot.before with
  | nil => rfl
  | cons tok others =>
    rw [vectorMarks, before] at blank
    cases blank

/-- A content without words has an empty token in front. -/
theorem blank_of_words {content : Str} (before : slot.before = []) (words : contentWords content = []) :
    ∃ rest, vectorMarks slot content = none :: rest := by
  unfold contentWords at words
  unfold vectorMarks marks
  rw [before]
  cases tokens : split isSpace content with
  | nil => exact absurd tokens (split_ne_nil _ _)
  | cons token others =>
    rw [tokens] at words
    have empty : token = [] := by
      by_contra nonempty
      rw [List.filter_cons_of_pos (by simpa using nonempty)] at words
      cases words
    rw [List.map_nil, List.nil_append, List.map_cons, if_pos empty]
    exact ⟨_, rfl⟩

theorem take_binary (option : ToolOption) (tok : Str) (rest : List Str) (parsed : ParsedWorkItem) :
    (option.take host tok rest parsed).binary = parsed.binary := by
  have process : ∀ arg, (option.process host arg parsed).2.binary = parsed.binary := by
    intro arg
    unfold ToolOption.process
    cases option.behaviour with
    | language argToLang => dsimp only; split <;> rfl
    | scan data => dsimp only; split <;> rfl
    | _ => rfl
  rw [← process (option.takeArg tok rest).1, ToolOption.take, ToolOption.processMatch]
  cases copied : (option.process host (option.takeArg tok rest).1 parsed).1 <;> rfl

theorem leftover_binary (tok : Str) (parsed : ParsedWorkItem) :
    (leftover profile host tok parsed).binary = parsed.binary := by
  rcases leftover_cases profile host tok parsed with
    made | ⟨-, made⟩ | ⟨_, -, made⟩ | ⟨-, made⟩ <;> rw [made]

theorem walkTokens_binary {tokens : List Str} {parsed result : ParsedWorkItem}
    (walked : walkTokens profile host parsed tokens = .ok result) : result.binary = parsed.binary := by
  refine walkTokens_invariant (fun state => state.binary = parsed.binary) ?_ ?_ rfl walked
  · exact fun tok state before => (leftover_binary tok state).trans before
  · exact fun option tok rest state _ before => (take_binary option tok rest state).trans before

/-- **A content whose empty tokens are ignored is parsed as its words.** -/
theorem parseArgs_unseen {content : Str}
    (unseen : contentUse profile host item slot content = .unseen) :
    parseArgs profile host item (markTokens (vectorMarks slot content)) =
      parseWords profile host item slot (contentWords content) := by
  have reduced := reduceOption_vectorMarks slot content
  unfold contentUse at unseen
  unfold parseWords
  rw [← reduced]
  cases vector : vectorMarks slot content with
  | nil =>
    have tokens := markTokens_vectorMarks slot content
    rw [vector] at tokens
    have nothing := (List.append_eq_nil_iff.mp (List.append_eq_nil_iff.mp tokens.symm).2).1
    exact absurd nothing (respTokens_ne_nil content)
  | cons first rest =>
    rw [vector] at unseen reduced
    cases first with
    | none =>
      dsimp only at unseen
      split_ifs at unseen with words
      have before := before_of_blank vector
      rw [before, words, List.reduceOption_cons_of_none] at reduced
      have tokens : markTokens (none :: rest) = [] :: markTokens rest := rfl
      rw [if_pos ⟨before, words⟩, tokens, parseArgs_eq]
      refine (walkTokens_unseen unseen).trans ?_
      rw [reduced]
      rfl
    | some binary =>
      have nonempty : ¬ (slot.before = [] ∧ contentWords content = []) := by
        intro both
        obtain ⟨others, blank⟩ := blank_of_words both.1 both.2
        rw [vector] at blank
        cases blank
      have tokens : markTokens (some binary :: rest) = binary :: markTokens rest := rfl
      rw [if_neg nonempty, List.reduceOption_cons_of_some, tokens, parseArgs_eq, parseArgs_eq]
      exact walkTokens_unseen unseen

/-- **A content with an empty token that is kept is not parsed as its words.** -/
theorem parseArgs_kept (plain : BlankPlain profile) {content : Str} {result : ParsedWorkItem}
    (kept : contentUse profile host item slot content = .kept)
    (parsed : parseWords profile host item slot (contentWords content) = .ok result) :
    parseArgs profile host item (markTokens (vectorMarks slot content)) ≠ .ok result := by
  have reduced := reduceOption_vectorMarks slot content
  unfold contentUse at kept
  unfold parseWords at parsed
  rw [← reduced] at parsed
  cases vector : vectorMarks slot content with
  | nil =>
    rw [vector] at kept
    cases kept
  | cons first rest =>
    rw [vector] at kept reduced parsed
    cases first with
    | none =>
      dsimp only at kept
      have before := before_of_blank vector
      rw [before, List.reduceOption_cons_of_none] at reduced
      have tokens : markTokens (none :: rest) = [] :: markTokens rest := rfl
      rw [tokens, parseArgs_eq]
      split_ifs at kept with words first
      · rw [if_pos ⟨before, words⟩] at parsed
        rw [words] at reduced
        exact walkTokens_kept plain kept (reduced ▸ parsed)
      · -- The binary is a word in one vector and empty in the other.
        rw [if_neg fun both => words both.2, List.reduceOption_cons_of_none] at parsed
        intro blank
        cases others : rest.reduceOption with
        | nil =>
          rw [others] at parsed
          cases parsed
        | cons binary later =>
          rw [others] at parsed first
          rw [parseArgs_eq] at parsed
          refine first (congrArg some ?_)
          exact (walkTokens_binary parsed).symm.trans (walkTokens_binary blank)
    | some binary =>
      have nonempty : ¬ (slot.before = [] ∧ contentWords content = []) := by
        intro both
        obtain ⟨others, blank⟩ := blank_of_words both.1 both.2
        rw [vector] at blank
        cases blank
      have tokens : markTokens (some binary :: rest) = binary :: markTokens rest := rfl
      rw [if_neg nonempty, List.reduceOption_cons_of_some, parseArgs_eq] at parsed
      rw [tokens, parseArgs_eq]
      exact walkTokens_kept plain kept parsed

/-- The parse of the work item with the content. -/
theorem parse_content (given : profile.responseFileOption = some option)
    (found : responseSlot option (rawArgs item) = some slot) (content : Str) :
    parseWorkItem profile host (item.withContent content) =
      if danglingResponse option (rawArgs item) then .error .pastEnd
      else parseArgs profile host item (markTokens (vectorMarks slot content)) := by
  have found' : responseSlot option (rawArgs (item.withContent content)) = some slot := found
  rw [parse_slot given found', markTokens_vectorMarks]
  rfl

/-- **Contents with the same words are parsed in the same way** when all their empty tokens are
ignored; and when the first one that is not ignored is kept, they are parsed in different ways. -/
theorem parse_respaced (given : profile.responseFileOption = some option)
    (found : responseSlot option (rawArgs item) = some slot) {content respaced : Str}
    (sameWords : contentWords content = contentWords respaced)
    (unseen : contentUse profile host item slot content = .unseen) :
    (contentUse profile host item slot respaced = .unseen →
        parseWorkItem profile host (item.withContent respaced) =
          parseWorkItem profile host (item.withContent content)) ∧
      (BlankPlain profile → contentUse profile host item slot respaced = .kept →
        ∀ parsed, parseWorkItem profile host (item.withContent content) = .ok parsed →
          parseWorkItem profile host (item.withContent respaced) ≠ .ok parsed) := by
  rw [parse_content given found, parse_content given found]
  by_cases dangling : danglingResponse option (rawArgs item) = true
  · rw [if_pos dangling, if_pos dangling]
    exact ⟨fun _ => rfl, fun _ _ parsed faulty => nomatch faulty⟩
  rw [if_neg dangling, if_neg dangling, parseArgs_unseen unseen, sameWords]
  exact ⟨fun unseen' => parseArgs_unseen unseen', fun plain kept parsed walked =>
    parseArgs_kept plain kept walked⟩

end Contents

/-! ### Two spaces after an option -/

/-- A compiler profile with the response option `@` and the option `-I` with its argument in the next
element. -/
def includeProfileJson : Json :=
  .obj [("defaultCommandKind".toList, .str "compile".toList),
    ("optionPrefix".toList, .str "-".toList),
    ("options".toList, .arr [.obj [("aliases".toList, .arr [.str "-I".toList]),
        ("argFormat".toList, .arr [.str "space".toList]), ("type".toList, .str "other".toList)],
      .obj [("aliases".toList, .arr [.str "@".toList]),
        ("argFormat".toList, .arr [.str "attached".toList]),
        ("type".toList, .str "response".toList)]])]

/-- The response option `@` of that profile. -/
def prefixedAtOption : ToolOption := { atOption with defaultPrefix := some "-".toList }

/-- The option `-I` of that profile. -/
def includeOption : ToolOption where
  behaviour := .other
  defaultPrefix := some "-".toList
  orderedAliases := ["-I".toList]
  hasAlias := List.cons_ne_nil _ _
  argFormat := [.space]

/-- The profile that is loaded from that description. -/
def includeProfile : ToolProfile :=
  { ToolProfile.init includeProfileJson with
    responseFileConfig := [.obj [("argFormat".toList, .arr [.str "attached".toList]),
      ("argument".toList, .str "@".toList)]]
    options := [includeOption, prefixedAtOption]
    responseFileOption := some prefixedAtOption
    optionPrefix := some "-".toList }

theorem load_includeProfile :
    ToolProfile.load (fun _ => true) includeProfileJson = .ok includeProfile := rfl

/-- Where the response file stands in `gcc @f`. -/
def responseSlotF : ResponseSlot := ⟨["gcc".toList], "f".toList, []⟩

/-- **Two spaces after `-I`**: the include path is lost. -/
theorem respaced_differs :
    ¬ ∀ (validRegex : Str → Bool) (j : Json) (profile : ToolProfile) (host : Host)
      (item : WorkItem) (option : ToolOption) (slot : ResponseSlot) (content respaced : Str),
        ToolProfile.load validRegex j = .ok profile →
          profile.responseFileOption = some option →
            responseSlot option (rawArgs item) = some slot →
              contentWords content = contentWords respaced →
                parseWorkItem profile host (item.withContent content) =
                  parseWorkItem profile host (item.withContent respaced) := by
  intro same
  have parsed := same _ _ _ emptyHost (responseItem ["@f".toList]) _ responseSlotF
    "-I inc".toList "-I  inc".toList load_includeProfile rfl rfl (by decide)
  have options := congrArg (fun result => result.toOption.map ParsedWorkItem.ppOptions) parsed
  exact absurd options (by decide)

/-- White space around the words does nothing here, and two spaces after `-I` do. -/
theorem respaced_include :
    parseWorkItem includeProfile emptyHost
        ((responseItem ["@f".toList]).withContent " -I inc\n".toList) =
      parseWorkItem includeProfile emptyHost
        ((responseItem ["@f".toList]).withContent "-I inc".toList) ∧
    ∀ parsed, parseWorkItem includeProfile emptyHost
        ((responseItem ["@f".toList]).withContent "-I inc".toList) = .ok parsed →
      parseWorkItem includeProfile emptyHost
        ((responseItem ["@f".toList]).withContent "-I  inc".toList) ≠ .ok parsed := by
  have found : responseSlot prefixedAtOption (rawArgs (responseItem ["@f".toList])) =
      some responseSlotF := rfl
  refine ⟨(parse_respaced rfl found (by decide) (by decide)).1 (by decide), ?_⟩
  exact (parse_respaced rfl found (by decide) (by decide)).2 (by decide) (by decide)

end Xcalbuild.Profile
