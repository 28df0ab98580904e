/-
**Response files, unfolded or expanded.**

A command line with response-file arguments stands for the command line in which each of them is
replaced by the tokens of its file. `scanResponses` finds the response-file arguments, for all the
response options of a profile; `expandItem` replaces them. `parse_work_item` does less: it looks
for one option, the remembered one, and stops at the first match, and the option loop then drops
every other response-file argument.

* `unfold_eq_expand_iff`: the unfolded argument vector is the expanded command line exactly when
  there is at most one response-file argument and the remembered option matches it
  (`SingleResponse`);
* `parse_expanded`: in that case parsing the work item is parsing the expanded one.
-/
import Xcalbuild.Profile.Unfold

namespace Xcalbuild.Profile

open Library

/-- A piece of a command line: an argument that stays, or a response option with the argument that
names its file. `dangling` is set when that argument is missing. -/
inductive Piece where
  | plain (argument : Str)
  | file (option : ToolOption) (dangling : Bool) (name : Str)

/-- The response options of a list; of two that match one argument the later one is taken, as of
all special options. -/
def responseOptions (options : List ToolOption) : List ToolOption :=
  (options.filter ToolOption.isResponse).reverse

/-- The scan of a command line for response options, from left to right. -/
def scanResponses (options : List ToolOption) : List Str → List Piece
  | [] => []
  | argument :: rest =>
      match options.find? fun option => option.accepts (unquote argument) with
      | none => .plain argument :: scanResponses options rest
      | some option =>
          .file option (option.dangles (unquote argument) (rest.map unquote))
              (option.takeArg (unquote argument) (rest.map unquote)).1 ::
            match rest with
            | [] => []
            | next :: rest =>
                if option.spaceForm (unquote argument) && !option.prefixStops (unquote next) then
                  scanResponses options rest
                else scanResponses options (next :: rest)

/-- The response options that the scan meets. -/
def metOptions : List Piece → List ToolOption
  | [] => []
  | .plain _ :: pieces => metOptions pieces
  | .file option _ _ :: pieces => option :: metOptions pieces

/-- The arguments a piece is expanded to: a file to its tokens. -/
def Piece.expand (host : Host) (item : WorkItem) : Piece → List Str
  | .plain argument => [argument]
  | .file _ _ name => split isSpace (respContent host item name)

/-- The pieces of the command line of a work item. -/
def pieces (profile : ToolProfile) (item : WorkItem) : List Piece :=
  scanResponses (responseOptions profile.options) item.arguments

/-- The work item with every response-file argument replaced in place by the tokens of its file. -/
def expandItem (profile : ToolProfile) (host : Host) (item : WorkItem) : WorkItem :=
  { item with arguments := (pieces profile item).flatMap (Piece.expand host item) }

/-- No response option of the list accepts the token. -/
def Ordinary (options : List ToolOption) (tok : Str) : Prop :=
  options.find? (fun option => option.accepts tok) = none

/-- A response-file argument that names a readable file without response-file arguments in it. -/
def Piece.Readable (options : List ToolOption) (host : Host) (item : WorkItem) : Piece → Prop
  | .plain _ => True
  | .file _ dangling name => dangling = false ∧
      ∃ content, host.regularFile name item.directory = some content ∧
        ∀ tok ∈ respTokens content, Ordinary options tok

/-- The command line has at most one response-file argument, and the option remembered for
unfolding matches it. -/
def SingleResponse (profile : ToolProfile) (item : WorkItem) : Prop :=
  metOptions (pieces profile item) = [] ∨
    ∃ option, metOptions (pieces profile item) = [option] ∧
      profile.responseFileOption = some option

section Scan

variable {options : List ToolOption} {argument : Str} {rest : List Str}

theorem scanResponses_plain
    (ordinary : options.find? (fun option => option.accepts (unquote argument)) = none) :
    scanResponses options (argument :: rest) = .plain argument :: scanResponses options rest := by
  rw [scanResponses, ordinary]

theorem scanResponses_file (rest : List Str) {option : ToolOption}
    (met : options.find? (fun option => option.accepts (unquote argument)) = some option) :
    ∃ rest', rest'.map unquote = (option.takeArg (unquote argument) (rest.map unquote)).2 ∧
      rest'.length ≤ rest.length ∧
      scanResponses options (argument :: rest) =
        .file option (option.dangles (unquote argument) (rest.map unquote))
          (option.takeArg (unquote argument) (rest.map unquote)).1 ::
            scanResponses options rest' := by
  rw [scanResponses, met]
  cases rest with
  | nil =>
    refine ⟨[], ?_, Nat.le_refl _, rfl⟩
    cases space : option.spaceForm (unquote argument) <;> simp [ToolOption.takeArg, space]
  | cons next rest =>
    cases space : option.spaceForm (unquote argument) with
    | false => exact ⟨next :: rest, by simp [ToolOption.takeArg, space], Nat.le_refl _, by simp [space]⟩
    | true =>
      cases stops : option.prefixStops (unquote next) with
      | true =>
        exact ⟨next :: rest, by simp [ToolOption.takeArg, space, stops], Nat.le_refl _,
          by simp [stops]⟩
      | false =>
        exact ⟨rest, by simp [ToolOption.takeArg, space, stops], by simp, by simp [space, stops]⟩

/-- A scan that meets no response option leaves the command line as it is, and every argument in it
is ordinary. -/
theorem scan_ordinary {arguments : List Str} (host : Host) (item : WorkItem)
    (absent : metOptions (scanResponses options arguments) = []) :
    (scanResponses options arguments).flatMap (Piece.expand host item) = arguments ∧
      ∀ argument ∈ arguments, Ordinary options (unquote argument) := by
  induction arguments with
  | nil => exact ⟨rfl, fun _ member => nomatch member⟩
  | cons argument rest ih =>
    cases met : options.find? (fun option => option.accepts (unquote argument)) with
    | none =>
      rw [scanResponses_plain met] at absent ⊢
      obtain ⟨same, ordinary⟩ := ih absent
      refine ⟨by rw [List.flatMap_cons, same]; rfl, ?_⟩
      rintro other member
      rcases List.mem_cons.mp member with rfl | member
      · exact met
      · exact ordinary other member
    | some option =>
      obtain ⟨rest', -, -, scan⟩ := scanResponses_file rest met
      rw [scan] at absent
      cases absent

/-- A scan that meets a response option meets it at an argument that is not ordinary. -/
theorem exists_met {arguments : List Str} (met : metOptions (scanResponses options arguments) ≠ []) :
    ∃ argument ∈ arguments, ¬ Ordinary options (unquote argument) := by
  by_contra absent
  refine met ?_
  have ordinary : ∀ argument ∈ arguments, Ordinary options (unquote argument) := by
    intro argument member
    by_contra notOrdinary
    exact absent ⟨argument, member, notOrdinary⟩
  clear met absent
  induction arguments with
  | nil => rfl
  | cons argument rest ih =>
    rw [scanResponses_plain (ordinary argument List.mem_cons_self)]
    exact ih fun other member => ordinary other (List.mem_cons_of_mem _ member)

/-- The arguments that stay are ordinary. -/
theorem plain_ordinary {arguments : List Str}
    (member : Piece.plain argument ∈ scanResponses options arguments) :
    Ordinary options (unquote argument) := by
  induction size : arguments.length using Nat.strong_induction_on generalizing arguments with
  | _ length ih =>
    cases arguments with
    | nil => cases member
    | cons first rest =>
      cases met : options.find? (fun option => option.accepts (unquote first)) with
      | none =>
        rw [scanResponses_plain met] at member
        rcases List.mem_cons.mp member with same | member
        · cases same
          exact met
        · exact ih rest.length (by rw [← size]; simp) member rfl
      | some option =>
        obtain ⟨rest', -, shorter, scan⟩ := scanResponses_file rest met
        rw [scan] at member
        rcases List.mem_cons.mp member with same | member
        · cases same
        · exact ih rest'.length (by rw [← size, List.length_cons]; omega) member rfl

/-- **The expanded command line is ordinary**, when the files that are met are. -/
theorem expand_ordinary {arguments : List Str} {host : Host} {item : WorkItem}
    (noContent : item.respfile = none)
    (readable : ∀ piece ∈ scanResponses options arguments, piece.Readable options host item) :
    ∀ argument ∈ (scanResponses options arguments).flatMap (Piece.expand host item),
      Ordinary options (unquote argument) := by
  intro argument member
  obtain ⟨piece, found, member⟩ := List.mem_flatMap.mp member
  cases piece with
  | plain other =>
    rw [Piece.expand, List.mem_singleton] at member
    subst member
    exact plain_ordinary found
  | file option dangling name =>
    obtain ⟨-, content, file, ordinary⟩ := readable _ found
    have loaded : respContent host item name = content := by
      rw [respContent, noContent, file, Option.getD_some]
    rw [Piece.expand, loaded] at member
    exact ordinary _ (List.mem_map_of_mem member)

end Scan

/-! ### What the unfolding does -/

section Unfold

variable {options : List ToolOption} {last : ToolOption} {host : Host} {item : WorkItem}

/-- The remembered option is the first one the scan asks. -/
theorem find_last (head : options.head? = some last) {tok : Str} (accepted : last.accepts tok = true) :
    options.find? (fun option => option.accepts tok) = some last := by
  cases options with
  | nil => cases head
  | cons option rest =>
    cases head
    rw [List.find?_cons, accepted]

theorem refused_of_ordinary (head : options.head? = some last) {tok : Str}
    (ordinary : Ordinary options tok) : last.accepts tok = false := by
  cases accepted : last.accepts tok with
  | false => rfl
  | true =>
    rw [Ordinary, find_last head accepted] at ordinary
    cases ordinary

variable (host item) in
theorem unfold_ordinary {tokens : List Str} (refused : ∀ tok ∈ tokens, last.accepts tok = false) :
    unfoldTokens host item last tokens = tokens ∧ danglingResponse last tokens = false := by
  induction tokens with
  | nil => exact ⟨rfl, rfl⟩
  | cons tok rest ih =>
    obtain ⟨same, complete⟩ := ih fun other member => refused other (List.mem_cons_of_mem _ member)
    have here := refused tok List.mem_cons_self
    unfold unfoldTokens danglingResponse
    rw [here, if_neg Bool.false_ne_true, if_neg Bool.false_ne_true, same]
    exact ⟨rfl, complete⟩

/-- With one response-file argument, matched by the remembered option, unfolding is expanding. -/
theorem unfold_single (head : options.head? = some last) {arguments : List Str}
    (readable : ∀ piece ∈ scanResponses options arguments, piece.Readable options host item)
    (single : metOptions (scanResponses options arguments) = [] ∨
      metOptions (scanResponses options arguments) = [last]) :
    unfoldTokens host item last (arguments.map unquote) =
        ((scanResponses options arguments).flatMap (Piece.expand host item)).map unquote ∧
      danglingResponse last (arguments.map unquote) = false := by
  induction arguments with
  | nil => exact ⟨rfl, rfl⟩
  | cons argument rest ih =>
    cases met : options.find? (fun option => option.accepts (unquote argument)) with
    | none =>
      rw [scanResponses_plain met] at readable single ⊢
      obtain ⟨same, complete⟩ := ih
        (fun piece member => readable piece (List.mem_cons_of_mem _ member)) single
      have refused := refused_of_ordinary head met
      rw [List.map_cons, unfoldTokens, danglingResponse, refused, if_neg Bool.false_ne_true,
        if_neg Bool.false_ne_true, same]
      exact ⟨rfl, complete⟩
    | some option =>
      obtain ⟨rest', left, -, scan⟩ := scanResponses_file rest met
      rw [scan] at readable single ⊢
      have onlyOne : option = last ∧ metOptions (scanResponses options rest') = [] := by
        rcases single with absent | one
        · cases absent
        · exact ⟨(List.cons.inj one).1, (List.cons.inj one).2⟩
      obtain ⟨rfl, noMore⟩ := onlyOne
      have accepted : option.accepts (unquote argument) = true :=
        List.find?_some (p := fun option : ToolOption => option.accepts (unquote argument)) met
      obtain ⟨same, -⟩ := scan_ordinary host item noMore
      rw [List.map_cons, unfoldTokens, danglingResponse, if_pos accepted, if_pos accepted,
        List.flatMap_cons, same, List.map_append, left]
      exact ⟨rfl, (readable _ List.mem_cons_self).1⟩

/-- Otherwise a response-file argument is left over. -/
theorem unfold_leaves (head : options.head? = some last) {arguments : List Str}
    (notSingle : ¬ (metOptions (scanResponses options arguments) = [] ∨
      metOptions (scanResponses options arguments) = [last])) :
    ∃ tok ∈ unfoldTokens host item last (arguments.map unquote), ¬ Ordinary options tok := by
  induction arguments with
  | nil => exact absurd (Or.inl rfl) notSingle
  | cons argument rest ih =>
    cases met : options.find? (fun option => option.accepts (unquote argument)) with
    | none =>
      rw [scanResponses_plain met] at notSingle
      obtain ⟨tok, member, left⟩ := ih notSingle
      have refused := refused_of_ordinary head met
      rw [List.map_cons, unfoldTokens, refused, if_neg Bool.false_ne_true]
      exact ⟨tok, List.mem_cons_of_mem _ member, left⟩
    | some option =>
      cases accepted : last.accepts (unquote argument) with
      | false =>
        rw [List.map_cons, unfoldTokens, accepted, if_neg Bool.false_ne_true]
        refine ⟨unquote argument, List.mem_cons_self, ?_⟩
        rw [Ordinary, met]
        exact Option.some_ne_none option
      | true =>
        rw [find_last head accepted] at met
        obtain rfl := Option.some.inj met
        obtain ⟨rest', left, -, scan⟩ :=
          scanResponses_file rest (find_last head accepted)
        rw [scan] at notSingle
        have more : metOptions (scanResponses options rest') ≠ [] := fun noMore =>
          notSingle (Or.inr (congrArg (last :: ·) noMore))
        obtain ⟨other, member, notOrdinary⟩ := exists_met more
        rw [List.map_cons, unfoldTokens, if_pos accepted]
        refine ⟨unquote other, List.mem_append_right _ ?_, notOrdinary⟩
        rw [← left]
        exact List.mem_map_of_mem member

end Unfold

/-! ### Work items -/

section WorkItems

variable {validRegex : Str → Bool} {j : Json} {profile : ToolProfile} {host : Host}
  {item : WorkItem}

theorem head_responseOptions (options : List ToolOption) :
    (responseOptions options).head? = lastResponse options := by
  rw [responseOptions, List.head?_reverse, lastResponse]

theorem responseOptions_eq_nil {options : List ToolOption} (absent : lastResponse options = none) :
    responseOptions options = [] := by
  rw [← head_responseOptions, List.head?_eq_none_iff] at absent
  exact absent

theorem scanResponses_nil (arguments : List Str) :
    metOptions (scanResponses [] arguments) = [] := by
  induction arguments with
  | nil => rfl
  | cons argument rest ih =>
    rw [scanResponses_plain rfl]
    exact ih

theorem rawArgs_expandItem :
    rawArgs (expandItem profile host item) =
      ((pieces profile item).flatMap (Piece.expand host item)).map unquote := rfl

/-- A command line without response-file arguments is left as it is. -/
theorem unfold_of_ordinary (loaded : ToolProfile.load validRegex j = .ok profile)
    (ordinary : ∀ argument ∈ item.arguments,
      Ordinary (responseOptions profile.options) (unquote argument)) :
    unfoldRespfile profile host item (rawArgs item) = .ok (rawArgs item) := by
  cases given : profile.responseFileOption with
  | none => rw [unfoldRespfile, given]
  | some last =>
    have head : (responseOptions profile.options).head? = some last := by
      rw [head_responseOptions, ← load_responseFileOption loaded, given]
    have refused : ∀ tok ∈ rawArgs item, last.accepts tok = false := by
      intro tok member
      obtain ⟨argument, found, rfl⟩ := List.mem_map.mp member
      exact refused_of_ordinary head (ordinary argument found)
    obtain ⟨same, complete⟩ := unfold_ordinary host item refused
    rw [unfoldRespfile_eq given complete, same]

/-- The response-file arguments of the command line are readable files, without response-file
arguments in them, and the work item carries no content of its own. -/
structure ResponseFiles (profile : ToolProfile) (host : Host) (item : WorkItem) : Prop where
  noContent : item.respfile = none
  readable : ∀ piece ∈ pieces profile item,
    piece.Readable (responseOptions profile.options) host item

theorem unfold_eq_expand_of_single (loaded : ToolProfile.load validRegex j = .ok profile)
    (files : ResponseFiles profile host item) (single : SingleResponse profile item) :
    unfoldRespfile profile host item (rawArgs item) =
      .ok (rawArgs (expandItem profile host item)) := by
  have remembered := load_responseFileOption loaded
  cases given : profile.responseFileOption with
  | none =>
    have noOptions := responseOptions_eq_nil (remembered.symm.trans given)
    obtain ⟨same, -⟩ := scan_ordinary host item (scanResponses_nil item.arguments)
    rw [unfoldRespfile, given, rawArgs_expandItem, pieces, noOptions, same]
    rfl
  | some last =>
    have head : (responseOptions profile.options).head? = some last := by
      rw [head_responseOptions, ← remembered, given]
    have single' : metOptions (pieces profile item) = [] ∨
        metOptions (pieces profile item) = [last] := by
      rcases single with absent | ⟨option, one, same⟩
      · exact Or.inl absent
      · rw [given] at same
        cases same
        exact Or.inr one
    obtain ⟨same, complete⟩ := unfold_single head files.readable single'
    rw [rawArgs_expandItem, pieces, ← same]
    exact unfoldRespfile_eq given complete

/-- **Unfolding is expanding exactly when there is at most one response-file argument and the
remembered option matches it.** -/
theorem unfold_eq_expand_iff (loaded : ToolProfile.load validRegex j = .ok profile)
    (files : ResponseFiles profile host item) :
    unfoldRespfile profile host item (rawArgs item) =
        .ok (rawArgs (expandItem profile host item)) ↔ SingleResponse profile item := by
  refine ⟨fun same => ?_, unfold_eq_expand_of_single loaded files⟩
  have remembered := load_responseFileOption loaded
  cases given : profile.responseFileOption with
  | none =>
    refine Or.inl ?_
    rw [pieces, responseOptions_eq_nil (remembered.symm.trans given)]
    exact scanResponses_nil item.arguments
  | some last =>
    have head : (responseOptions profile.options).head? = some last := by
      rw [head_responseOptions, ← remembered, given]
    cases dangling : danglingResponse last (rawArgs item) with
    | true =>
      rw [unfoldRespfile_dangling given dangling] at same
      cases same
    | false =>
      rw [unfoldRespfile_eq given dangling, Except.ok.injEq] at same
      by_contra notSingle
      have notSingle' : ¬ (metOptions (pieces profile item) = [] ∨
          metOptions (pieces profile item) = [last]) := by
        rintro (absent | one)
        · exact notSingle (Or.inl absent)
        · exact notSingle (Or.inr ⟨last, one, given⟩)
      obtain ⟨tok, member, left⟩ := unfold_leaves head notSingle'
      rw [← rawArgs, same] at member
      obtain ⟨argument, found, rfl⟩ := List.mem_map.mp member
      exact left (expand_ordinary files.noContent files.readable argument found)

/-- Parsing the work item is parsing the expanded one, when unfolding is expanding. -/
theorem parse_of_unfold (loaded : ToolProfile.load validRegex j = .ok profile)
    (files : ResponseFiles profile host item)
    (same : unfoldRespfile profile host item (rawArgs item) =
      .ok (rawArgs (expandItem profile host item))) :
    parseWorkItem profile host item = parseWorkItem profile host (expandItem profile host item) := by
  have again : unfoldRespfile profile host (expandItem profile host item)
      (rawArgs (expandItem profile host item)) =
        .ok (rawArgs (expandItem profile host item)) :=
    unfold_of_ordinary loaded (expand_ordinary files.noContent files.readable)
  rw [parseWorkItem, parseWorkItem, same, again, ok_bind, ok_bind]
  rfl

/-- **Response files are expanded** when at most one argument names one and the remembered option
matches it, and then the work item is parsed as the expanded command line; in every other case a
response-file argument is left in the argument vector. -/
theorem parse_expanded (loaded : ToolProfile.load validRegex j = .ok profile)
    (files : ResponseFiles profile host item) :
    (SingleResponse profile item ↔
        unfoldRespfile profile host item (rawArgs item) =
          .ok (rawArgs (expandItem profile host item))) ∧
      (SingleResponse profile item →
        parseWorkItem profile host item =
          parseWorkItem profile host (expandItem profile host item)) :=
  ⟨(unfold_eq_expand_iff loaded files).symm, fun single =>
    parse_of_unfold loaded files (unfold_eq_expand_of_single loaded files single)⟩

end WorkItems

/-! ### Two response files -/

/-- A compiler profile with the response option `@`. -/
def responseProfileJson : Json :=
  .obj [("defaultCommandKind".toList, .str "compile".toList),
    ("options".toList, .arr [.obj [("aliases".toList, .arr [.str "@".toList]),
      ("argFormat".toList, .arr [.str "attached".toList]),
      ("type".toList, .str "response".toList)]]),
    ("sourceExtensions".toList, .obj [("c".toList, .arr [.str ".c".toList])])]

/-- The response option `@` of that profile. -/
def atOption : ToolOption where
  behaviour := .response
  defaultPrefix := none
  orderedAliases := ["@".toList]
  hasAlias := List.cons_ne_nil _ _
  argFormat := [.attached]

/-- The profile that is loaded from that description. -/
def responseProfile : ToolProfile :=
  { ToolProfile.init responseProfileJson with
    responseFileConfig := [.obj [("argFormat".toList, .arr [.str "attached".toList]),
      ("argument".toList, .str "@".toList)]]
    options := [atOption]
    responseFileOption := some atOption
    sourceExtensions := [(".c".toList, .cSource)] }

theorem load_responseProfile :
    ToolProfile.load (fun _ => true) responseProfileJson = .ok responseProfile := rfl

/-- A machine with the two files `a`, which holds `x.c`, and `b`, which holds `y.c`. -/
def twoFilesHost : Host where
  canonical path dir := Path.append dir path
  regularFile name _ :=
    if name = "a".toList then some "x.c".toList
    else if name = "b".toList then some "y.c".toList else none

/-- The command line `gcc` with the given arguments, run in `/work`. -/
def responseItem (arguments : List Str) : WorkItem where
  directory := "/work".toList
  arguments := "gcc".toList :: arguments
  respfile := none

theorem ordinary_singleton {name : Str} (single : respTokens name = [name])
    (ordinary : Ordinary (responseOptions responseProfile.options) name) :
    ∀ tok ∈ respTokens name, Ordinary (responseOptions responseProfile.options) tok := by
  intro tok member
  rw [single, List.mem_singleton] at member
  subst member
  exact ordinary

theorem responseFiles_two :
    ResponseFiles responseProfile twoFilesHost (responseItem ["@a".toList, "@b".toList]) := by
  refine ⟨rfl, ?_⟩
  rw [show pieces responseProfile (responseItem ["@a".toList, "@b".toList]) =
    [.plain "gcc".toList, .file atOption false "a".toList, .file atOption false "b".toList] from rfl]
  intro piece member
  simp only [List.mem_cons, List.not_mem_nil, or_false] at member
  rcases member with rfl | rfl | rfl
  · trivial
  · exact ⟨rfl, _, rfl, ordinary_singleton (by decide) rfl⟩
  · exact ⟨rfl, _, rfl, ordinary_singleton (by decide) rfl⟩

theorem responseFiles_one :
    ResponseFiles responseProfile twoFilesHost (responseItem ["@a".toList, "z.c".toList]) := by
  refine ⟨rfl, ?_⟩
  rw [show pieces responseProfile (responseItem ["@a".toList, "z.c".toList]) =
    [.plain "gcc".toList, .file atOption false "a".toList, .plain "z.c".toList] from rfl]
  intro piece member
  simp only [List.mem_cons, List.not_mem_nil, or_false] at member
  rcases member with rfl | rfl | rfl
  · trivial
  · exact ⟨rfl, _, rfl, ordinary_singleton (by decide) rfl⟩
  · trivial

/-- The command line `gcc @a @b` loses the source file that `b` names. -/
theorem second_response_file_lost :
    ¬ ∀ (validRegex : Str → Bool) (j : Json) (profile : ToolProfile) (host : Host)
      (item : WorkItem), ToolProfile.load validRegex j = .ok profile →
        ResponseFiles profile host item →
          parseWorkItem profile host item =
            parseWorkItem profile host (expandItem profile host item) := by
  intro expanded
  have same := expanded _ _ _ _ _ load_responseProfile responseFiles_two
  have sources := congrArg (fun result => result.toOption.map ParsedWorkItem.sources) same
  exact absurd sources (by decide)

/-- The command line `gcc @a z.c` is parsed as `gcc x.c z.c`. -/
theorem parse_expanded_one :
    parseWorkItem responseProfile twoFilesHost (responseItem ["@a".toList, "z.c".toList]) =
      parseWorkItem responseProfile twoFilesHost (responseItem ["x.c".toList, "z.c".toList]) :=
  (parse_expanded load_responseProfile responseFiles_one).2 (Or.inr ⟨_, rfl, rfl⟩)

end Xcalbuild.Profile
