/-
**The aliases of a loaded toolchain profile.**

A tool is entered under the aliases that the toolchain profile gives it, or else under the default
aliases of its tool profile. A later tool takes an alias from an earlier one.

* `toolAliases`: the aliases of the tools in their order, and `LastWith`: the tool that an alias is
  left with;
* `loadTool_enters`: what one tool changes, and `entered_of_load`: what is entered after a load;
* `sameTool_iff`: two names lead to one tool profile exactly when they are left with one tool, and
  `keys_eq`: the names that are entered are the aliases of the tools.
-/
import Xcalbuild.Library.OrderedSet
import Xcalbuild.Profile.Loaded

namespace Xcalbuild.Profile

open Library Library.Attempt ToolchainProfile

/-- The strings in an array. -/
def textsOf (elems : List Json) : List Str := elems.filterMap fun elem => elem.getString.toOption

/-- The default aliases of the tool profile of a tool. -/
def defaultAliasesOf (env : LoadEnv) (tool : Json) : List Str :=
  match tool.find "profile".toList with
  | some (.str path) => ((env.loadFile path).toOption.map ToolProfile.aliases).getD []
  | _ => []

/-- The aliases that a tool is entered under. -/
def aliasesOf (env : LoadEnv) (tool : Json) : List Str :=
  match tool.find "aliases".toList with
  | some aliases => textsOf aliases.range
  | none => defaultAliasesOf env tool

/-- The aliases of each of the tools, for a toolchain profile that is loaded. -/
def toolAliases (env : LoadEnv) (profileJson : Json) : List (List Str) :=
  match profileJson.find "tools".toList with
  | some tools => tools.range.map (aliasesOf env)
  | none => []

/-- All aliases in their order, each once. -/
def allAliases (tools : List (List Str)) : List Str := (OrderedSet.ofList tools.flatten).elems

/-- The tool is the last one with the alias. -/
def LastWith (tools : List (List Str)) (name : Str) (i : Nat) : Prop :=
  (∃ aliases, tools[i]? = some aliases ∧ name ∈ aliases) ∧
    ∀ j aliases, i < j → tools[j]? = some aliases → name ∉ aliases

/-! ### The last tool with an alias -/

section LastWith

variable {tools : List (List Str)} {aliases : List Str} {name : Str} {i : Nat}

theorem LastWith.lt (last : LastWith tools name i) : i < tools.length := by
  obtain ⟨⟨_, found, -⟩, -⟩ := last
  exact (List.getElem?_eq_some_iff.mp found).1

/-- **One more tool** takes its aliases from the others. -/
theorem lastWith_concat : LastWith (tools ++ [aliases]) name i ↔
    (name ∈ aliases ∧ i = tools.length) ∨ (name ∉ aliases ∧ LastWith tools name i) := by
  constructor
  · rintro ⟨⟨here, found, member⟩, later⟩
    have inside := (List.getElem?_eq_some_iff.mp found).1
    rw [List.length_append, List.length_singleton] at inside
    by_cases new : name ∈ aliases
    · refine Or.inl ⟨new, ?_⟩
      by_contra before
      exact later tools.length aliases (by omega) List.getElem?_concat_length new
    · refine Or.inr ⟨new, ?_, fun j others above found' => ?_⟩
      · have before : i < tools.length := by
          by_contra outside
          have last : i = tools.length := by omega
          rw [last, List.getElem?_concat_length] at found
          cases found
          exact new member
        rw [List.getElem?_append_left before] at found
        exact ⟨here, found, member⟩
      · refine later j others above ?_
        rw [List.getElem?_append_left (List.getElem?_eq_some_iff.mp found').1]
        exact found'
  · rintro (⟨member, rfl⟩ | ⟨absent, last⟩)
    · refine ⟨⟨aliases, List.getElem?_concat_length, member⟩, fun j others above found => ?_⟩
      have inside := (List.getElem?_eq_some_iff.mp found).1
      rw [List.length_append, List.length_singleton] at inside
      omega
    · have before := last.lt
      obtain ⟨⟨here, found, member⟩, later⟩ := last
      refine ⟨⟨here, ?_, member⟩, fun j others above found' => ?_⟩
      · rw [List.getElem?_append_left before]
        exact found
      · have inside := (List.getElem?_eq_some_iff.mp found').1
        rw [List.length_append, List.length_singleton] at inside
        by_cases old : j < tools.length
        · rw [List.getElem?_append_left old] at found'
          exact later j others above found'
        · have new : j = tools.length := by omega
          rw [new, List.getElem?_concat_length] at found'
          cases found'
          exact absent

/-- Every alias is left with a tool. -/
theorem mem_allAliases_iff : name ∈ allAliases tools ↔ ∃ i, LastWith tools name i := by
  rw [allAliases, ← OrderedSet.mem_def, OrderedSet.mem_ofList]
  induction tools using List.reverseRecOn with
  | nil =>
    refine iff_of_false List.not_mem_nil ?_
    rintro ⟨i, last⟩
    exact absurd last.lt (Nat.not_lt_zero i)
  | append_singleton tools aliases ih =>
    rw [List.flatten_append, List.mem_append, ih, List.flatten_singleton]
    simp only [lastWith_concat, exists_or, exists_and_left]
    by_cases new : name ∈ aliases
    · exact iff_of_true (Or.inr new) (Or.inl ⟨new, _, rfl⟩)
    · rw [or_iff_left new, or_iff_right fun both => new both.1, and_iff_right new]

end LastWith

/-! ### What is entered -/

section Entered

variable {env : LoadEnv} {p : Address} {s s' : ToolchainProfile}

/-- **The state after some tools**: each alias leads to the tool profile of the last tool that has it. -/
structure Entered (tools : List (List Str)) (s : ToolchainProfile) : Prop where
  number : s.live.length = tools.length
  found : ∀ name p, s.binaries.find name = some p ↔
    ∃ i, LastWith tools name i ∧ s.live[i]? = some p

theorem find_foldl_setBinary (names : List Str) (s : ToolchainProfile) (name : Str) :
    (names.foldl (fun t binary => t.setBinary p binary) s).binaries.find name =
      if name ∈ names then some p else s.binaries.find name := by
  induction names generalizing s with
  | nil => rw [if_neg List.not_mem_nil, List.foldl_nil]
  | cons first rest ih =>
    rw [List.foldl_cons, ih, ToolchainProfile.setBinary, OrderedMap.find_set]
    simp only [List.mem_cons]
    by_cases later : name ∈ rest
    · rw [if_pos later, if_pos (Or.inr later)]
    · rw [if_neg later]
      by_cases here : name = first
      · rw [if_pos here, if_pos (Or.inl here)]
      · rw [if_neg here, if_neg fun either => either.elim here later]

/-- A loop over names that ends enters the strings of the array. -/
theorem forEachName_ok {enter : Str → ToolchainProfile → ToolchainProfile} {elems : List Json}
    (ran : (forEachName enter elems).run s = .ok () s') :
    s' = (textsOf elems).foldl (fun t text => enter text t) s := by
  induction elems generalizing s with
  | nil =>
    cases ran
    rfl
  | cons elem rest ih =>
    obtain ⟨_, _, first, later⟩ := run_bind_eq_ok ran
    obtain ⟨text, middle, validated, entered⟩ := run_bind_eq_ok first
    obtain ⟨read, rfl⟩ := run_lift_eq_ok validated
    cases entered
    obtain ⟨_, -, got⟩ := bind_eq_ok read
    cases elem with
    | str value =>
      cases got
      exact ih later
    | _ => cases got

theorem forEach_setBinary (names : List Str) (s : ToolchainProfile) :
    (forEach (fun binary => update (ToolchainProfile.setBinary p binary)) names : Loading Unit).run s =
      .ok () (names.foldl (fun t binary => t.setBinary p binary) s) := by
  induction names generalizing s with
  | nil => rfl
  | cons first rest ih => exact ih _

/-- **The aliases of a tool** lead to its tool profile. -/
theorem addBinaries_find {tool : Json} {profile : ToolProfile} (loads : LoadsProfile env tool profile)
    (ran : (addBinaries p profile tool).run s = .ok () s') (name : Str) :
    s'.binaries.find name =
      if name ∈ aliasesOf env tool then some p else s.binaries.find name := by
  unfold addBinaries at ran
  unfold aliasesOf
  cases given : tool.find "aliases".toList with
  | some aliases =>
    have present : tool.count "aliases".toList = true := by
      rw [Json.count, given]
      rfl
    rw [if_pos present] at ran
    obtain ⟨value, middle, validated, entered⟩ := run_bind_eq_ok ran
    obtain ⟨read, rfl⟩ := run_lift_eq_ok validated
    rw [(validateKey_eq_ok.mp read).1] at given
    cases given
    rw [forEachName_ok entered]
    exact find_foldl_setBinary _ _ name
  | none =>
    have missing : ¬ tool.count "aliases".toList = true := by
      rw [Json.count, given]
      exact Bool.false_ne_true
    rw [if_neg missing, forEach_setBinary] at ran
    cases ran
    obtain ⟨-, path, -, isPath, loaded⟩ := loads
    simp only [defaultAliasesOf, isPath, loaded, Except.toOption, Option.map_some, Option.getD_some]
    exact find_foldl_setBinary _ _ name

theorem addOrigins_binaries {tool : Json} (ran : (addOrigins p tool).run s = .ok () s') :
    s'.binaries = s.binaries := by
  unfold addOrigins at ran
  by_cases given : tool.count "origin".toList = true
  · rw [if_pos given] at ran
    obtain ⟨origins, _, lifted, rest⟩ := run_bind_eq_ok ran
    rw [(run_lift_eq_ok lifted).2] at rest
    obtain ⟨_, middle, cleared, entered⟩ := run_bind_eq_ok rest
    cases cleared
    have kept : ∀ (text : Str) (t : ToolchainProfile), t.binaries = s.binaries →
        (addOrigin p text t).binaries = s.binaries := fun _ _ same => same
    refine forEachName_keeps kept ?_ entered
    rfl
  · rw [if_neg given] at ran
    cases ran
    rfl

/-- **What one tool changes.** -/
theorem loadTool_enters {tools : List (List Str)} {tool : Json} (entered : Entered tools s)
    (ran : (loadTool env tool).run s = .ok () s') :
    Entered (tools ++ [aliasesOf env tool]) s' := by
  obtain ⟨added, profiles, -⟩ := loadTool_adds ran
  have live : s'.live = s.live ++ [env.allocate s.live] := by
    rw [ToolchainProfile.live, profiles, List.map_append]
    rfl
  have binaries : ∀ name, s'.binaries.find name =
      if name ∈ aliasesOf env tool then some (env.allocate s.live) else s.binaries.find name := by
    rcases run_loadTool env tool s with ⟨-, e, failed⟩ | ⟨profile, loads, rest⟩
    · rw [failed] at ran
      cases ran
    · rw [rest] at ran
      obtain ⟨_, middle, aliases, later⟩ := run_bind_eq_ok ran
      obtain ⟨_, last, origins, handed⟩ := run_bind_eq_ok later
      cases handed
      intro name
      rw [← addBinaries_find loads aliases name, ← addOrigins_binaries origins]
      rfl
  refine ⟨by rw [live, List.length_append, List.length_append, entered.number]; rfl,
    fun name q => ?_⟩
  rw [binaries, live]
  simp only [lastWith_concat]
  by_cases new : name ∈ aliasesOf env tool
  · rw [if_pos new]
    constructor
    · rintro same
      exact ⟨_, Or.inl ⟨new, rfl⟩, by rw [← entered.number, List.getElem?_concat_length, same]⟩
    · rintro ⟨i, ⟨-, rfl⟩ | ⟨absent, -⟩, there⟩
      · rw [← entered.number, List.getElem?_concat_length] at there
        exact there
      · exact absurd new absent
  · rw [if_neg new, entered.found]
    refine exists_congr fun i => ?_
    rw [or_iff_right fun both => new both.1, and_iff_right new]
    refine and_congr_right fun last => ?_
    rw [List.getElem?_append_left (entered.number ▸ last.lt)]

theorem forEach_enters {tools : List (List Str)} {elems : List Json} (entered : Entered tools s)
    (ran : (forEach (loadTool env) elems).run s = .ok () s') :
    Entered (tools ++ elems.map (aliasesOf env)) s' := by
  induction elems generalizing s tools with
  | nil =>
    cases ran
    rw [List.map_nil, List.append_nil]
    exact entered
  | cons tool rest ih =>
    obtain ⟨_, middle, first, later⟩ := run_bind_eq_ok ran
    have more := ih (loadTool_enters entered first) later
    rwa [List.append_assoc, List.singleton_append] at more

end Entered

/-! ### After a load -/

section Load

variable {env : LoadEnv} {profileJson : Json} {toolchain : ToolchainProfile}
  (ran : (ToolchainProfile.load env profileJson).run .empty = .ok () toolchain)

include ran

/-- **After a load each alias leads to the last tool that has it.** -/
theorem entered_of_load : Entered (toolAliases env profileJson) toolchain := by
  unfold ToolchainProfile.load at ran
  obtain ⟨tools, _, validated, each⟩ := run_bind_eq_ok ran
  obtain ⟨read, rfl⟩ := run_lift_eq_ok validated
  have nothing : Entered [] ToolchainProfile.empty := by
    refine ⟨rfl, fun name p => iff_of_false ?_ ?_⟩
    · rintro ⟨⟩
    · rintro ⟨i, last, -⟩
      exact absurd last.lt (Nat.not_lt_zero i)
  rw [toolAliases, (validateKey_eq_ok.mp read).1]
  exact forEach_enters nothing each

/-- **Two names lead to one tool profile exactly when they are left with one tool.** -/
theorem sameTool_iff {first second : Str} :
    (∃ p, toolchain.binaries.find first = some p ∧ toolchain.binaries.find second = some p) ↔
      ∃ i, LastWith (toolAliases env profileJson) first i ∧
        LastWith (toolAliases env profileJson) second i := by
  have entered := entered_of_load ran
  constructor
  · rintro ⟨p, found, found'⟩
    obtain ⟨i, last, there⟩ := (entered.found first p).mp found
    obtain ⟨j, last', there'⟩ := (entered.found second p).mp found'
    have same : i = j := (List.getElem?_inj (entered.number ▸ last.lt) (loaded_of_load ran).distinct).mp
      (there.trans there'.symm)
    exact ⟨i, last, same ▸ last'⟩
  · rintro ⟨i, last, last'⟩
    have inside : i < toolchain.live.length := entered.number ▸ last.lt
    have there := List.getElem?_eq_getElem inside
    exact ⟨_, (entered.found first _).mpr ⟨i, last, there⟩,
      (entered.found second _).mpr ⟨i, last', there⟩⟩

/-- **The names that are entered** are the aliases of the tools. -/
theorem keys_eq : toolchain.binaries.keys = allAliases (toolAliases env profileJson) := by
  have entered := entered_of_load ran
  refine OrderedSet.sorted_ext (List.pairwise_map.mpr toolchain.binaries.sorted)
    (OrderedSet.ofList _).sorted fun name => ?_
  refine Iff.trans ?_ mem_allAliases_iff.symm
  rw [OrderedMap.mem_keys]
  constructor
  · rintro ⟨p, found⟩
    obtain ⟨i, last, -⟩ := (entered.found name p).mp found
    exact ⟨i, last⟩
  · rintro ⟨i, last⟩
    have inside : i < toolchain.live.length := entered.number ▸ last.lt
    exact ⟨_, (entered.found name _).mpr ⟨i, last, List.getElem?_eq_getElem inside⟩⟩

end Load

end Xcalbuild.Profile
