/-
**`ToolchainProfile::load`.**

A toolchain profile owns the tool profiles that it has loaded (`profiles`) and refers to them by
address from the map of the binaries and from the map of the origins. `load` enters the references to
a tool profile while it goes through the aliases and origins of the tool, with a check of each of
them, and only then the tool profile is handed over to `profiles`; when a check fails before that,
the tool profile is destroyed.

* `Owned`: every reference is to a tool profile of `profiles`, so the lookups and
  `get_binaries_to_trace` give tool profiles that exist (`getToolProfile_owned`,
  `getProfileOrigins_owned`, `getBinariesToTrace_owned`);
* `load_owned_iff`: when every reference is to a tool profile of `profiles` after a load.
-/
import Mathlib.Data.Char
import Mathlib.Data.List.Lex
import Xcalbuild.Library.Attempt
import Xcalbuild.Library.OrderedMap
import Xcalbuild.Library.Path
import Xcalbuild.Profile.Errors

namespace Xcalbuild.Profile

open Library Library.Shape Library.Attempt

/-- The address of a tool profile. -/
abbrev Address := Nat

structure ToolchainProfile where
  /-- The referenced tool profiles, each with its address. -/
  profiles : List (Address × ToolProfile)
  /-- The interesting binaries. -/
  binaries : OrderedMap Str Address
  /-- The origin of the profiles. -/
  profileOrigins : OrderedMap Address (List Str)

/-- What loading depends on besides the toolchain profile. -/
structure LoadEnv where
  /-- The JSON value in the file that a `profile` property leads to, if it can be parsed. -/
  toolFile : Str → Option Json
  /-- The patterns that the regular expression library compiles. -/
  validRegex : Str → Bool
  /-- The address of a new object. -/
  allocate : List Address → Address
  allocate_fresh : ∀ live, allocate live ∉ live

namespace ToolchainProfile

def empty : ToolchainProfile where
  profiles := []
  binaries := .empty
  profileOrigins := .empty

/-- The addresses of the tool profiles that are owned. -/
def live (profile : ToolchainProfile) : List Address := profile.profiles.map Prod.fst

/-- `binaries[alias] = p` -/
def setBinary (p : Address) (binary : Str) (profile : ToolchainProfile) : ToolchainProfile :=
  { profile with binaries := profile.binaries.set binary p }

/-- `profile_origins[p] = std::vector<std::string>()` -/
def clearOrigins (p : Address) (profile : ToolchainProfile) : ToolchainProfile :=
  { profile with profileOrigins := profile.profileOrigins.set p [] }

/-- `profile_origins[p].push_back(origin)` -/
def addOrigin (p : Address) (origin : Str) (profile : ToolchainProfile) : ToolchainProfile :=
  { profile with
    profileOrigins := profile.profileOrigins.set p
      (((profile.profileOrigins.find p).getD []) ++ [origin]) }

/-- `profiles.push_back(std::move(p))` -/
def own (p : Address) (tool : ToolProfile) (profile : ToolchainProfile) : ToolchainProfile :=
  { profile with profiles := profile.profiles ++ [(p, tool)] }

/-- `get_mutable_tool_profile_and_binary_path`, without the path of the binary. -/
def getMutableToolProfile (profile : ToolchainProfile) (workItem : WorkItem) : Option Address :=
  match workItem.arguments with
  | [] => none
  | binaryPath :: _ =>
      let binary := Path.replaceExtension (Path.filename binaryPath) []
      profile.binaries.find binary

def getToolProfile (profile : ToolchainProfile) (workItem : WorkItem) : Option Address :=
  profile.getMutableToolProfile workItem

def getProfileOrigins (profile : ToolchainProfile) (p : Address) : Option (List Str) :=
  profile.profileOrigins.find p

/-- The configuration of the tracer for a binary. -/
def tracerConfig (binary : Str) (tool : ToolProfile) : Json :=
  .obj [("binary".toList, .str binary), ("responseFileArgs".toList, .arr tool.responseFileConfig)]

/-- `get_binaries_to_trace`. There is no result where a tool profile does not exist any more. -/
def getBinariesToTrace (profile : ToolchainProfile) : Option (List (Str × Json)) :=
  profile.binaries.entries.mapM fun entry =>
    (profile.profiles.lookup entry.2).map fun tool => (entry.1, tracerConfig entry.1 tool)

end ToolchainProfile

abbrev Loading (α : Type) : Type := Attempt ToolchainProfile LoadError α

/-- `ToolProfile::load` with the path of a file. -/
def LoadEnv.loadFile (env : LoadEnv) (path : Str) : Except LoadError ToolProfile :=
  match env.toolFile path with
  | some j => ToolProfile.load env.validRegex j
  | none => .error .incorrectProfile

/-- `std::make_unique<ToolProfile>()` -/
def makeUnique (env : LoadEnv) : Loading Address := do return env.allocate (← get).live

/-- A loop over an array of names, each of which is validated before it is entered. -/
def forEachName (enter : Str → ToolchainProfile → ToolchainProfile) (elems : List Json) :
    Loading Unit :=
  forEach (fun elem => do
    let text ← lift (validString elem .stringArray false)
    update (enter text)) elems

/-- Add binary -> profile association. -/
def addBinaries (p : Address) (profile : ToolProfile) (tool : Json) : Loading Unit :=
  if tool.count "aliases".toList then do
    -- The toolchain level aliases override the default ones.
    let aliases ← lift (validateKey tool "aliases".toList .array false)
    forEachName (ToolchainProfile.setBinary p) aliases.range
  else forEach (fun binary => update (ToolchainProfile.setBinary p binary)) profile.aliases

/-- Add profile origins if any. -/
def addOrigins (p : Address) (tool : Json) : Loading Unit :=
  if tool.count "origin".toList then do
    let origins ← lift (validateKey tool "origin".toList .array false)
    update (ToolchainProfile.clearOrigins p)
    forEachName (ToolchainProfile.addOrigin p) origins.range
  else pure ()

/-- One iteration of the loop over the tools. -/
def loadTool (env : LoadEnv) (tool : Json) : Loading Unit := do
  lift (validateJson tool .objectArray false)
  let path ← lift (stringProperty tool "profile".toList false)
  let p ← makeUnique env
  let profile ← lift (env.loadFile path)
  addBinaries p profile tool
  addOrigins p tool
  update (ToolchainProfile.own p profile)

/-- `ToolchainProfile::load` -/
def ToolchainProfile.load (env : LoadEnv) (profileJson : Json) : Loading Unit := do
  let tools ← lift (validateKey profileJson "tools".toList .array false)
  forEach (loadTool env) tools.range

/-! ### References -/

namespace ToolchainProfile

/-- The toolchain profile refers to the tool profile at the address. -/
def Refers (profile : ToolchainProfile) (p : Address) : Prop :=
  (∃ binary, profile.binaries.find binary = some p) ∨
    ∃ origins, profile.profileOrigins.find p = some origins

/-- **Every reference is to a tool profile that is owned.** -/
def Owned (profile : ToolchainProfile) : Prop := ∀ p, profile.Refers p → p ∈ profile.live

theorem getToolProfile_owned {profile : ToolchainProfile} (owned : profile.Owned)
    {workItem : WorkItem} {p : Address} (found : profile.getToolProfile workItem = some p) :
    p ∈ profile.live := by
  unfold getToolProfile getMutableToolProfile at found
  split at found
  · cases found
  · exact owned p (Or.inl ⟨_, found⟩)

theorem getProfileOrigins_owned {profile : ToolchainProfile} (owned : profile.Owned) {p : Address}
    {origins : List Str} (found : profile.getProfileOrigins p = some origins) : p ∈ profile.live :=
  owned p (Or.inr ⟨origins, found⟩)

/-- The configurations of the binaries are read from tool profiles that exist. -/
theorem getBinariesToTrace_owned {profile : ToolchainProfile} (owned : profile.Owned) :
    ∃ configs, profile.getBinariesToTrace = some configs := by
  have every : ∀ entry ∈ profile.binaries.entries, ∃ config,
      (profile.profiles.lookup entry.2).map (fun tool => (entry.1, tracerConfig entry.1 tool)) =
        some config := by
    rintro ⟨binary, p⟩ member
    have live := owned p (Or.inl ⟨binary, OrderedMap.mem_entries.mp member⟩)
    obtain ⟨⟨q, tool⟩, owns, rfl⟩ := List.mem_map.mp live
    have isSome := List.lookup_isSome_iff.mpr ⟨_, owns, beq_self_eq_true q⟩
    obtain ⟨tool', found⟩ := Option.isSome_iff_exists.mp isSome
    exact ⟨_, congrArg (Option.map _) found⟩
  unfold getBinariesToTrace
  generalize profile.binaries.entries = entries at every ⊢
  induction entries with
  | nil => exact ⟨[], rfl⟩
  | cons entry rest ih =>
    obtain ⟨here, every⟩ := List.forall_mem_cons.mp every
    obtain ⟨config, isConfig⟩ := here
    obtain ⟨configs, areConfigs⟩ := ih every
    rw [List.mapM_cons, isConfig, areConfigs]
    exact ⟨config :: configs, rfl⟩

end ToolchainProfile

open ToolchainProfile

/-- Only references to `p` were added, and one was if `referred`. -/
structure AddsTo (p : Address) (referred : Prop) (before after : ToolchainProfile) : Prop where
  profiles : after.profiles = before.profiles
  only : ∀ q, after.Refers q → q = p ∨ before.Refers q
  refers : referred → after.Refers p
  keeps : before.Refers p → after.Refers p
  same : ¬ referred → after = before

namespace AddsTo

variable {p : Address} {referred referred' : Prop} {before middle after : ToolchainProfile}

protected theorem refl : AddsTo p False before before :=
  ⟨rfl, fun _ => Or.inr, False.elim, id, fun _ => rfl⟩

protected theorem trans (first : AddsTo p referred before middle)
    (second : AddsTo p referred' middle after) : AddsTo p (referred ∨ referred') before after where
  profiles := second.profiles.trans first.profiles
  only q refers := (second.only q refers).elim Or.inl (first.only q)
  refers := Or.rec (fun holds => second.keeps (first.refers holds)) second.refers
  keeps := second.keeps ∘ first.keeps
  same absent := by
    obtain ⟨neither, nor⟩ := not_or.mp absent
    rw [second.same nor, first.same neither]

theorem congr (adds : AddsTo p referred before after) (iff : referred ↔ referred') :
    AddsTo p referred' before after :=
  propext iff ▸ adds

theorem setBinary (binary : Str) (before : ToolchainProfile) :
    AddsTo p True before (before.setBinary p binary) where
  profiles := rfl
  only q := by
    rintro (⟨other, found⟩ | origins)
    · rw [ToolchainProfile.setBinary, OrderedMap.find_set] at found
      split_ifs at found with same
      · exact Or.inl (Option.some_inj.mp found).symm
      · exact Or.inr (Or.inl ⟨other, found⟩)
    · exact Or.inr (Or.inr origins)
  refers _ := by
    refine Or.inl ⟨binary, ?_⟩
    rw [ToolchainProfile.setBinary, OrderedMap.find_set, if_pos rfl]
  keeps _ := by
    refine Or.inl ⟨binary, ?_⟩
    rw [ToolchainProfile.setBinary, OrderedMap.find_set, if_pos rfl]
  same absent := absurd trivial absent

/-- An assignment to the origins of `p`. -/
theorem setOrigins (origins : List Str) (before : ToolchainProfile) :
    AddsTo p True before
      { before with profileOrigins := before.profileOrigins.set p origins } where
  profiles := rfl
  only q := by
    rintro (binary | ⟨found, isFound⟩)
    · exact Or.inr (Or.inl binary)
    · rw [OrderedMap.find_set] at isFound
      split_ifs at isFound with same
      · exact Or.inl same
      · exact Or.inr (Or.inr ⟨found, isFound⟩)
  refers _ := Or.inr ⟨origins, by rw [OrderedMap.find_set, if_pos rfl]⟩
  keeps _ := Or.inr ⟨origins, by rw [OrderedMap.find_set, if_pos rfl]⟩
  same absent := absurd trivial absent

/-- While the tool profile is not owned, a reference to it makes the difference. -/
theorem owned_iff (adds : AddsTo p referred before after) (owned : before.Owned)
    (fresh : p ∉ before.live) : after.Owned ↔ ¬ referred := by
  have live : after.live = before.live := congrArg (List.map Prod.fst) adds.profiles
  constructor
  · intro allocated holds
    exact fresh (live ▸ allocated p (adds.refers holds))
  · intro absent
    rw [adds.same absent]
    exact owned

/-- When the tool profile is handed over, every reference is to one that is owned. -/
theorem owned_own (adds : AddsTo p referred before after) (owned : before.Owned)
    (tool : ToolProfile) : (after.own p tool).Owned := by
  intro q refers
  have live : (after.own p tool).live = before.live ++ [p] := by
    rw [ToolchainProfile.live, own, adds.profiles, List.map_append]
    rfl
  rw [live, List.mem_append, List.mem_singleton]
  exact (adds.only q refers).elim Or.inr fun old => Or.inl (owned q old)

end AddsTo

/-! ### Loops over names -/

section Names

variable {p : Address} {enter : Str → ToolchainProfile → ToolchainProfile}

/-- How a part of a load ends: well when `good`, and with references to `p` when `referred`. -/
def Ends (p : Address) (referred good : Prop) (part : Loading Unit) (s : ToolchainProfile) : Prop :=
  ∃ s', AddsTo p referred s s' ∧
    (good ∧ part.run s = .ok () s' ∨ ¬ good ∧ ∃ e, part.run s = .error e s')

theorem Ends.congr {referred referred' good good' : Prop} {part : Loading Unit} {s : ToolchainProfile}
    (ends : Ends p referred good part s) (sameSome : referred ↔ referred') (sameGood : good ↔ good') :
    Ends p referred' good' part s :=
  propext sameSome ▸ propext sameGood ▸ ends

/-- **A loop over names** ends well when all of them are nonempty strings, and has entered something
when the first one is. -/
theorem ends_forEachName (enters : ∀ text s, AddsTo p True s (enter text s)) (elems : List Json)
    (s : ToolchainProfile) :
    Ends p (∃ first rest, elems = first :: rest ∧ name first) (∀ elem ∈ elems, name elem)
      (forEachName enter elems) s := by
  induction elems generalizing s with
  | nil =>
    refine ⟨s, AddsTo.refl.congr (iff_of_false id ?_), Or.inl ⟨?_, rfl⟩⟩
    · rintro ⟨first, rest, impossible, -⟩
      cases impossible
    · exact fun elem member => absurd member List.not_mem_nil
  | cons elem rest ih =>
    have judged := @judged_nameIn elem .stringArray (Or.inr rfl)
    cases read : validString elem .stringArray false with
    | ok text =>
      have named := judged.passes_iff.mp ⟨text, read⟩
      have entered : (forEachName enter (elem :: rest)).run s =
          (forEachName enter rest).run (enter text s) := by
        refine run_bind_ok (a := ()) ?_
        rw [run_bind_ok (run_lift_ok read s)]
        rfl
      obtain ⟨s', adds, ends⟩ := ih (enter text s)
      refine ⟨s', ((enters text s).trans adds).congr ?_, ?_⟩
      · exact iff_of_true (Or.inl trivial) ⟨elem, rest, rfl, named⟩
      · rw [entered, List.forall_mem_cons, and_iff_right named]
        exact ends
    | error e =>
      have unnamed : ¬ name elem := by
        rw [← judged.passes_iff, read]
        rintro ⟨text, impossible⟩
        cases impossible
      refine ⟨s, AddsTo.refl.congr (iff_of_false id ?_), Or.inr ⟨?_, e, ?_⟩⟩
      · rintro ⟨first, rest, same, named⟩
        cases same
        exact unnamed named
      · exact fun every => unnamed (every elem List.mem_cons_self)
      · exact run_bind_error (run_bind_error (run_lift_error read s))

/-- What is done with a validated array ends as it does for the array. -/
theorem ends_key {tool : Json} {key : Str} {next : Json → Loading Unit} {referred good : Json → Prop}
    {s : ToolchainProfile} (each : ∀ value, Ends p (referred value) (good value) (next value) s) :
    Ends p (required key (fun value => validType .array false value = true ∧ referred value) tool)
      (required key (fun value => validType .array false value = true ∧ good value) tool)
      (lift (validateKey tool key .array false) >>= next) s := by
  cases validated : validateKey tool key .array false with
  | ok value =>
    obtain ⟨found, valid⟩ := validateKey_eq_ok.mp validated
    obtain ⟨s', adds, ends⟩ := each value
    refine ⟨s', adds.congr ?_, ?_⟩
    · rw [required_iff found]
      exact (and_iff_right valid).symm
    · rw [required_iff found, and_iff_right valid]
      exact ends
  | error e =>
    have never : ∀ t : Shape,
        ¬ required key (fun value => validType .array false value = true ∧ t value) tool := by
      rintro t ⟨value, found, valid, -⟩
      rw [validateKey_eq_ok.mpr ⟨found, valid⟩] at validated
      cases validated
    exact ⟨s, AddsTo.refl.congr (iff_of_false id (never _)),
      Or.inr ⟨never _, e, run_bind_error (run_lift_error rfl s)⟩⟩

/-- An update before a part. -/
theorem ends_update {start : ToolchainProfile → ToolchainProfile} {referred good : Prop}
    {part : Loading Unit} {s : ToolchainProfile} (starts : AddsTo p True s (start s))
    (ends : Ends p referred good part (start s)) :
    Ends p True good (update start >>= fun _ => part) s := by
  obtain ⟨s', adds, result⟩ := ends
  refine ⟨s', (starts.trans adds).congr (iff_of_true (Or.inl trivial) trivial), ?_⟩
  rw [run_bind_ok (run_update start s)]
  exact result

/-- A loop that does not check. -/
theorem ends_forEach (enters : ∀ text s, AddsTo p True s (enter text s)) (names : List Str)
    (s : ToolchainProfile) :
    Ends p (names ≠ []) True (forEach (fun text => update (enter text)) names) s := by
  induction names generalizing s with
  | nil => exact ⟨s, AddsTo.refl.congr (iff_of_false id fun no => no rfl), Or.inl ⟨trivial, rfl⟩⟩
  | cons text rest ih =>
    exact (ends_update (enters text s) (ih _)).congr
      (iff_of_true trivial (List.cons_ne_nil text rest)) Iff.rfl

end Names

/-! ### One tool -/

section Tool

variable {tool : Json} {profile : ToolProfile}

/-- An alias is entered for the tool before an error is found. -/
def AliasEntered (profile : ToolProfile) (tool : Json) : Prop :=
  if tool.count "aliases".toList then
    required "aliases".toList (fun value => ∃ first rest, value = .arr (first :: rest) ∧ name first)
      tool
  else profile.aliases ≠ []

/-- A list of origins is entered for the tool before an error is found. -/
def OriginsEntered : Shape :=
  required "origin".toList fun value => ∃ first rest, value = .arr (first :: rest)

/-- A property that may be missing, and that is there. -/
theorem optional_iff_required {t : Shape} {key : Str} (present : tool.count key = true) :
    optional key t tool ↔ required key t tool := by
  exact ⟨required_of_count present, optional_of_required⟩

theorem optional_of_missing {t : Shape} {key : Str} (missing : ¬ tool.count key = true) :
    optional key t tool := by
  intro value found
  rw [Json.count, found] at missing
  exact absurd rfl missing

theorem ends_addBinaries (p : Address) (s : ToolchainProfile) :
    Ends p (AliasEntered profile tool) (optional "aliases".toList NameArray tool)
      (addBinaries p profile tool) s := by
  have enters := fun text s => AddsTo.setBinary (p := p) text s
  unfold addBinaries AliasEntered
  by_cases present : tool.count "aliases".toList = true
  · rw [if_pos present, if_pos present, optional_iff_required present]
    refine (ends_key fun value => ends_forEachName enters value.range s).congr ?_ ?_
    · refine required_congr fun value => ?_
      constructor
      · rintro ⟨valid, first, rest, same, named⟩
        cases value with
        | arr elems => exact ⟨first, rest, congrArg Json.arr same, named⟩
        | _ => cases valid
      · rintro ⟨first, rest, rfl, named⟩
        exact ⟨rfl, first, rest, rfl, named⟩
    · exact required_congr fun value => validType_array
  · rw [if_neg present, if_neg present]
    exact (ends_forEach enters profile.aliases s).congr Iff.rfl
      (iff_of_true trivial (optional_of_missing present))

theorem ends_addOrigins (p : Address) (s : ToolchainProfile) :
    Ends p (OriginsEntered tool) (optional "origin".toList NameArray tool)
      (addOrigins p tool) s := by
  have enters := fun text (s : ToolchainProfile) => AddsTo.setOrigins (p := p)
    (((s.profileOrigins.find p).getD []) ++ [text]) s
  unfold addOrigins OriginsEntered
  by_cases present : tool.count "origin".toList = true
  · rw [if_pos present, optional_iff_required present]
    refine (ends_key fun value => ends_update (AddsTo.setOrigins [] s)
      (ends_forEachName enters value.range _)).congr ?_ ?_
    · refine required_congr fun value => ?_
      constructor
      · rintro ⟨valid, -⟩
        cases value with
        | arr elems =>
          cases elems with
          | nil => cases valid
          | cons first rest => exact ⟨first, rest, rfl⟩
        | _ => cases valid
      · rintro ⟨first, rest, rfl⟩
        exact ⟨rfl, trivial⟩
    · exact required_congr fun value => validType_array
  · rw [if_neg present]
    refine ⟨s, AddsTo.refl.congr (iff_of_false id ?_), Or.inl ⟨optional_of_missing present, rfl⟩⟩
    rintro ⟨value, found, -⟩
    rw [Json.count, found] at present
    exact present rfl

/-- The tool profile of a tool is found and loaded. -/
def LoadsProfile (env : LoadEnv) (tool : Json) (profile : ToolProfile) : Prop :=
  FilledObject tool ∧ ∃ path, path ≠ [] ∧ tool.find "profile".toList = some (.str path) ∧
    env.loadFile path = .ok profile

/-- Everything about the tool is correct. -/
def GoodTool (env : LoadEnv) (tool : Json) : Prop :=
  (∃ profile, LoadsProfile env tool profile) ∧ optional "aliases".toList NameArray tool ∧
    optional "origin".toList NameArray tool

/-- **The tool profile is loaded, and an error is found after a reference to it was entered**: in a
later alias, or in the origins. -/
def Dangles (env : LoadEnv) (tool : Json) : Prop :=
  ∃ profile, LoadsProfile env tool profile ∧
    (¬ optional "aliases".toList NameArray tool ∧ AliasEntered profile tool ∨
      optional "aliases".toList NameArray tool ∧ ¬ optional "origin".toList NameArray tool ∧
        (AliasEntered profile tool ∨ OriginsEntered tool))

theorem LoadsProfile.unique {env : LoadEnv} {profile' : ToolProfile}
    (first : LoadsProfile env tool profile) (second : LoadsProfile env tool profile') :
    profile = profile' := by
  obtain ⟨-, path, -, found, loaded⟩ := first
  obtain ⟨-, path', -, found', loaded'⟩ := second
  rw [found] at found'
  cases found'
  rw [loaded] at loaded'
  cases loaded'
  rfl

/-- **Without a tool profile nothing is entered; with one, `p` is where it was made.** -/
theorem run_loadTool (env : LoadEnv) (tool : Json) (s : ToolchainProfile) :
    (¬ (∃ profile, LoadsProfile env tool profile) ∧ ∃ e, (loadTool env tool).run s = .error e s) ∨
      ∃ profile, LoadsProfile env tool profile ∧ (loadTool env tool).run s =
        (do
          addBinaries (env.allocate s.live) profile tool
          addOrigins (env.allocate s.live) tool
          update (own (env.allocate s.live) profile) : Loading Unit).run s := by
  have object := @judged_object_self tool .objectArray (Or.inr rfl)
  unfold loadTool
  cases validated : validateJson tool .objectArray false with
  | error e =>
    refine Or.inl ⟨?_, e, run_bind_error (run_lift_error rfl s)⟩
    rintro ⟨profile, isObject, -⟩
    obtain ⟨_, passed⟩ := object.passes_iff.mpr isObject
    rw [validated] at passed
    cases passed
  | ok _ =>
    rw [run_bind_ok (run_lift_ok rfl s)]
    cases read : stringProperty tool "profile".toList false with
    | error e =>
      refine Or.inl ⟨?_, e, run_bind_error (run_lift_error rfl s)⟩
      rintro ⟨profile, -, path, nonempty, found, -⟩
      obtain ⟨_, passed⟩ := judged_stringProperty.passes_iff.mpr
        (⟨_, found, path, nonempty, rfl⟩ : required "profile".toList name tool)
      rw [read] at passed
      cases passed
    | ok path =>
      have named := stringProperty_eq_ok read
      have made : (makeUnique env).run s = .ok (env.allocate s.live) s := rfl
      rw [run_bind_ok (run_lift_ok rfl s), run_bind_ok made]
      cases loaded : env.loadFile path with
      | error e =>
        refine Or.inl ⟨?_, e, run_bind_error (run_lift_error rfl s)⟩
        rintro ⟨profile, -, path', -, found, isLoaded⟩
        rw [named] at found
        cases found
        rw [loaded] at isLoaded
        cases isLoaded
      | ok profile =>
        refine Or.inr ⟨profile, ⟨object.passes_iff.mp ⟨_, validated⟩, path, ?_, named, loaded⟩,
          run_bind_ok (run_lift_ok rfl s)⟩
        obtain ⟨value, found, text, nonempty, same⟩ := judged_stringProperty.passes_iff.mp ⟨_, read⟩
        rw [named] at found
        cases found
        cases same
        exact nonempty

/-- An error after something was entered, or nothing. -/
theorem fate_error {env : LoadEnv} {p : Address} {referred : Prop} {s s' : ToolchainProfile}
    (e : LoadError) (adds : AddsTo p referred s s') (owned : s.Owned) (fresh : p ∉ s.live)
    (notGood : ¬ GoodTool env tool) (late : Dangles env tool ↔ referred) :
    Fate Owned (GoodTool env) (Dangles env) tool (.error e s') := by
  by_cases entered : referred
  · refine .breaks e s' notGood (late.mpr entered) ?_
    rw [adds.owned_iff owned fresh]
    exact not_not_intro entered
  · refine .fails e s' notGood (mt late.mp entered) ?_
    exact (adds.owned_iff owned fresh).mpr entered

/-- **One iteration of the loop over the tools**, from a state in which every reference is to an
owned tool profile. -/
theorem fate_loadTool (env : LoadEnv) (tool : Json) (s : ToolchainProfile) (owned : s.Owned) :
    Fate Owned (GoodTool env) (Dangles env) tool ((loadTool env tool).run s) := by
  rcases run_loadTool env tool s with ⟨missing, e, failed⟩ | ⟨profile, loads, ran⟩
  · rw [failed]
    exact .fails e s (fun good => missing good.1) (fun ⟨profile, loads, _⟩ => missing ⟨profile, loads⟩)
      owned
  · have fresh := env.allocate_fresh s.live
    have dangles : Dangles env tool ↔
        (¬ optional "aliases".toList NameArray tool ∧ AliasEntered profile tool ∨
          optional "aliases".toList NameArray tool ∧ ¬ optional "origin".toList NameArray tool ∧
            (AliasEntered profile tool ∨ OriginsEntered tool)) :=
      ⟨fun ⟨profile', loads', late⟩ => loads'.unique loads ▸ late,
        fun late => ⟨profile, loads, late⟩⟩
    obtain ⟨s', binaries, ends⟩ := @ends_addBinaries tool profile
      (env.allocate s.live) s
    rw [ran]
    rcases ends with ⟨aliases, passed⟩ | ⟨badAliases, e, failed⟩
    · rw [run_bind_ok passed]
      obtain ⟨s'', origins, ends⟩ := @ends_addOrigins tool (env.allocate s.live) s'
      have both := binaries.trans origins
      rcases ends with ⟨goodOrigins, passed⟩ | ⟨badOrigins, e, failed⟩
      · rw [run_bind_ok passed, run_update]
        refine .passes _ ⟨⟨profile, loads⟩, aliases, goodOrigins⟩ ?_ (both.owned_own owned profile)
        rw [dangles]
        rintro (⟨bad, -⟩ | ⟨-, bad, -⟩)
        · exact bad aliases
        · exact bad goodOrigins
      · rw [run_bind_error failed]
        have notGood : ¬ GoodTool env tool := fun good => badOrigins good.2.2
        have late : Dangles env tool ↔ AliasEntered profile tool ∨ OriginsEntered tool := by
          rw [dangles, or_iff_right fun bad => bad.1 aliases, and_iff_right aliases,
            and_iff_right badOrigins]
        exact fate_error e both owned fresh notGood late
    · rw [run_bind_error failed]
      have notGood : ¬ GoodTool env tool := fun good => badAliases good.2.1
      have late : Dangles env tool ↔ AliasEntered profile tool := by
        rw [dangles, or_iff_left fun good => badAliases good.1, and_iff_right badAliases]
      exact fate_error e binaries owned fresh notGood late

end Tool

/-! ### Loading -/

/-- The first tool that is not correct is one of which a reference stays behind. -/
def LeavesReference (env : LoadEnv) (profileJson : Json) : Prop :=
  required "tools".toList (FirstElement (GoodTool env) (Dangles env)) profileJson

/-- **After a load every reference is to a tool profile that is owned exactly when no tool leaves a
reference behind.** -/
theorem load_owned_iff (env : LoadEnv) (profileJson : Json) (s : ToolchainProfile)
    (owned : s.Owned) :
    (stateOf ((ToolchainProfile.load env profileJson).run s)).Owned ↔
      ¬ LeavesReference env profileJson := by
  unfold ToolchainProfile.load LeavesReference
  cases validated : validateKey profileJson "tools".toList .array false with
  | error e =>
    rw [run_bind_error (run_lift_error rfl s)]
    refine iff_of_true owned ?_
    rintro ⟨value, found, first⟩
    obtain ⟨valid, -⟩ := validType_first.mpr first
    rw [validateKey_eq_ok.mpr ⟨found, valid⟩] at validated
    cases validated
  | ok value =>
    obtain ⟨found, valid⟩ := validateKey_eq_ok.mp validated
    rw [run_bind_ok (run_lift_ok rfl s), required_iff found,
      forEach_inv_iff (fate_loadTool env) value.range s owned, ← validType_first,
      and_iff_right valid]

/-! ### An alias that is not a string -/

theorem le_greatest {p : Address} {live : List Address} (member : p ∈ live) :
    p ≤ live.foldr max 0 := by
  induction live with
  | nil => exact absurd member List.not_mem_nil
  | cons first rest ih =>
    rcases List.mem_cons.mp member with rfl | later
    · exact Nat.le_max_left _ _
    · exact (ih later).trans (Nat.le_max_right _ _)

/-- One tool profile, in `gcc.json`, and addresses that increase. -/
def oneFileEnv : LoadEnv where
  toolFile path := if path = "gcc.json".toList then
      some (profileWith (.obj [("aliases".toList, .arr [.str "-x".toList]),
        ("type".toList, .str "other".toList)]))
    else none
  validRegex _ := true
  allocate live := live.foldr max 0 + 1
  allocate_fresh _ member := absurd (le_greatest member) (Nat.not_succ_le_self _)

/-- A tool with aliases. -/
def gccWith (aliases : List Json) : Json :=
  .obj [("tools".toList, .arr [.obj [("profile".toList, .str "gcc.json".toList),
    ("aliases".toList, .arr aliases)]])]

theorem owned_empty : ToolchainProfile.empty.Owned := by
  rintro p (⟨binary, found⟩ | ⟨origins, found⟩)
  · cases found
  · cases found

/-- A load into a new toolchain profile. -/
theorem load_owned_iff_gcc :
    (stateOf ((ToolchainProfile.load oneFileEnv (gccWith [.str "gcc".toList])).run .empty)).Owned ↔
      ¬ LeavesReference oneFileEnv (gccWith [.str "gcc".toList]) :=
  load_owned_iff oneFileEnv (gccWith [.str "gcc".toList]) .empty owned_empty

/-- The second alias is a number: `gcc` is left with a tool profile that nobody owns. -/
theorem reference_left :
    ¬ ∀ (env : LoadEnv) (profileJson : Json),
      (stateOf ((ToolchainProfile.load env profileJson).run .empty)).Owned := by
  intro all
  have found : (stateOf ((ToolchainProfile.load oneFileEnv
      (gccWith [.str "gcc".toList, .num "1".toList])).run .empty)).binaries.find "gcc".toList =
        some 1 := rfl
  have owned := all oneFileEnv (gccWith [.str "gcc".toList, .num "1".toList]) 1 (Or.inl ⟨_, found⟩)
  exact absurd owned List.not_mem_nil

end Xcalbuild.Profile
