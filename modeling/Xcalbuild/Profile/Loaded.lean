/-
**What is true of a loaded toolchain profile.**

`ToolchainProfile::load` returns no error: every reference is to a tool profile that is owned, the
addresses are different, the tool profiles were loaded themselves, and a list of origins has names
and nothing else (`Loaded`). `loaded_of_load` proves this for every load, tool by tool.
-/
import Mathlib.Data.List.Nodup
import Xcalbuild.Profile.Toolchain

namespace Xcalbuild.Profile

open Library Library.Shape Library.Attempt ToolchainProfile

/-- **A toolchain profile as a load leaves it.** -/
structure Loaded (env : LoadEnv) (toolchain : ToolchainProfile) : Prop where
  owned : toolchain.Owned
  distinct : toolchain.live.Nodup
  tools : ∀ p tool, (p, tool) ∈ toolchain.profiles →
    ∃ j, ToolProfile.load env.validRegex j = .ok tool
  origins : ∀ p origins, toolchain.profileOrigins.find p = some origins →
    origins ≠ [] ∧ [] ∉ origins

theorem loaded_empty (env : LoadEnv) : Loaded env .empty where
  owned := owned_empty
  distinct := List.nodup_nil
  tools _ _ member := nomatch member
  origins _ _ found := nomatch found

/-! ### The parts of a tool -/

section Tool

variable {env : LoadEnv} {p : Address} {s s' : ToolchainProfile}

/-- What every name keeps, a loop over names keeps. -/
theorem forEachName_keeps {inv : ToolchainProfile → Prop}
    {enter : Str → ToolchainProfile → ToolchainProfile} {elems : List Json}
    (enters : ∀ text t, inv t → inv (enter text t)) (holds : inv s)
    (ran : (forEachName enter elems).run s = .ok () s') : inv s' := by
  unfold forEachName at ran
  refine forEach_keeps (fun elem before after kept ran => ?_) holds ran
  obtain ⟨text, middle, validated, entered⟩ := run_bind_eq_ok ran
  obtain ⟨-, rfl⟩ := run_lift_eq_ok validated
  cases entered
  exact enters text middle kept

/-- Nothing but the map of the binaries is different. -/
structure OnlyBinaries (before after : ToolchainProfile) : Prop where
  profiles : after.profiles = before.profiles
  origins : after.profileOrigins = before.profileOrigins

/-- The aliases of a tool only go to the map of the binaries. -/
theorem addBinaries_keeps {profile : ToolProfile} {tool : Json}
    (ran : (addBinaries p profile tool).run s = .ok () s') : OnlyBinaries s s' := by
  unfold addBinaries at ran
  by_cases given : tool.count "aliases".toList = true
  · rw [if_pos given] at ran
    obtain ⟨aliases, middle, validated, entered⟩ := run_bind_eq_ok ran
    obtain ⟨-, rfl⟩ := run_lift_eq_ok validated
    refine forEachName_keeps (fun text t kept => ?_) ⟨rfl, rfl⟩ entered
    exact ⟨kept.profiles, kept.origins⟩
  · rw [if_neg given] at ran
    refine forEach_keeps (fun binary before after kept ran => ?_) ⟨rfl, rfl⟩ ran
    cases ran
    exact ⟨kept.profiles, kept.origins⟩

/-- The list of origins at an address, and no other, has got more names. -/
structure OriginsAdded (p : Address) (number : Nat) (before after : ToolchainProfile) : Prop where
  profiles : after.profiles = before.profiles
  others : ∀ q, q ≠ p → after.profileOrigins.find q = before.profileOrigins.find q
  names : ∀ old, before.profileOrigins.find p = some old → ∃ texts : List Str,
    texts.length = number ∧ [] ∉ texts ∧ after.profileOrigins.find p = some (old ++ texts)

theorem addOrigin_names {elems : List Json}
    (ran : (forEachName (addOrigin p) elems).run s = .ok () s') :
    OriginsAdded p elems.length s s' := by
  induction elems generalizing s with
  | nil =>
    cases ran
    refine ⟨rfl, fun _ _ => rfl, fun old found => ⟨[], rfl, List.not_mem_nil, ?_⟩⟩
    rw [List.append_nil]
    exact found
  | cons elem rest ih =>
    obtain ⟨_, _, first, later⟩ := run_bind_eq_ok ran
    obtain ⟨text, middle, validated, entered⟩ := run_bind_eq_ok first
    obtain ⟨read, rfl⟩ := run_lift_eq_ok validated
    cases entered
    have added := ih later
    refine ⟨added.profiles, fun q different => ?_, fun old found => ?_⟩
    · rw [added.others q different]
      show (OrderedMap.set _ p _).find q = _
      rw [OrderedMap.find_set, if_neg different]
    · obtain ⟨texts, number, nonempty, ends⟩ := added.names (old ++ [text]) (by
        show (OrderedMap.set _ p _).find p = _
        rw [OrderedMap.find_set, if_pos rfl, found]
        rfl)
      have named : name elem := (judged_nameIn (Or.inr rfl)).passes_iff.mp ⟨text, read⟩
      refine ⟨text :: texts, congrArg Nat.succ number, ?_, ?_⟩
      · rw [List.mem_cons, not_or]
        refine ⟨fun empty => ?_, nonempty⟩
        obtain ⟨other, isName, rfl⟩ := named
        obtain ⟨_, -, got⟩ := bind_eq_ok read
        cases got
        exact isName empty.symm
      · rw [ends, List.append_assoc]
        rfl

/-- **The origins of a tool** are a list of names at its address, if it has any. -/
theorem addOrigins_keeps {tool : Json} (ran : (addOrigins p tool).run s = .ok () s') :
    s'.profiles = s.profiles ∧
      (∀ q, q ≠ p → s'.profileOrigins.find q = s.profileOrigins.find q) ∧
      (s'.profileOrigins.find p = s.profileOrigins.find p ∨
        ∃ origins, origins ≠ [] ∧ [] ∉ origins ∧ s'.profileOrigins.find p = some origins) := by
  unfold addOrigins at ran
  by_cases given : tool.count "origin".toList = true
  · rw [if_pos given] at ran
    obtain ⟨origins, _, lifted, rest⟩ := run_bind_eq_ok ran
    obtain ⟨validated, rfl⟩ := run_lift_eq_ok lifted
    obtain ⟨_, middle, cleared, entered⟩ := run_bind_eq_ok rest
    cases cleared
    have added := addOrigin_names entered
    refine ⟨added.profiles, fun q different => ?_, Or.inr ?_⟩
    · rw [added.others q different]
      show (OrderedMap.set _ p _).find q = _
      rw [OrderedMap.find_set, if_neg different]
    · obtain ⟨texts, number, nonempty, ends⟩ := added.names [] (by
        show (OrderedMap.set _ p _).find p = _
        rw [OrderedMap.find_set, if_pos rfl])
      refine ⟨texts, fun absent => ?_, nonempty, ends⟩
      have valid := (validateKey_eq_ok.mp validated).2
      cases origins with
      | arr elems =>
        cases elems with
        | nil => cases valid
        | cons first rest =>
          rw [absent] at number
          cases number
      | _ => cases valid
  · rw [if_neg given] at ran
    cases ran
    exact ⟨rfl, fun _ _ => rfl, Or.inl rfl⟩

/-- **What a tool that is loaded adds**: a tool profile at a new address, and its origins there. -/
theorem loadTool_adds {tool : Json} (ran : (loadTool env tool).run s = .ok () s') :
    ∃ profile, s'.profiles = s.profiles ++ [(env.allocate s.live, profile)] ∧
      (∃ j, ToolProfile.load env.validRegex j = .ok profile) ∧
      (∀ q, q ≠ env.allocate s.live → s'.profileOrigins.find q = s.profileOrigins.find q) ∧
      (s'.profileOrigins.find (env.allocate s.live) = s.profileOrigins.find (env.allocate s.live) ∨
        ∃ origins, origins ≠ [] ∧ [] ∉ origins ∧
          s'.profileOrigins.find (env.allocate s.live) = some origins) := by
  rcases run_loadTool env tool s with ⟨-, e, failed⟩ | ⟨profile, loads, rest⟩
  · rw [failed] at ran
    cases ran
  · rw [rest] at ran
    obtain ⟨_, middle, binaries, later⟩ := run_bind_eq_ok ran
    obtain ⟨_, last, origins, handed⟩ := run_bind_eq_ok later
    cases handed
    have first := addBinaries_keeps binaries
    obtain ⟨profiles, others, here⟩ := addOrigins_keeps origins
    rw [first.origins] at others here
    refine ⟨profile, ?_, ?_, others, here⟩
    · show last.profiles ++ [_] = _
      rw [profiles, first.profiles]
    · obtain ⟨-, path, -, -, loads⟩ := loads
      unfold LoadEnv.loadFile at loads
      cases file : env.toolFile path with
      | none =>
        rw [file] at loads
        cases loads
      | some j =>
        rw [file] at loads
        exact ⟨j, loads⟩

/-- **A tool that is loaded** leaves a loaded toolchain profile. -/
theorem loadTool_keeps {tool : Json} (loaded : Loaded env s)
    (ran : (loadTool env tool).run s = .ok () s') : Loaded env s' := by
  have owned : s'.Owned := by
    have fate := fate_loadTool env tool s loaded.owned
    rw [ran] at fate
    cases fate with
    | passes _ good notBad owned => exact owned
  obtain ⟨profile, profiles, loads, others, here⟩ := loadTool_adds ran
  refine ⟨owned, ?_, fun q other member => ?_, fun q names found => ?_⟩
  · have fresh := env.allocate_fresh s.live
    show (s'.profiles.map Prod.fst).Nodup
    rw [profiles, List.map_append, List.nodup_append]
    refine ⟨loaded.distinct, List.nodup_singleton _, fun q live q' new same => ?_⟩
    have isNew : q' = env.allocate s.live := List.mem_singleton.mp new
    rw [same, isNew] at live
    exact fresh live
  · rw [profiles] at member
    rcases List.mem_append.mp member with old | new
    · exact loaded.tools q other old
    · cases List.mem_singleton.mp new
      exact loads
  · by_cases same : q = env.allocate s.live
    · rw [same] at found
      rcases here with unchanged | ⟨own, isFilled, nonempty, isOwn⟩
      · rw [unchanged] at found
        exact loaded.origins _ names found
      · rw [isOwn] at found
        cases found
        exact ⟨isFilled, nonempty⟩
    · rw [others q same] at found
      exact loaded.origins q names found

end Tool

/-- **A load that returns no error leaves a loaded toolchain profile.** -/
theorem loaded_of_load {env : LoadEnv} {profileJson : Json} {toolchain : ToolchainProfile}
    (ran : (ToolchainProfile.load env profileJson).run .empty = .ok () toolchain) :
    Loaded env toolchain := by
  unfold ToolchainProfile.load at ran
  obtain ⟨tools, _, validated, each⟩ := run_bind_eq_ok ran
  obtain ⟨-, rfl⟩ := run_lift_eq_ok validated
  exact forEach_keeps (fun tool s s' loaded => loadTool_keeps loaded) (loaded_empty env) each

end Xcalbuild.Profile
