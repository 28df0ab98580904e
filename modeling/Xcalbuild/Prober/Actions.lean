/-
**What a probing run does to the tool profiles.**

The actions that the probes return go to the front of the actionable lists, one after the other. The
set of probed tool profiles sees to it that each directive of a tool profile is probed once.

* `probeItem_cases`, `probeProfile_cases`, `probeIfAny_cases`: what one step can do;
* `outcome_own`: the actions that a probe returns are those of the profile's own directives;
* `ProbeInv`, `probeItem_keeps`: the invariant of the run;
* **`probeToolchain_probed`**: each list is the values of the returned actions, the last one first,
  before the original list; nothing else is changed, and the options are then read from these lists.
-/
import Xcalbuild.Profile.Loaded
import Xcalbuild.Profile.Uses
import Xcalbuild.Prober.Probe

namespace Xcalbuild.Prober

open Library
open Profile (Actionable Address AppliedAll LoadEnv Loaded ToolOption ToolProfile ToolchainProfile
  actionConfig actionableConfigs applyActions applyActions_own configured prepended probeActions)

/-! ### One step -/

section Steps

variable {host : ProbeHost} {p : Address} {output : ToolOption} {isCxx : Bool} {binaryPath : Path}
  {workItem : Json} {state state' : ProbeState}

/-- A call of `probe_macros` at a tool profile. -/
structure Call (p : Address) (isCxx : Bool) (actions : List Json) (state state' : ProbeState) :
    Prop where
  /-- The actions are those of the directive, and they are applied. -/
  applied : ∃ tool json, state.toolchain.profiles.lookup p = some tool ∧
    (∀ action ∈ actions, action ∈ probeActions tool.profileJson) ∧
    applyActions tool.profileJson actions = .ok json ∧
    state'.toolchain = setJson p json state.toolchain
  probed : state'.probed = state.probed
  returned : state'.returned = state.returned ++ [⟨p, isCxx, actions⟩]

/-- What is found for a line is a member of a macro of the directive. -/
theorem mem_parseMacroExpansions {macros : Json} {text : Str} {lists : List Json}
    (parsed : parseMacroExpansions macros text = .ok lists) {actions : Json}
    (member : actions ∈ lists) :
    ∃ item ∈ macros.items, ∃ val, item.2.find val = some actions := by
  obtain ⟨line, -, found, ran, inside⟩ := mem_collect parsed member
  by_cases marked : xcalPrefix.isPrefixOf line = true
  · rw [if_pos marked] at ran
    obtain ⟨rest, -, collected⟩ := bind_eq_ok ran
    obtain ⟨item, isMacro, part, step, inside⟩ := mem_collect collected inside
    unfold macroActions at step
    by_cases lead : item.1 <+: rest
    · rw [if_pos lead] at step
      obtain ⟨val, -, step⟩ := bind_eq_ok step
      cases step
      exact ⟨item, isMacro, val, Option.mem_toList.mp inside⟩
    · rw [if_neg lead] at step
      cases step
      cases inside
  · rw [if_neg marked] at ran
    cases ran
    cases inside

/-- **The actions that a probe returns are the profile's own.** -/
theorem outcome_own {profile : ToolProfile} {j macros : Json} {actions : List Json}
    (directive : j.find (macroProperty isCxx) = some macros)
    (outcome : probeOutcome host p profile output isCxx binaryPath macros = .ok actions) :
    ∀ action ∈ actions, action ∈ probeActions j := by
  intro action member
  unfold probeOutcome at outcome
  split at outcome
  · rename_i text ran
    obtain ⟨lists, parsed, outcome⟩ := bind_eq_ok outcome
    cases outcome
    obtain ⟨found, inside, member⟩ := List.mem_flatMap.mp member
    obtain ⟨item, isMacro, val, isValue⟩ :=
      mem_parseMacroExpansions (ok_of_mapError parsed) inside
    unfold probeActions
    refine List.mem_flatMap.mpr ⟨macroProperty isCxx, ?_, ?_⟩
    · unfold macroProperty
      cases isCxx <;> simp
    · rw [directive]
      exact List.mem_flatMap.mpr ⟨item, isMacro,
        List.mem_flatMap.mpr ⟨(val, found), Json.mem_items_of_find isValue, member⟩⟩
  · cases outcome
    cases member

/-- **A probe of a directive** is a call, or the profile has no such directive. -/
theorem probeIfAny_cases
    (ran : probeIfAny host p output isCxx binaryPath state = .ok state') :
    state' = state ∨ ∃ actions, Call p isCxx actions state state' := by
  unfold probeIfAny at ran
  cases found : state.toolchain.profiles.lookup p with
  | none =>
    rw [found] at ran
    cases ran
  | some tool =>
    rw [found] at ran
    dsimp only at ran
    by_cases given : tool.profileJson.count (macroProperty isCxx) = true
    · rw [if_pos given, probeMacros, found] at ran
      obtain ⟨macros, isMacros, ran⟩ := bind_eq_ok ran
      obtain ⟨actions, outcome, ran⟩ := bind_eq_ok ran
      obtain ⟨json, applied, ran⟩ := bind_eq_ok ran
      cases ran
      obtain ⟨value, directive⟩ := Option.isSome_iff_exists.mp given
      have isMacros := ok_of_mapError isMacros
      rw [Profile.atKey_of_find directive] at isMacros
      cases isMacros
      exact Or.inr ⟨actions, ⟨tool, json, found, outcome_own directive outcome,
        ok_of_mapError applied, rfl⟩, rfl, rfl⟩
    · rw [if_neg given] at ran
      cases ran
      exact Or.inl rfl

/-- **A tool profile that is met for the first time** is probed for C++, and then for C. -/
theorem probeProfile_cases (ran : probeProfile host p binaryPath workItem state = .ok state') :
    state' = state ∨ ∃ output path middle,
      probeIfAny host p output true path state = .ok middle ∧
        probeIfAny host p output false path middle = .ok state' := by
  unfold probeProfile at ran
  cases found : state.toolchain.profiles.lookup p with
  | none =>
    rw [found] at ran
    cases ran
  | some tool =>
    rw [found] at ran
    dsimp only at ran
    cases isOutput : tool.outputOption with
    | none =>
      rw [isOutput] at ran
      cases ran
      exact Or.inl rfl
    | some output =>
      rw [isOutput] at ran
      obtain ⟨directory, -, ran⟩ := bind_eq_ok ran
      obtain ⟨dir, -, ran⟩ := bind_eq_ok ran
      obtain ⟨middle, first, second⟩ := bind_eq_ok ran
      exact Or.inr ⟨output, _, middle, first, second⟩

/-- The entry of the compile database is for the tool profile. -/
def UsesTool (toolchain : ToolchainProfile) (workItem : Json) (p : Address) : Prop :=
  ∃ path, toolchain.getMutableToolProfileAndBinaryPath workItem = .ok (some (p, path))

/-- **One entry of the compile database** is skipped, or its tool profile is met for the first
time. -/
theorem probeItem_cases (ran : probeItem host state workItem = .ok state') :
    state' = state ∨ ∃ p path, UsesTool state.toolchain workItem p ∧ p ∉ state.probed ∧
      probeProfile host p path workItem { state with probed := state.probed ++ [p] } =
        .ok state' := by
  unfold probeItem at ran
  by_cases noDirectory : workItem.count "directory".toList = false
  · rw [if_pos noDirectory] at ran
    cases ran
    exact Or.inl rfl
  · rw [if_neg noDirectory] at ran
    by_cases noArguments : workItem.count "arguments".toList = false
    · rw [if_pos noArguments] at ran
      cases ran
      exact Or.inl rfl
    · rw [if_neg noArguments] at ran
      obtain ⟨arguments, -, ran⟩ := bind_eq_ok ran
      by_cases empty : arguments.size = 0
      · rw [if_pos empty] at ran
        cases ran
        exact Or.inl rfl
      · rw [if_neg empty] at ran
        obtain ⟨found, looked, ran⟩ := bind_eq_ok ran
        have looked := ok_of_mapError looked
        cases found with
        | none =>
          cases ran
          exact Or.inl rfl
        | some found =>
          obtain ⟨p, path⟩ := found
          dsimp only at ran
          by_cases before : p ∈ state.probed
          · rw [if_pos before] at ran
            cases ran
            exact Or.inl rfl
          · rw [if_neg before] at ran
            exact Or.inr ⟨p, path, ⟨path, looked⟩, before, ran⟩

/-- The binaries are found as before. -/
theorem probeItem_binaries (ran : probeItem host state workItem = .ok state') :
    state'.toolchain.binaries = state.toolchain.binaries := by
  have kept : ∀ {isCxx : Bool} {path : Path} {output : ToolOption} {p : Address}
      {before after : ProbeState}, probeIfAny host p output isCxx path before = .ok after →
        after.toolchain.binaries = before.toolchain.binaries := by
    intro isCxx path output p before after ran
    rcases probeIfAny_cases ran with rfl | ⟨actions, call⟩
    · rfl
    · obtain ⟨tool, json, -, -, -, changed⟩ := call.applied
      rw [changed]
      rfl
  rcases probeItem_cases ran with rfl | ⟨p, path, -, -, ran⟩
  · rfl
  · rcases probeProfile_cases ran with rfl | ⟨output, path, middle, first, second⟩
    · rfl
    · have keptFirst := kept first
      exact (kept second).trans keptFirst

end Steps

theorem probeToolchain_binaries {host : ProbeHost} {cdb : List Json} {toolchain : ToolchainProfile}
    {state : ProbeState} (ran : probeToolchain host cdb toolchain = .ok state) :
    state.toolchain.binaries = toolchain.binaries := by
  refine @foldlM_keeps _ _ _ _ (fun _ state => state.toolchain.binaries = toolchain.binaries)
    (fun done workItem before after same step => ?_) cdb _ _ [] rfl ran
  exact (probeItem_binaries step).trans same

/-! ### The run -/

/-- The actions that the probes of a tool profile returned, in their order. -/
def actionsOf (p : Address) (returned : List Returned) : List Json :=
  (returned.filter fun call => call.profile = p).flatMap Returned.actions

theorem actionsOf_concat (p q : Address) (returned : List Returned) (isCxx : Bool)
    (actions : List Json) :
    actionsOf q (returned ++ [⟨p, isCxx, actions⟩]) =
      actionsOf q returned ++ if p = q then actions else [] := by
  unfold actionsOf
  rw [List.filter_append, List.flatMap_append]
  by_cases same : p = q
  · simp [same]
  · simp [same]

/-- Two calls for one tool profile are the C++ probe and then the C probe. -/
def CxxFirst (first second : Returned) : Prop :=
  first.profile = second.profile → first.isCxx = true ∧ second.isCxx = false

/-- **What holds of the tool profiles and of the calls** during a run that started with `start`. -/
structure CallInv (start : ToolchainProfile) (state : ProbeState) : Prop where
  binaries : state.toolchain.binaries = start.binaries
  origins : state.toolchain.profileOrigins = start.profileOrigins
  tools : ∀ p tool, start.profiles.lookup p = some tool → ∃ json,
    applyActions tool.profileJson (actionsOf p state.returned) = .ok json ∧
      state.toolchain.profiles.lookup p = some { tool with profileJson := json }
  missing : ∀ p, start.profiles.lookup p = none → state.toolchain.profiles.lookup p = none
  own : ∀ p tool, start.profiles.lookup p = some tool →
    ∀ action ∈ actionsOf p state.returned, action ∈ probeActions tool.profileJson

/-- A change of a JSON value is seen at its own address. -/
theorem lookup_setJson (p q : Address) (j : Json) (toolchain : ToolchainProfile) :
    (setJson p j toolchain).profiles.lookup q =
      if q = p then (toolchain.profiles.lookup p).map fun tool => { tool with profileJson := j }
      else toolchain.profiles.lookup q := by
  rw [setJson]
  dsimp only
  rw [lookup_mapAt]

section OneCall

variable {p : Address} {isCxx : Bool} {actions : List Json} {state state' : ProbeState}

theorem Call.actionsOf (call : Call p isCxx actions state state') (q : Address) :
    actionsOf q state'.returned = actionsOf q state.returned ++ if p = q then actions else [] := by
  rw [call.returned, actionsOf_concat]

theorem Call.mem_returned (call : Call p isCxx actions state state') {other : Returned} :
    other ∈ state'.returned ↔ other ∈ state.returned ∨ other = ⟨p, isCxx, actions⟩ := by
  rw [call.returned, List.mem_append, List.mem_singleton]

/-- The order of the calls is kept by one that may come after the others. -/
theorem Call.order (call : Call p isCxx actions state state')
    (order : state.returned.Pairwise CxxFirst)
    (last : ∀ other ∈ state.returned, CxxFirst other ⟨p, isCxx, actions⟩) :
    state'.returned.Pairwise CxxFirst := by
  rw [call.returned, List.pairwise_append]
  refine ⟨order, List.pairwise_singleton _ _, fun other member final isFinal => ?_⟩
  rw [List.mem_singleton.mp isFinal]
  exact last other member

end OneCall

section Run

variable {start : ToolchainProfile} {host : ProbeHost} {p : Address} {isCxx : Bool}
  {actions : List Json} {state state' : ProbeState}

/-- What a call finds and leaves at its tool profile. -/
theorem CallInv.found (inv : CallInv start state) (call : Call p isCxx actions state state') :
    ∃ original before json, start.profiles.lookup p = some original ∧
      applyActions original.profileJson (actionsOf p state.returned) = .ok before ∧
      (∀ action ∈ actions, action ∈ probeActions before) ∧
      applyActions before actions = .ok json ∧
      ∀ q, state'.toolchain.profiles.lookup q =
        if q = p then some { original with profileJson := json }
        else state.toolchain.profiles.lookup q := by
  obtain ⟨tool, json, found, own, applied, isToolchain⟩ := call.applied
  cases isTool : start.profiles.lookup p with
  | none =>
    rw [inv.missing p isTool] at found
    cases found
  | some original =>
    obtain ⟨before, appliedBefore, isFound⟩ := inv.tools p original isTool
    rw [found] at isFound
    cases isFound
    refine ⟨original, before, json, rfl, appliedBefore, own, applied, fun q => ?_⟩
    rw [isToolchain, lookup_setJson, found]
    rfl

/-- **A call keeps it.** -/
theorem CallInv.call
    (actionable : ∀ p tool, start.profiles.lookup p = some tool → Actionable tool.profileJson)
    (inv : CallInv start state) (call : Call p isCxx actions state state') :
    CallInv start state' := by
  obtain ⟨original, before, json, isTool, appliedBefore, own, applied, lookups⟩ := inv.found call
  have unrelated : ∀ q, q ≠ p → actionsOf q state'.returned = actionsOf q state.returned := by
    intro q different
    rw [call.actionsOf, if_neg (Ne.symm different), List.append_nil]
  have more : actionsOf p state'.returned = actionsOf p state.returned ++ actions := by
    rw [call.actionsOf, if_pos rfl]
  have sameBinaries : state'.toolchain.binaries = state.toolchain.binaries ∧
      state'.toolchain.profileOrigins = state.toolchain.profileOrigins := by
    obtain ⟨_, _, -, -, -, isToolchain⟩ := call.applied
    rw [isToolchain]
    exact ⟨rfl, rfl⟩
  refine ⟨sameBinaries.1.trans inv.binaries, sameBinaries.2.trans inv.origins, ?_, ?_, ?_⟩
  · intro q other isOther
    by_cases same : q = p
    · subst same
      rw [isTool] at isOther
      cases isOther
      refine ⟨json, ?_, by rw [lookups, if_pos rfl]⟩
      rw [more, Profile.applyActions_append, appliedBefore]
      exact applied
    · rw [unrelated q same, lookups, if_neg same]
      exact inv.tools q other isOther
  · intro q isMissing
    have different : q ≠ p := by
      rintro rfl
      rw [isTool] at isMissing
      cases isMissing
    rw [lookups, if_neg different]
    exact inv.missing q isMissing
  · intro q other isOther action member
    by_cases same : q = p
    · subst same
      rw [isTool] at isOther
      cases isOther
      obtain ⟨reached, isReached, -, -, sameActions⟩ :=
        applyActions_own (actionable q original isTool) (inv.own q original isTool)
      rw [appliedBefore] at isReached
      cases isReached
      rw [more] at member
      rcases List.mem_append.mp member with old | new
      · exact inv.own q original isTool action old
      · rw [← sameActions]
        exact own action new
    · rw [unrelated q same] at member
      exact inv.own q other isOther action member

/-- **What holds of a run** over the entries `done`. -/
structure ProbeInv (start : ToolchainProfile) (done : List Json) (state : ProbeState) : Prop where
  calls : CallInv start state
  probed : ∀ call ∈ state.returned, call.profile ∈ state.probed
  used : ∀ p ∈ state.probed, ∃ workItem ∈ done, UsesTool start workItem p
  order : state.returned.Pairwise CxxFirst

/-- The two probes of a tool profile that is met for the first time. -/
theorem probeProfile_keeps {path : Path} {workItem : Json}
    (actionable : ∀ p tool, start.profiles.lookup p = some tool → Actionable tool.profileJson)
    (calls : CallInv start state) (notBefore : ∀ call ∈ state.returned, call.profile ≠ p)
    (order : state.returned.Pairwise CxxFirst)
    (ran : probeProfile host p path workItem state = .ok state') :
    CallInv start state' ∧ state'.probed = state.probed ∧
      (∀ call ∈ state'.returned, call ∈ state.returned ∨ call.profile = p) ∧
      state'.returned.Pairwise CxxFirst := by
  have unrelated : ∀ isCxx actions, ∀ call ∈ state.returned,
      CxxFirst call ⟨p, isCxx, actions⟩ :=
    fun isCxx actions call member same => absurd same (notBefore call member)
  rcases probeProfile_cases ran with rfl | ⟨output, path, middle, first, second⟩
  · exact ⟨calls, rfl, fun call member => Or.inl member, order⟩
  · rcases probeIfAny_cases first with rfl | ⟨cxxActions, cxx⟩
    · rcases probeIfAny_cases second with rfl | ⟨cActions, c⟩
      · exact ⟨calls, rfl, fun call member => Or.inl member, order⟩
      · refine ⟨calls.call actionable c, c.probed, fun call member => ?_,
          c.order order (unrelated _ _)⟩
        exact (c.mem_returned.mp member).imp_right fun same => by rw [same]
    · have middleOrder := cxx.order order (unrelated _ _)
      have middleCalls := calls.call actionable cxx
      have members : ∀ call ∈ middle.returned, call ∈ state.returned ∨ call.profile = p :=
        fun call member => (cxx.mem_returned.mp member).imp_right fun same => by rw [same]
      rcases probeIfAny_cases second with rfl | ⟨cActions, c⟩
      · exact ⟨middleCalls, cxx.probed, members, middleOrder⟩
      · refine ⟨middleCalls.call actionable c, c.probed.trans cxx.probed, fun call member => ?_,
          c.order middleOrder fun call member => ?_⟩
        · exact (c.mem_returned.mp member).elim (members call) fun same => Or.inr (by rw [same])
        · rcases cxx.mem_returned.mp member with old | rfl
          · exact unrelated _ _ call old
          · exact fun _ => ⟨rfl, rfl⟩

/-- **One entry of the compile database keeps the invariant.** -/
theorem probeItem_keeps {done : List Json} {workItem : Json}
    (actionable : ∀ p tool, start.profiles.lookup p = some tool → Actionable tool.profileJson)
    (inv : ProbeInv start done state) (ran : probeItem host state workItem = .ok state') :
    ProbeInv start (done ++ [workItem]) state' := by
  have earlier : ∀ p ∈ state.probed, ∃ other ∈ done ++ [workItem], UsesTool start other p := by
    intro p member
    obtain ⟨other, before, uses⟩ := inv.used p member
    exact ⟨other, List.mem_append_left _ before, uses⟩
  rcases probeItem_cases ran with rfl | ⟨p, path, uses, fresh, ran⟩
  · exact ⟨inv.calls, inv.probed, earlier, inv.order⟩
  · have notBefore : ∀ call ∈ state.returned, call.profile ≠ p := by
      intro call member same
      exact fresh (same ▸ inv.probed call member)
    have entry : CallInv start { state with probed := state.probed ++ [p] } :=
      { inv.calls with }
    obtain ⟨calls, probed, members, order⟩ :=
      probeProfile_keeps actionable entry notBefore inv.order ran
    refine ⟨calls, fun call member => ?_, fun q member => ?_, order⟩
    · rw [probed]
      rcases members call member with old | new
      · exact List.mem_append_left _ (inv.probed call old)
      · exact List.mem_append_right _ (List.mem_singleton.mpr new)
    · rw [probed] at member
      rcases List.mem_append.mp member with old | new
      · exact earlier q old
      · obtain ⟨found, looked⟩ := uses
        rw [List.mem_singleton.mp new]
        refine ⟨workItem, List.mem_append_right _ (List.mem_singleton.mpr rfl), found, ?_⟩
        rw [← looked]
        unfold ToolchainProfile.getMutableToolProfileAndBinaryPath
        rw [inv.calls.binaries]

end Run

/-! ### The whole run -/

/-- **What a run has made of a tool profile.** -/
structure ProbedTool (toolchain : ToolchainProfile) (cdb : List Json) (returned : List Returned)
    (p : Address) (tool after : ToolProfile) : Prop where
  /-- Only the JSON value may be different. -/
  frame : after = { tool with profileJson := after.profileJson }
  /-- A list that is there has the values of the returned actions, the last one first, and then what
  it had before. -/
  configs : ∀ key ∈ actionableConfigs, after.profileJson.find key =
    (tool.profileJson.find key).map fun _ => .arr ((prepended key (actionsOf p returned) ++
      configured tool.profileJson key).map .str)
  others : ∀ key, key ∉ actionableConfigs →
    after.profileJson.find key = tool.profileJson.find key
  unused : (∀ workItem ∈ cdb, ¬ UsesTool toolchain workItem p) → after = tool
  /-- The options are read from these lists. -/
  lists : ∀ complete, after.loadActionable complete = .ok (after.readLists complete)

/-- **What a run has done.** -/
structure ProbingDone (toolchain : ToolchainProfile) (cdb : List Json) (state : ProbeState) :
    Prop where
  binaries : state.toolchain.binaries = toolchain.binaries
  origins : state.toolchain.profileOrigins = toolchain.profileOrigins
  /-- Each directive of a tool profile is probed once, -/
  once : (state.returned.map fun call => (call.profile, call.isCxx)).Nodup
  /-- that of C++ before that of C. -/
  cxxFirst : state.returned.Pairwise CxxFirst
  used : ∀ call ∈ state.returned, ∃ workItem ∈ cdb, UsesTool toolchain workItem call.profile
  tools : ∀ p tool, toolchain.profiles.lookup p = some tool → ∃ after,
    state.toolchain.profiles.lookup p = some after ∧
      ProbedTool toolchain cdb state.returned p tool after

theorem actionsOf_unused {p : Address} {returned : List Returned}
    (unused : ∀ call ∈ returned, call.profile ≠ p) : actionsOf p returned = [] := by
  have absent : (returned.filter fun call => call.profile = p) = [] := by
    rw [List.filter_eq_nil_iff]
    exact fun call member same => unused call member (of_decide_eq_true same)
  rw [actionsOf, absent]
  rfl

/-- What sequences of actions do to a list that was checked. -/
theorem find_prepended {actions : List Json} {before after : Json} {key : Str}
    (appliedAll : AppliedAll actions before after) (checked : Actionable after)
    (known : key ∈ actionableConfigs) : after.find key =
      (before.find key).map fun _ => .arr ((prepended key actions ++
        configured before key).map .str) := by
  have present := appliedAll.present key
  unfold Json.count at present
  rcases Profile.find_configured (checked.configs key known) with missing | found
  · rw [missing] at present ⊢
    rw [Option.isSome_none, eq_comm, Option.isSome_eq_false_iff, Option.isNone_iff_eq_none] at present
    rw [present]
    rfl
  · rw [appliedAll.configs key] at found
    rw [found] at present ⊢
    rw [Option.isSome_some, eq_comm, Option.isSome_iff_exists] at present
    obtain ⟨value, there⟩ := present
    rw [there]
    rfl

section Whole

variable {toolchain : ToolchainProfile} {cdb : List Json} {state : ProbeState}

/-- The invariant holds before the first entry. -/
theorem probeInv_init (toolchain : ToolchainProfile) : ProbeInv toolchain [] ⟨toolchain, [], []⟩ := by
  refine ⟨⟨rfl, rfl, fun p tool found => ⟨_, rfl, found⟩, fun p missing => missing, ?_⟩, ?_, ?_,
    List.Pairwise.nil⟩
  · exact fun p tool found action member => nomatch member
  · exact fun call member => nomatch member
  · exact fun p member => nomatch member

/-- No two calls are for the same directive. -/
theorem nodup_calls {returned : List Returned} (order : returned.Pairwise CxxFirst) :
    (returned.map fun call => (call.profile, call.isCxx)).Nodup := by
  refine List.pairwise_map.mpr (order.imp fun {first second} ordered same => ?_)
  obtain ⟨isCxx, isC⟩ := ordered (congrArg Prod.fst same)
  have both : first.isCxx = second.isCxx := congrArg Prod.snd same
  rw [isCxx, isC] at both
  cases both

theorem ProbeInv.uses (inv : ProbeInv toolchain cdb state) {call : Returned}
    (member : call ∈ state.returned) : ∃ workItem ∈ cdb, UsesTool toolchain workItem call.profile :=
  inv.used _ (inv.probed call member)

/-- **What the invariant says of a tool profile** that was loaded. -/
theorem ProbeInv.probedTool (inv : ProbeInv toolchain cdb state) {p : Address} {tool : ToolProfile}
    (found : toolchain.profiles.lookup p = some tool) {validRegex : Str → Bool} {j : Json}
    (loads : ToolProfile.load validRegex j = .ok tool) : ∃ after,
      state.toolchain.profiles.lookup p = some after ∧
        ProbedTool toolchain cdb state.returned p tool after := by
  have actionable : Actionable tool.profileJson := by
    rw [(Profile.load_kept loads).1]
    exact Profile.actionable_of_load loads
  obtain ⟨json, applied, isFound⟩ := inv.calls.tools p tool found
  obtain ⟨reached, isReached, appliedAll, checked, -⟩ :=
    applyActions_own actionable (inv.calls.own p tool found)
  rw [applied] at isReached
  cases isReached
  refine ⟨_, isFound, rfl, fun key known => find_prepended appliedAll checked known, ?_, ?_, ?_⟩
  · intro key unknown
    refine appliedAll.others key fun action member same => ?_
    have own := inv.calls.own p tool found action member
    have accepted := Profile.accepted_of_own actionable own
    exact unknown (same ▸ accepted.parts.2.1)
  · intro unused
    have nothing : actionsOf p state.returned = [] := by
      refine actionsOf_unused fun call member same => ?_
      obtain ⟨workItem, inside, uses⟩ := inv.uses member
      exact unused workItem inside (same ▸ uses)
    rw [nothing] at applied
    cases applied
    rfl
  · intro complete
    have noLists : ({ tool with profileJson := json } : ToolProfile).NoLists :=
      { (Profile.load_kept loads).2.2 with }
    rw [Profile.loadActionable_eq complete checked, Profile.filled_eq_readLists complete noLists]

end Whole

/-- **After a probing run of a loaded toolchain profile**, each actionable list of each tool profile is
made of the returned actions and of what it was before. -/
theorem probeToolchain_probed {env : LoadEnv} {profileJson : Json} {toolchain : ToolchainProfile}
    (loaded : (ToolchainProfile.load env profileJson).run .empty = .ok () toolchain)
    {host : ProbeHost} {cdb : List Json} {state : ProbeState}
    (ran : probeToolchain host cdb toolchain = .ok state) : ProbingDone toolchain cdb state := by
  have isLoaded := Profile.loaded_of_load loaded
  have toolLoaded : ∀ p tool, toolchain.profiles.lookup p = some tool →
      ∃ j, ToolProfile.load env.validRegex j = .ok tool :=
    fun p tool found => isLoaded.tools p tool (mem_of_lookup found)
  have actionable : ∀ p tool, toolchain.profiles.lookup p = some tool →
      Actionable tool.profileJson := by
    intro p tool found
    obtain ⟨j, loads⟩ := toolLoaded p tool found
    rw [(Profile.load_kept loads).1]
    exact Profile.actionable_of_load loads
  have inv : ProbeInv toolchain cdb state :=
    foldlM_keeps (ProbeInv toolchain) (fun done workItem s s' inv step =>
      probeItem_keeps actionable inv step) (probeInv_init toolchain) ran
  refine ⟨inv.calls.binaries, inv.calls.origins, nodup_calls inv.order, inv.order,
    fun call member => inv.uses member, fun p tool found => ?_⟩
  obtain ⟨j, loads⟩ := toolLoaded p tool found
  exact inv.probedTool found loads

/-! ### Two entries for one tool profile -/

/-- The tool profile with a directive for the macro `M`, in `gcc.json`. -/
def probedEnv : LoadEnv :=
  { Profile.oneFileEnv with
    toolFile := fun path =>
      if path = "gcc.json".toList then some Profile.probedProfileJson else none }

/-- The toolchain profile that is loaded. -/
def probedToolchain : ToolchainProfile :=
  (ToolchainProfile.empty.setBinary 1 "gcc".toList).own 1 Profile.probedProfile

theorem load_probedToolchain :
    (ToolchainProfile.load probedEnv (Profile.gccWith [.str "gcc".toList])).run .empty =
      .ok () probedToolchain := rfl

/-- A machine on which `M` expands to `1`. -/
def expandingHost : ProbeHost where
  present _ := false
  searchBinary binary _ := "/usr/bin/".toList ++ binary
  inputTemp _ _ := "/tmp/in".toList
  outputTemp _ _ := "/tmp/out".toList
  run _ := (0, "__XCAL__M 1\n".toList)

/-- `gcc` in `/w`. -/
def gccEntry : Json :=
  .obj [("arguments".toList, .arr [.str "gcc".toList]), ("directory".toList, .str "/w".toList)]

/-- The second entry does not apply the action again. -/
theorem probed_once : ∃ state,
    probeToolchain expandingHost [gccEntry, gccEntry] probedToolchain = .ok state ∧
      ProbingDone probedToolchain [gccEntry, gccEntry] state ∧
      state.returned = [⟨1, false, [Profile.prependAction]⟩] := by
  have ran : probeToolchain expandingHost [gccEntry, gccEntry] probedToolchain =
      .ok ⟨setJson 1 (Profile.probedProfileJson.replace "cPrependPreprocessingOptions".toList
        (.arr [.str "-m".toList, .str "-x".toList])) probedToolchain, [1],
        [⟨1, false, [Profile.prependAction]⟩]⟩ := rfl
  exact ⟨_, ran, probeToolchain_probed load_probedToolchain ran, rfl⟩

end Xcalbuild.Prober
