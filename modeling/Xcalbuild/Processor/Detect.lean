/-
**`BuildProcessor::detect_toolchain_profile`.**

Every tool profile may list the toolchain profiles that it comes from. The origins of the tool
profiles of all work items are counted, and the first origin with as many counts as there are work
items is taken, or else the first one with the most.

* `detect_eq`: the counts are those of the origins in the lists (`hits`), repetitions included;
* `detected_leads`: the origin that is taken leads by these counts, of which a full match is worth more
  than any other (`LeadsCounts`);
* `covers`: the number of work items whose tool profile lists an origin; the one that leads by it is
  the one to take (`Right`);
* `detects_iff_fair`: it is taken exactly when the repetitions do not change who leads (`Fair`);
* **`detects_of_nodup`**: so it is taken where no list names an origin twice, which is where the two
  ways to count agree (`hits_eq_covers_iff`).
-/
import Mathlib.Order.WithBot
import Xcalbuild.Library.Leader
import Xcalbuild.Profile.Loaded
import Xcalbuild.Profile.Lookup

namespace Xcalbuild.Processor

open Library
open Profile (Address LoadEnv Loaded SpecItem ToolchainProfile)

/-! ### The counts -/

/-- One more count of an origin. -/
def countOrigin (originCounts : OrderedMap Str Nat) (origin : Str) : OrderedMap Str Nat :=
  match originCounts.find origin with
  | some counted => originCounts.set origin (counted + 1)
  | none => originCounts.set origin 1

/-- The loop body of `detect_toolchain_profile`: a tool profile is not there for every work item. -/
def countItem (toolchain : ToolchainProfile) (state : OrderedMap Str Nat × Nat) (workItem : Json) :
    Except Json.Fault (OrderedMap Str Nat × Nat) := do
  let profile ← toolchain.getMutableToolProfileAndBinaryPath workItem
  let originCounts :=
    match profile.bind fun found => toolchain.getProfileOrigins found.1 with
    | some origins => origins.foldl countOrigin state.1
    | none => state.1
  return (originCounts, state.2 + 1)

/-- The loop over the counts: a full match is returned at once. -/
def pickOrigin (count : Nat) : List (Str × Nat) → Str → Nat → Str
  | [], res, _ => res
  | (origin, counted) :: rest, res, highest =>
      if counted = count then origin
      else if highest < counted then pickOrigin count rest origin counted
      else pickOrigin count rest res highest

/-- `BuildProcessor::detect_toolchain_profile` -/
def detectToolchainProfile (toolchain : ToolchainProfile) (cdb : List Json) :
    Except Json.Fault Str := do
  let (originCounts, count) ← cdb.foldlM (countItem toolchain) (.empty, 0)
  return pickOrigin count originCounts.entries [] 0

/-! ### What is counted -/

/-- The origins of the tool profile of a work item. -/
def originsOf (toolchain : ToolchainProfile) (item : SpecItem) : List Str :=
  (((item.recognise toolchain).bind fun found => toolchain.getProfileOrigins found.1)).getD []

/-- How often an origin is listed for the work items. -/
def hits (toolchain : ToolchainProfile) (items : List SpecItem) (origin : Str) : Nat :=
  (items.flatMap (originsOf toolchain)).count origin

/-- **The number of work items whose tool profile lists an origin.** -/
def covers (toolchain : ToolchainProfile) (items : List SpecItem) (origin : Str) : Nat :=
  items.countP fun item => decide (origin ∈ originsOf toolchain item)

/-- The map has the counts. -/
def Tally (originCounts : OrderedMap Str Nat) (counted : Str → Nat) : Prop :=
  ∀ origin, originCounts.find origin = if counted origin = 0 then none else some (counted origin)

section Counting

variable {originCounts : OrderedMap Str Nat} {counted : Str → Nat} {toolchain : ToolchainProfile}

theorem Tally.countOrigin (tally : Tally originCounts counted) (origin : Str) :
    Tally (countOrigin originCounts origin)
      fun other => counted other + if other = origin then 1 else 0 := by
  have one_more : Processor.countOrigin originCounts origin =
      originCounts.set origin (counted origin + 1) := by
    unfold Processor.countOrigin
    rw [tally origin]
    by_cases first : counted origin = 0
    · rw [if_pos first, first]
    · rw [if_neg first]
  intro other
  rw [one_more, OrderedMap.find_set]
  by_cases same : other = origin
  · simp [same]
  · simp [same, tally other]

theorem Tally.countOrigins (tally : Tally originCounts counted) (origins : List Str) :
    Tally (origins.foldl Processor.countOrigin originCounts)
      fun other => counted other + origins.count other := by
  induction origins generalizing originCounts counted with
  | nil => exact tally
  | cons origin rest ih =>
    rw [List.foldl_cons]
    have later := ih (tally.countOrigin origin)
    intro other
    have sum : counted other + (if other = origin then 1 else 0) + rest.count other =
        counted other + (origin :: rest).count other := by
      rw [List.count_cons]
      by_cases same : other = origin
      · simp [same, Nat.add_comm, Nat.add_left_comm]
      · simp [same, Ne.symm same]
    simpa only [sum] using later other

/-- **The loop over the work items** counts every origin of every list. -/
theorem count_items (tally : Tally originCounts counted) (count : Nat) (items : List SpecItem) :
    ∃ after, (items.map SpecItem.json).foldlM (countItem toolchain) (originCounts, count) =
        .ok (after, count + items.length) ∧
      Tally after fun origin => counted origin + hits toolchain items origin := by
  induction items generalizing originCounts counted count with
  | nil => exact ⟨originCounts, rfl, tally⟩
  | cons item rest ih =>
    have step : countItem toolchain (originCounts, count) item.json =
        .ok ((originsOf toolchain item).foldl countOrigin originCounts, count + 1) := by
      unfold countItem originsOf
      rw [item.lookup_eq, ok_bind]
      cases (item.recognise toolchain).bind fun found => toolchain.getProfileOrigins found.1 with
      | none => rfl
      | some origins => rfl
    obtain ⟨after, ran, tallied⟩ := ih (tally.countOrigins (originsOf toolchain item)) (count + 1)
    refine ⟨after, ?_, fun origin => ?_⟩
    · rw [List.map_cons, List.foldlM_cons, step, ok_bind, ran, List.length_cons, Nat.add_assoc,
        Nat.add_comm 1]
    · have sum : counted origin + (originsOf toolchain item).count origin +
          hits toolchain rest origin = counted origin + hits toolchain (item :: rest) origin := by
        unfold hits
        rw [List.flatMap_cons, List.count_append, Nat.add_assoc]
      simpa only [sum] using tallied origin

/-- **The detected profile** is picked by the number of times that the origins are listed. -/
theorem detect_eq (toolchain : ToolchainProfile) (items : List SpecItem) :
    ∃ originCounts, Tally originCounts (hits toolchain items) ∧
      detectToolchainProfile toolchain (items.map SpecItem.json) =
        .ok (pickOrigin items.length originCounts.entries [] 0) := by
  have start : Tally .empty fun _ => 0 := fun _ => rfl
  obtain ⟨originCounts, ran, tally⟩ := @count_items _ _ toolchain start 0 items
  refine ⟨originCounts, ?_, ?_⟩
  · simpa using tally
  · unfold detectToolchainProfile
    rw [ran, Nat.zero_add]
    rfl

end Counting

/-! ### The origin that is taken -/

/-- A full match is worth more than any other count. -/
def worth (total counted : Nat) : WithTop Nat :=
  if counted = total then ⊤ else WithTop.some counted

theorem worth_pos {total counted : Nat} (pos : 0 < counted) :
    WithTop.some 0 < worth total counted := by
  unfold worth
  split_ifs
  · exact WithTop.coe_lt_top 0
  · exact WithTop.coe_lt_coe.mpr pos

/-- The first of the entries that are worth the most. -/
def Tops (total : Nat) (entries : List (Str × Nat)) (top : Str × Nat) : Prop :=
  top ∈ entries ∧ ∀ entry ∈ entries,
    worth total entry.2 < worth total top.2 ∨ worth total entry.2 = worth total top.2 ∧ top.1 ≤ entry.1

section Picked

variable {total : Nat} {entry top : Str × Nat} {rest : List (Str × Nat)}

theorem tops_head (sorted : (entry :: rest).Pairwise fun first second => first.1 < second.1)
    (low : ∀ other ∈ rest, worth total other.2 ≤ worth total entry.2) :
    Tops total (entry :: rest) entry := by
  refine ⟨List.mem_cons_self, fun other member => ?_⟩
  rcases List.mem_cons.mp member with rfl | member
  · exact Or.inr ⟨rfl, le_refl _⟩
  · have later : entry.1 < other.1 := (List.pairwise_cons.mp sorted).1 other member
    exact (lt_or_eq_of_le (low other member)).imp_right fun tie => ⟨tie, le_of_lt later⟩

theorem tops_tail (tops : Tops total rest top) (low : worth total entry.2 < worth total top.2) :
    Tops total (entry :: rest) top := by
  refine ⟨List.mem_cons_of_mem entry tops.1, fun other member => ?_⟩
  rcases List.mem_cons.mp member with rfl | member
  · exact Or.inl low
  · exact tops.2 other member

/-- **The loop over the counts** takes the first of the entries that are worth the most, if one is
worth more than those before it. -/
theorem pickOrigin_tops {entries : List (Str × Nat)}
    (sorted : entries.Pairwise fun first second => first.1 < second.1) (res : Str) (highest : Nat) :
    (pickOrigin total entries res highest = res ∧
        ∀ entry ∈ entries, worth total entry.2 ≤ WithTop.some highest) ∨
      ∃ counted, Tops total entries (pickOrigin total entries res highest, counted) ∧
        WithTop.some highest < worth total counted := by
  induction entries generalizing res highest with
  | nil => exact Or.inl ⟨rfl, fun entry member => nomatch member⟩
  | cons entry rest ih =>
    obtain ⟨origin, counted⟩ := entry
    have later := (List.pairwise_cons.mp sorted).2
    unfold pickOrigin
    by_cases full : counted = total
    · rw [if_pos full]
      have most : worth total counted = ⊤ := if_pos full
      refine Or.inr ⟨counted, tops_head sorted fun other member => ?_, ?_⟩
      · rw [most]
        exact le_top
      · rw [most]
        exact WithTop.coe_lt_top highest
    · rw [if_neg full]
      have same : worth total counted = WithTop.some counted := if_neg full
      by_cases higher : highest < counted
      · rw [if_pos higher]
        have more : WithTop.some highest < worth total counted := by
          rw [same]
          exact WithTop.coe_lt_coe.mpr higher
        rcases ih later origin counted with ⟨kept, low⟩ | ⟨best, tops, above⟩
        · rw [kept]
          refine Or.inr ⟨counted, tops_head sorted fun other member => ?_, more⟩
          rw [same]
          exact low other member
        · rw [← same] at above
          exact Or.inr ⟨best, tops_tail tops above, lt_trans more above⟩
      · rw [if_neg higher]
        have low : worth total counted ≤ WithTop.some highest := by
          rw [same]
          exact WithTop.coe_le_coe.mpr (not_lt.mp higher)
        rcases ih later res highest with ⟨kept, all⟩ | ⟨best, tops, above⟩
        · exact Or.inl ⟨kept, List.forall_mem_cons.mpr ⟨low, all⟩⟩
        · exact Or.inr ⟨best, tops_tail tops (lt_of_le_of_lt low above), above⟩

end Picked

/-- The tool profile of some work item lists the origin. -/
def Listed (toolchain : ToolchainProfile) (items : List SpecItem) (origin : Str) : Prop :=
  ∃ item ∈ items, origin ∈ originsOf toolchain item

/-- The origin leads by the number of times that it is listed, where a full match is worth the most. -/
def LeadsCounts (toolchain : ToolchainProfile) (items : List SpecItem) : Str → Prop :=
  Leads (Listed toolchain items) fun origin => worth items.length (hits toolchain items origin)

section Detected

variable {toolchain : ToolchainProfile} {items : List SpecItem}

theorem hits_pos {origin : Str} : 0 < hits toolchain items origin ↔ Listed toolchain items origin := by
  unfold hits Listed
  rw [List.count_pos_iff, List.mem_flatMap]

/-- **What is detected** is the empty name if nothing is listed, or else the listed origin that leads by
the number of times that it is listed. -/
theorem detected_leads (toolchain : ToolchainProfile) (items : List SpecItem) :
    ∃ res, detectToolchainProfile toolchain (items.map SpecItem.json) = .ok res ∧
      ((res = [] ∧ ∀ origin, ¬ Listed toolchain items origin) ∨ LeadsCounts toolchain items res) := by
  obtain ⟨originCounts, tally, detected⟩ := detect_eq toolchain items
  have counts : ∀ origin counted, (origin, counted) ∈ originCounts.entries ↔
      Listed toolchain items origin ∧ hits toolchain items origin = counted := by
    intro origin counted
    rw [OrderedMap.mem_entries, tally origin, ← hits_pos]
    split_ifs with absent
    · simp [absent]
    · simp [Nat.pos_of_ne_zero absent]
  refine ⟨_, detected, ?_⟩
  rcases @pickOrigin_tops items.length _ originCounts.sorted [] 0 with
    ⟨kept, low⟩ | ⟨counted, ⟨member, best⟩, -⟩
  · refine Or.inl ⟨kept, fun origin listed => ?_⟩
    have entry := (counts origin _).mpr ⟨listed, rfl⟩
    exact absurd (worth_pos (hits_pos.mpr listed)) (not_lt.mpr (low _ entry))
  · obtain ⟨listed, same⟩ := (counts _ counted).mp member
    refine Or.inr ⟨listed, fun origin other => ?_⟩
    show worth _ _ < worth _ (hits toolchain items _) ∨ worth _ _ = worth _ (hits toolchain items _) ∧ _
    rw [same]
    exact best _ ((counts origin _).mpr ⟨other, rfl⟩)

/-! ### The origin to take -/

theorem listed_eq : Listed toolchain items = (· ∈ items.flatMap (originsOf toolchain)) :=
  funext fun _ => propext List.mem_flatMap.symm

theorem covers_le (origin : Str) : covers toolchain items origin ≤ items.length :=
  List.countP_le_length

/-- **The origin that should be taken**: it comes first of those that are listed for the most work
items. -/
structure Right (toolchain : ToolchainProfile) (items : List SpecItem) (res : Str) : Prop where
  leads : (∃ origin, Listed toolchain items origin) →
    Leads (Listed toolchain items) (covers toolchain items) res
  empty : res = [] ↔ ∀ item ∈ items, originsOf toolchain item = []
  full : ∀ origin, Listed toolchain items origin → covers toolchain items origin = items.length →
    covers toolchain items res = items.length

/-- The right origin is detected, in whatever order the work items come. -/
structure Detects (toolchain : ToolchainProfile) (items : List SpecItem) : Prop where
  right : ∃ res, detectToolchainProfile toolchain (items.map SpecItem.json) = .ok res ∧
    Right toolchain items res
  order : ∀ reordered, items.Perm reordered →
    detectToolchainProfile toolchain (reordered.map SpecItem.json) =
      detectToolchainProfile toolchain (items.map SpecItem.json)

/-- **The repetitions in the lists of origins do not change who leads.** -/
def Fair (toolchain : ToolchainProfile) (items : List SpecItem) : Prop :=
  ∀ leader, Leads (Listed toolchain items) (covers toolchain items) leader →
    LeadsCounts toolchain items leader

/-- **The order of the work items makes no difference.** -/
theorem detect_perm {reordered : List SpecItem} (perm : items.Perm reordered) :
    detectToolchainProfile toolchain (reordered.map SpecItem.json) =
      detectToolchainProfile toolchain (items.map SpecItem.json) := by
  have listed : Listed toolchain reordered = Listed toolchain items := by
    rw [listed_eq, listed_eq]
    exact funext fun origin => propext (perm.flatMap_right _).mem_iff.symm
  have counts : hits toolchain reordered = hits toolchain items :=
    funext fun origin => ((perm.flatMap_right _).count_eq origin).symm
  obtain ⟨first, detected, picked⟩ := detected_leads toolchain items
  obtain ⟨second, detected', picked'⟩ := detected_leads toolchain reordered
  have leads : LeadsCounts toolchain reordered = LeadsCounts toolchain items := by
    unfold LeadsCounts
    rw [listed, counts, perm.length_eq]
  rw [listed, leads] at picked'
  rw [detected, detected']
  rcases picked with ⟨rfl, unlisted⟩ | one
  · rcases picked' with ⟨rfl, -⟩ | another
    · rfl
    · exact absurd another.1 (unlisted second)
  · rcases picked' with ⟨-, unlisted⟩ | another
    · exact absurd one.1 (unlisted first)
    · rw [another.unique one]

/-- A loaded toolchain profile has no origin without a name. -/
theorem listed_ne_nil {env : LoadEnv} (loaded : Loaded env toolchain) {origin : Str}
    (listed : Listed toolchain items origin) : origin ≠ [] := by
  obtain ⟨item, -, member⟩ := listed
  rintro rfl
  unfold originsOf at member
  cases found : (item.recognise toolchain).bind fun found => toolchain.getProfileOrigins found.1 with
  | none =>
    rw [found] at member
    exact List.not_mem_nil member
  | some origins =>
    rw [found] at member
    obtain ⟨known, -, lists⟩ := Option.bind_eq_some_iff.mp found
    exact (loaded.origins known.1 origins lists).2 member

/-- **Two lists of work items** give the same name exactly when the same origin leads the counts. -/
theorem detect_eq_iff {env : LoadEnv} (loaded : Loaded env toolchain) (others : List SpecItem) :
    detectToolchainProfile toolchain (items.map SpecItem.json) =
        detectToolchainProfile toolchain (others.map SpecItem.json) ↔
      ∀ leader, LeadsCounts toolchain items leader ↔ LeadsCounts toolchain others leader := by
  obtain ⟨first, detected, picked⟩ := detected_leads toolchain items
  obtain ⟨second, detected', picked'⟩ := detected_leads toolchain others
  rw [detected, detected', Except.ok.injEq]
  rcases picked with ⟨absent, unlisted⟩ | one
  · rcases picked' with ⟨absent', unlisted'⟩ | another
    · refine iff_of_true (absent.trans absent'.symm) fun leader => ?_
      exact iff_of_false (fun leads => unlisted leader leads.1) fun leads => unlisted' leader leads.1
    · refine iff_of_false (fun same => ?_) fun all => unlisted second ((all second).mpr another).1
      exact listed_ne_nil loaded another.1 (same.symm.trans absent)
  · rcases picked' with ⟨absent', unlisted'⟩ | another
    · refine iff_of_false (fun same => ?_) fun all => unlisted' first ((all first).mp one).1
      exact listed_ne_nil loaded one.1 (same.trans absent')
    · constructor
      · rintro rfl leader
        exact ⟨fun leads => leads.unique one ▸ another, fun leads => leads.unique another ▸ one⟩
      · exact fun all => ((all first).mp one).unique another

/-- The origin that leads is the one to take. -/
theorem right_of_leads {env : LoadEnv} (loaded : Loaded env toolchain) {res : Str}
    (leads : Leads (Listed toolchain items) (covers toolchain items) res) :
    Right toolchain items res := by
  refine ⟨fun _ => leads, ?_, fun origin listed all => ?_⟩
  · refine iff_of_false (listed_ne_nil loaded leads.1) fun absent => ?_
    obtain ⟨item, inside, member⟩ := leads.1
    rw [absent item inside] at member
    exact List.not_mem_nil member
  · apply le_antisymm (covers_le res)
    rw [← all]
    exact leads.le listed

/-- If no origin is listed, the empty name is to be taken. -/
theorem right_of_unlisted (unlisted : ∀ origin, ¬ Listed toolchain items origin) :
    Right toolchain items [] := by
  refine ⟨fun ⟨origin, listed⟩ => absurd listed (unlisted origin), ?_, fun origin listed =>
    absurd listed (unlisted origin)⟩
  refine iff_of_true rfl fun item inside => List.eq_nil_iff_forall_not_mem.mpr fun origin member => ?_
  exact unlisted origin ⟨item, inside, member⟩

/-- **The right origin is detected exactly when the repetitions do not change who leads.** -/
theorem detects_iff_fair {env : LoadEnv} {profileJson : Json} {toolchain : ToolchainProfile}
    (ran : (ToolchainProfile.load env profileJson).run .empty = .ok () toolchain)
    (items : List SpecItem) : Detects toolchain items ↔ Fair toolchain items := by
  have loaded := Profile.loaded_of_load ran
  obtain ⟨res, detected, picked⟩ := detected_leads toolchain items
  constructor
  · rintro ⟨⟨named, detected', right⟩, -⟩ leader leads
    have same : res = named := Except.ok.inj (detected.symm.trans detected')
    rw [leads.unique (right.leads ⟨leader, leads.1⟩), ← same]
    rcases picked with ⟨-, unlisted⟩ | most
    · exact absurd leads.1 (unlisted leader)
    · exact most
  · intro fair
    refine ⟨⟨res, detected, ?_⟩, fun reordered perm => detect_perm perm⟩
    rcases picked with ⟨rfl, unlisted⟩ | most
    · exact right_of_unlisted unlisted
    · have nonempty : items.flatMap (originsOf toolchain) ≠ [] := by
        have listed := most.1
        rw [listed_eq] at listed
        exact List.ne_nil_of_mem listed
      obtain ⟨leader, leads⟩ := @exists_leads _ _ _ _ (covers toolchain items) _ nonempty
      rw [← listed_eq] at leads
      rw [most.unique (fair leader leads)]
      exact right_of_leads loaded leads

/-- A list counts an origin at least once where it names it. -/
theorem covers_le_hits (toolchain : ToolchainProfile) (items : List SpecItem) (origin : Str) :
    covers toolchain items origin ≤ hits toolchain items origin := by
  unfold hits covers
  induction items with
  | nil => exact Nat.le_refl 0
  | cons item rest ih =>
    rw [List.flatMap_cons, List.count_append, List.countP_cons, Nat.add_comm]
    refine Nat.add_le_add ?_ ih
    split_ifs with named
    · exact List.count_pos_iff.mpr (of_decide_eq_true named)
    · exact Nat.zero_le _

/-- **The two ways to count agree exactly where no list has a name twice.** -/
theorem hits_eq_covers_iff :
    hits toolchain items = covers toolchain items ↔
      ∀ item ∈ items, (originsOf toolchain item).Nodup := by
  induction items with
  | nil => exact iff_of_true rfl fun item member => nomatch member
  | cons item rest ih =>
    have split : ∀ origin, hits toolchain (item :: rest) origin =
        (originsOf toolchain item).count origin + hits toolchain rest origin := by
      intro origin
      unfold hits
      rw [List.flatMap_cons, List.count_append]
    have split' : ∀ origin, covers toolchain (item :: rest) origin =
        (if origin ∈ originsOf toolchain item then 1 else 0) + covers toolchain rest origin := by
      intro origin
      unfold covers
      rw [List.countP_cons, Nat.add_comm]
      simp only [decide_eq_true_eq]
    rw [List.forall_mem_cons, ← ih, List.nodup_iff_count_le_one]
    constructor
    · intro same
      have each : ∀ origin, (originsOf toolchain item).count origin ≤ 1 ∧
          hits toolchain rest origin = covers toolchain rest origin := by
        intro origin
        have total := congrFun same origin
        rw [split, split'] at total
        have less := covers_le_hits toolchain rest origin
        by_cases named : origin ∈ originsOf toolchain item
        · have counted := List.count_pos_iff.mpr named
          rw [if_pos named] at total
          omega
        · rw [if_neg named, List.count_eq_zero_of_not_mem named] at total
          rw [List.count_eq_zero_of_not_mem named]
          omega
      exact ⟨fun origin => (each origin).1, funext fun origin => (each origin).2⟩
    · rintro ⟨once, later⟩
      funext origin
      rw [split, split', later]
      have atMost := once origin
      by_cases named : origin ∈ originsOf toolchain item
      · have counted := List.count_pos_iff.mpr named
        rw [if_pos named]
        omega
      · rw [if_neg named, List.count_eq_zero_of_not_mem named]

/-- Without repetitions, who leads by the counts is who leads by the work items. -/
theorem leadsCounts_iff (once : ∀ item ∈ items, (originsOf toolchain item).Nodup) (leader : Str) :
    LeadsCounts toolchain items leader ↔
      Leads (Listed toolchain items) (covers toolchain items) leader := by
  have rises : ∀ leader, Leads (Listed toolchain items) (covers toolchain items) leader →
      LeadsCounts toolchain items leader := by
    intro leader leads
    unfold LeadsCounts
    rw [hits_eq_covers_iff.mpr once]
    refine leads.rescale fun origin listed => ⟨fun less => ?_, fun tie => by rw [tie]⟩
    have part : covers toolchain items origin ≠ items.length :=
      ne_of_lt (lt_of_lt_of_le less (covers_le leader))
    unfold worth
    rw [if_neg part]
    split_ifs
    · exact WithTop.coe_lt_top _
    · exact WithTop.coe_lt_coe.mpr less
  refine ⟨fun counts => ?_, rises leader⟩
  have listed : items.flatMap (originsOf toolchain) ≠ [] := by
    have here := counts.1
    rw [listed_eq] at here
    exact List.ne_nil_of_mem here
  obtain ⟨best, leads⟩ := @exists_leads _ _ _ _ (covers toolchain items) _ listed
  rw [← listed_eq] at leads
  rwa [counts.unique (rises best leads)]

/-- **The right origin is detected where no list names an origin twice.** -/
theorem detects_of_nodup {env : LoadEnv} {profileJson : Json} {toolchain : ToolchainProfile}
    (ran : (ToolchainProfile.load env profileJson).run .empty = .ok () toolchain)
    (items : List SpecItem) (once : ∀ item ∈ items, (originsOf toolchain item).Nodup) :
    Detects toolchain items :=
  (detects_iff_fair ran items).mpr fun leader leads => (leadsCounts_iff once leader).mpr leads

end Detected

/-! ### A list that repeats a name -/

/-- A tool with an alias and origins. -/
def toolWith (alias_ : Str) (origins : List Str) : Json :=
  .obj [("aliases".toList, .arr [.str alias_]), ("origin".toList, .arr (origins.map .str)),
    ("profile".toList, .str "gcc.json".toList)]

/-- A toolchain profile with `gcc`, which lists its origins, and `cl`, which comes from `a`. -/
def twoTools (origins : List Str) : Json :=
  .obj [("tools".toList, .arr [toolWith "gcc".toList origins, toolWith "cl".toList ["a".toList]])]

/-- An entry with a binary. -/
def entryOf (binary : Str) : SpecItem where
  json := .obj [("arguments".toList, .arr [.str binary]), ("directory".toList, .str "/w".toList)]
  directory := some "/w".toList
  arguments := some [binary]
  respfile := none
  hasDirectory := rfl
  hasArguments := rfl
  hasRespfile := rfl

/-- What is loaded: `gcc` is found with its origins, `cl` with its own. -/
theorem load_twoTools : ∃ toolchain,
    (ToolchainProfile.load Profile.oneFileEnv (twoTools ["b".toList, "b".toList])).run .empty =
        .ok () toolchain ∧
      originsOf toolchain (entryOf "gcc".toList) = ["b".toList, "b".toList] ∧
      originsOf toolchain (entryOf "cl".toList) = ["a".toList] ∧
      detectToolchainProfile toolchain [(entryOf "gcc".toList).json, (entryOf "cl".toList).json] =
        .ok "b".toList :=
  ⟨_, rfl, rfl, rfl, rfl⟩

/-- `gcc` and `cl` list one origin each. -/
theorem load_twoOrigins : ∃ toolchain,
    (ToolchainProfile.load Profile.oneFileEnv (twoTools ["b".toList])).run .empty =
        .ok () toolchain ∧
      originsOf toolchain (entryOf "gcc".toList) = ["b".toList] ∧
      originsOf toolchain (entryOf "cl".toList) = ["a".toList] :=
  ⟨_, rfl, rfl, rfl⟩

/-- Two entries for `gcc` and one for `cl`. -/
theorem detects_of_nodup_two : ∃ toolchain,
    (ToolchainProfile.load Profile.oneFileEnv (twoTools ["b".toList])).run .empty =
        .ok () toolchain ∧
      Detects toolchain [entryOf "gcc".toList, entryOf "cl".toList, entryOf "gcc".toList] := by
  obtain ⟨toolchain, ran, isGcc, isCl⟩ := load_twoOrigins
  refine ⟨toolchain, ran, detects_of_nodup ran _ fun item member => ?_⟩
  simp only [List.mem_cons, List.not_mem_nil, or_false] at member
  rcases member with rfl | rfl | rfl
  · rw [isGcc]
    exact List.nodup_singleton _
  · rw [isCl]
    exact List.nodup_singleton _
  · rw [isGcc]
    exact List.nodup_singleton _

/-- There are two counts of `b` for two entries, one of which is not for `gcc`. -/
theorem repeated_origin : ¬ ∀ (env : LoadEnv) (profileJson : Json) (toolchain : ToolchainProfile),
    (ToolchainProfile.load env profileJson).run .empty = .ok () toolchain →
      ∀ items, Detects toolchain items := by
  intro all
  obtain ⟨toolchain, ran, isGcc, isCl, isDetected⟩ := load_twoTools
  obtain ⟨⟨res, detected, right⟩, -⟩ := all _ _ toolchain ran
    [entryOf "gcc".toList, entryOf "cl".toList]
  have named : res = "b".toList := Except.ok.inj (detected.symm.trans isDetected)
  have listed : Listed toolchain [entryOf "gcc".toList, entryOf "cl".toList] "a".toList := by
    refine ⟨entryOf "cl".toList, List.mem_cons_of_mem _ List.mem_cons_self, ?_⟩
    rw [isCl]
    exact List.mem_cons_self
  have once : ∀ origin, covers toolchain [entryOf "gcc".toList, entryOf "cl".toList] origin =
      [["b".toList, "b".toList], ["a".toList]].countP (origin ∈ ·) := by
    intro origin
    unfold covers
    rw [List.countP_cons, List.countP_singleton, isGcc, isCl, List.countP_cons,
      List.countP_singleton]
  rcases (right.leads ⟨_, listed⟩).2 _ listed with less | ⟨-, first⟩
  · rw [once, once, named] at less
    exact absurd less (by decide)
  · rw [named] at first
    exact absurd first (by decide)

end Xcalbuild.Processor
