/-
**The extra link info for compile results that no link result reaches.**

With `need_process_link_using_compiler` a compile result whose target is no link source goes to an
extra link info named `test_ld`. The extra link info takes part in the numbering of the names, and
its key in `link_targets` is the number it got; the compile loop looks it up as `test_ld`.

* `extraName_eq_testLd_iff`: the name is the key that is looked up exactly when no link target has
  it as its file name;
* `fallbackArchived_iff`: every compile result is archived once below the directory of each of its
  link results, and once below the directory of the extra link info if it has none, exactly when the
  file names do not meet (`LinkedApart`) and the extra link info is found (`FallbackFound`).
-/
import Xcalbuild.Build.Visits

namespace Xcalbuild.Build

open Library

/-- The place of the extra link info. -/
def extraPlace (results : Results) : Nat := results.ldResults.length

/-- The name that the extra link info gets, which is its key. -/
def extraName (config : OutputConfig) (results : Results) : Str :=
  numbered (targetNames config results) (extraPlace results)

/-- **Every compile result is archived once for each of its link results, and once for the extra link
info when it has none.** -/
structure FallbackArchived (config : OutputConfig) (env : OutputEnv) (results : Results) : Prop where
  linked : ∀ k cc, results.ccResults[k]? = some cc → ∀ i, Links results cc.target i →
    (archivedBy config env results k).countP (entryUnder (dirAt config results i)) = 1
  unlinked : ∀ k cc, results.ccResults[k]? = some cc → (∀ i, ¬ Links results cc.target i) →
    (archivedBy config env results k).countP
      (entryUnder (dirAt config results (extraPlace results))) = 1

/-- The key of the extra link info: `test_ld`, with the number of the link targets of this file name if
there are any. -/
def fallbackName (results : Results) : Str :=
  occurrence testLd ((filenames results.ldResults).count testLd)

/-- No link result of a compile result has a file name that meets the one of another link result of it,
or of the extra link info if the target is its key. -/
def LinkedApart (config : OutputConfig) (results : Results) : Prop :=
  ∀ cc ∈ results.ccResults, ∀ i j, Links results cc.target i →
    Links results cc.target j ∨ (j = extraPlace results ∧ cc.target = fallbackName results) →
      ¬ Meets (targetNames config results) i j ∧ ¬ Meets (targetNames config results) j i

/-- The link result is the first one whose target has the file name. -/
def FirstNamed (results : Results) (name : Str) (j : Nat) : Prop :=
  (filenames results.ldResults)[j]? = some name ∧ name ∉ (filenames results.ldResults).take j

/-- The extra link info is found for a compile result without a link result: the target is its key,
no link target has the file name `test_ld`, or the first link target whose file name is the key links a
file that is called `test_ld`. -/
def FallbackFound (results : Results) : Prop :=
  ∀ cc ∈ results.ccResults, (∀ i, ¬ Links results cc.target i) →
    cc.target = fallbackName results ∨ testLd ∉ filenames results.ldResults ∨
      ∃ j, Links results testLd j ∧ FirstNamed results (fallbackName results) j

section TestLd

variable {config : OutputConfig} {env : OutputEnv} {results : Results}
  (enabled : config.needProcessLinkUsingCompiler = true)

include enabled in
theorem extraName_eq : extraName config results = fallbackName results := by
  rw [fallbackName, extraName, extraPlace, targetNames, if_pos enabled, ← length_filenames,
    numbered_append_self]

include enabled in
/-- The name is the key that is looked up exactly when no link target has it. -/
theorem extraName_eq_testLd_iff :
    extraName config results = testLd ↔ testLd ∉ filenames results.ldResults := by
  rw [extraName_eq enabled, fallbackName, ← List.count_eq_zero]
  constructor
  · intro same
    by_contra counted
    rw [occurrence_pos testLd (Nat.pos_of_ne_zero counted)] at same
    exact append_numberSuffix_ne testLd _ same
  · intro absent
    rw [absent, occurrence_zero]

include enabled in
theorem extraPlace_lt : extraPlace results < (targetNames config results).length := by
  rw [targetNames, if_pos enabled, List.length_append, length_filenames]
  exact Nat.lt_succ_self _

include enabled in
/-- What a target reaches: its link results, and the extra link info by its name. -/
theorem reaches_iff {target : Str} {i : Nat} : Reaches config results target i ↔
    Links results target i ∨ (i = extraPlace results ∧ target = extraName config results) := by
  rw [links_iff, Reaches]
  refine or_congr_right ?_
  constructor
  · rintro ⟨-, rfl, named⟩
    exact ⟨rfl, named⟩
  · rintro ⟨rfl, named⟩
    exact ⟨enabled, rfl, named⟩

theorem links_lt {target : Str} {i : Nat} (links : Links results target i) :
    i < extraPlace results := by
  obtain ⟨ld, listed, -⟩ := links
  exact (List.getElem?_eq_some_iff.mp listed).1

include enabled in
/-- **For a target with a link result the files are below the directories of what it reaches.** -/
theorem once_linked_iff {k : Nat} {cc : CCResult} (listed : results.ccResults[k]? = some cc) {i : Nat}
    (links : Links results cc.target i) :
    (archivedBy config env results k).countP (entryUnder (dirAt config results i)) = 1 ↔
      ∀ j, Reaches config results cc.target j →
        numbered (targetNames config results) j = numbered (targetNames config results) i →
          j = i := by
  have reaches := (@reaches_iff config results enabled _ i).mpr (Or.inl links)
  have visits : ∀ j, j ∈ visitedBy config env results cc ↔ Reaches config results cc.target j := by
    intro j
    rw [mem_visitedBy_cases]
    exact or_iff_left fun absent => absent.1 i reaches
  rw [countP_archivedBy_at config env listed reaches.lt,
    countP_eq_one_iff visitedBy_nodup ((visits i).mpr reaches)]
  exact forall_congr' fun j => by rw [visits]

/-- A link target whose file name is not `test_ld` does not get this name. -/
theorem numbered_ne_testLd (absent : testLd ∉ filenames results.ldResults) {j : Nat}
    (inside : j < extraPlace results) : numbered (targetNames config results) j ≠ testLd := by
  intro same
  have insideNames : j < (filenames results.ldResults).length := by
    rwa [length_filenames]
  have listed : (targetNames config results)[j]? = some (filenames results.ldResults)[j] := by
    rw [targetNames, List.getElem?_append_left insideNames, List.getElem?_eq_getElem insideNames]
  rw [numbered_of_getElem? listed, ← occurrence_zero testLd, occurrence_eq_iff] at same
  rcases same with ⟨name, -⟩ | ⟨-, -, name⟩ | ⟨-, zero, -⟩
  · exact absent (name ▸ List.getElem_mem insideNames)
  · have dot : '.' ∈ testLd := by
      rw [name]
      exact List.mem_append_right _ List.mem_cons_self
    exact absurd dot (by decide)
  · exact Nat.lt_irrefl 0 zero

include enabled in
/-- What a target without a link result reaches. -/
theorem reaches_unlinked_iff {target : Str} (unlinked : ∀ i, ¬ Links results target i) {j : Nat} :
    Reaches config results target j ↔ j = extraPlace results ∧ target = extraName config results :=
  (reaches_iff enabled).trans (or_iff_right (unlinked j))

include enabled in
/-- A target that is the key of the extra link info visits only that. -/
theorem mem_visitedBy_named {cc : CCResult} (unlinked : ∀ i, ¬ Links results cc.target i)
    (named : cc.target = extraName config results) {j : Nat} :
    j ∈ visitedBy config env results cc ↔ j = extraPlace results := by
  have reaches := fun j => @reaches_unlinked_iff config results enabled cc.target unlinked j
  rw [mem_visitedBy_cases, reaches, and_iff_left named]
  refine or_iff_left fun fallback => ?_
  exact fallback.1 (extraPlace results) ((reaches _).mpr ⟨rfl, named⟩)

include enabled in
/-- Another one visits what is found as `test_ld`. -/
theorem mem_visitedBy_fallback {cc : CCResult} (unlinked : ∀ i, ¬ Links results cc.target i)
    (notNamed : cc.target ≠ extraName config results) {j : Nat} :
    j ∈ visitedBy config env results cc ↔ Reaches config results testLd j := by
  have absent : ∀ i, ¬ Reaches config results cc.target i :=
    fun i reaches => notNamed ((reaches_unlinked_iff enabled unlinked).mp reaches).2
  rw [mem_visitedBy_cases, or_iff_right (absent j)]
  exact (and_iff_right absent).trans (and_iff_right enabled)

include enabled in
/-- What is found as `test_ld` below the directory of the extra link info: one link info, if no link
target has the name, or else the link results that link a file of this name. -/
theorem existsUnique_testLd_iff :
    (∃! j, Reaches config results testLd j ∧
        numbered (targetNames config results) j = extraName config results) ↔
      testLd ∉ filenames results.ldResults ∨
        ∃! j, Links results testLd j ∧
          numbered (targetNames config results) j = extraName config results := by
  by_cases absent : testLd ∉ filenames results.ldResults
  · have key := (@extraName_eq_testLd_iff config results enabled).mpr absent
    refine iff_of_true ⟨extraPlace results, ⟨?_, rfl⟩, ?_⟩ (Or.inl absent)
    · exact (reaches_iff enabled).mpr (Or.inr ⟨rfl, key.symm⟩)
    · rintro j ⟨reaches, name⟩
      rcases (reaches_iff enabled).mp reaches with links | ⟨here, -⟩
      · exact absurd (name.trans key) (numbered_ne_testLd absent (links_lt links))
      · exact here
  · have moved : testLd ≠ extraName config results := fun same =>
      absent ((extraName_eq_testLd_iff enabled).mp same.symm)
    rw [or_iff_right absent]
    refine existsUnique_congr fun j => and_congr_left fun _ => ?_
    exact (reaches_iff enabled).trans (or_iff_left fun both => moved both.2)

include enabled in
/-- **For a target without a link result** the file is below the directory of the extra link info
when this is found. -/
theorem once_unlinked_iff {k : Nat} {cc : CCResult} (listed : results.ccResults[k]? = some cc)
    (unlinked : ∀ i, ¬ Links results cc.target i) :
    (archivedBy config env results k).countP
        (entryUnder (dirAt config results (extraPlace results))) = 1 ↔
      cc.target = extraName config results ∨ testLd ∉ filenames results.ldResults ∨
        ∃! j, Links results testLd j ∧
          numbered (targetNames config results) j = extraName config results := by
  have counted : ∀ j, decide (numbered (targetNames config results) j =
      numbered (targetNames config results) (extraPlace results)) = true ↔
        numbered (targetNames config results) j = extraName config results := fun j =>
    decide_eq_true_iff
  rw [countP_archivedBy_at config env listed (extraPlace_lt enabled),
    countP_eq_one_iff_existsUnique visitedBy_nodup]
  by_cases named : cc.target = extraName config results
  · refine iff_of_true ⟨extraPlace results, ⟨?_, decide_eq_true rfl⟩, ?_⟩ (Or.inl named)
    · exact (mem_visitedBy_named enabled unlinked named).mpr rfl
    · exact fun j visited => (mem_visitedBy_named enabled unlinked named).mp visited.1
  · rw [or_iff_right named, ← existsUnique_testLd_iff enabled]
    exact existsUnique_congr fun j =>
      and_congr (mem_visitedBy_fallback enabled unlinked named) (counted j)

include enabled in
/-- Which link target has the name of the extra link info, when another one is called `test_ld`. -/
theorem numbered_eq_extraName_iff (taken : testLd ∈ filenames results.ldResults) {j : Nat}
    (inside : j < extraPlace results) :
    numbered (targetNames config results) j = extraName config results ↔
      FirstNamed results (fallbackName results) j := by
  have counted : 0 < (filenames results.ldResults).count testLd := List.count_pos_iff.mpr taken
  have insideNames : j < (filenames results.ldResults).length := by
    rwa [length_filenames]
  have found := List.getElem?_eq_getElem insideNames
  rw [numbered_targetNames inside, extraName_eq enabled, FirstNamed, fallbackName,
    numbered_of_getElem? found, occurrence_eq_iff, occurrence_pos testLd counted, found,
    Option.some.injEq]
  constructor
  · rintro (⟨name, count⟩ | ⟨-, zero, -⟩ | ⟨first, -, name⟩)
    · rw [name] at found count
      exact absurd count (Nat.ne_of_lt (count_take_lt found))
    · exact absurd zero (Nat.ne_of_gt counted)
    · refine ⟨name, ?_⟩
      rw [← name]
      exact List.count_eq_zero.mp first
  · rintro ⟨name, first⟩
    refine Or.inr (Or.inr ⟨?_, counted, name⟩)
    rw [name]
    exact List.count_eq_zero.mpr first

/-- There is one first link target of a file name. -/
theorem FirstNamed.unique {name : Str} {i j : Nat} (first : FirstNamed results name i)
    (second : FirstNamed results name j) : i = j := by
  have before : ∀ {i j : Nat}, FirstNamed results name i → FirstNamed results name j →
      ¬ i < j := by
    intro i j first second less
    refine second.2 (List.mem_of_getElem? (i := i) ?_)
    rw [List.getElem?_take_of_lt less, first.1]
  exact Nat.le_antisymm (not_lt.mp (before second first)) (not_lt.mp (before first second))

include enabled in
/-- What is found as `test_ld` instead of the extra link info. -/
theorem existsUnique_firstNamed_iff (taken : testLd ∈ filenames results.ldResults) :
    (∃! j, Links results testLd j ∧
        numbered (targetNames config results) j = extraName config results) ↔
      ∃ j, Links results testLd j ∧ FirstNamed results (fallbackName results) j := by
  constructor
  · rintro ⟨j, ⟨links, name⟩, -⟩
    exact ⟨j, links, (numbered_eq_extraName_iff enabled taken (links_lt links)).mp name⟩
  · rintro ⟨j, links, first⟩
    refine ⟨j, ⟨links, (numbered_eq_extraName_iff enabled taken (links_lt links)).mpr first⟩, ?_⟩
    rintro i ⟨links', name⟩
    exact ((numbered_eq_extraName_iff enabled taken (links_lt links')).mp name).unique first

include enabled in
/-- The names of two link infos that a target reaches are the same only if they meet. -/
theorem apart_iff {target : Str} {i j : Nat} (links : Links results target i)
    (reaches : Reaches config results target j) :
    (numbered (targetNames config results) j = numbered (targetNames config results) i → j = i) ↔
      ¬ Meets (targetNames config results) i j ∧ ¬ Meets (targetNames config results) j i := by
  have insideI := ((@reaches_iff config results enabled _ i).mpr (Or.inl links)).lt
  rw [numbered_eq_iff reaches.lt insideI]
  constructor
  · intro apart
    refine ⟨fun met => met.ne ?_, fun met => met.ne ?_⟩
    · exact (apart (Or.inr (Or.inr met))).symm
    · exact apart (Or.inr (Or.inl met))
  · rintro ⟨one, another⟩ (here | met | met)
    · exact here
    · exact absurd met another
    · exact absurd met one

/-- **With the extra link info every compile result is archived where it belongs exactly when the
file names of the link infos that a target reaches do not meet and the extra link info is found.** -/
theorem fallbackArchived_iff (config : OutputConfig) (env : OutputEnv) (results : Results)
    (enabled : config.needProcessLinkUsingCompiler = true) :
    FallbackArchived config env results ↔
      LinkedApart config results ∧ FallbackFound results := by
  have reaches : ∀ {target : Str} {j : Nat}, Reaches config results target j ↔
      Links results target j ∨ (j = extraPlace results ∧ target = fallbackName results) := by
    intro target j
    rw [reaches_iff enabled, extraName_eq enabled]
  -- the third way to find the extra link info only counts when the first two do not
  have finds : ∀ cc : CCResult, (cc.target = extraName config results ∨
      testLd ∉ filenames results.ldResults ∨ ∃! j, Links results testLd j ∧
        numbered (targetNames config results) j = extraName config results) ↔
      cc.target = fallbackName results ∨ testLd ∉ filenames results.ldResults ∨
        ∃ j, Links results testLd j ∧ FirstNamed results (fallbackName results) j := by
    intro cc
    rw [extraName_eq enabled]
    refine or_congr_right ?_
    by_cases taken : testLd ∈ filenames results.ldResults
    · rw [← existsUnique_firstNamed_iff enabled taken, extraName_eq enabled]
    · exact iff_of_true (Or.inl taken) (Or.inl taken)
  constructor
  · intro archived
    constructor
    · intro cc member i j links other
      obtain ⟨k, listed⟩ := List.getElem?_of_mem member
      have reached := reaches.mpr other
      exact (apart_iff enabled links reached).mp
        ((once_linked_iff enabled listed links).mp (archived.linked k cc listed i links) j reached)
    · intro cc member unlinked
      obtain ⟨k, listed⟩ := List.getElem?_of_mem member
      exact (finds cc).mp
        ((once_unlinked_iff enabled listed unlinked).mp (archived.unlinked k cc listed unlinked))
  · rintro ⟨apart, found⟩
    constructor
    · intro k cc listed i links
      refine (once_linked_iff enabled listed links).mpr fun j reached => ?_
      exact (apart_iff enabled links reached).mpr
        (apart cc (List.mem_of_getElem? listed) i j links (reaches.mp reached))
    · intro k cc listed unlinked
      exact (once_unlinked_iff enabled listed unlinked).mpr
        ((finds cc).mpr (found cc (List.mem_of_getElem? listed) unlinked))

end TestLd

/-! ### A link target of the name `test_ld` -/

/-- The default configuration with the extra link info. -/
def testLdConfig : OutputConfig := { plainConfig with needProcessLinkUsingCompiler := true }

/-- A link target, and a compile result that no link result reaches. -/
def unlinkedBeside (target : String) : Results :=
  { linksOf [] with ldResults := [⟨target.toList, ["/w/a.o".toList]⟩] }

/-- The program `app` leaves the name to the extra link info. -/
theorem fallbackArchived_iff_app :
    FallbackArchived testLdConfig plainEnv (unlinkedBeside "/w/app") ↔
      LinkedApart testLdConfig (unlinkedBeside "/w/app") ∧
        FallbackFound (unlinkedBeside "/w/app") :=
  fallbackArchived_iff testLdConfig plainEnv (unlinkedBeside "/w/app") rfl

/-- The program `test_ld` takes the name: the file of `/w/t.o` is lost. -/
theorem fallback_lost :
    ¬ ∀ (config : OutputConfig) (env : OutputEnv) (results : Results),
      config.needProcessLinkUsingCompiler = true → FallbackArchived config env results := by
  intro archived
  have once := (archived testLdConfig plainEnv (unlinkedBeside "/w/test_ld") rfl).unlinked
    0 _ rfl ?_
  · exact absurd once (by decide)
  · rintro i ⟨ld, listed, source, member, same⟩
    rcases i with - | i
    · cases listed
      rw [List.mem_singleton.mp member] at same
      exact absurd same (by decide)
    · exact absurd listed (by simp [unlinkedBeside])

end Xcalbuild.Build
