/-
**Telling repeated names apart by a number.**

The first occurrence of a name in a list keeps it; the `k`-th repetition gets the suffix `.k`
(`occurrence`, `numbered`). The numbers are kept per original name while the numbered names live in
the same name space, so a numbered name can meet an original one.

* `occurrence_eq_iff`, `numbered_eq_iff`: when two numbered names are the same: when they are of one
  position, or one of them looks like the other with its number (`Meets`);
* `numbered_injective_iff`: the numbered names are pairwise different exactly when no numbered
  name that is handed out is itself in the list.
-/
import Xcalbuild.Library.Text

namespace Xcalbuild.Library

/-- The name of the occurrence of `f` that has `k` occurrences before it. -/
def occurrence (f : Str) (k : Nat) : Str := if k = 0 then f else f ++ numberSuffix k

/-- The name given to the element at position `i` of the list. -/
def numbered (names : List Str) (i : Nat) : Str :=
  match names[i]? with
  | some f => occurrence f ((names.take i).count f)
  | none => []

/-- Different positions are given different names. -/
def NumberedApart (names : List Str) : Prop :=
  ∀ i j, i < names.length → j < names.length → numbered names i = numbered names j → i = j

theorem occurrence_zero (f : Str) : occurrence f 0 = f := rfl

theorem occurrence_pos (f : Str) {k : Nat} (pos : 0 < k) : occurrence f k = f ++ numberSuffix k := by
  rw [occurrence, if_neg (Nat.pos_iff_ne_zero.mp pos)]

theorem append_numberSuffix_ne (f : Str) (k : Nat) : f ++ numberSuffix k ≠ f := by
  intro same
  have := congrArg List.length same
  simp [numberSuffix] at this

/-- **Two occurrences have the same name** only if they are the same, or one of them is the first
occurrence of a name that looks numbered. -/
theorem occurrence_eq_iff {f g : Str} {j k : Nat} :
    occurrence f j = occurrence g k ↔ (f = g ∧ j = k) ∨
      (0 < j ∧ k = 0 ∧ g = f ++ numberSuffix j) ∨ (j = 0 ∧ 0 < k ∧ f = g ++ numberSuffix k) := by
  rcases Nat.eq_zero_or_pos j with rfl | posJ
  · rcases Nat.eq_zero_or_pos k with rfl | posK
    · simp [occurrence]
    · rw [occurrence_zero, occurrence_pos g posK]
      constructor
      · intro same
        exact Or.inr (Or.inr ⟨rfl, posK, same⟩)
      · rintro (⟨-, zero⟩ | ⟨pos, -⟩ | ⟨-, -, same⟩)
        · omega
        · omega
        · exact same
  · rcases Nat.eq_zero_or_pos k with rfl | posK
    · rw [occurrence_zero, occurrence_pos f posJ]
      constructor
      · intro same
        exact Or.inr (Or.inl ⟨posJ, rfl, same.symm⟩)
      · rintro (⟨-, zero⟩ | ⟨-, -, same⟩ | ⟨zero, -⟩)
        · omega
        · exact same.symm
        · omega
    · rw [occurrence_pos f posJ, occurrence_pos g posK]
      constructor
      · intro same
        exact Or.inl (append_numberSuffix_inj same)
      · rintro (⟨rfl, rfl⟩ | ⟨-, zero, -⟩ | ⟨zero, -⟩)
        · rfl
        · omega
        · omega

theorem numbered_of_getElem? {names : List Str} {i : Nat} {f : Str} (listed : names[i]? = some f) :
    numbered names i = occurrence f ((names.take i).count f) := by
  rw [numbered, listed]

/-- Appending names does not change the names that were given. -/
theorem numbered_append {names : List Str} {i : Nat} (inside : i < names.length)
    (more : List Str) : numbered (names ++ more) i = numbered names i := by
  rw [numbered, numbered, List.getElem?_append_left inside,
    List.take_append_of_le_length (Nat.le_of_lt inside)]

theorem numbered_append_self (names : List Str) (f : Str) :
    numbered (names ++ [f]) names.length = occurrence f (names.count f) := by
  rw [numbered_of_getElem? (List.getElem?_concat_length), List.take_left]

/-- The occurrences of a name before a position where it occurs are fewer than all of them. -/
theorem count_take_lt {names : List Str} {i : Nat} {f : Str} (listed : names[i]? = some f) :
    (names.take i).count f < names.count f := by
  obtain ⟨inside, same⟩ := List.getElem?_eq_some_iff.mp listed
  have parts : names = names.take i ++ f :: names.drop (i + 1) := by
    rw [← same, ← List.drop_eq_getElem_cons inside, List.take_append_drop]
  have count := congrArg (List.count f) parts
  rw [List.count_append, List.count_cons_self] at count
  omega

/-- Two positions of one name have different numbers of occurrences before them. -/
theorem count_take_lt_count_take {names : List Str} {i j : Nat} {f : Str}
    (listed : names[i]? = some f) (before : i < j) :
    (names.take i).count f < (names.take j).count f := by
  have within : (names.take j)[i]? = some f := by rw [List.getElem?_take_of_lt before, listed]
  have := count_take_lt within
  rwa [List.take_take, Nat.min_eq_left (Nat.le_of_lt before)] at this

/-- Every occurrence number below the count belongs to a position. -/
theorem exists_occurrence {names : List Str} {f : Str} {k : Nat} (below : k < names.count f) :
    ∃ i : Nat, names[i]? = some f ∧ (names.take i).count f = k := by
  induction names generalizing k with
  | nil => simp at below
  | cons g rest ih =>
    by_cases same : g = f
    · subst same
      cases k with
      | zero => exact ⟨0, rfl, rfl⟩
      | succ k =>
        rw [List.count_cons_self] at below
        obtain ⟨i, listed, count⟩ := ih (Nat.lt_of_succ_lt_succ below)
        exact ⟨i + 1, listed, by rw [List.take_succ_cons, List.count_cons_self, count]⟩
    · rw [List.count_cons_of_ne same] at below
      obtain ⟨i, listed, count⟩ := ih below
      exact ⟨i + 1, listed, by rw [List.take_succ_cons, List.count_cons_of_ne same, count]⟩

/-- At `i` a name is repeated, and the first name at `j` is this name with its number. -/
def Meets (names : List Str) (i j : Nat) : Prop :=
  ∃ f k, 0 < k ∧ (names[i]? = some f ∧ (names.take i).count f = k) ∧
    names[j]? = some (f ++ numberSuffix k) ∧ f ++ numberSuffix k ∉ names.take j

/-- A name with a number is not the name itself. -/
theorem Meets.ne {names : List Str} {i j : Nat} (met : Meets names i j) : i ≠ j := by
  rintro rfl
  obtain ⟨f, k, -, ⟨found, -⟩, found', -⟩ := met
  rw [found] at found'
  exact append_numberSuffix_ne f k (Option.some.inj found').symm

/-- Names that are not repeated do not meet. -/
theorem not_meets_of_nodup {names : List Str} (once : names.Nodup) (i j : Nat) :
    ¬ Meets names i j := by
  rintro ⟨f, k, pos, ⟨found, rfl⟩, -⟩
  have less := count_take_lt found
  have most := List.nodup_iff_count.mp once f
  omega

/-- **Two positions are given one name** only if they are the same, or one name meets the other. -/
theorem numbered_eq_iff {names : List Str} {i j : Nat} (insideI : i < names.length)
    (insideJ : j < names.length) :
    numbered names i = numbered names j ↔ i = j ∨ Meets names i j ∨ Meets names j i := by
  have atI := List.getElem?_eq_getElem insideI
  have atJ := List.getElem?_eq_getElem insideJ
  have first : ∀ f l, (names.take l).count f = 0 ↔ f ∉ names.take l := fun f l =>
    List.count_eq_zero
  constructor
  · intro same
    rw [numbered_of_getElem? atI, numbered_of_getElem? atJ, occurrence_eq_iff] at same
    rcases same with ⟨name, count⟩ | ⟨pos, zero, name⟩ | ⟨zero, pos, name⟩
    · left
      rw [name] at atI count
      rcases Nat.lt_trichotomy i j with before | here | after
      · exact absurd count (Nat.ne_of_lt (count_take_lt_count_take atI before))
      · exact here
      · exact absurd count.symm (Nat.ne_of_lt (count_take_lt_count_take atJ after))
    · refine Or.inr (Or.inl ⟨names[i], _, pos, ⟨atI, rfl⟩, name ▸ atJ, ?_⟩)
      rw [← name]
      exact (first _ j).mp zero
    · refine Or.inr (Or.inr ⟨names[j], _, pos, ⟨atJ, rfl⟩, name ▸ atI, ?_⟩)
      rw [← name]
      exact (first _ i).mp zero
  · have meets : ∀ {i j : Nat}, Meets names i j → numbered names i = numbered names j := by
      rintro i j ⟨f, k, pos, ⟨atI, count⟩, atJ, new⟩
      rw [numbered_of_getElem? atI, numbered_of_getElem? atJ, (first _ j).mpr new, count,
        occurrence_zero, occurrence_pos f pos]
    rintro (rfl | here | there)
    · rfl
    · exact meets here
    · exact (meets there).symm

/-- **The numbered names are pairwise different exactly when no numbered name that is handed out is
itself in the list.** -/
theorem numbered_injective_iff {names : List Str} :
    NumberedApart names ↔ ∀ f k, 0 < k → k < names.count f → f ++ numberSuffix k ∉ names := by
  constructor
  · intro apart f k pos below member
    obtain ⟨j, atJ, countJ⟩ := exists_occurrence below
    obtain ⟨i, atI, countI⟩ := exists_occurrence
      (List.count_pos_iff.mpr member)
    have same : numbered names i = numbered names j := by
      rw [numbered_of_getElem? atI, numbered_of_getElem? atJ, countI, countJ, occurrence_zero,
        occurrence_pos f pos]
    have index := apart i j (List.getElem?_eq_some_iff.mp atI).1
      (List.getElem?_eq_some_iff.mp atJ).1 same
    rw [index, atJ] at atI
    exact append_numberSuffix_ne f k (Option.some.inj atI).symm
  · intro free i j insideI insideJ same
    rcases (numbered_eq_iff insideI insideJ).mp same with here | met | met
    · exact here
    · obtain ⟨f, k, pos, ⟨atI, rfl⟩, atJ, -⟩ := met
      exact absurd (List.mem_of_getElem? atJ) (free f _ pos (count_take_lt atI))
    · obtain ⟨f, k, pos, ⟨atJ, rfl⟩, atI, -⟩ := met
      exact absurd (List.mem_of_getElem? atI) (free f _ pos (count_take_lt atJ))

/-- The names `a`, `a` and `a.1`: the second and the third get the same name. -/
example : (List.range 3).map (numbered ["a".toList, "a".toList, "a.1".toList]) =
    ["a".toList, "a.1".toList, "a.1".toList] := by decide

end Xcalbuild.Library
