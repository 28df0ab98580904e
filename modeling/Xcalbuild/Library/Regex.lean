/-
**Regular expressions with backtracking.**

The part of the Perl syntax that needs no more than classes of characters: literal text, one character
of a class, greedy repetitions of a class, sequences, ordered alternatives and groups.

* `ways`: what an expression can match at the start of a text, in the order in which a backtracking
  matcher tries it;
* `Matches`: the texts an expression matches as a whole, with what its groups hold;
* **`mem_ways_iff`**: the matcher tries exactly these;
* `regexMatch_eq_none_iff`, `regexMatch_eq_some`: the whole of a text is matched if it can be, and
  when the groups can hold one thing only, they hold that.
-/
import Xcalbuild.Library.Text

namespace Xcalbuild.Library

/-- A regular expression. -/
inductive Regex where
  | lit (text : Str)
  | one (p : Char → Bool)
  /-- A greedy repetition of a class, none included. -/
  | many (p : Char → Bool)
  | seq (r s : Regex)
  | alt (r s : Regex)
  | group (index : Nat) (r : Regex)

namespace Regex

/-- What the groups hold, in the order in which they end. -/
abbrev Captures := List (Nat × Str)

/-- What a group holds. -/
def Captures.get (captures : Captures) (index : Nat) : Str :=
  ((captures.reverse.find? fun capture => capture.1 = index).map Prod.snd).getD []

/-- `p+` -/
def many1 (p : Char → Bool) : Regex := .seq (.one p) (.many p)

/-- Expressions one after another. -/
def seqs : List Regex → Regex
  | [] => .lit []
  | [r] => r
  | r :: next :: rest => .seq r (seqs (next :: rest))

/-! ### The matcher -/

/-- What is left after a greedy repetition, the longest repetition first. -/
def afterMany (p : Char → Bool) : Str → List Str
  | [] => [[]]
  | c :: rest => if p c then afterMany p rest ++ [c :: rest] else [c :: rest]

/-- **The ways to match at the start of a text**, with what is left of it. -/
def ways : Regex → Str → List (Captures × Str)
  | .lit text, s => if text <+: s then [([], s.drop text.length)] else []
  | .one p, s =>
      match s with
      | [] => []
      | c :: rest => if p c then [([], rest)] else []
  | .many p, s => (afterMany p s).map fun rest => ([], rest)
  | .seq r₁ r₂, s =>
      (ways r₁ s).flatMap fun first =>
        (ways r₂ first.2).map fun second => (first.1 ++ second.1, second.2)
  | .alt r₁ r₂, s => ways r₁ s ++ ways r₂ s
  | .group index r, s =>
      (ways r s).map fun way => (way.1 ++ [(index, s.take (s.length - way.2.length))], way.2)

/-- `regex_match`: the first way that leaves nothing of the text. -/
def regexMatch (r : Regex) (s : Str) : Option Captures :=
  ((ways r s).find? fun way => way.2 = []).map Prod.fst

/-! ### The texts of an expression -/

/-- **The expression matches the text**, and its groups hold the captures. -/
inductive Matches : Regex → Str → Captures → Prop
  | lit (text : Str) : Matches (.lit text) text []
  | one {p : Char → Bool} {c : Char} (holds : p c = true) : Matches (.one p) [c] []
  | many {p : Char → Bool} {s : Str} (all : ∀ c ∈ s, p c = true) : Matches (.many p) s []
  | seq {r₁ r₂ : Regex} {s t : Str} {first second : Captures} :
      Matches r₁ s first → Matches r₂ t second → Matches (.seq r₁ r₂) (s ++ t) (first ++ second)
  | left {r₁ r₂ : Regex} {s : Str} {captures : Captures} :
      Matches r₁ s captures → Matches (.alt r₁ r₂) s captures
  | right {r₁ r₂ : Regex} {s : Str} {captures : Captures} :
      Matches r₂ s captures → Matches (.alt r₁ r₂) s captures
  | group {index : Nat} {r : Regex} {s : Str} {captures : Captures} :
      Matches r s captures → Matches (.group index r) s (captures ++ [(index, s)])

theorem matches_lit {text s : Str} {captures : Captures} :
    Matches (.lit text) s captures ↔ s = text ∧ captures = [] := by
  refine ⟨fun found => ?_, ?_⟩
  · cases found
    exact ⟨rfl, rfl⟩
  · rintro ⟨rfl, rfl⟩
    exact .lit s

theorem matches_one {p : Char → Bool} {s : Str} {captures : Captures} :
    Matches (.one p) s captures ↔ (∃ c, p c = true ∧ s = [c]) ∧ captures = [] := by
  refine ⟨fun found => ?_, ?_⟩
  · cases found with
    | one holds => exact ⟨⟨_, holds, rfl⟩, rfl⟩
  · rintro ⟨⟨c, holds, rfl⟩, rfl⟩
    exact .one holds

theorem matches_many {p : Char → Bool} {s : Str} {captures : Captures} :
    Matches (.many p) s captures ↔ (∀ c ∈ s, p c = true) ∧ captures = [] := by
  refine ⟨fun found => ?_, ?_⟩
  · cases found with
    | many all => exact ⟨all, rfl⟩
  · rintro ⟨all, rfl⟩
    exact .many all

theorem matches_seq {r₁ r₂ : Regex} {s : Str} {captures : Captures} :
    Matches (.seq r₁ r₂) s captures ↔ ∃ front back first second, s = front ++ back ∧
      captures = first ++ second ∧ Matches r₁ front first ∧ Matches r₂ back second := by
  refine ⟨fun found => ?_, ?_⟩
  · cases found with
    | seq first second => exact ⟨_, _, _, _, rfl, rfl, first, second⟩
  · rintro ⟨front, back, first, second, rfl, rfl, here, there⟩
    exact .seq here there

theorem matches_alt {r₁ r₂ : Regex} {s : Str} {captures : Captures} :
    Matches (.alt r₁ r₂) s captures ↔ Matches r₁ s captures ∨ Matches r₂ s captures := by
  refine ⟨fun found => ?_, fun found => found.elim .left .right⟩
  cases found with
  | left found => exact Or.inl found
  | right found => exact Or.inr found

theorem matches_group {index : Nat} {r : Regex} {s : Str} {captures : Captures} :
    Matches (.group index r) s captures ↔
      ∃ inner, Matches r s inner ∧ captures = inner ++ [(index, s)] := by
  refine ⟨fun found => ?_, ?_⟩
  · cases found with
    | group found => exact ⟨_, found, rfl⟩
  · rintro ⟨inner, found, rfl⟩
    exact .group found

/-- A repetition of at least one. -/
theorem matches_many1 {p : Char → Bool} {s : Str} {captures : Captures} :
    Matches (many1 p) s captures ↔ s ≠ [] ∧ (∀ c ∈ s, p c = true) ∧ captures = [] := by
  unfold many1
  rw [matches_seq]
  refine ⟨?_, ?_⟩
  · rintro ⟨front, back, first, second, rfl, rfl, here, there⟩
    obtain ⟨⟨c, holds, rfl⟩, rfl⟩ := matches_one.mp here
    obtain ⟨all, rfl⟩ := matches_many.mp there
    exact ⟨by simp, by simpa using ⟨holds, all⟩, rfl⟩
  · rintro ⟨nonempty, all, rfl⟩
    obtain ⟨c, rest, rfl⟩ := List.exists_cons_of_ne_nil nonempty
    refine ⟨[c], rest, [], [], rfl, rfl, .one (all c List.mem_cons_self), .many fun d member => ?_⟩
    exact all d (List.mem_cons_of_mem c member)

/-! ### Expressions one after another -/

section

variable {next : Regex} {rest : List Regex} {s : Str} {captures : Captures}

theorem matches_seqs_singleton {r : Regex} : Matches (seqs [r]) s captures ↔ Matches r s captures :=
  Iff.rfl

theorem matches_seqs_lit {text : Str} : Matches (seqs (.lit text :: next :: rest)) s captures ↔
    ∃ back, s = text ++ back ∧ Matches (seqs (next :: rest)) back captures := by
  rw [seqs, matches_seq]
  refine ⟨?_, ?_⟩
  · rintro ⟨front, back, first, second, rfl, rfl, here, there⟩
    obtain ⟨rfl, rfl⟩ := matches_lit.mp here
    exact ⟨back, rfl, there⟩
  · rintro ⟨back, rfl, there⟩
    exact ⟨text, back, [], captures, rfl, rfl, .lit text, there⟩

theorem matches_seqs_many {p : Char → Bool} :
    Matches (seqs (.many p :: next :: rest)) s captures ↔ ∃ front back, s = front ++ back ∧
      (∀ c ∈ front, p c = true) ∧ Matches (seqs (next :: rest)) back captures := by
  rw [seqs, matches_seq]
  refine ⟨?_, ?_⟩
  · rintro ⟨front, back, first, second, rfl, rfl, here, there⟩
    obtain ⟨all, rfl⟩ := matches_many.mp here
    exact ⟨front, back, rfl, all, there⟩
  · rintro ⟨front, back, rfl, all, there⟩
    exact ⟨front, back, [], captures, rfl, rfl, .many all, there⟩

theorem matches_seqs_many1 {p : Char → Bool} :
    Matches (seqs (many1 p :: next :: rest)) s captures ↔ ∃ front back, s = front ++ back ∧
      (front ≠ [] ∧ ∀ c ∈ front, p c = true) ∧ Matches (seqs (next :: rest)) back captures := by
  rw [seqs, matches_seq]
  refine ⟨?_, ?_⟩
  · rintro ⟨front, back, first, second, rfl, rfl, here, there⟩
    obtain ⟨nonempty, all, rfl⟩ := matches_many1.mp here
    exact ⟨front, back, rfl, ⟨nonempty, all⟩, there⟩
  · rintro ⟨front, back, rfl, ⟨nonempty, all⟩, there⟩
    exact ⟨front, back, [], captures, rfl, rfl, matches_many1.mpr ⟨nonempty, all, rfl⟩, there⟩

theorem matches_seqs_group {index : Nat} {r : Regex} :
    Matches (seqs (.group index r :: next :: rest)) s captures ↔
      ∃ front back inner later, s = front ++ back ∧ captures = inner ++ (index, front) :: later ∧
        Matches r front inner ∧ Matches (seqs (next :: rest)) back later := by
  rw [seqs, matches_seq]
  refine ⟨?_, ?_⟩
  · rintro ⟨front, back, first, later, rfl, rfl, here, there⟩
    obtain ⟨inner, found, rfl⟩ := matches_group.mp here
    exact ⟨front, back, inner, later, rfl, List.append_assoc _ _ _, found, there⟩
  · rintro ⟨front, back, inner, later, rfl, rfl, here, there⟩
    exact ⟨front, back, inner ++ [(index, front)], later, rfl,
      (List.append_assoc inner [(index, front)] later).symm, .group here, there⟩

end

/-! ### The matcher finds them -/

theorem mem_afterMany_iff {p : Char → Bool} {s rest : Str} :
    rest ∈ afterMany p s ↔ ∃ front, s = front ++ rest ∧ ∀ c ∈ front, p c = true := by
  induction s with
  | nil =>
    rw [afterMany, List.mem_singleton]
    refine ⟨?_, ?_⟩
    · rintro rfl
      exact ⟨[], rfl, List.forall_mem_nil _⟩
    · rintro ⟨front, parts, -⟩
      exact (List.append_eq_nil_iff.mp parts.symm).2
  | cons c tail ih =>
    have stop : rest = c :: tail → ∃ front, c :: tail = front ++ rest ∧ ∀ d ∈ front, p d = true :=
      fun same => ⟨[], same.symm, List.forall_mem_nil _⟩
    rw [afterMany]
    by_cases holds : p c = true
    · rw [if_pos holds, List.mem_append, ih, List.mem_singleton]
      refine ⟨?_, ?_⟩
      · rintro (⟨front, rfl, all⟩ | same)
        · exact ⟨c :: front, rfl, List.forall_mem_cons.mpr ⟨holds, all⟩⟩
        · exact stop same
      · rintro ⟨front, parts, all⟩
        cases front with
        | nil => exact Or.inr parts.symm
        | cons d front =>
          rw [List.cons_append, List.cons.injEq] at parts
          exact Or.inl ⟨front, parts.2, fun e member => all e (List.mem_cons_of_mem d member)⟩
    · rw [if_neg holds, List.mem_singleton]
      refine ⟨stop, ?_⟩
      rintro ⟨front, parts, all⟩
      cases front with
      | nil => exact parts.symm
      | cons d front =>
        rw [List.cons_append, List.cons.injEq] at parts
        exact absurd (parts.1 ▸ all d List.mem_cons_self) holds

theorem mem_ways_lit {text s rest : Str} {captures : Captures} :
    (captures, rest) ∈ ways (.lit text) s ↔
      ∃ front, s = front ++ rest ∧ Matches (.lit text) front captures := by
  simp only [ways, matches_lit]
  by_cases starts : text <+: s
  · obtain ⟨tail, rfl⟩ := starts
    rw [if_pos (List.prefix_append _ _), List.drop_left, List.mem_singleton, Prod.mk.injEq]
    refine ⟨?_, ?_⟩
    · rintro ⟨rfl, rfl⟩
      exact ⟨text, rfl, rfl, rfl⟩
    · rintro ⟨front, parts, rfl, rfl⟩
      exact ⟨rfl, (List.append_cancel_left parts).symm⟩
  · rw [if_neg starts]
    refine iff_of_false List.not_mem_nil ?_
    rintro ⟨front, rfl, rfl, -⟩
    exact starts (List.prefix_append _ _)

theorem mem_ways_one {p : Char → Bool} {s rest : Str} {captures : Captures} :
    (captures, rest) ∈ ways (.one p) s ↔
      ∃ front, s = front ++ rest ∧ Matches (.one p) front captures := by
  simp only [matches_one]
  cases s with
  | nil => simp [ways]
  | cons c tail =>
    rw [ways]
    by_cases holds : p c = true
    · rw [if_pos holds, List.mem_singleton, Prod.mk.injEq]
      refine ⟨?_, ?_⟩
      · rintro ⟨rfl, rfl⟩
        exact ⟨[c], rfl, ⟨c, holds, rfl⟩, rfl⟩
      · rintro ⟨front, parts, ⟨d, -, rfl⟩, rfl⟩
        exact ⟨rfl, (List.cons.inj parts).2.symm⟩
    · rw [if_neg holds]
      refine iff_of_false List.not_mem_nil ?_
      rintro ⟨front, parts, ⟨d, found, rfl⟩, -⟩
      exact holds ((List.cons.inj parts).1 ▸ found)

/-- **The matcher tries exactly what the expression matches.** -/
theorem mem_ways_iff {r : Regex} {s rest : Str} {captures : Captures} :
    (captures, rest) ∈ ways r s ↔ ∃ front, s = front ++ rest ∧ Matches r front captures := by
  induction r generalizing s rest captures with
  | lit text => exact mem_ways_lit
  | one p => exact mem_ways_one
  | many p =>
    simp only [ways, List.mem_map, Prod.mk.injEq, matches_many]
    refine ⟨?_, ?_⟩
    · rintro ⟨rest, member, rfl, rfl⟩
      obtain ⟨front, parts, all⟩ := mem_afterMany_iff.mp member
      exact ⟨front, parts, all, rfl⟩
    · rintro ⟨front, parts, all, rfl⟩
      exact ⟨rest, mem_afterMany_iff.mpr ⟨front, parts, all⟩, rfl, rfl⟩
  | seq r₁ r₂ ih₁ ih₂ =>
    simp only [ways, List.mem_flatMap, List.mem_map, Prod.mk.injEq, Prod.exists, matches_seq]
    refine ⟨?_, ?_⟩
    · rintro ⟨first, middle, here, second, rest, there, rfl, rfl⟩
      obtain ⟨front, rfl, found⟩ := ih₁.mp here
      obtain ⟨back, rfl, found'⟩ := ih₂.mp there
      exact ⟨front ++ back, (List.append_assoc _ _ _).symm, front, back, first, second, rfl, rfl,
        found, found'⟩
    · rintro ⟨_, rfl, front, back, first, second, rfl, rfl, here, there⟩
      refine ⟨first, back ++ rest, ih₁.mpr ⟨front, List.append_assoc _ _ _, here⟩, second, rest, ?_,
        rfl, rfl⟩
      exact ih₂.mpr ⟨back, rfl, there⟩
  | alt r₁ r₂ ih₁ ih₂ =>
    simp only [ways, List.mem_append, ih₁, ih₂, matches_alt]
    refine ⟨?_, ?_⟩
    · rintro (⟨front, parts, found⟩ | ⟨front, parts, found⟩)
      · exact ⟨front, parts, Or.inl found⟩
      · exact ⟨front, parts, Or.inr found⟩
    · rintro ⟨front, parts, found | found⟩
      · exact Or.inl ⟨front, parts, found⟩
      · exact Or.inr ⟨front, parts, found⟩
  | group index r ih =>
    have held : ∀ front back : Str,
        (front ++ back).take ((front ++ back).length - back.length) = front := by
      intro front back
      rw [List.length_append, Nat.add_sub_cancel, List.take_left]
    simp only [ways, List.mem_map, Prod.mk.injEq, Prod.exists, matches_group]
    refine ⟨?_, ?_⟩
    · rintro ⟨inner, rest, member, rfl, rfl⟩
      obtain ⟨front, rfl, found⟩ := ih.mp member
      exact ⟨front, rfl, inner, found, by rw [held]⟩
    · rintro ⟨front, rfl, inner, found, rfl⟩
      exact ⟨inner, rest, ih.mpr ⟨front, rfl, found⟩, by rw [held], rfl⟩

/-- What is found is a match of the whole text. -/
theorem matches_of_regexMatch {r : Regex} {s : Str} {captures : Captures}
    (found : r.regexMatch s = some captures) : Matches r s captures := by
  unfold regexMatch at found
  obtain ⟨⟨captures', rest⟩, first, rfl⟩ := Option.map_eq_some_iff.mp found
  have whole : rest = [] := by simpa using List.find?_some first
  obtain ⟨front, parts, isMatch⟩ := mem_ways_iff.mp (List.mem_of_find?_eq_some first)
  rw [whole, List.append_nil] at parts
  exact parts ▸ isMatch

theorem regexMatch_eq_none_iff {r : Regex} {s : Str} :
    r.regexMatch s = none ↔ ∀ captures, ¬ Matches r s captures := by
  refine ⟨fun missed captures found => ?_, fun never => ?_⟩
  · unfold regexMatch at missed
    rw [Option.map_eq_none_iff, List.find?_eq_none] at missed
    refine missed (captures, []) (mem_ways_iff.mpr ⟨s, (List.append_nil s).symm, found⟩) ?_
    exact decide_eq_true rfl
  · cases found : r.regexMatch s with
    | none => rfl
    | some captures => exact absurd (matches_of_regexMatch found) (never captures)

/-- **When the groups can hold one thing only, they hold that.** -/
theorem regexMatch_eq_some {r : Regex} {s : Str} {captures : Captures}
    (found : Matches r s captures) (only : ∀ other, Matches r s other → other = captures) :
    r.regexMatch s = some captures := by
  cases result : r.regexMatch s with
  | none => exact absurd found (regexMatch_eq_none_iff.mp result captures)
  | some other => rw [only other (matches_of_regexMatch result)]

end Regex

end Xcalbuild.Library
