/-
**Strings as lists of characters.**

`std::string` and `char const *` are modelled as `Str = List Char`. This module has the string
operations of the C and C++ libraries that the program uses, with their laws:

* `split` is `boost::split` without token compression (`n` separators give `n + 1` tokens);
* `afterLast` is what is left of a string after everything up to the last separator is erased;
* `decimal` is `std::to_string` of a natural number; it is injective (`decimal_injective`) and
  writes digits only (`digit_of_mem_decimal`), so a suffix `"." ++ decimal k` of a string can be
  read back (`append_numberSuffix_inj`);
* `join` is `boost::algorithm::join`;
* `lines` is what `std::getline` reads of a text; texts without newlines that are ended one by one are
  read one by one (`lines_ended`), and others give more lines (`length_lines_ended_iff`).
-/
import Mathlib.Data.List.DropRight
import Mathlib.Data.List.Basic

namespace Xcalbuild.Library

abbrev Str := List Char

instance : LawfulBEq Str := inferInstance

/-- What a C function sees of a string: the characters before the first NUL. -/
def cStr (s : Str) : Str := s.takeWhile (· ≠ '\x00')

/-- `isspace` in the C locale. -/
def isSpace (c : Char) : Bool :=
  c = ' ' || c = '\t' || c = '\n' || c = '\x0b' || c = '\x0c' || c = '\r'

/-- `boost::split`: a string without separators is one token, the empty string included. -/
def split (sep : Char → Bool) (s : Str) : List Str := s.splitOnP sep

/-- A string after everything up to its last separator has been erased. -/
def afterLast (sep : Char) (s : Str) : Str := s.rtakeWhile (· ≠ sep)

/-- `boost::algorithm::join`, of lists of any kind. -/
def join {α : Type} (sep : List α) : List (List α) → List α
  | [] => []
  | [s] => s
  | s :: t :: rest => s ++ sep ++ join sep (t :: rest)

/-- `std::to_string` of a natural number. -/
def decimal (n : Nat) : Str := Nat.toDigits 10 n

/-! ### Last components -/

theorem not_mem_afterLast (sep : Char) (s : Str) : sep ∉ afterLast sep s := by
  intro member
  have := List.mem_rtakeWhile_imp member
  simp at this

theorem afterLast_eq_self {sep : Char} {s : Str} (absent : sep ∉ s) : afterLast sep s = s := by
  unfold afterLast
  rw [List.rtakeWhile_eq_self_iff]
  intro c member
  have : c ≠ sep := fun same => absent (same ▸ member)
  simpa using this

theorem afterLast_append_of_notMem {sep : Char} (s : Str) {t : Str} (absent : sep ∉ t) :
    afterLast sep (s ++ t) = afterLast sep s ++ t := by
  have kept : ∀ c ∈ t.reverse, decide (c ≠ sep) = true := by
    intro c member
    have : c ≠ sep := fun same => absent (same ▸ List.mem_reverse.mp member)
    simpa using this
  rw [afterLast, List.rtakeWhile, List.reverse_append, List.takeWhile_append_of_pos kept,
    List.reverse_append, List.reverse_reverse]
  rfl

theorem afterLast_append {sep : Char} (s : Str) {t : Str} (absent : sep ∉ t) :
    afterLast sep (s ++ sep :: t) = t := by
  have parts : s ++ sep :: t = (s ++ [sep]) ++ t := by simp
  have stop : afterLast sep (s ++ [sep]) = [] := List.rtakeWhile_concat_neg _ _ _ (by simp)
  rw [parts, afterLast_append_of_notMem _ absent, stop, List.nil_append]

theorem exists_eq_afterLast {sep : Char} {s : Str} (present : sep ∈ s) :
    ∃ front, s = front ++ sep :: afterLast sep s := by
  obtain ⟨back, front, reversed, absent⟩ :=
    List.eq_append_cons_of_mem (List.mem_reverse.mpr present)
  have parts : s = front.reverse ++ sep :: back.reverse := by
    rw [← List.reverse_reverse s, reversed]
    simp
  have absent' : sep ∉ back.reverse := fun member => absent (List.mem_reverse.mp member)
  refine ⟨front.reverse, ?_⟩
  conv_rhs => rw [parts, afterLast_append _ absent']
  exact parts

/-- What is before a separator does not matter. -/
theorem afterLast_append_sep {sep : Char} (s t : Str) :
    afterLast sep (s ++ sep :: t) = afterLast sep t := by
  by_cases present : sep ∈ t
  · obtain ⟨front, parts⟩ := exists_eq_afterLast present
    have whole : s ++ sep :: t = (s ++ sep :: front) ++ sep :: afterLast sep t := by
      conv_lhs => rw [parts]
      simp
    rw [whole, afterLast_append _ (not_mem_afterLast sep t)]
  · rw [afterLast_append s present, afterLast_eq_self present]

theorem afterLast_suffix (sep : Char) (s : Str) : afterLast sep s <:+ s :=
  List.rtakeWhile_suffix _ _

/-! ### Tokens -/

theorem split_ne_nil (sep : Char → Bool) (s : Str) : split sep s ≠ [] :=
  List.splitOnP_ne_nil _ _

theorem split_of_notMem {sep : Char} {s : Str} (absent : sep ∉ s) : split (· = sep) s = [s] := by
  refine List.splitOnP_eq_singleton fun c member => ?_
  have : c ≠ sep := fun same => absent (same ▸ member)
  simpa using this

theorem split_append_cons (sep : Char) (s t : Str) :
    split (· = sep) (s ++ sep :: t) = split (· = sep) s ++ split (· = sep) t :=
  List.splitOnP_append_cons _ _ (decide_eq_true rfl)

/-- The last token of a string is what is after the last separator. -/
theorem getLast?_split (sep : Char) (s : Str) :
    (split (· = sep) s).getLast? = some (afterLast sep s) := by
  by_cases present : sep ∈ s
  · obtain ⟨front, parts⟩ := exists_eq_afterLast present
    have tokens : split (· = sep) s = split (· = sep) front ++ [afterLast sep s] := by
      conv_lhs => rw [parts]
      rw [split_append_cons, split_of_notMem (not_mem_afterLast sep s)]
    rw [tokens, List.getLast?_concat]
  · rw [split_of_notMem present, afterLast_eq_self present, List.getLast?_singleton]

/-- The first of several tokens ends at the first separator. -/
theorem split_eq_cons {sep : Char} {s first second : Str} {rest : List Str} :
    split (· = sep) s = first :: second :: rest ↔ ∃ back, s = first ++ sep :: back ∧ sep ∉ first ∧
      split (· = sep) back = second :: rest := by
  constructor
  · intro parts
    have present : sep ∈ s := by
      by_contra absent
      rw [split_of_notMem absent] at parts
      cases parts
    obtain ⟨front, back, rfl, absent⟩ := List.eq_append_cons_of_mem present
    rw [split_append_cons, split_of_notMem absent, List.singleton_append, List.cons.injEq] at parts
    obtain ⟨rfl, later⟩ := parts
    exact ⟨back, rfl, absent, later⟩
  · rintro ⟨back, rfl, absent, later⟩
    rw [split_append_cons, split_of_notMem absent, later]
    rfl

theorem split_eq_singleton {sep : Char} {s token : Str} :
    split (· = sep) s = [token] ↔ s = token ∧ sep ∉ token := by
  by_cases present : sep ∈ s
  · obtain ⟨front, back, rfl, absent⟩ := List.eq_append_cons_of_mem present
    refine iff_of_false (fun parts => ?_) ?_
    · rw [split_append_cons, split_of_notMem absent, List.singleton_append, List.cons.injEq] at parts
      exact split_ne_nil _ _ parts.2
    · rintro ⟨rfl, other⟩
      exact other present
  · rw [split_of_notMem present, List.cons.injEq]
    constructor
    · rintro ⟨rfl, -⟩
      exact ⟨rfl, present⟩
    · exact fun same => ⟨same.1, rfl⟩

/-- **A text is split in two at its only separator.** -/
theorem split_eq_pair {sep : Char} {s name value : Str} :
    split (· = sep) s = [name, value] ↔ sep ∉ name ∧ sep ∉ value ∧ s = name ++ sep :: value := by
  rw [split_eq_cons]
  constructor
  · rintro ⟨back, rfl, notInName, parts⟩
    obtain ⟨rfl, notInValue⟩ := split_eq_singleton.mp parts
    exact ⟨notInName, notInValue, rfl⟩
  · rintro ⟨notInName, notInValue, rfl⟩
    exact ⟨value, rfl, notInName, split_of_notMem notInValue⟩

/-- **Three tokens are around two separators.** -/
theorem split_eq_triple {sep : Char} {s first second third : Str} :
    split (· = sep) s = [first, second, third] ↔ s = first ++ sep :: (second ++ sep :: third) ∧
      sep ∉ first ∧ sep ∉ second ∧ sep ∉ third := by
  rw [split_eq_cons]
  constructor
  · rintro ⟨back, rfl, absent, parts⟩
    obtain ⟨notInSecond, notInThird, rfl⟩ := split_eq_pair.mp parts
    exact ⟨rfl, absent, notInSecond, notInThird⟩
  · rintro ⟨rfl, absent, notInSecond, notInThird⟩
    exact ⟨_, rfl, absent, split_eq_pair.mpr ⟨notInSecond, notInThird, rfl⟩⟩

theorem length_split (sep : Char) (s : Str) : (split (· = sep) s).length = s.count sep + 1 := by
  induction s with
  | nil => rfl
  | cons c rest ih =>
    have rest' : (List.splitOnP (fun c => decide (c = sep)) rest).length = rest.count sep + 1 := ih
    rw [split, List.splitOnP_cons_eq_if_modifyHead, List.count_cons]
    by_cases here : c = sep
    · simp [here, rest']
    · simp [here, rest']

/-! ### Lines -/

/-- The lines that `std::getline` reads. -/
def lines (text : Str) : List Str :=
  let parts := split (· = '\n') text
  if parts.getLast? = some [] then parts.dropLast else parts

/-- What is split from texts that are ended one by one: at the end there is an empty token. -/
theorem split_ended (texts : List Str) :
    split (· = '\n') (texts.flatMap fun text => text ++ ['\n']) =
      texts.flatMap (split (· = '\n')) ++ [[]] := by
  induction texts with
  | nil => rfl
  | cons text rest ih =>
    rw [List.flatMap_cons, List.append_assoc, List.singleton_append, split_append_cons, ih,
      List.flatMap_cons, List.append_assoc]

theorem lines_flatMap (texts : List Str) : lines (texts.flatMap fun text => text ++ ['\n']) =
    texts.flatMap (split (· = '\n')) := by
  unfold lines
  dsimp only
  rw [split_ended, List.getLast?_concat, if_pos rfl, List.dropLast_concat]

/-- **Lines that are ended one by one** are read one by one. -/
theorem lines_ended {texts : List Str} (clean : ∀ text ∈ texts, '\n' ∉ text) :
    lines (texts.flatMap fun text => text ++ ['\n']) = texts := by
  rw [lines_flatMap]
  induction texts with
  | nil => rfl
  | cons text rest ih =>
    rw [List.flatMap_cons, split_of_notMem (clean text List.mem_cons_self),
      ih fun other member => clean other (List.mem_cons_of_mem text member), List.singleton_append]

/-- There are as many lines as texts only when no text has a newline. -/
theorem length_lines_ended_iff (texts : List Str) :
    (lines (texts.flatMap fun text => text ++ ['\n'])).length = texts.length ↔
      ∀ text ∈ texts, '\n' ∉ text := by
  constructor
  · rw [lines_flatMap]
    intro same
    induction texts with
    | nil => exact fun text member => absurd member List.not_mem_nil
    | cons text rest ih =>
      have more : ∀ texts : List Str, texts.length ≤ (texts.flatMap (split (· = '\n'))).length := by
        intro texts
        induction texts with
        | nil => exact le_rfl
        | cons first others more =>
          rw [List.flatMap_cons, List.length_append, length_split, List.length_cons]
          omega
      have others := more rest
      rw [List.flatMap_cons, List.length_append, length_split, List.length_cons] at same
      refine List.forall_mem_cons.mpr ⟨List.count_eq_zero.mp (by omega), ih (by omega)⟩
  · intro clean
    rw [lines_ended clean]

/-! ### Joining -/

theorem length_join (sep : Str) (parts : List Str) :
    (join sep parts).length = parts.flatten.length + sep.length * (parts.length - 1) := by
  induction parts with
  | nil => simp [join]
  | cons s rest ih =>
    cases rest with
    | nil => simp [join]
    | cons t rest =>
      simp only [join, List.length_append, ih, List.flatten_cons, List.length_cons,
        Nat.add_sub_cancel, Nat.mul_succ]
      omega

theorem join_concat {α : Type} (sep : List α) (parts : List (List α)) (s : List α) :
    join sep (parts ++ [s]) = join sep parts ++ (if parts = [] then [] else sep) ++ s := by
  induction parts with
  | nil => rfl
  | cons first rest ih =>
    cases rest with
    | nil => simp [join]
    | cons second rest =>
      rw [List.cons_append, List.cons_append, join, ← List.cons_append, ih]
      simp [join]

theorem mem_join {α : Type} {c sep : α} {parts : List (List α)} (member : c ∈ join [sep] parts) :
    c = sep ∨ ∃ part ∈ parts, c ∈ part := by
  induction parts with
  | nil => exact absurd member List.not_mem_nil
  | cons first rest ih =>
    cases rest with
    | nil => exact Or.inr ⟨first, List.mem_cons_self, member⟩
    | cons second rest =>
      rw [join, List.append_assoc, List.mem_append, List.mem_append, List.mem_singleton] at member
      rcases member with here | here | later
      · exact Or.inr ⟨first, List.mem_cons_self, here⟩
      · exact Or.inl here
      · refine (ih later).imp_right ?_
        rintro ⟨part, member, inside⟩
        exact ⟨part, List.mem_cons_of_mem _ member, inside⟩

/-- What was joined is split again, with the separators that were there before. -/
theorem split_join (sep : Char) {parts : List Str} (nonempty : parts ≠ []) :
    split (· = sep) (join [sep] parts) = parts.flatMap (split (· = sep)) := by
  induction parts with
  | nil => exact absurd rfl nonempty
  | cons first rest ih =>
    cases rest with
    | nil => exact (List.append_nil _).symm
    | cons second rest =>
      rw [join, List.append_assoc, List.flatMap_cons, ← ih (List.cons_ne_nil _ _)]
      exact List.splitOnP_append_cons _ _ (decide_eq_true rfl)

/-! ### Decimal numbers -/

theorem decimal_injective : Function.Injective decimal := by
  intro m n same
  calc m = Nat.ofDigitChars 10 (decimal m) 0 := Nat.ofDigitChars_ten_toDigits.symm
    _ = Nat.ofDigitChars 10 (decimal n) 0 := by rw [same]
    _ = n := Nat.ofDigitChars_ten_toDigits

theorem digit_of_mem_decimal {n : Nat} {c : Char} (member : c ∈ decimal n) : c.isDigit = true :=
  Nat.isDigit_of_mem_toDigits (by decide) (by decide) member

theorem not_mem_decimal {n : Nat} {c : Char} (notDigit : c.isDigit = false) : c ∉ decimal n := by
  intro member
  rw [digit_of_mem_decimal member] at notDigit
  cases notDigit

/-- The suffix that tells a repeated name from the first one. -/
def numberSuffix (k : Nat) : Str := '.' :: decimal k

theorem not_mem_numberSuffix {k : Nat} {c : Char} (notDigit : c.isDigit = false) (notDot : c ≠ '.') :
    c ∉ numberSuffix k := by
  intro member
  rcases List.mem_cons.mp member with same | member
  · exact notDot same
  · exact not_mem_decimal notDigit member

/-- **A numbered name can be read back**: the name and the number are determined. -/
theorem append_numberSuffix_inj {s t : Str} {j k : Nat}
    (same : s ++ numberSuffix j = t ++ numberSuffix k) : s = t ∧ j = k := by
  have number : decimal j = decimal k := by
    have := congrArg (afterLast '.') same
    unfold numberSuffix at this
    rwa [afterLast_append s (not_mem_decimal (by decide)),
      afterLast_append t (not_mem_decimal (by decide))] at this
  have index := decimal_injective number
  subst index
  exact ⟨List.append_cancel_right same, rfl⟩

end Xcalbuild.Library
