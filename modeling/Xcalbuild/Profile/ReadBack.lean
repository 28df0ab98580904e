/-
**Writing an option and reading it back.**

`make_string_option` writes an option with its first alias, in the smallest of its formats;
`match_and_get_arg` tries the formats in another order, over all aliases, and splits the token at
every equals sign.

* `equalArg_eq_some`: the tokens of the equal form;
* `attachedArg_append`: the attached form of the first alias is always read back;
* **`readsBack_iff`**: an argument is read back exactly when no other reading of the written tokens
  comes first (`ReadsBack`).
-/
import Xcalbuild.Profile.Load

namespace Xcalbuild.Profile

open Library

namespace ToolOption

/-- **No other reading of what is written comes first**: the attached form is not an alias that takes
the next token, and it is not another alias with its only equals sign and another argument; and in the
equal form there is one equals sign only. -/
def ReadsBack (o : ToolOption) (arg : Str) : Prop :=
  if .attached ∈ o.argFormat then
    (.space ∈ o.argFormat → o.firstAlias ++ arg ∉ o.orderedAliases) ∧
      (.equal ∈ o.argFormat → ∀ name ∈ o.orderedAliases, ∀ value, '=' ∉ name → '=' ∉ value →
        o.firstAlias ++ arg = name ++ '=' :: value → value = arg)
  else .space ∈ o.argFormat ∨ '=' ∉ o.firstAlias ∧ '=' ∉ arg

variable {o : ToolOption} {tok arg value : Str}

theorem firstAlias_mem (o : ToolOption) : o.firstAlias ∈ o.orderedAliases :=
  List.head_mem o.hasAlias

/-! ### The forms of a token -/

/-- The equal form: an alias, the only equals sign, and the argument. -/
theorem equalArg_eq_some : o.equalArg tok = some value ↔
    ∃ name ∈ o.orderedAliases, '=' ∉ name ∧ '=' ∉ value ∧ tok = name ++ '=' :: value := by
  unfold equalArg
  refine ⟨fun found => ?_, ?_⟩
  · split at found
    · rename_i name value' parts
      split_ifs at found with isAlias
      cases found
      exact ⟨name, isAlias, split_eq_pair.mp parts⟩
    · cases found
  · rintro ⟨name, isAlias, parts⟩
    rw [split_eq_pair.mpr parts]
    dsimp only
    rw [if_pos isAlias]

/-- No alias with its only equals sign and another argument: the equal form has no other argument. -/
theorem forall_equalArg : (∀ value ∈ o.equalArg tok, value = arg) ↔
    ∀ name ∈ o.orderedAliases, ∀ value, '=' ∉ name → '=' ∉ value → tok = name ++ '=' :: value →
      value = arg := by
  constructor
  · intro same name isAlias value notInName notInValue written
    exact same value (equalArg_eq_some.mpr ⟨name, isAlias, notInName, notInValue, written⟩)
  · intro same value found
    obtain ⟨name, isAlias, notInName, notInValue, written⟩ := equalArg_eq_some.mp found
    exact same name isAlias value notInName notInValue written

instance (o : ToolOption) (arg : Str) : Decidable (o.ReadsBack arg) :=
  have : Decidable (∀ name ∈ o.orderedAliases, ∀ value, '=' ∉ name → '=' ∉ value →
      o.firstAlias ++ arg = name ++ '=' :: value → value = arg) :=
    match found : o.equalArg (o.firstAlias ++ arg) with
    | none => .isTrue (forall_equalArg.mp (by simp [found]))
    | some value => decidable_of_iff (value = arg) (by rw [← forall_equalArg]; simp [found])
  inferInstanceAs (Decidable (if .attached ∈ o.argFormat then
    (.space ∈ o.argFormat → o.firstAlias ++ arg ∉ o.orderedAliases) ∧
      (.equal ∈ o.argFormat → ∀ name ∈ o.orderedAliases, ∀ value, '=' ∉ name → '=' ∉ value →
        o.firstAlias ++ arg = name ++ '=' :: value → value = arg)
    else .space ∈ o.argFormat ∨ '=' ∉ o.firstAlias ∧ '=' ∉ arg))

/-- Equals signs of the first alias or of the argument spoil the equal form. -/
theorem equalArg_firstAlias : o.equalArg (o.firstAlias ++ '=' :: arg) = some arg ↔
    '=' ∉ o.firstAlias ∧ '=' ∉ arg := by
  rw [equalArg_eq_some]
  refine ⟨?_, fun clean => ⟨o.firstAlias, o.firstAlias_mem, clean.1, clean.2, rfl⟩⟩
  rintro ⟨name, -, notInName, notInArg, same⟩
  rw [(List.append_inj' same rfl).1]
  exact ⟨notInName, notInArg⟩

/-- **The attached form of the first alias is read back.** -/
theorem attachedArg_append (o : ToolOption) (arg : Str) :
    o.attachedArg (o.firstAlias ++ arg) = some arg := by
  unfold attachedArg firstAlias
  obtain ⟨name, others, aliases⟩ := List.exists_cons_of_ne_nil o.hasAlias
  have first : o.orderedAliases.head o.hasAlias = name := by simp [aliases]
  have starts : name.isPrefixOf (name ++ arg) = true :=
    List.isPrefixOf_iff_prefix.mpr (List.prefix_append _ _)
  rw [first, aliases, List.find?_cons, starts]
  show some ((name ++ arg).drop name.length) = some arg
  rw [List.drop_left]

/-! ### Reading what was written -/

/-- The argument inside the attached form is read back unless the equal form has another one. -/
theorem inlineArg_attached (attached : .attached ∈ o.argFormat) :
    o.inlineArg (o.firstAlias ++ arg) = some arg ↔
      (.equal ∈ o.argFormat → ∀ value ∈ o.equalArg (o.firstAlias ++ arg), value = arg) := by
  unfold inlineArg
  rw [if_pos attached, attachedArg_append]
  by_cases equal : .equal ∈ o.argFormat
  · rw [if_pos equal]
    cases o.equalArg (o.firstAlias ++ arg) with
    | none => simp
    | some value => simp [equal]
  · simp [equal]

/-- The space form at the start of a vector. -/
theorem matchAndGetArg_space (space : o.spaceForm tok = true) (rest : List Str) :
    o.matchAndGetArg (tok :: rest) 0 [] =
      match rest with
      | [] => .error .pastEnd
      | next :: _ => .ok (if o.prefixStops next then some (1, []) else some (2, next)) := by
  have first : deref (tok :: rest) 0 = .ok tok := rfl
  unfold matchAndGetArg
  rw [first, ok_bind, if_neg (format_of_spaceForm space), if_pos (spaceForm_eq_true.mp space)]
  cases rest with
  | nil => rfl
  | cons next rest => rfl

/-- Another form at the start of a vector. -/
theorem matchAndGetArg_other (formats : o.argFormat ≠ []) (inline : o.spaceForm tok = false)
    (rest : List Str) :
    o.matchAndGetArg (tok :: rest) 0 [] = .ok ((o.inlineArg tok).map fun value => (1, value)) := by
  have first : (tok :: rest)[0]? = some tok := rfl
  rw [matchAndGetArg_inline first inline, if_neg formats]

/-- The attached form is read back if the token is no alias that takes the next one, and no alias
before the first one starts it. -/
theorem reads_attached (arg : Str) (rest : List Str) (nonempty : arg ≠ [])
    (attached : .attached ∈ o.argFormat) :
    o.matchAndGetArg ((o.firstAlias ++ arg) :: rest) 0 [] = .ok (some (1, arg)) ↔
      (.space ∈ o.argFormat → o.firstAlias ++ arg ∉ o.orderedAliases) ∧
        o.inlineArg (o.firstAlias ++ arg) = some arg := by
  cases space : o.spaceForm (o.firstAlias ++ arg) with
  | true =>
    -- The written token is itself an alias, which takes the next token or nothing.
    obtain ⟨isSpace, isAlias⟩ := spaceForm_eq_true.mp space
    rw [matchAndGetArg_space space]
    refine iff_of_false ?_ fun readsBack => readsBack.1 isSpace isAlias
    cases rest with
    | nil => exact fun faulty => nomatch faulty
    | cons next rest =>
      dsimp only
      split_ifs <;> simp [nonempty.symm]
  | false =>
    have noSpace : .space ∈ o.argFormat → o.firstAlias ++ arg ∉ o.orderedAliases := by
      intro isSpace isAlias
      rw [spaceForm_eq_true.mpr ⟨isSpace, isAlias⟩] at space
      cases space
    rw [matchAndGetArg_other (List.ne_nil_of_mem attached) space, and_iff_right noSpace]
    simp

/-- The space form is always read back. -/
theorem reads_space (arg : Str) (rest : List Str) (goes : o.prefixStops arg = false)
    (space : .space ∈ o.argFormat) :
    o.matchAndGetArg (o.firstAlias :: arg :: rest) 0 [] = .ok (some (2, arg)) := by
  have takes : o.spaceForm o.firstAlias = true :=
    spaceForm_eq_true.mpr ⟨space, o.firstAlias_mem⟩
  rw [matchAndGetArg_space takes]
  dsimp only
  rw [goes]
  rfl

/-- The equal form is read back if there is no other equals sign. -/
theorem reads_equal (arg : Str) (rest : List Str) (attached : .attached ∉ o.argFormat)
    (space : .space ∉ o.argFormat) (equal : .equal ∈ o.argFormat) :
    o.matchAndGetArg ((o.firstAlias ++ '=' :: arg) :: rest) 0 [] = .ok (some (1, arg)) ↔
      o.equalArg (o.firstAlias ++ '=' :: arg) = some arg := by
  have inline : o.spaceForm (o.firstAlias ++ '=' :: arg) = false := by simp [spaceForm, space]
  rw [matchAndGetArg_other (List.ne_nil_of_mem equal) inline]
  simp [inlineArg, equal, attached]

/-- The only format that is left. -/
theorem equal_of_other (formats : o.argFormat ≠ []) (attached : .attached ∉ o.argFormat)
    (space : .space ∉ o.argFormat) : .equal ∈ o.argFormat := by
  obtain ⟨format, others, parts⟩ := List.exists_cons_of_ne_nil formats
  have member : format ∈ o.argFormat := parts ▸ List.mem_cons_self
  cases format with
  | attached => exact absurd member attached
  | space => exact absurd member space
  | equal => exact member

/-- **An argument is read back exactly when no other reading comes first.** -/
theorem readsBack_iff (o : ToolOption) (arg : Str) (rest : List Str) (formats : o.argFormat ≠ [])
    (nonempty : arg ≠ []) (goes : o.prefixStops arg = false) :
    o.matchAndGetArg (o.makeStringOption arg ++ rest) 0 [] =
        .ok (some ((o.makeStringOption arg).length, arg)) ↔ o.ReadsBack arg := by
  unfold ReadsBack
  by_cases attached : .attached ∈ o.argFormat
  · have written : o.makeStringOption arg = [o.firstAlias ++ arg] := by
      simp [makeStringOption, firstFormat, attached]
    rw [if_pos attached, written, List.singleton_append, List.length_singleton,
      reads_attached arg rest nonempty attached, inlineArg_attached attached, forall_equalArg]
  rw [if_neg attached]
  by_cases space : .space ∈ o.argFormat
  · have written : o.makeStringOption arg = [o.firstAlias, arg] := by
      simp [makeStringOption, firstFormat, attached, space]
    rw [written]
    exact iff_of_true (reads_space arg rest goes space) (Or.inl space)
  · have equal := equal_of_other formats attached space
    have written : o.makeStringOption arg = [o.firstAlias ++ '=' :: arg] := by
      simp [makeStringOption, firstFormat, attached, space, equal]
    rw [written, List.singleton_append, List.length_singleton,
      reads_equal arg rest attached space equal, or_iff_right space, ← equalArg_firstAlias]

/-- The option `-o` with its argument after an equals sign. -/
def equalOptionJson : Json :=
  .obj [("aliases".toList, .arr [.str "-o".toList]), ("argFormat".toList, .arr [.str "equal".toList]),
    ("type".toList, .str "output".toList)]

def equalOption : ToolOption where
  behaviour := .output
  defaultPrefix := some "-".toList
  orderedAliases := ["-o".toList]
  hasAlias := List.cons_ne_nil _ _
  argFormat := [.equal]

theorem parse_equalOption :
    parseOption equalOptionJson (some "-".toList) = .ok equalOption := rfl

/-- **The argument `a=b` is written as `-o=a=b`, and that is not read back.** -/
theorem equals_not_readBack :
    ¬ ∀ (j : Json) (lead : Option Str) (o : ToolOption) (arg : Str) (rest : List Str),
      parseOption j lead = .ok o → o.argFormat ≠ [] → arg ≠ [] → o.prefixStops arg = false →
        o.matchAndGetArg (o.makeStringOption arg ++ rest) 0 [] =
          .ok (some ((o.makeStringOption arg).length, arg)) := by
  intro all
  have read := all _ _ _ "a=b".toList [] parse_equalOption (List.cons_ne_nil _ _) (by decide)
    (by decide)
  exact absurd read (by decide)

/-- The argument `a.out` is read back, and `a=b` is not. -/
theorem equalOption_readsBack :
    (equalOption.matchAndGetArg (equalOption.makeStringOption "a.out".toList ++ ["a.c".toList]) 0 [] =
        .ok (some ((equalOption.makeStringOption "a.out".toList).length, "a.out".toList)) ↔
      equalOption.ReadsBack "a.out".toList) ∧ equalOption.ReadsBack "a.out".toList :=
  ⟨readsBack_iff equalOption "a.out".toList ["a.c".toList] (List.cons_ne_nil _ _) (by decide)
    (by decide), by decide⟩

end ToolOption

end Xcalbuild.Profile
