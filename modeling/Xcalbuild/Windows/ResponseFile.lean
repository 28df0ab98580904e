/-
**Reading a response file in the Windows tracer.**

`args_from_response_file` puts the lines of the file together to a command line and gives it to
`CommandLineToArgvW`, which takes what comes first for the name of a program: there a backslash has
no meaning before a quote. The file is what a wide stream makes of its bytes.

* `argLines_rows`: the lines of a file with a row of arguments in each;
* `read_afterFirst`: the arguments after the first one are read as they are;
* `program_quoteArgument`: the argument that comes first, read as the name of a program;
* **`responseFile_iff`**: a file with quoted arguments is read as these arguments exactly when the
  first one has to be quoted for no quote and no backslash at its end.
-/
import Xcalbuild.Windows.Arguments

namespace Xcalbuild.Windows

open Library

/-! ### The code -/

/-- The lines that `getline` reads. What is after the last newline is a line if it is not empty. -/
def argLines (input : WString) : List WString :=
  let parts := input.splitOn (wide '\n')
  if parts.getLast? = some [] then parts.dropLast else parts

/-- The byte order mark of UTF-8, as a wide stream reads it. -/
def byteOrderMark : WString := [wide '\xef', wide '\xbb', wide '\xbf']

/-- `CommandLineToArgvW`. An empty line stands for the path of the module that calls it. -/
def commandLineToArgvW (modulePath line : WString) : List WString :=
  if line = [] then [modulePath] else argumentMarks.readCommand line

/-- The command line of the lines, without the mark. -/
def responseLine (lines : List WString) : WString :=
  let cmdline := match lines with
    | [line] => line
    | lines => join [wide ' '] lines
  if byteOrderMark <+: cmdline then cmdline.drop 3 else cmdline

/-- `args_from_response_file`, for what is read from the file. -/
def argsFromResponseFile (modulePath input : WString) : Option (List WString) :=
  if argLines input = [] then none
  else some (commandLineToArgvW modulePath (wcs (responseLine (argLines input))))

/-! ### Response files -/

/-- A row of arguments. -/
def rowText (row : List WString) : WString := join [wide ' '] (row.map quoteArgument)

/-- A file with a row of arguments in each line, and the mark or not. -/
def responseText (marked : Bool) (rows : List (List WString)) : WString :=
  (if marked then byteOrderMark else []) ++ [wide '\n'].intercalate (rows.map rowText)

/-- The argument needs no quotes. -/
def Unquoted (argument : WString) : Prop := argument ≠ [] ∧ ∀ c ∈ argument, c ∉ needsQuotes

/-- There is nothing in the argument that has to be escaped in quotes. -/
def Unescaped (argument : WString) : Prop :=
  wide '"' ∉ argument ∧ argument.getLast? ≠ some (wide '\\')

/-! ### Joined texts -/

theorem join_cons_eq {α : Type} (sep : α) (first : List α) (rest : List (List α)) :
    join [sep] (first :: rest) = first ++ rest.flatMap (sep :: ·) := by
  induction rest generalizing first with
  | nil => exact (List.append_nil first).symm
  | cons second rest ih =>
    rw [join, ih, List.flatMap_cons, List.append_assoc]
    rfl

theorem quoteArgument_unquoted {argument : WString} (unquoted : Unquoted argument) :
    quoteArgument argument = argument :=
  if_pos ⟨unquoted.1, List.all_eq_true.mpr fun c member => decide_eq_true (unquoted.2 c member)⟩

theorem quoteArgument_quoted {argument : WString} (quoted : ¬ Unquoted argument) :
    quoteArgument argument = wide '"' :: (quoteLoop argument 0 ++ [wide '"']) := by
  unfold quoteArgument
  rw [if_neg]
  · rfl
  · rintro ⟨nonempty, all⟩
    exact quoted ⟨nonempty, fun c member => of_decide_eq_true (List.all_eq_true.mp all c member)⟩

theorem quoteArgument_ne_nil (argument : WString) : quoteArgument argument ≠ [] := by
  by_cases unquoted : Unquoted argument
  · rw [quoteArgument_unquoted unquoted]
    exact unquoted.1
  · rw [quoteArgument_quoted unquoted]
    exact List.cons_ne_nil _ _

/-- Quoting adds no character but quotes and backslashes. -/
theorem mem_quoteArgument {argument : WString} {c : WChar} (member : c ∈ quoteArgument argument) :
    c = wide '"' ∨ c = wide '\\' ∨ c ∈ argument := by
  by_cases unquoted : Unquoted argument
  · rw [quoteArgument_unquoted unquoted] at member
    exact Or.inr (Or.inr member)
  · rw [quoteArgument_quoted unquoted, List.mem_cons, List.mem_append, List.mem_singleton] at member
    rcases member with quote | body | quote
    · exact Or.inl quote
    · exact Or.inr (mem_quoteLoop body)
    · exact Or.inl quote

theorem mem_rowText {row : List WString} {c : WChar} (member : c ∈ rowText row) :
    c = wide ' ' ∨ c = wide '"' ∨ c = wide '\\' ∨ ∃ argument ∈ row, c ∈ argument := by
  rcases mem_join member with space | ⟨part, among, inside⟩
  · exact Or.inl space
  · obtain ⟨argument, isOne, rfl⟩ := List.mem_map.mp among
    rcases mem_quoteArgument inside with quote | escape | within
    · exact Or.inr (Or.inl quote)
    · exact Or.inr (Or.inr (Or.inl escape))
    · exact Or.inr (Or.inr (Or.inr ⟨argument, isOne, within⟩))

theorem rowText_eq_nil {row : List WString} : rowText row = [] ↔ row = [] := by
  cases row with
  | nil => exact iff_of_true rfl rfl
  | cons first rest =>
    refine iff_of_false (fun empty => ?_) (List.cons_ne_nil _ _)
    unfold rowText at empty
    rw [List.map_cons, join_cons_eq, List.append_eq_nil_iff] at empty
    exact quoteArgument_ne_nil first empty.1

/-! ### Lines -/

/-- What stands before the first of several texts with a separator. -/
theorem append_intercalate {α : Type} (front sep first : List α) (rest : List (List α)) :
    front ++ sep.intercalate (first :: rest) = sep.intercalate ((front ++ first) :: rest) := by
  cases rest with
  | nil => rw [List.intercalate_singleton, List.intercalate_singleton]
  | cons second rest =>
    rw [List.intercalate_cons_cons, List.intercalate_cons_cons]
    simp only [List.append_assoc]

/-- **The lines of a file** are its rows, but for an empty one at the end. -/
theorem argLines_rows (marked : Bool) {first : WString} {row : List WString}
    {rows : List (List WString)}
    (clean : ∀ r ∈ (first :: row) :: rows, ∀ argument ∈ r, wide '\n' ∉ argument) :
    ∃ kept : List (List WString), kept.flatten = rows.flatten ∧
      argLines (responseText marked ((first :: row) :: rows)) =
        ((if marked then byteOrderMark else []) ++ rowText (first :: row)) :: kept.map rowText := by
  have noBreak : ∀ r ∈ (first :: row) :: rows, wide '\n' ∉ rowText r := by
    intro r isRow member
    rcases mem_rowText member with space | quote | escape | ⟨argument, among, inside⟩
    · exact absurd space (by decide)
    · exact absurd quote (by decide)
    · exact absurd escape (by decide)
    · exact clean r isRow argument among inside
  obtain ⟨here, others⟩ := List.forall_mem_cons.mp noBreak
  have parts : (responseText marked ((first :: row) :: rows)).splitOn (wide '\n') =
      ((if marked then byteOrderMark else []) ++ rowText (first :: row)) :: rows.map rowText := by
    unfold responseText
    rw [List.map_cons, append_intercalate]
    refine List.splitOn_intercalate _ (List.forall_mem_cons.mpr ⟨fun member => ?_, ?_⟩)
      (List.cons_ne_nil _ _)
    · rcases List.mem_append.mp member with mark | inside
      · cases marked
        · cases mark
        · exact absurd mark (by decide)
      · exact here inside
    · intro text isText
      obtain ⟨r, isRow, rfl⟩ := List.mem_map.mp isText
      exact others r isRow
  unfold argLines
  rw [parts]
  dsimp only
  rcases List.eq_nil_or_concat' rows with rfl | ⟨front, last, rfl⟩
  · refine ⟨[], rfl, if_neg fun empty => ?_⟩
    have nothing := List.append_eq_nil_iff.mp (Option.some.inj empty)
    exact List.cons_ne_nil first row (rowText_eq_nil.mp nothing.2)
  · rw [List.map_append, List.map_singleton, ← List.cons_append, List.getLast?_concat,
      List.dropLast_concat]
    by_cases empty : last = []
    · refine ⟨front, by rw [empty]; simp, if_pos ?_⟩
      rw [rowText_eq_nil.mpr empty]
    · refine ⟨front ++ [last], rfl, (if_neg fun same => ?_).trans ?_⟩
      · exact empty (rowText_eq_nil.mp (Option.some.inj same))
      · rw [List.map_append, List.map_singleton]
        rfl

/-! ### The first argument -/

/-- A loop without a quote writes the argument as it is, but for backslashes at its end. -/
theorem quoteLoop_eq_iff {argument : WString} (noQuote : wide '"' ∉ argument) (n : Nat) :
    quoteLoop argument n = List.replicate n (wide '\\') ++ argument ↔
      (List.replicate n (wide '\\') ++ argument).getLast? ≠ some (wide '\\') := by
  induction argument generalizing n with
  | nil =>
    rw [quoteLoop, List.append_nil]
    cases n with
    | zero => simp
    | succ n =>
      refine iff_of_false (fun same => ?_) (by simp [List.replicate_succ'])
      have lengths := congrArg List.length same
      rw [List.length_replicate, List.length_replicate] at lengths
      omega
  | cons c rest ih =>
    obtain ⟨notQuote, noQuote⟩ := List.ne_and_not_mem_of_not_mem_cons noQuote
    unfold quoteLoop
    by_cases isEscape : c = wide '\\'
    · rw [if_pos isEscape, isEscape, List.append_cons, ← List.replicate_succ']
      exact ih noQuote (n + 1)
    · rw [if_neg isEscape, if_neg (Ne.symm notQuote), List.append_cancel_left_eq,
        List.cons.injEq, eq_self, true_and, List.getLast?_append]
      have plain := ih noQuote 0
      rw [List.replicate_zero, List.nil_append] at plain
      rw [plain]
      cases rest with
      | nil => simpa using isEscape
      | cons d rest => simp

/-- **The argument that comes first**, read as the name of a program, with what is after it. -/
theorem program_quoteArgument {first rest : WString}
    (blank : ∀ c ∈ rest.head?, argumentMarks.blank c = true) :
    (Unquoted first ∨ Unescaped first →
        argumentMarks.program (quoteArgument first ++ rest) = (first, rest)) ∧
      (¬ (Unquoted first ∨ Unescaped first) →
        (argumentMarks.program (quoteArgument first ++ rest)).1 ≠ first) := by
  by_cases unquoted : Unquoted first
  · refine ⟨fun _ => ?_, fun missing => absurd (Or.inl unquoted) missing⟩
    rw [quoteArgument_unquoted unquoted]
    refine QuoteMarks.program_plain unquoted.1 (fun c member => ?_) blank
    have absent := unquoted.2 c member
    simp only [needsQuotes, List.mem_cons, List.not_mem_nil, or_false, not_or] at absent
    obtain ⟨notSpace, notTab, -, -, notQuote⟩ := absent
    refine ⟨notQuote, ?_⟩
    show (decide (c = wide ' ') || decide (c = wide '\t')) = false
    rw [decide_eq_false notSpace, decide_eq_false notTab]
    rfl
  rw [quoteArgument_quoted unquoted, List.cons_append, List.append_assoc, List.singleton_append]
  by_cases noQuote : wide '"' ∈ first
  · refine ⟨fun safe => ?_, fun _ same => ?_⟩
    · exact absurd noQuote (safe.resolve_left unquoted).1
    · have absent : wide '"' ∉ (argumentMarks.program
          (wide '"' :: (quoteLoop first 0 ++ wide '"' :: rest))).1 :=
        QuoteMarks.quote_notMem_program _
      rw [same] at absent
      exact absent noQuote
  · have body : wide '"' ∉ quoteLoop first 0 := fun member =>
      (mem_quoteLoop member).elim (fun escape => absurd escape (by decide)) noQuote
    have name : argumentMarks.program (wide '"' :: (quoteLoop first 0 ++ wide '"' :: rest)) =
        (quoteLoop first 0, rest) := QuoteMarks.program_quoted body rest
    have loop := quoteLoop_eq_iff noQuote 0
    rw [List.replicate_zero, List.nil_append] at loop
    rw [name]
    refine ⟨fun safe => ?_, fun other same => ?_⟩
    · rw [loop.mpr (safe.resolve_left unquoted).2]
    · exact other (Or.inr ⟨noQuote, loop.mp same⟩)

/-! ### The file -/

section File

variable {first : WString} {row : List WString} {kept rows : List (List WString)}

/-- What is after the first argument on the command line. -/
def afterFirst (row : List WString) (kept : List (List WString)) : WString :=
  (row.map quoteArgument).flatMap (wide ' ' :: ·) ++ (kept.map rowText).flatMap (wide ' ' :: ·)

theorem blank_afterFirst (row : List WString) (kept : List (List WString)) :
    ∀ c ∈ (afterFirst row kept).head?, argumentMarks.blank c = true := by
  unfold afterFirst
  cases row with
  | cons second row =>
    rintro c ⟨⟩
    rfl
  | nil =>
    cases kept with
    | cons second kept =>
      rintro c ⟨⟩
      rfl
    | nil =>
      rintro c ⟨⟩

theorem blank_space : argumentMarks.blank (wide ' ') = true := by decide

/-- Quoted arguments after a text. -/
theorem readsAll_quoted {text : WString} {arguments : List WString}
    (before : argumentMarks.ReadsAll text arguments) (row : List WString) :
    argumentMarks.ReadsAll (text ++ (row.map quoteArgument).flatMap (wide ' ' :: ·))
      (arguments ++ row) := by
  have each : List.Forall₂ argumentMarks.ReadsAll (row.map quoteArgument) (row.map ([·])) := by
    rw [List.forall₂_map_left_iff, List.forall₂_map_right_iff]
    exact List.forall₂_same.mpr fun argument _ => (reads_quoteArgument argument).all
  have all := before.flatMap blank_space each
  rwa [← List.flatMap_def, List.flatMap_singleton'] at all

theorem readsAll_rowText (row : List WString) : argumentMarks.ReadsAll (rowText row) row := by
  cases row with
  | nil => exact QuoteMarks.readsAll_nil
  | cons first row =>
    unfold rowText
    rw [List.map_cons, join_cons_eq]
    exact readsAll_quoted (reads_quoteArgument first).all row

/-- **It is read as the other arguments.** -/
theorem read_afterFirst (row : List WString) (kept : List (List WString)) :
    argumentMarks.read (afterFirst row kept) = row ++ kept.flatten := by
  have rowsRead : List.Forall₂ argumentMarks.ReadsAll (kept.map rowText) kept := by
    rw [List.forall₂_map_left_iff]
    exact List.forall₂_same.mpr fun row _ => readsAll_rowText row
  exact ((readsAll_quoted QuoteMarks.readsAll_nil row).flatMap blank_space rowsRead).read

/-- The lines together. -/
theorem responseLine_eq (mark : WString) (first : WString) (row : List WString)
    (kept : List (List WString)) :
    responseLine ((mark ++ rowText (first :: row)) :: kept.map rowText) =
      if byteOrderMark <+: mark ++ (quoteArgument first ++ afterFirst row kept) then
        (mark ++ (quoteArgument first ++ afterFirst row kept)).drop 3
      else mark ++ (quoteArgument first ++ afterFirst row kept) := by
  have whole : join [wide ' '] ((mark ++ rowText (first :: row)) :: kept.map rowText) =
      mark ++ (quoteArgument first ++ afterFirst row kept) := by
    unfold afterFirst rowText
    rw [join_cons_eq, List.map_cons, join_cons_eq]
    simp only [List.append_assoc]
  rw [← whole]
  cases kept <;> rfl

/-- The command line of NUL-free arguments has no NUL. -/
theorem nulFree_line (nulFree : ∀ argument ∈ first :: (row ++ kept.flatten), 0 ∉ argument) :
    0 ∉ quoteArgument first ++ afterFirst row kept := by
  obtain ⟨here, others⟩ := List.forall_mem_cons.mp nulFree
  intro member
  rcases List.mem_append.mp member with inFirst | later
  · exact nulFree_quoteArgument here inFirst
  rcases List.mem_append.mp later with inRow | inRows
  · obtain ⟨text, isText, inside⟩ := List.mem_flatMap.mp inRow
    obtain ⟨argument, among, rfl⟩ := List.mem_map.mp isText
    rcases List.mem_cons.mp inside with space | inside
    · exact absurd space (by decide)
    · exact nulFree_quoteArgument (others argument (List.mem_append_left _ among)) inside
  · obtain ⟨text, isText, inside⟩ := List.mem_flatMap.mp inRows
    obtain ⟨r, isRow, rfl⟩ := List.mem_map.mp isText
    rcases List.mem_cons.mp inside with space | inside
    · exact absurd space (by decide)
    rcases mem_rowText inside with space | quote | escape | ⟨argument, among, within⟩
    · exact absurd space (by decide)
    · exact absurd quote (by decide)
    · exact absurd escape (by decide)
    · have listed := List.mem_flatten.mpr ⟨r, isRow, among⟩
      exact others argument (List.mem_append_right _ listed) within

/-- The mark is no part of an argument. -/
theorem marked_first {first rest : WString}
    (blank : ∀ c ∈ rest.head?, argumentMarks.blank c = true)
    (marked : byteOrderMark <+: quoteArgument first ++ rest) : byteOrderMark <+: first := by
  by_cases unquoted : Unquoted first
  · rw [quoteArgument_unquoted unquoted] at marked
    by_cases long : byteOrderMark.length ≤ first.length
    · exact List.prefix_of_prefix_length_le marked (List.prefix_append first rest) long
    · -- what is after the argument would be in the mark
      obtain ⟨more, whole⟩ := marked
      have inside : (byteOrderMark ++ more)[first.length]? = rest.head? := by
        rw [whole, List.getElem?_append_right (le_refl _), Nat.sub_self, List.head?_eq_getElem?]
      rw [List.getElem?_append_left (not_le.mp long)] at inside
      have noBlank : ∀ c ∈ byteOrderMark, argumentMarks.blank c = false :=
        List.forall_mem_cons.mpr ⟨rfl, List.forall_mem_cons.mpr ⟨rfl,
          List.forall_mem_singleton.mpr rfl⟩⟩
      have isBlank := blank _ (inside ▸ List.getElem?_eq_getElem (not_le.mp long))
      rw [noBlank _ (List.getElem_mem _)] at isBlank
      cases isBlank
  · rw [quoteArgument_quoted unquoted] at marked
    exact absurd (List.cons_prefix_cons.mp marked).1 (by decide)

end File

/-! ### The file that is read -/

/-- **A response file is read as its arguments exactly when the first one is read as the name of a
program**: it needs no quotes, or nothing in it has to be escaped. -/
theorem responseFile_iff (modulePath : WString) {marked : Bool} {first : WString}
    {row : List WString} {rows : List (List WString)}
    (clean : ∀ r ∈ (first :: row) :: rows, ∀ argument ∈ r, 0 ∉ argument ∧ wide '\n' ∉ argument)
    (unmarked : marked = false → ¬ byteOrderMark <+: first) :
    argsFromResponseFile modulePath (responseText marked ((first :: row) :: rows)) =
        some ((first :: row) ++ rows.flatten) ↔ Unquoted first ∨ Unescaped first := by
  obtain ⟨kept, flat, lines⟩ := argLines_rows marked fun r isRow argument member =>
    (clean r isRow argument member).2
  have blank := blank_afterFirst row kept
  have cmdline : responseLine (argLines (responseText marked ((first :: row) :: rows))) =
      quoteArgument first ++ afterFirst row kept := by
    rw [lines, responseLine_eq]
    cases marked with
    | true => exact if_pos (List.prefix_append _ _)
    | false => exact if_neg fun isMark => unmarked rfl (marked_first blank isMark)
  have nulFree : 0 ∉ quoteArgument first ++ afterFirst row kept := by
    refine nulFree_line (List.forall_mem_cons.mpr ⟨?_, fun argument member => ?_⟩)
    · exact (clean _ List.mem_cons_self first List.mem_cons_self).1
    rcases List.mem_append.mp member with inRow | later
    · exact (clean _ List.mem_cons_self argument (List.mem_cons_of_mem _ inRow)).1
    · rw [flat] at later
      obtain ⟨r, isRow, inside⟩ := List.mem_flatten.mp later
      exact (clean r (List.mem_cons_of_mem _ isRow) argument inside).1
  have nonempty : quoteArgument first ++ afterFirst row kept ≠ [] := fun empty =>
    quoteArgument_ne_nil first (List.append_eq_nil_iff.mp empty).1
  have result : argsFromResponseFile modulePath (responseText marked ((first :: row) :: rows)) =
      some (argumentMarks.readCommand (quoteArgument first ++ afterFirst row kept)) := by
    unfold argsFromResponseFile commandLineToArgvW
    rw [cmdline, wcs_eq_self nulFree, if_neg nonempty, if_neg]
    rw [lines]
    exact List.cons_ne_nil _ _
  obtain ⟨safe, other⟩ := @program_quoteArgument first _ blank
  rw [result]
  constructor
  · intro read
    by_contra neither
    exact other neither (List.cons.inj (Option.some.inj read)).1
  · intro condition
    unfold QuoteMarks.readCommand
    rw [safe condition, read_afterFirst, flat]
    rfl

/-- `-c`, `a b.c` and `-DV="1"` in two lines with the mark, and a newline at the end. -/
theorem responseFile_iff_lines :
    argsFromResponseFile [] (responseText true [["-c".toList.map wide, "a b.c".toList.map wide],
        ["-DV=\"1\"".toList.map wide], []]) =
      some ([["-c".toList.map wide, "a b.c".toList.map wide],
        ["-DV=\"1\"".toList.map wide]].flatten) ↔
      Unquoted ("-c".toList.map wide) ∨ Unescaped ("-c".toList.map wide) :=
  responseFile_iff [] (by decide) (fun other => by cases other)

/-- As the first argument, `-DV="1"` is not read back. -/
example : argsFromResponseFile [] (responseText false [["-DV=\"1\"".toList.map wide]]) =
    some ["-DV=\\".toList.map wide, "1\"".toList.map wide] := by decide

end Xcalbuild.Windows
