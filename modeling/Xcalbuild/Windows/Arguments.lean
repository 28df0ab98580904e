/-
**Command lines of the Windows tracer.**

`create_arg_str` joins the arguments of a process to the command line that `CreateProcessW` gets,
and the process splits it again by the rules of `CommandLineToArgvW`. A wide string is a list of
UTF-16 code units without NUL (`wcs`); `num_backslashes` is counted without the wrap of `unsigned`,
which no command line is long enough for.

* `reads_quoteArgument`: the quoted argument is read as the argument;
* `commandLine_roundTrip`: so the command line is split into the arguments it was made from.
-/
import Mathlib.Data.List.Forall2
import Xcalbuild.Library.Quoting

namespace Xcalbuild.Windows

open Library

/-- `wchar_t` -/
abbrev WChar := UInt16

abbrev WString := List WChar

/-- A wide character literal. -/
def wide (c : Char) : WChar := c.toNat.toUInt16

/-- What a C function sees of a wide string: the characters before the first NUL. -/
def wcs (s : WString) : WString := s.takeWhile (· ≠ 0)

/-! ### Quoting -/

/-- The characters that `quote_argument` looks for. -/
def needsQuotes : WString := [wide ' ', wide '\t', wide '\n', wide '\x0b', wide '"']

/-- The loop of `quote_argument`, with the backslashes that were counted before the rest of the
argument. -/
def quoteLoop : WString → Nat → WString
  | [], numBackslashes => List.replicate (numBackslashes * 2) (wide '\\')
  | c :: rest, numBackslashes =>
      if c = wide '\\' then quoteLoop rest (numBackslashes + 1)
      else if c = wide '"' then
        List.replicate (numBackslashes * 2 + 1) (wide '\\') ++ c :: quoteLoop rest 0
      else List.replicate numBackslashes (wide '\\') ++ c :: quoteLoop rest 0

def quoteArgument (argument : WString) : WString :=
  if argument ≠ [] ∧ argument.all (fun c => decide (c ∉ needsQuotes)) then argument
  else wide '"' :: quoteLoop argument 0 ++ [wide '"']

def createArgStr (originalArgs : List WString) : WString :=
  wcs (join [wide ' '] (originalArgs.map fun arg => quoteArgument (wcs arg)))

/-! ### The argument rules -/

/-- The characters of the Microsoft argument rules. -/
def argumentMarks : QuoteMarks WChar where
  quote := wide '"'
  escape := wide '\\'
  blank c := c = wide ' ' || c = wide '\t'
  quote_ne_escape := by decide
  blank_quote := by decide
  blank_escape := by decide

/-- The arguments after the program name, as `CommandLineToArgvW` splits them. -/
def commandLineToArgv (line : WString) : List WString := argumentMarks.read line

/-! ### Reading a quoted argument -/

/-- The reader inside quotes, after `front` of the argument and `n` backslashes more. -/
def inside (done : List WString) (front : WString) (n : Nat) : QuoteMarks.Reader WChar :=
  ⟨true, n, some front, done⟩

theorem foldl_backslashes (done : List WString) (front : WString) (n : Nat) :
    (List.replicate n (wide '\\')).foldl argumentMarks.step (inside done front 0) =
      inside done front n := by
  have counted := @QuoteMarks.foldl_escapes _ argumentMarks _ (inside done front 0) n
  rw [show (inside done front 0).run + n = n from Nat.zero_add n] at counted
  exact counted

/-- **The loop of `quote_argument` is undone by the reader.** The backslashes that the loop has counted
are not written yet, so the reader has not seen them. -/
theorem foldl_quoteLoop (argument : WString) (n : Nat) (done : List WString) (front : WString) :
    (quoteLoop argument n ++ [wide '"']).foldl argumentMarks.step (inside done front 0) =
      ⟨false, 0, some (front ++ (List.replicate n (wide '\\') ++ argument)), done⟩ := by
  induction argument generalizing n front with
  | nil =>
    rw [quoteLoop, List.foldl_append, foldl_backslashes, List.append_nil]
    exact @QuoteMarks.step_delimiter _ argumentMarks _ (inside done front (n * 2)) n rfl
  | cons c rest ih =>
    unfold quoteLoop
    split_ifs with isEscape isQuote
    · rw [ih, isEscape, List.replicate_succ', List.append_assoc, List.singleton_append]
    · have literal : argumentMarks.step (inside done front (n * 2 + 1)) (wide '"') =
          inside done (front ++ List.replicate n (wide '\\') ++ [wide '"']) 0 :=
        @QuoteMarks.step_literal _ argumentMarks _ (inside done front (n * 2 + 1)) n rfl
      rw [List.append_assoc, List.foldl_append, foldl_backslashes, List.cons_append,
        List.foldl_cons, isQuote, literal, ih]
      simp
    · have plain : argumentMarks.step (inside done front n) c =
          inside done (front ++ List.replicate n (wide '\\') ++ [c]) 0 := by
        rw [@QuoteMarks.step_char _ argumentMarks _ (inside done front n) c isEscape isQuote
          (Or.inr rfl), QuoteMarks.held_getD]
        rfl
      rw [List.append_assoc, List.foldl_append, foldl_backslashes, List.cons_append,
        List.foldl_cons, plain, ih]
      simp

/-- **A quoted argument is read as the argument.** -/
theorem reads_quoteArgument (argument : WString) :
    argumentMarks.Reads (quoteArgument argument) argument := by
  unfold quoteArgument
  split_ifs with plain
  · obtain ⟨nonempty, all⟩ := plain
    refine QuoteMarks.reads_plain nonempty fun c member => ?_
    have absent := of_decide_eq_true (List.all_eq_true.mp all c member)
    simp only [needsQuotes, List.mem_cons, List.not_mem_nil, or_false, not_or] at absent
    obtain ⟨notSpace, notTab, -, -, notQuote⟩ := absent
    refine ⟨notQuote, ?_⟩
    show (decide (c = wide ' ') || decide (c = wide '\t')) = false
    rw [decide_eq_false notSpace, decide_eq_false notTab]
    rfl
  · intro done
    have opened : argumentMarks.step (.between done) (wide '"') = inside done [] 0 :=
      @QuoteMarks.step_delimiter _ argumentMarks _ (.between done) 0 rfl
    rw [List.cons_append, List.foldl_cons, opened, foldl_quoteLoop]
    exact ⟨rfl, rfl, rfl⟩

/-! ### The command line -/

/-- Quoting adds backslashes and quotes only. -/
theorem mem_quoteLoop {argument : WString} {n : Nat} {c : WChar} (member : c ∈ quoteLoop argument n) :
    c = wide '\\' ∨ c ∈ argument := by
  induction argument generalizing n with
  | nil => exact Or.inl (List.eq_of_mem_replicate member)
  | cons d rest ih =>
    unfold quoteLoop at member
    split_ifs at member with isEscape isQuote
    · exact (ih member).imp_right (List.mem_cons_of_mem d)
    · rcases List.mem_append.mp member with escapes | later
      · exact Or.inl (List.eq_of_mem_replicate escapes)
      rcases List.mem_cons.mp later with same | later
      · exact Or.inr (same ▸ List.mem_cons_self)
      · exact (ih later).imp_right (List.mem_cons_of_mem d)
    · rcases List.mem_append.mp member with escapes | later
      · exact Or.inl (List.eq_of_mem_replicate escapes)
      rcases List.mem_cons.mp later with same | later
      · exact Or.inr (same ▸ List.mem_cons_self)
      · exact (ih later).imp_right (List.mem_cons_of_mem d)

theorem nulFree_quoteArgument {argument : WString} (nulFree : 0 ∉ argument) :
    0 ∉ quoteArgument argument := by
  intro member
  unfold quoteArgument at member
  split_ifs at member
  · exact nulFree member
  · simp only [List.cons_append, List.mem_cons, List.mem_append, List.not_mem_nil, or_false] at member
    rcases member with quote | body | quote
    · exact absurd quote (by decide)
    · rcases mem_quoteLoop body with escape | inArgument
      · exact absurd escape (by decide)
      · exact nulFree inArgument
    · exact absurd quote (by decide)

theorem wcs_eq_self {s : WString} (nulFree : 0 ∉ s) : wcs s = s := by
  refine List.takeWhile_eq_self_iff.mpr fun c member => decide_eq_true ?_
  rintro rfl
  exact nulFree member

/-- The command line of NUL-free arguments is not cut. -/
theorem createArgStr_eq {args : List WString} (nulFree : ∀ arg ∈ args, 0 ∉ arg) :
    createArgStr args = join [wide ' '] (args.map quoteArgument) := by
  have quoted : args.map (fun arg => quoteArgument (wcs arg)) = args.map quoteArgument :=
    List.map_congr_left fun arg member => by rw [wcs_eq_self (nulFree arg member)]
  unfold createArgStr
  rw [quoted]
  refine wcs_eq_self fun member => ?_
  rcases mem_join member with space | ⟨part, among, within⟩
  · exact absurd space (by decide)
  · obtain ⟨arg, isArg, rfl⟩ := List.mem_map.mp among
    exact nulFree_quoteArgument (nulFree arg isArg) within

/-- **Round trip.** The command line of NUL-free arguments is split into these arguments. -/
theorem commandLine_roundTrip (args : List WString) (nulFree : ∀ arg ∈ args, 0 ∉ arg) :
    commandLineToArgv (createArgStr args) = args := by
  rw [createArgStr_eq nulFree]
  apply QuoteMarks.read_join (by decide)
  rw [List.forall₂_map_left_iff]
  exact List.forall₂_same.mpr fun arg _ => reads_quoteArgument arg

/-- The arguments `with space`, `\ `, the empty one, `a"b\` and `c\\`. -/
theorem commandLine_roundTrip_five :
    commandLineToArgv (createArgStr (["with space", "\\ ", "", "a\"b\\", "c\\\\"].map fun arg =>
        arg.toList.map wide)) =
      ["with space", "\\ ", "", "a\"b\\", "c\\\\"].map fun arg => arg.toList.map wide :=
  commandLine_roundTrip _ (by decide)

example : createArgStr (["arg 1", "arg2"].map fun arg => arg.toList.map wide) =
    "\"arg 1\" arg2".toList.map wide := by decide

end Xcalbuild.Windows
