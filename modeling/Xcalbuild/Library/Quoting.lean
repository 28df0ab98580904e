/-
**Reading a command line with quotes and escapes.**

Arguments are separated by blanks outside quotes. An escape character counts only in a run before a
quote: `2 n` of them stand for `n` escapes and the quote is a delimiter, `2 n + 1` of them stand for
`n` escapes and the quote is literal. In any other place a run of escapes stands for itself. The
reader (`step`, `read`) decides about a run when it sees what comes after it, so it keeps the length
of the run in its state.

* `foldl_escapes`, `step_delimiter`, `step_literal`, `step_char`: the reader on what a quoting
  writer puts out;
* `Reads`: a text that the reader takes as one argument; `reads_plain` is the one that needs no
  quotes;
* `read_join`: texts that are read as arguments, with a blank between them, are read as the list of
  these arguments;
* `ReadsAll`: a text that the reader takes as several arguments;
* `readCommand`: a command line with the name of a program, which is read by another rule.
-/
import Xcalbuild.Library.Text

namespace Xcalbuild.Library

/-- The characters that mean something on a command line. -/
structure QuoteMarks (α : Type) where
  quote : α
  escape : α
  blank : α → Bool
  quote_ne_escape : quote ≠ escape
  blank_quote : blank quote = false
  blank_escape : blank escape = false

namespace QuoteMarks

variable {α : Type} (marks : QuoteMarks α)

/-- Where a reader stands: inside quotes or not, after a run of escapes that nothing is decided about,
in an argument or between arguments, and with the arguments it has read. -/
structure Reader (α : Type) where
  quoted : Bool
  run : Nat
  current : Option (List α)
  done : List (List α)
  deriving DecidableEq

/-- Between two arguments. -/
def Reader.between (done : List (List α)) : Reader α := ⟨false, 0, none, done⟩

/-- The argument that is being read, when the run of escapes stands for itself. -/
def held (reader : Reader α) : Option (List α) :=
  if reader.run = 0 then reader.current
  else some (reader.current.getD [] ++ List.replicate reader.run marks.escape)

/-- What is held, in terms of the run. -/
theorem held_getD (reader : Reader α) : (marks.held reader).getD [] =
    reader.current.getD [] ++ List.replicate reader.run marks.escape := by
  unfold held
  split_ifs with absent
  · rw [absent, List.replicate_zero, List.append_nil]
  · rfl

variable [DecidableEq α]

/-- One character. -/
def step (reader : Reader α) (c : α) : Reader α :=
  if c = marks.escape then { reader with run := reader.run + 1 }
  else if c = marks.quote then
    let argument := reader.current.getD [] ++ List.replicate (reader.run / 2) marks.escape
    if reader.run % 2 = 0 then
      { reader with quoted := !reader.quoted, run := 0, current := some argument }
    else { reader with run := 0, current := some (argument ++ [marks.quote]) }
  else if marks.blank c ∧ reader.quoted = false then
    .between (reader.done ++ (marks.held reader).toList)
  else { reader with run := 0, current := some ((marks.held reader).getD [] ++ [c]) }

/-- The arguments at the end of the line. -/
def finish (reader : Reader α) : List (List α) := reader.done ++ (marks.held reader).toList

/-- The arguments of a command line. -/
def read (line : List α) : List (List α) := marks.finish (line.foldl marks.step (.between []))

/-! ### The reader on runs, quotes and other characters -/

variable {marks}

/-- A run of escapes is counted. -/
theorem foldl_escapes (reader : Reader α) (n : Nat) :
    (List.replicate n marks.escape).foldl marks.step reader =
      { reader with run := reader.run + n } := by
  induction n generalizing reader with
  | zero => rfl
  | succ n ih =>
    rw [List.replicate_succ, List.foldl_cons, ih]
    have first : marks.step reader marks.escape = { reader with run := reader.run + 1 } :=
      if_pos rfl
    rw [first, Nat.add_right_comm]
    rfl

theorem step_quote (reader : Reader α) : marks.step reader marks.quote =
    if reader.run % 2 = 0 then
      { reader with
        quoted := !reader.quoted
        run := 0
        current := some (reader.current.getD [] ++ List.replicate (reader.run / 2) marks.escape) }
    else { reader with
      run := 0
      current := some (reader.current.getD [] ++ List.replicate (reader.run / 2) marks.escape ++
        [marks.quote]) } := by
  unfold step
  rw [if_neg marks.quote_ne_escape, if_pos rfl]

/-- `2 n` escapes and a quote: `n` escapes, and the quotes begin or end. -/
theorem step_delimiter {reader : Reader α} {n : Nat} (even : reader.run = n * 2) :
    marks.step reader marks.quote = { reader with
      quoted := !reader.quoted
      run := 0
      current := some (reader.current.getD [] ++ List.replicate n marks.escape) } := by
  rw [step_quote, even, if_pos (Nat.mul_mod_left n 2), Nat.mul_div_cancel n (by omega)]

/-- `2 n + 1` escapes and a quote: `n` escapes and a literal quote. -/
theorem step_literal {reader : Reader α} {n : Nat} (odd : reader.run = n * 2 + 1) :
    marks.step reader marks.quote = { reader with
      run := 0
      current := some (reader.current.getD [] ++ List.replicate n marks.escape ++
        [marks.quote]) } := by
  rw [step_quote, odd, if_neg (by omega), show (n * 2 + 1) / 2 = n by omega]

/-- Another character is taken as it is, after the run before it. -/
theorem step_char {reader : Reader α} {c : α} (notEscape : c ≠ marks.escape)
    (notQuote : c ≠ marks.quote) (inside : marks.blank c = false ∨ reader.quoted = true) :
    marks.step reader c = { reader with
      run := 0
      current := some ((marks.held reader).getD [] ++ [c]) } := by
  unfold step
  rw [if_neg notEscape, if_neg notQuote, if_neg]
  rintro ⟨blank, outside⟩
  rcases inside with other | within
  · rw [blank] at other
    cases other
  · rw [outside] at within
    cases within

/-- A blank outside quotes ends the argument. -/
theorem step_blank {reader : Reader α} {c : α} (blank : marks.blank c = true)
    (outside : reader.quoted = false) :
    marks.step reader c = .between (reader.done ++ (marks.held reader).toList) := by
  have notEscape : c ≠ marks.escape := by
    rintro rfl
    rw [marks.blank_escape] at blank
    cases blank
  have notQuote : c ≠ marks.quote := by
    rintro rfl
    rw [marks.blank_quote] at blank
    cases blank
  unfold step
  rw [if_neg notEscape, if_neg notQuote, if_pos ⟨blank, outside⟩]

/-! ### Texts that are read as one argument -/

variable (marks)

/-- **The reader takes the text as the argument**: between two arguments, it reads the text and holds
the argument, outside quotes. -/
def Reads (text argument : List α) : Prop :=
  ∀ done, (text.foldl marks.step (.between done)).quoted = false ∧
    marks.held (text.foldl marks.step (.between done)) = some argument ∧
      (text.foldl marks.step (.between done)).done = done

variable {marks}

/-- Outside quotes, characters that are neither quotes nor blanks are added to what is held. -/
theorem foldl_plain {text : List α} (plain : ∀ c ∈ text, c ≠ marks.quote ∧ marks.blank c = false)
    {reader : Reader α} (outside : reader.quoted = false) :
    (text.foldl marks.step reader).quoted = false ∧
      (text.foldl marks.step reader).done = reader.done ∧
        (marks.held (text.foldl marks.step reader)).getD [] =
          (marks.held reader).getD [] ++ text ∧
            (text ≠ [] → (marks.held (text.foldl marks.step reader)).isSome) := by
  induction text generalizing reader with
  | nil => exact ⟨outside, rfl, (List.append_nil _).symm, fun other => absurd rfl other⟩
  | cons c text ih =>
    obtain ⟨notQuote, notBlank⟩ := plain c List.mem_cons_self
    have held : (marks.step reader c).quoted = false ∧ (marks.step reader c).done = reader.done ∧
        (marks.held (marks.step reader c)).getD [] = (marks.held reader).getD [] ++ [c] ∧
          (marks.held (marks.step reader c)).isSome := by
      by_cases isEscape : c = marks.escape
      · subst isEscape
        have counted : marks.step reader marks.escape = { reader with run := reader.run + 1 } :=
          if_pos rfl
        rw [counted, held_getD, held_getD, List.replicate_succ', List.append_assoc]
        exact ⟨outside, rfl, rfl, rfl⟩
      · rw [step_char isEscape notQuote (Or.inl notBlank)]
        exact ⟨outside, rfl, rfl, rfl⟩
    obtain ⟨outside', done, holds, isSome⟩ := held
    obtain ⟨quoted, kept, more, later⟩ := @ih
      (fun d member => plain d (List.mem_cons_of_mem _ member)) (marks.step reader c) outside'
    rw [List.foldl_cons]
    refine ⟨quoted, kept.trans done, ?_, fun _ => ?_⟩
    · rw [more, holds, List.append_assoc]
      rfl
    · by_cases last : text = []
      · subst last
        exact isSome
      · exact later last

/-- **A text without quotes and blanks** is read as itself, unless it is empty. -/
theorem reads_plain {text : List α} (nonempty : text ≠ [])
    (plain : ∀ c ∈ text, c ≠ marks.quote ∧ marks.blank c = false) : marks.Reads text text := by
  intro done
  obtain ⟨quoted, kept, holds, isSome⟩ := @foldl_plain α marks _ text plain (.between done) rfl
  refine ⟨quoted, ?_, kept⟩
  obtain ⟨argument, same⟩ := Option.isSome_iff_exists.mp (isSome nonempty)
  rw [same] at holds ⊢
  exact congrArg some holds

/-- **Texts with a blank between them** are read one after the other. -/
theorem read_join {blank : α} (isBlank : marks.blank blank = true) {texts arguments : List (List α)}
    (reads : List.Forall₂ marks.Reads texts arguments) :
    marks.read (join [blank] texts) = arguments := by
  have generally : ∀ done, marks.finish ((join [blank] texts).foldl marks.step (.between done)) =
      done ++ arguments := by
    induction reads with
    | nil => exact fun done => rfl
    | @cons text argument texts arguments first rest ih =>
      intro done
      obtain ⟨outside, holds, kept⟩ := first done
      cases rest with
      | nil =>
        show marks.finish (text.foldl marks.step (.between done)) = _
        rw [finish, kept, holds]
        rfl
      | cons second rest =>
        rw [join, List.append_assoc, List.foldl_append, List.singleton_append, List.foldl_cons,
          step_blank isBlank outside, kept, holds, ih]
        exact List.append_assoc _ _ _
  exact generally []

/-! ### Texts that are read as several arguments -/

variable (marks)

/-- **The reader takes the text as the arguments**, and is outside quotes then. -/
def ReadsAll (text : List α) (arguments : List (List α)) : Prop :=
  ∀ done, (text.foldl marks.step (.between done)).quoted = false ∧
    marks.finish (text.foldl marks.step (.between done)) = done ++ arguments

variable {marks}

theorem readsAll_nil : marks.ReadsAll [] [] := fun _ => ⟨rfl, rfl⟩

theorem Reads.all {text argument : List α} (reads : marks.Reads text argument) :
    marks.ReadsAll text [argument] := by
  intro done
  obtain ⟨outside, holds, kept⟩ := reads done
  refine ⟨outside, ?_⟩
  rw [finish, kept, holds]
  rfl

section Blank

variable {blank : α} (isBlank : marks.blank blank = true)

include isBlank

theorem ReadsAll.append {text text' : List α} {arguments arguments' : List (List α)}
    (first : marks.ReadsAll text arguments) (second : marks.ReadsAll text' arguments') :
    marks.ReadsAll (text ++ blank :: text') (arguments ++ arguments') := by
  intro done
  obtain ⟨outside, ends⟩ := first done
  have between : marks.step (text.foldl marks.step (.between done)) blank =
      .between (done ++ arguments) := by
    rw [step_blank isBlank outside]
    exact congrArg Reader.between ends
  rw [List.foldl_append, List.foldl_cons, between, ← List.append_assoc]
  exact second (done ++ arguments)

/-- Texts after a blank each are read after another text. -/
theorem ReadsAll.flatMap {texts : List (List α)} {each : List (List (List α))}
    (all : List.Forall₂ marks.ReadsAll texts each) {text : List α} {arguments : List (List α)}
    (first : marks.ReadsAll text arguments) :
    marks.ReadsAll (text ++ texts.flatMap (blank :: ·)) (arguments ++ each.flatten) := by
  induction all generalizing text arguments with
  | nil => rwa [List.flatMap_nil, List.flatten_nil, List.append_nil, List.append_nil]
  | cons here _ ih =>
    rw [List.flatMap_cons, List.flatten_cons, ← List.append_assoc, ← List.append_assoc]
    exact ih (first.append isBlank here)

end Blank

theorem ReadsAll.read {text : List α} {arguments : List (List α)}
    (reads : marks.ReadsAll text arguments) : marks.read text = arguments := (reads []).2

/-! ### The name of a program -/

variable (marks)

/-- The name of a program at the start of a command line, and what is after it. If it begins with a
quote, the next quote ends it, or else the first blank. Escapes mean nothing in it. -/
def program (line : List α) : List α × List α :=
  match line with
  | [] => ([], [])
  | c :: rest =>
      if c = marks.quote then
        (rest.takeWhile (· ≠ marks.quote), (rest.dropWhile (· ≠ marks.quote)).tail)
      else ((c :: rest).takeWhile (!marks.blank ·), (c :: rest).dropWhile (!marks.blank ·))

/-- The parts of a command line, the name of the program first. -/
def readCommand (line : List α) : List (List α) :=
  (marks.program line).1 :: marks.read (marks.program line).2

variable {marks}


theorem program_plain {name line : List α} (nonempty : name ≠ [])
    (plain : ∀ c ∈ name, c ≠ marks.quote ∧ marks.blank c = false)
    (blank : ∀ c ∈ line.head?, marks.blank c = true) : marks.program (name ++ line) = (name, line) := by
  have all : ∀ c ∈ name, (!marks.blank c) = true := fun c member => by
    rw [(plain c member).2]
    rfl
  have rest : line.takeWhile (!marks.blank ·) = [] ∧ line.dropWhile (!marks.blank ·) = line := by
    cases line with
    | nil => exact ⟨rfl, rfl⟩
    | cons c line =>
      have ends : ¬ (!marks.blank c) = true := by
        rw [blank c rfl]
        exact Bool.false_ne_true
      exact ⟨List.takeWhile_cons_of_neg ends, List.dropWhile_cons_of_neg ends⟩
  obtain ⟨c, name, rfl⟩ := List.exists_cons_of_ne_nil nonempty
  rw [List.cons_append, program, if_neg (plain c List.mem_cons_self).1, ← List.cons_append,
    List.takeWhile_append_of_pos all, List.dropWhile_append_of_pos all, rest.1, rest.2,
    List.append_nil]

theorem program_quoted {name : List α} (noQuote : marks.quote ∉ name) (line : List α) :
    marks.program (marks.quote :: (name ++ marks.quote :: line)) = (name, line) := by
  have all : ∀ c ∈ name, decide (c ≠ marks.quote) = true := fun c member =>
    decide_eq_true fun same => noQuote (same ▸ member)
  rw [program, if_pos rfl, List.takeWhile_append_of_pos all, List.dropWhile_append_of_pos all]
  simp

/-- A name in quotes has no quote. -/
theorem quote_notMem_program (line : List α) :
    marks.quote ∉ (marks.program (marks.quote :: line)).1 := by
  rw [program, if_pos rfl]
  intro member
  have other := List.mem_takeWhile_imp member
  simp at other

end QuoteMarks

end Xcalbuild.Library
