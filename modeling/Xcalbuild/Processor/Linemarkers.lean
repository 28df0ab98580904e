/-
**The files that the preprocessor output names.**

A line marker `# linenum "filename" flags` that starts a new file has `1` as its only flag. The loop of
`handle_compile` takes a line for such a marker if it starts with `#`, ends with `1` and has two quotes,
and it takes what is between the quotes as it stands.

* `startedFile_marker`: on a line marker the flags are read right, but a name with a quote is lost, and
  one with a backslash keeps the escapes;
* `startedFile_eq_some`: any other directive of this form is taken for a marker;
* **`deps_iff`**: the dependencies are the started files exactly when the names that are lost or wrong
  do no harm (`Harmless`), as when there are none (`harmless_of_plain`).
-/
import Mathlib.Data.List.Count
import Xcalbuild.Processor.Compile

namespace Xcalbuild.Processor

open Library
open Profile (Host)

/-! ### The lines of the output -/

/-- A backslash before every quote and every backslash. -/
def escape (s : Str) : Str := s.flatMap fun c => if c = '"' ∨ c = '\\' then ['\\', c] else [c]

/-- A line marker of the GNU preprocessor. -/
structure Linemarker where
  number : Nat
  file : Str
  flags : List Nat
  number_pos : 0 < number
  flags_known : ∀ flag ∈ flags, 1 ≤ flag ∧ flag ≤ 4
  flags_increase : flags.Pairwise (· < ·)

namespace Linemarker

/-- The flags, each after a blank. -/
def flagsText (flags : List Nat) : Str := flags.flatMap fun flag => ' ' :: decimal flag

def text (marker : Linemarker) : Str :=
  "# ".toList ++ decimal marker.number ++ " ".toList ++
    '"' :: (escape marker.file ++ '"' :: flagsText marker.flags)

/-- The marker is for the start of a file that is not built in. -/
def Starts (marker : Linemarker) : Prop := marker.flags = [1] ∧ marker.file.head? ≠ some '<'

instance (marker : Linemarker) : Decidable marker.Starts := inferInstanceAs (Decidable (_ ∧ _))

end Linemarker

/-- A line of the preprocessor output. -/
inductive PpLine where
  /-- Source text. -/
  | source (text : Str) (notDirective : text.head? ≠ some '#')
  /-- A directive, such as a pragma. -/
  | directive (text : Str) (isDirective : text.head? = some '#')
      (notMarker : ∀ marker : Linemarker, text ≠ marker.text)
  | marker (marker : Linemarker)

namespace PpLine

def text : PpLine → Str
  | .source text _ => text
  | .directive text _ _ => text
  | .marker written => written.text

def isDirective : PpLine → Bool
  | .directive _ _ _ => true
  | _ => false

end PpLine

/-! ### What is read from a line -/

/-- The line has a name between its only two quotes, and `1` at its end. -/
def Quotes (line name : Str) : Prop :=
  line.head? = some '#' ∧ line.getLast? = some '1' ∧ name.head? ≠ some '<' ∧
    ∃ before after, line = before ++ '"' :: (name ++ '"' :: after) ∧
      '"' ∉ before ∧ '"' ∉ name ∧ '"' ∉ after

/-- **What the loop takes for the start of a file.** -/
theorem startedFile_eq_some {line name : Str} : startedFile line = some name ↔ Quotes line name := by
  unfold startedFile Quotes
  by_cases formed : line.head? = some '#' ∧ line.getLast? = some '1'
  · rw [if_pos formed]
    constructor
    · intro found
      split at found
      · rename_i before name' after parts
        split_ifs at found with builtIn
        cases found
        obtain ⟨same, absent⟩ := split_eq_triple.mp parts
        exact ⟨formed.1, formed.2, builtIn, before, after, same, absent⟩
      · cases found
    · rintro ⟨-, -, builtIn, before, after, same, absent⟩
      rw [split_eq_triple.mpr ⟨same, absent⟩]
      exact if_neg builtIn
  · rw [if_neg formed]
    refine iff_of_false (fun same => nomatch same) ?_
    rintro ⟨first, last, -⟩
    exact formed ⟨first, last⟩

section Escape

theorem quote_mem_escape {s : Str} : '"' ∈ escape s ↔ '"' ∈ s := by
  unfold escape
  rw [List.mem_flatMap]
  constructor
  · rintro ⟨c, inside, member⟩
    by_cases escaped : c = '"' ∨ c = '\\'
    · rw [if_pos escaped] at member
      simp only [List.mem_cons, List.not_mem_nil, or_false] at member
      rcases member with absent | rfl
      · exact absurd absent (by decide)
      · exact inside
    · rw [if_neg escaped, List.mem_singleton] at member
      exact member ▸ inside
  · exact fun inside => ⟨'"', inside, by simp⟩

theorem escape_of_plain {s : Str} (noQuote : '"' ∉ s) (noBackslash : '\\' ∉ s) : escape s = s := by
  induction s with
  | nil => rfl
  | cons c rest ih =>
    rw [List.mem_cons, not_or] at noQuote noBackslash
    have plain : ¬ (c = '"' ∨ c = '\\') := by
      rintro (rfl | rfl)
      · exact noQuote.1 rfl
      · exact noBackslash.1 rfl
    unfold escape
    rw [List.flatMap_cons, if_neg plain]
    exact congrArg (c :: ·) (ih noQuote.2 noBackslash.2)

theorem head?_escape {s : Str} : (escape s).head? = some '<' ↔ s.head? = some '<' := by
  cases s with
  | nil => exact Iff.rfl
  | cons c rest =>
    unfold escape
    rw [List.flatMap_cons, List.head?_cons, Option.some_inj]
    by_cases escaped : c = '"' ∨ c = '\\'
    · rw [if_pos escaped]
      refine iff_of_false (by simp) ?_
      rintro rfl
      exact absurd escaped (by decide)
    · rw [if_neg escaped]
      simp

end Escape

namespace Linemarker

/-- A flag is one digit. -/
theorem decimal_flag {flag : Nat} (known : 1 ≤ flag ∧ flag ≤ 4) :
    decimal flag = [Nat.digitChar flag] ∧ (Nat.digitChar flag = '1' ↔ flag = 1) := by
  have digits : flag = 1 ∨ flag = 2 ∨ flag = 3 ∨ flag = 4 := by omega
  rcases digits with rfl | rfl | rfl | rfl
  · decide
  · decide
  · decide
  · decide

theorem flagsText_concat (flags : List Nat) (flag : Nat) :
    flagsText (flags ++ [flag]) = flagsText flags ++ ' ' :: decimal flag := by
  unfold flagsText
  rw [List.flatMap_append, List.flatMap_singleton]

/-- **The last character of a line marker** is `1` exactly when `1` is its only flag. -/
theorem getLast?_text (marker : Linemarker) :
    marker.text.getLast? = some '1' ↔ marker.flags = [1] := by
  have ends : ∃ before, marker.text = before ++ '"' :: flagsText marker.flags :=
    ⟨"# ".toList ++ decimal marker.number ++ " ".toList ++ '"' :: escape marker.file, by simp [text]⟩
  obtain ⟨before, ends⟩ := ends
  rw [ends]
  obtain absent | ⟨init, last, flags⟩ := List.eq_nil_or_concat marker.flags
  · rw [absent]
    refine iff_of_false ?_ (by simp)
    show (before ++ ['"']).getLast? ≠ _
    rw [List.getLast?_concat]
    decide
  · have increase := marker.flags_increase
    have known := marker.flags_known
    rw [flags, List.concat_eq_append] at increase known ⊢
    obtain ⟨digit, isOne⟩ := decimal_flag (known last (by simp))
    have text : before ++ '"' :: flagsText (init ++ [last]) =
        (before ++ '"' :: flagsText init ++ [' ']) ++ [Nat.digitChar last] := by
      rw [flagsText_concat, digit]
      simp
    rw [text, List.getLast?_concat, Option.some_inj, isOne]
    constructor
    · rintro rfl
      have alone : init = [] := by
        refine List.eq_nil_iff_forall_not_mem.mpr fun flag member => ?_
        have less := (List.pairwise_append.mp increase).2.2 flag member 1 List.mem_cons_self
        have known := (known flag (List.mem_append_left _ member)).1
        omega
      rw [alone]
      rfl
    · intro single
      have lasts := congrArg List.getLast? single
      rw [List.getLast?_concat] at lasts
      exact Option.some_inj.mp lasts

/-- Two quotes are around the name, and the others are in it. -/
theorem count_text (marker : Linemarker) :
    2 + (escape marker.file).count '"' ≤ marker.text.count '"' := by
  unfold text
  simp only [List.count_append, List.count_cons_self]
  omega

theorem flagsText_one : flagsText [1] = " 1".toList := by decide

/-- **What is read from a line marker**: the name with its escapes, unless a quote is among them. -/
theorem quotes_text {marker : Linemarker} {name : Str} :
    Quotes marker.text name ↔ marker.Starts ∧ '"' ∉ marker.file ∧ name = escape marker.file := by
  have front : '"' ∉ "# ".toList ++ decimal marker.number ++ " ".toList := by
    have digits : '"' ∉ decimal marker.number := not_mem_decimal (by decide)
    simp [digits]
  constructor
  · rintro ⟨-, last, builtIn, before, after, same, notBefore, notIn, notAfter⟩
    have flags := marker.getLast?_text.mp last
    have noQuote : '"' ∉ marker.file := by
      intro inside
      have many := marker.count_text
      have pos := List.count_pos_iff.mpr (quote_mem_escape.mpr inside)
      rw [same, List.count_append, List.count_cons_self, List.count_append, List.count_cons_self,
        List.count_eq_zero_of_not_mem notBefore, List.count_eq_zero_of_not_mem notIn,
        List.count_eq_zero_of_not_mem notAfter] at many
      omega
    have parts : split (· = '"') marker.text = [_, escape marker.file, flagsText marker.flags] :=
      split_eq_triple.mpr ⟨rfl, front, fun inside => noQuote (quote_mem_escape.mp inside), by
        rw [flags, flagsText_one]
        decide⟩
    have parts' := split_eq_triple.mpr ⟨same, notBefore, notIn, notAfter⟩
    rw [parts] at parts'
    injection parts' with _ rest
    injection rest with isName _
    refine ⟨⟨flags, fun builtIn' => builtIn ?_⟩, noQuote, isName.symm⟩
    rw [← isName]
    exact head?_escape.mpr builtIn'
  · rintro ⟨⟨flags, builtIn⟩, noQuote, rfl⟩
    refine ⟨rfl, marker.getLast?_text.mpr flags, fun builtIn' => builtIn (head?_escape.mp builtIn'),
      _, _, rfl, front, fun inside => noQuote (quote_mem_escape.mp inside), ?_⟩
    rw [flags, flagsText_one]
    decide

end Linemarker

/-! ### The dependencies -/

/-- A line marker starts the file. -/
def Started (output : List PpLine) (file : Str) : Prop :=
  ∃ marker : Linemarker, .marker marker ∈ output ∧ marker.Starts ∧ marker.file = file

/-- The name has no character that is escaped. -/
def PlainName (file : Str) : Prop := '"' ∉ file ∧ '\\' ∉ file

instance (file : Str) : Decidable (PlainName file) := inferInstanceAs (Decidable (_ ∧ _))

/-- A name that is not that of a file: another directive has it between its quotes, or it still has the
escapes of a backslash. -/
def Invented (output : List PpLine) (name : Str) : Prop :=
  (∃ line ∈ output, line.isDirective = true ∧ Quotes line.text name) ∨
    ∃ file, Started output file ∧ '"' ∉ file ∧ '\\' ∈ file ∧ name = escape file

/-- **The dependencies are the started files.** -/
def DepsExact (host : Host) (dir : Str) (text : Str) (output : List PpLine) : Prop :=
  ∀ path, path ∈ depsOf host dir text ↔
    ∃ file, Started output file ∧ host.getFullPathStr file dir = path

/-- **No harm is done**: a name that is not that of a file has the path of a started file, and the path
of a started file whose name is escaped is read somewhere else. -/
structure Harmless (host : Host) (dir : Str) (output : List PpLine) : Prop where
  invented : ∀ name, Invented output name → ∃ file, Started output file ∧
    host.getFullPathStr file dir = host.getFullPathStr name dir
  escaped : ∀ file, Started output file → ¬ PlainName file → ∃ name,
    (Invented output name ∨ Started output name ∧ PlainName name) ∧
      host.getFullPathStr name dir = host.getFullPathStr file dir

section Deps

variable {host : Host} {dir text : Str} {output : List PpLine}

/-- What is read from a whole output. -/
theorem read_iff {name : Str} : (∃ line ∈ output, Quotes line.text name) ↔
    Invented output name ∨ Started output name ∧ PlainName name := by
  constructor
  · rintro ⟨line, member, quotes⟩
    cases line with
    | source text notDirective => exact absurd quotes.1 notDirective
    | directive text isDirective notMarker => exact Or.inl (Or.inl ⟨_, member, rfl, quotes⟩)
    | marker marker =>
      obtain ⟨starts, noQuote, same⟩ := Linemarker.quotes_text.mp quotes
      by_cases backslash : '\\' ∈ marker.file
      · exact Or.inl (Or.inr ⟨marker.file, ⟨marker, member, starts, rfl⟩, noQuote, backslash, same⟩)
      · rw [escape_of_plain noQuote backslash] at same
        rw [same]
        exact Or.inr ⟨⟨marker, member, starts, rfl⟩, noQuote, backslash⟩
  · rintro ((⟨line, member, -, quotes⟩ | ⟨file, ⟨marker, member, starts, rfl⟩, noQuote, -, rfl⟩) |
      ⟨⟨marker, member, starts, rfl⟩, noQuote, noBackslash⟩)
    · exact ⟨line, member, quotes⟩
    · exact ⟨_, member, Linemarker.quotes_text.mpr ⟨starts, noQuote, rfl⟩⟩
    · exact ⟨_, member, Linemarker.quotes_text.mpr
        ⟨starts, noQuote, (escape_of_plain noQuote noBackslash).symm⟩⟩

theorem mem_depsOf (written : lines text = output.map PpLine.text) {path : Str} :
    path ∈ depsOf host dir text ↔ ∃ name,
      (Invented output name ∨ Started output name ∧ PlainName name) ∧
        host.getFullPathStr name dir = path := by
  unfold depsOf
  rw [OrderedSet.mem_ofList, List.mem_filterMap, written]
  constructor
  · rintro ⟨line, member, found⟩
    obtain ⟨line, inside, rfl⟩ := List.mem_map.mp member
    obtain ⟨name, started, same⟩ := Option.map_eq_some_iff.mp found
    exact ⟨name, read_iff.mp ⟨line, inside, startedFile_eq_some.mp started⟩, same⟩
  · rintro ⟨name, isRead, same⟩
    obtain ⟨line, inside, quotes⟩ := read_iff.mpr isRead
    refine ⟨line.text, List.mem_map_of_mem inside, ?_⟩
    rw [startedFile_eq_some.mpr quotes]
    exact congrArg some same

/-- **The dependencies are the started files exactly when no harm is done.** -/
theorem deps_iff (host : Host) (dir : Str) (written : lines text = output.map PpLine.text) :
    DepsExact host dir text output ↔ Harmless host dir output := by
  constructor
  · intro correct
    refine ⟨fun name invented => ?_, fun file started escaped => ?_⟩
    · exact (correct _).mp ((mem_depsOf written).mpr ⟨name, Or.inl invented, rfl⟩)
    · exact (mem_depsOf written).mp ((correct _).mpr ⟨file, started, rfl⟩)
  · intro harmless path
    rw [mem_depsOf written]
    constructor
    · rintro ⟨name, invented | ⟨started, -⟩, rfl⟩
      · exact harmless.invented name invented
      · exact ⟨name, started, rfl⟩
    · rintro ⟨file, started, rfl⟩
      by_cases plain : PlainName file
      · exact ⟨file, Or.inr ⟨started, plain⟩, rfl⟩
      · exact harmless.escaped file started plain

/-- **No harm is done** where names have no escapes and no other directive has two quotes and ends in
`1`. -/
theorem harmless_of_plain (plain : ∀ file, Started output file → PlainName file)
    (directives : ∀ line ∈ output, line.isDirective = true → ∀ name, ¬ Quotes line.text name) :
    Harmless host dir output := by
  refine ⟨?_, fun file started escaped => absurd (plain file started) escaped⟩
  rintro name (⟨line, member, isDirective, quotes⟩ | ⟨file, started, -, backslash, -⟩)
  · exact absurd quotes (directives line member isDirective name)
  · exact absurd backslash (plain file started).2

end Deps

/-! ### A header, and a name with a quote -/

/-- The start of a file. -/
def startOf (file : Str) : Linemarker where
  number := 1
  file
  flags := [1]
  number_pos := Nat.one_pos
  flags_known := by simp
  flags_increase := List.pairwise_singleton _ _

/-- A machine that puts the directory in front of a name. -/
def joiningHost : Host := ⟨fun path dir => Path.append dir path, fun _ _ => none⟩

/-- `#pragma once` -/
def pragmaOnce : PpLine :=
  .directive "#pragma once".toList rfl fun marker same => by
    have second := congrArg (·[1]?) same
    cases second

/-- A source file that includes a header with a pragma. -/
def headerOutput : List PpLine :=
  [.marker (startOf "<built-in>".toList), .marker (startOf "a.h".toList), pragmaOnce,
    .source "int x;".toList (by decide), .marker { startOf "/w/a.c".toList with
      number := 2
      flags := [2]
      number_pos := by decide
      flags_known := by simp
      flags_increase := List.pairwise_singleton _ _ },
    .source "int y;".toList (by decide)]

def headerText : Str :=
  "# 1 \"<built-in>\" 1\n# 1 \"a.h\" 1\n#pragma once\nint x;\n# 2 \"/w/a.c\" 2\nint y;\n".toList

theorem harmless_headerOutput : Harmless joiningHost "/w".toList headerOutput := by
  refine harmless_of_plain (fun file started => ?_) fun line member isDirective name quotes => ?_
  · obtain ⟨marker, member, starts, rfl⟩ := started
    simp only [headerOutput, List.mem_cons, PpLine.marker.injEq, List.not_mem_nil, or_false] at member
    rcases member with rfl | rfl | other | other | rfl | other
    · exact absurd starts.2 (by decide)
    · exact (by decide : PlainName "a.h".toList)
    · cases other
    · cases other
    · exact absurd starts.1 (by decide)
    · cases other
  · simp only [headerOutput, List.mem_cons, List.not_mem_nil, or_false] at member
    rcases member with rfl | rfl | rfl | rfl | rfl | rfl
    · cases isDirective
    · cases isDirective
    · exact absurd quotes.2.1 (by decide)
    · cases isDirective
    · cases isDirective
    · cases isDirective

/-- The header is the only dependency. -/
theorem deps_header : DepsExact joiningHost "/w".toList headerText headerOutput :=
  (deps_iff joiningHost "/w".toList rfl).mpr harmless_headerOutput

/-- A header with a quote in its name is lost. -/
theorem quoted_header_lost : ¬ ∀ (host : Host) (dir text : Str) (output : List PpLine),
    lines text = output.map PpLine.text → DepsExact host dir text output := by
  intro correct
  have member := (correct joiningHost "/w".toList "# 1 \"a\\\"b.h\" 1\n".toList
    [.marker (startOf "a\"b.h".toList)] rfl _).mpr
      ⟨_, ⟨_, List.mem_cons_self, by decide, rfl⟩, rfl⟩
  exact absurd member (by decide)

end Xcalbuild.Processor
