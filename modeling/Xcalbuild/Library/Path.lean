/-
**POSIX paths.**

The lexical part of `boost::filesystem::path`, version 3 of the library, on POSIX: a path is the
string it was made from, and `filename`, `parentPath`, `stem`, `extension`, `replaceExtension` and
`append` cut and paste that string. A name after exactly two leading separators is a network name
and counts as a root, as it does in the library.

`elements` are what iterating over a path gives; two paths are the same to a `std::set<fs::path>`
when their elements are.

* `Canonical`: a canonical absolute path, by its names; `afterLast_text`: what is after its last
  separator is its last name, or nothing for the root.
-/
import Xcalbuild.Library.Text

namespace Xcalbuild.Library

abbrev Path := Str

namespace Path

/-- A network name: two separators, then a nonempty name, and nothing after it. -/
def isNetworkName : Path → Bool
  | '/' :: '/' :: name => !name.isEmpty && !name.contains '/'
  | _ => false

/-- `filename_pos`: where the file name starts. -/
def filenamePos (p : Path) : Nat :=
  if p.getLast? = some '/' then if p = ['/', '/'] then 0 else p.length - 1
  else if isNetworkName p then 0
  else p.length - (afterLast '/' p).length

/-- `path.filename()`. A trailing separator stands for the name `.`, except in a root. -/
def filename (p : Path) : Path :=
  if p.getLast? = some '/' then
    if p = ['/', '/'] then p
    else
      let base := p.rdropWhile (· = '/')
      if base = [] ∨ isNetworkName base then ['/'] else ['.']
  else if isNetworkName p then p
  else afterLast '/' p

/-- `root_directory_start` of the first `size` characters. -/
def rootDirectoryStart (p : Path) (size : Nat) : Option Nat :=
  match p with
  | '/' :: '/' :: rest =>
      if size = 2 then none
      else if 3 < size ∧ rest.head? ≠ some '/' then
        let pos := 2 + rest.findIdx (· = '/')
        if pos < size then some pos else none
      else if 0 < size then some 0 else none
  | '/' :: _ => if 0 < size then some 0 else none
  | _ => none

/-- The position up to which separators before `size` are skipped, stopping at the root. -/
def skipSeparators (p : Path) (root : Option Nat) : Nat → Nat
  | 0 => 0
  | size + 1 => if some size ≠ root ∧ p[size]? = some '/' then skipSeparators p root size else size + 1

/-- `path.parent_path()` -/
def parentPath (p : Path) : Path :=
  let size := filenamePos p
  let root := rootDirectoryStart p size
  let stop := skipSeparators p root size
  if stop = 1 ∧ root = some 0 ∧ p[size]? = some '/' then [] else p.take stop

/-- The position of the last dot of a name, if the name has an extension. -/
def splitExtension (name : Path) : Path × Path :=
  if name = ['.'] ∨ name = ['.', '.'] ∨ '.' ∉ name then (name, [])
  else (name.take (name.length - (afterLast '.' name).length - 1), '.' :: afterLast '.' name)

/-- `path.stem()`, also `fs::basename` -/
def stem (p : Path) : Path := (splitExtension (filename p)).1

/-- `path.extension()` -/
def extension (p : Path) : Path := (splitExtension (filename p)).2

/-- `path.replace_extension(ext)`, also `fs::change_extension`. -/
def replaceExtension (p ext : Path) : Path :=
  let base := p.take (p.length - (extension p).length)
  match ext with
  | [] => base
  | '.' :: _ => base ++ ext
  | _ => base ++ '.' :: ext

/-- `p / q` -/
def append (p q : Path) : Path :=
  match q with
  | [] => p
  | '/' :: _ => p ++ q
  | _ => if p = [] ∨ p.getLast? = some '/' then p ++ q else p ++ '/' :: q

/-- The names of a path without its root. -/
def names (p : Path) : List Path :=
  (split (· = '/') p).filter (· ≠ []) ++ if p.getLast? = some '/' then [['.']] else []

/-- The elements of a path: its root name, its root directory, and its names. -/
def elements (p : Path) : List Path :=
  match p with
  | [] => []
  | '/' :: '/' :: rest =>
      if rest.head? = some '/' then
        ['/'] :: if rest.all (· = '/') then [] else names rest
      else
        let net := rest.takeWhile (· ≠ '/')
        let tail := rest.dropWhile (· ≠ '/')
        ('/' :: '/' :: net) :: if tail = [] then []
          else ['/'] :: if tail.all (· = '/') then [] else names tail
  | '/' :: rest => ['/'] :: if rest = [] then [] else names rest
  | _ => names p

example : replaceExtension "exe.dir/src1.cc.ii".toList ".1.ii".toList =
    "exe.dir/src1.cc.1.ii".toList := by decide

/-! ### Canonical absolute paths -/

/-- A canonical absolute path: the names on the way from the root. -/
structure Canonical where
  names : List Path
  plain : ∀ name ∈ names, name ≠ [] ∧ '/' ∉ name ∧ name ≠ ['.'] ∧ name ≠ ['.', '.']

namespace Canonical

/-- The path as a string. -/
def text (p : Canonical) : Path := '/' :: join ['/'] p.names

/-- The last component. The root has none. -/
def last? (p : Canonical) : Option Path := p.names.getLast?

/-- **What is after the last separator** is the last component. -/
theorem afterLast_text (p : Canonical) : afterLast '/' p.text = p.last?.getD [] := by
  have whole : p.text = [] ++ '/' :: join ['/'] p.names := rfl
  rw [whole, afterLast_append_sep, last?]
  cases names : p.names using List.reverseRecOn with
  | nil => rfl
  | append_singleton front name =>
    have member : name ∈ p.names := by simp [names]
    have absent : '/' ∉ name := (p.plain name member).2.1
    rw [List.getLast?_concat, Option.getD_some, join_concat]
    by_cases only : front = []
    · rw [only]
      exact afterLast_eq_self absent
    · rw [if_neg only, List.append_assoc]
      exact afterLast_append _ absent

end Canonical

end Path

end Xcalbuild.Library
