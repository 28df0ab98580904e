/-
**Work items, before and after parsing.**

The enumerations of `fwd.hpp` and `parsed-work-item.hpp` with their names, a work item of the
build specification (`WorkItem`), what parsing one gives (`ParsedWorkItem`), and `Host`, the part
of the machine the profile code looks at: the file system.
-/
import Xcalbuild.Library.Text

namespace Xcalbuild.Profile

open Library

/-- Detected source language. -/
inductive FileFormat where
  | cSource
  | cxxSource
  | preprocessed
  | assembly
  | object
  | library
  | executive
  | ext
  deriving DecidableEq, Repr

/-- The kind of the command. -/
inductive CommandKind where
  | compile
  | assemble
  | link
  | archive
  | ignore
  deriving DecidableEq, Repr

/-- `command_kind_names`. -/
def commandKindNames : List (Str × CommandKind) :=
  [("compile".toList, .compile), ("assemble".toList, .assemble), ("link".toList, .link),
    ("archive".toList, .archive), ("ignore".toList, .ignore)]

/-- `file_format_names`. -/
def fileFormatNames : List (Str × FileFormat) :=
  [("c".toList, .cSource), ("c++".toList, .cxxSource), ("preprocessed".toList, .preprocessed),
    ("assembly".toList, .assembly), ("object".toList, .object), ("library".toList, .library),
    ("executive".toList, .executive), ("ext".toList, .ext)]

def fileFormatFromString (s : Str) : Option FileFormat := fileFormatNames.lookup s

/-- An entry of the build specification. -/
structure WorkItem where
  directory : Str
  arguments : List Str
  respfile : Option Str

/-- Result from parsing a work item. -/
structure ParsedWorkItem where
  kind : CommandKind
  binary : Str
  dir : Str
  fileFormat : FileFormat
  sources : List (Str × FileFormat)
  target : Str
  ppOptions : List Str
  cScanOptions : List Str
  cxxScanOptions : List Str
  deriving DecidableEq

/-- The member initialisers of `ParsedWorkItem`. -/
def ParsedWorkItem.init : ParsedWorkItem where
  kind := .ignore
  binary := []
  dir := []
  fileFormat := .ext
  sources := []
  target := []
  ppOptions := []
  cScanOptions := []
  cxxScanOptions := []

/-- The file system, as the profile code sees it. -/
structure Host where
  /-- `fs::weakly_canonical(fs::complete(path, dir)).string()` -/
  canonical : Str → Str → Str
  /-- The content of `fs::complete(path, dir)`, when it is an existing regular file. -/
  regularFile : Str → Str → Option Str

/-- `get_full_path_str(path, dir)`, without a search of `PATH`. -/
def Host.getFullPathStr (host : Host) (path dir : Str) : Str := host.canonical path dir

end Xcalbuild.Profile
