/-
**Results of the work items, and what `generate_output` reads besides them.**

The result buffers of the `BuildProcessor` (`CCResult`, `ASResult`, `LDResult`), the part of the
command line that decides where the output goes (`OutputConfig`), and the two things that are left
open: the hash function, and the order in which an `std::unordered_set` is walked (`OutputEnv`).
-/
import Mathlib.Data.Char
import Mathlib.Data.List.Lex
import Xcalbuild.Library.OrderedSet
import Xcalbuild.Library.Path
import Xcalbuild.Profile.WorkItem

namespace Xcalbuild.Build

open Library
open Profile (FileFormat)

/-- A result file. -/
structure ResultFile where
  path : Path
  checksum : Str
  deriving DecidableEq

/-- Compile outcome. -/
structure CCResult where
  /-- Preprocessing output. -/
  file : ResultFile
  /-- The target specified on the command line. -/
  target : Str
  /-- The source file full path. -/
  source : Str
  format : FileFormat
  /-- The name of the preprocessed file in the archive. -/
  ppFileName : Str
  cScanOptions : List Str
  cxxScanOptions : List Str
  /-- Non-system dependencies mentioned in the preprocessor output. -/
  deps : OrderedSet Str

/-- Assembler outcome. -/
structure ASResult where
  target : Str
  source : Str

/-- Linker outcome. -/
structure LDResult where
  target : Str
  sources : List Str
  deriving DecidableEq

/-- The result buffers. -/
structure Results where
  asResults : List ASResult
  ldResults : List LDResult
  ccResults : List CCResult

/-- The name of the property files. -/
def propertyFilePath : Path := "xcalibyte.properties".toList

/-- The name of the preprocessing directory: one component, and not the name of the property
files. The configuration names it, and `preprocess` is its default. -/
structure DirName where
  name : Str
  nonempty : name ≠ []
  single : '/' ∉ name
  notProperties : name ≠ propertyFilePath

def DirName.preprocess : DirName where
  name := "preprocess".toList
  nonempty := by decide
  single := by decide
  notProperties := by decide

/-- The part of the command line that `generate_output` reads. -/
structure OutputConfig where
  outputPath : Path
  ppDirName : DirName
  needProcessLinkUsingCompiler : Bool
  propertiesTemplate : List (Str × Str)

/-- The hash function, and the order in which an `std::unordered_set` of the link infos is walked.
The set holds pointers, so the order is not determined by the program. -/
structure OutputEnv where
  sha1 : Str → Str
  visit : List Nat → List Nat
  visit_perm : ∀ infos, (visit infos).Perm infos

end Xcalbuild.Build
