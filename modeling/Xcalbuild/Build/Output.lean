/-
**`BuildProcessor::generate_output`.**

The four loops of `generate_output`, each as a fold of its body over a list of results: the
assembler results (`asTargetToSource`), the link results (`linkStep`), the compile results
(`compileStep`) and the link infos once more (`propertyStep`). An `LDInfo *` is the position of the
info in `ldInfos`. An `std::map` that is only looked up is a function, and the maps are updated with
`Function.update`.

File operations succeed: `Entry` is what is written to the archive, in order, and `removed` lists
the temporary files that are removed.
-/
import Mathlib.Logic.Function.Basic
import Xcalbuild.Build.Results

namespace Xcalbuild.Build

open Library
open Profile (FileFormat)

/-- The content of a file in the archive: a text, or what a file of the machine holds. -/
inductive Content where
  | text (value : Str)
  | ofFile (path : Path)
  deriving DecidableEq

/-- An entry of the archive. -/
inductive Entry where
  | dir (path : Path)
  | file (path : Path) (content : Content)
  deriving DecidableEq

/-- A line of `checksum.sha1`. -/
structure ChecksumLine where
  checksum : Str
  path : Path
  deriving DecidableEq

/-- The line as it is written, without the newline. -/
def ChecksumLine.text (line : ChecksumLine) : Str := line.checksum ++ ' ' :: line.path

/-- The text of `checksum.sha1`. -/
def checksumText (lines : List ChecksumLine) : Str :=
  lines.flatMap fun line => line.text ++ ['\n']

structure LDInfo where
  ppOutputPath : Path
  dependencies : OrderedSet Str
  cScanOptions : List Str
  cScanOptionsSet : Bool
  cxxScanOptions : List Str
  cxxScanOptionsSet : Bool

/-- A new link info, without dependencies. -/
def LDInfo.new (ppOutputPath : Path) : LDInfo where
  ppOutputPath := ppOutputPath
  dependencies := .empty
  cScanOptions := []
  cScanOptionsSet := false
  cxxScanOptions := []
  cxxScanOptionsSet := false

/-! ### Assembler results -/

/-- `as_target_to_source`: the last assembler result of a target counts. -/
def asTargetToSource (asResults : List ASResult) : Str → Option Str :=
  asResults.foldl (fun sources as => Function.update sources as.target (some as.source))
    fun _ => none

/-- A link source with the assembler target replaced by the assembler source. -/
def actualSource (asSource : Str → Option Str) (source : Str) : Str :=
  (asSource source).getD source

/-! ### Link results -/

/-- The variables of the link loop. -/
structure LinkState where
  ldInfos : List LDInfo
  linkTargets : Str → Option (List Nat)
  seenTargetFilenames : Str → Option Nat
  dependencyNames : Str → Option Str
  archive : List Entry

/-- Numbers a target file name that was seen before. -/
def dedupFilename (seen : Str → Option Nat) (filename : Str) : Str × (Str → Option Nat) :=
  match seen filename with
  | none => (filename, Function.update seen filename (some 1))
  | some count =>
      (filename ++ '.' :: decimal count, Function.update seen filename (some (count + 1)))

/-- `map.insert`: a key that is there keeps its value. -/
def insertName (names : Str → Option Str) (key name : Str) : Str → Option Str :=
  match names key with
  | some _ => names
  | none => Function.update names key (some name)

/-- Inserts a link info into the set of a link source. -/
def insertTarget (targets : Str → Option (List Nat)) (key : Str) (info : Nat) :
    Str → Option (List Nat) :=
  match targets key with
  | some infos => Function.update targets key (some (if info ∈ infos then infos else infos ++ [info]))
  | none => Function.update targets key (some [info])

/-- The target path as `generate_output` rebuilds it: with the directory of the first object file
that has the stem of the target. -/
def targetPath (ld : LDResult) : Path :=
  match ld.sources.find? fun source =>
      decide (Path.extension source = ".o".toList) &&
        decide (Path.stem source = Path.stem ld.target) with
  | some source => Path.append (Path.parentPath source) (Path.filename ld.target)
  | none => ld.target

/-- The directory of a link target in the archive. -/
def targetDir (filename : Str) : Path := filename ++ ".dir".toList

def ppOutputPath (config : OutputConfig) (filename : Str) : Path :=
  Path.append (targetDir filename) config.ppDirName.name

/-- The loop over the sources of a link result. -/
def addSource (asSource : Str → Option Str) (info : Nat)
    (state : OrderedSet Str × (Str → Option (List Nat))) (source : Str) :
    OrderedSet Str × (Str → Option (List Nat)) :=
  let actual := actualSource asSource source
  (state.1.insert actual, insertTarget state.2 actual info)

/-- The body of the link loop. -/
def linkStep (config : OutputConfig) (asSource : Str → Option Str) (state : LinkState)
    (ld : LDResult) : LinkState :=
  let (filename, seen) := dedupFilename state.seenTargetFilenames (Path.filename ld.target)
  let path := ppOutputPath config filename
  let (dependencies, targets) :=
    ld.sources.foldl (addSource asSource state.ldInfos.length) (.empty, state.linkTargets)
  { ldInfos := state.ldInfos ++ [{ LDInfo.new path with dependencies }]
    linkTargets := targets
    seenTargetFilenames := seen
    dependencyNames := insertName state.dependencyNames (targetPath ld) filename
    archive := state.archive ++ [.dir path] }

/-- The target that compile results without a link result go to. -/
def testLd : Str := "test_ld".toList

/-- The extra link info for compile results that are linked by the compiler. -/
def testLdStep (config : OutputConfig) (state : LinkState) : LinkState :=
  let (filename, seen) := dedupFilename state.seenTargetFilenames testLd
  let path := ppOutputPath config filename
  { ldInfos := state.ldInfos ++ [LDInfo.new path]
    linkTargets := insertTarget state.linkTargets filename state.ldInfos.length
    seenTargetFilenames := seen
    dependencyNames := insertName state.dependencyNames testLd filename
    archive := state.archive ++ [.dir path] }

/-- Before the link loop: the archive holds an empty top-level property file. -/
def LinkState.init : LinkState where
  ldInfos := []
  linkTargets _ := none
  seenTargetFilenames _ := none
  dependencyNames _ := none
  archive := [.file propertyFilePath (.text [])]

/-- The link loop, and the extra link info when it is enabled. -/
def linkLoop (config : OutputConfig) (results : Results) : LinkState :=
  let state := results.ldResults.foldl (linkStep config (asTargetToSource results.asResults)) .init
  if config.needProcessLinkUsingCompiler then testLdStep config state else state

/-! ### Compile results -/

/-- The variables of the compile loop. -/
structure CompileState where
  ldInfos : List LDInfo
  linkTargets : Str → Option (List Nat)
  sourceFiles : OrderedSet Str
  ppFiles : List Path
  archive : List Entry
  checksum : List ChecksumLine
  removed : List Path

/-- The path is in `pp_files`; an `std::set<fs::path>` compares the elements of the paths. -/
def taken (ppFiles : List Path) (path : Path) : Bool :=
  ppFiles.any fun other => decide (Path.elements other = Path.elements path)

/-- `fs::change_extension(orig_path, "." + std::to_string(idx) + ext)` -/
def renamed (path : Path) (idx : Nat) : Path :=
  Path.replaceExtension path ('.' :: decimal idx ++ Path.extension path)

/-- The `do` loop that looks for a free name. It always finds one with as many passes as there are
files and one more (`outputFile_free`). -/
def retryName (ppFiles : List Path) (path : Path) : Nat → Nat → Path
  | 0, idx => renamed path idx
  | fuel + 1, idx =>
      if taken ppFiles (renamed path idx) then retryName ppFiles path fuel (idx + 1)
      else renamed path idx

/-- The name of a preprocessed file, with a number if the name is taken. -/
def outputFile (ppFiles : List Path) (path : Path) : Path :=
  if taken ppFiles path then retryName ppFiles path (ppFiles.length + 1) 1 else path

/-- The scan options of a link info are the ones of its first compile result, per language. -/
def LDInfo.populate (info : LDInfo) (cc : CCResult) : LDInfo :=
  if cc.format = .cSource ∧ info.cScanOptionsSet = false then
    { info with cScanOptions := cc.cScanOptions, cScanOptionsSet := true }
  else if cc.format = .cxxSource ∧ info.cxxScanOptionsSet = false then
    { info with cxxScanOptions := cc.cxxScanOptions, cxxScanOptionsSet := true }
  else info

/-- What archiving does to a link info: the target is no dependency, and the scan options count. -/
def LDInfo.archived (info : LDInfo) (cc : CCResult) : LDInfo :=
  ({ info with dependencies := info.dependencies.erase cc.target } : LDInfo).populate cc

/-- The top-level output directory. -/
def ppTopPath (config : OutputConfig) : Path := Path.append config.outputPath config.ppDirName.name

/-- The body of the loop over the link infos of a compile result. -/
def archiveStep (config : OutputConfig) (cc : CCResult) (state : CompileState) (index : Nat) :
    CompileState :=
  match state.ldInfos[index]? with
  | none => state
  | some info =>
      let path := outputFile state.ppFiles (Path.append info.ppOutputPath cc.ppFileName)
      { state with
        ldInfos := state.ldInfos.set index (info.archived cc)
        ppFiles := state.ppFiles ++ [path]
        archive := state.archive ++ [.file path (.ofFile cc.file.path)]
        checksum := state.checksum ++ [⟨cc.file.checksum, Path.append (ppTopPath config) path⟩] }

/-- Archives a compile result that counts for the given target. -/
def archiveAll (config : OutputConfig) (env : OutputEnv) (cc : CCResult) (target : Str)
    (state : CompileState) : CompileState :=
  let infos := (state.linkTargets target).getD []
  let state := { state with
    sourceFiles := (state.sourceFiles.insert cc.source).insertAll cc.deps.elems
    linkTargets := Function.update state.linkTargets target (some infos) }
  let state := (env.visit infos).foldl (archiveStep config cc) state
  { state with removed := state.removed ++ [cc.file.path] }

/-- The body of the compile loop. -/
def compileStep (config : OutputConfig) (env : OutputEnv) (state : CompileState) (cc : CCResult) :
    CompileState :=
  if (state.linkTargets cc.target).isSome then archiveAll config env cc cc.target state
  else if config.needProcessLinkUsingCompiler then archiveAll config env cc testLd state
  else { state with removed := state.removed ++ [cc.file.path] }

/-- Before the compile loop. -/
def LinkState.toCompile (state : LinkState) : CompileState where
  ldInfos := state.ldInfos
  linkTargets := state.linkTargets
  sourceFiles := .empty
  ppFiles := []
  archive := state.archive
  checksum := []
  removed := []

def compileLoop (config : OutputConfig) (env : OutputEnv) (results : Results) : CompileState :=
  results.ccResults.foldl (compileStep config env) (linkLoop config results).toCompile

/-! ### Property files -/

/-- The variables of the property loop, and what was written for each link info: every dependency
with the entry it got, and the properties. -/
structure PropertyState where
  dependencyNames : Str → Option Str
  resolved : List (List (Str × Str))
  properties : List (List (Str × Str))
  archive : List Entry
  checksum : List ChecksumLine

/-- `ptree.put` of a top-level key. -/
def putProperty (key value : Str) : List (Str × Str) → List (Str × Str)
  | [] => [(key, value)]
  | (other, old) :: rest =>
      if other = key then (key, value) :: rest else (other, old) :: putProperty key value rest

/-- `boost::property_tree::write_ini` -/
def writeIni (properties : List (Str × Str)) : Str :=
  properties.flatMap fun property => property.1 ++ '=' :: property.2 ++ ['\n']

/-- Replaces a dependency by its name. The name is moved out of the map, and a string that was
moved from is empty. -/
def renameDependency (state : List Str × (Str → Option Str)) (dep : Str) :
    List Str × (Str → Option Str) :=
  match state.2 dep with
  | some name => (state.1 ++ [name], Function.update state.2 dep (some []))
  | none => (state.1 ++ [dep], state.2)

def propertiesOf (config : OutputConfig) (info : LDInfo) (dependencies : List Str) :
    List (Str × Str) :=
  putProperty "cxx_scan_options".toList (join [' '] info.cxxScanOptions)
    (putProperty "c_scan_options".toList (join [' '] info.cScanOptions)
      (putProperty "dependencies".toList (join [' '] dependencies) config.propertiesTemplate))

/-- The path of the property file of a link info. -/
def propertyPath (info : LDInfo) : Path :=
  Path.append (Path.parentPath info.ppOutputPath) propertyFilePath

/-- The body of the property loop. -/
def propertyStep (config : OutputConfig) (env : OutputEnv) (state : PropertyState)
    (info : LDInfo) : PropertyState :=
  let (dependencies, names) :=
    info.dependencies.elems.foldl renameDependency ([], state.dependencyNames)
  let properties := propertiesOf config info dependencies
  let path := propertyPath info
  { dependencyNames := names
    resolved := state.resolved ++ [info.dependencies.elems.zip dependencies]
    properties := state.properties ++ [properties]
    archive := state.archive ++ [.file path (.text (writeIni properties))]
    checksum := state.checksum ++
      [⟨env.sha1 (writeIni properties), Path.append (ppTopPath config) path⟩] }

/-- Before the property loop. -/
def CompileState.toProperty (state : CompileState) (names : Str → Option Str) : PropertyState where
  dependencyNames := names
  resolved := []
  properties := []
  archive := state.archive
  checksum := state.checksum

def propertyLoop (config : OutputConfig) (env : OutputEnv) (results : Results) : PropertyState :=
  (compileLoop config env results).ldInfos.foldl (propertyStep config env)
    ((compileLoop config env results).toProperty (linkLoop config results).dependencyNames)

/-! ### The output -/

/-- What `generate_output` leaves behind it. `properties` are the properties of the link infos, in
their order, whose texts are in the archive, and `resolved` are their dependencies, each with its
entry in the `dependencies` property. -/
structure Output where
  archiveFile : Path
  archive : List Entry
  resolved : List (List (Str × Str))
  properties : List (List (Str × Str))
  checksum : List ChecksumLine
  sourceFiles : List Str
  removed : List Path

/-- `BuildProcessor::generate_output` -/
def generateOutput (config : OutputConfig) (env : OutputEnv) (results : Results) : Output where
  archiveFile := Path.replaceExtension (ppTopPath config) ".tar.gz".toList
  archive := (propertyLoop config env results).archive ++
    [.file "checksum.sha1".toList (.text (checksumText (propertyLoop config env results).checksum))]
  resolved := (propertyLoop config env results).resolved
  properties := (propertyLoop config env results).properties
  checksum := (propertyLoop config env results).checksum
  sourceFiles := (compileLoop config env results).sourceFiles.elems
  removed := (compileLoop config env results).removed

end Xcalbuild.Build
