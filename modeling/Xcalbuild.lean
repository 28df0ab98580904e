import Xcalbuild.Build.Archive
import Xcalbuild.Build.Checksums
import Xcalbuild.Build.Compile
import Xcalbuild.Build.Dependencies
import Xcalbuild.Build.Directories
import Xcalbuild.Build.Links
import Xcalbuild.Build.Membership
import Xcalbuild.Build.Order
import Xcalbuild.Build.Output
import Xcalbuild.Build.Rename
import Xcalbuild.Build.Results
import Xcalbuild.Build.TestLd
import Xcalbuild.Build.Visits
import Xcalbuild.Library.Assoc
import Xcalbuild.Library.Attempt
import Xcalbuild.Library.Bytes
import Xcalbuild.Library.Checks
import Xcalbuild.Library.Collect
import Xcalbuild.Library.Directory
import Xcalbuild.Library.Disk
import Xcalbuild.Library.Environment
import Xcalbuild.Library.Fallible
import Xcalbuild.Library.Fresh
import Xcalbuild.Library.Interleaving
import Xcalbuild.Library.Json
import Xcalbuild.Library.JsonDump
import Xcalbuild.Library.JsonMembers
import Xcalbuild.Library.JsonShape
import Xcalbuild.Library.JsonText
import Xcalbuild.Library.Leader
import Xcalbuild.Library.Lineage
import Xcalbuild.Library.Loop
import Xcalbuild.Library.Naming
import Xcalbuild.Library.OrderedMap
import Xcalbuild.Library.OrderedSet
import Xcalbuild.Library.Path
import Xcalbuild.Library.Program
import Xcalbuild.Library.Quoting
import Xcalbuild.Library.Reach
import Xcalbuild.Library.Regex
import Xcalbuild.Library.Scan
import Xcalbuild.Library.Sibling
import Xcalbuild.Library.Text
import Xcalbuild.Library.Transfer
import Xcalbuild.Library.Walk
import Xcalbuild.Prober.Actions
import Xcalbuild.Prober.Macros
import Xcalbuild.Prober.Probe
import Xcalbuild.Processor.Compile
import Xcalbuild.Processor.Detect
import Xcalbuild.Processor.Items
import Xcalbuild.Processor.Keys
import Xcalbuild.Processor.Languages
import Xcalbuild.Processor.Linemarkers
import Xcalbuild.Processor.Link
import Xcalbuild.Processor.Parallel
import Xcalbuild.Processor.Process
import Xcalbuild.Processor.PseudoLink
import Xcalbuild.Processor.Run
import Xcalbuild.Processor.Targets
import Xcalbuild.Processor.Traced
import Xcalbuild.Processor.Treatment
import Xcalbuild.Processor.Workers
import Xcalbuild.Profile.Action
import Xcalbuild.Profile.Aliases
import Xcalbuild.Profile.Checked
import Xcalbuild.Profile.Cursor
import Xcalbuild.Profile.Errors
import Xcalbuild.Profile.Fates
import Xcalbuild.Profile.FullPath
import Xcalbuild.Profile.Kind
import Xcalbuild.Profile.Language
import Xcalbuild.Profile.Load
import Xcalbuild.Profile.Loaded
import Xcalbuild.Profile.Lookup
import Xcalbuild.Profile.Option
import Xcalbuild.Profile.Parse
import Xcalbuild.Profile.Passes
import Xcalbuild.Profile.ReadBack
import Xcalbuild.Profile.Response
import Xcalbuild.Profile.Schema
import Xcalbuild.Profile.Tokens
import Xcalbuild.Profile.Toolchain
import Xcalbuild.Profile.Unfold
import Xcalbuild.Profile.Uses
import Xcalbuild.Profile.Whitespace
import Xcalbuild.Profile.WorkItem
import Xcalbuild.Tracer.CompileDatabase
import Xcalbuild.Tracer.Compilers
import Xcalbuild.Tracer.Environ
import Xcalbuild.Tracer.Execs
import Xcalbuild.Tracer.Images
import Xcalbuild.Tracer.Objects
import Xcalbuild.Tracer.Output
import Xcalbuild.Tracer.Protocol
import Xcalbuild.Tracer.Reports
import Xcalbuild.Tracer.RoundTrip
import Xcalbuild.Tracer.Server
import Xcalbuild.Tracer.Session
import Xcalbuild.Tracer.Shutdown
import Xcalbuild.Tracer.Strace
import Xcalbuild.Windows.Alike
import Xcalbuild.Windows.Arguments
import Xcalbuild.Windows.CompilerConfig
import Xcalbuild.Windows.ConfigFile
import Xcalbuild.Windows.DebugLoop
import Xcalbuild.Windows.ResponseArgs
import Xcalbuild.Windows.ResponseFile
