import CanonicalPath.Library.Segments
import CanonicalPath.Library.DotStack
import CanonicalPath.Library.CodeUnit
import CanonicalPath.Library.Encoding
import CanonicalPath.Library.Percent
import CanonicalPath.Contract
import CanonicalPath.Go.Grammar
import CanonicalPath.Library.Outcome
import CanonicalPath.Identity.Root
import CanonicalPath.Identity.Canonical
import CanonicalPath.Go.Hosts
import CanonicalPath.Go.URI
import CanonicalPath.Go.Normalize
import CanonicalPath.Go.Relative
import CanonicalPath.Identity.Native
import CanonicalPath.Identity.FixedPoint
import CanonicalPath.Identity.Operand
import CanonicalPath.Identity.Composition
import CanonicalPath.Identity.Raw
import CanonicalPath.Identity.Idempotence
import CanonicalPath.Identity.Mounts
import CanonicalPath.Identity.Unwrap
import CanonicalPath.Identity.Win32
import CanonicalPath.Identity.Factoring
import CanonicalPath.TS.Internal
import CanonicalPath.TS.Uri
import CanonicalPath.TS.Normalize
import CanonicalPath.TS.Relative
import CanonicalPath.Ports.Spelling
import CanonicalPath.Ports.Grammar
import CanonicalPath.Ports.Normalize
import CanonicalPath.Ports.Raw
import CanonicalPath.Ports.Composition
import CanonicalPath.Ports.Uri
import CanonicalPath.Python.Core
import CanonicalPath.Ports.Python
import CanonicalPath.Library.Run
import CanonicalPath.Library.Keyed
import CanonicalPath.Library.Traced
import CanonicalPath.Library.Follows
import CanonicalPath.Library.History
import CanonicalPath.Daemon.Admission
import CanonicalPath.Daemon.AdmissionSafety
import CanonicalPath.Daemon.Registry
import CanonicalPath.Daemon.RegistrySafety
import CanonicalPath.FS.Path
import CanonicalPath.FS.Validate
import CanonicalPath.FS.Archive
import CanonicalPath.FS.ArchiveNames
import CanonicalPath.Go.Scoped
import CanonicalPath.Daemon.Scope
import CanonicalPath.Ports.Decoding
import CanonicalPath.Unity.Grammar
import CanonicalPath.Unity.Normalize
import CanonicalPath.Ports.Unity
import CanonicalPath.Ports.CNormalize
import CanonicalPath.Identity.Strict
import CanonicalPath.Ports.Strict
import CanonicalPath.FS.Client
import CanonicalPath.TS.Scoped
import CanonicalPath.Ports.Scoped
import CanonicalPath.Library.Transcode
import CanonicalPath.TS.Payload
import CanonicalPath.Unity.PathGuard
import CanonicalPath.Ports.Payload
import CanonicalPath.Ports.Assets
import CanonicalPath.TS.Broker
import CanonicalPath.TS.BrokerSafety
import CanonicalPath.TS.FakeBridge
import CanonicalPath.TS.FakeBridgeSafety
import CanonicalPath.FS.Copy
import CanonicalPath.FS.Extraction
import CanonicalPath.FS.Unpacking
import CanonicalPath.FS.ExtractionLimits
import CanonicalPath.FS.PathBudget
import CanonicalPath.FS.ExtractionSafety
import CanonicalPath.TS.GlobLanguage
import CanonicalPath.FS.Read
import CanonicalPath.Daemon.ReadFile
import CanonicalPath.FS.RegularSafety
import CanonicalPath.Unity.RequireCanonical
import CanonicalPath.Ports.RequireCanonical
import CanonicalPath.Unity.Burst
import CanonicalPath.Unity.BurstSafety
import CanonicalPath.FS.CentralDirectory
import CanonicalPath.Identity.Policies
import CanonicalPath.Library.Trim
import CanonicalPath.Ports.FileNames
import CanonicalPath.Identity.Action
import CanonicalPath.Ports.Rust
import CanonicalPath.Ports.JoinParts
import CanonicalPath.Identity.Cleanup
import CanonicalPath.Identity.Component
import CanonicalPath.Ports.Sanitize
import CanonicalPath.Ports.GitRef
import CanonicalPath.Library.Sha256
import CanonicalPath.C.Sha256
import CanonicalPath.Ports.CSha256
import CanonicalPath.C.Decode
import CanonicalPath.Ports.CDecode
import CanonicalPath.Library.Panic
import CanonicalPath.Library.Str
import CanonicalPath.Rust.Checked
import CanonicalPath.Ports.RustChecked
import CanonicalPath.Rust.Normalize
import CanonicalPath.Ports.RustNormalize
import CanonicalPath.Rust.Component
import CanonicalPath.Ports.RustComponent
import CanonicalPath.Library.Threads
import CanonicalPath.Library.Base64
import CanonicalPath.FS.Handles
import CanonicalPath.FS.HostPath
import CanonicalPath.Daemon.Service
import CanonicalPath.Daemon.ServiceDiscipline
import CanonicalPath.Daemon.ServiceHandlers
import CanonicalPath.Daemon.ServiceSafety
import CanonicalPath.Daemon.ServiceReplies
import CanonicalPath.FS.Shared
import CanonicalPath.FS.SharedExtraction
import CanonicalPath.FS.SharedSafety
import CanonicalPath.FS.SharedDirectories
import CanonicalPath.FS.SharedUnpacking
import CanonicalPath.FS.Outline
import CanonicalPath.Daemon.Bootstrap
import CanonicalPath.Daemon.BootstrapSafety
import CanonicalPath.Daemon.Credentials
import CanonicalPath.Daemon.CredentialsSafety
import CanonicalPath.Daemon.Launch
