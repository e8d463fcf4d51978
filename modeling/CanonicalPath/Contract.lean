/-!
# Contract — the vocabulary shared by every port

The error codes, the input grammars and the target profiles have one list of string values in every
port.  `HostKind.other` and `TargetProfile.other` stand for a string outside that list: the ports
treat an unknown host as a raw one and reject an unknown profile.
-/

namespace CanonicalPath

/-- The stable machine-readable error codes. -/
inductive ErrorCode
  | absolutePath
  | alternateDataStream
  | driveRelativePath
  | emptyPath
  | encodedSeparator
  | invalidComponent
  | invalidPath
  | invalidPercentEncoding
  | invalidURI
  | nulByte
  | outsideRoot
  | reservedDeviceName
  | unsupportedURIScheme
  deriving DecidableEq, Repr

/-- An error with a stable code and a human-readable message. -/
structure PathError where
  code : ErrorCode
  message : String
  deriving DecidableEq, Repr

def ErrorCode.text : ErrorCode → String
  | .absolutePath => "ERR_ABSOLUTE_PATH"
  | .alternateDataStream => "ERR_ALTERNATE_DATA_STREAM"
  | .driveRelativePath => "ERR_DRIVE_RELATIVE_PATH"
  | .emptyPath => "ERR_EMPTY_PATH"
  | .encodedSeparator => "ERR_ENCODED_SEPARATOR"
  | .invalidComponent => "ERR_INVALID_COMPONENT"
  | .invalidPath => "ERR_INVALID_PATH"
  | .invalidPercentEncoding => "ERR_INVALID_PERCENT_ENCODING"
  | .invalidURI => "ERR_INVALID_URI"
  | .nulByte => "ERR_NUL_BYTE"
  | .outsideRoot => "ERR_OUTSIDE_ROOT"
  | .reservedDeviceName => "ERR_RESERVED_DEVICE_NAME"
  | .unsupportedURIScheme => "ERR_UNSUPPORTED_URI_SCHEME"

/-- `Error()` of an error. -/
def PathError.text (error : PathError) : String :=
  if error.message = "" then error.code.text else error.code.text ++ ": " ++ error.message

/-- Fail with a code and a message. -/
def newError {β : Type} (code : ErrorCode) (message : String) : Except PathError β :=
  .error { code := code, message := message }

/-- The environment that produced an input path. -/
inductive HostKind
  | posix
  | canonical
  | win32
  | wsl
  | vscodeFileURI
  | devContainer
  | sshRemote
  | other (name : String)
  deriving DecidableEq, Repr

/-- The root kinds a caller asks for. -/
inductive TargetProfile
  | portable
  | win32Drive
  | posix
  | other (name : String)
  deriving DecidableEq, Repr

/-- The grammars that never infer a host: native POSIX input and saved canonical strings. -/
def HostKind.IsRaw (host : Option HostKind) : Prop :=
  host ≠ some .posix ∧ host ≠ some .canonical

instance (host : Option HostKind) : Decidable (HostKind.IsRaw host) :=
  inferInstanceAs (Decidable (_ ∧ _))

end CanonicalPath
