import CanonicalPath.TS.Uri

/-!
# TS normalize — from host input to a canonical string

`normalize.ts` of the TypeScript port.  `normalizeWith` is everything `normalize` does after
trimming, over any code unit and any URI parser; `normalize` is the TypeScript function, on UTF-16
units and with `parseFileUri`.  Every field of the options record may be absent.
-/

namespace CanonicalPath

namespace TS

open CodeUnit Segments

/-- The `windows` part of the options record. -/
structure WindowsOptions where
  preserveExtendedLength : Option Bool := none
  rejectDeviceNames : Option Bool := none
  rejectADS : Option Bool := none
  deriving DecidableEq, Repr

/-- The options record of `normalize`. -/
structure NormalizeOptions (α : Type) where
  sourceHost : Option HostKind := none
  targetProfile : Option TargetProfile := none
  wsl : Option (WSLOptions α) := none
  uri : Option UriOptions := none
  windows : Option WindowsOptions := none
  trimOuterWhitespace : Option Bool := none
  deriving DecidableEq, Repr

namespace NormalizeOptions

variable {α : Type}

/-- `options.windows?.preserveExtendedLength` in a condition. -/
def preserveExtendedLength (options : NormalizeOptions α) : Bool :=
  (options.windows.bind fun windows => windows.preserveExtendedLength).getD false

/-- `options.windows?.rejectDeviceNames` in a condition. -/
def rejectDeviceNames (options : NormalizeOptions α) : Bool :=
  (options.windows.bind fun windows => windows.rejectDeviceNames).getD false

/-- `options.windows?.rejectADS` in a condition. -/
def rejectADS (options : NormalizeOptions α) : Bool :=
  (options.windows.bind fun windows => windows.rejectADS).getD false

/-- `options.trimOuterWhitespace` in a condition. -/
def trims (options : NormalizeOptions α) : Bool :=
  options.trimOuterWhitespace.getD false

end NormalizeOptions

variable {α : Type} [DecidableEq α] [CodeUnit α]

/-! ## Policies -/

def validateWindowsPolicy (value : List α) (options : NormalizeOptions α) :
    Except PathError Unit := do
  -- an absent policy is not evaluated, so it cannot fail
  let ads ← if options.rejectADS then hasWindowsADS value else .ok false
  if ads then
    newError .alternateDataStream "Windows alternate data stream is not allowed"
  else do
    let device ← if options.rejectDeviceNames then hasReservedDeviceName value else .ok false
    if device then
      newError .reservedDeviceName "Windows reserved device name is not allowed"
    else
      .ok ()

def validateTargetProfile (value : List α) (targetProfile : Option TargetProfile) :
    Except PathError Unit := do
  let root ← splitRoot value
  match targetProfile with
  | none => .ok ()
  | some .portable => .ok ()
  | some .posix =>
      if isWindowsRoot root.kind then
        newError .invalidPath "targetProfile posix does not allow Windows drive or UNC roots"
      else
        .ok ()
  | some .win32Drive =>
      if root.kind = .posix ∨ root.kind = .unc ∨ root.kind = .extendedUnc then
        newError .invalidPath "targetProfile win32-drive does not allow POSIX or UNC roots"
      else
        .ok ()
  | some (.other _) => newError .invalidPath "unsupported targetProfile"

/-! ## Raw input -/

/-- `posixMountCandidate`, on the path of a URI or the value itself. -/
def posixMountCandidate (path : List α) (uriInput : Bool) (options : NormalizeOptions α) : Bool :=
  wslEnabled options.wsl && startsWith path (lit "/") &&
    (!startsWith path (lit "//") || startsWith path (lit "///")) &&
    !(uriInput && isUriWindowsDrivePath path)

/-- Prohibited components are checked before cleanup; a drive is chosen only after POSIX traversal
has resolved across mount and drive boundaries. -/
def normalizeMountCandidate (path : List α) (options : NormalizeOptions α) :
    Except PathError (List α) := do
  let native ← nativePOSIXRepresentation path
  validateWindowsPolicy native options
  let cleaned ← cleanCanonical native
  if options.targetProfile = some .posix then
    -- the POSIX profile asks for the mount path itself
    .ok cleaned
  else do
    let mapped ← mapWSLDrive cleaned options.wsl
    .ok (mapped.getD cleaned)

/-- `if (isUriWindowsDrivePath(value)) value = value.slice(1)`. -/
def stripUriDriveSlash (value : List α) : List α :=
  if isUriWindowsDrivePath value then value.drop 1 else value

/-- The separator rewriting of raw input that is no mount candidate. -/
def rewriteSeparators (path : List α) (options : NormalizeOptions α) : Except PathError (List α) := do
  -- without preservation the extended root is parsed and rebuilt, not cut
  let unwrapped ←
    if options.preserveExtendedLength then
      .ok (replaceAll '\\' '/' path)
    else
      unwrapWindowsExtendedPrefix (replaceAll '\\' '/' path)
  .ok (stripUriDriveSlash unwrapped)

/-- The path of a URI, or the value itself. -/
def uriPath (parseUri : Option UriOptions → List α → Except PathError (List α)) (value : List α)
    (options : NormalizeOptions α) : Except PathError (List α) :=
  if hasUriScheme value then parseUri options.uri value else .ok value

def normalizeRaw (parseUri : Option UriOptions → List α → Except PathError (List α))
    (value : List α) (options : NormalizeOptions α) : Except PathError (List α) := do
  let path ← uriPath parseUri value options
  if posixMountCandidate path (hasUriScheme value) options then
    normalizeMountCandidate path options
  else
    rewriteSeparators path options

/-! ## `normalize` -/

/-- The common end of every mode: policies, dot cleanup and the target profile. -/
def checkAndClean (value : List α) (options : NormalizeOptions α) : Except PathError (List α) := do
  validateWindowsPolicy value options
  let cleaned ← cleanCanonical value
  validateTargetProfile cleaned options.targetProfile
  .ok cleaned

/-- The mount root is checked when it is given or when it will be used. -/
def checkMountRoot (options : NormalizeOptions α) : Except PathError Unit :=
  if wslMountRoot options.wsl ≠ none ∨ wslEnabled options.wsl = true then do
    let _ ← normalizeMountRoot (wslMountRoot options.wsl)
    .ok ()
  else
    .ok ()

/-- The value that the grammar selected by the source host hands to the common end. -/
def interpretHost (parseUri : Option UriOptions → List α → Except PathError (List α))
    (raw : List α) (options : NormalizeOptions α) : Except PathError (List α) :=
  if options.sourceHost = some .posix then
    -- the one combination of a host and an option that is refused
    if wslEnabled options.wsl then
      newError .invalidPath "native POSIX input cannot enable cross-host WSL mapping"
    else
      nativePOSIXRepresentation raw
  else if options.sourceHost ≠ some .canonical then
    normalizeRaw parseUri raw options
  else
    .ok raw

def normalizeWith (parseUri : Option UriOptions → List α → Except PathError (List α))
    (raw : List α) (options : NormalizeOptions α) : Except PathError (List α) :=
  if raw = [] then
    newError .emptyPath "path is empty"
  else if nul ∈ raw then
    newError .nulByte "path contains NUL"
  else do
    checkMountRoot options
    let value ← interpretHost parseUri raw options
    checkAndClean value options

/-! ## Outer whitespace -/

/-- The `WhiteSpace` and `LineTerminator` units of `String.prototype.trim`. -/
def isTrimmed (a : UInt16) : Bool :=
  [0x09, 0x0A, 0x0B, 0x0C, 0x0D, 0x20, 0xA0, 0x1680, 0x2000, 0x2001, 0x2002, 0x2003, 0x2004, 0x2005,
    0x2006, 0x2007, 0x2008, 0x2009, 0x200A, 0x2028, 0x2029, 0x202F, 0x205F, 0x3000, 0xFEFF].contains
    (code a)

/-- `String.prototype.trim`. -/
def trim (value : Units) : Units :=
  ((value.dropWhile isTrimmed).reverse.dropWhile isTrimmed).reverse

def normalize (raw : Units) (options : NormalizeOptions UInt16) : Except PathError Units :=
  normalizeWith parseFileUri (if options.trims then trim raw else raw) options

end TS

end CanonicalPath
