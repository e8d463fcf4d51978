import CanonicalPath.Go.Hosts
import CanonicalPath.Go.URI
import CanonicalPath.Library.Encoding

/-!
# Go normalize — from host input to a canonical string

`normalize.go` of the Go port.  `normalizeWith` is everything `Normalize` does after trimming, over
any code unit and any URI parser; `normalize` is the Go function, on bytes and with `parseFileURI`.
The two ends of a raw input, the WSL candidate and the separator rewriting, are functions of their
own.
-/

namespace CanonicalPath

namespace Go

open CodeUnit Segments

/-- The options record of `Normalize`. -/
structure Options (α : Type) where
  sourceHost : Option HostKind := none
  targetProfile : Option TargetProfile := none
  wsl : WSLOptions α := {}
  uri : URIOptions := {}
  windows : WindowsOptions := {}
  trimOuterWhitespace : Bool := false
  deriving DecidableEq, Repr

/-- The options as `Normalize` passes them on, with the mount root it has cleaned. -/
def Options.withMountRoot {α : Type} (opts : Options α) (mountRoot : List α) : Options α :=
  { opts with wsl := { enabled := opts.wsl.enabled, mountRoot := mountRoot } }

variable {α : Type} [DecidableEq α] [CodeUnit α]

def validateTargetProfile (value : List α) (profile : Option TargetProfile) :
    Except PathError Unit := do
  let split ← splitRoot value
  match profile with
  | none => .ok ()
  | some .portable => .ok ()
  | some .posix =>
      if isWindowsRoot split.1 then
        newError .invalidPath "targetProfile posix does not allow Windows roots"
      else
        .ok ()
  | some .win32Drive =>
      -- a relative value has no root to reject
      if split.1 = lit "/" ∨ (isWindowsRoot split.1 && !isDriveRoot split.1) = true then
        newError .invalidPath "targetProfile win32-drive does not allow POSIX or UNC roots"
      else
        .ok ()
  | some (.other _) => newError .invalidPath "unsupported targetProfile"

/-! ## Raw input -/

/-- One or at least three leading slashes. -/
def isPOSIXMountCandidate (value : List α) : Bool :=
  hasPrefix value (lit "/") && (!hasPrefix value (lit "//") || hasPrefix value (lit "///"))

/-- An enabled WSL candidate uses POSIX separators before raw Windows rewriting. -/
def normalizeWSLCandidate (value : List α) (opts : Options α) : Except PathError (List α) := do
  let prepared ← prepareNativePOSIX value
  validateWindowsComponents prepared opts.windows
  let cleaned ← cleanCanonical prepared
  if opts.targetProfile = some .posix then
    -- the POSIX profile asks for the mount path itself
    .ok cleaned
  else
    .ok ((mapWSLDrive cleaned opts.wsl).getD cleaned)

def stripURIDriveSlash (value : List α) : List α :=
  if isURIWindowsDrivePath value then value.drop 1 else value

/-- Read every backslash as a separator. -/
def toSlashes (value : List α) : List α :=
  replaceAll '\\' '/' value

/-- The separator rewriting of raw input that is no WSL candidate. -/
def rewriteSeparators (value : List α) (opts : WindowsOptions) : Except PathError (List α) := do
  if hasPrefix (toSlashes value) (lit "//?/") then
    -- only the error matters: the extended root is checked before it is cut
    let _ ← splitRoot (toSlashes value)
  if opts.preserveExtendedLength then
    .ok (stripURIDriveSlash (toSlashes value))
  else
    .ok (stripURIDriveSlash (unwrapWindowsExtendedPrefix (toSlashes value)))

/-- The path of a URI, or the value itself. -/
def uriPath (parseURI : URIOptions → List α → Except PathError (List α)) (value : List α)
    (opts : Options α) : Except PathError (List α) :=
  if hasURIScheme value || opts.sourceHost == some .vscodeFileURI then
    parseURI opts.uri value
  else
    .ok value

def normalizeRawInput (parseURI : URIOptions → List α → Except PathError (List α))
    (value : List α) (opts : Options α) : Except PathError (List α) := do
  let path ← uriPath parseURI value opts
  -- a drive spelled by a URI is no mount path
  if opts.wsl.enabled && isPOSIXMountCandidate path &&
      !(hasURIScheme value && isURIWindowsDrivePath path) then
    normalizeWSLCandidate path opts
  else
    rewriteSeparators path opts.windows

/-! ## `Normalize` -/

/-- The common end of every mode: policies, dot cleanup and the target profile. -/
def checkAndClean (value : List α) (opts : Options α) : Except PathError (List α) := do
  let _ ← splitRoot value
  validateWindowsComponents value opts.windows
  let cleaned ← cleanCanonical value
  validateTargetProfile cleaned opts.targetProfile
  .ok cleaned

/-- The value that the grammar selected by the source host hands to the common end. -/
def interpretHost (parseURI : URIOptions → List α → Except PathError (List α)) (raw : List α)
    (opts : Options α) : Except PathError (List α) :=
  if opts.sourceHost = some .posix then
    prepareNativePOSIX raw
  else if opts.sourceHost = some .canonical then
    .ok raw
  else
    normalizeRawInput parseURI raw opts

def normalizeWith (parseURI : URIOptions → List α → Except PathError (List α)) (raw : List α)
    (opts : Options α) : Except PathError (List α) :=
  if raw = [] then
    newError .emptyPath "path is empty"
  else if nul ∈ raw then
    newError .nulByte "path contains NUL"
  else do
    let mountRoot ← normalizeMountRoot opts.wsl.mountRoot
    -- the mount root is checked first, whether or not it is used
    if opts.sourceHost = some .posix ∧ opts.wsl.enabled = true then
      newError .invalidPath "native POSIX input cannot request WSL drive mapping"
    else do
      let value ← interpretHost parseURI raw (opts.withMountRoot mountRoot)
      checkAndClean value opts

/-! ## Outer whitespace -/

/-- The scalar values of `unicode.IsSpace`. -/
def spaces : List Char :=
  ['\t', '\n', '\x0b', '\x0c', '\r', ' ', '\u0085', '\u00a0', '\u1680', '\u2000', '\u2001',
    '\u2002', '\u2003', '\u2004', '\u2005', '\u2006', '\u2007', '\u2008', '\u2009', '\u200a',
    '\u2028', '\u2029', '\u202f', '\u205f', '\u3000']

/-- Drop leading blocks, at most `fuel` of them. -/
def dropBlocks (blocks : List Bytes) : Nat → Bytes → Bytes
  | 0, value => value
  | fuel + 1, value =>
      match blocks.find? (hasPrefix value) with
      | none => value
      | some block => dropBlocks blocks fuel (value.drop block.length)

/-- `strings.TrimFunc` with `unicode.IsSpace`: whole UTF-8 blocks from either end. -/
def trimSpace (value : Bytes) : Bytes :=
  let left := dropBlocks (spaces.map utf8.enc) value.length value
  -- the right end is the left end of the reversed bytes
  (dropBlocks (spaces.map fun c => (utf8.enc c).reverse) left.length left.reverse).reverse

def normalize (raw : Bytes) (opts : Options UInt8) : Except PathError Bytes :=
  normalizeWith parseFileURI (if opts.trimOuterWhitespace then trimSpace raw else raw) opts

end Go

end CanonicalPath
