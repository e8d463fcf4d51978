import CanonicalPath.Rust.Checked
import Mathlib.Data.List.DropRight

/-!
# Rust normalize — raw input of the Rust port, with its indexes and slices

`normalize_with_options` and what it calls in front of the canonical grammar: URIs, WSL drives, the Windows policies and
the target profiles.  A decoder has a bound on its turns; a loop that reaches it has no value, like a panic.
-/

namespace CanonicalPath

namespace Rust

namespace Checked

open CodeUnit Segments Str

structure UriOptions where
  allowFileUri : Bool
  allowVscodeFileUri : Bool
  rejectEncodedSlash : Bool

structure WindowsOptions where
  preserveExtendedLength : Bool
  rejectDeviceNames : Bool
  rejectAds : Bool

structure NormalizeOptions where
  sourceHost : List Char
  targetProfile : List Char
  wsl : WslOptions
  uri : UriOptions
  windows : WindowsOptions
  trimOuterWhitespace : Bool

/-- `str::trim_matches`. -/
def trimMatches (p : Char → Bool) (value : List Char) : List Char :=
  (value.dropWhile p).rdropWhile p

def trimOuterAsciiWhitespace (value : List Char) : List Char :=
  trimMatches (fun ch => [' ', '\t', '\n', '\r', '\x0c', '\x0b'].contains ch) value

/-! ## URIs -/

def isAsciiAlphanumeric (byte : UInt8) : Bool :=
  isLetter byte || (chr '0' ≤ byte && byte ≤ chr '9')

def hasUriScheme (value : List Char) : Option Bool :=
  match findStr (lit "://") value with
  | none => some false
  | some place =>
      if place = 0 then
        -- nothing in front of the colon is no scheme
        some false
      else do
        let bytes := bytes value
        if !isLetter (← index bytes 0) then
          return false
        else
          return (← sliceList bytes 1 place).all fun byte =>
            isAsciiAlphanumeric byte || [chr '+', chr '.', chr '-'].contains byte

def hexValue (value : UInt8) : Option UInt8 :=
  if chr '0' ≤ value ∧ value ≤ chr '9' then
    some (value - chr '0')
  else if chr 'a' ≤ value ∧ value ≤ chr 'f' then
    some (value - chr 'a' + 10)
  else if chr 'A' ≤ value ∧ value ≤ chr 'F' then
    some (value - chr 'A' + 10)
  else
    none

def percentError {β : Type} : Run β :=
  fail .invalidPercentEncoding "URI percent encoding is invalid"

/-- The loop of `percent_decode`. -/
def percentLoop (bytes : List UInt8) : Nat → Nat → List UInt8 → Run (List UInt8)
  | 0, _, _ => liftM (none : Option (List UInt8))
  | fuel + 1, place, result =>
      if place < bytes.length then do
        let byte ← (index bytes place : Option UInt8)
        if byte ≠ chr '%' then
          percentLoop bytes fuel (place + 1) (result ++ [byte])
        else if place + 2 ≥ bytes.length then
          -- an escape needs two digits inside the input
          percentError
        else do
          match hexValue (← (index bytes (place + 1) : Option UInt8)) with
          | none => percentError
          | some high =>
              match hexValue (← (index bytes (place + 2) : Option UInt8)) with
              | none => percentError
              | some low => percentLoop bytes fuel (place + 3) (result ++ [high <<< 4 ||| low])
      else
        return result

def percentDecode (value : List Char) : Run (List Char) := do
  let bytes := bytes value
  let result ← percentLoop bytes (bytes.length + 1) 0 []
  -- octets that are no UTF-8 are the only other failure
  match fromUtf8 result with
  | some text => return text
  | none => percentError

/-- `slice::windows`. -/
def windows (bytes : List UInt8) (size : Nat) : List (List UInt8) :=
  (List.range (bytes.length + 1 - size)).map fun i => (bytes.drop i).take size

/-- The loop over the windows. -/
def separatorLoop : List (List UInt8) → Option Bool
  | [] => some false
  | window :: more => do
      if (← index window 0) ≠ chr '%' then
        separatorLoop more
      else
        let low := lower (← index window 2)
        if ← ((index window 1).map (· == chr '2') <&&> some (low == chr 'f')) then
          return true
        else if ← ((index window 1).map (· == chr '5') <&&> some (low == chr 'c')) then
          return true
        else
          separatorLoop more

def hasEncodedSeparator (value : List Char) : Option Bool :=
  separatorLoop (windows (bytes value) 3)

def parseHierarchicalUriPath (raw leader : List Char) (options : NormalizeOptions) : Run (List Char) := do
  if ← (some options.uri.rejectEncodedSlash <&&> hasEncodedSeparator raw : Option Bool) then
    fail .encodedSeparator "URI contains an encoded path separator"
  else
    let rest ← sliceFrom raw (len leader)
    match find (· == chr '/') rest with
    | none => fail .invalidURI "URI path is empty"
    | some slash =>
        -- the slash belongs to the path
        let decodedAuthority ← percentDecode (← sliceTo rest slash)
        let decoded ← percentDecode (← sliceFrom rest slash)
        if nul ∈ decoded ∨ nul ∈ decodedAuthority then
          fail .nulByte "decoded URI contains NUL"
        else if decoded.isEmpty then
          fail .invalidURI "URI path is empty"
        else if leader = lit "file://" ∧ !decodedAuthority.isEmpty ∧ decodedAuthority.map lower ≠ lit "localhost" then
          return lit "//" ++ decodedAuthority ++ decoded
        else
          return decoded

def parseFileUri (uri : List Char) (options : NormalizeOptions) : Run (List Char) := do
  if nul ∈ uri then
    fail .nulByte "URI contains NUL"
  else if startsWith uri (lit "file://") then
    if !options.uri.allowFileUri then
      fail .unsupportedURIScheme "file URI is not allowed"
    else
      parseHierarchicalUriPath uri (lit "file://") options
  else if startsWith uri (lit "vscode-file://") then
    if !options.uri.allowVscodeFileUri then
      fail .unsupportedURIScheme "vscode-file URI is not allowed"
    else
      parseHierarchicalUriPath uri (lit "vscode-file://") options
  else if ← hasUriScheme uri then
    fail .unsupportedURIScheme "unsupported URI scheme"
  else
    return uri

/-! ## Hosts -/

def mapWslDrive (value mountRoot : List Char) : Option (Option (List Char)) :=
  match stripPrefix value (mountRoot.rdropWhile (· == chr '/') ++ lit "/") with
  | none => some none
  | some rest => do
      let bytes := bytes rest
      if ← (some bytes.isEmpty <||> (index bytes 0).map (!isLetter ·)
          <||> (some (decide (bytes.length > 1)) <&&> (index bytes 1).map (· != chr '/'))) then
        return none
      else
        let first ← index bytes 0
        -- behind the letter and its slash, or nothing
        let tail ← (if bytes.length > 1 then sliceFrom rest 2 else some [] : Option (List Char))
        return some ([toLowerAsciiByte first] ++ lit ":/" ++ tail)

def unwrapWindowsExtendedPrefix (value : List Char) : List Char :=
  match stripPrefix value (lit "//?/UNC/") with
  | some rest => lit "//" ++ rest
  | none => (stripPrefix value (lit "//?/")).getD value

/-! ## Policies -/

def isReservedDeviceBase (base : List Char) : Option Bool :=
  let upper := base.map upper
  if upper = lit "CON" ∨ upper = lit "PRN" ∨ upper = lit "AUX" ∨ upper = lit "NUL" then
    some true
  else
    let bytes := bytes upper
    some (bytes.length == 4)
      <&&> some (startsWith bytes (lit "COM") || startsWith bytes (lit "LPT"))
      <&&> (index bytes 3).map fun byte => chr '1' ≤ byte && byte ≤ chr '9'

def hasWindowsAds (value : List Char) : Option Bool := do
  match ← (splitRoot value).run with
  | .ok root => return decide (chr ':' ∈ root.rest)
  | .error _ => return false

/-- What a component is compared by: the text in front of its first dot or colon. -/
def deviceBase (part : List Char) : Option (List Char) :=
  match find (fun ch => ch == chr '.' || ch == chr ':') part with
  | none => some part
  | some place => sliceTo part place

/-- The loop over the components. -/
def reservedLoop : List (List Char) → Option Bool
  | [] => some false
  | part :: parts =>
      if part.isEmpty || part == lit "." || part == lit ".." then
        reservedLoop parts
      else do
        if ← isReservedDeviceBase (← deviceBase part) then
          return true
        else
          reservedLoop parts

def hasReservedDeviceName (value : List Char) : Option Bool := do
  match ← (splitRoot value).run with
  | .ok root => reservedLoop (root.rest.splitOn (chr '/'))
  | .error _ => return false

def validateWindowsComponents (value : List Char) (options : WindowsOptions) : Run Unit := do
  if ← (some options.rejectAds <&&> hasWindowsAds value : Option Bool) then
    fail .alternateDataStream "Windows alternate data stream is not allowed"
  else if ← (some options.rejectDeviceNames <&&> hasReservedDeviceName value : Option Bool) then
    fail .reservedDeviceName "Windows reserved device name is not allowed"
  else
    return ()

def isDriveRoot (rootPrefix : List Char) : Option Bool :=
  hasDriveRoot rootPrefix <||>
    match stripPrefix rootPrefix (lit "//?/") with
    | some tail => hasDriveRoot tail
    | none => some false

def validateTargetProfile (value targetProfile : List Char) : Run Unit := do
  let root ← splitRoot value
  if targetProfile = [] ∨ targetProfile = lit "portable" then
    return ()
  else if targetProfile = lit "posix" ∧ !isWindowsRoot root.rootPrefix then
    return ()
  else
    let named : Bool := targetProfile == lit "win32-drive" && root.rootPrefix != lit "/"
    if ← (some named <&&> (some (!isWindowsRoot root.rootPrefix) <||> isDriveRoot root.rootPrefix) : Option Bool) then
      return ()
    else
      fail .invalidPath "unsupported targetProfile or root kind"

/-! ## Entry points -/

/-- What happens to raw input behind the URI. -/
def normalizeHostInput (uriInput : Bool) (value : List Char) (options : NormalizeOptions) (mountRoot : List Char) :
    Run (List Char) := do
  let native : Bool := options.wsl.enabled && startsWith value (lit "/") &&
    (!startsWith value (lit "//") || startsWith value (lit "///"))
  -- WSL paths use POSIX components before any Windows separator rewriting
  if ← (some native <&&> (some uriInput <&&> isUriWindowsDrivePath value).map (!·) : Option Bool) then
    let prepared ← prepareNativePosix value
    validateWindowsComponents prepared options.windows
    let cleaned ← cleanCanonical prepared
    if options.targetProfile = lit "posix" then
      return cleaned
    else
      return (← mapWslDrive cleaned mountRoot).getD cleaned
  else
    let value := replaceAll '\\' '/' value
    if startsWith value (lit "//?/") then
      -- an extended root has to be complete before its prefix is dropped
      let _ ← splitRoot value
    let value := if options.windows.preserveExtendedLength then value else unwrapWindowsExtendedPrefix value
    if ← isUriWindowsDrivePath value then
      sliceFrom value 1
    else
      return value

def normalizeRawInput (raw : List Char) (options : NormalizeOptions) (mountRoot : List Char) : Run (List Char) := do
  let uriInput ← hasUriScheme raw
  if uriInput || options.sourceHost == lit "vscode-file-uri" then
    normalizeHostInput uriInput (← parseFileUri raw options) options mountRoot
  else
    normalizeHostInput uriInput raw options mountRoot

/-- The input in the grammar of its host, before it is cleaned. -/
def hostInput (value : List Char) (options : NormalizeOptions) (mountRoot : List Char) : Run (List Char) :=
  if options.sourceHost = lit "posix" then
    prepareNativePosix value
  else if options.sourceHost ≠ lit "canonical" then
    normalizeRawInput value options mountRoot
  else
    return value

def normalizeWithOptions (raw : List Char) (options : NormalizeOptions) : Run (List Char) := do
  let value := if options.trimOuterWhitespace then trimOuterAsciiWhitespace raw else raw
  if value.isEmpty then
    fail .emptyPath "path is empty"
  else if nul ∈ value then
    fail .nulByte "path contains NUL"
  else
    let mountRoot ← normalizeMountRoot options.wsl.mountRoot
    if options.sourceHost = lit "posix" ∧ options.wsl.enabled then
      fail .invalidPath "native POSIX input cannot request WSL drive mapping"
    else
      let value ← hostInput value options mountRoot
      -- only checked: the errors of the grammar come before those of the policies
      let _ ← splitRoot value
      validateWindowsComponents value options.windows
      let cleaned ← cleanCanonical value
      validateTargetProfile cleaned options.targetProfile
      return cleaned

end Checked

end Rust

end CanonicalPath
