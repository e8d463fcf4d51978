import CanonicalPath.C.Grammar

/-!
# C normalize — from host input to a canonical string

`canonicalpath_normalize_n` of the C port, with the device names, the target profiles and the WSL
mapping it calls.  `cp_parse_hierarchical_uri_path` is a parameter: it is only called behind one of the
two file schemes.
-/

namespace CanonicalPath

namespace C

open CodeUnit CString

/-! ## Options -/

structure URIOptions where
  allowFileUri : Int := 0
  allowVscodeFileUri : Int := 0
  rejectEncodedSlash : Int := 0
  deriving DecidableEq, Repr

structure WindowsOptions where
  preserveExtendedLength : Int := 0
  rejectDeviceNames : Int := 0
  rejectAds : Int := 0
  deriving DecidableEq, Repr

structure NormalizeOptions where
  sourceHost : Option Chars := none
  targetProfile : Option Chars := none
  wsl : WSLOptions := {}
  uri : URIOptions := {}
  windows : WindowsOptions := {}
  trimOuterWhitespace : Int := 0
  deriving DecidableEq, Repr

/-- `canonicalpath_normalize_options_init`. -/
def defaultOptions : NormalizeOptions where
  wsl := { mountRoot := some (literal (lit "/mnt")) }
  uri := { rejectEncodedSlash := 1 }

/-! ## Target profiles -/

def acceptsProfile (rootPrefix : Chars) (targetProfile : Option Chars) : Option Bool :=
  match targetProfile with
  | none => some true
  | some profile =>
      (charAt profile 0).map (· == 0)
        <||> strcmpEq profile (literal (lit "portable"))
        <||> (strcmpEq profile (literal (lit "posix")) <&&> (isWindowsRoot rootPrefix).map (!·))
        <||> (strcmpEq profile (literal (lit "win32-drive"))
          <&&> (strcmpEq rootPrefix (literal (lit "/"))).map (!·)
          <&&> ((isWindowsRoot rootPrefix).map (!·) <||> isDriveRoot rootPrefix))

def validateTargetProfile (value : Chars) (targetProfile : Option Chars) : Run Unit := do
  let root ← splitRootParse value
  if ← acceptsProfile root.rootPrefix targetProfile then
    return ()
  else
    fail .invalidPath

/-! ## Device names -/

/-- The loop that fills the array of five characters. -/
def upperBase (base : Chars) (len : Nat) : Option Chars :=
  (List.range len).foldlM (fun out i => do store out i (upper (← charAt base i))) (malloc 5)

def isReservedDeviceBase (base : Chars) (len : Nat) : Option Bool := do
  if len > 4 then
    return false
  else
    let out ← store (← upperBase base len) len 0
    (strcmpEq out (literal (lit "CON")) <||> strcmpEq out (literal (lit "PRN"))
        <||> strcmpEq out (literal (lit "AUX")) <||> strcmpEq out (literal (lit "NUL")))
      <||> (some (len == 4)
        <&&> (strncmpEq 3 out (literal (lit "COM")) <||> strncmpEq 3 out (literal (lit "LPT")))
        <&&> (charAt out 3).map (fun digit => decide ('1'.toNat ≤ code digit))
        <&&> (charAt out 3).map (fun digit => decide (code digit ≤ '9'.toNat)))

def hasWindowsAds (value : Chars) : Option Bool := do
  match ← (splitRootParse value).run with
  | .error _ => return false
  | .ok root => (strchr (chr ':') root.rest).map Option.isSome

/-- The loop that looks for the end of the base among the first `len` characters. -/
def baseLen : Nat → Chars → Option Nat
  | 0, _ => some 0
  | len + 1, cursor => do
      let a ← charAt cursor 0
      if a = chr '.' ∨ a = chr ':' then
        some 0
      else
        (baseLen len (cursor.drop 1)).map (· + 1)

/-- The component loop of `cp_has_reserved_device_name`. -/
def deviceLoop : Nat → Chars → Option Bool
  | 0, _ => none
  | fuel + 1, cursor => do
      let slash ← strchr (chr '/') cursor
      let len ← componentLen cursor slash
      if ← some (decide (len > 0)) <&&> (isDot cursor len).map (!·) <&&> (isDotDot cursor len).map (!·)
          <&&> do isReservedDeviceBase cursor (← baseLen len cursor) then
        return true
      else
        match slash with
        | none => return false
        | some slash => deviceLoop fuel (← advance cursor (slash + 1))

def hasReservedDeviceName (value : Chars) : Option Bool := do
  match ← (splitRootParse value).run with
  | .error _ => return false
  | .ok root => deviceLoop root.rest.length root.rest

/-- The two policies, as `canonicalpath_normalize_n` tests them in two places. -/
def checkWindows (value : Chars) (options : WindowsOptions) : Run Unit := do
  if ← (some (options.rejectAds != 0) <&&> hasWindowsAds value : Option Bool) then
    fail .alternateDataStream
  else if ← (some (options.rejectDeviceNames != 0) <&&> hasReservedDeviceName value : Option Bool) then
    fail .reservedDeviceName
  else
    return ()

/-! ## WSL mounts -/

/-- The loop that drops repeated slashes in place.  A read outside the object ends it, so the cells are
fuel enough. -/
def collapseLoop : Nat → Chars → Nat → Nat → Option (Chars × Nat)
  | 0, _, _, _ => none
  | fuel + 1, mountRoot, i, out => do
      let a ← charAt mountRoot i
      if a = 0 then
        return (mountRoot, out)
      else if ← some (a != chr '/') <||> some (out == 0) <||> (charAt mountRoot (out - 1)).map (· != chr '/') then
        collapseLoop fuel (← store mountRoot out a) (i + 1) (out + 1)
      else
        collapseLoop fuel mountRoot (i + 1) out

def mountRootOf (options : WSLOptions) : Option Chars :=
  match options.mountRoot with
  | none => some (literal (lit "/mnt"))
  | some mountRoot => do
      if (← charAt mountRoot 0) = 0 then
        return literal (lit "/mnt")
      else
        return mountRoot

/-- The `prefix` of `cp_map_wsl_drive`. -/
def mountPrefix (options : WSLOptions) : Option Chars := do
  let mountRoot ← strdup (some (← mountRootOf options))
  let mountRoot ← trimRightSlashes mountRoot
  let (mountRoot, out) ← collapseLoop mountRoot.length mountRoot 0 0
  let mountRoot ← store mountRoot out 0
  let mountLen ← strlen mountRoot
  let leader ← memcpy (malloc (mountLen + 2)) 0 mountRoot mountLen
  let leader ← store leader mountLen (chr '/')
  store leader (mountLen + 1) 0

/-- The drive that is written for what is behind the mount, if it selects one. -/
def mapRest (value rest : Chars) : Option Chars := do
  let restLen ← strlen rest
  if ← some (restLen == 0) <||> (charAt rest 0).map (!isLetter ·) then
    strdup (some value)
  else if ← some (decide (restLen > 1)) <&&> (charAt rest 1).map (· != chr '/') then
    strdup (some value)
  else
    let result ← store (malloc (restLen + 3)) 0 (lower (← charAt rest 0))
    let result ← store result 1 (chr ':')
    let result ← store result 2 (chr '/')
    if restLen > 1 then
      let result ← memcpy result 3 (← advance rest 2) (restLen - 1)
      store result (restLen + 1) 0
    else
      store result 3 0

def mapWslDrive (value : Chars) (options : WSLOptions) : Option Chars := do
  if options.enabled = 0 then
    strdup (some value)
  else
    let leader ← mountPrefix options
    if !(← startsWith value leader) then
      strdup (some value)
    else
      mapRest value (← advance value (← strlen leader))

/-! ## Input -/

/-- A string with its length. -/
structure CpString where
  data : Chars
  len : Nat

/-- `cp_parse_hierarchical_uri_path`, of a URI behind its scheme. -/
abbrev HierarchicalParser := Chars → String → NormalizeOptions → Run CpString

def parseFileUri (parseHierarchical : HierarchicalParser) (input : CpString) (options : NormalizeOptions) :
    Run CpString := do
  if ← hasNul (some input.data) input.len then
    fail .nulByte
  else if ← startsWith input.data (literal (lit "file://")) then
    if options.uri.allowFileUri = 0 then
      fail .unsupportedURIScheme
    else
      parseHierarchical input.data "file://" options
  else if ← startsWith input.data (literal (lit "vscode-file://")) then
    if options.uri.allowVscodeFileUri = 0 then
      fail .unsupportedURIScheme
    else
      parseHierarchical input.data "vscode-file://" options
  else if ← hasUriScheme input.data then
    fail .unsupportedURIScheme
  else
    return { data := ← strndup (some input.data) input.len, len := input.len }

/-- The value itself, or the path of a URI. -/
def uriPath (parseHierarchical : HierarchicalParser) (value : Chars) (uriInput : Bool)
    (options : NormalizeOptions) : Run Chars := do
  if ← (some uriInput <||> equals options.sourceHost (literal (lit "vscode-file-uri")) : Option Bool) then
    let parsed ← parseFileUri parseHierarchical { data := value, len := ← strlen value } options
    if ← hasNul (some parsed.data) parsed.len then
      fail .nulByte
    else
      return parsed.data
  else
    return value

def isWslCandidate (value : Chars) (uriInput : Bool) (options : NormalizeOptions) : Option Bool :=
  some (options.wsl.enabled != 0)
    <&&> (charAt value 0).map (· == chr '/')
    <&&> ((charAt value 1).map (· != chr '/') <||> startsWith value (literal (lit "///")))
    <&&> (some uriInput <&&> isUriWindowsDrivePath value).map (!·)

/-- The WSL branch, on the options with the cleaned mount root. -/
def normalizeWslCandidate (value : Chars) (options effective : NormalizeOptions) : Run Chars := do
  let value ← prepareNativePosix value
  checkWindows value options.windows
  let posixCleaned ← cleanCanonical value
  if ← equals options.targetProfile (literal (lit "posix")) then
    return posixCleaned
  else
    mapWslDrive posixCleaned effective.wsl

/-- The branch that reads backslashes as separators. -/
def rewriteSeparators (value : Chars) (options : NormalizeOptions) : Run Chars := do
  let value ← replaceChar value (chr '\\') (chr '/')
  if ← startsWith value (literal (lit "//?/")) then
    let _ ← splitRootParse value
  let value ←
    if options.windows.preserveExtendedLength = 0 then
      liftM (unwrapWindowsExtendedPrefix value)
    else
      pure value
  if ← isUriWindowsDrivePath value then
    memmove value 1 (← strlen value)
  else
    return value

def interpretHost (parseHierarchical : HierarchicalParser) (value : Chars)
    (options effective : NormalizeOptions) : Run Chars := do
  if ← equals options.sourceHost (literal (lit "posix")) then
    prepareNativePosix value
  else if !(← equals options.sourceHost (literal (lit "canonical"))) then
    let uriInput ← hasUriScheme value
    let value ← uriPath parseHierarchical value uriInput options
    if ← isWslCandidate value uriInput options then
      normalizeWslCandidate value options effective
    else
      rewriteSeparators value options
  else
    return value

/-- The common end: roots, policies, cleanup and target profile. -/
def checkAndClean (value : Chars) (options : NormalizeOptions) : Run Chars := do
  let _ ← splitRootParse value
  checkWindows value options.windows
  let cleaned ← cleanCanonical value
  validateTargetProfile cleaned options.targetProfile
  return cleaned

/-- `canonicalpath_normalize_n`. -/
def normalizeN (parseHierarchical : HierarchicalParser) (raw : Option Chars) (rawLen : Nat)
    (options : Option NormalizeOptions) : Run Chars := do
  let options := options.getD defaultOptions
  if ← hasNul raw rawLen then
    fail .nulByte
  else
    let value ←
      if options.trimOuterWhitespace ≠ 0 then trimOuterAsciiWhitespace raw rawLen else strndup raw rawLen
    if (← charAt value 0) = 0 then
      fail .emptyPath
    else
      let mountRoot ← normalizeMountRoot options.wsl
      let effective :=
        { options with
          wsl := { options.wsl with mountRoot := some mountRoot, mountRootLen := ← strlen mountRoot } }
      if ← (equals options.sourceHost (literal (lit "posix")) <&&> some (options.wsl.enabled != 0) : Option Bool) then
        fail .invalidPath
      else
        let value ← interpretHost parseHierarchical value options effective
        checkAndClean value options

end C

end CanonicalPath
