import CanonicalPath.Unity.Grammar

/-!
# Unity normalize — from host input to a canonical string

`CanonicalPath.Normalize` of the C# port.  The options record and each of its parts may be null.
`ParseHierarchicalURIPath` is a parameter: it is only called behind one of the two file schemes.
-/

namespace CanonicalPath

namespace Unity

open CodeUnit Segments

/-! ## Options -/

structure WSLOptions (α : Type) where
  enabled : Bool := false
  mountRoot : Option (List α) := none
  deriving DecidableEq, Repr

structure URIOptions where
  allowFileUri : Bool := false
  allowVSCodeFileUri : Bool := false
  rejectEncodedSlash : Option Bool := none
  deriving DecidableEq, Repr

structure WindowsOptions where
  preserveExtendedLength : Bool := false
  rejectDeviceNames : Bool := false
  rejectADS : Bool := false
  deriving DecidableEq, Repr

structure NormalizeOptions (α : Type) where
  sourceHost : Option HostKind := none
  targetProfile : Option TargetProfile := none
  wsl : Option (WSLOptions α) := none
  uri : Option URIOptions := none
  windows : Option WindowsOptions := none
  trimOuterWhitespace : Bool := false
  deriving DecidableEq, Repr

section

variable {α : Type} (options : Option (NormalizeOptions α))

def optionSourceHost : Option HostKind :=
  options.bind fun options => options.sourceHost

def optionTargetProfile : Option TargetProfile :=
  options.bind fun options => options.targetProfile

/-- The `Windows` part, with everything off where it is null. -/
def optionWindows : WindowsOptions :=
  (options.bind fun options => options.windows).getD {}

def preserveExtendedLength : Bool :=
  (optionWindows options).preserveExtendedLength

def rejectADS : Bool :=
  (optionWindows options).rejectADS

def rejectDeviceNames : Bool :=
  (optionWindows options).rejectDeviceNames

def optionWSL : Option (WSLOptions α) :=
  options.bind fun options => options.wsl

/-- `wsl != null && wsl.Enabled`. -/
def wslEnabled : Bool :=
  ((optionWSL options).map fun wsl => wsl.enabled).getD false

/-- `wsl == null ? null : wsl.MountRoot`. -/
def wslMountRoot : Option (List α) :=
  (optionWSL options).bind fun wsl => wsl.mountRoot

def optionURI : Option URIOptions :=
  options.bind fun options => options.uri

end

variable {α : Type} [DecidableEq α] [CodeUnit α]

/-! ## Policies -/

def validateWindowsComponents (value : List α) (options : Option (NormalizeOptions α))
    (nativePosix : Bool := false) : Except PathError Unit :=
  if !rejectADS options && !rejectDeviceNames options then
    -- without a policy the value is not parsed either
    .ok ()
  else do
    let parsed ← parseGrammar value nativePosix
    if rejectADS options = true ∧ chr ':' ∈ parsed.rest then
      newError .alternateDataStream "Windows alternate data stream is not allowed"
    else if rejectDeviceNames options = true ∧ (parsed.rest.splitOn (chr '/')).any (fun part =>
        isReservedDeviceBase ((splitComponentBase part).map upper)) = true then
      newError .reservedDeviceName "Windows reserved device name is not allowed"
    else
      .ok ()

/-! ## URIs -/

/-- The units that may follow the letter of a scheme. -/
def isSchemeUnit (a : α) : Bool :=
  isLetter a || (decide ('0'.toNat ≤ code a) && decide (code a ≤ '9'.toNat)) || a == chr '+' ||
    a == chr '.' || a == chr '-'

def hasUriScheme (value : List α) : Bool :=
  match before (lit "://") value with
  | none => false
  | some [] => false
  | some (a :: scheme) => isLetter a && scheme.all isSchemeUnit

/-- `ParseHierarchicalURIPath`, of a URI behind its scheme. -/
abbrev HierarchicalParser (α : Type) :=
  List α → String → Option URIOptions → Except PathError (List α)

def parseFileUri (parseHierarchical : HierarchicalParser α) (uri : List α)
    (options : Option URIOptions) : Except PathError (List α) :=
  if nul ∈ uri then
    newError .nulByte "URI contains NUL"
  else if startsWith uri (lit "file://") then
    if (options.map fun uri => uri.allowFileUri) = some true then
      parseHierarchical uri "file://" options
    else
      newError .unsupportedURIScheme "file URI is not allowed"
  else if startsWith uri (lit "vscode-file://") then
    if (options.map fun uri => uri.allowVSCodeFileUri) = some true then
      parseHierarchical uri "vscode-file://" options
    else
      newError .unsupportedURIScheme "vscode-file URI is not allowed"
  else if hasUriScheme uri then
    newError .unsupportedURIScheme "unsupported URI scheme"
  else
    .ok uri

/-! ## Raw input -/

def isWSLCandidate (value : List α) (uriInput : Bool) (options : Option (NormalizeOptions α)) : Bool :=
  wslEnabled options && startsWith value (lit "/") &&
    (!startsWith value (lit "//") || startsWith value (lit "///")) &&
    !(uriInput && isUriWindowsDrivePath value)

/-- The drive that a cleaned path below the mount selects. -/
def mapMount (value mount : List α) : List α :=
  let leader := if mount = lit "/" then lit "/" else mount ++ lit "/"
  if startsWith value leader then
    match value.drop leader.length with
    | [] => value
    | [d] => if isLetter d then lower d :: lit ":/" else value
    | d :: slash :: tail =>
        if isLetter d && slash == chr '/' then lower d :: lit ":/" ++ tail else value
  else
    value

/-- The WSL branch. -/
def normalizeWSL (value mount : List α) (options : Option (NormalizeOptions α)) :
    Except PathError (List α) := do
  validateWindowsComponents value options true
  let cleaned ← cleanGrammar value true
  let mapped :=
    if optionTargetProfile options ≠ some .posix then mapMount cleaned mount else cleaned
  -- a mapped drive is canonical input again
  cleanGrammar mapped

def stripUriDriveSlash (value : List α) : List α :=
  if isUriWindowsDrivePath value then value.drop 1 else value

/-- An extended root is cut by its kind. -/
def cutExtended (value : List α) (kind : RootKind) (options : Option (NormalizeOptions α)) : List α :=
  if !preserveExtendedLength options then
    if kind = .extendedDrive then
      value.drop 4
    else if kind = .extendedUNC then
      lit "//" ++ value.drop 8
    else
      value
  else
    value

/-- The branch of everything else: backslashes are separators. -/
def normalizeWindows (value : List α) (options : Option (NormalizeOptions α)) :
    Except PathError (List α) := do
  let stripped := stripUriDriveSlash (replaceAll '\\' '/' value)
  let parsed ← parseGrammar stripped
  let cutValue := cutExtended stripped parsed.kind options
  validateWindowsComponents cutValue options
  cleanGrammar cutValue

/-! ## `Normalize` -/

/-- The value that the branch of the source host returns. -/
def interpretHost (parseHierarchical : HierarchicalParser α) (raw mount : List α)
    (options : Option (NormalizeOptions α)) : Except PathError (List α) :=
  if optionSourceHost options = some .posix then
    if wslEnabled options then
      newError .invalidPath "native POSIX input cannot enable WSL mapping"
    else do
      validateWindowsComponents raw options true
      cleanGrammar raw true
  else if optionSourceHost options = some .canonical then do
    validateWindowsComponents raw options
    cleanGrammar raw
  else do
    let uriInput := hasUriScheme raw
    let value ←
      if uriInput || optionSourceHost options == some .vscodeFileURI then
        parseFileUri parseHierarchical raw (optionURI options)
      else
        .ok raw
    if isWSLCandidate value uriInput options then
      normalizeWSL value mount options
    else
      normalizeWindows value options

/-- `Normalize` behind the trimming. -/
def normalizeTrimmed (parseHierarchical : HierarchicalParser α) (raw : List α)
    (options : Option (NormalizeOptions α)) : Except PathError (List α) :=
  if raw = [] then
    newError .emptyPath "path is empty"
  else if nul ∈ raw then
    newError .nulByte "path contains NUL"
  else do
    let mount ← normalizeMount (wslMountRoot options)
    let value ← interpretHost parseHierarchical raw mount options
    validateTargetProfile value (optionTargetProfile options)
    .ok value

/-- `char.IsWhiteSpace`, by the code of the unit. -/
def isWhiteSpace (n : Nat) : Bool :=
  (9 ≤ n && n ≤ 13) || n == 0x20 || n == 0x85 || n == 0xa0 || n == 0x1680 ||
    (0x2000 ≤ n && n ≤ 0x200a) || n == 0x2028 || n == 0x2029 || n == 0x202f || n == 0x205f ||
    n == 0x3000

/-- `Trim`. -/
def trim (value : List α) : List α :=
  ((value.dropWhile fun a => isWhiteSpace (code a)).reverse.dropWhile fun a =>
    isWhiteSpace (code a)).reverse

def optionTrims (options : Option (NormalizeOptions α)) : Bool :=
  (options.map fun options => options.trimOuterWhitespace).getD false

/-- `Normalize`; a null string is read as the empty one. -/
def normalize (parseHierarchical : HierarchicalParser α) (raw : List α)
    (options : Option (NormalizeOptions α)) : Except PathError (List α) :=
  normalizeTrimmed parseHierarchical (if optionTrims options then trim raw else raw) options

end Unity

end CanonicalPath
