import CanonicalPath.Contract
import CanonicalPath.Library.CodeUnit
import CanonicalPath.Library.Segments

/-!
# Unity grammar — roots and dot cleanup of the C# port

The grammar functions of `CanonicalPath.cs` in the Unity runtime.  C# strings are sequences of UTF-16
units, but the code only compares ASCII units, so it is written over any code unit; the program is its
instance at `UInt16`.  `ToLowerInvariant` is called on ASCII letters; `ToUpperInvariant` is followed by
a comparison with device names, for which ASCII case is enough, as in the Go port.

* `parseGrammar` : the root parser, of canonical grammar and of native POSIX input
* `cleanGrammar` : dot cleanup behind an atomic root
* `normalizeMount` : the WSL mount root
* `isReservedDeviceBase`, `validateTargetProfile` : device names and root kinds
-/

namespace CanonicalPath

namespace Unity

open CodeUnit Segments

/-- The `Kind` of a root. -/
inductive RootKind
  | relative
  | posix
  | drive
  | unc
  | extendedDrive
  | extendedUNC
  deriving DecidableEq, Repr

structure GrammarRoot (α : Type) where
  kind : RootKind
  rootPrefix : List α
  rest : List α
  deriving DecidableEq, Repr

def GrammarRoot.windows {α : Type} (root : GrammarRoot α) : Bool :=
  root.kind != .relative && root.kind != .posix

variable {α : Type} [DecidableEq α]

/-! ## String tests -/

/-- `StartsWith` with ordinal comparison. -/
def startsWith (value leader : List α) : Bool :=
  leader.isPrefixOf value

/-- `EndsWith` with ordinal comparison. -/
def endsWith (value trailer : List α) : Bool :=
  trailer.isSuffixOf value

variable [CodeUnit α]

def hasDriveRoot : List α → Bool
  | a :: b :: c :: _ => isLetter a && b == chr ':' && c == chr '/'
  | _ => false

def isDriveRelative : List α → Bool
  | a :: b :: more => isLetter a && b == chr ':' && (more == [] || more.head? != some (chr '/'))
  | _ => false

def isUriWindowsDrivePath : List α → Bool
  | a :: b :: c :: d :: _ => a == chr '/' && isLetter b && c == chr ':' && d == chr '/'
  | _ => false

def markRelative (value : List α) : List α :=
  match value with
  | a :: b :: _ => if isLetter a && b == chr ':' then lit "./" ++ value else value
  | _ => value

/-! ## Roots -/

def parseUNCRoot (value leader : List α) (kind : RootKind) : Except PathError (GrammarRoot α) :=
  match value.splitOn (chr '/') with
  | server :: share :: more =>
      if server = [] ∨ share = [] ∨ server = lit "." ∨ server = lit ".." ∨ share = lit "." ∨
          share = lit ".." then
        newError .invalidPath "UNC requires a server and share"
      else
        .ok {
          kind := kind
          rootPrefix := leader ++ server ++ lit "/" ++ share
          rest := joinOn (chr '/') more }
  | _ => newError .invalidPath "UNC requires a server and share"

/-- The root of native POSIX input. -/
def parseNative (value : List α) : Except PathError (GrammarRoot α) :=
  if startsWith value (lit "//") && !startsWith value (lit "///") then
    newError .invalidPath "double-leading-slash POSIX paths are unsupported"
  else if value.head? = some (chr '/') then
    .ok { kind := .posix, rootPrefix := lit "/", rest := value.dropWhile (· == chr '/') }
  else
    .ok { kind := .relative, rootPrefix := [], rest := value }

/-- The branches of canonical grammar, before the backslash check. -/
def parseCanonical (value : List α) : Except PathError (GrammarRoot α) :=
  if startsWith value (lit "//?/") then
    let tail := value.drop 4
    if hasDriveRoot tail then
      .ok {
        kind := .extendedDrive
        rootPrefix := lit "//?/" ++ (tail.take 1).map lower ++ lit ":/"
        rest := tail.drop 3 }
    else if startsWith tail (lit "UNC/") then
      parseUNCRoot (tail.drop 4) (lit "//?/UNC/") .extendedUNC
    else
      newError .invalidPath "unsupported or incomplete extended root"
  else if hasDriveRoot value then
    .ok { kind := .drive, rootPrefix := (value.take 1).map lower ++ lit ":/", rest := value.drop 3 }
  -- a drive without a root is refused before the slashes are looked at
  else if isDriveRelative value then
    newError .driveRelativePath "unmarked drive-relative path"
  else if startsWith value (lit "//") then
    parseUNCRoot (value.drop 2) (lit "//") .unc
  else if value.head? = some (chr '/') then
    .ok { kind := .posix, rootPrefix := lit "/", rest := value.drop 1 }
  else
    .ok { kind := .relative, rootPrefix := [], rest := value }

def parseGrammar (value : List α) (nativePosix : Bool := false) : Except PathError (GrammarRoot α) :=
  if value = [] then
    newError .emptyPath "path is empty"
  else if nul ∈ value then
    newError .nulByte "path contains NUL"
  else if nativePosix then
    parseNative value
  else do
    let result ← parseCanonical value
    if result.windows = true ∧ chr '\\' ∈ value then
      newError .invalidPath "Windows canonical components cannot contain backslash"
    else
      .ok result

/-! ## Dot cleanup -/

/-- The component loop of `cleanGrammar`. -/
def cleanParts (rootPrefix : List α) (escapeCode : ErrorCode) :
    List (List α) → List (List α) → Except PathError (List (List α))
  | parts, [] => .ok parts
  | parts, part :: more =>
      if part = [] ∨ part = lit "." then
        cleanParts rootPrefix escapeCode parts more
      else if part = lit ".." then
        if parts.length > 0 then
          cleanParts rootPrefix escapeCode parts.dropLast more
        else if rootPrefix = [] then
          newError escapeCode "relative path escapes its root"
        else
          cleanParts rootPrefix escapeCode parts more
      else
        cleanParts rootPrefix escapeCode (parts ++ [part]) more

/-- What `cleanGrammar` returns for a root and the components that are left. -/
def writeRoot (rootPrefix joined : List α) : List α :=
  if rootPrefix = [] then
    if joined = [] then lit "." else markRelative joined
  else
    -- a drive and the POSIX root bring their separator
    rootPrefix ++ (if joined = [] ∨ endsWith rootPrefix (lit "/") = true then [] else lit "/") ++ joined

def cleanGrammar (value : List α) (nativePosix : Bool := false)
    (escapeCode : ErrorCode := .invalidPath) : Except PathError (List α) := do
  let parsed ← parseGrammar value nativePosix
  let parts ← cleanParts parsed.rootPrefix escapeCode [] (parsed.rest.splitOn (chr '/'))
  .ok (writeRoot parsed.rootPrefix (joinOn (chr '/') parts))

/-! ## Mount roots -/

/-- The mount root of the options; `none` is a null string. -/
def normalizeMount (value : Option (List α)) : Except PathError (List α) :=
  match value with
  | none => .ok (lit "/mnt")
  | some value =>
      if value = [] then
        .ok (lit "/mnt")
      else if value = lit "/mnt" ∨ value = lit "/" then
        -- nothing to clean
        .ok value
      else do
        let parsed ← parseGrammar value true
        if parsed.kind ≠ .posix then
          newError .invalidPath "WSL mount root must be absolute POSIX"
        else
          cleanGrammar value true

/-! ## Device names -/

/-- The component up to its first dot or colon. -/
def splitComponentBase (value : List α) : List α :=
  value.take (min (value.idxOf (chr '.')) (value.idxOf (chr ':')))

/-- The numbered ports of `isReservedDeviceBase`. -/
def isReservedPort : List α → Bool
  | [a, b, c, digit] =>
      (startsWith [a, b, c, digit] (lit "COM") || startsWith [a, b, c, digit] (lit "LPT")) &&
        (decide ('1'.toNat ≤ code digit) && decide (code digit ≤ '9'.toNat))
  | _ => false

def isReservedDeviceBase (value : List α) : Bool :=
  if value = lit "CON" ∨ value = lit "PRN" ∨ value = lit "AUX" ∨ value = lit "NUL" then
    true
  else
    isReservedPort value

/-! ## Target profiles -/

def validateTargetProfile (value : List α) (targetProfile : Option TargetProfile) :
    Except PathError Unit := do
  let parsed ← parseGrammar value
  match targetProfile with
  | none => .ok ()
  | some .portable => .ok ()
  | some .posix =>
      if !parsed.windows then
        .ok ()
      else
        newError .invalidPath "canonical root is incompatible with target profile"
  | some .win32Drive =>
      if parsed.kind = .relative ∨ parsed.kind = .drive ∨ parsed.kind = .extendedDrive then
        .ok ()
      else
        newError .invalidPath "canonical root is incompatible with target profile"
  | some (.other _) => newError .invalidPath "canonical root is incompatible with target profile"

end Unity

end CanonicalPath
