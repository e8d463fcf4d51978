import CanonicalPath.Contract
import CanonicalPath.Library.CodeUnit
import CanonicalPath.Library.Segments

/-!
# TS internal — the grammar of the TypeScript port

`internal.ts` of the TypeScript port, as far as `normalize` uses it.  Strings are sequences of
UTF-16 units, but the code only compares ASCII units, so it is written over any code unit; the
program is its instance at `UInt16`.

* `splitRoot` : the root parser, which folds the drive letter while parsing
* `unwrapWindowsExtendedPrefix` : reparses an extended root and rebuilds it without the prefix
* `cleanCanonical` : dot cleanup behind an atomic root
* `nativePOSIXRepresentation`, `mapWSLDrive` : native POSIX input and its mount mapping
-/

namespace CanonicalPath

/-- A JavaScript string. -/
abbrev Units := List UInt16

namespace TS

open CodeUnit Segments

inductive RootKind
  | relative
  | posix
  | drive
  | unc
  | extendedDrive
  | extendedUnc
  deriving DecidableEq, Repr

structure ParsedRoot (α : Type) where
  kind : RootKind
  rootPrefix : List α
  rest : List α
  deriving DecidableEq, Repr

def isWindowsRoot (kind : RootKind) : Bool :=
  kind != .posix && kind != .relative

variable {α : Type} [DecidableEq α]

/-! ## String tests -/

/-- `String.prototype.startsWith`. -/
def startsWith (value leader : List α) : Bool :=
  leader.isPrefixOf value

/-- `String.prototype.endsWith`. -/
def endsWith (value trailer : List α) : Bool :=
  trailer.isSuffixOf value

variable [CodeUnit α]

/-- The units of `/[A-Za-z0-9+.-]/`. -/
def isSchemeCode (n : Nat) : Bool :=
  isLetterCode n || ('0'.toNat ≤ n && n ≤ '9'.toNat) || n == '+'.toNat || n == '.'.toNat ||
    n == '-'.toNat

/-- `/^[A-Za-z][A-Za-z0-9+.-]*$/`. -/
def isScheme : List α → Bool
  | [] => false
  | a :: scheme => isLetter a && scheme.all fun b => isSchemeCode (code b)

def hasUriScheme (value : List α) : Bool :=
  match before (lit "://") value with
  | none => false
  | some scheme => scheme != [] && isScheme scheme

def hasDriveRoot : List α → Bool
  | a :: b :: c :: _ => isLetter a && b == chr ':' && c == chr '/'
  | _ => false

def needsRelativeMarker : List α → Bool
  | a :: b :: _ => isLetter a && b == chr ':'
  | _ => false

def isDriveRelative (value : List α) : Bool :=
  -- beyond the end there is no third unit, and `undefined` is no slash either
  needsRelativeMarker value && (value.length == 2 || value[2]? != some (chr '/'))

def isUriWindowsDrivePath : List α → Bool
  | a :: b :: c :: d :: _ => a == chr '/' && isLetter b && c == chr ':' && d == chr '/'
  | _ => false

def isAbsolutePathLike (value : List α) : Bool :=
  startsWith value (lit "/") || startsWith value (lit "\\\\") || hasDriveRoot (replaceAll '\\' '/' value)

/-! ## Roots -/

def requireUNCParts : List (List α) → Except PathError Unit
  | server :: share :: _ =>
      if server = [] ∨ share = [] ∨ server = lit "." ∨ server = lit ".." ∨ share = lit "." ∨
          share = lit ".." then
        newError .invalidPath "UNC path requires a server and share"
      else
        .ok ()
  | _ => newError .invalidPath "UNC path requires a server and share"

/-- The two UNC branches of `splitRoot`, which split everything behind their leader. -/
def splitUNC (kind : RootKind) (leader : List α) (parts : List (List α)) :
    Except PathError (ParsedRoot α) := do
  -- the parts are checked first, so both exist where they are read
  requireUNCParts parts
  .ok {
    kind := kind
    rootPrefix := leader ++ parts.headD [] ++ lit "/" ++ (parts.drop 1).headD []
    rest := joinOn (chr '/') (parts.drop 2)
  }

/-- The branches of `splitRoot`, before its backslash check. -/
def splitRootBranches (value : List α) : Except PathError (ParsedRoot α) :=
  if startsWith value (lit "//?/") then
    if hasDriveRoot (value.drop 4) then
      .ok {
        kind := .extendedDrive
        -- the drive letter is folded here, while parsing
        rootPrefix := lit "//?/" ++ ((value.drop 4).take 1).map lower ++ lit ":/"
        rest := (value.drop 4).drop 3
      }
    else if startsWith (value.drop 4) (lit "UNC/") then
      splitUNC .extendedUnc (lit "//?/UNC/") (((value.drop 4).drop 4).splitOn (chr '/'))
    else
      newError .invalidPath "unsupported or malformed extended root"
  else if hasDriveRoot value then
    .ok { kind := .drive, rootPrefix := (value.take 1).map lower ++ lit ":/", rest := value.drop 3 }
  else if startsWith value (lit "//") then
    splitUNC .unc (lit "//") ((value.drop 2).splitOn (chr '/'))
  else if startsWith value (lit "/") then
    .ok { kind := .posix, rootPrefix := lit "/", rest := value.drop 1 }
  else if isDriveRelative value then
    newError .driveRelativePath "unmarked drive-relative path"
  else
    .ok { kind := .relative, rootPrefix := [], rest := value }

/-- Parse only canonical syntax: raw host separators and URI transport are handled by `normalize`. -/
def splitRoot (value : List α) : Except PathError (ParsedRoot α) :=
  if nul ∈ value then
    newError .nulByte "path contains NUL"
  else do
    let result ← splitRootBranches value
    -- no path is read with a backslash inside a Windows root
    if isWindowsRoot result.kind = true ∧ chr '\\' ∈ value then
      newError .invalidPath "canonical Windows components cannot contain backslash"
    else
      .ok result

def unwrapWindowsExtendedPrefix (value : List α) : Except PathError (List α) :=
  if startsWith value (lit "//?/") then do
    -- the whole value is parsed, and the ordinary root is spelled again from the parse
    let root ← splitRoot value
    match root.kind with
    | .extendedDrive => .ok (root.rootPrefix.drop 4 ++ root.rest)
    | .extendedUnc =>
        .ok (lit "//" ++ root.rootPrefix.drop 8 ++ if root.rest = [] then [] else lit "/" ++ root.rest)
    | _ => newError .invalidPath "unsupported extended root"
  else
    .ok value

/-! ## Dot cleanup -/

def markRelative (value : List α) : List α :=
  if value = [] then lit "." else if needsRelativeMarker value then lit "./" ++ value else value

/-- The component loop of `cleanComponents`, from the parts collected so far. -/
def cleanComponentsLoop (absolute : Bool) (outsideCode : ErrorCode) :
    List (List α) → List (List α) → Except PathError (List (List α))
  | parts, [] => .ok parts
  | parts, part :: more =>
      if part = [] ∨ part = lit "." then
        cleanComponentsLoop absolute outsideCode parts more
      else if part = lit ".." then
        if 0 < parts.length then
          cleanComponentsLoop absolute outsideCode parts.dropLast more
        else if !absolute then
          newError outsideCode "relative path escapes above its root"
        else
          cleanComponentsLoop absolute outsideCode parts more
      else
        cleanComponentsLoop absolute outsideCode (parts ++ [part]) more

def cleanComponents (rest : List α) (absolute : Bool) (outsideCode : ErrorCode) :
    Except PathError (List (List α)) :=
  cleanComponentsLoop absolute outsideCode [] (rest.splitOn (chr '/'))

/-- The string `cleanCanonical` writes for a root and the joined components that are left. -/
def joinRoot (root : ParsedRoot α) (joined : List α) : List α :=
  if root.kind = .relative then
    markRelative joined
  else if joined = [] then
    root.rootPrefix
  else if endsWith root.rootPrefix (lit "/") then
    root.rootPrefix ++ joined
  else
    root.rootPrefix ++ lit "/" ++ joined

def cleanCanonical (value : List α) : Except PathError (List α) :=
  if value = [] then
    newError .emptyPath "path is empty"
  else do
    let root ← splitRoot value
    -- the NUL check is part of `splitRoot` here
    let parts ← cleanComponents root.rest (root.kind != .relative) .invalidPath
    .ok (joinRoot root (joinOn (chr '/') parts))

/-! ## Native POSIX input and WSL mounts -/

def nativePOSIXRepresentation (value : List α) : Except PathError (List α) :=
  if startsWith value (lit "//") && !startsWith value (lit "///") then
    newError .invalidPath "implementation-defined POSIX double root is unsupported"
  else if !startsWith value (lit "/") then
    -- every relative path is marked, whether or not it looks like a drive
    .ok (lit "./" ++ value)
  else
    .ok (lit "/" ++ value.dropWhile (· == chr '/'))

/-- The default mount root stands for an absent and for an empty one. -/
def defaultMountRoot : Option (List α) → List α
  | none => lit "/mnt"
  | some value => if value = [] then lit "/mnt" else value

def normalizeMountRoot (value : Option (List α)) : Except PathError (List α) :=
  if nul ∈ defaultMountRoot value then
    newError .nulByte "mountRoot contains NUL"
  else if !startsWith (defaultMountRoot value) (lit "/") then
    newError .invalidPath "mountRoot must be an absolute POSIX path"
  else do
    let native ← nativePOSIXRepresentation (defaultMountRoot value)
    cleanCanonical native

structure WSLOptions (α : Type) where
  enabled : Option Bool := none
  mountRoot : Option (List α) := none
  deriving DecidableEq, Repr

/-- `options?.enabled` in a condition. -/
def wslEnabled {α : Type} (options : Option (WSLOptions α)) : Bool :=
  (options.bind fun wsl => wsl.enabled).getD false

/-- `options?.mountRoot`. -/
def wslMountRoot {α : Type} (options : Option (WSLOptions α)) : Option (List α) :=
  options.bind fun wsl => wsl.mountRoot

/-- The mount root with exactly one separator behind it. -/
def mountPrefix (mountRoot : List α) : List α :=
  if mountRoot = lit "/" then lit "/" else mountRoot ++ lit "/"

/-- A letter that is a whole component selects a drive. -/
def selectsDrive : List α → Bool
  | [] => false
  | [d] => isLetter d
  | d :: slash :: _ => isLetter d && slash == chr '/'

/-- What `mapWSLDrive` does with the text behind the mount prefix. -/
def mapDriveRest (rest : List α) : Except PathError (Option (List α)) :=
  if !selectsDrive rest then
    .ok none
  else if chr '\\' ∈ rest then
    -- a drive path cannot keep a backslash that was part of a POSIX name
    newError .invalidPath "WSL tail cannot preserve a literal backslash in a Windows identity"
  else
    .ok (some ((rest.take 1).map lower ++ lit ":/" ++ if rest.length = 1 then [] else rest.drop 2))

def mapWSLDrive (value : List α) (options : Option (WSLOptions α)) :
    Except PathError (Option (List α)) :=
  if !wslEnabled options then
    .ok none
  else do
    let mountRoot ← normalizeMountRoot (wslMountRoot options)
    if !startsWith value (mountPrefix mountRoot) then
      .ok none
    else
      mapDriveRest (value.drop (mountPrefix mountRoot).length)

/-! ## Windows component policies -/

def hasWindowsADS (value : List α) : Except PathError Bool := do
  let root ← splitRoot value
  .ok (decide (chr ':' ∈ root.rest))

/-- `/[1-9]/`. -/
def isPortCode (n : Nat) : Bool :=
  '1'.toNat ≤ n && n ≤ '9'.toNat

/-- `/^(COM|LPT)[1-9]$/`. -/
def isReservedPort (base : List α) : Bool :=
  base.length == 4 &&
    (matches? (Pattern.literal "COM" ++ [isPortCode]) base ||
      matches? (Pattern.literal "LPT" ++ [isPortCode]) base)

def isReservedDeviceBase (base : List α) : Bool :=
  if base ∈ [lit "CON", lit "PRN", lit "AUX", lit "NUL"] then true else isReservedPort base

/-- The part of a component before its first dot or colon. -/
def deviceBase (part : List α) : List α :=
  part.takeWhile fun a => a != chr '.' && a != chr ':'

def isReservedDevicePart (part : List α) : Bool :=
  if part = [] ∨ part = lit "." ∨ part = lit ".." then
    false
  else
    isReservedDeviceBase ((deviceBase part).map upper)

def hasReservedDeviceName (value : List α) : Except PathError Bool := do
  let root ← splitRoot value
  .ok ((root.rest.splitOn (chr '/')).any isReservedDevicePart)

end TS

end CanonicalPath
