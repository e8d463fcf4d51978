import CanonicalPath.Go.Grammar

/-!
# Rust core — canonical grammar and composition of the Rust port

`lib.rs` of the Rust port, from the root parser to `join_parts`.  A Rust string is UTF-8; the code looks at ASCII bytes
only, so it is written over any code unit.

* `splitRoot` : the root parser, as a struct with the root prefix and the rest
* `parseCleanCanonical` : the operand check
* `join`, `joinParts` : composition, where the first part is an operand
-/

namespace CanonicalPath

namespace Rust

open CodeUnit Segments

variable {α : Type} [DecidableEq α]

/-- `str::strip_prefix`. -/
def stripPrefix (value leader : List α) : Option (List α) :=
  if leader.isPrefixOf value then some (value.drop leader.length) else none

def startsWith (value leader : List α) : Bool :=
  leader.isPrefixOf value

def endsWith (value trailer : List α) : Bool :=
  trailer.isSuffixOf value

variable [CodeUnit α]

/-! ## Drives and markers -/

def hasDriveRoot : List α → Bool
  | a :: b :: c :: _ => isLetter a && b == chr ':' && c == chr '/'
  | _ => false

def isDriveRelative : List α → Bool
  | [a, b] => isLetter a && b == chr ':'
  | a :: b :: c :: _ => isLetter a && b == chr ':' && c != chr '/'
  | _ => false

def needsRelativeMarker : List α → Bool
  | a :: b :: _ => isLetter a && b == chr ':'
  | _ => false

def markRelative (value : List α) : List α :=
  if needsRelativeMarker value then lit "./" ++ value else value

def hasRelativeMarker (value : List α) : Bool :=
  (stripPrefix value (lit "./")).any needsRelativeMarker

def withoutRelativeMarker (value : List α) : List α :=
  if hasRelativeMarker value then value.drop 2 else value

/-- The letter of a drive root, in lower case. -/
def lowercaseDrive (value : List α) : List α :=
  if hasDriveRoot value then
    (value.take 1).map lower ++ value.drop 1
  else if startsWith value (lit "//?/") && hasDriveRoot (value.drop 4) then
    value.take 4 ++ (((value.drop 4).take 1).map lower ++ value.drop 5)
  else
    value

/-! ## Roots -/

structure SplitRoot (α : Type) where
  rootPrefix : List α
  rest : List α
  deriving DecidableEq, Repr

def isWindowsRoot (rootPrefix : List α) : Bool :=
  !rootPrefix.isEmpty && rootPrefix != lit "/"

def splitUncRoot (value leader : List α) : Except PathError (SplitRoot α) :=
  let parts := splitN (chr '/') 3 (value.drop leader.length)
  let server := parts[0]?.getD []
  let share := parts[1]?.getD []
  if server = [] ∨ share = [] ∨ (server = lit "." ∨ server = lit "..") ∨ share = lit "." ∨ share = lit ".." then
    newError .invalidPath "UNC root requires non-dot server and share components"
  else
    .ok { rootPrefix := leader ++ server ++ lit "/" ++ share, rest := parts[2]?.getD [] }

/-- The root kinds, before the check for a backslash. -/
def rootOf (value : List α) : Except PathError (SplitRoot α) :=
  match stripPrefix value (lit "//?/") with
  | some tail =>
      if hasDriveRoot tail then
        .ok { rootPrefix := value.take 7, rest := value.drop 7 }
      else if startsWith tail (lit "UNC/") then
        splitUncRoot value (lit "//?/UNC/")
      else
        newError .invalidPath "extended root requires an absolute drive or UNC server and share"
  | none =>
      if hasDriveRoot value then
        .ok { rootPrefix := value.take 3, rest := value.drop 3 }
      else if startsWith value (lit "//") then
        splitUncRoot value (lit "//")
      else
        match stripPrefix value (lit "/") with
        | some rest => .ok { rootPrefix := lit "/", rest := rest }
        | none =>
            if isDriveRelative value then
              newError .driveRelativePath "Windows drive-relative paths are not canonical"
            else
              .ok { rootPrefix := [], rest := value }

def splitRoot (value : List α) : Except PathError (SplitRoot α) := do
  let result ← rootOf value
  if isWindowsRoot result.rootPrefix = true ∧ chr '\\' ∈ value then
    newError .invalidPath "Windows canonical components cannot contain a literal backslash"
  else
    .ok result

/-! ## Dot cleanup -/

/-- The component loop; `absolute` says that there is a root to stop at. -/
def cleanLoop (absolute : Bool) (escape : PathError) : List (List α) → List (List α) → Except PathError (List (List α))
  | parts, [] => .ok parts
  | parts, part :: more =>
      if part.isEmpty || part == lit "." then
        cleanLoop absolute escape parts more
      else if part = lit ".." then
        if !parts.isEmpty then
          cleanLoop absolute escape parts.dropLast more
        else if absolute then
          cleanLoop absolute escape parts more
        else
          .error escape
      else
        cleanLoop absolute escape (parts ++ [part]) more

/-- What `clean_canonical` writes for a root prefix and the joined components. -/
def serialize (rootPrefix joined : List α) : List α :=
  if rootPrefix.isEmpty then
    if joined.isEmpty then lit "." else markRelative joined
  else if rootPrefix = lit "/" then
    if joined.isEmpty then lit "/" else lit "/" ++ joined
  else if endsWith rootPrefix (lit "/") then
    if joined.isEmpty then rootPrefix else rootPrefix ++ joined
  else if joined.isEmpty then
    rootPrefix
  else
    rootPrefix ++ lit "/" ++ joined

def cleanCanonical (value : List α) : Except PathError (List α) :=
  if value.isEmpty then
    newError .emptyPath "path is empty"
  else if nul ∈ value then
    newError .nulByte "path contains NUL"
  else do
    let root ← splitRoot value
    let rootPrefix := lowercaseDrive root.rootPrefix
    let parts ← cleanLoop (!rootPrefix.isEmpty)
      { code := .invalidPath, message := "relative path escapes above its root" }
      [] (root.rest.splitOn (chr '/'))
    .ok (serialize rootPrefix (joinOn (chr '/') parts))

def parseCleanCanonical (value : List α) : Except PathError (SplitRoot α) := do
  let cleaned ← cleanCanonical value
  if cleaned ≠ lowercaseDrive value then
    newError .invalidPath "path is not lexically cleaned canonical input"
  else do
    let root ← splitRoot value
    if root.rootPrefix.isEmpty then
      .ok { rootPrefix := root.rootPrefix,
            rest := if root.rest = lit "." then [] else withoutRelativeMarker root.rest }
    else
      .ok root

/-! ## Composition -/

def normalizeCanonicalRelative (raw : List α) : Except PathError (List α) :=
  if raw.isEmpty then
    newError .emptyPath "relative path is empty"
  else if raw = lit "." then
    .ok (lit ".")
  else if nul ∈ raw then
    newError .nulByte "relative path contains NUL"
  else if startsWith raw (lit "/") || hasDriveRoot raw then
    newError .absolutePath "relative path must not be absolute"
  else if isDriveRelative raw then
    newError .driveRelativePath "drive-relative path is not allowed"
  else do
    let parts ← cleanLoop false { code := .outsideRoot, message := "relative path escapes root" }
      [] (raw.splitOn (chr '/'))
    if parts.isEmpty then
      .ok (lit ".")
    else
      .ok (markRelative (joinOn (chr '/') parts))

def join (root relativePath : List α) : Except PathError (List α) := do
  let parsed ← parseCleanCanonical root
  if isWindowsRoot parsed.rootPrefix = true ∧ chr '\\' ∈ relativePath then
    newError .invalidPath "Windows canonical components cannot contain a literal backslash"
  else do
    let cleanRelative ← normalizeCanonicalRelative relativePath
    if cleanRelative = lit "." then
      .ok root
    else
      let relative := withoutRelativeMarker cleanRelative
      if parsed.rootPrefix.isEmpty then
        .ok (markRelative (if parsed.rest.isEmpty then relative else parsed.rest ++ lit "/" ++ relative))
      else if endsWith root (lit "/") then
        .ok (root ++ relative)
      else
        .ok (root ++ lit "/" ++ relative)

/-- The loop of `join_parts` over the parts that are not empty. -/
def joinPartsLoop : List α → List (List α) → Except PathError (List α)
  | result, [] => .ok result
  | result, part :: parts => do
      if result.isEmpty then
        -- only checked: the part itself is the first result
        let _ ← parseCleanCanonical part
        joinPartsLoop part parts
      else
        let joined ← join result part
        joinPartsLoop joined parts

def joinParts (parts : List (List α)) : Except PathError (List α) := do
  let result ← joinPartsLoop [] (parts.filter fun part => !part.isEmpty)
  if result.isEmpty then
    newError .emptyPath "join parts are empty"
  else
    .ok result

end Rust

end CanonicalPath
