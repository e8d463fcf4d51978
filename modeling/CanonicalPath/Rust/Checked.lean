import CanonicalPath.Library.Panic
import CanonicalPath.Library.Str
import CanonicalPath.Rust.Core

/-!
# Rust checked — the Rust port with its indexes and slices

`lib.rs` over texts of scalar values, from the root parser to the outputs.  A byte is read from the UTF-8 of a text and
a text is cut at byte offsets, so an index that is out of range and a cut inside a character are panics.  What cannot
panic is shared with `Rust.Core`.

* `splitRoot`, `cleanCanonical`, `parseCleanCanonical` : the canonical grammar
* `relative`, `join`, `joinParts` : composition
* `toWin32`, `toWsl`, `toPosix` : the outputs
-/

namespace CanonicalPath

namespace Rust

namespace Checked

open CodeUnit Segments Str

abbrev Run := Panicking PathError

def fail {β : Type} (code : ErrorCode) (message : String) : Run β :=
  throw { code := code, message := message }

/-! ## Drives and markers -/

def hasDriveRoot (value : List Char) : Option Bool :=
  let bytes := bytes value
  some (decide (bytes.length ≥ 3))
    <&&> (index bytes 0).map isLetter
    <&&> (index bytes 1).map (· == chr ':')
    <&&> (index bytes 2).map (· == chr '/')

def isDriveRelative (value : List Char) : Option Bool :=
  let bytes := bytes value
  some (decide (bytes.length ≥ 2))
    <&&> (index bytes 0).map isLetter
    <&&> (index bytes 1).map (· == chr ':')
    <&&> (some (bytes.length == 2) <||> (index bytes 2).map (· != chr '/'))

def isUriWindowsDrivePath (value : List Char) : Option Bool :=
  let bytes := bytes value
  some (decide (bytes.length ≥ 4))
    <&&> (index bytes 0).map (· == chr '/')
    <&&> (index bytes 1).map isLetter
    <&&> (index bytes 2).map (· == chr ':')
    <&&> (index bytes 3).map (· == chr '/')

def needsRelativeMarker (value : List Char) : Option Bool :=
  let bytes := bytes value
  some (decide (bytes.length ≥ 2))
    <&&> (index bytes 0).map isLetter
    <&&> (index bytes 1).map (· == chr ':')

def markRelative (value : List Char) : Option (List Char) := do
  if ← needsRelativeMarker value then
    return lit "./" ++ value
  else
    return value

def hasRelativeMarker (value : List Char) : Option Bool :=
  match stripPrefix value (lit "./") with
  | some tail => needsRelativeMarker tail
  | none => some false

def withoutRelativeMarker (value : List Char) : Option (List Char) := do
  if ← hasRelativeMarker value then
    sliceFrom value 2
  else
    return value

/-- The letter of a drive root, in another case. -/
def replaceDrive (letterCase : Char → Char) (value : List Char) : Option (List Char) := do
  if ← hasDriveRoot value then
    -- one byte is replaced, so the letter has to be a character of its own
    replaceRange value 0 1 ((← sliceTo value 1).map letterCase)
  else if ← (some (startsWith value (lit "//?/")) <&&> (sliceFrom value 4 >>= hasDriveRoot)) then
    replaceRange value 4 5 ((← slice value 4 5).map letterCase)
  else
    return value

def lowercaseDrive (value : List Char) : Option (List Char) :=
  replaceDrive lower value

/-! ## Roots -/

def splitUncRoot (value leader : List Char) : Run (SplitRoot Char) := do
  -- `splitn(3, '/')`: everything behind the share is the rest
  let parts := splitN (chr '/') 3 (← sliceFrom value (len leader))
  let server := parts[0]?.getD []
  let share := parts[1]?.getD []
  if server = [] ∨ share = [] ∨ (server = lit "." ∨ server = lit "..") ∨ share = lit "." ∨ share = lit ".." then
    fail .invalidPath "UNC root requires non-dot server and share components"
  else
    return { rootPrefix := leader ++ server ++ lit "/" ++ share, rest := parts[2]?.getD [] }

/-- The root kinds, before the check for a backslash. -/
def rootOf (value : List Char) : Run (SplitRoot Char) := do
  match stripPrefix value (lit "//?/") with
  | some tail =>
      if ← hasDriveRoot tail then
        return { rootPrefix := ← sliceTo value 7, rest := ← sliceFrom value 7 }
      else if startsWith tail (lit "UNC/") then
        splitUncRoot value (lit "//?/UNC/")
      else
        fail .invalidPath "extended root requires an absolute drive or UNC server and share"
  | none =>
      if ← hasDriveRoot value then
        return { rootPrefix := ← sliceTo value 3, rest := ← sliceFrom value 3 }
      else if startsWith value (lit "//") then
        splitUncRoot value (lit "//")
      else
        match stripPrefix value (lit "/") with
        | some rest => return { rootPrefix := lit "/", rest := rest }
        | none =>
            if ← isDriveRelative value then
              fail .driveRelativePath "Windows drive-relative paths are not canonical"
            else
              return { rootPrefix := [], rest := value }

def splitRoot (value : List Char) : Run (SplitRoot Char) := do
  let result ← rootOf value
  -- a backslash is data below a POSIX root and in a relative path
  if isWindowsRoot result.rootPrefix = true ∧ chr '\\' ∈ value then
    fail .invalidPath "Windows canonical components cannot contain a literal backslash"
  else
    return result

/-! ## Dot cleanup -/

/-- What `clean_canonical` writes for a root prefix and the joined components. -/
def serialize (rootPrefix joined : List Char) : Option (List Char) :=
  if rootPrefix.isEmpty then
    if joined.isEmpty then some (lit ".") else markRelative joined
  else if rootPrefix = lit "/" then
    if joined.isEmpty then some (lit "/") else some (lit "/" ++ joined)
  else if endsWith rootPrefix (lit "/") then
    if joined.isEmpty then some rootPrefix else some (rootPrefix ++ joined)
  else if joined.isEmpty then
    some rootPrefix
  else
    some (rootPrefix ++ lit "/" ++ joined)

def cleanCanonical (value : List Char) : Run (List Char) := do
  if value.isEmpty then
    fail .emptyPath "path is empty"
  else if nul ∈ value then
    fail .nulByte "path contains NUL"
  else
    let root ← splitRoot value
    let rootPrefix ← lowercaseDrive root.rootPrefix
    let parts ← Panicking.returned <| cleanLoop (!rootPrefix.isEmpty)
      { code := .invalidPath, message := "relative path escapes above its root" }
      [] (root.rest.splitOn (chr '/'))
    serialize rootPrefix (joinOn (chr '/') parts)

def parseCleanCanonical (value : List Char) : Run (SplitRoot Char) := do
  let cleaned ← cleanCanonical value
  let folded ← lowercaseDrive value
  -- clean input is what cleanup returns, up to the drive letter
  if cleaned ≠ folded then
    fail .invalidPath "path is not lexically cleaned canonical input"
  else
    let root ← splitRoot value
    if root.rootPrefix.isEmpty then
      if root.rest = lit "." then
        return { root with rest := [] }
      else
        return { root with rest := ← withoutRelativeMarker root.rest }
    else
      return root

/-! ## Native input -/

/-- The slashes are counted as bytes. -/
def prepareNativePosix (value : List Char) : Run (List Char) := do
  let leading := len value - len (value.dropWhile (· == chr '/'))
  if leading = 2 then
    fail .invalidPath "native POSIX paths with exactly two leading slashes are unsupported"
  else if leading > 2 then
    -- three slashes or more stand for one
    return lit "/" ++ (← sliceFrom value leading)
  else
    markRelative value

def cleanNativePosix (value : List Char) : Run (List Char) := do
  cleanCanonical (← prepareNativePosix value)

def normalizeMountRoot (value : List Char) : Run (List Char) := do
  if nul ∈ value then
    fail .nulByte "WSL mount root contains NUL"
  else
    let value := if value.isEmpty then lit "/mnt" else value
    if !startsWith value (lit "/") then
      fail .invalidPath "WSL mount root must be an absolute native POSIX path"
    else
      cleanNativePosix value

/-! ## Composition -/

def canonicalParts (value : List Char) : Run (List Char × List (List Char)) := do
  let root ← parseCleanCanonical value
  if root.rootPrefix.isEmpty then
    fail .invalidPath "path must be canonical absolute"
  else
    return (root.rootPrefix, if root.rest.isEmpty then [] else root.rest.splitOn (chr '/'))

/-- The loop over the components of the root. -/
def relativeLoop (targetParts : List (List Char)) : Nat → List (List Char) → Run Unit
  | _, [] => return ()
  | index, rootPart :: rootParts => do
      -- inside, because the target has at least as many components
      let targetPart ← (Str.index targetParts index : Option (List Char))
      if targetPart ≠ rootPart then
        fail .outsideRoot "target is outside root"
      else
        relativeLoop targetParts (index + 1) rootParts

def relative (root target : List Char) : Run (List Char) := do
  let (rootPrefix, rootParts) ← canonicalParts root
  let (targetPrefix, targetParts) ← canonicalParts target
  if rootPrefix ≠ targetPrefix ∨ targetParts.length < rootParts.length then
    fail .outsideRoot "target is outside root"
  else
    relativeLoop targetParts 0 rootParts
    if targetParts.length = rootParts.length then
      return lit "."
    else
      markRelative (joinOn (chr '/') (← sliceList targetParts rootParts.length targetParts.length))

def normalizeCanonicalRelative (raw : List Char) : Run (List Char) := do
  if raw.isEmpty then
    fail .emptyPath "relative path is empty"
  else if raw = lit "." then
    return lit "."
  else if nul ∈ raw then
    fail .nulByte "relative path contains NUL"
  else if ← (some (startsWith raw (lit "/")) <||> hasDriveRoot raw : Option Bool) then
    fail .absolutePath "relative path must not be absolute"
  else if ← isDriveRelative raw then
    fail .driveRelativePath "drive-relative path is not allowed"
  else
    let parts ← Panicking.returned <| cleanLoop false
      { code := .outsideRoot, message := "relative path escapes root" } [] (raw.splitOn (chr '/'))
    if parts.isEmpty then
      return lit "."
    else
      markRelative (joinOn (chr '/') parts)

def join (root relativePath : List Char) : Run (List Char) := do
  let parsed ← parseCleanCanonical root
  if isWindowsRoot parsed.rootPrefix = true ∧ chr '\\' ∈ relativePath then
    fail .invalidPath "Windows canonical components cannot contain a literal backslash"
  else
    let cleanRelative ← normalizeCanonicalRelative relativePath
    if cleanRelative = lit "." then
      return root
    else
      let relative ← withoutRelativeMarker cleanRelative
      if parsed.rootPrefix.isEmpty then
        markRelative (if parsed.rest.isEmpty then relative else parsed.rest ++ lit "/" ++ relative)
      else if endsWith root (lit "/") then
        return root ++ relative
      else
        return root ++ lit "/" ++ relative

/-- The loop of `join_parts` over the parts that are not empty. -/
def joinPartsLoop : List Char → List (List Char) → Run (List Char)
  | result, [] => return result
  | result, part :: parts => do
      if result.isEmpty then
        -- only checked: the part itself is the first result
        let _ ← parseCleanCanonical part
        joinPartsLoop part parts
      else
        joinPartsLoop (← join result part) parts

def joinParts (parts : List (List Char)) : Run (List Char) := do
  let result ← joinPartsLoop [] (parts.filter fun part => !part.isEmpty)
  if result.isEmpty then
    fail .emptyPath "join parts are empty"
  else
    return result

/-! ## Outputs -/

def toWin32 (canonical : List Char) : Run (List Char) := do
  let root ← parseCleanCanonical canonical
  let lossy : Bool := root.rootPrefix == lit "/" || decide (chr '\\' ∈ canonical)
  if ← (some lossy <||> hasRelativeMarker canonical : Option Bool) then
    fail .invalidPath "canonical path has no lossless Windows representation"
  else
    return replaceAll '/' '\\' (← replaceDrive upper canonical)

structure WslOptions where
  enabled : Bool
  mountRoot : List Char

/-- A byte as a character. -/
def toLowerAsciiByte (value : UInt8) : Char :=
  Char.ofNat (lower value).toNat

def toWsl (canonical : List Char) (options : WslOptions) : Run (List Char) := do
  let mountRoot ← normalizeMountRoot options.mountRoot
  let root ← parseCleanCanonical canonical
  if ← (some (isWindowsRoot root.rootPrefix) <&&> (hasDriveRoot root.rootPrefix).map (!·) : Option Bool) then
    fail .invalidPath "WSL mapping requires an ordinary Windows drive root"
  else if !(← hasDriveRoot root.rootPrefix) then
    return canonical
  else
    -- a drive root is not empty
    let first ← (index (bytes canonical) 0 : Option UInt8)
    let result := mountRoot.rdropWhile (· == chr '/') ++ lit "/" ++ [toLowerAsciiByte first]
    if root.rest.isEmpty then
      return result
    else
      return result ++ lit "/" ++ root.rest

def toPosix (canonical : List Char) : Run (List Char) := do
  let root ← parseCleanCanonical canonical
  if isWindowsRoot root.rootPrefix then
    fail .invalidPath "Windows roots require an explicit host mapping"
  else
    return canonical

end Checked

end Rust

end CanonicalPath
