import CanonicalPath.Go.Grammar

/-!
# Go relative — composition of canonical paths

`relative.go` of the Go port: `relative` and `join` on canonical operands, and `normalizeRelative`
for untrusted relative input.
-/

namespace CanonicalPath

namespace Go

open CodeUnit Segments

variable {α : Type} [DecidableEq α] [CodeUnit α]

def canonicalParts (value : List α) : Except PathError (List α × List (List α)) := do
  let split ← parseCleanCanonical value
  if split.1 = [] then
    newError .invalidPath "path must be canonical absolute"
  else if split.2 = [] then
    .ok (split.1, [])
  else
    .ok (split.1, split.2.splitOn (chr '/'))

def relative (root target : List α) : Except PathError (List α) := do
  let rootSplit ← canonicalParts root
  let targetSplit ← canonicalParts target
  if rootSplit.1 ≠ targetSplit.1 ∨ targetSplit.2.length < rootSplit.2.length then
    newError .outsideRoot "target is outside root"
  -- component by component, never by bytes
  else if rootSplit.2.isPrefixOf targetSplit.2 = false then
    newError .outsideRoot "target is outside root"
  else if targetSplit.2.length = rootSplit.2.length then
    .ok (lit ".")
  else
    .ok (markRelative (joinOn (chr '/') (targetSplit.2.drop rootSplit.2.length)))

/-- The components of a relative path, written with the relative marker where it needs one. -/
def normalizeCanonicalRelative (raw : List α) : Except PathError (List α) :=
  if raw = [] then
    newError .emptyPath "relative path is empty"
  else if nul ∈ raw then
    newError .nulByte "relative path contains NUL"
  else if hasPrefix raw (lit "/") || hasDriveRoot raw then
    newError .absolutePath "relative path must not be absolute"
  else if isDriveRelative raw then
    newError .driveRelativePath "drive-relative path is not allowed"
  else if raw = lit "." then
    .ok (lit ".")
  else do
    let parts ← cleanLoop false
      { code := .outsideRoot, message := "relative path escapes root" }
      [] (raw.splitOn (chr '/'))
    -- here a path that cleans to nothing is the root itself
    if parts = [] then
      .ok (lit ".")
    else
      .ok (markRelative (joinOn (chr '/') parts))

/-- What `join` writes for a cleaned relative path other than the single dot. -/
def joinClean (root : List α) (split : List α × List α) (cleanRel : List α) : List α :=
  if split.1 = [] then
    -- the relative root `.` adds no component
    if split.2 = [] then
      markRelative cleanRel
    else
      markRelative (split.2 ++ lit "/" ++ cleanRel)
  else if hasSuffix root (lit "/") then
    root ++ cleanRel
  else
    root ++ lit "/" ++ cleanRel

def join (root rel : List α) : Except PathError (List α) := do
  let split ← parseCleanCanonical root
  if isWindowsRoot split.1 = true ∧ chr '\\' ∈ rel then
    newError .invalidPath "Windows canonical components cannot contain a literal backslash"
  else do
    let cleanRel ← normalizeCanonicalRelative rel
    if cleanRel = lit "." then
      .ok root
    else
      .ok (joinClean root split (withoutRelativeMarker cleanRel))

def isAbsolutePathLike (value : List α) : Bool :=
  hasPrefix value (lit "/") || hasPrefix value (lit "\\\\") ||
    hasDriveRoot (replaceAll '\\' '/' value)

def normalizeRelative (raw : List α) : Except PathError (List α) :=
  if raw = [] then
    newError .emptyPath "relative path is empty"
  else if raw = lit "." then
    .ok (lit ".")
  else if nul ∈ raw then
    newError .nulByte "relative path contains NUL"
  else if isAbsolutePathLike raw then
    newError .absolutePath "relative path must not be absolute"
  else if isDriveRelative raw then
    newError .driveRelativePath "drive-relative path is not allowed"
  else if chr '\\' ∈ raw then
    newError .invalidPath "relative path must use slash separators"
  else do
    let parts ← cleanLoop false
      { code := .outsideRoot, message := "relative path escapes root" }
      [] (raw.splitOn (chr '/'))
    -- unlike above, a path that cleans to nothing is refused
    if parts = [] then
      newError .emptyPath "relative path is empty after cleaning"
    else
      .ok (joinOn (chr '/') parts)

end Go

end CanonicalPath
