import CanonicalPath.TS.Internal

/-!
# TS relative — composition of canonical paths

`relative`, `join` and `normalizeRelative` of `relative.ts` in the TypeScript port, with the operand checks
they take from `internal.ts`.  An operand is compared with its cleaned form as it stands; only the host serializers
ask for a comparison up to the case of the drive letter.
-/

namespace CanonicalPath

namespace TS

open CodeUnit Segments

variable {α : Type} [DecidableEq α] [CodeUnit α]

/-- What `validateCanonical` compares with the cleaned value. -/
def comparable (value : List α) (kind : RootKind) (allowDriveCase : Bool) : List α :=
  if allowDriveCase = true ∧ kind = .drive then
    (value.take 1).map lower ++ value.drop 1
  else if allowDriveCase = true ∧ kind = .extendedDrive then
    value.take 4 ++ ((value.drop 4).take 1).map lower ++ value.drop 5
  else
    value

def validateCanonical (value : List α) (allowDriveCase : Bool) : Except PathError (ParsedRoot α) := do
  let root ← splitRoot value
  let cleaned ← cleanCanonical value
  if cleaned ≠ comparable value root.kind allowDriveCase then
    newError .invalidPath "path is not lexically canonical"
  else
    .ok root

def canonicalParts (value : List α) : Except PathError (List α × List (List α)) := do
  -- the default of the drive case parameter
  let root ← validateCanonical value false
  if root.kind = .relative then
    newError .invalidPath "path must be canonical absolute"
  else
    .ok (root.rootPrefix, if root.rest = [] then [] else root.rest.splitOn (chr '/'))

def cleanCanonicalRelative (value : List α) : Except PathError (List α) :=
  if value = [] then
    newError .emptyPath "relative path is empty"
  else do
    let root ← splitRoot value
    if root.kind ≠ .relative then
      newError .absolutePath "relative path must not be rooted"
    else do
      let parts ← cleanComponents root.rest false .outsideRoot
      -- nothing left is written as the dot
      .ok (markRelative (joinOn (chr '/') parts))

def relative (root target : List α) : Except PathError (List α) := do
  let rootParts ← canonicalParts root
  let targetParts ← canonicalParts target
  if rootParts.1 ≠ targetParts.1 ∨ targetParts.2.length < rootParts.2.length then
    newError .outsideRoot "target is outside root"
  else if rootParts.2.isPrefixOf targetParts.2 = false then
    newError .outsideRoot "target is outside root"
  else if targetParts.2.length = rootParts.2.length then
    .ok (lit ".")
  else
    .ok (markRelative (joinOn (chr '/') (targetParts.2.drop rootParts.2.length)))

/-- The string that `join` cleans for a root and a cleaned relative path. -/
def joined (root cleanRelative : List α) : List α :=
  root ++ (if endsWith root (lit "/") then [] else lit "/") ++
    if startsWith cleanRelative (lit "./") then cleanRelative.drop 2 else cleanRelative

def join (root rel : List α) : Except PathError (List α) := do
  let parsedRoot ← validateCanonical root false
  if isWindowsRoot parsedRoot.kind = true ∧ chr '\\' ∈ rel then
    newError .invalidPath "Windows join cannot preserve literal backslash components"
  else do
    let cleanRelative ← cleanCanonicalRelative rel
    if cleanRelative = lit "." then
      .ok root
    else
      cleanCanonical (joined root cleanRelative)

/-- The component loop of `normalizeRelative`, from the parts collected so far. -/
def normalizeRelativeLoop : List (List α) → List (List α) → Except PathError (List (List α))
  | parts, [] => .ok parts
  | parts, part :: more =>
      if part = [] ∨ part = lit "." then
        normalizeRelativeLoop parts more
      else if part = lit ".." then
        if parts.length = 0 then
          newError .outsideRoot "relative path escapes root"
        else
          normalizeRelativeLoop parts.dropLast more
      else
        normalizeRelativeLoop (parts ++ [part]) more

def normalizeRelative (raw : List α) : Except PathError (List α) :=
  if raw = [] then
    newError .emptyPath "relative path is empty"
  else if raw = lit "." then
    .ok (lit ".")
  else if nul ∈ raw then
    newError .nulByte "relative path contains NUL"
  else if isAbsolutePathLike raw then
    newError .absolutePath "relative path must not be absolute"
  else if isDriveRelative raw then
    newError .driveRelativePath "drive-relative path is not allowed"
  else if chr '\\' ∈ raw then
    newError .invalidPath "relative path must use slash separators"
  else do
    let parts ← normalizeRelativeLoop [] (raw.splitOn (chr '/'))
    if parts.length = 0 then
      newError .emptyPath "relative path is empty after cleaning"
    else
      .ok (joinOn (chr '/') parts)

end TS

end CanonicalPath
