import CanonicalPath.Go.Grammar

/-!
# Python core — canonical grammar of the Python port

`core.py` of the Python port, as far as saved canonical strings go.  A Python string is a sequence of
code points; the code tests for ASCII only, so it is written over any code unit.

* `splitRoot` : the root splitter, which folds the drive letter itself
* `normalizeCanonical` : `normalize` with the source host `canonical` and no other option
* `validatedCanonical` : the operand check of `relative`, `join` and the host serializers
* `join`, `joinParts` : composition, where the result of the loop also says whether it has started
-/

namespace CanonicalPath

namespace Python

open CodeUnit Segments

variable {α : Type} [DecidableEq α]

/-- `str.startswith`. -/
def startswith (value leader : List α) : Bool :=
  leader.isPrefixOf value

variable [CodeUnit α]

/-! ## Drives and markers -/

def hasDriveRoot : List α → Bool
  | a :: b :: c :: _ => isLetter a && b == chr ':' && c == chr '/'
  | _ => false

def isDriveRelative : List α → Bool
  | [a, b] => isLetter a && b == chr ':'
  | a :: b :: c :: _ => isLetter a && b == chr ':' && c != chr '/'
  | _ => false

def driveComponent : List α → Bool
  | a :: b :: _ => isLetter a && b == chr ':'
  | _ => false

def isMarkedRelative (value : List α) : Bool :=
  startswith value (lit "./") && driveComponent (value.drop 2)

/-! ## Roots -/

/-- The server, the share and the rest of what follows a UNC prefix. -/
def splitUNC (value : List α) : Except PathError (List α × List α) :=
  match splitN (chr '/') 3 value with
  | server :: share :: more =>
      if [server, share].any fun part => part == [] || part == lit "." || part == lit ".." then
        newError .invalidPath "UNC path requires a valid server and share"
      else
        .ok (server ++ lit "/" ++ share, more.headD [])
  | _ => newError .invalidPath "UNC path requires a valid server and share"

/-- The drive prefix of a value, with its letter folded. -/
def drivePrefix (value : List α) : List α :=
  (value.take 1).map lower ++ (value.drop 1).take 2

/-- A Windows prefix admits no backslash anywhere in the value. -/
def rejectBackslash (value : List α) (split : List α × List α) :
    Except PathError (List α × List α) :=
  if chr '\\' ∈ value then
    newError .invalidPath "Windows canonical components cannot contain backslash"
  else
    .ok split

def splitRoot (value : List α) : Except PathError (List α × List α) :=
  if nul ∈ value then
    newError .nulByte "path contains NUL"
  else if startswith value (lit "//?/") then
    if hasDriveRoot (value.drop 4) then
      rejectBackslash value (lit "//?/" ++ drivePrefix (value.drop 4), value.drop 7)
    else if startswith (value.drop 4) (lit "UNC/") then do
      let split ← splitUNC (value.drop 8)
      rejectBackslash value (lit "//?/UNC/" ++ split.1, split.2)
    else
      newError .invalidPath "unsupported extended Windows root"
  else if hasDriveRoot value then
    rejectBackslash value (drivePrefix value, value.drop 3)
  else if isDriveRelative value then
    newError .driveRelativePath "Windows drive-relative paths are not canonical"
  -- three or more slashes are the POSIX root here, as in native POSIX input
  else if startswith value (lit "///") then
    .ok (lit "/", value.dropWhile (· == chr '/'))
  else if startswith value (lit "//") then do
    let split ← splitUNC (value.drop 2)
    rejectBackslash value (lit "//" ++ split.1, split.2)
  else if startswith value (lit "/") then
    .ok (lit "/", value.drop 1)
  else
    .ok ([], value)

/-! ## Dot cleanup -/

/-- The loop of `_clean_parts`. -/
def cleanPartsLoop (rootPrefix : List α) (escape : PathError) :
    List (List α) → List (List α) → Except PathError (List (List α))
  | parts, [] => .ok parts
  | parts, part :: more =>
      if part = [] ∨ part = lit "." then
        cleanPartsLoop rootPrefix escape parts more
      else if part = lit ".." then
        if parts ≠ [] then
          cleanPartsLoop rootPrefix escape parts.dropLast more
        else if rootPrefix = [] then
          .error escape
        else
          cleanPartsLoop rootPrefix escape parts more
      else
        cleanPartsLoop rootPrefix escape (parts ++ [part]) more

def cleanParts (rootPrefix rest : List α) (escapeCode : ErrorCode) :
    Except PathError (List (List α)) :=
  cleanPartsLoop rootPrefix
    { code := escapeCode, message := "relative path escapes above its root" }
    [] (rest.splitOn (chr '/'))

def serialize (rootPrefix : List α) (parts : List (List α)) : List α :=
  let joined := joinOn (chr '/') parts
  if rootPrefix = [] then
    match parts with
    | [] => lit "."
    | part :: _ => (if driveComponent part then lit "./" else []) ++ joined
  else if joined = [] then
    rootPrefix
  else
    rootPrefix ++ ((if (lit "/").isSuffixOf rootPrefix then [] else lit "/") ++ joined)

def cleanCanonical (value : List α) : Except PathError (List α) :=
  if value = [] then
    newError .emptyPath "path is empty"
  else do
    let split ← splitRoot value
    let parts ← cleanParts split.1 split.2 .invalidPath
    .ok (serialize split.1 parts)

/-! ## Saved canonical strings -/

/-- `normalize(raw, {"sourceHost": "canonical"})`.  The default mount root is a constant that passes
its check, no policy and no trimming is set, and the absent target profile only splits the result. -/
def normalizeCanonical (raw : List α) : Except PathError (List α) :=
  if raw = [] then
    newError .emptyPath "path is empty"
  else if nul ∈ raw then
    newError .nulByte "path contains NUL"
  else if isDriveRelative raw then
    newError .driveRelativePath "Windows drive-relative paths are not canonical"
  else do
    let cleaned ← cleanCanonical raw
    let _ ← splitRoot cleaned
    .ok cleaned

def validatedCanonical (value : List α) : Except PathError (List α × List (List α)) :=
  if value = [] then
    newError .emptyPath "path is empty"
  else do
    let split ← splitRoot value
    if split.1 = [] ∧ value = lit "." then
      .ok ([], [])
    else
      let rest := if split.1 = [] ∧ isMarkedRelative split.2 then split.2.drop 2 else split.2
      let parts := if rest = [] then [] else rest.splitOn (chr '/')
      -- component by component, not against the cleaned string
      if parts.any fun part => part == [] || part == lit "." || part == lit ".." then
        newError .invalidPath "path is not lexically cleaned"
      else
        .ok (split.1, parts)

/-! ## Composition -/

def join (root relativePath : List α) : Except PathError (List α) := do
  let split ← validatedCanonical root
  if relativePath = [] then
    newError .emptyPath "relative path is empty"
  else if nul ∈ relativePath then
    newError .nulByte "relative path contains NUL"
  else if startswith relativePath (lit "/") || hasDriveRoot relativePath then
    newError .absolutePath "relative path must not be absolute"
  else if isDriveRelative relativePath then
    newError .driveRelativePath "drive-relative path is not allowed"
  else if (split.1 ≠ [] ∧ split.1 ≠ lit "/") ∧ chr '\\' ∈ relativePath then
    newError .invalidPath "relative data is not representable under a Windows root"
  else do
    let parts ← cleanParts [] relativePath .outsideRoot
    .ok (serialize split.1 (split.2 ++ parts))

/-- The loop of `join_parts`, with the empty result in front of the first part. -/
def joinPartsLoop : List α → List (List α) → Except PathError (List α)
  | result, [] => .ok result
  | result, part :: parts =>
      if part = [] then
        joinPartsLoop result parts
      else if result = [] then
        -- the first part is taken as it is
        joinPartsLoop part parts
      else do
        let joined ← join result part
        joinPartsLoop joined parts

def joinParts (parts : List (List α)) : Except PathError (List α) := do
  let result ← joinPartsLoop [] parts
  if result = [] then
    newError .emptyPath "join parts are empty"
  else
    .ok result

end Python

end CanonicalPath
