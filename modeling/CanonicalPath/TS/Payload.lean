import Mathlib.Data.List.DropRight
import CanonicalPath.Library.Transcode
import CanonicalPath.TS.Scoped

/-!
# TS payload — Unity asset paths and safe file names

The path service of `path-service.ts`: the guard of Unity payload paths, their conversion from and to canonical
paths, and the names of generated files.  `isReservedDeviceBase` has the body of the function of that name in
`internal.ts`; `toUpperCase` before it is followed by a comparison with device names, for which ASCII case is
enough, as in the Go port.

* `normalizeUnityAssetPath` : a global traversal check before the strict validator
* `fromUnityAssetPath`, `toUnityAssetPath`, `toScopedCanonicalPath` : between payloads and canonical paths
* `makeSafeFileName` : a file name of bounded length, with a hash where it was cut
-/

namespace CanonicalPath

namespace TS

open CodeUnit Segments

open Go (UnityMCPPathScope)

section Paths

variable {α : Type} [DecidableEq α] [CodeUnit α]

/-! ## Asset paths -/

def isAllowedUnityRoot (value : List α) : Bool :=
  value == lit "Assets" || startsWith value (lit "Assets/") || value == lit "Packages" ||
    startsWith value (lit "Packages/")

/-- `/^[A-Za-z]:/`. -/
def isDriveLeading : List α → Bool
  | a :: b :: _ => isLetter a && b == chr ':'
  | _ => false

def normalizeUnityAssetPath (raw : List α) : Except PathError (List α) :=
  if raw = [] then
    newError .emptyPath "Unity path is empty"
  else if nul ∈ raw then
    newError .nulByte "Unity path contains NUL"
  else if isDriveLeading (replaceAll '\\' '/' raw) then
    newError .absolutePath "Unity path must not be drive-qualified"
  else if ((replaceAll '\\' '/' raw).splitOn (chr '/')).contains (lit "..") then
    newError .outsideRoot "Unity path traversal is not allowed"
  else if chr ':' ∈ replaceAll '\\' '/' raw then
    newError .invalidPath "Unity path must not contain alternate data stream syntax"
  else do
    let clean ← normalizeRelative (replaceAll '\\' '/' raw)
    if isAllowedUnityRoot clean = false then
      newError .invalidPath "Unity path must start with Assets/ or Packages/"
    else
      .ok clean

/-! ## Conversions -/

def fromUnityAssetPath (projectRoot unityPath : List α) : Except PathError (List α) := do
  let clean ← normalizeUnityAssetPath unityPath
  join projectRoot clean

def toUnityAssetPath (projectRoot fullPath : List α) : Except PathError (List α) := do
  let assetPath ← relative projectRoot fullPath
  if chr '\\' ∈ assetPath then
    newError .invalidPath "Unity asset paths cannot represent literal backslash components"
  else
    normalizeUnityAssetPath assetPath

def toScopedCanonicalPath (projectRoot : List α) (scope : UnityMCPPathScope) (raw : List α) :
    Except PathError (List α) := do
  let result ← normalizeScopedPath scope raw
  if result.kind ≠ .project then
    newError .invalidPath "cache scoped paths are not project paths"
  else
    join projectRoot result.path

/-! ## File names -/

def trimBoundaryCharacters (value : List α) (characters : String) (trimStart : Bool) : List α :=
  (if trimStart then value.dropWhile (· ∈ lit characters) else value).rdropWhile (· ∈ lit characters)

/-- The units of `/[\\/:\t\n\r]/`. -/
def isUnsafeUnit (a : α) : Bool :=
  a == chr '\\' || a == chr '/' || a == chr ':' || a == chr '\t' || a == chr '\n' || a == chr '\r'

/-- `value.replace(/[\\/:\t\n\r]+/g, "-")`: a longest run becomes one dash. -/
def replaceUnsafeRuns : List α → List α
  | [] => []
  | a :: value =>
      if isUnsafeUnit a then
        chr '-' :: replaceUnsafeRuns (value.dropWhile isUnsafeUnit)
      else
        a :: replaceUnsafeRuns value
termination_by value => value.length
decreasing_by
  · exact Nat.lt_succ_of_le (value.dropWhile_sublist isUnsafeUnit).length_le
  · exact Nat.lt_succ_self _

def trimGeneratedName (value : List α) : List α :=
  if trimBoundaryCharacters value " ._-" false = [] then
    lit "file"
  else
    trimBoundaryCharacters value " ._-" false

def escapeReservedWin32Component (value : List α) : List α :=
  let base := value.takeWhile (· != chr '.')
  let suffix := value.dropWhile (· != chr '.')
  if isReservedDeviceBase (base.map upper) then base ++ lit "-" ++ suffix else value

end Paths

section Names

variable (sha256 : List UInt8 → Vector UInt8 32)

/-- `createHash("sha256").update(input, "utf8").digest("hex").slice(0, 8)`. -/
def shortHash (input : Units) : Units :=
  ((sha256 (transcode input)).toList.flatMap hexByte).take 8

/-- The name before it is cut. -/
def safeName (input : Units) : Units :=
  let safe := trimBoundaryCharacters (replaceUnsafeRuns input) " ._-" true
  escapeReservedWin32Component (if safe = [] then lit "file" else safe)

/-- The limit is an integer here: any other number is rejected like one below 1. -/
def makeSafeFileName (input : Units) (maxLength : Int) : Except PathError Units :=
  if maxLength < 1 then
    newError .invalidComponent "maxLength must be a positive integer"
  else if input = [] then
    newError .invalidComponent "file name input is empty"
  else if nul ∈ input then
    newError .nulByte "file name input contains NUL"
  else if (safeName input).length ≤ maxLength then
    .ok (safeName input)
  else if maxLength ≤ 10 then
    .ok (trimGeneratedName ((safeName input).take maxLength.toNat))
  else
    .ok (trimGeneratedName ((safeName input).take (maxLength - 10).toNat) ++ lit "--" ++ shortHash sha256 input)

end Names

end TS

end CanonicalPath
