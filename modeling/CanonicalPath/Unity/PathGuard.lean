import Mathlib.Data.List.DropRight
import CanonicalPath.Library.Transcode
import CanonicalPath.Unity.Grammar

/-!
# Unity path guard — payload paths and safe file names

`PathGuard` of `CanonicalPath.cs`.  Its device test has the body of `isReservedDeviceBase` in the same file, and
`ToUpperInvariant` before it is modelled as there.

* `normalizeUnityPath` : the component loop rejects the traversal that it meets
* `makeSafeFileName` : a flag remembers that the unit before was unsafe
-/

namespace CanonicalPath

namespace Unity

open CodeUnit Segments

/-- The exceptions of the guard: `ArgumentException`, or `ArgumentOutOfRangeException`. -/
inductive ArgumentError
  | argument (message paramName : String)
  | outOfRange (paramName message : String)
  deriving DecidableEq, Repr

section Paths

variable {α : Type} [DecidableEq α] [CodeUnit α]

/-! ## Payload paths -/

def isAbsolutePayload (value : List α) : Bool :=
  startsWith value (lit "/") || startsWith value (lit "//") ||
    match value with
    | a :: b :: _ => isLetter a && b == chr ':'
    | _ => false

def isAllowedUnityRoot (value : List α) : Bool :=
  value == lit "Assets" || startsWith value (lit "Assets/") || value == lit "Packages" ||
    startsWith value (lit "Packages/")

/-- The loop over the components, from the parts collected so far. -/
def payloadParts : List (List α) → List (List α) → Except ArgumentError (List (List α))
  | parts, [] => .ok parts
  | parts, part :: more =>
      if part.length = 0 ∨ part = lit "." then
        payloadParts parts more
      else if part = lit ".." then
        .error (.argument "Unity path traversal is not allowed." "unityPath")
      else
        payloadParts (parts ++ [part]) more

def normalizeUnityPath (unityPath : List α) : Except ArgumentError (List α) :=
  if unityPath = [] then
    .error (.argument "Unity path must not be empty." "unityPath")
  else if nul ∈ unityPath then
    .error (.argument "Unity path must not contain NUL." "unityPath")
  else if isAbsolutePayload (replaceAll '\\' '/' unityPath) then
    .error (.argument "Unity payload path must be relative." "unityPath")
  else if chr ':' ∈ replaceAll '\\' '/' unityPath then
    .error (.argument "Unity path must not contain colon." "unityPath")
  else do
    let parts ← payloadParts [] ((replaceAll '\\' '/' unityPath).splitOn (chr '/'))
    if parts.length = 0 then
      .error (.argument "Unity path must not be empty after cleaning." "unityPath")
    else if isAllowedUnityRoot (joinOn (chr '/') parts) = false then
      .error (.argument "Unity path must start with Assets/ or Packages/." "unityPath")
    else
      .ok (joinOn (chr '/') parts)

/-! ## File names -/

/-- `Trim(' ', '.', '_', '-')` and its half at the end. -/
def isTrimmed (a : α) : Bool :=
  a == chr ' ' || a == chr '.' || a == chr '_' || a == chr '-'

def isUnsafeFileNameChar (ch : α) : Bool :=
  ch == chr '/' || ch == chr '\\' || ch == chr ':' || ch == chr '\t' || ch == chr '\n' || ch == chr '\r'

def replaceUnsafeFileNameChars (previousUnsafe : Bool) : List α → List α
  | [] => []
  | ch :: input =>
      if isUnsafeFileNameChar ch then
        if previousUnsafe then
          replaceUnsafeFileNameChars true input
        else
          chr '-' :: replaceUnsafeFileNameChars true input
      else
        ch :: replaceUnsafeFileNameChars false input

def escapeReservedDeviceName (value : List α) : List α :=
  let dot := value.idxOf (chr '.')
  let baseName := if dot < value.length then value.take dot else value
  let suffix := if dot < value.length then value.drop dot else []
  if isReservedDeviceBase (baseName.map upper) then baseName ++ lit "-" ++ suffix else value

def trimSafe (value : List α) : List α :=
  if (value.rdropWhile isTrimmed).length = 0 then lit "file" else value.rdropWhile isTrimmed

end Paths

section Names

variable (sha256 : List UInt8 → Vector UInt8 32)

/-- The first four octets of the digest, each with `ToString("x2")`. -/
def shortSha256 (input : List UInt16) : List UInt16 :=
  let bytes := sha256 (transcode input)
  hexByte bytes[0] ++ hexByte bytes[1] ++ hexByte bytes[2] ++ hexByte bytes[3]

/-- The name before it is cut. -/
def guardedName (input : List UInt16) : List UInt16 :=
  let value := ((replaceUnsafeFileNameChars false input).dropWhile isTrimmed).rdropWhile isTrimmed
  escapeReservedDeviceName (if value.length = 0 then lit "file" else value)

def makeSafeFileName (input : List UInt16) (maxLength : Int) : Except ArgumentError (List UInt16) :=
  if input = [] then
    .error (.argument "File name input must not be empty." "input")
  else if nul ∈ input then
    .error (.argument "File name input must not contain NUL." "input")
  else if maxLength < 1 then
    .error (.outOfRange "maxLength" "maxLength must be positive.")
  else if (guardedName input).length ≤ maxLength then
    .ok (guardedName input)
  else if maxLength ≤ 10 then
    .ok (trimSafe ((guardedName input).take maxLength.toNat))
  else
    .ok (trimSafe ((guardedName input).take (maxLength - 10).toNat) ++ lit "--" ++ shortSha256 sha256 input)

end Names

end Unity

end CanonicalPath
