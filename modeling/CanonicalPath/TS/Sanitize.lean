import CanonicalPath.TS.Payload

/-!
# TS sanitize — components made from user strings

`sanitize.ts` of the TypeScript port.  Its `escapeReservedWin32Component` has the body of the function of that name in
`path-service.ts`, and the pattern for unsafe units is the same one.

* `sanitizeComponent` : a component of a profile, where a run of unsafe units becomes one dash
* `encodeGitRef` : a directory name with a bounded slug and a digest
-/

namespace CanonicalPath

namespace TS

open CodeUnit

/-! ## Components -/

/-- The profile names that the type of the argument admits. -/
inductive ComponentProfile
  | portable
  | win32
  | posix
  deriving DecidableEq, Repr

/-- The string of a profile. -/
def ComponentProfile.text : ComponentProfile → String
  | .portable => "portable"
  | .win32 => "win32"
  | .posix => "posix"

def sanitizeComponent {α : Type} [DecidableEq α] [CodeUnit α] (name : List α) (profile : ComponentProfile) :
    Except PathError (List α) :=
  if name = [] then
    newError .invalidComponent "component is empty"
  else if nul ∈ name then
    newError .nulByte "component contains NUL"
  else
    let trimmed := trimBoundaryCharacters (replaceUnsafeRuns name) " ._-" true
    let value := if trimmed = [] then lit "component" else trimmed
    .ok (if profile = .win32 then escapeReservedWin32Component value else value)

/-! ## Git refs -/

/-- The loop that looks for a surrogate without its partner. -/
def checkSurrogates : Units → Except PathError Unit
  | [] => .ok ()
  | [a] =>
      if isHighSurrogate a || isLowSurrogate a then
        newError .invalidComponent "git ref contains invalid Unicode"
      else
        .ok ()
  | a :: next :: raw =>
      if isHighSurrogate a then
        if isLowSurrogate next then
          checkSurrogates raw
        else
          newError .invalidComponent "git ref contains invalid Unicode"
      else if isLowSurrogate a then
        newError .invalidComponent "git ref contains invalid Unicode"
      else
        checkSurrogates (next :: raw)

/-- `/[A-Za-z0-9._-]/`, by the number of a unit. -/
def isSlugCode (n : Nat) : Bool :=
  isLetterCode n || (48 ≤ n && n ≤ 57) || n == '.'.toNat || n == '_'.toNat || n == '-'.toNat

/-- `raw.replace(/[^A-Za-z0-9._-]+/g, "-")`: a longest run becomes one dash. -/
def replaceForeignRuns : Units → Units
  | [] => []
  | a :: raw =>
      if isSlugCode (code a) then
        a :: replaceForeignRuns raw
      else
        chr '-' :: replaceForeignRuns (raw.dropWhile fun b => !isSlugCode (code b))
termination_by raw => raw.length
decreasing_by
  · exact Nat.lt_succ_self _
  · exact Nat.lt_succ_of_le (raw.dropWhile_sublist fun b => !isSlugCode (code b)).length_le

/-- The slug of a ref. -/
def slugOf (raw : Units) : Units :=
  let slug := trimBoundaryCharacters ((trimBoundaryCharacters (replaceForeignRuns raw) "._-" true).take 80) "._-" true
  if slug = [] then lit "ref" else slug

variable (sha256 : List UInt8 → Vector UInt8 32)

def encodeGitRef (raw : Units) : Except PathError Units :=
  if raw = [] then
    newError .invalidComponent "git ref is empty"
  else if nul ∈ raw then
    newError .nulByte "git ref contains NUL"
  else do
    checkSurrogates raw
    .ok (lit "v2-" ++ slugOf raw ++ lit "--" ++ (sha256 (transcode raw)).toList.flatMap hexByte)

end TS

end CanonicalPath
