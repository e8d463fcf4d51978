import CanonicalPath.Contract
import CanonicalPath.Library.CodeUnit
import CanonicalPath.Library.Segments

/-!
# Go grammar — roots, markers and dot cleanup

`grammar.go` of the Go port, with the drive predicates it takes from `normalize.go`.  The code only
tests for ASCII bytes, so it is written over any code unit; the Go program is its instance at bytes.

* `splitRoot` : the root parser of canonical grammar
* `prepareNativePOSIX` : the entry of native POSIX input
* `cleanCanonical` : dot cleanup behind an atomic root
* `parseCleanCanonical` : the operand check of the canonical operations
-/

namespace CanonicalPath

/-- A Go string. -/
abbrev Bytes := List UInt8

namespace Go

open CodeUnit Segments

variable {α : Type} [DecidableEq α]

/-! ## String tests -/

/-- `strings.HasPrefix`. -/
def hasPrefix (value leader : List α) : Bool :=
  leader.isPrefixOf value

/-- `strings.HasSuffix`. -/
def hasSuffix (value trailer : List α) : Bool :=
  trailer.isSuffixOf value

/-- `strings.TrimSuffix`. -/
def trimSuffix (value trailer : List α) : List α :=
  if hasSuffix value trailer then value.take (value.length - trailer.length) else value

theorem hasPrefix_iff {value leader : List α} :
    hasPrefix value leader = true ↔ ∃ tail, value = leader ++ tail := by
  rw [hasPrefix, List.isPrefixOf_iff_prefix]
  constructor
  · rintro ⟨tail, rfl⟩
    exact ⟨tail, rfl⟩
  · rintro ⟨tail, rfl⟩
    exact ⟨tail, rfl⟩

theorem hasPrefix_append (leader tail : List α) : hasPrefix (leader ++ tail) leader = true :=
  hasPrefix_iff.2 ⟨tail, rfl⟩

theorem hasPrefix_cons_cons {a : α} {value leader : List α} :
    hasPrefix (a :: value) (a :: leader) = hasPrefix value leader := by
  simp [hasPrefix, List.isPrefixOf]

theorem hasPrefix_append_append (leader value leader' : List α) :
    hasPrefix (leader ++ value) (leader ++ leader') = hasPrefix value leader' := by
  induction leader with
  | nil =>
      rfl
  | cons a leader ih =>
      exact hasPrefix_cons_cons.trans ih

theorem hasPrefix_cons_eq_false {a : α} {value leader : List α} (h : value.head? ≠ some a) :
    hasPrefix value (a :: leader) = false := by
  cases value with
  | nil =>
      rfl
  | cons b value =>
      have hab : (a == b) = false := by
        rw [beq_eq_false_iff_ne]
        rintro rfl
        exact h rfl
      simp [hasPrefix, List.isPrefixOf, hab]

variable [CodeUnit α]

theorem hasPrefix_lit {value : List α} {p : String} (hp : IsAscii p) :
    hasPrefix value (lit p) = matches? (Pattern.literal p) value :=
  isPrefixOf_lit hp

theorem hasPrefix_slash_iff {value : List α} :
    hasPrefix value (lit "/") = true ↔ value.head? = some (chr '/') := by
  cases value with
  | nil =>
      simp [hasPrefix, lit]
  | cons a value =>
      have hhead : hasPrefix (a :: value) (lit "/") = true ↔ chr '/' = a := by
        simp [hasPrefix, lit]
      rw [hhead, List.head?_cons, Option.some.injEq, eq_comm]

theorem hasSuffix_slash_iff {value : List α} :
    hasSuffix value (lit "/") = true ↔ ∃ front, value = front ++ [chr '/'] := by
  rw [hasSuffix, List.isSuffixOf_iff_suffix]
  constructor
  · rintro ⟨front, rfl⟩
    exact ⟨front, rfl⟩
  · rintro ⟨front, rfl⟩
    exact ⟨front, rfl⟩

def hasDriveRoot : List α → Bool
  | a :: b :: c :: _ => isLetter a && b == chr ':' && c == chr '/'
  | _ => false

def isDriveRelative : List α → Bool
  | a :: b :: more =>
      isLetter a && b == chr ':' &&
        match more with
        -- a drive without anything behind its colon is relative too
        | [] => true
        | c :: _ => c != chr '/'
  | _ => false

def isURIWindowsDrivePath : List α → Bool
  | a :: b :: c :: d :: _ => a == chr '/' && isLetter b && c == chr ':' && d == chr '/'
  | _ => false

theorem hasDriveRoot_eq (value : List α) : hasDriveRoot value =
    matches? [isLetterCode, Pattern.char ':', Pattern.char '/'] value := by
  match value with
  | [] => rfl
  | [a] => simp [hasDriveRoot]
  | [a, b] => simp [hasDriveRoot]
  | a :: b :: c :: rest =>
      rw [Bool.eq_iff_iff]
      simp [hasDriveRoot, isLetter, char_code_iff, and_assoc]

theorem isURIWindowsDrivePath_eq (value : List α) : isURIWindowsDrivePath value =
    matches? [Pattern.char '/', isLetterCode, Pattern.char ':', Pattern.char '/'] value := by
  match value with
  | [] => rfl
  | [a] => simp [isURIWindowsDrivePath]
  | [a, b] => simp [isURIWindowsDrivePath]
  | [a, b, c] => simp [isURIWindowsDrivePath]
  | a :: b :: c :: d :: rest =>
      rw [Bool.eq_iff_iff]
      simp [isURIWindowsDrivePath, isLetter, char_code_iff, and_assoc]

theorem hasDriveRoot_iff {value : List α} : hasDriveRoot value = true ↔
    ∃ d rest, isLetter d = true ∧ value = d :: chr ':' :: chr '/' :: rest := by
  match value with
  | [] => simp [hasDriveRoot]
  | [a] => simp [hasDriveRoot]
  | [a, b] => simp [hasDriveRoot]
  | a :: b :: c :: rest =>
      simp [hasDriveRoot, and_assoc]

omit [DecidableEq α] in
theorem ne_slash_of_isLetter {d : α} (hd : isLetter d = true) : d ≠ chr '/' :=
  ne_chr_of_isLetter hd (by decide) (by decide)

omit [DecidableEq α] in
theorem ne_backslash_of_isLetter {d : α} (hd : isLetter d = true) : d ≠ chr '\\' :=
  ne_chr_of_isLetter hd (by decide) (by decide)

omit [DecidableEq α] in
theorem ne_nul_of_isLetter {d : α} (hd : isLetter d = true) : d ≠ nul :=
  ne_chr_of_isLetter hd (by decide) (by decide)

theorem head?_ne_slash_of_hasDriveRoot {value : List α} (h : hasDriveRoot value = true) :
    value.head? ≠ some (chr '/') := by
  rcases hasDriveRoot_iff.1 h with ⟨d, rest, hd, rfl⟩
  simpa using ne_slash_of_isLetter hd

theorem hasDriveRoot_slash_cons {tail : List α} : hasDriveRoot (chr '/' :: tail) = false := by
  simp [hasDriveRoot_eq, isLetterCode]

theorem isURIWindowsDrivePath_iff {value : List α} : isURIWindowsDrivePath value = true ↔
    ∃ tail, value = chr '/' :: tail ∧ hasDriveRoot tail = true := by
  match value with
  | [] => simp [isURIWindowsDrivePath]
  | [a] => simp [isURIWindowsDrivePath, hasDriveRoot]
  | [a, b] => simp [isURIWindowsDrivePath, hasDriveRoot]
  | [a, b, c] => simp [isURIWindowsDrivePath, hasDriveRoot]
  | a :: b :: c :: d :: rest =>
      simp [isURIWindowsDrivePath, hasDriveRoot, and_assoc]

/-! ## Roots -/

def isWindowsRoot (rootPrefix : List α) : Bool :=
  rootPrefix != [] && rootPrefix != lit "/"

def isDriveRoot (rootPrefix : List α) : Bool :=
  hasDriveRoot rootPrefix || (hasPrefix rootPrefix (lit "//?/") && hasDriveRoot (rootPrefix.drop 4))

def splitUNCRoot (value leader : List α) : Except PathError (List α × List α) :=
  match splitN (chr '/') 3 (value.drop leader.length) with
  | server :: share :: more =>
      if server = [] ∨ share = [] ∨ server = lit "." ∨ server = lit ".." ∨ share = lit "." ∨
          share = lit ".." then
        newError .invalidPath "UNC root requires non-dot server and share components"
      else
        -- without a third piece the root is the whole value
        let rest :=
          match more with
          | [] => []
          | rest :: _ => rest
        .ok (leader ++ server ++ lit "/" ++ share, rest)
  | _ => newError .invalidPath "UNC root requires non-dot server and share components"

/-- The switch of `splitRoot`, before its backslash check. -/
def splitRootSwitch (value : List α) : Except PathError (List α × List α) :=
  if hasPrefix value (lit "//?/") then
    -- an extended root holds a drive or a UNC root, and nothing else
    if hasDriveRoot (value.drop 4) then
      .ok (value.take 7, value.drop 7)
    else if hasPrefix (value.drop 4) (lit "UNC/") then
      splitUNCRoot value (lit "//?/UNC/")
    else
      newError .invalidPath "extended root requires an absolute drive or UNC server and share"
  else if hasDriveRoot value then
    .ok (value.take 3, value.drop 3)
  else if hasPrefix value (lit "//") then
    splitUNCRoot value (lit "//")
  else if hasPrefix value (lit "/") then
    .ok (lit "/", value.drop 1)
  else if isDriveRelative value then
    newError .driveRelativePath "Windows drive-relative paths are not canonical"
  else
    .ok ([], value)

/-- Parse canonical grammar only: no host path is inferred from a backslash, a URI-looking component
or a POSIX drive-looking component. -/
def splitRoot (value : List α) : Except PathError (List α × List α) := do
  let split ← splitRootSwitch value
  if isWindowsRoot split.1 = true ∧ chr '\\' ∈ value then
    newError .invalidPath "Windows canonical components cannot contain a literal backslash"
  else
    .ok split

def lowercaseDrive (value : List α) : List α :=
  if hasDriveRoot value then
    (value.take 1).map lower ++ value.drop 1
  else if hasPrefix value (lit "//?/") && hasDriveRoot (value.drop 4) then
    -- only the letter behind the extended prefix changes
    value.take 4 ++ ((value.drop 4).take 1).map lower ++ value.drop 5
  else
    value

/-! ## The relative marker -/

def needsRelativeMarker : List α → Bool
  | a :: b :: _ => isLetter a && b == chr ':'
  | _ => false

theorem needsRelativeMarker_eq (value : List α) : needsRelativeMarker value =
    matches? [isLetterCode, Pattern.char ':'] value := by
  match value with
  | [] => rfl
  | [a] => simp [needsRelativeMarker]
  | a :: b :: rest =>
      rw [Bool.eq_iff_iff]
      simp [needsRelativeMarker, isLetter, char_code_iff]

theorem needsRelativeMarker_iff {value : List α} : needsRelativeMarker value = true ↔
    ∃ d rest, isLetter d = true ∧ value = d :: chr ':' :: rest := by
  match value with
  | [] => simp [needsRelativeMarker]
  | [a] => simp [needsRelativeMarker]
  | a :: b :: rest =>
      simp [needsRelativeMarker]

theorem needsRelativeMarker_of_hasDriveRoot {value : List α} (h : hasDriveRoot value = true) :
    needsRelativeMarker value = true := by
  rcases hasDriveRoot_iff.1 h with ⟨d, rest, hd, rfl⟩
  exact needsRelativeMarker_iff.2 ⟨d, _, hd, rfl⟩

theorem hasDriveRoot_eq_false_of_marker {value : List α} (h : needsRelativeMarker value = false) :
    hasDriveRoot value = false := by
  rw [Bool.eq_false_iff]
  intro hdrive
  rw [needsRelativeMarker_of_hasDriveRoot hdrive] at h
  exact absurd h (by simp)

theorem isDriveRelative_eq (value : List α) :
    isDriveRelative value = (needsRelativeMarker value && !hasDriveRoot value) := by
  match value with
  | [] => rfl
  | [a] => rfl
  | [a, b] => simp [isDriveRelative, needsRelativeMarker, hasDriveRoot]
  | a :: b :: c :: rest =>
      -- both sides read the same first two units
      cases hletter : isLetter a <;>
        cases hcolon : b == chr ':' <;>
        simp [isDriveRelative, needsRelativeMarker, hasDriveRoot, hletter, hcolon, bne]

def markRelative (value : List α) : List α :=
  if needsRelativeMarker value then lit "./" ++ value else value

def hasRelativeMarker (value : List α) : Bool :=
  hasPrefix value (lit "./") && needsRelativeMarker (value.drop 2)

def withoutRelativeMarker (value : List α) : List α :=
  if hasRelativeMarker value then value.drop 2 else value

/-! ## Native POSIX input -/

def prepareNativePOSIX (value : List α) : Except PathError (List α) :=
  let leading := (value.takeWhile (· == chr '/')).length
  -- exactly two leading slashes are implementation-defined in POSIX
  if leading = 2 then
    newError .invalidPath "native POSIX paths with exactly two leading slashes are unsupported"
  else if leading > 2 then
    -- three or more are one
    .ok (markRelative (lit "/" ++ value.drop leading))
  else
    .ok (markRelative value)

/-! ## Dot cleanup -/

/-- The component loop of `cleanCanonical`, `normalizeCanonicalRelative` and `NormalizeRelative`.
They differ in whether `..` is ignored on an empty stack and in the error it raises otherwise. -/
def cleanLoop (absolute : Bool) (escape : PathError) :
    List (List α) → List (List α) → Except PathError (List (List α))
  | parts, [] => .ok parts
  | parts, part :: more =>
      if part = [] ∨ part = lit "." then
        cleanLoop absolute escape parts more
      else if part = lit ".." then
        -- `..` takes the last component off the stack
        if parts ≠ [] then
          cleanLoop absolute escape parts.dropLast more
        else if absolute then
          cleanLoop absolute escape parts more
        else
          .error escape
      else
        cleanLoop absolute escape (parts ++ [part]) more

/-- The string `cleanCanonical` writes for a root prefix and the components that are left. -/
def serialize (rootPrefix : List α) (parts : List (List α)) : List α :=
  let joined := joinOn (chr '/') parts
  if rootPrefix = [] then
    -- a relative path with nothing left is the single dot
    if joined = [] then lit "." else markRelative joined
  else if joined = [] then
    rootPrefix
  -- a drive or the POSIX root brings its own separator, a UNC root does not
  else if hasSuffix rootPrefix (lit "/") then
    rootPrefix ++ joined
  else
    rootPrefix ++ lit "/" ++ joined

def cleanCanonical (value : List α) : Except PathError (List α) :=
  if value = [] then
    newError .emptyPath "path is empty"
  else if nul ∈ value then
    newError .nulByte "path contains NUL"
  else do
    let split ← splitRoot value
    let rootPrefix := lowercaseDrive split.1
    let parts ← cleanLoop (rootPrefix != [])
      { code := .invalidPath, message := "relative path escapes above its root" }
      [] (split.2.splitOn (chr '/'))
    .ok (serialize rootPrefix parts)

def cleanNativePOSIX (value : List α) : Except PathError (List α) := do
  let prepared ← prepareNativePOSIX value
  cleanCanonical prepared

/-- Validate a canonical operand without raw input rewrites.  Upper-case drive letters stay accepted
for the host serializers. -/
def parseCleanCanonical (value : List α) : Except PathError (List α × List α) := do
  let cleaned ← cleanCanonical value
  -- compared up to the case of the drive letter
  if cleaned ≠ lowercaseDrive value then
    newError .invalidPath "path is not lexically cleaned canonical input"
  else do
    let split ← splitRoot value
    if split.1 = [] then
      -- a relative operand is handed on without its dot or its marker
      .ok (split.1, if split.2 = lit "." then [] else withoutRelativeMarker split.2)
    else
      .ok split

end Go

end CanonicalPath
