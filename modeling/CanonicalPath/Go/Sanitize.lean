import Mathlib.Data.List.DropRight
import CanonicalPath.Go.Hosts
import CanonicalPath.Go.Scoped
import CanonicalPath.Library.Transcode

/-!
# Go sanitize — components made from user strings

`sanitize.go` of the Go port.  Components are made over any code unit; Git refs are read rune by rune, and the digest
is a function of their bytes.

* `sanitizeComponent` : a component of a profile, where every unsafe unit becomes a dash of its own
* `encodeGitRef` : a directory name with a bounded slug and a digest
-/

namespace CanonicalPath

namespace Go

open CodeUnit Segments

section Components

variable {α : Type} [DecidableEq α] [CodeUnit α]

/-! ## Components -/

/-- The units that `strings.NewReplacer` is given. -/
def isReplaced (a : α) : Bool :=
  a == chr '/' || a == chr '\\' || a == chr ':' || a == chr '\t' || a == chr '\n' || a == chr '\r'

/-- `replacer.Replace`: each of the units becomes a dash. -/
def replaceEach (value : List α) : List α :=
  value.map fun a => if isReplaced a then chr '-' else a

/-- `strings.Trim`. -/
def trim (value : List α) (cutset : String) : List α :=
  (value.dropWhile fun a => (lit cutset).contains a).rdropWhile fun a => (lit cutset).contains a

def escapeReservedWin32Component (value : List α) : List α :=
  let idx := value.idxOf (chr '.')
  let base := if idx < value.length then value.take idx else value
  let suffix := if idx < value.length then value.drop idx else []
  if isReservedDeviceBase (base.map upper) then base ++ lit "-" ++ suffix else value

def sanitizeComponent (name profile : List α) : Except PathError (List α) :=
  if name = [] then
    newError .invalidComponent "component is empty"
  else if nul ∈ name then
    newError .nulByte "component contains NUL"
  else
    let trimmed := trim (replaceEach name) " ._-"
    let value := if trimmed = [] then lit "component" else trimmed
    .ok (if profile = lit "win32" then escapeReservedWin32Component value else value)

end Components

section Refs

/-! ## Git refs -/

/-- The first rune of a string; a byte that begins none is the replacement character. -/
def firstRune (value : Bytes) : Char :=
  ((ByteArray.mk value.toArray).utf8DecodeChar? 0).getD '\uFFFD'

/-- The runes that begin behind `skip` bytes. -/
def runesFrom : Nat → Bytes → List Char
  | _, [] => []
  | 0, a :: value => firstRune (a :: value) :: runesFrom (runeWidth (a :: value) - 1) value
  | skip + 1, _ :: value => runesFrom skip value

/-- The runes that `range` visits. -/
def runes (value : Bytes) : List Char :=
  runesFrom 0 value

/-- The test of `slugGitRef`, by the number of a rune. -/
def isSlugCode (n : Nat) : Bool :=
  isLetterCode n || (48 ≤ n && n ≤ 57) || n == '.'.toNat || n == '_'.toNat || n == '-'.toNat

/-- The loop of `slugGitRef`. -/
def slugLoop (lastDash : Bool) : List Char → Bytes
  | [] => []
  | r :: rest =>
      if isSlugCode r.toNat then
        utf8.enc r ++ slugLoop false rest
      else if lastDash then
        slugLoop true rest
      else
        chr '-' :: slugLoop true rest

def slugGitRef (raw : Bytes) : Bytes :=
  let slug := trim (slugLoop false (runes raw)) "._-"
  if slug = [] then lit "ref" else slug

/-- The slug of a ref: at most 80 bytes, cut and trimmed again. -/
def boundedSlug (raw : Bytes) : Bytes :=
  let slug := slugGitRef raw
  let slug := if slug.length > 80 then trim (slug.take 80) "._-" else slug
  if slug = [] then lit "ref" else slug

variable (sha256 : Bytes → Vector UInt8 32)

def encodeGitRef (raw : Bytes) : Except PathError Bytes :=
  if raw = [] then
    newError .invalidComponent "git ref is empty"
  else if nul ∈ raw then
    newError .nulByte "git ref contains NUL"
  else if validString raw = false then
    newError .invalidComponent "git ref contains invalid Unicode"
  else
    .ok (lit "v2-" ++ boundedSlug raw ++ lit "--" ++ (sha256 raw).toList.flatMap hexByte)

end Refs

end Go

end CanonicalPath
