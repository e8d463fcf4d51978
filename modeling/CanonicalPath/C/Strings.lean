import CanonicalPath.Contract
import CanonicalPath.Library.CString
import CanonicalPath.Library.CodeUnit
import Mathlib.Data.UInt

/-!
# C strings — the string helpers of the C port

The helpers at the top of `canonicalpath.c`, on bounds-checked memory.  A pointer that may be null is an
option; to use it, it is taken out of the option, so a null pointer that is read is undefined like any
other bad access.  Allocation is taken to succeed, as the source aborts where it does not.
-/

namespace CanonicalPath

namespace C

open CodeUnit CString

/-- A `char *`. -/
abbrev Chars := Memory UInt8

/-- `value[i]`. -/
abbrev charAt (value : Chars) (i : Nat) : Option UInt8 :=
  load value i

/-- A function that returns an error code, or null with its results behind pointers. -/
abbrev Run := ExceptT ErrorCode Option

def fail {β : Type} (code : ErrorCode) : Run β :=
  throw code

/-! ## Copies -/

def strndup (value : Option Chars) (len : Nat) : Option Chars := do
  let result ←
    match value with
    | some value => if len > 0 then memcpy (malloc (len + 1)) 0 value len else some (malloc (len + 1))
    | none => some (malloc (len + 1))
  store result len 0

def strdup (value : Option Chars) : Option Chars := do
  strndup (some (value.getD (literal []))) (← strlen (value.getD (literal [])))

/-! ## Tests -/

def hasNul (value : Option Chars) (len : Nat) : Option Bool :=
  if len > 0 then do
    let value ← value
    let found ← memchr 0 len value
    return found.isSome
  else
    some false

def startsWith (value leader : Chars) : Option Bool := do
  strncmpEq (← strlen leader) value leader

def equals (left : Option Chars) (right : Chars) : Option Bool :=
  strcmpEq (left.getD (literal [])) right

def hasDriveRoot (value : Chars) : Option Bool := do
  let len ← strlen value
  some (decide (3 ≤ len))
    <&&> (charAt value 0).map isLetter
    <&&> (charAt value 1).map (· == chr ':')
    <&&> (charAt value 2).map (· == chr '/')

def isDriveRelative (value : Chars) : Option Bool := do
  let len ← strlen value
  some (decide (2 ≤ len))
    <&&> (charAt value 0).map isLetter
    <&&> (charAt value 1).map (· == chr ':')
    <&&> (some (len == 2) <||> (charAt value 2).map (· != chr '/'))

def isUriWindowsDrivePath (value : Chars) : Option Bool := do
  let len ← strlen value
  some (decide (4 ≤ len))
    <&&> (charAt value 0).map (· == chr '/')
    <&&> (charAt value 1).map isLetter
    <&&> (charAt value 2).map (· == chr ':')
    <&&> (charAt value 3).map (· == chr '/')

/-! ## Trimming -/

/-- The loop of `cp_trim_right_slashes`, with `len` counting down. -/
def trimRightLoop : Nat → Chars → Option Chars
  | 0, value => some value
  | len + 1, value => do
      if (← charAt value len) = chr '/' then
        trimRightLoop len (← store value len 0)
      else
        some value

def trimRightSlashes (value : Chars) : Option Chars := do
  trimRightLoop (← strlen value) value

def isAsciiWhitespace (a : UInt8) : Bool :=
  a == chr ' ' || a == chr '\t' || a == chr '\n' || a == chr '\r' || a == chr '\x0c' || a == chr '\x0b'

/-- The first loop of `cp_trim_outer_ascii_whitespace`: `start` moves at most `fuel` places. -/
def trimStart (value : Chars) : Nat → Nat → Option Nat
  | 0, start => some start
  | fuel + 1, start => do
      if isAsciiWhitespace (← charAt value start) then
        trimStart value fuel (start + 1)
      else
        some start

/-- The second loop: the end moves at most `fuel` places back. -/
def trimEnd (value : Chars) : Nat → Nat → Option Nat
  | 0, stop => some stop
  | fuel + 1, stop => do
      if isAsciiWhitespace (← charAt value (stop - 1)) then
        trimEnd value fuel (stop - 1)
      else
        some stop

def trimOuterAsciiWhitespace (value : Option Chars) (len : Nat) : Option Chars :=
  match value with
  | none => if len = 0 then strndup none 0 else none
  | some value => do
      let start ← trimStart value len 0
      let stop ← trimEnd value (len - start) len
      strndup (some (← advance value start)) (stop - start)

/-! ## Schemes and separators -/

def isAsciiAlnum (a : UInt8) : Bool :=
  isLetter a || (decide ('0'.toNat ≤ code a) && decide (code a ≤ '9'.toNat))

def hasUriScheme (value : Chars) : Option Bool := do
  match ← strstr value (literal (lit "://")) with
  | none => return false
  | some schemeEnd =>
      if schemeEnd = 0 then
        return false
      else if !isLetter (← charAt value 0) then
        return false
      else
        -- the cursor runs from the second character to the end of the scheme
        (List.range' 1 (schemeEnd - 1)).allM fun i => do
          let a ← charAt value i
          return isAsciiAlnum a || a == chr '+' || a == chr '.' || a == chr '-'

def unwrapWindowsExtendedPrefix (value : Chars) : Option Chars := do
  if ← startsWith value (literal (lit "//?/UNC/")) then
    let body ← advance value 8
    let len ← strlen body
    let result ← memcpy (malloc (len + 3)) 0 (literal (lit "//")) 2
    memcpy result 2 body (len + 1)
  else if ← startsWith value (literal (lit "//?/")) then
    strdup (some (← advance value 4))
  else
    strdup (some value)

/-- The loop of `cp_replace_char`, up to the terminator. -/
def replaceLoop (a b : UInt8) : Chars → Option Chars
  | [] => none
  | none :: _ => none
  | some c :: cursor =>
      if c = 0 then
        some (some c :: cursor)
      else
        (replaceLoop a b cursor).map (some (if c = a then b else c) :: ·)

def replaceChar (value : Chars) (a b : UInt8) : Option Chars := do
  replaceLoop a b (← strdup (some value))

end C

end CanonicalPath
