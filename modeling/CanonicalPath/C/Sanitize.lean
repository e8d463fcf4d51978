import CanonicalPath.C.Normalize

/-!
# C sanitize — components made from user strings

`canonicalpath_sanitize_component_n` of the C port with the helpers it calls, on bounds-checked memory.
-/

namespace CanonicalPath

namespace C

open CodeUnit CString

/-! ## Edges -/

/-- The characters of `cp_trim_component_edges`. -/
def isEdge (ch : UInt8) : Bool :=
  ch == chr ' ' || ch == chr '.' || ch == chr '_' || ch == chr '-'

/-- The first loop: `start` moves at most `fuel` places. -/
def edgeStart (value : Chars) : Nat → Nat → Option Nat
  | 0, start => some start
  | fuel + 1, start => do
      if isEdge (← charAt value start) then
        edgeStart value fuel (start + 1)
      else
        some start

/-- The second loop: `stop` moves at most `fuel` places back. -/
def edgeEnd (value : Chars) : Nat → Nat → Option Nat
  | 0, stop => some stop
  | fuel + 1, stop => do
      if isEdge (← charAt value (stop - 1)) then
        edgeEnd value fuel (stop - 1)
      else
        some stop

def trimComponentEdges (value : Chars) : Option Chars := do
  let len ← strlen value
  let start ← edgeStart value len 0
  -- the second loop stops where the first one stopped
  let stop ← edgeEnd value (len - start) len
  strndup (some (← advance value start)) (stop - start)

/-! ## Device names -/

def escapeReservedWin32Component (value : Chars) : Option Chars := do
  let dot ← strchr (chr '.') value
  let baseLen ← componentLen value dot
  if !(← isReservedDeviceBase value baseLen) then
    strdup (some value)
  else
    match dot with
    | none =>
        let result ← memcpy (malloc (baseLen + 1 + 0 + 1)) 0 value baseLen
        let result ← store result baseLen (chr '-')
        store result (baseLen + 1 + 0) 0
    | some dot =>
        let suffix ← advance value dot
        let suffixLen ← strlen suffix
        let result ← memcpy (malloc (baseLen + 1 + suffixLen + 1)) 0 value baseLen
        let result ← store result baseLen (chr '-')
        let result ← if suffixLen > 0 then memcpy result (baseLen + 1) suffix suffixLen else some result
        store result (baseLen + 1 + suffixLen) 0

/-! ## Components -/

def isReplaced (ch : UInt8) : Bool :=
  ch == chr '/' || ch == chr '\\' || ch == chr ':' || ch == chr '\t' || ch == chr '\n' || ch == chr '\r'

/-- The loop over the name, with the number of characters that are left to read. -/
def sanitizeLoop (name : Chars) : Nat → Nat → Bool → Chars → Nat → Option (Chars × Nat)
  | 0, _, _, value, write => some (value, write)
  | left + 1, read, inReplacement, value, write => do
      let ch ← charAt name read
      if isReplaced ch then
        if inReplacement then
          sanitizeLoop name left (read + 1) true value write
        else
          sanitizeLoop name left (read + 1) true (← store value write (chr '-')) (write + 1)
      else
        sanitizeLoop name left (read + 1) false (← store value write ch) (write + 1)

/-- The value that is written for a name of one or more characters without NUL. -/
def sanitized (name : Chars) (nameLen : Nat) (profile : Option Chars) : Option Chars := do
  let (value, write) ← sanitizeLoop name nameLen 0 false (malloc (nameLen + 1)) 0
  let value ← store value write 0
  let trimmed ← trimComponentEdges value
  let trimmed ← if (← charAt trimmed 0) = 0 then strdup (some (literal (lit "component"))) else some trimmed
  if ← equals profile (literal (lit "win32")) then
    escapeReservedWin32Component trimmed
  else
    return trimmed

/-- `canonicalpath_sanitize_component_n`. -/
def sanitizeComponentN (name : Option Chars) (nameLen : Nat) (profile : Option Chars) : Run Chars := do
  if nameLen = 0 then
    fail .invalidComponent
  else if ← hasNul name nameLen then
    fail .nulByte
  else
    let name ← name
    liftM (sanitized name nameLen profile)

end C

end CanonicalPath
