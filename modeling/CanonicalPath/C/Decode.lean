import CanonicalPath.C.Normalize

/-!
# C decode — the percent decoder of the C port

`cp_hex_value`, `cp_valid_utf8` and `cp_percent_decode`, on bounds-checked memory.  The loops have a bound on their
turns; a loop that reaches it has no value.
-/

namespace CanonicalPath

namespace C

open CodeUnit CString

/-- `cp_hex_value`: the value of a digit, or -1. -/
def hexValue (value : UInt8) : Int :=
  if chr '0' ≤ value ∧ value ≤ chr '9' then
    (value - chr '0').toNat
  else if chr 'a' ≤ value ∧ value ≤ chr 'f' then
    (value - chr 'a' + 10).toNat
  else if chr 'A' ≤ value ∧ value ≤ chr 'F' then
    (value - chr 'A' + 10).toNat
  else
    -1

/-! ## UTF-8 -/

/-- `count`, `code` and `minimum` of a first byte. -/
def leadByte (first : Nat) : Option (Nat × Nat × Nat) :=
  if 0xc2 ≤ first ∧ first ≤ 0xdf then
    some (1, first &&& 0x1f, 0x80)
  else if 0xe0 ≤ first ∧ first ≤ 0xef then
    some (2, first &&& 0x0f, 0x800)
  else if 0xf0 ≤ first ∧ first ≤ 0xf4 then
    some (3, first &&& 0x07, 0x10000)
  else
    none

/-- The loop over the bytes behind the first: the next place and the code, or nothing where a byte is none of them. -/
def continuation (value : Chars) : Nat → Nat → Nat → Option (Option (Nat × Nat))
  | 0, i, code => some (some (i, code))
  | count + 1, i, code => do
      let next := (← charAt value i).toNat
      if next &&& 0xc0 ≠ 0x80 then
        some none
      else
        continuation value count (i + 1) (code <<< 6 ||| (next &&& 0x3f))

/-- The loop of `cp_valid_utf8`. -/
def validUtf8Loop (value : Chars) (len : Nat) : Nat → Nat → Option Bool
  | 0, _ => none
  | fuel + 1, i =>
      if i < len then do
        let first := (← charAt value i).toNat
        if first < 0x80 then
          validUtf8Loop value len fuel (i + 1)
        else
          match leadByte first with
          | none => some false
          | some (count, code, minimum) =>
              if len - (i + 1) < count then
                -- a truncated tail: the inner loop would leave the buffer
                some false
              else do
                match ← continuation value count (i + 1) code with
                | none => some false
                | some (i, code) =>
                    -- overlong, beyond Unicode, a surrogate
                    if code < minimum ∨ code > 0x10ffff ∨ (code ≥ 0xd800 ∧ code ≤ 0xdfff) then
                      some false
                    else
                      validUtf8Loop value len fuel i
      else
        some true

def validUtf8 (value : Chars) (len : Nat) : Option Bool :=
  validUtf8Loop value len (len + 1) 0

/-! ## Escapes -/

/-- The loop of `cp_percent_decode`. -/
def percentLoop (value : Chars) (len : Nat) : Nat → Nat → Chars → Nat → Run (Chars × Nat)
  | 0, _, _, _ => liftM (none : Option (Chars × Nat))
  | fuel + 1, read, result, write =>
      if read < len then do
        let ch ← charAt value read
        if ch ≠ chr '%' then
          percentLoop value len fuel (read + 1) (← store result write ch) (write + 1)
        else if read + 2 ≥ len then
          -- no room for two digits
          fail .invalidPercentEncoding
        else do
          let high := hexValue (← charAt value (read + 1))
          let low := hexValue (← charAt value (read + 2))
          if high < 0 ∨ low < 0 then
            fail .invalidPercentEncoding
          else if high.toNat <<< 4 ||| low.toNat = 0 then
            fail .nulByte
          else
            percentLoop value len fuel (read + 3) (← store result write (UInt8.ofNat (high.toNat <<< 4 ||| low.toNat)))
              (write + 1)
      else
        return (result, write)

def percentDecode (value : Chars) (len : Nat) : Run CpString := do
  let (result, write) ← percentLoop value len (len + 1) 0 (malloc (len + 1)) 0
  let result ← store result write 0
  -- the octets are checked after all of them are written
  if !(← validUtf8 result write) then
    fail .invalidPercentEncoding
  else
    return { data := result, len := write }

end C

end CanonicalPath
