import CanonicalPath.Library.Encoding
import CanonicalPath.TS.Internal

/-!
# TS uri — file-like URIs

`uri.ts` of the TypeScript port, on UTF-16 units.  `decodeURIComponent` is read in two passes, the
escapes and then the UTF-8 sequences they spell; both fail with the one error the caller reports.
`toLowerCase` is only compared with an ASCII word, for which ASCII case is enough: no unit beyond
ASCII has a lower case spelled by the letters of that word.
-/

namespace CanonicalPath

namespace TS

open CodeUnit Segments

/-! ## Percent decoding -/

/-- The value of a hexadecimal digit. -/
def hexDigit (a : UInt16) : Option Nat :=
  if '0'.toNat ≤ code a ∧ code a ≤ '9'.toNat then
    some (code a - '0'.toNat)
  else if 'a'.toNat ≤ code a ∧ code a ≤ 'f'.toNat then
    some (code a - 'a'.toNat + 10)
  else if 'A'.toNat ≤ code a ∧ code a ≤ 'F'.toNat then
    some (code a - 'A'.toNat + 10)
  else
    none

/-- The octet spelled by two hexadecimal digits. -/
def hexOctet (hi lo : UInt16) : Option Nat :=
  match hexDigit hi, hexDigit lo with
  | some hi, some lo => some (16 * hi + lo)
  | _, _ => none

/-- A unit that stands for itself, or an escaped octet. -/
inductive Token
  | unit (a : UInt16)
  | octet (n : Nat)
  deriving DecidableEq, Repr

/-- Every percent sign introduces two hexadecimal digits. -/
def tokens : Units → Option (List Token)
  | [] => some []
  | [a] => if a = chr '%' then none else some [.unit a]
  | [a, b] => if a = chr '%' ∨ b = chr '%' then none else some [.unit a, .unit b]
  | a :: hi :: lo :: value =>
      if a = chr '%' then
        match hexOctet hi lo with
        | some n => (tokens value).map (.octet n :: ·)
        | none => none
      else
        (tokens (hi :: lo :: value)).map (.unit a :: ·)

/-- A UTF-8 sequence that has begun: the octets it still needs, the least code point it may spell and
the payload bits read so far. -/
structure Pending where
  missing : Nat
  least : Nat
  bits : Nat
  deriving DecidableEq, Repr

/-- The sequence a lead octet begins. -/
def lead (n : Nat) : Option Pending :=
  if 0xC0 ≤ n ∧ n < 0xE0 then
    some { missing := 1, least := 0x80, bits := n - 0xC0 }
  else if 0xE0 ≤ n ∧ n < 0xF0 then
    some { missing := 2, least := 0x800, bits := n - 0xE0 }
  else if 0xF0 ≤ n ∧ n < 0xF8 then
    some { missing := 3, least := 0x10000, bits := n - 0xF0 }
  else
    none

/-- A sequence takes the six payload bits of a continuation octet. -/
def Pending.take (pending : Pending) (n : Nat) : Option Pending :=
  if 0x80 ≤ n ∧ n < 0xC0 then
    some { pending with missing := pending.missing - 1, bits := pending.bits * 0x40 + (n - 0x80) }
  else
    none

/-- The UTF-16 units of a complete sequence, which spells a scalar value in the shortest way. -/
def Pending.units (pending : Pending) : Option Units :=
  -- overlong spellings, surrogates and values beyond Unicode are refused
  if pending.bits < pending.least ∨ (0xD800 ≤ pending.bits ∧ pending.bits < 0xE000) ∨
      0x110000 ≤ pending.bits then
    none
  else
    some (utf16EncodeChar (Char.ofNat pending.bits))

/-- The escaped octets spell UTF-8 sequences, and no unit stands inside a sequence. -/
def decodeTokens : Option Pending → List Token → Option Units
  | none, [] => some []
  | none, .unit a :: more => (decodeTokens none more).map (a :: ·)
  | none, .octet n :: more =>
      -- an escaped ASCII octet is a sequence of its own
      if n < 0x80 then
        (decodeTokens none more).map (UInt16.ofNat n :: ·)
      else
        match lead n with
        | some pending => decodeTokens (some pending) more
        | none => none
  | some pending, .octet n :: more =>
      match pending.take n with
      | some pending =>
          if pending.missing = 0 then
            match pending.units, decodeTokens none more with
            | some units, some value => some (units ++ value)
            | _, _ => none
          else
            decodeTokens (some pending) more
      | none => none
  -- the text ends or a unit stands inside a sequence
  | some _, _ => none

/-- `decodeURIComponent`; `none` is its `URIError`. -/
def decodeURIComponent (value : Units) : Option Units :=
  (tokens value).bind (decodeTokens none)

/-! ## File URIs -/

/-- The `uri` part of the options record. -/
structure UriOptions where
  allowFileUri : Option Bool := none
  allowVSCodeFileUri : Option Bool := none
  rejectEncodedSlash : Option Bool := none
  deriving DecidableEq, Repr

/-- `options.uri?.allowFileUri` in a condition. -/
def allowFileUri (options : Option UriOptions) : Bool :=
  (options.bind fun uri => uri.allowFileUri).getD false

/-- `options.uri?.allowVSCodeFileUri` in a condition. -/
def allowVSCodeFileUri (options : Option UriOptions) : Bool :=
  (options.bind fun uri => uri.allowVSCodeFileUri).getD false

/-- `options.uri?.rejectEncodedSlash !== false`. -/
def rejectsEncodedSlash (options : Option UriOptions) : Bool :=
  (options.bind fun uri => uri.rejectEncodedSlash) != some false

/-- `/%(2f|2F|5c|5C)/`. -/
def hasEncodedSeparator : Units → Bool
  | [] => false
  | a :: value =>
      ["%2f", "%2F", "%5c", "%5C"].any (fun escape => startsWith (a :: value) (lit escape)) ||
        hasEncodedSeparator value

def parseHierarchicalURIPath (raw : Units) (leader : String) (options : Option UriOptions) :
    Except PathError Units :=
  if rejectsEncodedSlash options && hasEncodedSeparator raw then
    newError .encodedSeparator "URI contains an encoded path separator"
  else
    -- the first slash ends the authority and begins the path
    match cut (chr '/') (raw.drop leader.length) with
    | none => newError .invalidURI "URI path is empty"
    | some (authority, more) =>
        match decodeURIComponent (chr '/' :: more), decodeURIComponent authority with
        | some decoded, some decodedAuthority =>
            if nul ∈ decoded ∨ nul ∈ decodedAuthority then
              newError .nulByte "decoded URI contains NUL"
            else if decoded = [] then
              newError .invalidURI "URI path is empty"
            else if leader = "file://" ∧ decodedAuthority ≠ [] ∧
                decodedAuthority.map lower ≠ lit "localhost" then
              .ok (lit "//" ++ decodedAuthority ++ decoded)
            else
              .ok decoded
        | _, _ => newError .invalidPercentEncoding "URI percent encoding is invalid"

def parseFileUri (options : Option UriOptions) (uri : Units) : Except PathError Units :=
  if nul ∈ uri then
    newError .nulByte "URI contains NUL"
  else if startsWith uri (lit "file://") then
    if allowFileUri options then
      parseHierarchicalURIPath uri "file://" options
    else
      newError .unsupportedURIScheme "file URI is not allowed"
  else if startsWith uri (lit "vscode-file://") then
    if allowVSCodeFileUri options then
      parseHierarchicalURIPath uri "vscode-file://" options
    else
      newError .unsupportedURIScheme "vscode-file URI is not allowed"
  else if hasUriScheme uri then
    newError .unsupportedURIScheme "unsupported URI scheme"
  else
    .ok uri

end TS

end CanonicalPath
