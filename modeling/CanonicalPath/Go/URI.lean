import CanonicalPath.Go.Grammar

/-!
# Go URI — file-like URIs

`uri.go` of the Go port, on bytes: percent decoding may produce any byte, so this part is not
written over the code units.  `pathUnescape`, `validString` and `equalFold` stand for
`url.PathUnescape`, `utf8.ValidString` and `strings.EqualFold`.
-/

namespace CanonicalPath

namespace Go

open CodeUnit Segments

/-! ## URI schemes -/

section Scheme

variable {α : Type} [DecidableEq α] [CodeUnit α]

/-- The units of `hasURIScheme`'s loop. -/
def isSchemeCode (n : Nat) : Bool :=
  isLetterCode n || (48 ≤ n && n ≤ 57) || n == '+'.toNat || n == '-'.toNat || n == '.'.toNat

def hasURIScheme (value : List α) : Bool :=
  match before (lit "://") value with
  | none => false
  -- an empty scheme is no scheme
  | some scheme => scheme != [] && scheme.all fun a => isSchemeCode (code a)

end Scheme

/-! ## Percent decoding -/

def fromHex (b : UInt8) : Option UInt8 :=
  if chr '0' ≤ b ∧ b ≤ chr '9' then
    some (b - chr '0')
  else if chr 'a' ≤ b ∧ b ≤ chr 'f' then
    some (b - chr 'a' + 10)
  else if chr 'A' ≤ b ∧ b ≤ chr 'F' then
    some (b - chr 'A' + 10)
  else
    none

/-- The byte spelled by two hexadecimal digits. -/
def fromHexPair (hi lo : UInt8) : Option UInt8 :=
  match fromHex hi, fromHex lo with
  | some hi, some lo => some (hi <<< 4 ||| lo)
  | _, _ => none

def hasEncodedSeparator : Bytes → Bool
  | a :: hi :: lo :: value =>
      (a == chr '%' &&
        (fromHexPair hi lo == some (chr '/') || fromHexPair hi lo == some (chr '\\'))) ||
        -- the search goes on one byte later, also behind a percent sign
        hasEncodedSeparator (hi :: lo :: value)
  | _ => false

/-- `url.PathUnescape`: every percent sign introduces two hexadecimal digits. -/
def pathUnescape : Bytes → Option Bytes
  | [] => some []
  | [a] => if a = chr '%' then none else some [a]
  | [a, b] => if a = chr '%' ∨ b = chr '%' then none else some [a, b]
  | a :: hi :: lo :: value =>
      if a = chr '%' then
        match fromHexPair hi lo with
        | some b => (pathUnescape value).map (b :: ·)
        -- a percent sign without two digits is an error
        | none => none
      else
        (pathUnescape (hi :: lo :: value)).map (a :: ·)

/-- `utf8.ValidString`. -/
def validString (value : Bytes) : Bool :=
  (ByteArray.mk value.toArray).validateUTF8

/-- `strings.EqualFold` of a valid UTF-8 string and an ASCII one.  Simple case folding relates two
letters beyond ASCII to ASCII ones: the long s (`C5 BF`) and the Kelvin sign (`E2 84 AA`). -/
def equalFold : Bytes → List Char → Bool
  | [], [] => true
  | 0xC5 :: 0xBF :: value, c :: more => (c == 's' || c == 'S') && equalFold value more
  -- the Kelvin sign folds to `k`, the long s above to `s`
  | 0xE2 :: 0x84 :: 0xAA :: value, c :: more => (c == 'k' || c == 'K') && equalFold value more
  | a :: value, c :: more => lower a == lower (chr c) && equalFold value more
  | _, _ => false

/-! ## File URIs -/

/-- The `URI` part of the options record. -/
structure URIOptions where
  allowFileURI : Bool := false
  allowVSCodeFileURI : Bool := false
  rejectEncodedSlash : Option Bool := none
  deriving DecidableEq, Repr

def rejectEncodedSlash (opts : URIOptions) : Bool :=
  opts.rejectEncodedSlash == none || opts.rejectEncodedSlash == some true

def parseHierarchicalURIPath (raw : Bytes) (leader : String) (opts : URIOptions) :
    Except PathError Bytes :=
  if rejectEncodedSlash opts && hasEncodedSeparator raw then
    newError .encodedSeparator "URI contains an encoded path separator"
  else
    -- the first slash ends the authority and begins the path
    match cut (chr '/') (raw.drop leader.length) with
    | none => newError .invalidURI "URI path is empty"
    | some (authority, more) =>
        match pathUnescape (chr '/' :: more), pathUnescape authority with
        | none, _ => newError .invalidPercentEncoding "URI percent encoding is invalid"
        | some _, none =>
            newError .invalidPercentEncoding "URI authority percent encoding is invalid"
        | some decoded, some decodedAuthority =>
            if !validString decoded || !validString decodedAuthority then
              newError .invalidPercentEncoding "URI percent encoding is not valid UTF-8"
            else if nul ∈ decoded ∨ nul ∈ decodedAuthority then
              newError .nulByte "decoded URI contains NUL"
            else if decoded = [] then
              newError .invalidURI "URI path is empty"
            else if leader = "file://" ∧ decodedAuthority ≠ [] ∧
                equalFold decodedAuthority "localhost".toList = false then
              -- a remote authority becomes the server of a UNC path
              .ok (lit "//" ++ decodedAuthority ++ decoded)
            else
              .ok decoded

/-- Unwrap an allowed file-like URI into a path string. -/
def parseFileURI (opts : URIOptions) (uri : Bytes) : Except PathError Bytes :=
  if nul ∈ uri then
    newError .nulByte "URI contains NUL"
  else if hasPrefix uri (lit "file://") then
    if opts.allowFileURI then
      parseHierarchicalURIPath uri "file://" opts
    else
      newError .unsupportedURIScheme "file URI is not allowed"
  else if hasPrefix uri (lit "vscode-file://") then
    if opts.allowVSCodeFileURI then
      parseHierarchicalURIPath uri "vscode-file://" opts
    else
      newError .unsupportedURIScheme "vscode-file URI is not allowed"
  else if hasURIScheme uri then
    newError .unsupportedURIScheme "unsupported URI scheme"
  else
    .ok uri

end Go

end CanonicalPath
