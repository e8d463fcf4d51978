import CanonicalPath.Library.Sha256
import CanonicalPath.Rust.Normalize

/-!
# Rust component — names of the Rust port, with its indexes and slices

`sanitize_component`, `encode_git_ref` and `sha256_hex`.  An array with a fixed size whose places are all constants is a
record; every other array is a list, and a place behind its end is a panic.
-/

namespace CanonicalPath

namespace Rust

namespace Checked

open CodeUnit Str

/-! ## Components -/

/-- The loop that writes one hyphen for a run of characters. -/
def replaceRuns (replaced : Char → Bool) : Bool → List Char → List Char
  | _, [] => []
  | inReplacement, ch :: more =>
      if replaced ch then
        if !inReplacement then chr '-' :: replaceRuns replaced true more else replaceRuns replaced true more
      else
        ch :: replaceRuns replaced false more

def trimComponentEdges (value : List Char) : List Char :=
  trimMatches (fun ch => [' ', '.', '_', '-'].contains ch) value

def escapeReservedWin32Component (value : List Char) : Option (List Char) :=
  match find (· == chr '.') value with
  -- the dot is ASCII, the text in front of it need not be
  | some dot => do
      let base ← sliceTo value dot
      let suffix ← sliceFrom value dot
      if ← isReservedDeviceBase base then
        return base ++ lit "-" ++ suffix
      else
        return value
  | none => do
      if ← isReservedDeviceBase value then
        return value ++ lit "-"
      else
        return value

def sanitizeComponent (name profile : List Char) : Run (List Char) := do
  if name.isEmpty then
    fail .invalidComponent "component is empty"
  else if nul ∈ name then
    fail .nulByte "component contains NUL"
  else
    let value := replaceRuns (fun ch => ['/', '\\', ':', '\t', '\n', '\r'].contains ch) false name
    let value := trimComponentEdges value
    let value := if value.isEmpty then lit "component" else value
    if profile = lit "win32" then
      escapeReservedWin32Component value
    else
      return value

def encodeComponent (name profile : List Char) : Run (List Char) :=
  sanitizeComponent name profile

/-! ## SHA-256 -/

abbrev Word := BitVec 32

def sha256K : List Word :=
  [0x428a2f98, 0x71374491, 0xb5c0fbcf, 0xe9b5dba5, 0x3956c25b, 0x59f111f1, 0x923f82a4,
    0xab1c5ed5, 0xd807aa98, 0x12835b01, 0x243185be, 0x550c7dc3, 0x72be5d74, 0x80deb1fe,
    0x9bdc06a7, 0xc19bf174, 0xe49b69c1, 0xefbe4786, 0x0fc19dc6, 0x240ca1cc, 0x2de92c6f,
    0x4a7484aa, 0x5cb0a9dc, 0x76f988da, 0x983e5152, 0xa831c66d, 0xb00327c8, 0xbf597fc7,
    0xc6e00bf3, 0xd5a79147, 0x06ca6351, 0x14292967, 0x27b70a85, 0x2e1b2138, 0x4d2c6dfc,
    0x53380d13, 0x650a7354, 0x766a0abb, 0x81c2c92e, 0x92722c85, 0xa2bfe8a1, 0xa81a664b,
    0xc24b8b70, 0xc76c51a3, 0xd192e819, 0xd6990624, 0xf40e3585, 0x106aa070, 0x19a4c116,
    0x1e376c08, 0x2748774c, 0x34b0bcb5, 0x391c0cb3, 0x4ed8aa4a, 0x5b9cca4f, 0x682e6ff3,
    0x748f82ee, 0x78a5636f, 0x84c87814, 0x8cc70208, 0x90befffa, 0xa4506ceb, 0xbef9a3f7,
    0xc67178f2]

/-- The loop that pushes zeros, with a bound on its turns. -/
def zerosLoop : Nat → List UInt8 → Option (List UInt8)
  | 0, _ => none
  | fuel + 1, data => if data.length % 64 ≠ 56 then zerosLoop fuel (data ++ [0]) else some data

/-- The bytes of the length, over the values of `shift`. -/
def lengthBytes (bitLength : BitVec 64) : List UInt8 :=
  [56, 48, 40, 32, 24, 16, 8, 0].map fun shift => UInt8.ofBitVec ((bitLength >>> shift &&& 0xff).setWidth 8)

def paddedData (input : List UInt8) : Option (List UInt8) := do
  -- 64 turns pass every residue
  let data ← zerosLoop 64 (input ++ [0x80])
  return data ++ lengthBytes (BitVec.ofNat 64 input.length * 8)

/-- `slice::chunks`. -/
def chunks (data : List UInt8) (size : Nat) : List (List UInt8) :=
  (List.range ((data.length + size - 1) / size)).map fun i => (data.drop (i * size)).take size

def loadWord (chunk : List UInt8) (offset : Nat) : Option Word := do
  let b0 ← index chunk offset
  let b1 ← index chunk (offset + 1)
  let b2 ← index chunk (offset + 2)
  let b3 ← index chunk (offset + 3)
  return b0.toBitVec.setWidth 32 <<< 24 ||| b1.toBitVec.setWidth 32 <<< 16 ||| b2.toBitVec.setWidth 32 <<< 8 |||
    b3.toBitVec.setWidth 32

/-- The loop over the first 16 slots of `w`. -/
def loadWords (chunk : List UInt8) : List Nat → Option (List Word)
  | [] => some []
  | place :: more => do
      let word ← loadWord chunk (place * 4)
      return word :: (← loadWords chunk more)

/-- The loop over the other slots. -/
def extendLoop : List Nat → List Word → Option (List Word)
  | [], w => some w
  | place :: more, w => do
      let w15 ← index w (place - 15)
      let s0 := w15.rotateRight 7 ^^^ w15.rotateRight 18 ^^^ w15 >>> 3
      let w2 ← index w (place - 2)
      let s1 := w2.rotateRight 17 ^^^ w2.rotateRight 19 ^^^ w2 >>> 10
      let w16 ← index w (place - 16)
      let w7 ← index w (place - 7)
      extendLoop more (← setIndex w place (w16 + s0 + w7 + s1))

/-- The assignments of one round; the last variable of the source is `h` here. -/
def roundStep (v : Sha256.State) (k w : Word) : Sha256.State :=
  let s1 := v.e.rotateRight 6 ^^^ v.e.rotateRight 11 ^^^ v.e.rotateRight 25
  let ch := (v.e &&& v.f) ^^^ (~~~v.e &&& v.g)
  let temp1 := v.h + s1 + ch + k + w
  let s0 := v.a.rotateRight 2 ^^^ v.a.rotateRight 13 ^^^ v.a.rotateRight 22
  let maj := (v.a &&& v.b) ^^^ (v.a &&& v.c) ^^^ (v.b &&& v.c)
  let temp2 := s0 + maj
  { a := temp1 + temp2, b := v.a, c := v.b, d := v.c, e := v.d + temp1, f := v.e, g := v.f, h := v.g }

/-- The loop over the rounds. -/
def roundLoop (w : List Word) : List Nat → Sha256.State → Option Sha256.State
  | [], v => some v
  | place :: more, v => do
      let k ← index sha256K place
      let word ← index w place
      roundLoop w more (roundStep v k word)

/-- The body of the loop over the chunks. -/
def sha256Chunk (h : Sha256.State) (chunk : List UInt8) : Option Sha256.State := do
  -- a chunk that is too short stops here
  let words ← loadWords chunk (List.range 16)
  let w ← extendLoop (List.range' 16 48) (words ++ List.replicate 48 0)
  let v ← roundLoop w (List.range 64) h
  return h.add v

def chunkLoop : Sha256.State → List (List UInt8) → Option Sha256.State
  | h, [] => some h
  | h, chunk :: more => do
      chunkLoop (← sha256Chunk h chunk) more

/-- `{value:08x}`. -/
def hexWord (value : Word) : List Char :=
  [28, 24, 20, 16, 12, 8, 4, 0].map fun shift => Nat.digitChar (value.toNat >>> shift % 16)

def sha256Hex (input : List Char) : Option (List Char) := do
  let data ← paddedData (bytes input)
  let h ← chunkLoop
    { a := 0x6a09e667, b := 0xbb67ae85, c := 0x3c6ef372, d := 0xa54ff53a, e := 0x510e527f, f := 0x9b05688c,
      g := 0x1f83d9ab, h := 0x5be0cd19 } (chunks data 64)
  return h.words.flatMap hexWord

/-! ## Git refs -/

/-- `allowed`: the characters that a slug keeps. -/
def isAllowed (ch : Char) : Bool :=
  (isLetter ch || (chr '0' ≤ ch && ch ≤ chr '9')) || ['.', '_', '-'].contains ch

def encodeGitRef (raw : List Char) : Run (List Char) := do
  if raw.isEmpty then
    fail .invalidComponent "git ref is empty"
  else if nul ∈ raw then
    fail .nulByte "git ref contains NUL"
  else
    let slug := replaceRuns (fun ch => !isAllowed ch) false raw
    -- `truncate` panics inside a character; a slug has only characters of one byte
    let slug ← truncate (trimComponentEdges slug) 80
    let slug := trimComponentEdges slug
    let slug := if slug.isEmpty then lit "ref" else slug
    return lit "v2-" ++ slug ++ lit "--" ++ (← sha256Hex raw)

end Checked

end Rust

end CanonicalPath
