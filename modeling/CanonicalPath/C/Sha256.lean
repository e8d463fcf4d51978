import CanonicalPath.C.Strings
import CanonicalPath.Library.Transcode

/-!
# C SHA-256 — the digest of the C port

`cp_sha256_hex` with the helper it calls, on bounds-checked memory: the padded buffer, the arrays `w` and `h` and the
table `k` are objects, and an access outside of one has no value.  Sizes are taken modulo `2 ^ 64`, words modulo
`2 ^ 32`.
-/

namespace CanonicalPath

namespace C

open CodeUnit CString

/-- An array of `uint32_t`. -/
abbrev Words := Memory (BitVec 32)

def rotr (value : BitVec 32) (count : Nat) : BitVec 32 :=
  value >>> count ||| value <<< (32 - count)

def sha256K : Words :=
  [0x428a2f98, 0x71374491, 0xb5c0fbcf, 0xe9b5dba5, 0x3956c25b, 0x59f111f1, 0x923f82a4,
    0xab1c5ed5, 0xd807aa98, 0x12835b01, 0x243185be, 0x550c7dc3, 0x72be5d74, 0x80deb1fe,
    0x9bdc06a7, 0xc19bf174, 0xe49b69c1, 0xefbe4786, 0x0fc19dc6, 0x240ca1cc, 0x2de92c6f,
    0x4a7484aa, 0x5cb0a9dc, 0x76f988da, 0x983e5152, 0xa831c66d, 0xb00327c8, 0xbf597fc7,
    0xc6e00bf3, 0xd5a79147, 0x06ca6351, 0x14292967, 0x27b70a85, 0x2e1b2138, 0x4d2c6dfc,
    0x53380d13, 0x650a7354, 0x766a0abb, 0x81c2c92e, 0x92722c85, 0xa2bfe8a1, 0xa81a664b,
    0xc24b8b70, 0xc76c51a3, 0xd192e819, 0xd6990624, 0xf40e3585, 0x106aa070, 0x19a4c116,
    0x1e376c08, 0x2748774c, 0x34b0bcb5, 0x391c0cb3, 0x4ed8aa4a, 0x5b9cca4f, 0x682e6ff3,
    0x748f82ee, 0x78a5636f, 0x84c87814, 0x8cc70208, 0x90befffa, 0xa4506ceb, 0xbef9a3f7,
    0xc67178f2].map some

/-! ## The padded buffer -/

/-- A value of `size_t`. -/
def sizeT (n : Nat) : Nat :=
  n % 2 ^ 64

/-- The loop that rounds `data_len` up, with a bound on its turns. -/
def dataLenLoop : Nat → Nat → Option Nat
  | 0, _ => none
  | fuel + 1, dataLen =>
      if dataLen % 64 ≠ 56 then
        dataLenLoop fuel (sizeT (dataLen + 1))
      else
        some dataLen

/-- The loop that writes the length, over the values of `shift`. -/
def storeLength (dataLen : Nat) (bitLen : BitVec 64) : List Nat → Chars → Option Chars
  | [], data => some data
  | shift :: shifts, data => do
      -- the sum is taken modulo 2 ^ 64, so that `data_len - 8` does not go below zero before the rest is added
      let byte := UInt8.ofBitVec ((bitLen >>> shift &&& 0xff).setWidth 8)
      let data ← store data (sizeT (dataLen + 2 ^ 64 - 8 + (56 - shift) / 8)) byte
      storeLength dataLen bitLen shifts data

/-- `data` and `data_len`; `calloc` gives zeros. -/
def paddedData (input : Chars) (inputLen : Nat) : Option (Chars × Nat) := do
  let bitLen := BitVec.ofNat 64 inputLen * 8
  -- 64 turns pass every residue
  let dataLen ← dataLenLoop 64 (sizeT (inputLen + 1))
  let dataLen := sizeT (dataLen + 8)
  let data ← memcpy (List.replicate dataLen (some 0)) 0 input inputLen
  let data ← store data inputLen 0x80
  let data ← storeLength dataLen bitLen [56, 48, 40, 32, 24, 16, 8, 0] data
  return (data, dataLen)

/-! ## A chunk -/

def loadWord (data : Chars) (j : Nat) : Option (BitVec 32) := do
  let b0 ← charAt data j
  let b1 ← charAt data (sizeT (j + 1))
  let b2 ← charAt data (sizeT (j + 2))
  let b3 ← charAt data (sizeT (j + 3))
  return b0.toBitVec.setWidth 32 <<< 24 ||| b1.toBitVec.setWidth 32 <<< 16 ||| b2.toBitVec.setWidth 32 <<< 8 |||
    b3.toBitVec.setWidth 32

/-- The first loop over `w`, with the number of turns that are left. -/
def loadWords (data : Chars) (chunk : Nat) : Nat → Nat → Words → Option Words
  | 0, _, w => some w
  | left + 1, i, w => do
      let word ← loadWord data (sizeT (chunk + i * 4))
      loadWords data chunk left (i + 1) (← store w i word)

/-- The second loop over `w`. -/
def extendWords : Nat → Nat → Words → Option Words
  | 0, _, w => some w
  | left + 1, i, w => do
      let w15 ← load w (i - 15)
      let s0 := rotr w15 7 ^^^ rotr w15 18 ^^^ w15 >>> 3
      let w2 ← load w (i - 2)
      let s1 := rotr w2 17 ^^^ rotr w2 19 ^^^ w2 >>> 10
      let w16 ← load w (i - 16)
      let w7 ← load w (i - 7)
      extendWords left (i + 1) (← store w i (w16 + s0 + w7 + s1))

/-- The working variables. -/
structure Working where
  a : BitVec 32
  b : BitVec 32
  c : BitVec 32
  d : BitVec 32
  e : BitVec 32
  f : BitVec 32
  g : BitVec 32
  hh : BitVec 32

/-- The assignments of one round, in the order of the source. -/
def roundStep (v : Working) (k w : BitVec 32) : Working :=
  let s1 := rotr v.e 6 ^^^ rotr v.e 11 ^^^ rotr v.e 25
  let ch := (v.e &&& v.f) ^^^ (~~~v.e &&& v.g)
  let temp1 := v.hh + s1 + ch + k + w
  let s0 := rotr v.a 2 ^^^ rotr v.a 13 ^^^ rotr v.a 22
  let maj := (v.a &&& v.b) ^^^ (v.a &&& v.c) ^^^ (v.b &&& v.c)
  let temp2 := s0 + maj
  -- from here on each assignment reads what the one before it left
  let v := { v with hh := v.g }
  let v := { v with g := v.f }
  let v := { v with f := v.e }
  let v := { v with e := v.d + temp1 }
  let v := { v with d := v.c }
  let v := { v with c := v.b }
  let v := { v with b := v.a }
  { v with a := temp1 + temp2 }

/-- The loop over the rounds. -/
def roundLoop (w : Words) : Nat → Nat → Working → Option Working
  | 0, _, v => some v
  | left + 1, i, v => do
      let k ← load sha256K i
      let word ← load w i
      roundLoop w left (i + 1) (roundStep v k word)

/-- `h[i] += value`. -/
def addTo (h : Words) (i : Nat) (value : BitVec 32) : Option Words := do
  store h i ((← load h i) + value)

/-- The body of the loop over the chunks. -/
def sha256Chunk (data : Chars) (chunk : Nat) (h : Words) : Option Words := do
  let w ← loadWords data chunk 16 0 (List.replicate 64 (some 0))
  let w ← extendWords 48 16 w
  let v : Working :=
    { a := ← load h 0, b := ← load h 1, c := ← load h 2, d := ← load h 3,
      e := ← load h 4, f := ← load h 5, g := ← load h 6, hh := ← load h 7 }
  let v ← roundLoop w 64 0 v
  let h ← addTo h 0 v.a
  let h ← addTo h 1 v.b
  let h ← addTo h 2 v.c
  let h ← addTo h 3 v.d
  let h ← addTo h 4 v.e
  let h ← addTo h 5 v.f
  let h ← addTo h 6 v.g
  addTo h 7 v.hh

/-- The loop over the chunks, with the number of chunks that are left. -/
def sha256Chunks (data : Chars) : Nat → Nat → Words → Option Words
  | 0, _, h => some h
  | left + 1, chunk, h => do
      let h ← sha256Chunk data chunk h
      sha256Chunks data left (sizeT (chunk + 64)) h

/-! ## The text -/

/-- The digits of a number, as many as are asked for. -/
def hexDigits : Nat → Nat → List UInt8
  | 0, _ => []
  | width + 1, n => hexDigits width (n / 16) ++ [ofCode (hexByte.hexDigit (n % 16))]

/-- The conversion `%08x`. -/
def hex8 (value : BitVec 32) : List UInt8 :=
  hexDigits 8 value.toNat

/-- `snprintf` with a text that needs no more conversions. -/
def snprintf (result : Chars) (n : Nat) (text : List UInt8) : Option Chars := do
  let written := min text.length (n - 1)
  let result ← memcpy result 0 (text.map some) written
  store result written 0

/-- `cp_sha256_hex`. -/
def sha256Hex (input : Chars) (inputLen : Nat) : Option Chars := do
  let (data, dataLen) ← paddedData input inputLen
  let h : Words := [0x6a09e667, 0xbb67ae85, 0x3c6ef372, 0xa54ff53a, 0x510e527f, 0x9b05688c, 0x1f83d9ab, 0x5be0cd19].map some
  -- `chunk < data_len` holds once for each 64 bytes that are begun
  let h ← sha256Chunks data ((dataLen + 63) / 64) 0 h
  let h0 ← load h 0
  let h1 ← load h 1
  let h2 ← load h 2
  let h3 ← load h 3
  let h4 ← load h 4
  let h5 ← load h 5
  let h6 ← load h 6
  let h7 ← load h 7
  snprintf (malloc 65) 65 (hex8 h0 ++ hex8 h1 ++ hex8 h2 ++ hex8 h3 ++ hex8 h4 ++ hex8 h5 ++ hex8 h6 ++ hex8 h7)

end C

end CanonicalPath
