import Mathlib.Data.Nat.Bitwise
import Mathlib.Data.List.Induction
import Mathlib.Order.Bounds.Defs
import Mathlib.Tactic.Ring

/-!
# Sha256 — the hash of FIPS 180-4

The hash as the standard defines it, on strings of bits: padding, parsing into words, the message schedule and the
rounds.  `digest` is the hash of a string of octets.

* `pad` : the message, a one, the least number of zeros and the length
* `schedule`, `round`, `compress` : one block
* `hash`, `digest` : the whole message
-/

namespace Sha256

abbrev Word := BitVec 32

/-! ## Functions -/

def ch (x y z : Word) : Word :=
  (x &&& y) ^^^ (~~~x &&& z)

def maj (x y z : Word) : Word :=
  (x &&& y) ^^^ (x &&& z) ^^^ (y &&& z)

def bigSigma0 (x : Word) : Word :=
  x.rotateRight 2 ^^^ x.rotateRight 13 ^^^ x.rotateRight 22

def bigSigma1 (x : Word) : Word :=
  x.rotateRight 6 ^^^ x.rotateRight 11 ^^^ x.rotateRight 25

def smallSigma0 (x : Word) : Word :=
  x.rotateRight 7 ^^^ x.rotateRight 18 ^^^ x >>> 3

def smallSigma1 (x : Word) : Word :=
  x.rotateRight 17 ^^^ x.rotateRight 19 ^^^ x >>> 10

/-! ## Constants -/

/-- The first 32 bits of the fractional part of the `k`-th root of `p`. -/
def IsRootFraction (k p : Nat) (w : Word) : Prop :=
  ∃ q ∈ List.range 20, (q * 2 ^ 32 + w.toNat) ^ k ≤ p * 2 ^ (32 * k) ∧
    p * 2 ^ (32 * k) < (q * 2 ^ 32 + w.toNat + 1) ^ k

instance (k p : Nat) (w : Word) : Decidable (IsRootFraction k p w) :=
  inferInstanceAs (Decidable (∃ q ∈ List.range 20, _ ∧ _))

/-- The first 64 primes. -/
def primes : List Nat :=
  [2, 3, 5, 7, 11, 13, 17, 19, 23, 29, 31, 37, 41, 43, 47, 53, 59, 61, 67, 71, 73, 79, 83, 89, 97, 101, 103, 107, 109,
    113, 127, 131, 137, 139, 149, 151, 157, 163, 167, 173, 179, 181, 191, 193, 197, 199, 211, 223, 227, 229, 233, 239,
    241, 251, 257, 263, 269, 271, 277, 281, 283, 293, 307, 311]

/-- The words of the rounds. -/
def constants : List Word :=
  [0x428a2f98, 0x71374491, 0xb5c0fbcf, 0xe9b5dba5, 0x3956c25b, 0x59f111f1, 0x923f82a4, 0xab1c5ed5,
    0xd807aa98, 0x12835b01, 0x243185be, 0x550c7dc3, 0x72be5d74, 0x80deb1fe, 0x9bdc06a7, 0xc19bf174,
    0xe49b69c1, 0xefbe4786, 0x0fc19dc6, 0x240ca1cc, 0x2de92c6f, 0x4a7484aa, 0x5cb0a9dc, 0x76f988da,
    0x983e5152, 0xa831c66d, 0xb00327c8, 0xbf597fc7, 0xc6e00bf3, 0xd5a79147, 0x06ca6351, 0x14292967,
    0x27b70a85, 0x2e1b2138, 0x4d2c6dfc, 0x53380d13, 0x650a7354, 0x766a0abb, 0x81c2c92e, 0x92722c85,
    0xa2bfe8a1, 0xa81a664b, 0xc24b8b70, 0xc76c51a3, 0xd192e819, 0xd6990624, 0xf40e3585, 0x106aa070,
    0x19a4c116, 0x1e376c08, 0x2748774c, 0x34b0bcb5, 0x391c0cb3, 0x4ed8aa4a, 0x5b9cca4f, 0x682e6ff3,
    0x748f82ee, 0x78a5636f, 0x84c87814, 0x8cc70208, 0x90befffa, 0xa4506ceb, 0xbef9a3f7, 0xc67178f2]

/-- The words are cube roots of the primes. -/
theorem constants_roots : List.Forall₂ (IsRootFraction 3) primes constants := by
  decide +kernel

/-- The eight words that a block changes. -/
structure State where
  a : Word
  b : Word
  c : Word
  d : Word
  e : Word
  f : Word
  g : Word
  h : Word
  deriving DecidableEq, Repr

namespace State

def words (s : State) : List Word :=
  [s.a, s.b, s.c, s.d, s.e, s.f, s.g, s.h]

def add (s t : State) : State where
  a := s.a + t.a
  b := s.b + t.b
  c := s.c + t.c
  d := s.d + t.d
  e := s.e + t.e
  f := s.f + t.f
  g := s.g + t.g
  h := s.h + t.h

end State

def initial : State where
  a := 0x6a09e667
  b := 0xbb67ae85
  c := 0x3c6ef372
  d := 0xa54ff53a
  e := 0x510e527f
  f := 0x9b05688c
  g := 0x1f83d9ab
  h := 0x5be0cd19

/-- The first words are square roots of the first eight primes. -/
theorem initial_roots : List.Forall₂ (IsRootFraction 2) (primes.take 8) initial.words := by
  decide +kernel

/-! ## Blocks -/

/-- The words `W 0` to `W (n + 15)` of the schedule of a block of 16 words. -/
def schedule (block : List Word) : Nat → List Word
  | 0 => block
  | n + 1 =>
      let w := schedule block n
      w ++ [smallSigma1 (w.getD (n + 14) 0) + w.getD (n + 9) 0 + smallSigma0 (w.getD (n + 1) 0) + w.getD n 0]

theorem length_schedule (block : List Word) (n : Nat) : (schedule block n).length = block.length + n := by
  induction n with
  | zero =>
      rfl
  | succ n ih =>
      rw [schedule, List.length_append, List.length_singleton, ih, Nat.add_assoc]

def round (s : State) (k w : Word) : State :=
  let t1 := s.h + bigSigma1 s.e + ch s.e s.f s.g + k + w
  let t2 := bigSigma0 s.a + maj s.a s.b s.c
  { a := t1 + t2, b := s.a, c := s.b, d := s.c, e := s.d + t1, f := s.e, g := s.f, h := s.g }

def rounds (s : State) : List Word → List Word → State
  | k :: ks, w :: ws => rounds (round s k w) ks ws
  | _, _ => s

def compress (s : State) (block : List Word) : State :=
  s.add (rounds s constants (schedule block 48))

/-! ## Bits -/

/-- The bits of a number, the most significant one first. -/
def bits (width n : Nat) : List Bool :=
  (List.range width).map fun i => n.testBit (width - 1 - i)

/-- The number of a string of bits. -/
def ofBits (s : List Bool) : Nat :=
  s.foldl (fun n b => 2 * n + b.toNat) 0

/-- The number of zeros behind the one. -/
def zeros (l : Nat) : Nat :=
  (959 - l % 512) % 512

def pad (message : List Bool) : List Bool :=
  message ++ true :: (List.replicate (zeros message.length) false ++ bits 64 message.length)

/-- The 16 words at the front of a string. -/
def blockWords (s : List Bool) : List Word :=
  (List.range 16).map fun t => BitVec.ofNat 32 (ofBits ((s.drop (32 * t)).take 32))

/-- The blocks of a string, one after the other. -/
def hashBlocks : Nat → State → List Bool → State
  | 0, s, _ => s
  | n + 1, s, message => hashBlocks n (compress s (blockWords message)) (message.drop 512)

def hash (message : List Bool) : State :=
  hashBlocks ((pad message).length / 512) initial (pad message)

/-! ## Octets -/

/-- The octets of a word, the most significant one first. -/
def wordBytes (w : Word) : List UInt8 :=
  [24, 16, 8, 0].map fun shift => UInt8.ofNat (w.toNat / 2 ^ shift)

/-- The bits of a string of octets. -/
def byteBits (message : List UInt8) : List Bool :=
  message.flatMap fun b => bits 8 b.toNat

def digest (message : List UInt8) : Vector UInt8 32 :=
  ⟨((hash (byteBits message)).words.flatMap wordBytes).toArray, rfl⟩

example : (digest [97, 98, 99]).toList =
    [0xba, 0x78, 0x16, 0xbf, 0x8f, 0x01, 0xcf, 0xea, 0x41, 0x41, 0x40, 0xde, 0x5d, 0xae, 0x22, 0x23, 0xb0, 0x03, 0x61,
      0xa3, 0x96, 0x17, 0x7a, 0x9c, 0xb4, 0x10, 0xff, 0x61, 0xf2, 0x00, 0x15, 0xad] := by
  decide +kernel

/-! ## Strings of octets -/

theorem length_bits (width n : Nat) : (bits width n).length = width := by
  rw [bits, List.length_map, List.length_range]

theorem bits_add (v w n : Nat) : bits (v + w) n = bits v (n / 2 ^ w) ++ bits w n := by
  apply List.ext_getElem
  · rw [List.length_append, length_bits, length_bits, length_bits]
  · intro i hi hi'
    rw [length_bits] at hi
    by_cases hfront : i < v
    · rw [List.getElem_append_left (by rwa [length_bits])]
      have hplace : v + w - 1 - i = v - 1 - i + w := by
        omega
      simp only [bits, List.getElem_map, List.getElem_range, hplace, Nat.testBit_div_two_pow]
    · rw [List.getElem_append_right (by rw [length_bits]; omega)]
      have hplace : v + w - 1 - i = w - 1 - (i - v) := by
        omega
      simp only [bits, List.length_map, List.length_range, List.getElem_map, List.getElem_range, hplace]

theorem ofBits_append (s t : List Bool) : ofBits (s ++ t) = ofBits s * 2 ^ t.length + ofBits t := by
  induction t using List.reverseRecOn with
  | nil =>
      simp [ofBits]
  | append_singleton t b ih =>
      have hconcat (u : List Bool) : ofBits (u ++ [b]) = 2 * ofBits u + b.toNat := by
        rw [ofBits, List.foldl_append]
        rfl
      rw [← List.append_assoc, hconcat, hconcat, ih, List.length_append, List.length_singleton, pow_succ]
      ring

theorem ofBits_bits (width n : Nat) : ofBits (bits width n) = n % 2 ^ width := by
  induction width generalizing n with
  | zero =>
      rw [pow_zero, Nat.mod_one]
      rfl
  | succ width ih =>
      -- the last bit is the remainder, the others are the number without it
      have hlast : ofBits (bits 1 n) = n % 2 := by
        have hbit : ofBits (bits 1 n) = (n.testBit 0).toNat := Nat.zero_add _
        rw [hbit, Nat.testBit_zero]
        rcases Nat.mod_two_eq_zero_or_one n with heven | hodd
        · rw [heven]
          rfl
        · rw [hodd]
          rfl
      rw [bits_add width 1, ofBits_append, ih, length_bits, hlast, pow_one, pow_succ, Nat.mul_comm (2 ^ width) 2,
        Nat.mod_mul]
      omega

theorem length_byteBits (message : List UInt8) : (byteBits message).length = 8 * message.length := by
  induction message with
  | nil =>
      rfl
  | cons b message ih =>
      rw [byteBits, List.flatMap_cons, List.length_append, length_bits, List.length_cons]
      rw [byteBits] at ih
      omega

theorem byteBits_append (s t : List UInt8) : byteBits (s ++ t) = byteBits s ++ byteBits t :=
  List.flatMap_append

theorem drop_byteBits (n : Nat) (s : List UInt8) : (byteBits s).drop (8 * n) = byteBits (s.drop n) := by
  induction n generalizing s with
  | zero =>
      rfl
  | succ n ih =>
      cases s with
      | nil =>
          simp [byteBits]
      | cons b s =>
          have hcut : 8 * (n + 1) = (bits 8 b.toNat).length + 8 * n := by
            rw [length_bits]
            omega
          rw [List.drop_succ_cons, ← ih, hcut, byteBits, List.flatMap_cons, List.drop_length_add_append]
          rfl

/-! ## Padded octets -/

/-- The number of zero octets. -/
def zeroBytes (l : Nat) : Nat :=
  (119 - l % 64) % 64

/-- The length in bits, as eight octets. -/
def lengthBytes (l : Nat) : List UInt8 :=
  [56, 48, 40, 32, 24, 16, 8, 0].map fun shift => UInt8.ofNat (8 * l / 2 ^ shift)

def padBytes (message : List UInt8) : List UInt8 :=
  message ++ 0x80 :: (List.replicate (zeroBytes message.length) 0 ++ lengthBytes message.length)

/-- No fewer octets fill the last block. -/
theorem isLeast_zeroBytes (l : Nat) : IsLeast {k | 64 ∣ l + 1 + k + 8} (zeroBytes l) := by
  constructor
  · change 64 ∣ l + 1 + zeroBytes l + 8
    rw [zeroBytes]
    omega
  · intro k hk
    change 64 ∣ l + 1 + k + 8 at hk
    rw [zeroBytes]
    omega

theorem length_padBytes (message : List UInt8) :
    (padBytes message).length = message.length + 1 + zeroBytes message.length + 8 := by
  rw [padBytes, lengthBytes, List.length_append, List.length_cons, List.length_append, List.length_replicate,
    List.length_map]
  simp only [List.length_cons, List.length_nil]
  omega

theorem bits_octet (n : Nat) : bits 8 (UInt8.ofNat n).toNat = bits 8 n := by
  rw [UInt8.toNat_ofNat', bits, bits]
  refine List.map_congr_left fun i hi => ?_
  have hplace : 8 - 1 - i < 8 := by
    omega
  rw [Nat.testBit_mod_two_pow, decide_eq_true hplace, Bool.true_and]

theorem byteBits_lengthBytes (l : Nat) : byteBits (lengthBytes l) = bits 64 (8 * l) := by
  have hcut (v : Nat) : bits (8 + v) (8 * l) = bits 8 (8 * l / 2 ^ v) ++ bits v (8 * l) := bits_add 8 v (8 * l)
  calc
    byteBits (lengthBytes l)
        = bits 8 (8 * l / 2 ^ 56) ++ (bits 8 (8 * l / 2 ^ 48) ++ (bits 8 (8 * l / 2 ^ 40) ++
            (bits 8 (8 * l / 2 ^ 32) ++ (bits 8 (8 * l / 2 ^ 24) ++ (bits 8 (8 * l / 2 ^ 16) ++
              (bits 8 (8 * l / 2 ^ 8) ++ (bits 8 (8 * l / 2 ^ 0) ++ []))))))) := by
          simp only [lengthBytes, byteBits, List.map_cons, List.map_nil, List.flatMap_cons, List.flatMap_nil, bits_octet]
    _ = bits 64 (8 * l) := by
          rw [hcut 56, hcut 48, hcut 40, hcut 32, hcut 24, hcut 16, hcut 8, pow_zero, Nat.div_one, List.append_nil]

theorem byteBits_zeros (n : Nat) : byteBits (List.replicate n 0) = List.replicate (8 * n) false := by
  induction n with
  | zero =>
      rfl
  | succ n ih =>
      have hzero : bits 8 (0 : UInt8).toNat = List.replicate 8 false := by
        decide
      rw [List.replicate_succ, byteBits, List.flatMap_cons, hzero, ← byteBits, ih, List.replicate_append_replicate]
      congr 1
      omega

/-- Padding octets is padding their bits. -/
theorem byteBits_padBytes (message : List UInt8) : byteBits (padBytes message) = pad (byteBits message) := by
  have hone : bits 8 (0x80 : UInt8).toNat = true :: List.replicate 7 false := by
    decide
  -- the mark has seven zeros of its own
  have hzeros : zeros (8 * message.length) = 7 + 8 * zeroBytes message.length := by
    rw [zeros, zeroBytes]
    omega
  have hmark (s : List UInt8) : byteBits (0x80 :: s) = true :: (List.replicate 7 false ++ byteBits s) := by
    rw [byteBits, List.flatMap_cons, hone]
    rfl
  rw [padBytes, pad, byteBits_append, hmark, byteBits_append, byteBits_zeros, byteBits_lengthBytes, length_byteBits,
    hzeros, ← List.replicate_append_replicate, List.append_assoc]

/-! ## Words of octets -/

/-- The number of four octets. -/
def wordOf (b₀ b₁ b₂ b₃ : UInt8) : Word :=
  BitVec.ofNat 32 (((b₀.toNat * 2 ^ 8 + b₁.toNat) * 2 ^ 8 + b₂.toNat) * 2 ^ 8 + b₃.toNat)

/-- The words of a block are read from its octets. -/
theorem word_byteBits (b₀ b₁ b₂ b₃ : UInt8) (s : List UInt8) :
    BitVec.ofNat 32 (ofBits ((byteBits (b₀ :: b₁ :: b₂ :: b₃ :: s)).take 32)) = wordOf b₀ b₁ b₂ b₃ := by
  -- 32 bits are four octets, and joining strings of bits shifts the number of the first
  have hfour : (byteBits (b₀ :: b₁ :: b₂ :: b₃ :: s)).take 32 =
      bits 8 b₀.toNat ++ bits 8 b₁.toNat ++ bits 8 b₂.toNat ++ bits 8 b₃.toNat := by
    have hsplit : byteBits (b₀ :: b₁ :: b₂ :: b₃ :: s) = byteBits [b₀, b₁, b₂, b₃] ++ byteBits s :=
      byteBits_append [b₀, b₁, b₂, b₃] s
    have hlength : (byteBits [b₀, b₁, b₂, b₃]).length = 32 := length_byteBits _
    rw [hsplit, List.take_left' hlength]
    simp [byteBits]
  have hoctet (b : UInt8) : ofBits (bits 8 b.toNat) = b.toNat := by
    rw [ofBits_bits, Nat.mod_eq_of_lt b.toNat_lt]
  rw [hfour, ofBits_append, ofBits_append, ofBits_append, length_bits, hoctet, hoctet, hoctet, hoctet, wordOf,
    length_bits, length_bits]

end Sha256
