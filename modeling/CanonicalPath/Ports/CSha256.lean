import CanonicalPath.C.Sha256
import CanonicalPath.Library.Sha256
import CanonicalPath.Ports.CGrammar

/-!
# C SHA-256 — the hand-written digest is the standard's

The buffer that `cp_sha256_hex` builds is the padded message, its loops over a chunk are the schedule and the rounds of
the standard, and what it prints is the digest.  Every access is inside its object.

* `paddedData_eq` : the buffer
* `sha256Chunk_eq`, `sha256Chunks_eq` : one chunk, and all of them
* `sha256Hex_eq` : the text of the digest
-/

namespace CanonicalPath

namespace Ports

namespace C

open CodeUnit CString

/-! ## The buffer -/

theorem dataLenLoop_eq (fuel : Nat) {n : Nat} (hfuel : (120 - n % 64) % 64 < fuel)
    (hn : n + (120 - n % 64) % 64 < 2 ^ 64) : C.dataLenLoop fuel n = some (n + (120 - n % 64) % 64) := by
  induction fuel generalizing n with
  | zero =>
      exact absurd hfuel (Nat.not_lt_zero _)
  | succ fuel ih =>
      rw [C.dataLenLoop]
      split_ifs with hturn
      · have hnext : C.sizeT (n + 1) = n + 1 := Nat.mod_eq_of_lt (by omega)
        rw [hnext, ih (by omega) (by omega)]
        congr 1
        omega
      · congr 1
        omega

/-- A cell behind elements is written. -/
theorem store_behind {α : Type} {s : List α} {cell : Option α} {rest : Memory α} {i : Nat} (hi : i = s.length) (c : α) :
    store (s.map some ++ cell :: rest) i c = some ((s ++ [c]).map some ++ rest) := by
  subst hi
  rw [store, if_pos (by simp), List.set_append_right _ _ (by simp)]
  simp

theorem memcpy_calloc {s : Bytes} {n : Nat} (h : s.length ≤ n) :
    memcpy (List.replicate n (some 0)) 0 (s.map some) s.length =
      some (s.map some ++ List.replicate (n - s.length) (some 0)) := by
  have htake : (s.map some).take s.length = s.map some := List.take_of_length_le (by rw [List.length_map])
  rw [memcpy, if_pos ⟨by simpa using h, by simp⟩, htake, List.take_zero, List.nil_append, List.drop_replicate,
    Nat.zero_add]

/-- The octet of the length at a shift. -/
theorem lengthByte_eq {l : Nat} (h : l < 2 ^ 61) (shift : Nat) :
    UInt8.ofBitVec (((BitVec.ofNat 64 l * 8) >>> shift &&& 0xff).setWidth 8) = UInt8.ofNat (8 * l / 2 ^ shift) := by
  have hbits : (BitVec.ofNat 64 l * 8).toNat = 8 * l := by
    rw [BitVec.toNat_mul, BitVec.toNat_ofNat]
    -- below 2 ^ 61 the number of bits does not wrap
    change l % 2 ^ 64 * 8 % 2 ^ 64 = 8 * l
    omega
  apply UInt8.toNat_inj.1
  rw [UInt8.toNat_ofNat', UInt8.toNat_ofBitVec, BitVec.toNat_setWidth, BitVec.toNat_and, BitVec.toNat_ushiftRight,
    hbits, Nat.shiftRight_eq_div_pow]
  change (8 * l / 2 ^ shift &&& (2 ^ 8 - 1)) % 2 ^ 8 = 8 * l / 2 ^ shift % 2 ^ 8
  rw [Nat.and_two_pow_sub_one_eq_mod, Nat.mod_mod]

/-- The values of `shift` from `8 * (n - 1)` down. -/
def shifts (n : Nat) : List Nat :=
  (List.range n).reverse.map (8 * ·)

theorem shifts_succ (n : Nat) : shifts (n + 1) = 8 * n :: shifts n := by
  rw [shifts, shifts, List.range_succ, List.reverse_append]
  rfl

theorem storeLength_eq {l dataLen : Nat} (hl : l < 2 ^ 61) (hlen : dataLen < 2 ^ 64) {n : Nat} (hn : n ≤ 8) {s : Bytes}
    (hs : s.length + n = dataLen) :
    C.storeLength dataLen (BitVec.ofNat 64 l * 8) (shifts n) (s.map some ++ List.replicate n (some 0)) =
      some ((s ++ (shifts n).map fun shift => UInt8.ofNat (8 * l / 2 ^ shift)).map some) := by
  induction n generalizing s with
  | zero =>
      have hnone : shifts 0 = [] := rfl
      rw [hnone, C.storeLength]
      simp
  | succ n ih =>
      -- the wrapped sum is the first cell that is not written
      have hplace : C.sizeT (dataLen + 2 ^ 64 - 8 + (56 - 8 * n) / 8) = s.length := by
        rw [C.sizeT]
        omega
      have hstep : (s ++ [UInt8.ofNat (8 * l / 2 ^ (8 * n))]).length + n = dataLen := by
        rw [List.length_append, List.length_singleton]
        omega
      rw [shifts_succ, C.storeLength, lengthByte_eq hl, hplace, List.replicate_succ, store_behind rfl, some_bind,
        ih (by omega) hstep, List.append_assoc]
      rfl

/-- The buffer is the padded message. -/
theorem paddedData_eq {message : Bytes} (h : message.length < 2 ^ 61) :
    C.paddedData (message.map some) message.length =
      some ((Sha256.padBytes message).map some, (Sha256.padBytes message).length) := by
  have hzeros : Sha256.zeroBytes message.length < 64 := Nat.mod_lt _ (by decide)
  have hturns : (120 - (message.length + 1) % 64) % 64 = Sha256.zeroBytes message.length := by
    rw [Sha256.zeroBytes]
    omega
  have hstart : C.sizeT (message.length + 1) = message.length + 1 := Nat.mod_eq_of_lt (by omega)
  have hend : C.sizeT (message.length + 1 + Sha256.zeroBytes message.length + 8) =
      message.length + 1 + Sha256.zeroBytes message.length + 8 := Nat.mod_eq_of_lt (by omega)
  have hloop := dataLenLoop_eq 64 (n := message.length + 1) (by omega) (by omega)
  rw [hturns] at hloop
  -- the cells behind the message: the mark, the zeros that stay and the length
  have hroom : message.length + 1 + Sha256.zeroBytes message.length + 8 - message.length =
      (Sha256.zeroBytes message.length + 8) + 1 := by
    omega
  have hcells : List.replicate (Sha256.zeroBytes message.length + 8) (some (0 : UInt8)) =
      (List.replicate (Sha256.zeroBytes message.length) 0).map some ++ List.replicate 8 (some 0) := by
    rw [List.map_replicate, List.replicate_append_replicate]
  have hfront : (message ++ [0x80] ++ List.replicate (Sha256.zeroBytes message.length) 0).length + 8 =
      message.length + 1 + Sha256.zeroBytes message.length + 8 := by
    rw [List.length_append, List.length_append, List.length_singleton, List.length_replicate]
  have hlength := storeLength_eq h (by omega) (Nat.le_refl 8) hfront
  have hpadded : message ++ [0x80] ++ List.replicate (Sha256.zeroBytes message.length) 0 ++
      (shifts 8).map (fun shift => UInt8.ofNat (8 * message.length / 2 ^ shift)) = Sha256.padBytes message := by
    rw [Sha256.padBytes, List.append_assoc, List.append_assoc]
    rfl
  rw [hpadded] at hlength
  rw [C.paddedData, hstart, hloop, some_bind, hend]
  simp only
  rw [memcpy_calloc (by omega), some_bind, hroom, List.replicate_succ, store_behind rfl, some_bind, hcells,
    ← List.append_assoc, ← List.map_append]
  refine (congrArg (· >>= _) hlength).trans ?_
  rw [some_bind, Sha256.length_padBytes]
  rfl

/-! ## Words -/

theorem octets_eq (b₀ b₁ b₂ b₃ : UInt8) :
    b₀.toBitVec.setWidth 32 <<< 24 ||| b₁.toBitVec.setWidth 32 <<< 16 ||| b₂.toBitVec.setWidth 32 <<< 8 |||
      b₃.toBitVec.setWidth 32 = Sha256.wordOf b₀ b₁ b₂ b₃ := by
  have hshift (b : UInt8) {n : Nat} (hn : n ≤ 24) : (b.toBitVec.setWidth 32 <<< n).toNat = 2 ^ n * b.toNat := by
    have hb := b.toNat_lt
    have hpow : 2 ^ n ≤ 2 ^ 24 := Nat.pow_le_pow_right (by decide) hn
    have hlt : 2 ^ n * b.toNat < 2 ^ 32 := by
      calc
        2 ^ n * b.toNat
            ≤ 2 ^ 24 * b.toNat := Nat.mul_le_mul_right _ hpow
        _ < 2 ^ 24 * 2 ^ 8 := Nat.mul_lt_mul_of_pos_left hb (by decide)
        _ = 2 ^ 32 := by decide
    have hwide : (b.toBitVec.setWidth 32).toNat = b.toNat := by
      rw [BitVec.toNat_setWidth, UInt8.toNat_toBitVec]
      omega
    rw [BitVec.toNat_shiftLeft, hwide, Nat.shiftLeft_eq, Nat.mul_comm, Nat.mod_eq_of_lt hlt]
  have h₀ := b₀.toNat_lt
  have h₁ := b₁.toNat_lt
  have h₂ := b₂.toNat_lt
  have h₃ := b₃.toNat_lt
  have hlast : (b₃.toBitVec.setWidth 32).toNat = b₃.toNat := by
    rw [BitVec.toNat_setWidth, UInt8.toNat_toBitVec]
    omega
  apply BitVec.eq_of_toNat_eq
  rw [BitVec.toNat_or, BitVec.toNat_or, BitVec.toNat_or, hshift b₀ (Nat.le_refl 24), hshift b₁ (by decide),
    hshift b₂ (by decide), hlast, Sha256.wordOf, BitVec.toNat_ofNat]
  -- the octets lie side by side, so joining them is adding them
  have hfirst : 2 ^ 24 * b₀.toNat ||| 2 ^ 16 * b₁.toNat = 2 ^ 16 * (2 ^ 8 * b₀.toNat + b₁.toNat) := by
    rw [← Nat.two_pow_add_eq_or_of_lt (by omega)]
    omega
  have hsecond : 2 ^ 16 * (2 ^ 8 * b₀.toNat + b₁.toNat) ||| 2 ^ 8 * b₂.toNat =
      2 ^ 8 * ((2 ^ 8 * b₀.toNat + b₁.toNat) * 2 ^ 8 + b₂.toNat) := by
    rw [← Nat.two_pow_add_eq_or_of_lt (by omega)]
    omega
  rw [hfirst, hsecond, ← Nat.two_pow_add_eq_or_of_lt (by omega)]
  omega

/-- The word at a place of a string of octets. -/
def wordAt (s : Bytes) (j : Nat) : Sha256.Word :=
  BitVec.ofNat 32 (Sha256.ofBits ((Sha256.byteBits (s.drop j)).take 32))

theorem blockWords_eq (s : Bytes) (chunk : Nat) :
    Sha256.blockWords (Sha256.byteBits (s.drop chunk)) = (List.range 16).map fun t => wordAt s (chunk + t * 4) := by
  rw [Sha256.blockWords]
  refine List.map_congr_left fun t _ => ?_
  have hplace : 32 * t = 8 * (t * 4) := by
    omega
  rw [wordAt, hplace, Sha256.drop_byteBits, List.drop_drop]

theorem load_front {α : Type} [Zero α] {s : List α} {i : Nat} (h : i < s.length) (rest : Memory α) :
    load (s.map some ++ rest) i = some (s.getD i 0) := by
  rw [load, List.getElem?_append_left (by rwa [List.length_map]), List.getElem?_map, List.getElem?_eq_getElem h,
    List.getD_eq_getElem _ _ h]
  rfl

theorem loadWord_eq {s : Bytes} {j : Nat} (h : j + 4 ≤ s.length) (hs : s.length < 2 ^ 64) :
    C.loadWord (s.map some) j = some (wordAt s j) := by
  obtain ⟨b₀, b₁, b₂, b₃, rest, hrest⟩ : ∃ b₀ b₁ b₂ b₃ rest, s.drop j = b₀ :: b₁ :: b₂ :: b₃ :: rest := by
    have hlength : (s.drop j).length = s.length - j := List.length_drop
    match hdrop : s.drop j with
    | b₀ :: b₁ :: b₂ :: b₃ :: rest => exact ⟨b₀, b₁, b₂, b₃, rest, rfl⟩
    | [] | [_] | [_, _] | [_, _, _] =>
        rw [hdrop] at hlength
        simp only [List.length_cons, List.length_nil] at hlength
        omega
  have hplace {k : Nat} (hk : k ≤ 3) : C.sizeT (j + k) = j + k := Nat.mod_eq_of_lt (by omega)
  have hload (k : Nat) : load (s.map some) (j + k) = (b₀ :: b₁ :: b₂ :: b₃ :: rest)[k]? := by
    rw [load, List.getElem?_map, ← hrest, List.getElem?_drop]
    cases s[j + k]? with
    | none =>
        rfl
    | some b =>
        rfl
  have hzero := hload 0
  rw [Nat.add_zero] at hzero
  rw [C.loadWord, C.charAt, C.charAt, C.charAt, C.charAt, hplace (by decide), hplace (by decide), hplace (by decide),
    hzero, hload 1, hload 2, hload 3, wordAt, hrest, Sha256.word_byteBits, ← octets_eq]
  rfl

/-- The first sixteen words are the words of the block. -/
theorem loadWords_eq {s : Bytes} {chunk : Nat} (hs : s.length < 2 ^ 64) (hchunk : chunk + 64 ≤ s.length) (left : Nat)
    {words : List (BitVec 32)} (hleft : words.length + left = 16) :
    C.loadWords (s.map some) chunk left words.length (words.map some ++ List.replicate (64 - words.length) (some 0)) =
      some ((words ++ (List.range' words.length left).map fun t => wordAt s (chunk + t * 4)).map some ++
        List.replicate 48 (some 0)) := by
  induction left generalizing words with
  | zero =>
      have hlength : words.length = 16 := hleft
      rw [hlength]
      simp [C.loadWords]
  | succ left ih =>
      have hplace : C.sizeT (chunk + words.length * 4) = chunk + words.length * 4 := Nat.mod_eq_of_lt (by omega)
      have hroom : 64 - words.length = (64 - (words.length + 1)) + 1 := by
        omega
      have hlater : (words ++ [wordAt s (chunk + words.length * 4)]).length + left = 16 := by
        rw [List.length_append, List.length_singleton]
        omega
      have hnext := ih hlater
      rw [List.length_append, List.length_singleton] at hnext
      rw [C.loadWords, hplace, loadWord_eq (by omega) hs, some_bind, hroom, List.replicate_succ, store_behind rfl,
        some_bind, hnext, List.range'_succ, List.map_cons, List.append_assoc]
      rfl

/-! ## The schedule -/

theorem rotr_eq {n : Nat} (h : n < 32) (x : BitVec 32) : C.rotr x n = x.rotateRight n := by
  rw [C.rotr, BitVec.rotateRight_def, Nat.mod_eq_of_lt h]

theorem smallSigma0_eq (x : BitVec 32) : C.rotr x 7 ^^^ C.rotr x 18 ^^^ x >>> 3 = Sha256.smallSigma0 x := by
  rw [rotr_eq (by decide), rotr_eq (by decide), Sha256.smallSigma0]

theorem smallSigma1_eq (x : BitVec 32) : C.rotr x 17 ^^^ C.rotr x 19 ^^^ x >>> 10 = Sha256.smallSigma1 x := by
  rw [rotr_eq (by decide), rotr_eq (by decide), Sha256.smallSigma1]

/-- The second loop continues the schedule. -/
theorem extendWords_eq {block : List Sha256.Word} (hblock : block.length = 16) (left : Nat) {n : Nat}
    (hleft : n + left = 48) :
    C.extendWords left (n + 16) ((Sha256.schedule block n).map some ++ List.replicate left (some 0)) =
      some ((Sha256.schedule block 48).map some) := by
  induction left generalizing n with
  | zero =>
      have hn : n = 48 := hleft
      rw [hn, C.extendWords, List.replicate_zero, List.append_nil]
  | succ left ih =>
      have hlength : (Sha256.schedule block n).length = n + 16 := by
        rw [Sha256.length_schedule, hblock, Nat.add_comm]
      -- the words that are read are all written already
      have hload {i k : Nat} (hk : n + 16 - i = k) (hi : k < n + 16) :
          load ((Sha256.schedule block n).map some ++ List.replicate (left + 1) (some 0)) (n + 16 - i) =
            some ((Sha256.schedule block n).getD k 0) := by
        rw [hk]
        exact load_front (by rwa [hlength]) _
      have hnext := ih (n := n + 1) (by omega)
      rw [Nat.add_right_comm] at hnext
      rw [C.extendWords, hload (k := n + 1) (by omega) (by omega), some_bind, hload (k := n + 14) (by omega) (by omega),
        some_bind, hload (k := n) (by omega) (by omega), some_bind, hload (k := n + 9) (by omega) (by omega), some_bind,
        List.replicate_succ, store_behind hlength.symm, some_bind, smallSigma0_eq, smallSigma1_eq]
      -- the summands of the source stand in another order
      have hword (w₁₆ s₀ w₇ s₁ : BitVec 32) : w₁₆ + s₀ + w₇ + s₁ = s₁ + w₇ + s₀ + w₁₆ := by
        ac_rfl
      rw [hword]
      exact hnext

/-! ## The rounds -/

/-- The working variables of a state. -/
def workingOf (s : Sha256.State) : C.Working where
  a := s.a
  b := s.b
  c := s.c
  d := s.d
  e := s.e
  f := s.f
  g := s.g
  hh := s.h

theorem roundStep_eq (s : Sha256.State) (k w : BitVec 32) :
    C.roundStep (workingOf s) k w = workingOf (Sha256.round s k w) := by
  rw [C.roundStep]
  simp only [workingOf, rotr_eq (n := 6) (by decide), rotr_eq (n := 11) (by decide), rotr_eq (n := 25) (by decide),
    rotr_eq (n := 2) (by decide), rotr_eq (n := 13) (by decide), rotr_eq (n := 22) (by decide)]
  rfl

theorem sha256K_eq : C.sha256K = Sha256.constants.map some :=
  rfl

theorem roundLoop_eq {w : List Sha256.Word} (hw : w.length = 64) (left : Nat) {i : Nat} (hleft : i + left = 64)
    (s : Sha256.State) : C.roundLoop (w.map some) left i (workingOf s) =
      some (workingOf (Sha256.rounds s (Sha256.constants.drop i) (w.drop i))) := by
  have hk : Sha256.constants.length = 64 := rfl
  induction left generalizing i s with
  | zero =>
      rw [List.drop_of_length_le (by omega), C.roundLoop, Sha256.rounds]
      rintro k ks word words hnil -
      cases hnil
  | succ left ih =>
      have hload {words : List Sha256.Word} (hwords : words.length = 64) :
          load (words.map some) i = some (words.getD i 0) := by
        have hfront := load_front (s := words) (i := i) (by omega) []
        rwa [List.append_nil] at hfront
      have hdrop {words : List Sha256.Word} (hwords : words.length = 64) :
          words.drop i = words.getD i 0 :: words.drop (i + 1) := by
        rw [List.drop_eq_getElem_cons (by omega), List.getD_eq_getElem _ _ (by omega)]
      rw [C.roundLoop, sha256K_eq, hload hk, some_bind, hload hw, some_bind, roundStep_eq, ih (by omega), hdrop hk,
        hdrop hw, Sha256.rounds]

/-! ## The chunks -/

theorem load_words (s : Sha256.State) :
    load (s.words.map some) 0 = some s.a ∧ load (s.words.map some) 1 = some s.b ∧
      load (s.words.map some) 2 = some s.c ∧ load (s.words.map some) 3 = some s.d ∧
      load (s.words.map some) 4 = some s.e ∧ load (s.words.map some) 5 = some s.f ∧
      load (s.words.map some) 6 = some s.g ∧ load (s.words.map some) 7 = some s.h :=
  ⟨rfl, rfl, rfl, rfl, rfl, rfl, rfl, rfl⟩

theorem sha256Chunk_eq {data : Bytes} {chunk : Nat} (hdata : data.length < 2 ^ 64) (hchunk : chunk + 64 ≤ data.length)
    (s : Sha256.State) : C.sha256Chunk (data.map some) chunk (s.words.map some) =
      some ((Sha256.compress s (Sha256.blockWords (Sha256.byteBits (data.drop chunk)))).words.map some) := by
  have hstart : ([] : List (BitVec 32)).length + 16 = 16 := rfl
  have hload := loadWords_eq hdata hchunk 16 hstart
  have hblock : (List.range' 0 16).map (fun t => wordAt data (chunk + t * 4)) =
      Sha256.blockWords (Sha256.byteBits (data.drop chunk)) := by
    rw [blockWords_eq, List.range_eq_range']
  rw [List.nil_append, List.length_nil, hblock] at hload
  have hlength : (Sha256.blockWords (Sha256.byteBits (data.drop chunk))).length = 16 := by
    rw [Sha256.blockWords, List.length_map, List.length_range]
  -- load, extend, sixty-four rounds, add: each step is a lemma above
  generalize Sha256.blockWords (Sha256.byteBits (data.drop chunk)) = block at *
  have hextend := extendWords_eq hlength 48 (n := 0) rfl
  have hrounds := roundLoop_eq (w := Sha256.schedule block 48) (by rw [Sha256.length_schedule, hlength]) 64 (i := 0) rfl s
  rw [List.drop_zero, List.drop_zero] at hrounds
  rw [Sha256.compress]
  generalize Sha256.rounds s Sha256.constants (Sha256.schedule block 48) = t at *
  rw [C.sha256Chunk]
  refine (congrArg (· >>= _) hload).trans ?_
  rw [some_bind]
  refine (congrArg (· >>= _) hextend).trans ?_
  rw [some_bind]
  obtain ⟨h₀, h₁, h₂, h₃, h₄, h₅, h₆, h₇⟩ := load_words s
  rw [h₀, h₁, h₂, h₃, h₄, h₅, h₆, h₇]
  simp only [some_bind]
  refine (congrArg (· >>= _) hrounds).trans ?_
  rfl

/-- A chunk for every block. -/
theorem sha256Chunks_eq {data : Bytes} (hdata : data.length < 2 ^ 63) (left : Nat) {chunk : Nat}
    (hleft : chunk + 64 * left = data.length) (s : Sha256.State) :
    C.sha256Chunks (data.map some) left chunk (s.words.map some) =
      some ((Sha256.hashBlocks left s (Sha256.byteBits (data.drop chunk))).words.map some) := by
  induction left generalizing chunk s with
  | zero =>
      rfl
  | succ left ih =>
      have hnext : C.sizeT (chunk + 64) = chunk + 64 := Nat.mod_eq_of_lt (by omega)
      -- a chunk of 64 bytes is a block of 512 bits
      have hrest : (Sha256.byteBits (data.drop chunk)).drop 512 = Sha256.byteBits (data.drop (chunk + 64)) := by
        rw [show 512 = 8 * 64 from rfl, Sha256.drop_byteBits, List.drop_drop]
      rw [C.sha256Chunks, sha256Chunk_eq (by omega) (by omega), some_bind, hnext, ih (by omega), Sha256.hashBlocks, hrest]

/-! ## The text -/

theorem hexDigits_eq (width n : Nat) :
    C.hexDigits (width + 2) n = C.hexDigits width (n / 256) ++ hexByte (UInt8.ofNat n) := by
  have hbyte : (UInt8.ofNat n).toNat = n % 256 := UInt8.toNat_ofNat'
  have hhigh : n / 16 % 16 = n % 256 / 16 := by
    omega
  have hlow : n % 16 = n % 256 % 16 := by
    omega
  rw [C.hexDigits, C.hexDigits, Nat.div_div_eq_div_mul, List.append_assoc, hexByte, hbyte, hhigh, hlow]
  rfl

theorem hex8_eq (w : BitVec 32) : C.hex8 w = (Sha256.wordBytes w).flatMap hexByte := by
  have hcut (n : Nat) : C.hexDigits 8 n = hexByte (UInt8.ofNat (n / 2 ^ 24)) ++ (hexByte (UInt8.ofNat (n / 2 ^ 16)) ++
      (hexByte (UInt8.ofNat (n / 2 ^ 8)) ++ hexByte (UInt8.ofNat n))) := by
    rw [hexDigits_eq, hexDigits_eq, hexDigits_eq, hexDigits_eq, C.hexDigits, Nat.div_div_eq_div_mul (n / 256),
      Nat.div_div_eq_div_mul n, Nat.div_div_eq_div_mul n, List.nil_append, List.append_assoc, List.append_assoc]
    rfl
  rw [C.hex8, hcut]
  simp [Sha256.wordBytes]

theorem snprintf_eq {text : Bytes} {n : Nat} (h : n = text.length + 1) :
    C.snprintf (malloc n) n text = some (literal text) := by
  have hholds : Holds (text.map some) text := ⟨[], (List.append_nil _).symm⟩
  have hwritten : min text.length (n - 1) = text.length := by
    omega
  rw [C.snprintf]
  simp only [hwritten]
  rw [memcpy_front hholds (by omega), some_bind, store_last rfl h]

/-- Every octet string shorter than `2 ^ 61`: the buffer is the message, the mark, the least number of zeros that fills
the last chunk and the length, and the text is the lower-case digest of the standard. -/
theorem sha256Hex_eq {message : Bytes} (h : message.length < 2 ^ 61) :
    (∃ k, IsLeast {k | 64 ∣ message.length + 1 + k + 8} k ∧
      C.paddedData (message.map some) message.length =
        some ((message ++ 0x80 :: (List.replicate k 0 ++ Sha256.lengthBytes message.length)).map some,
          message.length + 1 + k + 8)) ∧
      C.sha256Hex (message.map some) message.length =
        some (literal ((Sha256.digest message).toList.flatMap hexByte)) := by
  have hleast := Sha256.isLeast_zeroBytes message.length
  have hpadded := paddedData_eq h
  have hlength := Sha256.length_padBytes message
  have hfull : 64 ∣ (Sha256.padBytes message).length := by
    rw [hlength]
    exact hleast.1
  have hsmall : Sha256.zeroBytes message.length < 64 := Nat.mod_lt _ (by decide)
  refine ⟨⟨Sha256.zeroBytes message.length, hleast, ?_⟩, ?_⟩
  · rw [hpadded, hlength, Sha256.padBytes]
  · -- one turn for each chunk, and one chunk for each block
    have hturns : 0 + 64 * (((Sha256.padBytes message).length + 63) / 64) = (Sha256.padBytes message).length := by
      omega
    have hblocks : (Sha256.pad (Sha256.byteBits message)).length / 512 =
        ((Sha256.padBytes message).length + 63) / 64 := by
      rw [← Sha256.byteBits_padBytes, Sha256.length_byteBits]
      omega
    have hchunks := sha256Chunks_eq (by omega) _ hturns Sha256.initial
    have hhash : Sha256.hashBlocks (((Sha256.padBytes message).length + 63) / 64) Sha256.initial
        (Sha256.byteBits ((Sha256.padBytes message).drop 0)) = Sha256.hash (Sha256.byteBits message) := by
      rw [List.drop_zero, Sha256.byteBits_padBytes, Sha256.hash, hblocks]
    rw [hhash] at hchunks
    have hdigest : (Sha256.digest message).toList = (Sha256.hash (Sha256.byteBits message)).words.flatMap Sha256.wordBytes :=
      rfl
    have hinitial : ([0x6a09e667, 0xbb67ae85, 0x3c6ef372, 0xa54ff53a, 0x510e527f, 0x9b05688c, 0x1f83d9ab,
        0x5be0cd19].map some : C.Words) = Sha256.initial.words.map some := rfl
    rw [hdigest, C.sha256Hex, hpadded, some_bind]
    simp only
    rw [hinitial, hchunks, some_bind]
    generalize Sha256.hash (Sha256.byteBits message) = s at *
    obtain ⟨h₀, h₁, h₂, h₃, h₄, h₅, h₆, h₇⟩ := load_words s
    rw [h₀, h₁, h₂, h₃, h₄, h₅, h₆, h₇]
    have htext : C.hex8 s.a ++ C.hex8 s.b ++ C.hex8 s.c ++ C.hex8 s.d ++ C.hex8 s.e ++ C.hex8 s.f ++ C.hex8 s.g ++
        C.hex8 s.h = (s.words.flatMap Sha256.wordBytes).flatMap hexByte := by
      simp only [hex8_eq, Sha256.State.words, List.flatMap_cons, List.flatMap_nil, List.flatMap_append,
        List.append_assoc, List.append_nil]
    have hsize : 65 = ((s.words.flatMap Sha256.wordBytes).flatMap hexByte : Bytes).length + 1 := rfl
    simp only [some_bind]
    rw [htext]
    exact snprintf_eq hsize

/-- Three octets, in one chunk. -/
theorem sha256Hex_abc : C.sha256Hex ((lit "abc" : Bytes).map some) 3 =
    some (literal (lit "ba7816bf8f01cfea414140de5dae2223b00361a396177a9cb410ff61f20015ad")) := by
  have hdigest : (lit "ba7816bf8f01cfea414140de5dae2223b00361a396177a9cb410ff61f20015ad" : Bytes) =
      (Sha256.digest (lit "abc")).toList.flatMap hexByte := by
    decide +kernel
  have hlength : (lit "abc" : Bytes).length < 2 ^ 61 := by
    decide
  rw [hdigest]
  exact (sha256Hex_eq hlength).2

end C

end Ports

end CanonicalPath
