import CanonicalPath.Library.Encoding

/-!
# Transcode — reading UTF-16

A runtime that hashes a string of 16-bit units turns it into UTF-8 first.

* `utf16Decode` : the scalar values of a string, with the replacement character for a lone surrogate
* `transcode` : its UTF-8 bytes
* `hexByte` : how a digest is written
-/

namespace CodeUnit

/-! ## Surrogates -/

def isHighSurrogate (a : UInt16) : Bool :=
  decide (0xD800 ≤ a.toNat) && decide (a.toNat < 0xDC00)

def isLowSurrogate (a : UInt16) : Bool :=
  decide (0xDC00 ≤ a.toNat) && decide (a.toNat < 0xE000)

/-- The scalar value of a unit that has no partner. -/
def decodeUnit (a : UInt16) : Char :=
  if isHighSurrogate a || isLowSurrogate a then '\uFFFD' else Char.ofNat a.toNat

/-- The scalar value of a surrogate pair. -/
def decodePair (a b : UInt16) : Char :=
  Char.ofNat (0x10000 + (a.toNat - 0xD800) * 0x400 + (b.toNat - 0xDC00))

def utf16Decode : List UInt16 → List Char
  | [] => []
  | [a] => [decodeUnit a]
  | a :: b :: s =>
      if isHighSurrogate a && isLowSurrogate b then
        decodePair a b :: utf16Decode s
      else
        decodeUnit a :: utf16Decode (b :: s)

/-- The UTF-8 bytes of a string of units. -/
def transcode (s : List UInt16) : List UInt8 :=
  utf8.encode (utf16Decode s)

/-! ## Decoding what was encoded -/

theorem utf16Decode_unit_cons {a : UInt16} (h : isHighSurrogate a = false) (s : List UInt16) :
    utf16Decode (a :: s) = decodeUnit a :: utf16Decode s := by
  cases s with
  | nil =>
      rfl
  | cons b s =>
      rw [utf16Decode, h, Bool.false_and, if_neg Bool.false_ne_true]

/-- A scalar value is one unit that is no surrogate, or a surrogate pair. -/
theorem utf16_enc_cases (c : Char) :
    (∃ a, utf16.enc c = [a] ∧ isHighSurrogate a = false ∧ isLowSurrogate a = false ∧ Char.ofNat a.toNat = c) ∨
      ∃ a b, utf16.enc c = [a, b] ∧ isHighSurrogate a = true ∧ isLowSurrogate b = true ∧ decodePair a b = c := by
  have hvalid : c.toNat < 0xd800 ∨ 0xdfff < c.toNat ∧ c.toNat < 0x110000 := c.valid
  have henc : utf16.enc c = utf16EncodeChar c := rfl
  rw [henc, utf16EncodeChar]
  split_ifs with hbmp
  · have hunit : (UInt16.ofNat c.toNat).toNat = c.toNat := code_uint16_ofNat hbmp
    refine .inl ⟨_, rfl, ?_, ?_, ?_⟩
    · rw [isHighSurrogate, hunit, Bool.and_eq_false_iff, decide_eq_false_iff_not, decide_eq_false_iff_not]
      omega
    · rw [isLowSurrogate, hunit, Bool.and_eq_false_iff, decide_eq_false_iff_not, decide_eq_false_iff_not]
      omega
    · rw [hunit, Char.ofNat_toNat]
  · -- beyond the basic plane
    have hfirst : (UInt16.ofNat (0xD800 + (c.toNat - 0x10000) / 0x400)).toNat = 0xD800 + (c.toNat - 0x10000) / 0x400 :=
      code_uint16_ofNat (by omega)
    have hsecond : (UInt16.ofNat (0xDC00 + (c.toNat - 0x10000) % 0x400)).toNat = 0xDC00 + (c.toNat - 0x10000) % 0x400 :=
      code_uint16_ofNat (by omega)
    have hvalue : 0x10000 + (0xD800 + (c.toNat - 0x10000) / 0x400 - 0xD800) * 0x400 +
        (0xDC00 + (c.toNat - 0x10000) % 0x400 - 0xDC00) = c.toNat := by
      omega
    refine .inr ⟨_, _, rfl, ?_, ?_, ?_⟩
    · rw [isHighSurrogate, hfirst, Bool.and_eq_true, decide_eq_true_eq, decide_eq_true_eq]
      omega
    · rw [isLowSurrogate, hsecond, Bool.and_eq_true, decide_eq_true_eq, decide_eq_true_eq]
      omega
    · rw [decodePair, hfirst, hsecond, hvalue, Char.ofNat_toNat]

theorem utf16Decode_enc_append (c : Char) (s : List UInt16) :
    utf16Decode (utf16.enc c ++ s) = c :: utf16Decode s := by
  rcases utf16_enc_cases c with ⟨a, henc, hhigh, hlow, hvalue⟩ | ⟨a, b, henc, hhigh, hlow, hvalue⟩
  · rw [henc, List.singleton_append, utf16Decode_unit_cons hhigh, decodeUnit, hhigh, hlow, Bool.false_or,
      if_neg Bool.false_ne_true, hvalue]
  · -- both halves of a pair are read together
    rw [henc, List.cons_append, List.singleton_append, utf16Decode, hhigh, hlow, Bool.and_true, if_pos rfl, hvalue]

theorem utf16Decode_encode (text : List Char) : utf16Decode (utf16.encode text) = text := by
  induction text with
  | nil =>
      rfl
  | cons c text ih =>
      rw [Encoding.encode_cons, utf16Decode_enc_append, ih]

/-- Transcoding turns one spelling of a text into the other. -/
theorem transcode_encode (text : List Char) : transcode (utf16.encode text) = utf8.encode text := by
  rw [transcode, utf16Decode_encode]

/-! ## Digests -/

/-- The two digits of an octet. -/
def hexByte {α : Type} [CodeUnit α] (b : UInt8) : List α :=
  [ofCode (hexDigit (b.toNat / 16)), ofCode (hexDigit (b.toNat % 16))]
where
  /-- The lower-case digit of a value. -/
  hexDigit (n : Nat) : Nat :=
    if n < 10 then '0'.toNat + n else 'a'.toNat + (n - 10)

theorem hexDigit_lt {n : Nat} (h : n < 16) : hexByte.hexDigit n < 128 := by
  rw [hexByte.hexDigit]
  split_ifs
  · exact Nat.lt_of_lt_of_le (Nat.add_lt_add_left h _) (by decide)
  · have hrest : n - 10 < 16 := Nat.lt_of_le_of_lt (Nat.sub_le n 10) h
    exact Nat.lt_of_lt_of_le (Nat.add_lt_add_left hrest _) (by decide)

theorem hexDigit_injective {m n : Nat} (hm : m < 16) (hn : n < 16) (h : hexByte.hexDigit m = hexByte.hexDigit n) :
    m = n := by
  have hall : ∀ m < 16, ∀ n < 16, hexByte.hexDigit m = hexByte.hexDigit n → m = n := by decide
  exact hall m hm n hn h

theorem high_lt (b : UInt8) : b.toNat / 16 < 16 :=
  Nat.div_lt_of_lt_mul b.toNat_lt

theorem low_lt (b : UInt8) : b.toNat % 16 < 16 :=
  Nat.mod_lt _ (by decide)

/-- The digits of an octet are letters or digits of ASCII. -/
theorem forall_mem_hexByte {α : Type} [CodeUnit α] {P : Nat → Prop} (h : ∀ n < 16, P (hexByte.hexDigit n)) (b : UInt8) :
    ∀ a ∈ (hexByte b : List α), P (code a) := by
  rw [hexByte, List.forall_mem_cons, List.forall_mem_singleton]
  have hcode {n : Nat} (hn : n < 16) : P (code (ofCode (hexByte.hexDigit n) : α)) := by
    rw [code_ofCode _ (hexDigit_lt hn)]
    exact h n hn
  exact ⟨hcode (high_lt b), hcode (low_lt b)⟩

theorem length_flatMap_hexByte {α : Type} [CodeUnit α] (octets : List UInt8) :
    (octets.flatMap hexByte : List α).length = 2 * octets.length := by
  induction octets with
  | nil =>
      rfl
  | cons b octets ih =>
      have htwo : (hexByte b : List α).length = 2 := rfl
      rw [List.flatMap_cons, List.length_append, ih, htwo, List.length_cons]
      omega

/-- The digits determine the octets. -/
theorem flatMap_hexByte_injective {α : Type} [CodeUnit α] {octets octets' : List UInt8}
    (h : (octets.flatMap hexByte : List α) = octets'.flatMap hexByte) : octets = octets' := by
  have hdigit {m n : Nat} (hm : m < 16) (hn : n < 16)
      (heq : (ofCode (hexByte.hexDigit m) : α) = ofCode (hexByte.hexDigit n)) : m = n := by
    have hcode := congrArg code heq
    rw [code_ofCode _ (hexDigit_lt hm), code_ofCode _ (hexDigit_lt hn)] at hcode
    exact hexDigit_injective hm hn hcode
  induction octets generalizing octets' with
  | nil =>
      cases octets' with
      | nil =>
          rfl
      | cons b octets' =>
          cases h
  | cons b octets ih =>
      cases octets' with
      | nil =>
          cases h
      | cons b' octets' =>
          obtain ⟨hhigh, hrest⟩ := List.cons.inj h
          obtain ⟨hlow, hrest⟩ := List.cons.inj hrest
          have hhigh := hdigit (high_lt b) (high_lt b') hhigh
          have hlow := hdigit (low_lt b) (low_lt b') hlow
          have hvalue : b = b' := by
            apply UInt8.toNat_inj.1
            omega
          rw [hvalue, ih hrest]

theorem encode_flatMap_hexByte {α β : Type} [CodeUnit α] [CodeUnit β] (e : Encoding α β) (octets : List UInt8) :
    e.encode (octets.flatMap hexByte) = octets.flatMap hexByte := by
  have hdigit {n : Nat} (hn : n < 16) : e.enc (ofCode (hexByte.hexDigit n)) = [ofCode (hexByte.hexDigit n)] := by
    rw [e.enc_ascii _ (by rw [code_ofCode _ (hexDigit_lt hn)]; exact hexDigit_lt hn), code_ofCode _ (hexDigit_lt hn)]
  induction octets with
  | nil =>
      rfl
  | cons b octets ih =>
      have hbyte : e.encode (hexByte b) = hexByte b := by
        rw [hexByte, Encoding.encode_cons, Encoding.encode_cons, hdigit (high_lt b), hdigit (low_lt b)]
        rfl
      rw [List.flatMap_cons, List.flatMap_cons, Encoding.encode_append, hbyte, ih]

end CodeUnit
