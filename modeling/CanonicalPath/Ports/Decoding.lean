import CanonicalPath.Go.URI
import CanonicalPath.Library.Percent
import CanonicalPath.TS.Uri

/-!
# Ports decoding — percent decoding in two ports

The Go port reads escapes into bytes and then asks whether the bytes are UTF-8; the TypeScript port
reads the escaped octets as UTF-8 sequences, one at a time.  Both readings go through the pieces of
the text, and both succeed exactly where the octets spell a text, which they then return.
-/

namespace CanonicalPath

namespace Ports

open CodeUnit

/-! ## Escapes -/

theorem fromHex_eq (b : UInt8) : Go.fromHex b = (hexValue (code b)).map UInt8.ofNat := by
  have hall : ∀ n, n < 256 →
      Go.fromHex (UInt8.ofNat n) = (hexValue (code (UInt8.ofNat n))).map UInt8.ofNat := by
    decide +kernel
  have hb := hall b.toNat (UInt8.toNat_lt b)
  rwa [UInt8.ofNat_toNat] at hb

theorem fromHexPair_eq (hi lo : UInt8) : Go.fromHexPair hi lo =
    (hexValue (code hi)).bind fun v => (hexValue (code lo)).map fun w => UInt8.ofNat (16 * v + w) := by
  have hjoin : ∀ v, v < 16 → ∀ w, w < 16 →
      UInt8.ofNat v <<< 4 ||| UInt8.ofNat w = UInt8.ofNat (16 * v + w) := by
    decide +kernel
  rw [Go.fromHexPair, fromHex_eq, fromHex_eq]
  cases hhi : hexValue (code hi) with
  | none =>
      rfl
  | some v =>
      cases hlo : hexValue (code lo) with
      | none =>
          rfl
      | some w =>
          simp [hjoin v (hexValue_lt hhi) w (hexValue_lt hlo)]

/-- The byte a piece stands for. -/
def pieceByte : Piece UInt8 → UInt8
  | .unit b => b
  | .octet n => UInt8.ofNat n

theorem pathUnescape_eq (value : Bytes) :
    Go.pathUnescape value = (pieces value).map (·.map pieceByte) := by
  fun_induction Go.pathUnescape value with
  | case1 => rfl
  | case2 => rfl
  | case3 a h => simp [pieces, h, pieceByte]
  | case4 => simp_all [pieces]
  | case5 a b h => simp [pieces, h, pieceByte]
  | case6 hi lo value b hpair ih =>
      rw [fromHexPair_eq] at hpair
      rcases Option.bind_eq_some_iff.1 hpair with ⟨v, hv, hpair⟩
      rcases Option.map_eq_some_iff.1 hpair with ⟨w, hw, rfl⟩
      rw [ih, pieces, if_pos rfl, hv, hw, Option.map_map, Option.map_map]
      rfl
  | case7 hi lo value hpair =>
      rw [fromHexPair_eq] at hpair
      rw [pieces, if_pos rfl]
      cases hv : hexValue (code hi) with
      | none =>
          rfl
      | some v =>
          cases hw : hexValue (code lo) with
          | none =>
              rfl
          | some w =>
              simp [hv, hw] at hpair
  | case8 a hi lo value ha ih =>
      rw [ih, pieces, if_neg ha, Option.map_map, Option.map_map]
      rfl

theorem hexDigit_eq (a : UInt16) : TS.hexDigit a = hexValue (code a) := rfl

theorem hexOctet_eq (hi lo : UInt16) : TS.hexOctet hi lo =
    (hexValue (code hi)).bind fun v => (hexValue (code lo)).map fun w => 16 * v + w := by
  rw [TS.hexOctet, hexDigit_eq, hexDigit_eq]
  cases hexValue (code hi) with
  | none =>
      rfl
  | some v =>
      cases hexValue (code lo) with
      | none =>
          rfl
      | some w =>
          rfl

/-- The TypeScript port's own name of a piece. -/
def pieceToken : Piece UInt16 → TS.Token
  | .unit a => .unit a
  | .octet n => .octet n

theorem tokens_eq (value : Units) : TS.tokens value = (pieces value).map (·.map pieceToken) := by
  fun_induction TS.tokens value with
  | case1 => rfl
  | case2 => rfl
  | case3 a h => simp [pieces, h, pieceToken]
  | case4 => simp_all [pieces]
  | case5 a b h => simp [pieces, h, pieceToken]
  | case6 hi lo value n hoctet ih =>
      rw [hexOctet_eq] at hoctet
      rcases Option.bind_eq_some_iff.1 hoctet with ⟨v, hv, hoctet⟩
      rcases Option.map_eq_some_iff.1 hoctet with ⟨w, hw, rfl⟩
      rw [ih, pieces, if_pos rfl, hv, hw, Option.map_map, Option.map_map]
      rfl
  | case7 hi lo value hoctet =>
      rw [hexOctet_eq] at hoctet
      rw [pieces, if_pos rfl]
      cases hv : hexValue (code hi) with
      | none =>
          rfl
      | some v =>
          cases hw : hexValue (code lo) with
          | none =>
              rfl
          | some w =>
              simp [hv, hw] at hoctet
  | case8 a hi lo value ha ih =>
      rw [ih, pieces, if_neg ha, Option.map_map, Option.map_map]
      rfl

/-! ## UTF-8 sequences -/

/-- The bytes a piece of a text stands for. -/
def pieceBytes : Piece Char → Bytes
  | .unit c => utf8.enc c
  | .octet n => [UInt8.ofNat n]

/-- The tokens a piece of a text is read as. -/
def pieceTokens : Piece Char → List TS.Token
  | .unit c => (utf16.enc c).map .unit
  | .octet n => [.octet n]

theorem uint8_ofNat_inj {m n : Nat} (hm : m < 256) (hn : n < 256) :
    UInt8.ofNat m = UInt8.ofNat n ↔ m = n := by
  refine ⟨fun h => ?_, fun h => by rw [h]⟩
  have hcode := congrArg code h
  rwa [code_uint8_ofNat hm, code_uint8_ofNat hn] at hcode

theorem enc_eq_one_iff {c : Char} {n : Nat} (hn : n < 256) :
    utf8.enc c = [UInt8.ofNat n] ↔ c.toNat < 0x80 ∧ n = c.toNat := by
  have hmax := char_toNat_lt c
  simp only [utf8, String.utf8EncodeChar, show c.val.toNat = c.toNat from rfl]
  split_ifs with h1 h2 h3
  · simp only [List.cons.injEq, and_true]
    rw [uint8_ofNat_inj (by omega) hn]
    omega
  · simp only [List.cons.injEq, reduceCtorEq, and_false, false_iff]
    omega
  · simp only [List.cons.injEq, reduceCtorEq, and_false, false_iff]
    omega
  · simp only [List.cons.injEq, reduceCtorEq, and_false, false_iff]
    omega

theorem enc_eq_two_iff {c : Char} {n a : Nat} (hn : n < 256) (ha : a < 256) :
    utf8.enc c = [UInt8.ofNat n, UInt8.ofNat a] ↔
      (0xC0 ≤ n ∧ n < 0xE0) ∧ (0x80 ≤ a ∧ a < 0xC0) ∧ 0x80 ≤ c.toNat ∧
        (n - 0xC0) * 0x40 + (a - 0x80) = c.toNat := by
  have hmax := char_toNat_lt c
  simp only [utf8, String.utf8EncodeChar, show c.val.toNat = c.toNat from rfl]
  split_ifs with h1 h2 h3
  · simp only [List.cons.injEq, reduceCtorEq, and_false, false_iff]
    omega
  · simp only [List.cons.injEq, and_true]
    rw [uint8_ofNat_inj (by omega) hn, uint8_ofNat_inj (by omega) ha]
    omega
  · simp only [List.cons.injEq, reduceCtorEq, and_false, false_iff]
    omega
  · simp only [List.cons.injEq, reduceCtorEq, and_false, false_iff]
    omega

theorem enc_eq_three_iff {c : Char} {n a b : Nat} (hn : n < 256) (ha : a < 256) (hb : b < 256) :
    utf8.enc c = [UInt8.ofNat n, UInt8.ofNat a, UInt8.ofNat b] ↔
      (0xE0 ≤ n ∧ n < 0xF0) ∧ (0x80 ≤ a ∧ a < 0xC0) ∧ (0x80 ≤ b ∧ b < 0xC0) ∧ 0x800 ≤ c.toNat ∧
        ((n - 0xE0) * 0x40 + (a - 0x80)) * 0x40 + (b - 0x80) = c.toNat := by
  have hmax := char_toNat_lt c
  simp only [utf8, String.utf8EncodeChar, show c.val.toNat = c.toNat from rfl]
  split_ifs with h1 h2 h3
  · simp only [List.cons.injEq, reduceCtorEq, and_false, false_iff]
    omega
  · simp only [List.cons.injEq, reduceCtorEq, and_false, false_iff]
    omega
  · simp only [List.cons.injEq, and_true]
    rw [uint8_ofNat_inj (by omega) hn, uint8_ofNat_inj (by omega) ha, uint8_ofNat_inj (by omega) hb]
    omega
  · simp only [List.cons.injEq, reduceCtorEq, and_false, false_iff]
    omega

theorem enc_eq_four_iff {c : Char} {n a b d : Nat} (hn : n < 256) (ha : a < 256) (hb : b < 256)
    (hd : d < 256) :
    utf8.enc c = [UInt8.ofNat n, UInt8.ofNat a, UInt8.ofNat b, UInt8.ofNat d] ↔
      (0xF0 ≤ n ∧ n < 0xF8) ∧ (0x80 ≤ a ∧ a < 0xC0) ∧ (0x80 ≤ b ∧ b < 0xC0) ∧
        (0x80 ≤ d ∧ d < 0xC0) ∧ 0x10000 ≤ c.toNat ∧
        (((n - 0xF0) * 0x40 + (a - 0x80)) * 0x40 + (b - 0x80)) * 0x40 + (d - 0x80) = c.toNat := by
  have hmax := char_toNat_lt c
  simp only [utf8, String.utf8EncodeChar, show c.val.toNat = c.toNat from rfl]
  split_ifs with h1 h2 h3
  · simp only [List.cons.injEq, reduceCtorEq, and_false, false_iff]
    omega
  · simp only [List.cons.injEq, reduceCtorEq, and_false, false_iff]
    omega
  · simp only [List.cons.injEq, reduceCtorEq, and_false, false_iff]
    omega
  · simp only [List.cons.injEq, and_true]
    rw [uint8_ofNat_inj (by omega) hn, uint8_ofNat_inj (by omega) ha, uint8_ofNat_inj (by omega) hb,
      uint8_ofNat_inj (by omega) hd]
    omega

/-- A sequence takes one continuation octet after another. -/
def takes : TS.Pending → List Nat → Option TS.Pending
  | pending, [] => some pending
  | pending, n :: ns => (pending.take n).bind fun pending => takes pending ns

theorem take_eq_some_iff {p q : TS.Pending} {n : Nat} : p.take n = some q ↔
    (0x80 ≤ n ∧ n < 0xC0) ∧
      q = { p with missing := p.missing - 1, bits := p.bits * 0x40 + (n - 0x80) } := by
  unfold TS.Pending.take
  split_ifs with h
  · simp [h, eq_comm]
  · simp [h]

theorem lead_eq_some_iff {n : Nat} {p : TS.Pending} : TS.lead n = some p ↔
    ((0xC0 ≤ n ∧ n < 0xE0) ∧ p = { missing := 1, least := 0x80, bits := n - 0xC0 }) ∨
    ((0xE0 ≤ n ∧ n < 0xF0) ∧ p = { missing := 2, least := 0x800, bits := n - 0xE0 }) ∨
    ((0xF0 ≤ n ∧ n < 0xF8) ∧ p = { missing := 3, least := 0x10000, bits := n - 0xF0 }) := by
  unfold TS.lead
  split_ifs with h1 h2 h3
  · have h2 : ¬(0xE0 ≤ n ∧ n < 0xF0) := by omega
    have h3 : ¬(0xF0 ≤ n ∧ n < 0xF8) := by omega
    simp [h1, h2, h3, eq_comm]
  · have h3 : ¬(0xF0 ≤ n ∧ n < 0xF8) := by omega
    simp [h1, h2, h3, eq_comm]
  · simp [h1, h2, h3, eq_comm]
  · simp [h1, h2, h3]

theorem takes_eq_some_iff {p q : TS.Pending} {ns : List Nat} : takes p ns = some q ↔
    (∀ n ∈ ns, 0x80 ≤ n ∧ n < 0xC0) ∧
      q = { p with
        missing := p.missing - ns.length
        bits := ns.foldl (fun bits n => bits * 0x40 + (n - 0x80)) p.bits } := by
  induction ns generalizing p with
  | nil =>
      simp [takes, eq_comm]
  | cons n ns ih =>
      rw [takes, Option.bind_eq_some_iff]
      simp only [take_eq_some_iff, ih, List.forall_mem_cons, List.length_cons, List.foldl_cons]
      constructor
      · rintro ⟨p', ⟨hn, rfl⟩, hns, rfl⟩
        refine ⟨⟨hn, hns⟩, ?_⟩
        rw [Nat.sub_sub, Nat.add_comm 1]
      · rintro ⟨⟨hn, hns⟩, rfl⟩
        refine ⟨_, ⟨hn, rfl⟩, hns, ?_⟩
        rw [Nat.sub_sub, Nat.add_comm 1]

/-- A complete sequence has the units of the scalar value its bits spell, if there is one. -/
theorem units_eq_some_iff {p : TS.Pending} {units : Units} : p.units = some units ↔
    ∃ c : Char, p.least ≤ c.toNat ∧ p.bits = c.toNat ∧ units = utf16.enc c := by
  unfold TS.Pending.units
  split_ifs with h
  · simp only [false_iff, not_exists, not_and]
    intro c hleast hbits
    have hvalid : c.toNat < 0xd800 ∨ 0xdfff < c.toNat ∧ c.toNat < 0x110000 := c.valid
    omega
  · have hscalar : p.bits.isValidChar := by
      rw [Nat.isValidChar]
      omega
    have hbits : (Char.ofNat p.bits).toNat = p.bits := by
      rw [Char.ofNat, dif_pos hscalar]
      rfl
    rw [Option.some.injEq]
    constructor
    · rintro rfl
      exact ⟨Char.ofNat p.bits, by omega, hbits.symm, rfl⟩
    · rintro ⟨c, -, hc, rfl⟩
      rw [hc, Char.ofNat_toNat]
      rfl

/-- The lead octet and the continuation octets of a scalar value are those its UTF-8 block has. -/
theorem enc_eq_sequence_iff {c : Char} {n : Nat} {ns : List Nat} (hlead : 0x80 ≤ n) (hn : n < 256)
    (hns : ∀ a ∈ ns, a < 256) :
    utf8.enc c = (n :: ns).map UInt8.ofNat ↔ ∃ p q, TS.lead n = some p ∧
      ns.length = p.missing ∧ takes p ns = some q ∧ q.least ≤ c.toNat ∧ q.bits = c.toNat := by
  match ns with
  | [] =>
      rw [List.map_cons, List.map_nil, enc_eq_one_iff hn]
      constructor
      · omega
      · rintro ⟨p, q, hp, hmissing, -⟩
        rcases lead_eq_some_iff.1 hp with ⟨-, rfl⟩ | ⟨-, rfl⟩ | ⟨-, rfl⟩ <;> simp at hmissing
  -- the number of continuation octets says which of the four blocks it is, and with it the lead
  | [a] =>
      rw [List.map_cons, List.map_cons, List.map_nil, enc_eq_two_iff hn (hns a (by simp))]
      simp only [takes_eq_some_iff]
      constructor
      · rintro ⟨hrange, ha, hleast, hbits⟩
        exact ⟨_, _, lead_eq_some_iff.2 (.inl ⟨hrange, rfl⟩), rfl, ⟨by simpa using ha, rfl⟩,
          by simpa using hleast, by simpa using hbits⟩
      · rintro ⟨p, q, hp, hmissing, ⟨hcontinue, rfl⟩, hleast, hbits⟩
        rcases lead_eq_some_iff.1 hp with ⟨hrange, rfl⟩ | ⟨-, rfl⟩ | ⟨-, rfl⟩
        · exact ⟨hrange, hcontinue a (by simp), hleast, hbits⟩
        · simp at hmissing
        · simp at hmissing
  | [a, b] =>
      rw [List.map_cons, List.map_cons, List.map_cons, List.map_nil,
        enc_eq_three_iff hn (hns a (by simp)) (hns b (by simp))]
      simp only [takes_eq_some_iff]
      constructor
      · rintro ⟨hrange, ha, hb, hleast, hbits⟩
        exact ⟨_, _, lead_eq_some_iff.2 (.inr (.inl ⟨hrange, rfl⟩)), rfl,
          ⟨by simp [ha, hb], rfl⟩, by simpa using hleast, by simpa using hbits⟩
      · rintro ⟨p, q, hp, hmissing, ⟨hcontinue, rfl⟩, hleast, hbits⟩
        rcases lead_eq_some_iff.1 hp with ⟨-, rfl⟩ | ⟨hrange, rfl⟩ | ⟨-, rfl⟩
        · simp at hmissing
        · exact ⟨hrange, hcontinue a (by simp), hcontinue b (by simp), hleast, hbits⟩
        · simp at hmissing
  | [a, b, d] =>
      rw [List.map_cons, List.map_cons, List.map_cons, List.map_cons, List.map_nil,
        enc_eq_four_iff hn (hns a (by simp)) (hns b (by simp)) (hns d (by simp))]
      simp only [takes_eq_some_iff]
      constructor
      · rintro ⟨hrange, ha, hb, hd, hleast, hbits⟩
        exact ⟨_, _, lead_eq_some_iff.2 (.inr (.inr ⟨hrange, rfl⟩)), rfl,
          ⟨by simp [ha, hb, hd], rfl⟩, by simpa using hleast, by simpa using hbits⟩
      · rintro ⟨p, q, hp, hmissing, ⟨hcontinue, rfl⟩, hleast, hbits⟩
        rcases lead_eq_some_iff.1 hp with ⟨-, rfl⟩ | ⟨-, rfl⟩ | ⟨hrange, rfl⟩
        · simp at hmissing
        · simp at hmissing
        · exact ⟨hrange, hcontinue a (by simp), hcontinue b (by simp), hcontinue d (by simp), hleast,
            hbits⟩
  | a :: b :: d :: f :: ns =>
      constructor
      · intro h
        -- no block has more than four octets
        have hlength := congrArg List.length h
        have hsize := c.utf8Size_le_four
        simp only [utf8, String.length_utf8EncodeChar, List.length_map, List.length_cons] at hlength
        omega
      · rintro ⟨p, q, hp, hmissing, -⟩
        rcases lead_eq_some_iff.1 hp with ⟨-, rfl⟩ | ⟨-, rfl⟩ | ⟨-, rfl⟩ <;> simp at hmissing

/-! ## Pieces as bytes and as tokens -/

/-- A block of UTF-8 does not begin with a continuation byte. -/
theorem enc_head_not_continuation {c : Char} {b : UInt8} {bs : Bytes} (h : utf8.enc c = b :: bs) :
    ¬(0x80 ≤ code b ∧ code b < 0xC0) := by
  have hmax := char_toNat_lt c
  simp only [utf8, String.utf8EncodeChar, show c.val.toNat = c.toNat from rfl] at h
  split_ifs at h with h1 h2 h3
  · rw [← (List.cons.inj h).1, code_uint8_ofNat (by omega)]
    omega
  · rw [← (List.cons.inj h).1, code_uint8_ofNat (by omega)]
    omega
  · rw [← (List.cons.inj h).1, code_uint8_ofNat (by omega)]
    omega
  · rw [← (List.cons.inj h).1, code_uint8_ofNat (by omega)]
    omega

/-- Every later byte of a block is a continuation byte. -/
theorem enc_tail_continuation {c : Char} {b : UInt8} {bs : Bytes} (h : utf8.enc c = b :: bs) :
    ∀ a ∈ bs, 0x80 ≤ code a ∧ code a < 0xC0 := by
  have hcontinuation (n : Nat) :
      0x80 ≤ code (UInt8.ofNat (n % 64 + 128)) ∧ code (UInt8.ofNat (n % 64 + 128)) < 0xC0 := by
    rw [code_uint8_ofNat (by omega)]
    omega
  simp only [utf8, String.utf8EncodeChar, show c.val.toNat = c.toNat from rfl] at h
  split_ifs at h with h1 h2 h3
  · rw [← (List.cons.inj h).2]
    exact fun a ha => absurd ha List.not_mem_nil
  · rw [← (List.cons.inj h).2]
    exact List.forall_mem_cons.2 ⟨hcontinuation _, fun a ha => absurd ha List.not_mem_nil⟩
  · rw [← (List.cons.inj h).2]
    simp only [List.forall_mem_cons, List.not_mem_nil, false_implies, implies_true, and_true]
    exact ⟨hcontinuation _, hcontinuation _⟩
  · rw [← (List.cons.inj h).2]
    simp only [List.forall_mem_cons, List.not_mem_nil, false_implies, implies_true, and_true]
    exact ⟨hcontinuation _, hcontinuation _, hcontinuation _⟩

/-- Continuation bytes come from escaped octets only. -/
theorem exists_octets_of_bytes {ps : List (Piece Char)} {bs rest : Bytes}
    (hps : ∀ n, Piece.octet n ∈ ps → n < 256) (hbs : ∀ b ∈ bs, 0x80 ≤ code b ∧ code b < 0xC0)
    (h : ps.flatMap pieceBytes = bs ++ rest) :
    ∃ (ns : List Nat) (ps' : List (Piece Char)), ps = ns.map Piece.octet ++ ps' ∧
      bs = ns.map UInt8.ofNat ∧ ps'.flatMap pieceBytes = rest := by
  induction bs generalizing ps with
  | nil =>
      exact ⟨[], ps, rfl, rfl, h⟩
  | cons b bs ih =>
      cases ps with
      | nil =>
          exact absurd h (by simp)
      | cons p ps =>
          cases p with
          | unit c =>
              rw [List.flatMap_cons, pieceBytes] at h
              cases henc : utf8.enc c with
              | nil =>
                  exact absurd henc (utf8.enc_ne_nil c)
              | cons b' bs' =>
                  rw [henc, List.cons_append, List.cons_append] at h
                  rw [(List.cons.inj h).1] at henc
                  exact absurd (hbs b (by simp)) (enc_head_not_continuation henc)
          | octet n =>
              rw [List.flatMap_cons, pieceBytes, List.cons_append, List.nil_append,
                List.cons_append] at h
              rcases ih (fun m hm => hps m (by simp [hm])) (fun b hb => hbs b (by simp [hb]))
                (List.cons.inj h).2 with ⟨ns, ps', rfl, rfl, hrest⟩
              exact ⟨n :: ns, ps', rfl, by rw [List.map_cons, (List.cons.inj h).1], hrest⟩

theorem exists_octets_of_tokens {ps : List (Piece Char)} {ns : List Nat} {more : List TS.Token}
    (h : ps.flatMap pieceTokens = ns.map TS.Token.octet ++ more) :
    ∃ ps', ps = ns.map Piece.octet ++ ps' ∧ more = ps'.flatMap pieceTokens := by
  induction ns generalizing ps with
  | nil =>
      exact ⟨ps, rfl, h.symm⟩
  | cons n ns ih =>
      cases ps with
      | nil =>
          exact absurd h (by simp)
      | cons p ps =>
          cases p with
          | unit c =>
              rw [List.flatMap_cons, pieceTokens] at h
              cases henc : utf16.enc c with
              | nil =>
                  exact absurd henc (utf16.enc_ne_nil c)
              | cons a as =>
                  rw [henc] at h
                  exact absurd (List.cons.inj h).1 (by simp)
          | octet m =>
              rw [List.flatMap_cons, pieceTokens, List.cons_append, List.nil_append, List.map_cons,
                List.cons_append, List.cons.injEq, TS.Token.octet.injEq] at h
              rcases ih h.2 with ⟨ps', rfl, hmore⟩
              exact ⟨ps', by rw [h.1]; rfl, hmore⟩

theorem flatMap_octets_bytes (ns : List Nat) (ps : List (Piece Char)) :
    (ns.map Piece.octet ++ ps).flatMap pieceBytes = ns.map UInt8.ofNat ++ ps.flatMap pieceBytes := by
  rw [List.flatMap_append, List.flatMap_map]
  exact congrArg (· ++ _) List.map_eq_flatMap.symm

theorem flatMap_octets_tokens (ns : List Nat) (ps : List (Piece Char)) :
    (ns.map Piece.octet ++ ps).flatMap pieceTokens =
      ns.map TS.Token.octet ++ ps.flatMap pieceTokens := by
  rw [List.flatMap_append, List.flatMap_map]
  exact congrArg (· ++ _) List.map_eq_flatMap.symm

/-! ## Decoding -/

theorem decodeTokens_units (units : Units) (more : List TS.Token) :
    TS.decodeTokens none (units.map TS.Token.unit ++ more) =
      (TS.decodeTokens none more).map (units ++ ·) := by
  induction units with
  | nil =>
      simp
  | cons a units ih =>
      rw [List.map_cons, List.cons_append, TS.decodeTokens, ih, Option.map_map]
      rfl

/-- A sequence that has begun takes the octets it is missing, which spell a scalar value. -/
theorem decodeTokens_pending {k : Nat} {p : TS.Pending} (hmissing : p.missing = k + 1)
    (more : List TS.Token) (units : Units) :
    TS.decodeTokens (some p) more = some units ↔
      ∃ ns rest q u v, ns.length = k + 1 ∧ more = ns.map TS.Token.octet ++ rest ∧
        takes p ns = some q ∧ q.units = some u ∧ TS.decodeTokens none rest = some v ∧
        units = u ++ v := by
  match more with
  | [] =>
      simp only [TS.decodeTokens, reduceCtorEq, false_iff]
      rintro ⟨ns, rest, -, -, -, hlength, hmore, -⟩
      rw [← List.length_map (f := TS.Token.octet), (List.append_eq_nil_iff.1 hmore.symm).1] at hlength
      exact absurd hlength (by simp)
  | .unit a :: more =>
      simp only [TS.decodeTokens, reduceCtorEq, false_iff]
      rintro ⟨ns, rest, -, -, -, hlength, hmore, -⟩
      cases ns with
      | nil =>
          exact absurd hlength (by simp)
      | cons n ns =>
          exact absurd (List.cons.inj hmore).1 (by simp)
  | .octet n :: more =>
      -- the first of the missing octets is taken, and one fewer is missing
      have hcons : (∃ ns rest q u v, ns.length = k + 1 ∧
            .octet n :: more = ns.map TS.Token.octet ++ rest ∧ takes p ns = some q ∧
            q.units = some u ∧ TS.decodeTokens none rest = some v ∧ units = u ++ v) ↔
          ∃ p', p.take n = some p' ∧ ∃ ns rest q u v, ns.length = k ∧
            more = ns.map TS.Token.octet ++ rest ∧ takes p' ns = some q ∧
            q.units = some u ∧ TS.decodeTokens none rest = some v ∧ units = u ++ v := by
        constructor
        · rintro ⟨ns, rest, q, u, v, hlength, hmore, htakes, hrest⟩
          cases ns with
          | nil =>
              exact absurd hlength (by simp)
          | cons n' ns =>
              rw [List.map_cons, List.cons_append, List.cons.injEq, TS.Token.octet.injEq] at hmore
              rw [← hmore.1] at htakes
              rcases Option.bind_eq_some_iff.1 htakes with ⟨p', htake, htakes⟩
              exact ⟨p', htake, ns, rest, q, u, v, Nat.succ.inj hlength, hmore.2, htakes, hrest⟩
        · rintro ⟨p', htake, ns, rest, q, u, v, rfl, rfl, htakes, hrest⟩
          exact ⟨n :: ns, rest, q, u, v, rfl, rfl,
            Option.bind_eq_some_iff.2 ⟨p', htake, htakes⟩, hrest⟩
      rw [hcons, TS.decodeTokens]
      cases htake : p.take n with
      | none =>
          simp
      | some p' =>
          have hmissing' : p'.missing = k := by
            rw [(take_eq_some_iff.1 htake).2, hmissing]
            rfl
          simp only [hmissing', Option.some.injEq, exists_eq_left']
          cases k with
          | zero =>
              rw [if_pos rfl]
              constructor
              · intro h
                cases hu : p'.units with
                | none =>
                    simp [hu] at h
                | some u =>
                    cases hv : TS.decodeTokens none more with
                    | none =>
                        simp [hu, hv] at h
                    | some v =>
                        simp only [hu, hv, Option.some.injEq] at h
                        exact ⟨[], more, p', u, v, rfl, rfl, rfl, hu, hv, h.symm⟩
              · rintro ⟨ns, rest, q, u, v, hlength, rfl, htakes, hu, hv, rfl⟩
                cases List.length_eq_zero_iff.1 hlength
                rw [takes, Option.some.injEq] at htakes
                rw [htakes, List.map_nil, List.nil_append, hu, hv]
          | succ k =>
              rw [if_neg (Nat.succ_ne_zero k)]
              exact decodeTokens_pending hmissing' more units

/-- Bytes that begin with a block spell a text that begins with its character. -/
theorem spells_cons_iff {c : Char} {bs : Bytes} {units : Units} :
    (∃ t, utf8.enc c ++ bs = utf8.encode t ∧ units = utf16.encode t) ↔
      ∃ t, bs = utf8.encode t ∧ units = utf16.enc c ++ utf16.encode t := by
  constructor
  · rintro ⟨t, hbytes, rfl⟩
    have hleads : [c] <+: t := utf8.encode_prefix_iff.1 ⟨bs, by simp [hbytes]⟩
    rcases hleads with ⟨t', rfl⟩
    exact ⟨t', by simpa using hbytes, rfl⟩
  · rintro ⟨t, rfl, rfl⟩
    exact ⟨c :: t, rfl, rfl⟩

/-- The bytes of a text begin with the block of a character. -/
theorem exists_block_of_spells {b : UInt8} {bs : Bytes} {t : List Char}
    (h : b :: bs = utf8.encode t) : ∃ c tail t', t = c :: t' ∧ utf8.enc c = b :: tail ∧
      bs = tail ++ utf8.encode t' := by
  cases t with
  | nil =>
      exact absurd h (by simp)
  | cons c t =>
      cases henc : utf8.enc c with
      | nil =>
          exact absurd henc (utf8.enc_ne_nil c)
      | cons b' tail =>
          rw [Encoding.encode_cons, henc, List.cons_append, List.cons.injEq] at h
          exact ⟨c, tail, t, rfl, by rw [henc, h.1], h.2⟩

/-- Pieces decode exactly where their bytes are UTF-8, and to the same text. -/
def Decodes (ps : List (Piece Char)) : Prop :=
  ∀ units, TS.decodeTokens none (ps.flatMap pieceTokens) = some units ↔
    ∃ t, ps.flatMap pieceBytes = utf8.encode t ∧ units = utf16.encode t

theorem decodes_nil : Decodes [] := by
  intro units
  simp only [List.flatMap_nil, TS.decodeTokens, Option.some.injEq]
  constructor
  · rintro rfl
    exact ⟨[], rfl, rfl⟩
  · rintro ⟨t, ht, rfl⟩
    rw [utf8.encode_eq_nil_iff.1 ht.symm]
    rfl

/-- A character in front is a character of the text. -/
theorem Decodes.map_enc {ps : List (Piece Char)} (h : Decodes ps) (c : Char) (units : Units) :
    (TS.decodeTokens none (ps.flatMap pieceTokens)).map (utf16.enc c ++ ·) = some units ↔
      ∃ t, utf8.enc c ++ ps.flatMap pieceBytes = utf8.encode t ∧ units = utf16.encode t := by
  rw [spells_cons_iff, Option.map_eq_some_iff]
  constructor
  · rintro ⟨v, hv, rfl⟩
    obtain ⟨t, ht, rfl⟩ := (h v).1 hv
    exact ⟨t, ht, rfl⟩
  · rintro ⟨t, ht, rfl⟩
    exact ⟨utf16.encode t, (h _).2 ⟨t, ht, rfl⟩, rfl⟩

theorem Decodes.unit {ps : List (Piece Char)} (h : Decodes ps) (c : Char) : Decodes (.unit c :: ps) := by
  intro units
  rw [List.flatMap_cons, List.flatMap_cons, pieceTokens, pieceBytes, decodeTokens_units]
  exact h.map_enc c units

/-- An escaped ASCII octet is a character of its own. -/
theorem Decodes.ascii {ps : List (Piece Char)} (h : Decodes ps) {n : Nat} (hascii : n < 0x80) :
    Decodes (.octet n :: ps) := by
  intro units
  have hcode : code (Char.ofNat n) = n := code_ofCode n hascii
  have hblock8 : utf8.enc (Char.ofNat n) = [UInt8.ofNat n] := by
    rw [utf8.enc_ascii _ (by rwa [hcode]), hcode]
    rfl
  have hblock16 : utf16.enc (Char.ofNat n) = [UInt16.ofNat n] := by
    rw [utf16.enc_ascii _ (by rwa [hcode]), hcode]
    rfl
  have hfront := h.map_enc (Char.ofNat n) units
  rw [hblock8, hblock16] at hfront
  rw [List.flatMap_cons, List.flatMap_cons, pieceTokens, pieceBytes, List.singleton_append, TS.decodeTokens,
    if_pos hascii]
  exact hfront

theorem exists_missing_of_lead {n : Nat} {p : TS.Pending} (h : TS.lead n = some p) : ∃ k, p.missing = k + 1 := by
  rcases lead_eq_some_iff.1 h with ⟨-, rfl⟩ | ⟨-, rfl⟩ | ⟨-, rfl⟩
  · exact ⟨0, rfl⟩
  · exact ⟨1, rfl⟩
  · exact ⟨2, rfl⟩

/-- An escaped lead octet takes the octets behind it, which spell a character together with it. -/
theorem decodes_sequence {ps : List (Piece Char)} {n : Nat} (hlead : 0x80 ≤ n) (hn : n < 256)
    (hps : ∀ m, Piece.octet m ∈ ps → m < 256)
    (hrest : ∀ (ns : List Nat) ps', ps = ns.map Piece.octet ++ ps' → Decodes ps') : Decodes (.octet n :: ps) := by
  intro units
  rw [List.flatMap_cons, List.flatMap_cons, pieceTokens, pieceBytes, List.singleton_append, List.singleton_append,
    TS.decodeTokens, if_neg (Nat.not_lt.2 hlead)]
  constructor
  · intro h
    cases hp : TS.lead n with
    | none =>
        simp [hp] at h
    | some p =>
        obtain ⟨k, hk⟩ := exists_missing_of_lead hp
        simp only [hp] at h
        obtain ⟨ns, rest, q, u, v, hns, htokens, htakes, hu, hv, rfl⟩ := (decodeTokens_pending hk _ _).1 h
        obtain ⟨ps', rfl, rfl⟩ := exists_octets_of_tokens htokens
        obtain ⟨c, hleast, hbits, rfl⟩ := units_eq_some_iff.1 hu
        have hblock : utf8.enc c = (n :: ns).map UInt8.ofNat :=
          (enc_eq_sequence_iff hlead hn fun a ha => hps a (by simp [ha])).2
            ⟨p, q, hp, hns.trans hk.symm, htakes, hleast, hbits⟩
        obtain ⟨t, ht, rfl⟩ := (hrest ns ps' rfl v).1 hv
        refine ⟨c :: t, ?_, rfl⟩
        rw [flatMap_octets_bytes, ht, Encoding.encode_cons, hblock]
        rfl
  · rintro ⟨t, ht, rfl⟩
    obtain ⟨c, tail, t, rfl, hblock, hbehind⟩ := exists_block_of_spells ht
    obtain ⟨ns, ps', rfl, rfl, hbytes⟩ := exists_octets_of_bytes hps (enc_tail_continuation hblock) hbehind
    obtain ⟨p, q, hp, hns, htakes, hleast, hbits⟩ :=
      (enc_eq_sequence_iff hlead hn fun a ha => hps a (by simp [ha])).1 hblock
    obtain ⟨k, hk⟩ := exists_missing_of_lead hp
    have hv := (hrest ns ps' rfl (utf16.encode t)).2 ⟨t, hbytes, rfl⟩
    rw [flatMap_octets_tokens]
    simp only [hp]
    exact (decodeTokens_pending hk _ _).2 ⟨ns, _, q, utf16.enc c, utf16.encode t, hns.trans hk, rfl, htakes,
      units_eq_some_iff.2 ⟨c, hleast, hbits, rfl⟩, hv, rfl⟩

/-- Every list of pieces does: a piece is a character, an ASCII octet, or the lead of a sequence. -/
theorem decodes {ps : List (Piece Char)} (hps : ∀ n, Piece.octet n ∈ ps → n < 256) : Decodes ps := by
  induction hlength : ps.length using Nat.strong_induction_on generalizing ps with
  | _ length ih =>
      cases ps with
      | nil =>
          exact decodes_nil
      | cons p ps =>
          have hps' : ∀ n, Piece.octet n ∈ ps → n < 256 := fun n hn => hps n (List.mem_cons_of_mem _ hn)
          rw [List.length_cons] at hlength
          have hrest : Decodes ps := ih _ (by omega) hps' rfl
          cases p with
          | unit c =>
              exact hrest.unit c
          | octet n =>
              by_cases hascii : n < 0x80
              · exact hrest.ascii hascii
              · apply decodes_sequence (Nat.not_lt.1 hascii) (hps n List.mem_cons_self) hps'
                rintro ns ps' rfl
                rw [List.length_append] at hlength
                exact ih _ (by omega) (fun m hm => hps' m (List.mem_append_right _ hm)) rfl

/-! ## The text an escaped text decodes to -/

/-- The text whose UTF-8 the bytes are. -/
def utf8Text? (value : Bytes) : Option (List Char) :=
  (ByteArray.mk value.toArray).utf8Decode?.map Array.toList

theorem utf8Encode_eq (t : List Char) : t.utf8Encode = ByteArray.mk (utf8.encode t).toArray := by
  ext1
  rw [List.utf8Encode, List.data_toByteArray]
  rfl

theorem utf8Text?_eq_some_iff {value : Bytes} {t : List Char} :
    utf8Text? value = some t ↔ value = utf8.encode t := by
  rw [utf8Text?, Option.map_eq_some_iff]
  constructor
  · rintro ⟨cs, hcs, rfl⟩
    have hvalid : (ByteArray.mk value.toArray).IsValidUTF8 :=
      ByteArray.isSome_utf8Decode?_iff.1 (by rw [hcs]; rfl)
    rcases hvalid with ⟨t, ht⟩
    rw [ht, List.utf8Decode?_utf8Encode, Option.some.injEq] at hcs
    rw [utf8Encode_eq, ByteArray.mk.injEq] at ht
    rw [← hcs]
    exact Array.toList_inj.2 ht
  · rintro rfl
    refine ⟨t.toArray, ?_, rfl⟩
    rw [← utf8Encode_eq, List.utf8Decode?_utf8Encode]

theorem validString_iff (value : Bytes) :
    Go.validString value = true ↔ ∃ t, value = utf8.encode t := by
  rw [Go.validString, ByteArray.validateUTF8_eq_true_iff, ← ByteArray.isSome_utf8Decode?_iff,
    ← Option.isSome_map, ← utf8Text?, Option.isSome_iff_exists]
  simp only [utf8Text?_eq_some_iff]

/-- What a text decodes to: its pieces' bytes, read as UTF-8. -/
def decode? (text : List Char) : Option (List Char) :=
  (pieces text).bind fun ps => utf8Text? (ps.flatMap pieceBytes)

theorem pieceBytes_eq (p : Piece Char) : (utf8.encPiece p).map pieceByte = pieceBytes p := by
  cases p with
  | unit c =>
      rw [Encoding.encPiece, List.map_map]
      exact List.map_id _
  | octet n =>
      rfl

theorem pathUnescape_encode (text : List Char) : Go.pathUnescape (utf8.encode text) =
    (pieces text).map (·.flatMap pieceBytes) := by
  rw [pathUnescape_eq, utf8.pieces_encode, Option.map_map]
  congr 1
  funext ps
  simp only [Function.comp_apply, List.map_flatMap, pieceBytes_eq]

theorem pieceTokens_eq (p : Piece Char) : (utf16.encPiece p).map pieceToken = pieceTokens p := by
  cases p with
  | unit c =>
      rw [Encoding.encPiece, List.map_map]
      rfl
  | octet n =>
      rfl

theorem tokens_encode (text : List Char) : TS.tokens (utf16.encode text) =
    (pieces text).map (·.flatMap pieceTokens) := by
  rw [tokens_eq, utf16.pieces_encode, Option.map_map]
  congr 1
  funext ps
  simp only [Function.comp_apply, List.map_flatMap, pieceTokens_eq]

/-- `url.PathUnescape` followed by `utf8.ValidString` decodes the text. -/
theorem filter_pathUnescape_encode (text : List Char) :
    (Go.pathUnescape (utf8.encode text)).filter Go.validString = (decode? text).map utf8.encode := by
  rw [pathUnescape_encode, decode?]
  cases pieces text with
  | none =>
      rfl
  | some ps =>
      rw [Option.map_some, Option.bind_some]
      cases htext : utf8Text? (ps.flatMap pieceBytes) with
      | none =>
          have hinvalid : Go.validString (ps.flatMap pieceBytes) = false := by
            rw [← Bool.not_eq_true, validString_iff]
            rintro ⟨t, ht⟩
            rw [utf8Text?_eq_some_iff.2 ht] at htext
            exact absurd htext (by simp)
          rw [Option.filter_some_neg (by simp [hinvalid])]
          rfl
      | some t =>
          have hbytes := utf8Text?_eq_some_iff.1 htext
          rw [Option.filter_some_pos ((validString_iff _).2 ⟨t, hbytes⟩), hbytes]
          rfl

/-- `decodeURIComponent` decodes the text, into UTF-16. -/
theorem decodeURIComponent_encode (text : List Char) :
    TS.decodeURIComponent (utf16.encode text) = (decode? text).map utf16.encode := by
  rw [TS.decodeURIComponent, tokens_encode, decode?]
  cases hpieces : pieces text with
  | none =>
      rfl
  | some ps =>
      rw [Option.map_some, Option.bind_some, Option.bind_some]
      ext units
      rw [decodes (fun n hn => octet_lt_of_pieces hpieces hn), Option.map_eq_some_iff]
      simp only [utf8Text?_eq_some_iff, eq_comm (b := units)]

end Ports

end CanonicalPath
