import CanonicalPath.C.Decode
import CanonicalPath.Ports.CGrammar
import CanonicalPath.Ports.Decoding

/-!
# C decode — only well-formed UTF-8 gets through

The byte ranges, the counts and the minimum of `cp_valid_utf8` together are the blocks of scalar values, and
`cp_percent_decode` writes the octets of the pieces of its input.  Neither leaves its buffers.

* `validUtf8_eq` : the bytes of texts, and no others
* `percentLoop_percent` : one turn at a percent sign
* `percentLoop_writes` : what the loop writes
* `decode_safe` : both functions on every buffer
-/

namespace CanonicalPath

namespace Ports

open CodeUnit

/-! ## Blocks -/

/-- The bits of a sequence are bounded by its lead. -/
theorem bits_bounds {ns : List Nat} (h : ∀ n ∈ ns, 0x80 ≤ n ∧ n < 0xC0) (bits : Nat) :
    bits * 64 ^ ns.length ≤ ns.foldl (fun bits n => bits * 0x40 + (n - 0x80)) bits ∧
      ns.foldl (fun bits n => bits * 0x40 + (n - 0x80)) bits < (bits + 1) * 64 ^ ns.length := by
  induction ns generalizing bits with
  | nil =>
      simp
  | cons n ns ih =>
      obtain ⟨hn, hns⟩ := List.forall_mem_cons.1 h
      obtain ⟨hlow, hhigh⟩ := ih hns (bits * 0x40 + (n - 0x80))
      have hpos : 0 < 64 ^ ns.length := Nat.pow_pos (by decide)
      have hbelow : bits * 64 ≤ bits * 0x40 + (n - 0x80) := Nat.le_add_right _ _
      have habove : bits * 0x40 + (n - 0x80) + 1 ≤ (bits + 1) * 64 := by
        omega
      rw [List.length_cons, List.foldl_cons, Nat.pow_succ']
      constructor
      · calc
          bits * (64 * 64 ^ ns.length)
              = bits * 64 * 64 ^ ns.length := by rw [Nat.mul_assoc]
          _ ≤ (bits * 0x40 + (n - 0x80)) * 64 ^ ns.length := Nat.mul_le_mul_right _ hbelow
          _ ≤ _ := hlow
      · calc
          _ < (bits * 0x40 + (n - 0x80) + 1) * 64 ^ ns.length := hhigh
          _ ≤ (bits + 1) * 64 * 64 ^ ns.length := Nat.mul_le_mul_right _ habove
          _ = (bits + 1) * (64 * 64 ^ ns.length) := by rw [Nat.mul_assoc]

/-- Bytes that are the UTF-8 of a text. -/
def IsUtf8 (s : Bytes) : Prop :=
  ∃ text, s = utf8.encode text

theorem isUtf8_nil : IsUtf8 [] :=
  ⟨[], rfl⟩

theorem isUtf8_cons_iff {a : UInt8} {s : Bytes} :
    IsUtf8 (a :: s) ↔ ∃ c block rest, utf8.enc c = a :: block ∧ s = block ++ rest ∧ IsUtf8 rest := by
  constructor
  · rintro ⟨text, htext⟩
    cases text with
    | nil =>
        cases htext
    | cons c text =>
        rw [Encoding.encode_cons] at htext
        cases henc : utf8.enc c with
        | nil =>
            exact absurd henc (utf8.enc_ne_nil c)
        | cons b block =>
            rw [henc, List.cons_append] at htext
            obtain ⟨rfl, rfl⟩ := List.cons.inj htext
            exact ⟨c, block, _, henc, rfl, text, rfl⟩
  · rintro ⟨c, block, rest, henc, rfl, text, rfl⟩
    exact ⟨c :: text, by rw [Encoding.encode_cons, henc, List.cons_append]⟩

theorem isUtf8_cons_ascii_iff {a : UInt8} (ha : a.toNat < 0x80) {s : Bytes} : IsUtf8 (a :: s) ↔ IsUtf8 s := by
  have hcode : code (ofCode (code a) : Char) = code a := code_ofCode _ ha
  have hself : utf8.enc (ofCode (code a)) = [a] := by
    rw [utf8.enc_ascii _ (by rw [hcode]; exact ha), hcode]
    exact congrArg (fun b => [b]) UInt8.ofNat_toNat
  rw [isUtf8_cons_iff]
  constructor
  · rintro ⟨c, block, rest, henc, rfl, hrest⟩
    -- an ASCII byte is a block of its own
    have hc : code c < 128 := by
      by_contra hlarge
      exact absurd (utf8.enc_nonAscii c (Nat.le_of_not_lt hlarge) a (by rw [henc]; exact List.mem_cons_self)) (Nat.not_le.2 ha)
    rw [utf8.enc_ascii c hc] at henc
    obtain ⟨-, rfl⟩ := List.cons.inj henc
    exact hrest
  · intro hs
    exact ⟨_, [], s, hself, rfl, hs⟩

/-- A block of several bytes is a complete sequence for a scalar value. -/
theorem isUtf8_cons_lead_iff {a : UInt8} (ha : 0x80 ≤ a.toNat) {s : Bytes} :
    IsUtf8 (a :: s) ↔ ∃ p q, TS.lead a.toNat = some p ∧ p.missing ≤ s.length ∧
      takes p ((s.take p.missing).map UInt8.toNat) = some q ∧ q.least ≤ q.bits ∧ q.bits.isValidChar ∧
        IsUtf8 (s.drop p.missing) := by
  have hoctets (block : Bytes) : ∀ n ∈ block.map UInt8.toNat, n < 256 := by
    intro n hn
    obtain ⟨b, -, rfl⟩ := List.mem_map.1 hn
    exact b.toNat_lt
  have hback (block : Bytes) : (a.toNat :: block.map UInt8.toNat).map UInt8.ofNat = a :: block := by
    rw [List.map_cons, UInt8.ofNat_toNat, List.map_map]
    congr 1
    exact (List.map_congr_left fun b _ => UInt8.ofNat_toNat).trans (List.map_id block)
  rw [isUtf8_cons_iff]
  constructor
  · rintro ⟨c, block, rest, henc, rfl, hrest⟩
    rw [← hback block, enc_eq_sequence_iff ha a.toNat_lt (hoctets block)] at henc
    obtain ⟨p, q, hlead, hmissing, htakes, hleast, hbits⟩ := henc
    rw [List.length_map] at hmissing
    refine ⟨p, q, hlead, ?_, ?_, ?_, ?_, ?_⟩
    · rw [List.length_append, hmissing]
      exact Nat.le_add_right _ _
    · rw [← hmissing, List.take_left]
      exact htakes
    · rw [hbits]
      exact hleast
    · rw [hbits]
      exact c.valid
    · rw [← hmissing, List.drop_left]
      exact hrest
  · rintro ⟨p, q, hlead, hmissing, htakes, hleast, hvalid, hrest⟩
    have hbits : (Char.ofNat q.bits).toNat = q.bits := by
      rw [Char.ofNat, dif_pos hvalid]
      rfl
    refine ⟨Char.ofNat q.bits, s.take p.missing, s.drop p.missing, ?_, (List.take_append_drop _ _).symm, hrest⟩
    rw [← hback, enc_eq_sequence_iff ha a.toNat_lt (hoctets _)]
    refine ⟨p, q, hlead, ?_, htakes, ?_, hbits.symm⟩
    · rw [List.length_map, List.length_take, Nat.min_eq_left hmissing]
    · rw [hbits]
      exact hleast

/-! ## Octets -/

/-- The octets of the pieces of a text, unless one is NUL. -/
def octets? (s : Bytes) : Option Bytes :=
  (pieces s).bind fun ps => if 0 ∈ ps.map pieceByte then none else some (ps.map pieceByte)

theorem octets?_eq_some_iff {s octets : Bytes} :
    octets? s = some octets ↔ ∃ ps, pieces s = some ps ∧ octets = ps.map pieceByte ∧ 0 ∉ octets := by
  rw [octets?, Option.bind_eq_some_iff]
  refine exists_congr fun ps => and_congr_right fun _ => ?_
  split_ifs with hzero
  · refine iff_of_false (fun hnone => by cases hnone) ?_
    rintro ⟨rfl, hne⟩
    exact hne hzero
  · rw [Option.some.injEq]
    constructor
    · rintro rfl
      exact ⟨rfl, hzero⟩
    · rintro ⟨rfl, -⟩
      rfl

theorem octets?_cons_of_ne {a : UInt8} (ha : a ≠ chr '%') (hzero : a ≠ 0) (s : Bytes) :
    octets? (a :: s) = (octets? s).map (a :: ·) := by
  rw [octets?, octets?, pieces_cons_of_ne ha]
  cases pieces s with
  | none =>
      rfl
  | some ps =>
      have hmem : 0 ∈ a :: ps.map pieceByte ↔ 0 ∈ ps.map pieceByte := by
        rw [List.mem_cons]
        exact or_iff_right hzero.symm
      simp only [Option.map_some, Option.bind_some, List.map_cons, pieceByte, hmem]
      split_ifs
      · rfl
      · rfl

theorem octets?_percent (s : Bytes) : octets? (chr '%' :: s) = (takeOctet s).bind fun octet =>
    if octet.1 = 0 then none else (octets? octet.2).map (UInt8.ofNat octet.1 :: ·) := by
  rw [octets?, pieces_percent]
  cases htake : takeOctet s with
  | none =>
      rfl
  | some octet =>
      have hlt := lt_of_takeOctet htake
      have hzero : 0 = UInt8.ofNat octet.1 ↔ octet.1 = 0 := by
        have hnul : (0 : UInt8) = UInt8.ofNat 0 := rfl
        rw [hnul, uint8_ofNat_inj (by decide) hlt, eq_comm]
      rw [Option.bind_some, Option.bind_some, octets?]
      cases pieces octet.2 with
      | none =>
          simp
      | some ps =>
          simp only [Option.map_some, Option.bind_some, List.map_cons, pieceByte, List.mem_cons, hzero]
          by_cases hnul : octet.1 = 0
          · simp [hnul]
          · by_cases hmem : 0 ∈ ps.map pieceByte
            · simp [hnul, hmem]
            · simp [hnul, hmem]

namespace C

open CString

/-! ## The validator -/

theorem next_iff (b : UInt8) : b.toNat &&& 0xc0 = 0x80 ↔ 0x80 ≤ b.toNat ∧ b.toNat < 0xC0 := by
  have hall : ∀ n < 256, n &&& 0xc0 = 0x80 ↔ 0x80 ≤ n ∧ n < 0xC0 := by
    decide +kernel
  exact hall b.toNat b.toNat_lt

theorem shift_eq (bits : Nat) {n : Nat} (h : 0x80 ≤ n ∧ n < 0xC0) :
    bits <<< 6 ||| (n &&& 0x3f) = bits * 0x40 + (n - 0x80) := by
  have hmask : n &&& 0x3f = n - 0x80 := by
    have hall : ∀ n < 256, 0x80 ≤ n ∧ n < 0xC0 → n &&& 0x3f = n - 0x80 := by
      decide +kernel
    exact hall n (by omega) h
  rw [hmask, ← Nat.shiftLeft_add_eq_or_of_lt (by omega), Nat.shiftLeft_eq]

/-- The inner loop takes the continuation bytes of a sequence. -/
theorem continuation_eq {p : C.Chars} {front block : Bytes} (h : Holds p (front ++ block)) (least bits : Nat) :
    C.continuation p block.length front.length bits =
      some ((takes { missing := block.length, least := least, bits := bits } (block.map UInt8.toNat)).map
        fun q => (front.length + block.length, q.bits)) := by
  induction block generalizing front bits with
  | nil =>
      rfl
  | cons b block ih =>
      have hload : C.charAt p front.length = some b := h.load_behind (i := 0) rfl
      have hnext : Holds p ((front ++ [b]) ++ block) := h.next
      have hrest := ih hnext (bits * 0x40 + (b.toNat - 0x80))
      rw [List.length_append, List.length_singleton] at hrest
      rw [List.length_cons, C.continuation, hload, some_bind, List.map_cons, takes, TS.Pending.take]
      simp only [ne_eq, next_iff]
      by_cases hb : 0x80 ≤ b.toNat ∧ b.toNat < 0xC0
      · rw [if_neg (not_not.2 hb), shift_eq bits hb, hrest, if_pos hb, Option.bind_some, Nat.add_right_comm,
          Nat.add_assoc]
        rfl
      · rw [if_pos hb, if_neg hb]
        rfl

theorem leadByte_eq_some {n count bits least : Nat} (h : C.leadByte n = some (count, bits, least)) :
    TS.lead n = some { missing := count, least := least, bits := bits } := by
  have htwo : ∀ n < 0xe0, 0xc2 ≤ n → n &&& 0x1f = n - 0xC0 := by decide +kernel
  have hthree : ∀ n < 0xf0, 0xe0 ≤ n → n &&& 0x0f = n - 0xE0 := by decide +kernel
  have hfour : ∀ n < 0xf8, 0xf0 ≤ n → n &&& 0x07 = n - 0xF0 := by decide +kernel
  rw [lead_eq_some_iff]
  rw [C.leadByte] at h
  split_ifs at h with h2 h3 h4
  · obtain ⟨rfl, rfl, rfl⟩ := by simpa only [Option.some.injEq, Prod.mk.injEq] using h
    exact .inl ⟨⟨by omega, by omega⟩, by rw [htwo n (by omega) h2.1]⟩
  · obtain ⟨rfl, rfl, rfl⟩ := by simpa only [Option.some.injEq, Prod.mk.injEq] using h
    exact .inr (.inl ⟨⟨by omega, by omega⟩, by rw [hthree n (by omega) h3.1]⟩)
  · obtain ⟨rfl, rfl, rfl⟩ := by simpa only [Option.some.injEq, Prod.mk.injEq] using h
    exact .inr (.inr ⟨⟨by omega, by omega⟩, by rw [hfour n (by omega) h4.1]⟩)

/-- The first bytes that are refused begin overlong blocks, blocks beyond Unicode or none. -/
theorem not_isUtf8_of_leadByte {a : UInt8} (ha : 0x80 ≤ a.toNat) (h : C.leadByte a.toNat = none) (s : Bytes) :
    ¬IsUtf8 (a :: s) := by
  rw [isUtf8_cons_lead_iff ha]
  rintro ⟨p, q, hlead, hmissing, htakes, hleast, hvalid, -⟩
  obtain ⟨hrange, rfl⟩ := takes_eq_some_iff.1 htakes
  have hlength : ((s.take p.missing).map UInt8.toNat).length = p.missing := by
    rw [List.length_map, List.length_take, Nat.min_eq_left hmissing]
  obtain ⟨hlow, hhigh⟩ := bits_bounds hrange p.bits
  rw [hlength] at hlow hhigh
  have hmax := hvalid
  rw [Nat.isValidChar] at hmax
  simp only at hleast hmax
  generalize ((s.take p.missing).map UInt8.toNat).foldl (fun bits n => bits * 0x40 + (n - 0x80)) p.bits = bits at *
  rw [C.leadByte] at h
  split_ifs at h with h2 h3 h4
  rcases lead_eq_some_iff.1 hlead with ⟨hn, rfl⟩ | ⟨hn, rfl⟩ | ⟨hn, rfl⟩
  · simp only at hlow hhigh hleast
    omega
  · omega
  · simp only at hlow hhigh hleast
    omega

/-- What the loop tests behind a first byte is what makes the bytes a block and more blocks. -/
theorem isUtf8_cons_leadByte_iff {a : UInt8} (ha : 0x80 ≤ a.toNat) {count bits least : Nat}
    (h : C.leadByte a.toNat = some (count, bits, least)) {s : Bytes} :
    IsUtf8 (a :: s) ↔ count ≤ s.length ∧ ∃ q,
      takes { missing := count, least := least, bits := bits } ((s.take count).map UInt8.toNat) = some q ∧
        ¬(q.bits < least ∨ q.bits > 0x10ffff ∨ (q.bits ≥ 0xd800 ∧ q.bits ≤ 0xdfff)) ∧ IsUtf8 (s.drop count) := by
  have hleast {q : TS.Pending}
      (hq : takes { missing := count, least := least, bits := bits } ((s.take count).map UInt8.toNat) = some q) :
      q.least = least := by
    obtain ⟨-, rfl⟩ := takes_eq_some_iff.1 hq
    rfl
  rw [isUtf8_cons_lead_iff ha, leadByte_eq_some h]
  constructor
  · rintro ⟨p, q, hp, hmissing, htakes, hminimum, hvalid, hrest⟩
    obtain rfl := Option.some.inj hp
    rw [hleast htakes] at hminimum
    rw [Nat.isValidChar] at hvalid
    exact ⟨hmissing, q, htakes, by omega, hrest⟩
  · rintro ⟨hmissing, q, htakes, hbits, hrest⟩
    have hminimum : q.least ≤ q.bits := by
      rw [hleast htakes]
      omega
    have hvalid : q.bits.isValidChar := by
      rw [Nat.isValidChar]
      omega
    exact ⟨_, q, rfl, hmissing, htakes, hminimum, hvalid, hrest⟩

theorem validUtf8Loop_eq {p : C.Chars} (fuel : Nat) {front s : Bytes} (h : Holds p (front ++ s)) (hfuel : s.length < fuel) :
    ∃ valid, C.validUtf8Loop p (front ++ s).length fuel front.length = some valid ∧ (valid = true ↔ IsUtf8 s) := by
  induction fuel generalizing front s with
  | zero =>
      exact absurd hfuel (Nat.not_lt_zero _)
  | succ fuel ih =>
      cases s with
      | nil =>
          refine ⟨true, ?_, iff_of_true rfl isUtf8_nil⟩
          rw [C.validUtf8Loop, List.append_nil, if_neg (Nat.lt_irrefl _)]
      | cons a s =>
          have hload : C.charAt p front.length = some a := h.load_behind (i := 0) rfl
          have hturn : front.length < (front ++ a :: s).length := by
            simp
          have hsplit : front ++ a :: s = (front ++ [a]) ++ s := by
            rw [List.append_assoc]
            rfl
          have hread : front.length + 1 = (front ++ [a]).length := by
            rw [List.length_append, List.length_singleton]
          rw [List.length_cons] at hfuel
          rw [C.validUtf8Loop, if_pos hturn, hload, some_bind]
          rw [hsplit] at h ⊢
          by_cases hascii : a.toNat < 0x80
          · rw [if_pos hascii, hread, isUtf8_cons_ascii_iff hascii]
            exact ih h (by omega)
          rw [if_neg hascii]
          have ha : 0x80 ≤ a.toNat := Nat.le_of_not_lt hascii
          cases hlead : C.leadByte a.toNat with
          | none =>
              exact ⟨false, rfl, iff_of_false Bool.false_ne_true (not_isUtf8_of_leadByte ha hlead s)⟩
          | some lead =>
              obtain ⟨count, bits, least⟩ := lead
              have hleft : ((front ++ [a]) ++ s).length - (front.length + 1) = s.length := by
                rw [hread, List.length_append, Nat.add_sub_cancel_left]
              simp only [hleft, isUtf8_cons_leadByte_iff ha hlead]
              by_cases hshort : s.length < count
              · -- a truncated block
                exact ⟨false, if_pos hshort, iff_of_false Bool.false_ne_true fun hblock => Nat.not_le.2 hshort hblock.1⟩
              rw [if_neg hshort]
              have hcount : count ≤ s.length := Nat.le_of_not_lt hshort
              have hblock : (s.take count).length = count := by
                rw [List.length_take, Nat.min_eq_left hcount]
              have hparts : (front ++ [a]) ++ s = ((front ++ [a]) ++ s.take count) ++ s.drop count := by
                rw [List.append_assoc _ (s.take count), List.take_append_drop]
              rw [hparts] at h ⊢
              have hcontinue := continuation_eq h.of_append least bits
              rw [hblock, ← hread] at hcontinue
              simp only [hcontinue, some_bind]
              cases htakes : takes { missing := count, least := least, bits := bits } ((s.take count).map UInt8.toNat) with
              | none =>
                  refine ⟨false, rfl, iff_of_false Bool.false_ne_true ?_⟩
                  rintro ⟨-, q, hq, -⟩
                  cases hq
              | some q =>
                  simp only [Option.map_some, Option.some.injEq, exists_eq_left', hcount, true_and]
                  by_cases hbits : q.bits < least ∨ q.bits > 0x10ffff ∨ (q.bits ≥ 0xd800 ∧ q.bits ≤ 0xdfff)
                  · exact ⟨false, if_pos hbits, iff_of_false Bool.false_ne_true fun hvalid => hvalid.1 hbits⟩
                  have hend : front.length + 1 + count = ((front ++ [a]) ++ s.take count).length := by
                    rw [List.length_append, hblock, ← hread]
                  have hdrop : (s.drop count).length < fuel := by
                    rw [List.length_drop]
                    omega
                  obtain ⟨valid, hrun, hvalid⟩ := ih h hdrop
                  rw [if_neg hbits, hend]
                  exact ⟨valid, hrun, hvalid.trans (and_iff_right hbits).symm⟩

/-- A whole buffer is accepted exactly where it is the UTF-8 of a text. -/
theorem validUtf8_eq {p : C.Chars} {s : Bytes} (h : Holds p s) :
    ∃ valid, C.validUtf8 p s.length = some valid ∧ (valid = true ↔ IsUtf8 s) := by
  have hholds : Holds p ([] ++ s) := h
  exact validUtf8Loop_eq (s.length + 1) hholds (Nat.lt_succ_self _)

/-! ## The decoder -/

theorem hexValue_eq (b : UInt8) : C.hexValue b = ((CodeUnit.hexValue (code b)).map Int.ofNat).getD (-1) := by
  have hall : ∀ n < 256, C.hexValue (UInt8.ofNat n) = ((CodeUnit.hexValue n).map Int.ofNat).getD (-1) := by
    decide +kernel
  have hb := hall b.toNat b.toNat_lt
  rwa [UInt8.ofNat_toNat] at hb

theorem octet_eq {v w : Nat} (hw : w < 16) : v <<< 4 ||| w = 16 * v + w := by
  rw [← Nat.shiftLeft_add_eq_or_of_lt hw, Nat.shiftLeft_eq, Nat.mul_comm]

/-- The codes of the decoder. -/
def IsDecodeError (code : ErrorCode) : Prop :=
  code = .invalidPercentEncoding ∨ code = .nulByte

/-- The loop puts the octets of `s` behind those that are written, no more of them than it reads, or it ends with an error. -/
structure Writes (run : Option (Except ErrorCode (C.Chars × Nat))) (n : Nat) (s out : Bytes) : Prop where
  octets : ∀ octets, octets? s = some octets → octets.length ≤ s.length ∧
    run = some (.ok (filled ((out ++ octets).map some) n, (out ++ octets).length))
  error : octets? s = none → ∃ code, IsDecodeError code ∧ run = some (.error code)

theorem writes_error {code : ErrorCode} (hcode : IsDecodeError code) {s : Bytes} (h : octets? s = none) (n : Nat)
    (out : Bytes) : Writes (some (.error code)) n s out where
  octets := by
    intro octets hoctets
    rw [h] at hoctets
    cases hoctets
  error := fun _ => ⟨code, hcode, rfl⟩

/-- One octet is written, and the loop goes on. -/
theorem Writes.step {run : Option (Except ErrorCode (C.Chars × Nat))} {n : Nat} {s t out : Bytes} {b : UInt8}
    (h : Writes run n t (out ++ [b])) (hs : octets? s = (octets? t).map (b :: ·)) (hlength : t.length < s.length) :
    Writes run n s out where
  octets := by
    intro octets hoctets
    rw [hs] at hoctets
    obtain ⟨rest, hrest, rfl⟩ := Option.map_eq_some_iff.1 hoctets
    obtain ⟨hle, hrun⟩ := h.octets rest hrest
    have happend : (out ++ [b]) ++ rest = out ++ b :: rest := List.append_assoc out [b] rest
    rw [happend] at hrun
    refine ⟨?_, hrun⟩
    rw [List.length_cons]
    omega
  error := by
    intro hempty
    rw [hs] at hempty
    exact h.error (Option.map_eq_none_iff.1 hempty)

/-- A turn at a percent sign: the octet that the two bytes behind it spell, read inside the input or not at all. -/
theorem percentLoop_percent {p : C.Chars} {front s : Bytes} (h : Holds p (front ++ chr '%' :: s)) (fuel : Nat)
    (result : C.Chars) (write : Nat) :
    C.percentLoop p (front ++ chr '%' :: s).length (fuel + 1) front.length result write =
      (takeOctet s).elim (C.fail .invalidPercentEncoding) fun octet =>
        if octet.1 = 0 then C.fail .nulByte else
          (liftM (store result write (UInt8.ofNat octet.1)) : C.Run C.Chars) >>= fun result =>
            C.percentLoop p (front ++ chr '%' :: s).length fuel (front.length + 3) result (write + 1) := by
  have hload : C.charAt p front.length = some (chr '%') := h.load_behind (i := 0) rfl
  have hturn : front.length < (front ++ chr '%' :: s).length := by
    simp
  rw [C.percentLoop, if_pos hturn, hload, lift_bind, if_neg (not_not_intro rfl)]
  rcases s with _ | ⟨hi, _ | ⟨lo, s⟩⟩
  · exact if_pos (by simp)
  · exact if_pos (by simp)
  -- both digits are inside, and -1 stands for one that is none
  have hhigh : C.charAt p (front.length + 1) = some hi := h.load_behind rfl
  have hlow : C.charAt p (front.length + 2) = some lo := h.load_behind rfl
  rw [if_neg (by simp), hhigh, lift_bind, hlow, lift_bind, hexValue_eq, hexValue_eq, takeOctet]
  cases hv : CodeUnit.hexValue (code hi) with
  | none =>
      rfl
  | some v =>
      cases hw : CodeUnit.hexValue (code lo) with
      | none =>
          exact if_pos (Or.inr (by decide))
      | some w =>
          have hsigns : ¬(((some v).map Int.ofNat).getD (-1) < 0 ∨ ((some w).map Int.ofNat).getD (-1) < 0) :=
            not_or.2 ⟨Int.not_lt.2 (Int.natCast_nonneg v), Int.not_lt.2 (Int.natCast_nonneg w)⟩
          have hvalue : (((some v).map Int.ofNat).getD (-1)).toNat <<< 4 |||
              (((some w).map Int.ofNat).getD (-1)).toNat = 16 * v + w := octet_eq (hexValue_lt hw)
          rw [if_neg hsigns, hvalue]
          rfl

theorem percentLoop_writes {p : C.Chars} {n : Nat} (fuel : Nat) {front s out : Bytes} (h : Holds p (front ++ s))
    (hzero : 0 ∉ s) (hfuel : s.length < fuel) (hout : out.length + s.length < n) :
    Writes (C.percentLoop p (front ++ s).length fuel front.length (filled (out.map some) n) out.length).run n s out := by
  induction fuel generalizing front s out with
  | zero =>
      exact absurd hfuel (Nat.not_lt_zero _)
  | succ fuel ih =>
      have hwrite (b : UInt8) : out.length + 1 = (out ++ [b]).length := by
        rw [List.length_append, List.length_singleton]
      cases s with
      | nil =>
          rw [C.percentLoop, List.append_nil, if_neg (Nat.lt_irrefl _)]
          refine ⟨fun octets hoctets => ?_, fun hnone => by cases hnone⟩
          obtain rfl : [] = octets := Option.some.inj hoctets
          rw [List.append_nil]
          exact ⟨Nat.le_refl _, rfl⟩
      | cons a s =>
          rw [List.mem_cons, not_or] at hzero
          rw [List.length_cons] at hfuel hout
          by_cases ha : a = chr '%'
          · subst ha
            have hoctets := octets?_percent s
            rw [percentLoop_percent h]
            cases htake : takeOctet s with
            | none =>
                rw [htake] at hoctets
                exact writes_error (.inl rfl) hoctets n out
            | some octet =>
                rw [htake, Option.bind_some] at hoctets
                rw [Option.elim_some]
                by_cases hnul : octet.1 = 0
                · rw [if_pos hnul] at hoctets ⊢
                  exact writes_error (.inr rfl) hoctets n out
                rw [if_neg hnul] at hoctets ⊢
                -- the two digits and what follows them
                obtain ⟨hi, lo, -, -, hs, -⟩ := takeOctet_eq_some_iff.1 htake
                have hsplit : front ++ chr '%' :: s = (front ++ [chr '%', hi, lo]) ++ octet.2 := by
                  rw [hs, List.append_assoc]
                  rfl
                have hread : front.length + 3 = (front ++ [chr '%', hi, lo]).length := by
                  rw [List.length_append]
                  rfl
                have hlength := length_lt_of_takeOctet htake
                have hrest : 0 ∉ octet.2 := by
                  rw [hs, List.mem_cons, List.mem_cons, not_or, not_or] at hzero
                  exact hzero.2.2.2
                rw [store_more rfl (by omega), lift_bind, hread, hwrite, hsplit]
                rw [hsplit] at h
                refine (ih h hrest (by omega) ?_).step hoctets ?_
                · rw [← hwrite]
                  omega
                · rw [List.length_cons]
                  omega
          · have hload : C.charAt p front.length = some a := h.load_behind (i := 0) rfl
            have hturn : front.length < (front ++ a :: s).length := by
              simp
            have hsplit : front ++ a :: s = (front ++ [a]) ++ s := by
              rw [List.append_assoc]
              rfl
            have hread : front.length + 1 = (front ++ [a]).length := by
              rw [List.length_append, List.length_singleton]
            rw [C.percentLoop, if_pos hturn, hload, lift_bind, if_pos ha, store_more rfl (by omega), lift_bind, hread,
              hwrite, hsplit]
            rw [hsplit] at h
            refine (ih h hzero.2 (by omega) ?_).step (octets?_cons_of_ne ha (Ne.symm hzero.1) s) (Nat.lt_succ_self _)
            rw [← hwrite]
            omega

/-- Both functions stay in their buffers, with nothing behind the bytes or anything: one accepts the UTF-8 of texts alone,
the other returns the octets of its input. -/
theorem decode_safe (bytes value : Bytes) (behind : C.Chars) :
    (∃ valid, C.validUtf8 (bytes.map some ++ behind) bytes.length = some valid ∧
      (valid = true ↔ ∃ text, bytes = utf8.encode text)) ∧
    (0 ∉ value → ∃ result, (C.percentDecode (value.map some ++ behind) value.length).run = some result ∧
      (∀ out, result = .ok out ↔ ∃ ps octets, CodeUnit.pieces value = some ps ∧ octets = ps.map pieceByte ∧ 0 ∉ octets ∧
        (∃ text, octets = utf8.encode text) ∧ octets.length ≤ value.length ∧
          out = { data := filled (literal octets) (value.length + 1), len := octets.length }) ∧
      (∀ code, result = .error code → code = .invalidPercentEncoding ∨ code = .nulByte)) := by
  refine ⟨validUtf8_eq ⟨behind, rfl⟩, fun hzero => ?_⟩
  have hholds : Holds (value.map some ++ behind) ([] ++ value) := ⟨behind, rfl⟩
  have hroom : ([] : Bytes).length + value.length < value.length + 1 := by
    rw [List.length_nil]
    omega
  have hnew : filled (([] : Bytes).map some) (value.length + 1) = malloc (value.length + 1) := rfl
  have hwrites := percentLoop_writes (value.length + 1) hholds hzero (Nat.lt_succ_self _) hroom
  rw [hnew, List.nil_append, List.length_nil] at hwrites
  cases hoctets : octets? value with
  | none =>
      obtain ⟨code, hcode, hrun⟩ := hwrites.error hoctets
      refine ⟨.error code, ?_, fun out => iff_of_false (fun h => by cases h) ?_, ?_⟩
      · rw [C.percentDecode, ExceptT.run_bind, hrun]
        rfl
      · rintro ⟨ps, octets, hps, hvalue, hnonzero, -⟩
        rw [octets?_eq_some_iff.2 ⟨ps, hps, hvalue, hnonzero⟩] at hoctets
        cases hoctets
      · intro code' hcode'
        rw [← Except.error.inj hcode']
        exact hcode
  | some octets =>
      obtain ⟨hle, hrun⟩ := hwrites.octets octets hoctets
      obtain ⟨ps, hps, hvalue, hnonzero⟩ := octets?_eq_some_iff.1 hoctets
      rw [List.nil_append] at hrun
      have hstore : store (filled (octets.map some) (value.length + 1)) octets.length 0 =
          some (filled (literal octets) (value.length + 1)) := by
        rw [literal_eq]
        exact store_more rfl (Nat.lt_succ_of_le hle)
      obtain ⟨valid, hvalid, hiff⟩ := validUtf8_eq (filled_literal_spells hnonzero (value.length + 1)).holds.of_append
      have hdecode : (C.percentDecode (value.map some ++ behind) value.length).run = some (if valid then
          .ok { data := filled (literal octets) (value.length + 1), len := octets.length }
        else .error .invalidPercentEncoding) := by
        rw [C.percentDecode, ExceptT.run_bind, hrun]
        simp only [some_bind]
        rw [hstore, lift_bind, hvalid, lift_bind]
        cases valid <;> rfl
      refine ⟨_, hdecode, fun out => ?_, fun code hcode => ?_⟩
      · constructor
        · intro hout
          cases valid with
          | false =>
              cases hout
          | true =>
              exact ⟨ps, octets, hps, hvalue, hnonzero, hiff.1 rfl, hle, (Except.ok.inj hout).symm⟩
        · rintro ⟨ps', octets', hps', hvalue', hnonzero', htext, -, rfl⟩
          obtain rfl : octets = octets' := by
            rw [hps, Option.some.injEq] at hps'
            rw [hvalue, hvalue', hps']
          rw [if_pos (hiff.2 htext)]
      · cases valid with
        | false =>
            exact .inl (Except.error.inj hcode).symm
        | true =>
            cases hcode

/-- The escape of a letter with an accent is decoded to its two bytes. -/
theorem decode_safe_accent : (C.percentDecode ((lit "a%C3%A9" : Bytes).map some ++ []) 7).run =
    some (.ok { data := filled (literal [0x61, 0xC3, 0xA9]) 8, len := 3 }) := by
  obtain ⟨result, hrun, hok, -⟩ := (decode_safe [] (lit "a%C3%A9") []).2 (by decide)
  have htext : ([0x61, 0xC3, 0xA9] : Bytes) = utf8.encode ['a', 'é'] := by
    decide
  refine hrun.trans (congrArg some ((hok _).2 ?_))
  exact ⟨[.unit 0x61, .octet 0xC3, .octet 0xA9], _, by decide, rfl, by decide, ⟨_, htext⟩, by decide, rfl⟩

end C

end Ports

end CanonicalPath
