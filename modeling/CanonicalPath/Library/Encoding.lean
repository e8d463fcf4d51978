import Mathlib.Data.List.DropRight
import CanonicalPath.Library.CodeUnit
import CanonicalPath.Library.Segments

/-!
# Encoding — transporting ASCII-delimited text between code units

An `Encoding` spells every unit of one text type by a nonempty block of units of another; ASCII
units become single units, everything else stays outside ASCII, and no block begins another one.
UTF-8 and UTF-16 are the two instances over the scalar values.

Every operation that looks for ASCII units only (prefix tests, splits on an ASCII separator, bounded
splits, joins, replacement of one ASCII character by another, ASCII case) commutes with `encode`.
-/

namespace CodeUnit

open Segments

/-- An ASCII-compatible spelling of the units of `α` by blocks of units of `β`. -/
structure Encoding (α β : Type) [CodeUnit α] [CodeUnit β] where
  enc : α → List β
  enc_ascii : ∀ a, code a < 128 → enc a = [ofCode (code a)]
  enc_ne_nil : ∀ a, enc a ≠ []
  enc_nonAscii : ∀ a, 128 ≤ code a → ∀ b ∈ enc a, 128 ≤ code b
  enc_prefix : ∀ a b, enc a <+: enc b → a = b

/-! ## UTF-8 and UTF-16 -/

/-- The UTF-16 units of a scalar value: one unit, or a surrogate pair above the basic plane. -/
def utf16EncodeChar (c : Char) : List UInt16 :=
  if c.toNat < 0x10000 then
    [UInt16.ofNat c.toNat]
  else
    [UInt16.ofNat (0xD800 + (c.toNat - 0x10000) / 0x400),
      UInt16.ofNat (0xDC00 + (c.toNat - 0x10000) % 0x400)]

theorem code_uint8_ofNat {n : Nat} (h : n < 256) : code (UInt8.ofNat n) = n := by
  have hsize : n < UInt8.size := by
    simpa [UInt8.size] using h
  exact UInt8.toNat_ofNat_of_lt hsize

theorem code_uint16_ofNat {n : Nat} (h : n < 0x10000) : code (UInt16.ofNat n) = n := by
  have hsize : n < UInt16.size := by
    simpa [UInt16.size] using h
  exact UInt16.toNat_ofNat_of_lt hsize

theorem char_toNat_lt (c : Char) : c.toNat < 0x110000 := by
  have hvalid : c.toNat < 0xd800 ∨ 0xdfff < c.toNat ∧ c.toNat < 0x110000 := c.valid
  omega

theorem utf8EncodeChar_nonAscii (c : Char) (h : 128 ≤ c.toNat) :
    ∀ b ∈ String.utf8EncodeChar c, 128 ≤ code b := by
  have hmax := char_toNat_lt c
  have hcontinuation (n : Nat) : 128 ≤ code (UInt8.ofNat (n % 64 + 128)) := by
    rw [code_uint8_ofNat (by omega)]
    omega
  change ∀ b ∈ String.utf8EncodeChar c, _
  simp only [String.utf8EncodeChar, show c.val.toNat = c.toNat from rfl]
  -- one, two, three or four bytes; the single byte is the ASCII case
  split_ifs with h1 h2 h3
  · omega
  · simp only [List.forall_mem_cons, List.not_mem_nil, false_implies, implies_true, and_true]
    refine ⟨?_, hcontinuation _⟩
    rw [code_uint8_ofNat (by omega)]
    omega
  · simp only [List.forall_mem_cons, List.not_mem_nil, false_implies, implies_true, and_true]
    refine ⟨?_, hcontinuation _, hcontinuation _⟩
    rw [code_uint8_ofNat (by omega)]
    omega
  · simp only [List.forall_mem_cons, List.not_mem_nil, false_implies, implies_true, and_true]
    refine ⟨?_, hcontinuation _, hcontinuation _, hcontinuation _⟩
    rw [code_uint8_ofNat (by omega)]
    omega

theorem utf8EncodeChar_prefix {c d : Char}
    (h : String.utf8EncodeChar c <+: String.utf8EncodeChar d) : c = d := by
  rcases h with ⟨tail, htail⟩
  -- a decoder reads the first character and ignores what follows it
  have hc := ByteArray.utf8DecodeChar?_utf8EncodeChar_append (b := tail.toByteArray) (c := c)
  have hd := ByteArray.utf8DecodeChar?_utf8EncodeChar_append (b := ByteArray.empty) (c := d)
  rw [← List.toByteArray_append, htail] at hc
  rw [ByteArray.append_empty] at hd
  exact Option.some.inj (hc.symm.trans hd)

theorem utf16EncodeChar_prefix {c d : Char} (h : utf16EncodeChar c <+: utf16EncodeChar d) :
    c = d := by
  have hvalid (c : Char) : c.toNat < 0xd800 ∨ 0xdfff < c.toNat ∧ c.toNat < 0x110000 := c.valid
  have hc := hvalid c
  have hd := hvalid d
  have hinj {m n : Nat} (hm : m < 0x10000) (hn : n < 0x10000)
      (hmn : UInt16.ofNat m = UInt16.ofNat n) : m = n := by
    have hcode := congrArg code hmn
    rwa [code_uint16_ofNat hm, code_uint16_ofNat hn] at hcode
  rw [utf16EncodeChar, utf16EncodeChar] at h
  apply Char.toNat_inj.1
  split_ifs at h with hcb hdb hdb
  · exact hinj hcb hdb (by simpa using h)
  · -- a unit of the basic plane is no high surrogate
    have heq := hinj hcb (by omega) (List.cons_prefix_cons.1 h).1
    omega
  · -- a surrogate pair does not fit into one unit
    exact absurd h.length_le (by simp)
  · rcases List.cons_prefix_cons.1 h with ⟨hhigh, hrest⟩
    have hhigh' := hinj (by omega) (by omega) hhigh
    have hlow' := hinj (by omega) (by omega) (List.cons_prefix_cons.1 hrest).1
    omega

/-- UTF-8. -/
def utf8 : Encoding Char UInt8 where
  enc := String.utf8EncodeChar
  enc_ascii := fun c h => by
    have hval : c.val.toNat ≤ 127 := Nat.le_of_lt_succ h
    simp only [String.utf8EncodeChar, if_pos hval]
    rfl
  enc_ne_nil := fun _ => String.utf8EncodeChar_ne_nil
  enc_nonAscii := utf8EncodeChar_nonAscii
  enc_prefix := fun _ _ => utf8EncodeChar_prefix

/-- UTF-16. -/
def utf16 : Encoding Char UInt16 where
  enc := utf16EncodeChar
  enc_ascii := fun c h => by
    have hbmp : c.toNat < 0x10000 := Nat.lt_trans h (by decide)
    rw [utf16EncodeChar, if_pos hbmp]
    rfl
  enc_ne_nil := fun c => by
    rw [utf16EncodeChar]
    split <;> simp
  enc_nonAscii := fun c h => by
    have hmax := char_toNat_lt c
    have hcode : 128 ≤ c.toNat := h
    rw [utf16EncodeChar]
    split_ifs with hbmp
    · simp only [List.forall_mem_cons, List.not_mem_nil, false_implies, implies_true, and_true]
      rw [code_uint16_ofNat hbmp]
      exact hcode
    · simp only [List.forall_mem_cons, List.not_mem_nil, false_implies, implies_true, and_true]
      rw [code_uint16_ofNat (by omega), code_uint16_ofNat (by omega)]
      omega
  enc_prefix := fun _ _ => utf16EncodeChar_prefix

theorem Pattern.literal_ascii {p : String} (hp : IsAscii p) :
    (Pattern.literal p).Ascii := by
  intro test htest n hn
  rcases List.mem_map.1 htest with ⟨c, hc, rfl⟩
  have hascii := hp c hc
  rw [Pattern.char, beq_eq_false_iff_ne]
  omega

namespace Encoding

variable {α β : Type} [CodeUnit α] [CodeUnit β] (e : Encoding α β)
variable {a : α} {c d : Char} {s t : List α} {ls : List (List α)}

/-- Spell a text unit by unit. -/
def encode (s : List α) : List β :=
  s.flatMap e.enc

@[simp] theorem encode_nil : e.encode [] = [] := rfl

@[simp] theorem encode_cons : e.encode (a :: s) = e.enc a ++ e.encode s := rfl

@[simp] theorem encode_append : e.encode (s ++ t) = e.encode s ++ e.encode t := by
  simp [encode]

theorem enc_chr (hc : c.toNat < 128) : e.enc (chr c) = [chr c] := by
  rw [e.enc_ascii _ (by rwa [code_chr hc]), code_chr hc]
  rfl

theorem encode_chr_cons (hc : c.toNat < 128) : e.encode (chr c :: s) = chr c :: e.encode s := by
  simp [enc_chr e hc]

@[simp] theorem encode_eq_nil_iff : e.encode s = [] ↔ s = [] := by
  cases s with
  | nil =>
      simp
  | cons a s =>
      simp [e.enc_ne_nil a]

/-- No block begins another one, so a spelling begins another one only where the text does. -/
theorem encode_prefix_iff : e.encode s <+: e.encode t ↔ s <+: t := by
  refine ⟨fun h => ?_, fun ⟨u, hu⟩ => ⟨e.encode u, by rw [← hu, encode_append]⟩⟩
  induction s generalizing t with
  | nil =>
      exact List.nil_prefix
  | cons a s ih =>
      cases t with
      | nil =>
          exact absurd (List.prefix_nil.1 h) (by simp [e.enc_ne_nil a])
      | cons b t =>
          rw [encode_cons, encode_cons] at h
          -- two blocks that begin one text: one of them begins the other
          have hblocks := List.prefix_or_prefix_of_prefix ((List.prefix_append _ _).trans h)
            (List.prefix_append (e.enc b) (e.encode t))
          have hab : a = b := hblocks.elim (e.enc_prefix a b) fun hba => (e.enc_prefix b a hba).symm
          subst hab
          exact List.cons_prefix_cons.2 ⟨rfl, ih ((List.prefix_append_right_inj _).1 h)⟩

theorem encode_injective : Function.Injective e.encode := by
  intro s t h
  have hst : s <+: t := e.encode_prefix_iff.1 (h ▸ List.prefix_rfl)
  have hts : t <+: s := e.encode_prefix_iff.1 (h ▸ List.prefix_rfl)
  exact hst.eq_of_length (Nat.le_antisymm hst.length_le hts.length_le)

/-! ## Membership of an ASCII unit -/

theorem chr_mem_enc_iff (hc : c.toNat < 128) : chr c ∈ e.enc a ↔ a = chr c := by
  constructor
  · intro h
    by_cases ha : code a < 128
    · rw [e.enc_ascii a ha, List.mem_singleton, eq_comm, eq_chr_iff hc, code_ofCode _ ha] at h
      exact (eq_chr_iff hc).2 h
    · have hcode := e.enc_nonAscii a (by omega) _ h
      rw [code_chr hc] at hcode
      omega
  · rintro rfl
    simp [enc_chr e hc]

theorem chr_mem_encode_iff (hc : c.toNat < 128) : chr c ∈ e.encode s ↔ chr c ∈ s := by
  simp only [encode, List.mem_flatMap, chr_mem_enc_iff e hc]
  constructor
  · rintro ⟨a, ha, rfl⟩
    exact ha
  · intro h
    exact ⟨chr c, h, rfl⟩

/-- A spelling ends with an ASCII unit only where the text does. -/
theorem exists_encode_concat_iff (hc : c.toNat < 128) :
    (∃ front, e.encode (s ++ [a]) = front ++ [chr c]) ↔ a = chr c := by
  constructor
  · rintro ⟨front, h⟩
    have hlast := congrArg List.getLast? h
    rw [List.getLast?_concat, encode_append, List.getLast?_append_of_ne_nil _ (by simp [e.enc_ne_nil a])]
      at hlast
    have hmem := List.mem_of_getLast? hlast
    rw [chr_mem_encode_iff e hc, List.mem_singleton] at hmem
    exact hmem.symm
  · rintro rfl
    exact ⟨e.encode s, by simp [enc_chr e hc]⟩

/-! ## Literals -/

/-- ASCII text is spelled unit by unit. -/
theorem encode_of_ascii (h : ∀ a ∈ s, code a < 128) : e.encode s = s.map fun a => ofCode (code a) := by
  induction s with
  | nil =>
      rfl
  | cons a s ih =>
      obtain ⟨ha, hs⟩ := List.forall_mem_cons.1 h
      rw [encode_cons, e.enc_ascii a ha, ih hs, List.map_cons, List.singleton_append]

theorem length_encode_of_ascii (h : ∀ a ∈ s, code a < 128) : (e.encode s).length = s.length := by
  rw [e.encode_of_ascii h, List.length_map]

theorem take_encode_of_ascii (h : ∀ a ∈ s, code a < 128) (n : Nat) : (e.encode s).take n = e.encode (s.take n) := by
  have htake : ∀ a ∈ s.take n, code a < 128 := fun a ha => h a (List.mem_of_mem_take ha)
  rw [e.encode_of_ascii h, e.encode_of_ascii htake, List.map_take]

theorem encode_lit {p : String} (hp : IsAscii p) :
    e.encode (lit p) = lit p := by
  rw [lit, lit]
  rw [IsAscii] at hp
  generalize p.toList = cs at hp
  induction cs with
  | nil =>
      rfl
  | cons c cs ih =>
      have hc : c.toNat < 128 := hp c (by simp)
      rw [List.map_cons, List.map_cons, encode_chr_cons e hc, ih fun d hd => hp d (by simp [hd])]

theorem encode_eq_lit_iff {p : String} (hp : IsAscii p) :
    e.encode s = lit p ↔ s = lit p := by
  refine ⟨fun h => ?_, fun h => by rw [h, encode_lit e hp]⟩
  rw [lit] at h ⊢
  rw [IsAscii] at hp
  generalize p.toList = cs at hp h
  induction cs generalizing s with
  | nil =>
      simpa using h
  | cons c cs ih =>
      have hc : c.toNat < 128 := hp c (by simp)
      cases s with
      | nil =>
          simp at h
      | cons a s =>
          -- the first block holds an ASCII unit, so it is that unit alone
          have ha : chr c ∈ e.enc a := by
            cases henc : e.enc a with
            | nil =>
                exact absurd henc (e.enc_ne_nil a)
            | cons b bs =>
                rw [encode_cons, henc, List.map_cons, List.cons_append, List.cons.injEq] at h
                simp [h.1]
          rw [(chr_mem_enc_iff e hc).1 ha, encode_chr_cons e hc, List.map_cons, List.cons.injEq] at h
          rw [(chr_mem_enc_iff e hc).1 ha, List.map_cons,
            ih (fun d hd => hp d (by simp [hd])) h.2]

/-! ## Patterns -/

/-- The first unit of a block passes an ASCII-only test exactly when the spelled unit does. -/
theorem test_code_enc {test : Nat → Bool} (htest : ∀ n, 128 ≤ n → test n = false) {b : β}
    {bs : List β} (h : e.enc a = b :: bs) :
    test (code b) = test (code a) ∧ (test (code a) = true → bs = []) := by
  by_cases ha : code a < 128
  · rw [e.enc_ascii a ha, List.cons.injEq] at h
    rw [← h.1, code_ofCode _ ha]
    exact ⟨rfl, fun _ => h.2.symm⟩
  · have hb : 128 ≤ code b := e.enc_nonAscii a (by omega) b (by simp [h])
    rw [htest _ hb, htest _ (by omega)]
    simp

/-- An ASCII-only test holds throughout a spelling exactly when it holds throughout the text. -/
theorem all_encode {test : Nat → Bool} (htest : ∀ n, 128 ≤ n → test n = false) :
    (e.encode s).all (fun b => test (code b)) = s.all fun a => test (code a) := by
  induction s with
  | nil =>
      rfl
  | cons a s ih =>
      cases henc : e.enc a with
      | nil =>
          exact absurd henc (e.enc_ne_nil a)
      | cons b bs =>
          rcases test_code_enc e htest henc with ⟨hcode, hbs⟩
          rw [encode_cons, List.all_append, ih, henc, List.all_cons, List.all_cons, hcode]
          cases hpass : test (code a) with
          | false =>
              rfl
          | true =>
              simp [hbs hpass]

theorem matches?_encode {p : Pattern} (hp : p.Ascii) :
    matches? p (e.encode s) = matches? p s := by
  induction p generalizing s with
  | nil =>
      simp
  | cons test p ih =>
      have htail : Pattern.Ascii p := fun q hq => hp q (by simp [hq])
      cases s with
      | nil =>
          simp
      | cons a s =>
          cases henc : e.enc a with
          | nil =>
              exact absurd henc (e.enc_ne_nil a)
          | cons b bs =>
              rcases test_code_enc e (hp test (by simp)) henc with ⟨htest, hbs⟩
              rw [encode_cons, henc, List.cons_append, matches?_cons_cons, matches?_cons_cons, htest]
              cases hpass : test (code a) with
              | false =>
                  simp
              | true =>
                  simp [hbs hpass, ih htail]

/-- An ASCII-only pattern occurs in a spelling where it occurs in the text. -/
theorem occurs?_encode {p : Pattern} (hp : p.Ascii) (hne : p ≠ []) : occurs? p (e.encode s) = occurs? p s := by
  obtain ⟨test, p', rfl⟩ := List.exists_cons_of_ne_nil hne
  have htest : ∀ n, 128 ≤ n → test n = false := hp test (by simp)
  -- no match begins at a unit of a character beyond ASCII
  have hskip {bs : List β} (hbs : ∀ b ∈ bs, 128 ≤ code b) (rest : List β) :
      occurs? (test :: p') (bs ++ rest) = occurs? (test :: p') rest := by
    induction bs with
    | nil =>
        rfl
    | cons b bs ih =>
        rw [List.cons_append, occurs?, matches?_cons_cons, htest _ (hbs b (by simp)), Bool.false_and, Bool.false_or,
          ih fun b hb => hbs b (by simp [hb])]
  induction s with
  | nil =>
      rfl
  | cons a s ih =>
      by_cases ha : code a < 128
      · have hmatch := e.matches?_encode (s := a :: s) hp
        rw [encode_cons, e.enc_ascii a ha, List.singleton_append] at hmatch ⊢
        rw [occurs?, hmatch, ih, occurs?]
      · have hnone : matches? (test :: p') (a :: s) = false := by
          rw [matches?_cons_cons, htest _ (by omega), Bool.false_and]
        rw [encode_cons, hskip (e.enc_nonAscii a (by omega)), ih, occurs?, hnone, Bool.false_or]

/-- The units an ASCII-only pattern matches are spelled one by one. -/
theorem length_encode_take_of_matches? {p : Pattern} (hp : p.Ascii) (h : matches? p s = true) :
    (e.encode (s.take p.length)).length = p.length := by
  induction p generalizing s with
  | nil =>
      simp
  | cons test p ih =>
      have htail : Pattern.Ascii p := fun q hq => hp q (by simp [hq])
      cases s with
      | nil =>
          simp at h
      | cons a s =>
          rw [matches?_cons_cons, Bool.and_eq_true] at h
          cases henc : e.enc a with
          | nil =>
              exact absurd henc (e.enc_ne_nil a)
          | cons b bs =>
              -- a unit that passes an ASCII-only test is spelled by one unit
              have hbs := (test_code_enc e (hp test (by simp)) henc).2 h.1
              have hrest := ih htail h.2
              simp [henc, hbs, hrest]

theorem encode_drop_of_matches? {p : Pattern} (hp : p.Ascii) (h : matches? p s = true) :
    (e.encode s).drop p.length = e.encode (s.drop p.length) := by
  have hlength := e.length_encode_take_of_matches? hp h
  calc
    (e.encode s).drop p.length
        = (e.encode (s.take p.length) ++ e.encode (s.drop p.length)).drop p.length := by
          rw [← encode_append, List.take_append_drop]
    _ = e.encode (s.drop p.length) := List.drop_left' hlength

theorem encode_take_of_matches? {p : Pattern} (hp : p.Ascii) (h : matches? p s = true) :
    (e.encode s).take p.length = e.encode (s.take p.length) := by
  have hlength := e.length_encode_take_of_matches? hp h
  calc
    (e.encode s).take p.length
        = (e.encode (s.take p.length) ++ e.encode (s.drop p.length)).take p.length := by
          rw [← encode_append, List.take_append_drop]
    _ = e.encode (s.take p.length) := List.take_left' hlength

/-! ## Unit-wise maps -/

theorem encode_map {f : α → α} {g : β → β} (h : ∀ a, e.enc (f a) = (e.enc a).map g) :
    e.encode (s.map f) = (e.encode s).map g := by
  induction s with
  | nil =>
      rfl
  | cons a s ih =>
      simp [h, ih]

/-- A map of the codes that stays within ASCII and moves nothing beyond it. -/
theorem enc_map {f : α → α} {g : β → β} {h : Nat → Nat} (hf : ∀ a, code (f a) = h (code a))
    (hg : ∀ b, code (g b) = h (code b)) (hascii : ∀ n, n < 128 → h n < 128)
    (hfix : ∀ n, 128 ≤ n → h n = n) (a : α) : e.enc (f a) = (e.enc a).map g := by
  by_cases ha : code a < 128
  · have hmoved : code (f a) < 128 := by
      rw [hf]
      exact hascii _ ha
    have hsame : g (ofCode (code a) : β) = ofCode (code (f a)) := by
      apply code_injective
      rw [hg, code_ofCode _ ha, code_ofCode _ hmoved, hf]
    rw [e.enc_ascii _ hmoved, e.enc_ascii _ ha, List.map_singleton, hsame]
  · have hblock : ∀ b ∈ e.enc a, g b = b := by
      intro b hb
      apply code_injective
      rw [hg, hfix _ (e.enc_nonAscii a (by omega) b hb)]
    have hfa : f a = a := by
      apply code_injective
      rw [hf, hfix _ (by omega)]
    rw [hfa, List.map_congr_left hblock, List.map_id']

theorem enc_upper (a : α) : e.enc (upper a) = (e.enc a).map upper := by
  refine e.enc_map (h := fun n => if 97 ≤ n ∧ n ≤ 122 then n - 32 else n) (fun _ => code_upper)
    (fun _ => code_upper) ?_ ?_ a
  · intro n hn
    split_ifs <;> omega
  · intro n hn
    split_ifs <;> omega

theorem enc_lower (a : α) : e.enc (lower a) = (e.enc a).map lower := by
  refine e.enc_map (h := fun n => if 65 ≤ n ∧ n ≤ 90 then n + 32 else n) (fun _ => code_lower)
    (fun _ => code_lower) ?_ ?_ a
  · intro n hn
    split_ifs <;> omega
  · intro n hn
    split_ifs <;> omega

theorem encode_map_upper : e.encode (s.map upper) = (e.encode s).map upper :=
  e.encode_map e.enc_upper

theorem encode_map_lower : e.encode (s.map lower) = (e.encode s).map lower :=
  e.encode_map e.enc_lower

/-- The longest front without an ASCII stop unit. -/
theorem encode_takeWhile {stop : Nat → Bool} (hstop : ∀ n, 128 ≤ n → stop n = false) :
    (e.encode s).takeWhile (fun b => !stop (code b)) =
      e.encode (s.takeWhile fun a => !stop (code a)) := by
  induction s with
  | nil =>
      rfl
  | cons a s ih =>
      by_cases ha : code a < 128
      · have hcode : code (ofCode (code a) : β) = code a := code_ofCode _ ha
        rw [encode_cons, e.enc_ascii a ha, List.singleton_append, List.takeWhile_cons,
          List.takeWhile_cons, hcode, ih]
        cases stop (code a) with
        | false =>
            simp [e.enc_ascii a ha]
        | true =>
            rfl
      · -- a block beyond ASCII passes as a whole, as its unit does
        have hpass : ∀ b ∈ e.enc a, (!stop (code b)) = true := by
          intro b hb
          rw [hstop _ (e.enc_nonAscii a (by omega) b hb), Bool.not_false]
        have hhead : (!stop (code a)) = true := by
          rw [hstop _ (by omega), Bool.not_false]
        have hkeep : (a :: s).takeWhile (fun a => !stop (code a)) =
            a :: s.takeWhile fun a => !stop (code a) :=
          List.takeWhile_cons_of_pos hhead
        rw [encode_cons, List.takeWhile_append_of_pos hpass, ih, hkeep, encode_cons]

/-- ASCII units that are dropped from the front. -/
theorem encode_dropWhile {test : Nat → Bool} (htest : ∀ n, 128 ≤ n → test n = false) :
    (e.encode s).dropWhile (fun b => test (code b)) = e.encode (s.dropWhile fun a => test (code a)) := by
  induction s with
  | nil =>
      rfl
  | cons a s ih =>
      cases henc : e.enc a with
      | nil =>
          exact absurd henc (e.enc_ne_nil a)
      | cons b bs =>
          obtain ⟨hcode, hbs⟩ := e.test_code_enc htest henc
          rw [encode_cons, henc, List.cons_append, List.dropWhile_cons, List.dropWhile_cons, hcode]
          cases hpass : test (code a) with
          | false =>
              simp [henc]
          | true =>
              rw [if_pos rfl, if_pos rfl, hbs hpass, List.nil_append, ih]

/-- ASCII units that are dropped from the end. -/
theorem encode_rdropWhile {test : Nat → Bool} (htest : ∀ n, 128 ≤ n → test n = false) :
    (e.encode s).rdropWhile (fun b => test (code b)) = e.encode (s.rdropWhile fun a => test (code a)) := by
  induction s using List.reverseRecOn with
  | nil =>
      rfl
  | append_singleton s a ih =>
      have hlast : e.encode (s ++ [a]) = e.encode s ++ e.enc a := by
        simp
      rw [hlast]
      cases hpass : test (code a) with
      | true =>
          have ha : code a < 128 := by
            by_contra hlarge
            rw [htest _ (Nat.le_of_not_lt hlarge)] at hpass
            cases hpass
          have hunit : test (code (ofCode (code a) : β)) = true := by
            rw [code_ofCode _ ha, hpass]
          rw [e.enc_ascii a ha, List.rdropWhile_concat_pos (fun b => test (code b)) _ _ hunit, ih,
            List.rdropWhile_concat_pos (fun a => test (code a)) _ _ hpass]
      | false =>
          -- the last unit of a block that stays, stays
          obtain ⟨bs, b, hblock⟩ := List.eq_nil_or_concat' (e.enc a) |>.resolve_left (e.enc_ne_nil a)
          have hb : ¬test (code b) = true := by
            by_cases ha : code a < 128
            · have hsingle := (e.enc_ascii a ha).symm.trans hblock
              have hunit := congrArg List.getLast? hsingle
              rw [List.getLast?_concat, List.getLast?_singleton, Option.some.injEq] at hunit
              rw [← hunit, code_ofCode _ ha, hpass]
              exact Bool.false_ne_true
            · rw [htest _ (e.enc_nonAscii a (Nat.le_of_not_lt ha) b (by simp [hblock]))]
              exact Bool.false_ne_true
          rw [hblock, ← List.append_assoc, List.rdropWhile_concat_neg (fun b => test (code b)) _ _ hb,
            List.append_assoc, ← hblock, ← hlast,
            List.rdropWhile_concat_neg (fun a => test (code a)) _ _ (by rw [hpass]; exact Bool.false_ne_true)]

/-- A letter is spelled by one unit, which has the same case. -/
theorem exists_enc_letter (ha : isLetter a = true) :
    ∃ b, e.enc a = [b] ∧ isLetter b = true ∧ e.enc (lower a) = [lower b] := by
  have hcode := code_lt_of_isLetter ha
  have henc := e.enc_ascii a hcode
  refine ⟨ofCode (code a), henc, ?_, ?_⟩
  · rwa [isLetter, code_ofCode _ hcode]
  · rw [enc_lower e a, henc, List.map_singleton]

/-! ## Splits, joins and replacement -/

theorem encode_joinOn (hc : c.toNat < 128) :
    e.encode (joinOn (chr c) ls) = joinOn (chr c) (ls.map e.encode) := by
  induction ls with
  | nil =>
      simp [joinOn]
  | cons l ls ih =>
      by_cases hnil : ls = []
      · simp [joinOn, hnil]
      · have hmap : ls.map e.encode ≠ [] := by
          simpa using hnil
        rw [List.map_cons, joinOn_cons_of_ne_nil hnil, joinOn_cons_of_ne_nil hmap, encode_append,
          encode_chr_cons e hc, ih]

section Delimited

variable [DecidableEq α] [DecidableEq β]

theorem encode_splitOn (hc : c.toNat < 128) :
    (e.encode s).splitOn (chr c) = (s.splitOn (chr c)).map e.encode := by
  have hmem : ∀ l ∈ (s.splitOn (chr c)).map e.encode, chr c ∉ l := by
    intro l hl
    rcases List.mem_map.1 hl with ⟨l', hl', rfl⟩
    rw [chr_mem_encode_iff e hc]
    exact not_mem_of_mem_splitOn hl'
  have hne : (s.splitOn (chr c)).map e.encode ≠ [] := by
    simp
  -- both sides split the same join
  calc
    (e.encode s).splitOn (chr c)
        = (e.encode (joinOn (chr c) (s.splitOn (chr c)))).splitOn (chr c) := by
          simp [joinOn]
    _ = (joinOn (chr c) ((s.splitOn (chr c)).map e.encode)).splitOn (chr c) := by
          rw [encode_joinOn e hc]
    _ = (s.splitOn (chr c)).map e.encode := splitOn_joinOn hmem hne

theorem encode_splitN (hc : c.toNat < 128) (n : Nat) :
    splitN (chr c) n (e.encode s) = (splitN (chr c) n s).map e.encode := by
  induction n generalizing s with
  | zero =>
      rfl
  | succ n ih =>
      cases n with
      | zero =>
          rfl
      | succ n =>
          cases hcut : cut (chr c) s with
          | none =>
              have hs : chr c ∉ s := cut_eq_none_iff.1 hcut
              have hs' : chr c ∉ e.encode s := by
                rwa [chr_mem_encode_iff e hc]
              rw [splitN_of_not_mem _ hs, splitN_of_not_mem _ hs']
              rfl
          | some halves =>
              rcases halves with ⟨t, u⟩
              rcases cut_eq_some_iff.1 hcut with ⟨rfl, ht⟩
              have ht' : chr c ∉ e.encode t := by
                rwa [chr_mem_encode_iff e hc]
              rw [encode_append, encode_chr_cons e hc, splitN_append_cons _ ht,
                splitN_append_cons _ ht', ih]
              rfl

theorem encode_replaceAll (hc : c.toNat < 128) (hd : d.toNat < 128) :
    e.encode (replaceAll c d s) = replaceAll c d (e.encode s) := by
  refine e.encode_map fun a => ?_
  by_cases ha : a = chr c
  · subst ha
    simp [enc_chr e hc, enc_chr e hd]
  · have hblock : ∀ b ∈ e.enc a, (if b = chr c then chr d else b) = b := by
      intro b hb
      have hne : b ≠ chr c := by
        rintro rfl
        exact ha ((chr_mem_enc_iff e hc).1 hb)
      rw [if_neg hne]
    rw [if_neg ha, List.map_congr_left hblock, List.map_id']

/-! ## Leading and first literals -/

theorem isPrefixOf_lit_encode {p : String} (hp : IsAscii p) :
    (lit p).isPrefixOf (e.encode s) = (lit p).isPrefixOf s := by
  rw [isPrefixOf_lit hp, isPrefixOf_lit hp, e.matches?_encode (Pattern.literal_ascii hp)]

omit [DecidableEq β] in
theorem encode_drop_lit {p : String} (hp : IsAscii p)
    (h : (lit p).isPrefixOf s = true) :
    (e.encode s).drop p.toList.length = e.encode (s.drop p.toList.length) := by
  rw [isPrefixOf_lit hp] at h
  have hlength : (Pattern.literal p).length = p.toList.length := by
    simp [Pattern.literal]
  rw [← hlength]
  exact e.encode_drop_of_matches? (Pattern.literal_ascii hp) h

/-- A needle of ASCII units is not found among units beyond ASCII. -/
theorem before_append_of_nonAscii {cs bs t : List β} (hc : c.toNat < 128)
    (hbs : ∀ b ∈ bs, 128 ≤ code b) :
    before (chr c :: cs) (bs ++ t) = (before (chr c :: cs) t).map (bs ++ ·) := by
  induction bs with
  | nil =>
      simp
  | cons b bs ih =>
      have hb : (chr c == b) = false := by
        rw [beq_eq_false_iff_ne]
        rintro rfl
        have hcode := hbs (chr c) (by simp)
        rw [code_chr hc] at hcode
        omega
      rw [List.cons_append, before, List.isPrefixOf, hb, ih fun b' hb' => hbs b' (by simp [hb'])]
      simp [Function.comp_def]

theorem encode_before {p : String} (hp : IsAscii p) (hne : p.toList ≠ []) :
    before (lit p) (e.encode s) = (before (lit p) s).map e.encode := by
  rcases List.exists_cons_of_ne_nil hne with ⟨c, cs, hcs⟩
  have hc : c.toNat < 128 := hp c (by simp [hcs])
  have hlit (γ : Type) [CodeUnit γ] : (lit p : List γ) = chr c :: cs.map chr := by
    rw [lit, hcs, List.map_cons]
  induction s with
  | nil =>
      rw [encode_nil, hlit, hlit]
      rfl
  | cons a s ih =>
      have hleads := e.isPrefixOf_lit_encode hp (s := a :: s)
      by_cases hfound : (lit p).isPrefixOf (a :: s) = true
      · have hright : before (lit p) (a :: s) = some [] := if_pos hfound
        rw [hfound] at hleads
        cases henc : e.enc a with
        | nil =>
            exact absurd henc (e.enc_ne_nil a)
        | cons b bs =>
            rw [encode_cons, henc, List.cons_append] at hleads ⊢
            have hleft : before (lit p) (b :: (bs ++ e.encode s)) = some [] := if_pos hleads
            rw [hleft, hright]
            rfl
      · have hright : before (lit p) (a :: s) = (before (lit p) s).map (a :: ·) := if_neg hfound
        -- no occurrence starts inside the block: its units are beyond ASCII, or it is one unit
        have hblock : before (lit p) (e.enc a ++ e.encode s) =
            (before (lit p) (e.encode s)).map (e.enc a ++ ·) := by
          by_cases ha : code a < 128
          · rw [encode_cons, e.enc_ascii a ha, List.singleton_append] at hleads
            rw [e.enc_ascii a ha, List.singleton_append]
            exact if_neg (by rwa [hleads])
          · rw [hlit]
            exact before_append_of_nonAscii hc (e.enc_nonAscii a (by omega))
        rw [encode_cons, hblock, hright, ih, Option.map_map, Option.map_map]
        rfl

end Delimited

end Encoding

end CodeUnit
