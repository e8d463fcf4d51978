import CanonicalPath.Ports.Decoding
import CanonicalPath.Ports.Normalize

/-!
# Ports uri — file-like URIs in two ports

The Go and the TypeScript port cut, check and decode a file-like URI in the same order.  Two things
keep them apart: a scheme that begins with no letter, which only the Go port accepts, and an authority
that is the local host to Unicode case folding only.

* `hasURIScheme_eq_iff` : the scheme tests differ on a loose scheme only
* `parseHierarchicalURIPath_agrees_iff` : the decoded paths differ on a folded local host only
* `parseFileURI_agrees_iff` : both together, for every text and every setting of the options
-/

namespace CanonicalPath

namespace Ports

open CodeUnit Outcome Segments

variable {α β : Type} [DecidableEq α] [CodeUnit α] [DecidableEq β] [CodeUnit β]

/-! ## Schemes -/

/-- A scheme that begins with a digit or a mark. -/
def LooseScheme (value : List α) : Prop :=
  ∃ a scheme rest, value = a :: scheme ++ lit "://" ++ rest ∧ isLetter a = false ∧
    ∀ b ∈ a :: scheme, Go.isSchemeCode (code b) = true

theorem isSchemeCode_eq (n : Nat) : TS.isSchemeCode n = Go.isSchemeCode n := by
  have hswap (p q : Bool) : (p || q) = (q || p) := Bool.or_comm p q
  rw [TS.isSchemeCode, Go.isSchemeCode, Bool.or_assoc, Bool.or_assoc _ (n == '-'.toNat),
    hswap (n == '.'.toNat)]
  rfl

theorem before_scheme {scheme : List α} (rest : List α)
    (hcodes : ∀ a ∈ scheme, Go.isSchemeCode (code a) = true) :
    before (lit "://") (scheme ++ lit "://" ++ rest) = some scheme := by
  have hcolon : chr ':' ∉ scheme := by
    intro hmem
    have hcode := hcodes _ hmem
    rw [code_chr (by decide)] at hcode
    exact absurd hcode (by decide)
  exact before_append (lit "//") hcolon

/-- The scheme tests of the two ports differ on a loose scheme only. -/
theorem hasURIScheme_eq_iff (value : List α) :
    Go.hasURIScheme value = TS.hasUriScheme value ↔ ¬LooseScheme value := by
  constructor
  · rintro h ⟨a, scheme, rest, rfl, ha, hcodes⟩
    rw [Go.hasURIScheme, TS.hasUriScheme, before_scheme rest hcodes] at h
    simp only [TS.isScheme, ha, Bool.false_and, Bool.and_false, Bool.and_eq_false_iff] at h
    rcases h with h | h
    · exact absurd h (by simp)
    · exact absurd (List.all_eq_true.2 hcodes) (by simp [h])
  · intro h
    rw [Go.hasURIScheme, TS.hasUriScheme]
    cases hbefore : before (lit "://") value with
    | none =>
        rfl
    | some scheme =>
        rcases exists_of_before hbefore with ⟨rest, rfl⟩
        cases scheme with
        | nil =>
            rfl
        | cons a scheme =>
            simp only [TS.isScheme, isSchemeCode_eq]
            cases hcodes : (a :: scheme).all fun b => Go.isSchemeCode (code b) with
            | false =>
                rw [Bool.and_false, eq_comm, Bool.and_eq_false_iff]
                rw [List.all_cons, Bool.and_eq_false_iff] at hcodes
                refine .inr ?_
                rw [Bool.and_eq_false_iff]
                rcases hcodes with ha | hrest
                · left
                  rw [Go.isSchemeCode, Bool.or_assoc, Bool.or_assoc, Bool.or_assoc,
                    Bool.or_eq_false_iff] at ha
                  exact ha.1
                · exact .inr hrest
            | true =>
                have ha : isLetter a = true := by
                  by_contra hletter
                  exact h ⟨a, scheme, rest, rfl, by simpa using hletter, List.all_eq_true.1 hcodes⟩
                rw [List.all_cons, Bool.and_eq_true] at hcodes
                rw [ha, hcodes.2, Bool.true_and]

omit [DecidableEq α] [DecidableEq β] in
theorem isScheme_encode (e : Encoding α β) (scheme : List α) :
    TS.isScheme (e.encode scheme) = TS.isScheme scheme := by
  cases scheme with
  | nil =>
      rfl
  | cons a scheme =>
      cases henc : e.enc a with
      | nil =>
          exact absurd henc (e.enc_ne_nil a)
      | cons b bs =>
          rcases e.test_code_enc Go.isLetterCode_nonAscii henc with ⟨hletter, hsingle⟩
          rw [Encoding.encode_cons, henc, List.cons_append, TS.isScheme, TS.isScheme, isLetter, isLetter,
            hletter]
          cases hcode : isLetterCode (code a) with
          | false =>
              rfl
          | true =>
              rw [hsingle hcode, List.nil_append]
              simp only [isSchemeCode_eq, e.all_encode Go.isSchemeCode_nonAscii]

theorem hasUriScheme_encode (e : Encoding α β) (value : List α) :
    TS.hasUriScheme (e.encode value) = TS.hasUriScheme value := by
  rw [TS.hasUriScheme, TS.hasUriScheme, e.encode_before (by decide) (by decide)]
  cases before (lit "://") value with
  | none =>
      rfl
  | some scheme =>
      have hnil : (e.encode scheme != []) = (scheme != []) := by
        rw [Bool.eq_iff_iff]
        simp
      rw [Option.map_some]
      simp only [hnil, isScheme_encode]

/-! ## Encoded separators -/

/-- The escapes of `/` and `\\`. -/
def separatorEscapes : List String :=
  ["%2f", "%2F", "%5c", "%5C"]

/-- An escape of a separator stands somewhere in the text. -/
def EncodedSeparator (value : List α) : Prop :=
  ∃ escape ∈ separatorEscapes, (lit escape : List α) <:+: value

instance (value : List α) : Decidable (EncodedSeparator value) :=
  inferInstanceAs (Decidable (∃ escape ∈ separatorEscapes, (lit escape : List α) <:+: value))

omit [DecidableEq α] in
theorem encodedSeparator_cons_iff {a : α} {value : List α} : EncodedSeparator (a :: value) ↔
    (∃ escape ∈ separatorEscapes, (lit escape : List α) <+: a :: value) ∨ EncodedSeparator value := by
  simp only [EncodedSeparator, List.infix_cons_iff, and_or_left, exists_or]

theorem hasEncodedSeparator_ts_iff (value : Units) :
    TS.hasEncodedSeparator value = true ↔ EncodedSeparator value := by
  induction value with
  | nil =>
      simp [TS.hasEncodedSeparator, EncodedSeparator, separatorEscapes, lit]
  | cons a value ih =>
      rw [TS.hasEncodedSeparator, Bool.or_eq_true, ih, List.any_eq_true, encodedSeparator_cons_iff]
      simp only [TS.startsWith, List.isPrefixOf_iff_prefix]
      rfl

/-- Two digits spell a separator in these ways only. -/
theorem fromHexPair_separator_iff (hi lo : UInt8) :
    (Go.fromHexPair hi lo = some (chr '/') ∨ Go.fromHexPair hi lo = some (chr '\\')) ↔
      (hi = chr '2' ∧ (lo = chr 'f' ∨ lo = chr 'F')) ∨ (hi = chr '5' ∧ (lo = chr 'c' ∨ lo = chr 'C')) := by
  have hdigit (n v : Nat) : hexValue n = some v ↔
      (48 ≤ n ∧ n ≤ 57 ∧ n - 48 = v) ∨ (97 ≤ n ∧ n ≤ 102 ∧ n - 97 + 10 = v) ∨
        (65 ≤ n ∧ n ≤ 70 ∧ n - 65 + 10 = v) := by
    unfold hexValue
    split_ifs <;> simp only [Option.some.injEq, false_iff] <;> omega
  have hspell (m v w : Nat) (hm : m < 256) (hv : v < 16) (hw : w < 16) :
      UInt8.ofNat (16 * v + w) = UInt8.ofNat m ↔ 16 * v + w = m :=
    uint8_ofNat_inj (by omega) hm
  have hpair (m : Nat) (hm : m < 256) : Go.fromHexPair hi lo = some (UInt8.ofNat m) ↔
      ∃ v w, hexValue (code hi) = some v ∧ hexValue (code lo) = some w ∧ 16 * v + w = m := by
    rw [fromHexPair_eq, Option.bind_eq_some_iff]
    constructor
    · rintro ⟨v, hv, h⟩
      rcases Option.map_eq_some_iff.1 h with ⟨w, hw, h⟩
      exact ⟨v, w, hv, hw, (hspell m v w hm (hexValue_lt hv) (hexValue_lt hw)).1 h⟩
    · rintro ⟨v, w, hv, hw, rfl⟩
      exact ⟨v, hv, Option.map_eq_some_iff.2 ⟨w, hw, rfl⟩⟩
  have hslash : (chr '/' : UInt8) = UInt8.ofNat 0x2F := rfl
  have hback : (chr '\\' : UInt8) = UInt8.ofNat 0x5C := rfl
  rw [hslash, hback, hpair 0x2F (by decide), hpair 0x5C (by decide)]
  simp only [hdigit, eq_chr_iff (show ('2' : Char).toNat < 128 by decide),
    eq_chr_iff (show ('f' : Char).toNat < 128 by decide),
    eq_chr_iff (show ('F' : Char).toNat < 128 by decide),
    eq_chr_iff (show ('5' : Char).toNat < 128 by decide),
    eq_chr_iff (show ('c' : Char).toNat < 128 by decide),
    eq_chr_iff (show ('C' : Char).toNat < 128 by decide)]
  change _ ↔ (code hi = 50 ∧ (code lo = 102 ∨ code lo = 70)) ∨ (code hi = 53 ∧ (code lo = 99 ∨ code lo = 67))
  constructor
  · rintro (⟨v, w, hv, hw, h⟩ | ⟨v, w, hv, hw, h⟩)
    · omega
    · omega
  · rintro (⟨hhi, hlo⟩ | ⟨hhi, hlo⟩)
    · exact .inl ⟨2, 15, by omega, by omega, rfl⟩
    · exact .inr ⟨5, 12, by omega, by omega, rfl⟩

theorem hasEncodedSeparator_go_iff (value : Bytes) :
    Go.hasEncodedSeparator value = true ↔ EncodedSeparator value := by
  induction value with
  | nil =>
      simp [Go.hasEncodedSeparator, EncodedSeparator, separatorEscapes, lit]
  | cons a value ih =>
      rw [encodedSeparator_cons_iff, ← ih]
      match value with
      | [] => simp [Go.hasEncodedSeparator, separatorEscapes, lit]
      | [b] => simp [Go.hasEncodedSeparator, separatorEscapes, lit]
      | hi :: lo :: value =>
          have hleads : (∃ escape ∈ separatorEscapes, (lit escape : Bytes) <+: a :: hi :: lo :: value) ↔
              a = chr '%' ∧ ((hi = chr '2' ∧ (lo = chr 'f' ∨ lo = chr 'F')) ∨
                (hi = chr '5' ∧ (lo = chr 'c' ∨ lo = chr 'C'))) := by
            simp only [separatorEscapes, List.mem_cons, List.not_mem_nil, or_false, exists_eq_or_imp,
              exists_eq_left, lit, String.reduceToList, List.map_cons, List.map_nil,
              List.cons_prefix_cons, List.nil_prefix, and_true]
            constructor
            · rintro (⟨rfl, rfl, rfl⟩ | ⟨rfl, rfl, rfl⟩ | ⟨rfl, rfl, rfl⟩ | ⟨rfl, rfl, rfl⟩) <;> simp
            · rintro ⟨rfl, ⟨rfl, rfl | rfl⟩ | ⟨rfl, rfl | rfl⟩⟩ <;> simp
          rw [hleads, ← fromHexPair_separator_iff, Go.hasEncodedSeparator]
          simp only [Bool.or_eq_true, Bool.and_eq_true, beq_iff_eq]

theorem infix_lit_encode_iff (e : Encoding α β) {p : String} (hp : IsAscii p) (hne : p.toList ≠ [])
    (value : List α) : (lit p : List β) <:+: e.encode value ↔ (lit p : List α) <:+: value := by
  rw [← isSome_before_iff, ← isSome_before_iff, e.encode_before hp hne, Option.isSome_map]

theorem encodedSeparator_encode_iff (e : Encoding α β) (value : List α) :
    EncodedSeparator (e.encode value) ↔ EncodedSeparator value := by
  have hascii : ∀ escape ∈ separatorEscapes, IsAscii escape ∧ escape.toList ≠ [] := by
    decide
  refine exists_congr fun escape => and_congr_right fun hescape => ?_
  exact infix_lit_encode_iff e (hascii escape hescape).1 (hascii escape hescape).2 value

/-! ## The local host -/

/-- Simple case folding, where it leads into ASCII. -/
def simpleFold (c : Char) : Char :=
  if c = '\u017f' then
    's'
  else if c = '\u212a' then
    'k'
  else
    lower c

theorem lower_char_eq_iff {c d : Char} (hc : c.toNat < 128) (hd : d.toNat < 128) :
    lower (chr c : UInt8) = lower (chr d) ↔ lower c = lower d := by
  have hcode {x : Char} (hx : x.toNat < 128) : code (lower (chr x : UInt8)) = code (lower x) := by
    rw [code_lower, code_lower, code_chr hx]
    rfl
  rw [← code_injective.eq_iff, hcode hc, hcode hd, code_injective.eq_iff]

theorem equalFold_of_nonAscii {b : UInt8} {bs : Bytes} {d : Char} {more : List Char}
    (hb : 128 ≤ code b) (hlong : ¬[0xC5, 0xBF] <+: b :: bs) (hkelvin : ¬[0xE2, 0x84, 0xAA] <+: b :: bs)
    (hd : d.toNat < 128) : Go.equalFold (b :: bs) (d :: more) = false := by
  have hlower : (lower b == lower (chr d)) = false := by
    rw [beq_eq_false_iff_ne, ← code_injective.ne_iff, code_lower, code_lower, code_chr hd]
    split_ifs <;> omega
  rw [Go.equalFold, hlower, Bool.false_and]
  · rintro value rfl rfl
    exact hlong ⟨value, rfl⟩
  · rintro value rfl rfl
    exact hkelvin ⟨value, rfl⟩

theorem equalFold_ascii {c d : Char} {value : Bytes} {more : List Char} (hc : c.toNat < 128)
    (hd : d.toNat < 128) : Go.equalFold (chr c :: value) (d :: more) = (lower c == lower d && Go.equalFold value more) := by
  have hne {n : Nat} (hn : 128 ≤ n) (hn' : n < 256) : (chr c : UInt8) ≠ UInt8.ofNat n := by
    intro h
    have := congrArg code h
    rw [code_chr hc, code_uint8_ofNat hn'] at this
    omega
  rw [Go.equalFold]
  · congr 1
    rw [Bool.eq_iff_iff, beq_iff_eq, beq_iff_eq, lower_char_eq_iff hc hd]
  · intro value' h _
    exact absurd h (hne (n := 0xC5) (by decide) (by decide))
  · intro value' h _
    exact absurd h (hne (n := 0xE2) (by decide) (by decide))

/-- The two spellings of an ASCII letter. -/
theorem beq_letter_eq {c up d : Char} (hc : 97 ≤ code c ∧ code c ≤ 122) (hup : code up + 32 = code c) :
    (d == c || d == up) = (c == lower d) := by
  rw [Bool.eq_iff_iff, Bool.or_eq_true, beq_iff_eq, beq_iff_eq, beq_iff_eq, ← code_injective.eq_iff,
    ← code_injective.eq_iff (b := up), ← code_injective.eq_iff (b := lower d), code_lower]
  split_ifs <;> omega

/-- A character beyond ASCII that folds to no letter is equal to no character of the pattern. -/
theorem equalFold_encode_nonAscii {c d : Char} {t more : List Char} (hc : ¬c.toNat < 128) (hlong : c ≠ '\u017f')
    (hkelvin : c ≠ '\u212a') (hd : d.toNat < 128) : Go.equalFold (utf8.encode (c :: t)) (d :: more) = false := by
  have hstart : ∀ c', utf8.enc c' <+: utf8.encode (c :: t) → c = c' := by
    intro c' h
    have hsingle : utf8.encode [c'] = utf8.enc c' := by
      rw [Encoding.encode_cons, Encoding.encode_nil, List.append_nil]
    rw [← hsingle, utf8.encode_prefix_iff] at h
    exact (List.cons_prefix_cons.1 h).1.symm
  cases henc : utf8.enc c with
  | nil =>
      exact absurd henc (utf8.enc_ne_nil c)
  | cons b bs =>
      have hb : 128 ≤ code b := utf8.enc_nonAscii c (not_lt.1 hc) b (by simp [henc])
      rw [Encoding.encode_cons, henc, List.cons_append] at hstart ⊢
      refine equalFold_of_nonAscii hb (fun h => ?_) (fun h => ?_) hd
      · exact hlong (hstart '\u017f' h)
      · exact hkelvin (hstart '\u212a' h)

theorem equalFold_encode (t p : List Char) (hp : ∀ c ∈ p, c.toNat < 128) :
    Go.equalFold (utf8.encode t) p = (t.map simpleFold == p.map lower) := by
  induction t generalizing p with
  | nil =>
      cases p with
      | nil => rfl
      | cons d more => rfl
  | cons c t ih =>
      cases p with
      | nil =>
          cases henc : utf8.enc c with
          | nil => exact absurd henc (utf8.enc_ne_nil c)
          | cons b bs =>
              rw [Encoding.encode_cons, henc, List.cons_append]
              simp [Go.equalFold]
      | cons d more =>
          have hd : d.toNat < 128 := hp d (by simp)
          have ih := ih more fun c hc => hp c (by simp [hc])
          rw [List.map_cons, List.map_cons, List.cons_beq_cons, ← ih, simpleFold]
          split_ifs with hlong hkelvin
          · -- the long s
            subst hlong
            have henc : utf8.enc '\u017f' = [0xC5, 0xBF] := by
              decide +kernel
            rw [Encoding.encode_cons, henc, List.cons_append, List.cons_append, List.nil_append,
              Go.equalFold, beq_letter_eq (by decide) (by decide)]
          · -- the sign of the unit Kelvin
            subst hkelvin
            have henc : utf8.enc '\u212a' = [0xE2, 0x84, 0xAA] := by
              decide +kernel
            rw [Encoding.encode_cons, henc, List.cons_append, List.cons_append, List.cons_append,
              List.nil_append, Go.equalFold, beq_letter_eq (by decide) (by decide)]
          · by_cases hc : c.toNat < 128
            · have hchr : utf8.enc c = [chr c] := utf8.enc_ascii c hc
              rw [Encoding.encode_cons, hchr, List.singleton_append, equalFold_ascii hc hd]
            · have hne : (lower c == lower d) = false := by
                rw [beq_eq_false_iff_ne, ← code_injective.ne_iff, code_lower, code_lower]
                change ¬code c < 128 at hc
                change code d < 128 at hd
                split_ifs <;> omega
              rw [hne, Bool.false_and, equalFold_encode_nonAscii hc hlong hkelvin hd]

theorem localhost_ascii : IsAscii "localhost" := by
  decide

/-! ## Hierarchical paths -/

/-- The Go options that carry the TypeScript ones. -/
def goUriOptions (options : Option TS.UriOptions) : Go.URIOptions where
  allowFileURI := TS.allowFileUri options
  allowVSCodeFileURI := TS.allowVSCodeFileUri options
  rejectEncodedSlash := options.bind fun uri => uri.rejectEncodedSlash

theorem rejectEncodedSlash_eq (options : Option TS.UriOptions) :
    Go.rejectEncodedSlash (goUriOptions options) = TS.rejectsEncodedSlash options := by
  rw [Go.rejectEncodedSlash, TS.rejectsEncodedSlash, goUriOptions]
  cases options.bind fun uri => uri.rejectEncodedSlash with
  | none =>
      rfl
  | some reject =>
      cases reject with
      | false =>
          rfl
      | true =>
          rfl

theorem cut_encode (e : Encoding α β) {c : Char} (hc : c.toNat < 128) (value : List α) :
    cut (chr c) (e.encode value) =
      (cut (chr c) value).map fun halves => (e.encode halves.1, e.encode halves.2) := by
  cases hcut : cut (chr c) value with
  | none =>
      rw [Option.map_none, cut_eq_none_iff, e.chr_mem_encode_iff hc]
      exact cut_eq_none_iff.1 hcut
  | some halves =>
      rcases cut_eq_some_iff.1 hcut with ⟨rfl, hfree⟩
      rw [Option.map_some, cut_eq_some_iff, e.chr_mem_encode_iff hc, e.encode_append,
        e.encode_chr_cons hc]
      exact ⟨rfl, hfree⟩

omit [DecidableEq β] in
theorem drop_leader_encode (e : Encoding α β) {leader : String} (hleader : IsAscii leader)
    {value : List α} (hleads : (lit leader).isPrefixOf value = true) :
    (e.encode value).drop leader.length = e.encode (value.drop leader.length) := by
  rw [← String.length_toList]
  exact e.encode_drop_lit hleader hleads

/-- The path a hierarchical URI spells, on texts, with a port's own test of the local host. -/
def hierarchicalPath (isLocal : List Char → Bool) (text : List Char) (leader : String)
    (rejects : Bool) : Except PathError (List Char) :=
  if rejects = true ∧ EncodedSeparator text then
    newError .encodedSeparator "URI contains an encoded path separator"
  else
    match cut (chr '/') (text.drop leader.length) with
    | none => newError .invalidURI "URI path is empty"
    | some (authority, more) =>
        match decode? (chr '/' :: more), decode? authority with
        | some path, some host =>
            if nul ∈ path ∨ nul ∈ host then
              newError .nulByte "decoded URI contains NUL"
            else if path = [] then
              newError .invalidURI "URI path is empty"
            else if leader = "file://" ∧ host ≠ [] ∧ isLocal host = false then
              .ok (lit "//" ++ host ++ path)
            else
              .ok path
        | _, _ => newError .invalidPercentEncoding "URI percent encoding is invalid"

/-- The TypeScript test of the local host, on texts. -/
def loweredLocalhost (host : List Char) : Bool :=
  host.map lower == "localhost".toList

/-- The Go test of the local host, on texts. -/
def foldedLocalhost (host : List Char) : Bool :=
  host.map simpleFold == "localhost".toList

theorem parseHierarchicalURIPath_ts {text : List Char} {leader : String} (hleader : IsAscii leader)
    (hleads : (lit leader).isPrefixOf text = true) (options : Option TS.UriOptions) :
    TS.parseHierarchicalURIPath (utf16.encode text) leader options =
      mapOk utf16.encode
        (hierarchicalPath loweredLocalhost text leader (TS.rejectsEncodedSlash options)) := by
  have hsep : (TS.rejectsEncodedSlash options && TS.hasEncodedSeparator (utf16.encode text)) = true ↔
      TS.rejectsEncodedSlash options = true ∧ EncodedSeparator text := by
    rw [Bool.and_eq_true, hasEncodedSeparator_ts_iff, encodedSeparator_encode_iff]
  rw [TS.parseHierarchicalURIPath, hierarchicalPath]
  simp only [hsep]
  split_ifs with hreject
  · rfl
  · rw [drop_leader_encode utf16 hleader hleads, cut_encode utf16 (by decide)]
    cases cut (chr '/') (text.drop leader.length) with
    | none =>
        rfl
    | some halves =>
        simp only [Option.map_some]
        -- both parts decode to texts or the URI is refused
        rw [← utf16.encode_chr_cons (by decide), decodeURIComponent_encode, decodeURIComponent_encode]
        cases decode? (chr '/' :: halves.2) with
        | none =>
            rfl
        | some path =>
            cases decode? halves.1 with
            | none =>
                rfl
            | some host =>
                have hnul (t : List Char) : nul ∈ utf16.encode t ↔ nul ∈ t :=
                  utf16.chr_mem_encode_iff (by decide)
                have hlocal : (utf16.encode host).map lower ≠ lit "localhost" ↔
                    loweredLocalhost host = false := by
                  rw [← utf16.encode_map_lower, Ne, utf16.encode_eq_lit_iff (by decide), lit_char,
                    loweredLocalhost, beq_eq_false_iff_ne]
                simp only [Option.map_some, hnul, utf16.encode_eq_nil_iff, ne_eq] at hlocal ⊢
                simp only [hlocal]
                split_ifs
                · rfl
                · rfl
                · rw [mapOk_ok, utf16.encode_append, utf16.encode_append, utf16.encode_lit (by decide)]
                · rfl

/-- The Go port's two steps of decoding, by what the text decodes to. -/
theorem pathUnescape_cases (text : List Char) :
    (decode? text = none ∧ (Go.pathUnescape (utf8.encode text) = none ∨
      ∃ value, Go.pathUnescape (utf8.encode text) = some value ∧ Go.validString value = false)) ∨
    ∃ t, decode? text = some t ∧ Go.pathUnescape (utf8.encode text) = some (utf8.encode t) ∧
      Go.validString (utf8.encode t) = true := by
  have hfilter := filter_pathUnescape_encode text
  cases hdecode : decode? text with
  | none =>
      left
      rw [hdecode, Option.map_none] at hfilter
      refine ⟨rfl, ?_⟩
      cases hunescape : Go.pathUnescape (utf8.encode text) with
      | none =>
          exact .inl rfl
      | some value =>
          rw [hunescape] at hfilter
          refine .inr ⟨value, rfl, ?_⟩
          simpa using hfilter
  | some t =>
      right
      rw [hdecode, Option.map_some, Option.filter_eq_some_iff] at hfilter
      exact ⟨t, rfl, hfilter.1, hfilter.2⟩

/-- The Go program fails with the same code; its texts name the part that does not decode. -/
theorem parseHierarchicalURIPath_go {text : List Char} {leader : String} (hleader : IsAscii leader)
    (hleads : (lit leader).isPrefixOf text = true) (options : Option TS.UriOptions) :
    Agrees Eq (Go.parseHierarchicalURIPath (utf8.encode text) leader (goUriOptions options))
      (mapOk utf8.encode
        (hierarchicalPath foldedLocalhost text leader (TS.rejectsEncodedSlash options))) := by
  have hsep : (Go.rejectEncodedSlash (goUriOptions options) &&
      Go.hasEncodedSeparator (utf8.encode text)) = true ↔
      TS.rejectsEncodedSlash options = true ∧ EncodedSeparator text := by
    rw [Bool.and_eq_true, rejectEncodedSlash_eq, hasEncodedSeparator_go_iff,
      encodedSeparator_encode_iff]
  rw [Go.parseHierarchicalURIPath, hierarchicalPath]
  simp only [hsep]
  split_ifs with hreject
  · exact agrees_newError _ _ _
  · rw [drop_leader_encode utf8 hleader hleads, cut_encode utf8 (by decide)]
    cases cut (chr '/') (text.drop leader.length) with
    | none =>
        exact agrees_newError _ _ _
    | some halves =>
        simp only [Option.map_some]
        rw [← utf8.encode_chr_cons (by decide)]
        -- Go unescapes both parts before it looks at their validity, and every failure has one code
        rcases pathUnescape_cases (chr '/' :: halves.2) with
          ⟨hpath, hunescape | ⟨value, hunescape, hvalid⟩⟩ | ⟨path, hpath, hunescape, hvalid⟩
        · rw [hpath, hunescape]
          exact agrees_newError _ _ _
        · rw [hpath, hunescape]
          cases Go.pathUnescape (utf8.encode halves.1) with
          | none =>
              exact agrees_newError _ _ _
          | some authority =>
              simp only [hvalid, Bool.not_false, Bool.true_or, if_true]
              exact agrees_newError _ _ _
        · rw [hpath, hunescape]
          rcases pathUnescape_cases halves.1 with
            ⟨hhost, hunescape' | ⟨value, hunescape', hvalid'⟩⟩ | ⟨host, hhost, hunescape', hvalid'⟩
          · rw [hhost, hunescape']
            exact agrees_newError _ _ _
          · rw [hhost, hunescape']
            simp only [hvalid', Bool.not_false, Bool.or_true, if_true]
            exact agrees_newError _ _ _
          · have hnul (t : List Char) : nul ∈ utf8.encode t ↔ nul ∈ t :=
              utf8.chr_mem_encode_iff (by decide)
            have hlocal : Go.equalFold (utf8.encode host) "localhost".toList =
                foldedLocalhost host := by
              rw [equalFold_encode host _ localhost_ascii]
              rfl
            rw [hhost, hunescape']
            simp only [hvalid, hvalid', Bool.not_true, Bool.or_self, Bool.false_eq_true, if_false, hnul,
              utf8.encode_eq_nil_iff, hlocal, ne_eq]
            split_ifs
            · exact agrees_newError _ _ _
            · exact agrees_newError _ _ _
            · rw [mapOk_ok, utf8.encode_append, utf8.encode_append, utf8.encode_lit (by decide)]
              exact Rel.ok rfl
            · exact Rel.ok rfl

/-! ## Agreement -/

theorem foldedLocalhost_of_lowered {host : List Char} (h : loweredLocalhost host = true) :
    foldedLocalhost host = true := by
  have hlower : host.map lower = "localhost".toList := beq_iff_eq.1 h
  have hsame : host.map simpleFold = host.map lower := by
    refine List.map_congr_left fun c hc => ?_
    have hmem : lower c ∈ "localhost".toList := hlower ▸ List.mem_map_of_mem hc
    have hcode : code (lower c) < 128 := localhost_ascii _ hmem
    rw [code_lower] at hcode
    have hc' : code c < 128 := by
      split_ifs at hcode with hupper
      · omega
      · exact hcode
    rw [simpleFold, if_neg, if_neg]
    · rintro rfl
      exact absurd hc' (by decide)
    · rintro rfl
      exact absurd hc' (by decide)
  rw [foldedLocalhost, hsame]
  exact h

/-- The URI cuts into an authority and a path that decode, and nothing else is wrong with it. -/
def DecodesTo (text : List Char) (leader : String) (rejects : Bool) (host path : List Char) : Prop :=
  ¬(rejects = true ∧ EncodedSeparator text) ∧
    ∃ authority more, cut (chr '/') (text.drop leader.length) = some (authority, more) ∧
      decode? authority = some host ∧ decode? (chr '/' :: more) = some path ∧
      nul ∉ host ∧ nul ∉ path

/-- A decoded path keeps its first slash. -/
theorem ne_nil_of_decode_slash {more path : List Char} (h : decode? (chr '/' :: more) = some path) :
    path ≠ [] := by
  rintro rfl
  rcases Option.bind_eq_some_iff.1 h with ⟨ps, hpieces, htext⟩
  rw [pieces_cons_of_ne (by decide)] at hpieces
  rcases Option.map_eq_some_iff.1 hpieces with ⟨ps', -, rfl⟩
  have hbytes := utf8Text?_eq_some_iff.1 htext
  rw [List.flatMap_cons, pieceBytes, utf8.enc_chr (by decide)] at hbytes
  exact absurd hbytes (by simp)

/-- The two tests of the local host lead to the same path unless the folded one alone succeeds. -/
theorem hierarchicalPath_agrees_iff (text : List Char) (leader : String) (rejects : Bool) :
    Agrees Eq (hierarchicalPath foldedLocalhost text leader rejects)
        (hierarchicalPath loweredLocalhost text leader rejects) ↔
      ¬∃ host path, leader = "file://" ∧ DecodesTo text leader rejects host path ∧
        foldedLocalhost host = true ∧ loweredLocalhost host = false := by
  constructor
  · rintro h ⟨host, path, hleader, ⟨hsep, authority, more, hcut, hhost, hpath, hnul, hnul'⟩, hfolded,
      hlowered⟩
    have hne : host ≠ [] := by
      rintro rfl
      exact absurd hfolded (by decide)
    have hpath' := ne_nil_of_decode_slash hpath
    subst hleader
    simp only [hierarchicalPath, if_neg hsep, hcut, hhost, hpath, hnul, hnul', or_self, if_false, hpath',
      hne, hfolded, hlowered, ne_eq, not_false_iff, true_and, if_true, Bool.true_eq_false] at h
    -- one result has the authority in front of the path, the other has not
    have hlength := congrArg List.length (rel_ok_ok_iff.1 h)
    simp only [List.length_append, lit, List.length_map, String.reduceToList, List.length_cons] at hlength
    omega
  · intro h
    rw [hierarchicalPath, hierarchicalPath]
    split_ifs with hsep
    · exact agrees_newError _ _ _
    · cases hcut : cut (chr '/') (text.drop leader.length) with
      | none =>
          exact agrees_newError _ _ _
      | some halves =>
          rcases halves with ⟨authority, more⟩
          dsimp only
          cases hpath : decode? (chr '/' :: more) with
          | none =>
              exact agrees_newError _ _ _
          | some path =>
              cases hhost : decode? authority with
              | none =>
                  exact agrees_newError _ _ _
              | some host =>
                  dsimp only
                  by_cases hnul : nul ∈ path ∨ nul ∈ host
                  · rw [if_pos hnul, if_pos hnul]
                    exact agrees_newError _ _ _
                  · -- without such a URI the two tests agree on this host
                    have hsame : leader = "file://" →
                        foldedLocalhost host = loweredLocalhost host := by
                      intro hleader
                      cases hlowered : loweredLocalhost host with
                      | true =>
                          exact foldedLocalhost_of_lowered hlowered
                      | false =>
                          rw [Bool.eq_false_iff]
                          intro hfolded
                          rw [not_or] at hnul
                          exact h ⟨host, path, hleader, ⟨hsep, authority, more, hcut, hhost, hpath,
                            hnul.2, hnul.1⟩, hfolded, hlowered⟩
                    have hremote : (leader = "file://" ∧ host ≠ [] ∧ foldedLocalhost host = false) ↔
                        (leader = "file://" ∧ host ≠ [] ∧ loweredLocalhost host = false) :=
                      and_congr_right fun hleader => by rw [hsame hleader]
                    simp only [hremote]
                    exact agrees_refl _

/-- A Go result, up to the texts of its errors, against a TypeScript one: the texts they spell. -/
theorem agrees_sameText_iff {go : Except PathError Bytes} {x y : Except PathError (List Char)}
    (hgo : Agrees Eq go (mapOk utf8.encode x)) :
    Agrees SameText go (mapOk utf16.encode y) ↔ Agrees Eq x y := by
  cases x with
  | error err =>
      rcases hgo with _ | hcode
      cases y with
      | error err' =>
          constructor
          · rintro (_ | hcode')
            exact Rel.error (hcode.symm.trans hcode')
          · rintro (_ | hcode')
            exact Rel.error (hcode.trans hcode')
      | ok u =>
          constructor
          · rintro ⟨⟩
          · rintro ⟨⟩
  | ok t =>
      rcases hgo with rfl | _
      cases y with
      | error err' =>
          constructor
          · rintro ⟨⟩
          · rintro ⟨⟩
      | ok u =>
          constructor
          · rintro (hu | _)
            exact Rel.ok (utf16.encode_injective (sameText_encode_iff.1 hu))
          · rintro (rfl | _)
            exact Rel.ok (sameText_encode_iff.2 rfl)

/-- The authority of an allowed file URI is the local host to Unicode case folding and not to
ASCII case, and nothing is wrong with the URI. -/
def FoldedLocalhost (options : Option TS.UriOptions) (text : List Char) : Prop :=
  TS.allowFileUri options = true ∧ nul ∉ text ∧ lit "file://" <+: text ∧
    ∃ host path, DecodesTo text "file://" (TS.rejectsEncodedSlash options) host path ∧
      foldedLocalhost host = true ∧ loweredLocalhost host = false

/-- On a loose scheme the tests differ, on a folded local host the paths; on every other text both
ports see the same scheme and return the same path or fail with the same code. -/
theorem parseFileURI_agrees_iff (text : List Char) (options : Option TS.UriOptions) :
    (Go.hasURIScheme (utf8.encode text) = TS.hasUriScheme (utf16.encode text) ∧
      Agrees SameText (Go.parseFileURI (goUriOptions options) (utf8.encode text))
        (TS.parseFileUri options (utf16.encode text))) ↔
      ¬LooseScheme text ∧ ¬FoldedLocalhost options text := by
  rw [Go.hasURIScheme_encode, hasUriScheme_encode, hasURIScheme_eq_iff]
  refine and_congr_right fun hscheme => ?_
  have hnul8 : nul ∈ utf8.encode text ↔ nul ∈ text := utf8.chr_mem_encode_iff (by decide)
  have hnul16 : nul ∈ utf16.encode text ↔ nul ∈ text := utf16.chr_mem_encode_iff (by decide)
  have hfile : Go.hasPrefix (utf8.encode text) (lit "file://") = (lit "file://").isPrefixOf text :=
    utf8.isPrefixOf_lit_encode (by decide)
  have hfile' : TS.startsWith (utf16.encode text) (lit "file://") = (lit "file://").isPrefixOf text :=
    utf16.isPrefixOf_lit_encode (by decide)
  have hvscode : Go.hasPrefix (utf8.encode text) (lit "vscode-file://") =
      (lit "vscode-file://").isPrefixOf text :=
    utf8.isPrefixOf_lit_encode (by decide)
  have hvscode' : TS.startsWith (utf16.encode text) (lit "vscode-file://") =
      (lit "vscode-file://").isPrefixOf text :=
    utf16.isPrefixOf_lit_encode (by decide)
  have hsame : Go.hasURIScheme text = TS.hasUriScheme text := (hasURIScheme_eq_iff text).2 hscheme
  rw [Go.parseFileURI, TS.parseFileUri, FoldedLocalhost, hfile, hfile', hvscode, hvscode',
    Go.hasURIScheme_encode, hasUriScheme_encode, hsame, ← List.isPrefixOf_iff_prefix]
  simp only [hnul8, hnul16]
  -- both ports test NUL, the two schemes and every other scheme, in this order
  by_cases hnul : nul ∈ text
  · rw [if_pos hnul, if_pos hnul]
    simp [hnul, agrees_newError]
  rw [if_neg hnul, if_neg hnul]
  by_cases hleads : (lit "file://").isPrefixOf text = true
  · rw [if_pos hleads, if_pos hleads, goUriOptions]
    dsimp only
    by_cases hallow : TS.allowFileUri options = true
    · rw [if_pos hallow, if_pos hallow, parseHierarchicalURIPath_ts (by decide) hleads,
        ← goUriOptions, agrees_sameText_iff (parseHierarchicalURIPath_go (by decide) hleads options),
        hierarchicalPath_agrees_iff]
      simp [hnul, hleads, hallow]
    · rw [if_neg hallow, if_neg hallow]
      simp [hallow, agrees_newError]
  · rw [if_neg hleads, if_neg hleads]
    have hother : ¬(TS.allowFileUri options = true ∧ ¬nul ∈ text ∧
        (lit "file://").isPrefixOf text = true ∧ ∃ host path,
          DecodesTo text "file://" (TS.rejectsEncodedSlash options) host path ∧
            foldedLocalhost host = true ∧ loweredLocalhost host = false) :=
      fun h => hleads h.2.2.1
    refine iff_of_true ?_ hother
    by_cases hleads' : (lit "vscode-file://").isPrefixOf text = true
    · rw [if_pos hleads', if_pos hleads']
      by_cases hallow : TS.allowVSCodeFileUri options = true
      · have hallow' : (goUriOptions options).allowVSCodeFileURI = true := hallow
        rw [if_pos hallow', if_pos hallow, parseHierarchicalURIPath_ts (by decide) hleads',
          agrees_sameText_iff (parseHierarchicalURIPath_go (by decide) hleads' options),
          hierarchicalPath_agrees_iff]
        -- the local host is asked for under `file://` only
        rintro ⟨host, path, hleader, -⟩
        exact absurd hleader (by decide)
      · have hallow' : ¬(goUriOptions options).allowVSCodeFileURI = true := hallow
        rw [if_neg hallow', if_neg hallow]
        exact agrees_newError _ _ _
    · rw [if_neg hleads', if_neg hleads']
      split_ifs
      · exact agrees_newError _ _ _
      · exact Rel.ok ⟨text, rfl, rfl⟩

/-- A scheme of one digit, and an authority with a long s. -/
theorem parseFileURI_not_agrees :
    Go.hasURIScheme (utf8.encode "1://x".toList) ≠ TS.hasUriScheme (utf16.encode "1://x".toList) ∧
      ¬Agrees SameText
        (Go.parseFileURI (goUriOptions (some { allowFileUri := some true }))
          (utf8.encode "file://localho\u017ft/x".toList))
        (TS.parseFileUri (some { allowFileUri := some true })
          (utf16.encode "file://localho\u017ft/x".toList)) := by
  have hgo : Go.parseFileURI (goUriOptions (some { allowFileUri := some true }))
      (utf8.encode "file://localho\u017ft/x".toList) = .ok (utf8.encode "/x".toList) := by
    decide +kernel
  have hts : TS.parseFileUri (some { allowFileUri := some true })
      (utf16.encode "file://localho\u017ft/x".toList) =
        .ok (utf16.encode "//localho\u017ft/x".toList) := by
    decide +kernel
  refine ⟨by decide +kernel, ?_⟩
  rw [hgo, hts, Agrees, rel_ok_ok_iff, sameText_encode_iff]
  decide +kernel

end Ports

end CanonicalPath
