import CanonicalPath.Identity.Component
import CanonicalPath.Library.Sha256
import CanonicalPath.Ports.Decoding
import CanonicalPath.Ports.Sanitize
import CanonicalPath.Ports.Scoped

/-!
# GitRef — directory names of Git refs

The Go port builds the slug of a ref rune by rune, the TypeScript port by a pattern over 16-bit units.  Both are the
same function of the scalar values, and both cut and trim it to the same bounded slug.

* `slugRuns`, `refSlug` : the slug as a function of a text
* `IsSlug` : what every slug looks like, wherever the cut lands
* `encodeGitRef_agrees` : the ports write one name, which is a component and determines the digest
-/

namespace CanonicalPath

namespace Ports

open CodeUnit Segments Go

/-! ## Slugs -/

/-- Every run outside the slug characters is one dash. -/
def slugRuns (lastDash : Bool) : List Char → List Char
  | [] => []
  | c :: text =>
      if Go.isSlugCode c.toNat then
        c :: slugRuns false text
      else if lastDash then
        slugRuns true text
      else
        '-' :: slugRuns true text

/-- The slug of a text, trimmed, cut and trimmed again. -/
def refSlug (text : List Char) : List Char :=
  let slug := Go.trim ((Go.trim (slugRuns false text) "._-").take 80) "._-"
  if slug = [] then lit "ref" else slug

/-- The name of a ref. -/
def refName (slug : List Char) (digest : Vector UInt8 32) : List Char :=
  lit "v2-" ++ slug ++ lit "--" ++ digest.toList.flatMap hexByte

/-- At most 80 slug characters between two that are no edges. -/
structure IsSlug (slug : List Char) : Prop where
  ne_nil : slug ≠ []
  length_le : slug.length ≤ 80
  codes : ∀ c ∈ slug, Go.isSlugCode c.toNat = true
  trimmed : Trim.Trimmed (fun c => (lit "._-").contains c) slug

theorem isSlugCode_ascii {n : Nat} (h : Go.isSlugCode n = true) : n < 128 := by
  by_contra hlarge
  have hfalse : Go.isSlugCode n = false := by
    simp [Go.isSlugCode, isLetterCode]
    omega
  rw [hfalse] at h
  cases h

theorem slugRuns_codes (lastDash : Bool) (text : List Char) : ∀ c ∈ slugRuns lastDash text, Go.isSlugCode c.toNat = true := by
  induction text generalizing lastDash with
  | nil =>
      simp [slugRuns]
  | cons d text ih =>
      rw [slugRuns]
      split_ifs with hkept
      · exact List.forall_mem_cons.2 ⟨hkept, ih false⟩
      · exact ih true
      · exact List.forall_mem_cons.2 ⟨by decide, ih true⟩

theorem isSlug_refSlug (text : List Char) : IsSlug (refSlug text) := by
  rw [refSlug]
  by_cases hnil : Go.trim ((Go.trim (slugRuns false text) "._-").take 80) "._-" = []
  · simp only [if_pos hnil]
    -- the default is a slug of its own
    have hcodes : ((lit "ref" : List Char).all fun c => Go.isSlugCode c.toNat) = true := by
      decide
    have hmarks : ((lit "ref" : List Char).all fun c => !(lit "._-").contains c) = true := by
      decide
    have hkept : ∀ c ∈ (lit "ref" : List Char), (lit "._-").contains c = false := by
      intro c hc
      simpa using List.all_eq_true.1 hmarks c hc
    refine ⟨by decide, by decide, List.all_eq_true.1 hcodes, ?_, ?_⟩
    · exact fun c hc => hkept c (List.mem_of_mem_head? hc)
    · exact fun c hc => hkept c (List.mem_of_mem_getLast? hc)
  · simp only [if_neg hnil]
    refine ⟨hnil, ?_, ?_, Trim.trimmed_rdropWhile_dropWhile _ _⟩
    · -- the cut bounds the length; the second trimming makes the edges, wherever the cut lands
      have hcut := List.length_take_le 80 (Go.trim (slugRuns false text) "._-")
      exact (Trim.length_rdropWhile_dropWhile_le _ _).trans hcut
    · intro c hc
      have hcut := Trim.mem_of_mem_rdropWhile_dropWhile hc
      exact slugRuns_codes false text c (Trim.mem_of_mem_rdropWhile_dropWhile (List.mem_of_mem_take hcut))

/-! ## The Go port -/

theorem runesFrom_append {skip : Nat} {block : Bytes} (h : block.length = skip) (value : Bytes) :
    Go.runesFrom skip (block ++ value) = Go.runesFrom 0 value := by
  induction block generalizing skip with
  | nil =>
      rw [← h]
      rfl
  | cons b block ih =>
      cases skip with
      | zero =>
          cases h
      | succ skip =>
          rw [List.cons_append, Go.runesFrom]
          exact ih (Nat.succ.inj h)

theorem firstRune_enc (c : Char) (value : Bytes) : Go.firstRune (utf8.enc c ++ value) = c := by
  have hbytes : ByteArray.mk (utf8.enc c ++ value).toArray =
      (String.utf8EncodeChar c).toByteArray ++ value.toByteArray := by
    rw [← List.toByteArray_append]
    apply ByteArray.ext
    rw [List.data_toByteArray]
    rfl
  rw [Go.firstRune, hbytes, ByteArray.utf8DecodeChar?_utf8EncodeChar_append, Option.getD_some]

/-- The runes of a text are its scalar values. -/
theorem runes_encode (text : List Char) : Go.runes (utf8.encode text) = text := by
  induction text with
  | nil =>
      rfl
  | cons c text ih =>
      rw [Go.runes] at ih ⊢
      have hlength : (utf8.enc c).length = c.utf8Size := String.length_utf8EncodeChar c
      cases henc : utf8.enc c with
      | nil =>
          exact absurd henc (utf8.enc_ne_nil c)
      | cons b block =>
          -- the first rune is the character, and the rest of its block is skipped
          have hwidth := runeWidth_enc c (utf8.encode text)
          have hfirst := firstRune_enc c (utf8.encode text)
          rw [henc, List.cons_append] at hwidth hfirst
          rw [henc, List.length_cons] at hlength
          rw [Encoding.encode_cons, henc, List.cons_append, Go.runesFrom, hfirst, hwidth, runesFrom_append (by omega), ih]

theorem slugLoop_eq (lastDash : Bool) (text : List Char) :
    Go.slugLoop lastDash text = utf8.encode (slugRuns lastDash text) := by
  induction text generalizing lastDash with
  | nil =>
      rfl
  | cons c text ih =>
      rw [Go.slugLoop, slugRuns]
      split_ifs
      · rw [ih, Encoding.encode_cons]
      · exact ih true
      · rw [ih]
        exact (utf8.encode_chr_cons (c := '-') (by decide)).symm

theorem ascii_trim {s : List Char} (h : ∀ c ∈ s, Go.isSlugCode c.toNat = true) (cutset : String) :
    ∀ c ∈ Go.trim s cutset, Go.isSlugCode c.toNat = true := fun c hc =>
  h c (Trim.mem_of_mem_rdropWhile_dropWhile hc)

/-- A slug that is short enough is neither cut nor trimmed again. -/
theorem refSlug_of_short {text : List Char} (h : (Go.trim (slugRuns false text) "._-").length ≤ 80) :
    refSlug text = if Go.trim (slugRuns false text) "._-" = [] then lit "ref" else Go.trim (slugRuns false text) "._-" := by
  have hagain : Go.trim (Go.trim (slugRuns false text) "._-") "._-" = Go.trim (slugRuns false text) "._-" :=
    Trim.rdropWhile_dropWhile_of_trimmed (Trim.trimmed_rdropWhile_dropWhile _ _)
  rw [refSlug, List.take_of_length_le h, hagain]

theorem boundedSlug_eq (text : List Char) : Go.boundedSlug (utf8.encode text) = utf8.encode (refSlug text) := by
  have hslug : Go.trim (Go.slugLoop false (Go.runes (utf8.encode text))) "._-" =
      utf8.encode (Go.trim (slugRuns false text) "._-") := by
    rw [runes_encode, slugLoop_eq, encode_trim utf8 (by decide)]
  have hcodes := ascii_trim (slugRuns_codes false text) "._-"
  -- a slug has as many bytes as characters, so both are cut at one place
  have hascii : ∀ c ∈ Go.trim (slugRuns false text) "._-", code c < 128 := fun c hc => isSlugCode_ascii (hcodes c hc)
  have href : utf8.encode (lit "ref") = lit "ref" := utf8.encode_lit (by decide)
  rw [Go.boundedSlug, Go.slugGitRef, hslug]
  simp only [Encoding.encode_eq_nil_iff]
  by_cases hnil : Go.trim (slugRuns false text) "._-" = []
  · rw [refSlug_of_short (by rw [hnil]; decide), if_pos hnil, if_pos hnil, href]
    rfl
  rw [if_neg hnil, utf8.length_encode_of_ascii hascii]
  by_cases hlong : (Go.trim (slugRuns false text) "._-").length > 80
  · rw [if_pos hlong, utf8.take_encode_of_ascii hascii, encode_trim utf8 (by decide), refSlug]
    simp only [Encoding.encode_eq_nil_iff]
    split_ifs
    · exact href.symm
    · rfl
  · rw [if_neg hlong, refSlug_of_short (Nat.le_of_not_lt hlong), if_neg hnil]
    simp only [Encoding.encode_eq_nil_iff, if_neg hnil]

/-! ## The TypeScript port -/

/-- The units of a character outside the slug are outside the slug. -/
theorem foreign_enc {c : Char} (h : Go.isSlugCode c.toNat = false) : ∀ a ∈ utf16.enc c, TS.isSlugCode (code a) = false := by
  intro a ha
  by_cases hascii : code c < 128
  · rw [utf16.enc_ascii c hascii, List.mem_singleton] at ha
    rw [ha, code_ofCode _ hascii]
    exact h
  · have hlarge := utf16.enc_nonAscii c (Nat.le_of_not_lt hascii) a ha
    rw [Bool.eq_false_iff]
    intro hslug
    exact absurd (isSlugCode_ascii hslug) (Nat.not_lt.2 hlarge)

/-- Behind a dash the rest of the run is dropped. -/
theorem replaceForeignRuns_encode (text : List Char) :
    TS.replaceForeignRuns (utf16.encode text) = utf16.encode (slugRuns false text) ∧
      TS.replaceForeignRuns ((utf16.encode text).dropWhile fun a => !TS.isSlugCode (code a)) =
        utf16.encode (slugRuns true text) := by
  induction text with
  | nil =>
      simp [slugRuns, TS.replaceForeignRuns]
  | cons c text ih =>
      rw [slugRuns, slugRuns, Encoding.encode_cons]
      cases hc : Go.isSlugCode c.toNat with
      | true =>
          -- a slug character is one unit, and it ends the run in front of it
          have hascii : code c < 128 := isSlugCode_ascii hc
          have hcode : TS.isSlugCode (code (ofCode (code c) : UInt16)) = true := by
            rw [code_ofCode _ hascii]
            exact hc
          rw [utf16.enc_ascii c hascii, List.singleton_append, List.dropWhile_cons_of_neg (by rw [hcode]; decide),
            TS.replaceForeignRuns, if_pos hcode, ih.1, if_pos rfl, if_pos rfl, Encoding.encode_cons,
            utf16.enc_ascii c hascii]
          exact ⟨rfl, rfl⟩
      | false =>
          -- one unit or a pair of surrogates: all of it belongs to the run
          have hforeign : ∀ a ∈ utf16.enc c, (!TS.isSlugCode (code a)) = true := by
            intro a ha
            rw [foreign_enc hc a ha]
            rfl
          have hdash : utf16.encode ('-' :: slugRuns true text) = chr '-' :: utf16.encode (slugRuns true text) :=
            utf16.encode_chr_cons (c := '-') (by decide)
          rw [List.dropWhile_append_of_pos hforeign, ih.2, if_neg Bool.false_ne_true, if_neg Bool.false_ne_true,
            if_neg Bool.false_ne_true, if_pos rfl, hdash]
          refine ⟨?_, rfl⟩
          cases henc : utf16.enc c with
          | nil =>
              exact absurd henc (utf16.enc_ne_nil c)
          | cons a block =>
              rw [henc, List.forall_mem_cons] at hforeign
              rw [List.cons_append, TS.replaceForeignRuns, if_neg (by simpa using hforeign.1),
                List.dropWhile_append_of_pos hforeign.2, ih.2]

theorem slugOf_eq (text : List Char) : TS.slugOf (utf16.encode text) = utf16.encode (refSlug text) := by
  have hcodes := ascii_trim (slugRuns_codes false text) "._-"
  have hascii : ∀ c ∈ Go.trim (slugRuns false text) "._-", code c < 128 := fun c hc => isSlugCode_ascii (hcodes c hc)
  rw [TS.slugOf, (replaceForeignRuns_encode text).1, trim_eq, trim_eq, encode_trim utf16 (by decide),
    utf16.take_encode_of_ascii hascii, encode_trim utf16 (by decide), refSlug]
  simp only [Encoding.encode_eq_nil_iff]
  split_ifs
  · exact (utf16.encode_lit (by decide)).symm
  · rfl

/-- A text has no surrogate without its partner. -/
theorem checkSurrogates_encode (text : List Char) : TS.checkSurrogates (utf16.encode text) = .ok () := by
  induction text with
  | nil =>
      rfl
  | cons c text ih =>
      rw [Encoding.encode_cons]
      rcases utf16_enc_cases c with ⟨a, henc, hhigh, hlow, -⟩ | ⟨a, b, henc, hhigh, hlow, -⟩
      · rw [henc, List.singleton_append]
        cases hrest : utf16.encode text with
        | nil =>
            rw [TS.checkSurrogates, hhigh, hlow]
            rfl
        | cons next raw =>
            rw [hrest] at ih
            rw [TS.checkSurrogates, hhigh, hlow, if_neg Bool.false_ne_true, if_neg Bool.false_ne_true, ih]
      · rw [henc, List.cons_append, List.singleton_append, TS.checkSurrogates, hhigh, hlow, if_pos rfl, if_pos rfl, ih]

/-! ## Names -/

theorem isSlugCode_hexDigit {n : Nat} (h : n < 16) : Go.isSlugCode (hexByte.hexDigit n) = true := by
  have hall : ∀ n < 16, Go.isSlugCode (hexByte.hexDigit n) = true := by decide
  exact hall n h

/-- Every character of a name is a slug character. -/
theorem refName_codes {slug : List Char} (h : IsSlug slug) (digest : Vector UInt8 32) :
    ∀ c ∈ refName slug digest, Go.isSlugCode (code c) = true := by
  have hlit {p : String} (hp : p.toList.all (fun c => Go.isSlugCode c.toNat) = true) :
      ∀ c ∈ (lit p : List Char), Go.isSlugCode (code c) = true := by
    intro c hc
    obtain ⟨d, hd, rfl⟩ := List.mem_map.1 hc
    have hcode := List.all_eq_true.1 hp d hd
    rwa [code_chr (isSlugCode_ascii hcode)]
  intro c hc
  rw [refName, List.mem_append, List.mem_append, List.mem_append] at hc
  rcases hc with ((hversion | hslug) | hdashes) | hdigest
  · exact hlit (by decide) c hversion
  · exact h.codes c hslug
  · exact hlit (by decide) c hdashes
  · obtain ⟨b, -, hb⟩ := List.mem_flatMap.1 hdigest
    exact forall_mem_hexByte (P := fun n => Go.isSlugCode n = true) (fun n hn => isSlugCode_hexDigit hn) b c hb

theorem length_refName_le {slug : List Char} (h : IsSlug slug) (digest : Vector UInt8 32) :
    (refName slug digest).length ≤ 149 := by
  have hdigest := length_flatMap_hexByte (α := Char) digest.toList
  have hslug := h.length_le
  rw [Vector.length_toList] at hdigest
  rw [refName, List.length_append, List.length_append, List.length_append, hdigest]
  simp only [lit, List.length_map, String.reduceToList, List.length_cons, List.length_nil]
  omega

theorem encode_refName {β : Type} [CodeUnit β] (e : Encoding Char β) (slug : List Char) (digest : Vector UInt8 32) :
    e.encode (refName slug digest) = lit "v2-" ++ e.encode slug ++ lit "--" ++ digest.toList.flatMap hexByte := by
  rw [refName, Encoding.encode_append, Encoding.encode_append, Encoding.encode_append, encode_flatMap_hexByte,
    e.encode_lit (by decide), e.encode_lit (by decide)]

/-- The digits of the digest are the end of the name. -/
theorem digest_of_refName {slug slug' : List Char} {digest digest' : Vector UInt8 32}
    (h : refName slug digest = refName slug' digest') : digest = digest' := by
  have hlength (digest : Vector UInt8 32) : (digest.toList.flatMap hexByte : List Char).length = 64 := by
    rw [length_flatMap_hexByte, Vector.length_toList]
  have hdigits := (List.append_inj' h ((hlength digest).trans (hlength digest').symm)).2
  exact Vector.toList_inj.1 (flatMap_hexByte_injective hdigits)

/-- The version in front keeps a name from being a dot segment, and its characters from being more than one. -/
theorem isComponent_refName {β : Type} [DecidableEq β] [CodeUnit β] (e : Encoding Char β) {slug : List Char}
    (h : IsSlug slug) (digest : Vector UInt8 32) : IsComponent (e.encode (refName slug digest)) := by
  have hforeign {c : Char} (hc : c.toNat < 128) (hcode : Go.isSlugCode c.toNat = false) :
      chr c ∉ e.encode (refName slug digest) := by
    intro hmem
    have hslug := refName_codes h digest _ ((e.chr_mem_encode_iff hc).1 hmem)
    rw [code_chr hc, hcode] at hslug
    cases hslug
  have hhead : (e.encode (refName slug digest)).head? = some (chr 'v') := by
    rw [encode_refName]
    rfl
  refine ⟨⟨?_, ?_, ?_, hforeign (by decide) (by decide)⟩, hforeign (by decide) (by decide),
    hforeign (by decide) (by decide), hforeign (by decide) (by decide)⟩
  · intro hnil
    rw [hnil] at hhead
    cases hhead
  · intro hdot
    rw [hdot] at hhead
    simp [lit] at hhead
  · intro hdots
    rw [hdots] at hhead
    simp [lit] at hhead

theorem encodeGitRef_go (sha256 : Bytes → Vector UInt8 32) {text : List Char} (hne : text ≠ []) (hnul : nul ∉ text) :
    Go.encodeGitRef sha256 (utf8.encode text) =
      .ok (utf8.encode (refName (refSlug text) (sha256 (utf8.encode text)))) := by
  have hbytes : utf8.encode text ≠ [] := fun hnil => hne (utf8.encode_eq_nil_iff.1 hnil)
  have hmem : nul ∉ utf8.encode text := fun hmem => hnul ((utf8.chr_mem_encode_iff (by decide)).1 hmem)
  have hvalid : Go.validString (utf8.encode text) = true := (validString_iff _).2 ⟨text, rfl⟩
  rw [Go.encodeGitRef, if_neg hbytes, if_neg hmem, hvalid, if_neg (by decide), boundedSlug_eq, encode_refName]

theorem encodeGitRef_ts (sha256 : Bytes → Vector UInt8 32) {text : List Char} (hne : text ≠ []) (hnul : nul ∉ text) :
    TS.encodeGitRef sha256 (utf16.encode text) =
      .ok (utf16.encode (refName (refSlug text) (sha256 (utf8.encode text)))) := by
  have hunits : utf16.encode text ≠ [] := fun hnil => hne (utf16.encode_eq_nil_iff.1 hnil)
  have hmem : nul ∉ utf16.encode text := fun hmem => hnul ((utf16.chr_mem_encode_iff (by decide)).1 hmem)
  rw [TS.encodeGitRef, if_neg hunits, if_neg hmem, checkSurrogates_encode, Outcome.ok_bind, slugOf_eq, transcode_encode,
    encode_refName]

/-- Both ports write one name for a ref: a bounded slug and the digest of its bytes, a single component that the strict
validator returns, and two refs of one name have one digest. -/
theorem encodeGitRef_agrees (sha256 : Bytes → Vector UInt8 32) {text : List Char} (hne : text ≠ []) (hnul : nul ∉ text) :
    ∃ slug, IsSlug slug ∧ ∃ name, name = refName slug (sha256 (utf8.encode text)) ∧
      Go.encodeGitRef sha256 (utf8.encode text) = .ok (utf8.encode name) ∧
      TS.encodeGitRef sha256 (utf16.encode text) = .ok (utf16.encode name) ∧
      (∀ c ∈ name, c.toNat < 128) ∧ name.length ≤ 149 ∧
      Go.normalizeRelative (utf8.encode name) = .ok (utf8.encode name) ∧
      (utf8.encode name).splitOn (chr '/') = [utf8.encode name] ∧ IsName (utf8.encode name) ∧
      ∀ other : List Char, other ≠ [] → nul ∉ other →
        Go.encodeGitRef sha256 (utf8.encode other) = .ok (utf8.encode name) →
          sha256 (utf8.encode other) = sha256 (utf8.encode text) := by
  have hslug := isSlug_refSlug text
  have hcomponent := isComponent_refName utf8 hslug (sha256 (utf8.encode text))
  refine ⟨refSlug text, hslug, _, rfl, encodeGitRef_go sha256 hne hnul, encodeGitRef_ts sha256 hne hnul, ?_,
    length_refName_le hslug _, hcomponent.normalizeRelative_eq, hcomponent.splitOn_eq, hcomponent.name, ?_⟩
  · exact fun c hc => isSlugCode_ascii (refName_codes hslug _ c hc)
  · intro other hother hnul' hsame
    rw [encodeGitRef_go sha256 hother hnul'] at hsame
    exact digest_of_refName (utf8.encode_injective (Except.ok.inj hsame))

/-- A branch with a letter beyond ASCII. -/
theorem encodeGitRef_agrees_branch : ∃ slug, IsSlug slug ∧
    Go.encodeGitRef Sha256.digest (utf8.encode "feature/é".toList) =
      .ok (utf8.encode (refName slug (Sha256.digest (utf8.encode "feature/é".toList)))) ∧
    TS.encodeGitRef Sha256.digest (utf16.encode "feature/é".toList) =
      .ok (utf16.encode (refName slug (Sha256.digest (utf8.encode "feature/é".toList)))) := by
  have hne : "feature/é".toList ≠ [] := by
    decide
  have hnul : nul ∉ "feature/é".toList := by
    decide
  obtain ⟨slug, hslug, name, rfl, hgo, hts, -⟩ := encodeGitRef_agrees Sha256.digest hne hnul
  exact ⟨slug, hslug, hgo, hts⟩

end Ports

end CanonicalPath
