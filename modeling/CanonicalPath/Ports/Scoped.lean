import CanonicalPath.Identity.Strict
import CanonicalPath.Ports.Normalize
import CanonicalPath.TS.Scoped

/-!
# Scoped — the scope policy in the two ports

Both ports accept the same plain paths; one counts scalar values, the other units.

* `PlainScoped` : what both ask of a path, apart from its length
* `validateScoped_go_iff`, `validateScoped_ts_iff` : what each accepts
* `scopedPath_agrees_iff` : they differ on paths that are too long in units only
-/

namespace CanonicalPath

namespace Ports

open CodeUnit Segments Outcome

open Go (UnityMCPPathScope)

/-! ## Text functions -/

section Tests

variable {α : Type} [CodeUnit α]

theorem exists_of_matches? {p : Pattern} {s : List α} (h : matches? p s = true) {test : Nat → Bool}
    (htest : test ∈ p) : ∃ a ∈ s, test (code a) = true := by
  induction p generalizing s with
  | nil =>
      exact absurd htest List.not_mem_nil
  | cons first p ih =>
      cases s with
      | nil =>
          cases h
      | cons a s =>
          rw [matches?_cons_cons, Bool.and_eq_true] at h
          rcases List.mem_cons.1 htest with rfl | htest
          · exact ⟨a, List.mem_cons_self, h.1⟩
          · obtain ⟨b, hb, hpass⟩ := ih h.2 htest
            exact ⟨b, List.mem_cons_of_mem _ hb, hpass⟩

end Tests

/-- A needle that no case mapping touches. -/
def Lowered (needle : List Char) : Prop :=
  ∀ c ∈ needle, c.toNat < 128 ∧ ¬(65 ≤ c.toNat ∧ c.toNat ≤ 90) ∧ c ≠ 'i' ∧ c ≠ 'k'

instance (needle : List Char) : Decidable (Lowered needle) :=
  List.decidableBAll (fun c : Char => c.toNat < 128 ∧ ¬(65 ≤ c.toNat ∧ c.toNat ≤ 90) ∧ c ≠ 'i' ∧ c ≠ 'k') needle

/-- The test of `Pattern.anyCase` for one character. -/
def anyCase (c : Char) (n : Nat) : Bool :=
  (if 65 ≤ n ∧ n ≤ 90 then n + 32 else n) == c.toNat

theorem lower_eq_iff {c : Char} (hc : c.toNat < 128) (a : UInt8) :
    (chr c == lower a) = anyCase c (code a) := by
  rw [Bool.eq_iff_iff, beq_iff_eq, eq_comm, eq_chr_iff hc, anyCase, beq_iff_eq, code_lower]

/-- A lowered needle leads a lowered text where its pattern leads the text. -/
theorem isPrefixOf_toLower {needle : List Char} (h : Lowered needle) (value : Bytes) :
    (needle.map chr).isPrefixOf (Go.toLower value) = matches? (needle.map anyCase) value := by
  induction needle generalizing value with
  | nil =>
      simp
  | cons c needle ih =>
      have hc := h c List.mem_cons_self
      have htail : Lowered needle := fun d hd => h d (List.mem_cons_of_mem c hd)
      -- the two letters whose lower case is ASCII lead no needle
      have hfar {n : Nat} (hn : 128 ≤ n) : anyCase c n = false := by
        rw [anyCase, if_neg (by omega), beq_eq_false_iff_ne]
        omega
      have hother {d : Char} (hd : d.toNat < 128) (hne : c ≠ d) : ((chr c : UInt8) == chr d) = false := by
        rw [beq_eq_false_iff_ne]
        intro heq
        exact hne ((chr_eq_chr_iff hc.1 hd).1 heq)
      cases value using Go.toLower.induct with
      | case1 =>
          rfl
      | case2 value =>
          rw [Go.toLower, List.map_cons, List.map_cons, List.isPrefixOf, matches?_cons_cons,
            hother (by decide) hc.2.2.1, hfar (by decide), Bool.false_and, Bool.false_and]
      | case3 value =>
          rw [Go.toLower, List.map_cons, List.map_cons, List.isPrefixOf, matches?_cons_cons,
            hother (by decide) hc.2.2.2, hfar (by decide), Bool.false_and, Bool.false_and]
      | case4 a value hdotted hkelvin =>
          rw [Go.toLower, List.map_cons, List.map_cons, List.isPrefixOf, matches?_cons_cons,
            lower_eq_iff hc.1, ih htail]
          · exact hdotted
          · exact hkelvin

theorem contains_cons (a : UInt8) (value needle : Bytes) :
    Go.contains (a :: value) needle = (needle.isPrefixOf (a :: value) || Go.contains value needle) := by
  rw [Go.contains, Go.contains, before]
  by_cases hleads : needle.isPrefixOf (a :: value) = true
  · rw [if_pos hleads, hleads]
    rfl
  · rw [if_neg hleads, Option.isSome_map, Bool.eq_false_iff.2 hleads, Bool.false_or]

/-- No test of the pattern passes a unit beyond ASCII. -/
theorem matches?_far {p : Pattern} (hp : p.Ascii) (hne : p ≠ []) {a : UInt8} (ha : 128 ≤ code a) (value : Bytes) :
    matches? p (a :: value) = false := by
  cases p with
  | nil =>
      exact absurd rfl hne
  | cons test p =>
      rw [matches?_cons_cons, hp test List.mem_cons_self _ ha, Bool.false_and]

theorem contains_toLower {needle : String} (h : Lowered needle.toList) (hne : needle.toList ≠ []) (value : Bytes) :
    Go.contains (Go.toLower value) (lit needle) = occurs? (Pattern.anyCase needle) value := by
  have hascii : (Pattern.anyCase needle).Ascii := Pattern.anyCase_ascii fun c hc => (h c hc).1
  have hpattern : Pattern.anyCase needle ≠ [] := by
    rw [Pattern.anyCase, ne_eq, List.map_eq_nil_iff]
    exact hne
  have hleads (value : Bytes) :
      (lit needle).isPrefixOf (Go.toLower value) = matches? (Pattern.anyCase needle) value :=
    isPrefixOf_toLower h value
  induction value using Go.toLower.induct with
  | case1 =>
      rw [Go.toLower, Go.contains, before, occurs?, ← hleads, Go.toLower]
      cases List.isPrefixOf (lit needle) ([] : Bytes) <;> rfl
  | case2 value ih =>
      have hwhole := hleads (0xC4 :: 0xB0 :: value)
      rw [Go.toLower] at hwhole
      rw [Go.toLower, contains_cons, ih, hwhole, occurs?, occurs?,
        matches?_far hascii hpattern (a := 0xB0) (by decide), Bool.false_or]
  | case3 value ih =>
      have hwhole := hleads (0xE2 :: 0x84 :: 0xAA :: value)
      rw [Go.toLower] at hwhole
      rw [Go.toLower, contains_cons, ih, hwhole, occurs?, occurs?, occurs?,
        matches?_far hascii hpattern (a := 0x84) (by decide),
        matches?_far hascii hpattern (a := 0xAA) (by decide), Bool.false_or, Bool.false_or]
  | case4 a value hdotted hkelvin ih =>
      have hwhole := hleads (a :: value)
      rw [Go.toLower.eq_4 _ _ hdotted hkelvin] at hwhole
      rw [Go.toLower.eq_4 _ _ hdotted hkelvin, contains_cons, ih, hwhole, occurs?]

/-- The lower case mapping makes no colon. -/
theorem colon_mem_of_mem_toLower {value : Bytes} (h : chr ':' ∈ Go.toLower value) : chr ':' ∈ value := by
  induction value using Go.toLower.induct with
  | case1 =>
      exact h
  | case2 value ih =>
      rw [Go.toLower, List.mem_cons] at h
      apply List.mem_cons_of_mem
      apply List.mem_cons_of_mem
      exact ih (h.resolve_left (by decide))
  | case3 value ih =>
      rw [Go.toLower, List.mem_cons] at h
      apply List.mem_cons_of_mem
      apply List.mem_cons_of_mem
      apply List.mem_cons_of_mem
      exact ih (h.resolve_left (by decide))
  | case4 a value hdotted hkelvin ih =>
      rw [Go.toLower.eq_4 _ _ hdotted hkelvin, List.mem_cons] at h
      rcases h with heq | htail
      · have hcode := code_lower (a := a)
        rw [← heq, code_chr (by decide)] at hcode
        have ha : a = chr ':' := by
          rw [eq_chr_iff (by decide)]
          split_ifs at hcode with hcapital
          · have hcolon : (':').toNat = 58 := rfl
            omega
          · exact hcode.symm
        rw [ha]
        exact List.mem_cons_self
      · exact List.mem_cons_of_mem a (ih htail)

theorem hasEncodedScopedSeparator_eq (raw : Bytes) :
    Go.hasEncodedScopedSeparator raw = TS.hasEncodedScopedSeparator raw := by
  rw [Go.hasEncodedScopedSeparator, TS.hasEncodedScopedSeparator]
  rw [contains_toLower (by decide) (by decide), contains_toLower (by decide) (by decide),
    contains_toLower (by decide) (by decide), contains_toLower (by decide) (by decide)]

/-! ## Plain scoped paths -/

section Plain

variable {α : Type} [DecidableEq α] [CodeUnit α]

/-- What both ports ask of a component, apart from its length.  It is no dot entry: those end in a dot. -/
structure PlainPart (part : List α) : Prop where
  ne_nil : part ≠ []
  noColon : chr ':' ∉ part
  noDot : Go.hasSuffix part [chr '.'] = false
  noSpace : Go.hasSuffix part [chr ' '] = false

/-- What both ports ask of a path, apart from its lengths. -/
structure PlainScoped (raw : List α) : Prop where
  noNul : nul ∉ raw
  noBackslash : chr '\\' ∉ raw
  noEscape : TS.hasEncodedScopedSeparator raw = false
  plain : ∀ part ∈ raw.splitOn (chr '/'), PlainPart part

theorem hasSuffix_chr_iff {value : List α} {c : Char} :
    Go.hasSuffix value [chr c] = true ↔ ∃ front, value = front ++ [chr c] := by
  rw [Go.hasSuffix, List.isSuffixOf_iff_suffix]
  constructor
  · rintro ⟨front, hfront⟩
    exact ⟨front, hfront.symm⟩
  · rintro ⟨front, hfront⟩
    exact ⟨front, hfront.symm⟩

theorem PlainPart.ne_dot {part : List α} (h : PlainPart part) : part ≠ lit "." := by
  intro hdot
  have hsuffix : Go.hasSuffix part [chr '.'] = true := hasSuffix_chr_iff.2 ⟨[], hdot⟩
  rw [h.noDot] at hsuffix
  cases hsuffix

theorem PlainPart.ne_dots {part : List α} (h : PlainPart part) : part ≠ lit ".." := by
  intro hdots
  have hsuffix : Go.hasSuffix part [chr '.'] = true := hasSuffix_chr_iff.2 ⟨[chr '.'], hdots⟩
  rw [h.noDot] at hsuffix
  cases hsuffix

namespace PlainScoped

variable {raw : List α}

theorem noColon (h : PlainScoped raw) : chr ':' ∉ raw := by
  intro hcolon
  obtain ⟨part, hpart, hmem⟩ := exists_mem_splitOn_of_mem (by simp) hcolon
  exact (h.plain part hpart).noColon hmem

theorem ne_nil (h : PlainScoped raw) : raw ≠ [] := by
  intro hnil
  rw [hnil] at h
  exact (h.plain [] List.mem_cons_self).ne_nil rfl

theorem noSlash (h : PlainScoped raw) : Go.hasPrefix raw (lit "/") = false := by
  rw [Bool.eq_false_iff]
  intro hslash
  obtain ⟨tail, rfl⟩ := Go.hasPrefix_iff.1 hslash
  have hempty : [] ∈ (lit "/" ++ tail).splitOn (chr '/') := by
    rw [lit, show "/".toList = ['/'] from rfl, List.map_singleton, List.singleton_append,
      List.splitOn_cons_eq_if_modifyHead, if_pos (beq_self_eq_true _)]
    exact List.mem_cons_self
  exact (h.plain [] hempty).ne_nil rfl

theorem noMarker (h : PlainScoped raw) : Go.needsRelativeMarker raw = false :=
  needsRelativeMarker_of_noColon h.noColon

end PlainScoped

/-! ## What the TypeScript port accepts -/

theorem needsRelativeMarker_of_isDriveAbsolute {raw : List α} (h : TS.isDriveAbsolute raw = true) :
    Go.needsRelativeMarker raw = true := by
  match raw with
  | [] => cases h
  | [a] => cases h
  | [a, b] => cases h
  | a :: b :: c :: rest =>
      simp only [TS.isDriveAbsolute, Bool.and_eq_true] at h
      rw [Go.needsRelativeMarker, h.1.1, h.1.2]
      rfl

theorem needsRelativeMarker_of_isDriveQualified {raw : List α} (h : TS.isDriveQualified raw = true) :
    Go.needsRelativeMarker raw = true := by
  match raw with
  | [] => cases h
  | [a] => cases h
  | a :: b :: rest =>
      simp only [TS.isDriveQualified, Bool.and_eq_true] at h
      rw [Go.needsRelativeMarker, h.1.1, h.1.2]
      rfl

theorem not_isInvalidPart_iff {part : List α} :
    TS.isInvalidPart part = false ↔ PlainPart part := by
  rw [TS.isInvalidPart]
  simp only [Bool.or_eq_false_iff, beq_eq_false_iff_ne, decide_eq_false_iff_not]
  constructor
  · rintro ⟨⟨⟨⟨hnil, hdot⟩, hcolon⟩, hend⟩, hspace⟩
    exact ⟨hnil, hcolon, hend, hspace⟩
  · intro h
    exact ⟨⟨⟨⟨h.ne_nil, h.ne_dot⟩, h.noColon⟩, h.noDot⟩, h.noSpace⟩

/-- A path within limits that some text measures. -/
def WithinLimits (measure : List α → Nat) (raw : List α) : Prop :=
  measure raw ≤ 4096 ∧ ∀ part ∈ raw.splitOn (chr '/'), measure part ≤ 255

instance (measure : List α → Nat) (raw : List α) : Decidable (WithinLimits measure raw) :=
  inferInstanceAs (Decidable (_ ∧ _))

/-- A rejection accepts nothing. -/
theorem newError_eq_ok_iff {β : Type} {kind : ErrorCode} {text : String} {clean : β} {accepts : Prop}
    (h : ¬accepts) : (newError kind text : Except PathError β) = .ok clean ↔ accepts := by
  apply iff_of_false
  · intro heq
    cases heq
  · exact h

theorem PlainScoped.not_isFileUri {raw : List α} (h : PlainScoped raw) : TS.isFileUri raw = false := by
  rw [Bool.eq_false_iff]
  intro hfile
  -- the scheme ends in a colon
  have htest : anyCase ':' ∈ Pattern.anyCase "file://" := List.mem_map.2 ⟨':', by decide, rfl⟩
  obtain ⟨a, ha, hcolon⟩ := exists_of_matches? hfile htest
  have hcode : code a = 58 := by
    have heq := beq_iff_eq.1 hcolon
    have hvalue : (':').toNat = 58 := rfl
    split_ifs at heq with hcapital
    · omega
    · omega
  have hcolon : a = chr ':' := (eq_chr_iff (by decide)).2 hcode
  rw [hcolon] at ha
  exact h.noColon ha

theorem validateScoped_ts_iff {raw clean : List α} :
    TS.validateScopedRelativeInput raw = .ok clean ↔
      clean = raw ∧ PlainScoped raw ∧ WithinLimits List.length raw := by
  rw [TS.validateScopedRelativeInput]
  simp only [newError, ite_error_eq_ok_iff]
  constructor
  · rintro ⟨hnil, hnul, hfile, hescape, habs, hdrive, hback, hup, hinvalid, hlong, heq⟩
    -- the four facts that are kept; the other tests follow from them
    rw [Bool.or_eq_true_iff, not_or] at hlong
    have hplain : PlainScoped raw := {
      noNul := hnul
      noBackslash := hback
      noEscape := Bool.eq_false_iff.2 hescape
      plain := by
        intro part hpart
        apply not_isInvalidPart_iff.1
        rw [Bool.eq_false_iff]
        intro hbad
        exact hinvalid (List.any_eq_true.2 ⟨part, hpart, hbad⟩)
    }
    have hlimits : WithinLimits List.length raw := by
      constructor
      · apply Nat.le_of_not_gt
        intro hover
        exact hlong.1 (decide_eq_true hover)
      · intro part hpart
        apply Nat.le_of_not_gt
        intro hover
        exact hlong.2 (List.any_eq_true.2 ⟨part, hpart, decide_eq_true hover⟩)
    cases heq
    exact ⟨rfl, hplain, hlimits⟩
  · rintro ⟨heq, hplain, hlimits⟩
    refine ⟨hplain.ne_nil, hplain.noNul, ?_, ?_, ?_, ?_, hplain.noBackslash, ?_, ?_, ?_, by rw [heq]⟩
    · rw [hplain.not_isFileUri]
      exact Bool.false_ne_true
    · rw [hplain.noEscape]
      exact Bool.false_ne_true
    · -- an absolute path starts with a separator or reads as a drive
      intro habs
      have hslash : TS.startsWith raw (lit "/") = false := hplain.noSlash
      have hshare : TS.startsWith raw (lit "\\\\") = false := hasPrefix_backslashes_of_plain hplain.noBackslash
      rw [hslash, hshare, Bool.false_or, Bool.false_or] at habs
      have hmarker := needsRelativeMarker_of_isDriveAbsolute habs
      rw [hplain.noMarker] at hmarker
      cases hmarker
    · intro hdrive
      have hmarker := needsRelativeMarker_of_isDriveQualified hdrive
      rw [hplain.noMarker] at hmarker
      cases hmarker
    · intro hup
      obtain ⟨part, hpart, hdots⟩ := List.any_eq_true.1 hup
      exact (hplain.plain part hpart).ne_dots (eq_of_beq hdots)
    · intro hinvalid
      obtain ⟨part, hpart, hbad⟩ := List.any_eq_true.1 hinvalid
      rw [not_isInvalidPart_iff.2 (hplain.plain part hpart)] at hbad
      cases hbad
    · -- the whole and every component
      intro hlong
      rcases Bool.or_eq_true_iff.1 hlong with hraw | hparts
      · exact Nat.not_lt_of_ge hlimits.1 (of_decide_eq_true hraw)
      · obtain ⟨part, hpart, hover⟩ := List.any_eq_true.1 hparts
        exact Nat.not_lt_of_ge (hlimits.2 part hpart) (of_decide_eq_true hover)

end Plain

/-! ## What the Go port accepts -/

theorem validateScopedPart_iff {part : Bytes} :
    Go.validateScopedPart part = .ok () ↔ PlainPart part ∧ Go.runeCount part ≤ 255 := by
  rw [Go.validateScopedPart_eq_ok_iff]
  constructor
  · rintro ⟨hnil, _, _, hcolon, hend, hspace, hlimit⟩
    exact ⟨⟨hnil, hcolon, hend, hspace⟩, hlimit⟩
  · rintro ⟨hplain, hlimit⟩
    exact ⟨hplain.ne_nil, hplain.ne_dot, hplain.ne_dots, hplain.noColon, hplain.noDot, hplain.noSpace, hlimit⟩

theorem validateScoped_go_iff {raw clean : Bytes} :
    Go.validateUnityMCPScopedRelativeInput raw = .ok clean ↔
      clean = raw ∧ PlainScoped raw ∧ WithinLimits Go.runeCount raw := by
  rw [Go.validateUnityMCPScopedRelativeInput]
  simp only [newError, ite_error_eq_ok_iff, bind_eq_ok_iff]
  constructor
  · rintro ⟨hnil, hnul, hfile, hescape, habs, hdrive, hback, _, hparts, hlong, heq⟩
    have hpart (part : Bytes) (hmem : part ∈ raw.splitOn (chr '/')) : PlainPart part ∧ Go.runeCount part ≤ 255 :=
      validateScopedPart_iff.1 (Go.validateScopedParts_eq_ok_iff.1 hparts part hmem)
    have hplain : PlainScoped raw := {
      noNul := hnul
      noBackslash := hback
      noEscape := by
        rw [← hasEncodedScopedSeparator_eq]
        exact Bool.eq_false_iff.2 hescape
      plain := fun part hmem => (hpart part hmem).1
    }
    cases heq
    exact ⟨rfl, hplain, Nat.le_of_not_gt hlong, fun part hmem => (hpart part hmem).2⟩
  · rintro ⟨heq, hplain, hlimits⟩
    refine ⟨hplain.ne_nil, hplain.noNul, ?_, ?_, ?_, ?_, hplain.noBackslash, (), ?_, Nat.not_lt_of_ge hlimits.1,
      by rw [heq]⟩
    · intro hfile
      -- the scheme ends in a colon, and lowering makes none
      obtain ⟨tail, htail⟩ := Go.hasPrefix_iff.1 hfile
      apply hplain.noColon
      apply colon_mem_of_mem_toLower
      rw [htail]
      apply List.mem_append_left
      decide
    · rw [hasEncodedScopedSeparator_eq, hplain.noEscape]
      exact Bool.false_ne_true
    · rw [hplain.noSlash, hasPrefix_backslashes_of_plain hplain.noBackslash, replaceAll_of_not_mem hplain.noBackslash,
        Go.hasDriveRoot_eq_false_of_marker hplain.noMarker]
      exact Bool.false_ne_true
    · rw [Go.isDriveRelative_eq, hplain.noMarker]
      exact Bool.false_ne_true
    · apply Go.validateScopedParts_eq_ok_iff.2
      intro part hmem
      exact validateScopedPart_iff.2 ⟨hplain.plain part hmem, hlimits.2 part hmem⟩

/-! ## Spellings -/

theorem runeCountFrom_append {skip : Nat} {block : Bytes} (h : block.length = skip) (value : Bytes) :
    Go.runeCountFrom skip (block ++ value) = Go.runeCountFrom 0 value := by
  induction block generalizing skip with
  | nil =>
      rw [← h]
      rfl
  | cons b block ih =>
      cases skip with
      | zero =>
          cases h
      | succ skip =>
          rw [List.cons_append, Go.runeCountFrom]
          exact ih (Nat.succ.inj h)

theorem runeWidth_enc (c : Char) (value : Bytes) : Go.runeWidth (utf8.enc c ++ value) = c.utf8Size := by
  have hbytes : ByteArray.mk (utf8.enc c ++ value).toArray =
      (String.utf8EncodeChar c).toByteArray ++ value.toByteArray := by
    rw [← List.toByteArray_append]
    apply ByteArray.ext
    rw [List.data_toByteArray]
    rfl
  rw [Go.runeWidth, hbytes, ByteArray.utf8DecodeChar?_utf8EncodeChar_append]

/-- A rune is counted for every scalar value. -/
theorem runeCount_encode (text : List Char) : Go.runeCount (utf8.encode text) = text.length := by
  induction text with
  | nil =>
      rfl
  | cons c text ih =>
      rw [Go.runeCount] at ih ⊢
      have hlength : (utf8.enc c).length = c.utf8Size := String.length_utf8EncodeChar c
      cases henc : utf8.enc c with
      | nil =>
          exact absurd henc (utf8.enc_ne_nil c)
      | cons b block =>
          have hwidth := runeWidth_enc c (utf8.encode text)
          rw [henc, List.cons_append] at hwidth
          rw [henc, List.length_cons] at hlength
          rw [Encoding.encode_cons, henc, List.cons_append, Go.runeCountFrom, hwidth, List.length_cons,
            runeCountFrom_append (by omega), ih]

section Encoded

variable {α β : Type} [DecidableEq α] [CodeUnit α] [DecidableEq β] [CodeUnit β] (e : Encoding α β)

theorem hasSuffix_chr_encode {c : Char} (hc : c.toNat < 128) (part : List α) :
    Go.hasSuffix (e.encode part) [chr c] = Go.hasSuffix part [chr c] := by
  rw [Bool.eq_iff_iff, hasSuffix_chr_iff, hasSuffix_chr_iff]
  induction part using List.reverseRecOn with
  | nil =>
      simp
  | append_singleton front a ih =>
      rw [e.exists_encode_concat_iff hc]
      constructor
      · intro ha
        exact ⟨front, by rw [ha]⟩
      · rintro ⟨front', hfront⟩
        exact (List.append_inj' hfront rfl).2 |> List.singleton_injective

theorem plainPart_encode_iff {part : List α} : PlainPart (e.encode part) ↔ PlainPart part := by
  constructor
  · intro h
    exact ⟨fun hnil => h.ne_nil (e.encode_eq_nil_iff.2 hnil),
      fun hcolon => h.noColon ((e.chr_mem_encode_iff (by decide)).2 hcolon),
      by rw [← hasSuffix_chr_encode e (by decide), h.noDot], by rw [← hasSuffix_chr_encode e (by decide), h.noSpace]⟩
  · intro h
    exact ⟨fun hnil => h.ne_nil (e.encode_eq_nil_iff.1 hnil),
      fun hcolon => h.noColon ((e.chr_mem_encode_iff (by decide)).1 hcolon),
      by rw [hasSuffix_chr_encode e (by decide), h.noDot], by rw [hasSuffix_chr_encode e (by decide), h.noSpace]⟩

omit [DecidableEq α] [DecidableEq β] in
theorem hasEncodedScopedSeparator_encode (raw : List α) :
    TS.hasEncodedScopedSeparator (e.encode raw) = TS.hasEncodedScopedSeparator raw := by
  rw [TS.hasEncodedScopedSeparator, TS.hasEncodedScopedSeparator,
    e.occurs?_encode (Pattern.anyCase_ascii (by decide)) (by decide),
    e.occurs?_encode (Pattern.anyCase_ascii (by decide)) (by decide),
    e.occurs?_encode (Pattern.anyCase_ascii (by decide)) (by decide),
    e.occurs?_encode (Pattern.anyCase_ascii (by decide)) (by decide)]

theorem plainScoped_encode_iff {raw : List α} : PlainScoped (e.encode raw) ↔ PlainScoped raw := by
  have hparts : (∀ part ∈ (e.encode raw).splitOn (chr '/'), PlainPart part) ↔
      ∀ part ∈ raw.splitOn (chr '/'), PlainPart part := by
    rw [e.encode_splitOn (by decide), List.forall_mem_map]
    simp only [plainPart_encode_iff]
  have hmem {c : Char} (hc : c.toNat < 128) : chr c ∉ e.encode raw ↔ chr c ∉ raw :=
    (e.chr_mem_encode_iff hc).not
  constructor
  · intro h
    exact ⟨(hmem (by decide)).1 h.noNul, (hmem (by decide)).1 h.noBackslash,
      by rw [← hasEncodedScopedSeparator_encode e, h.noEscape], hparts.1 h.plain⟩
  · intro h
    exact ⟨(hmem (by decide)).2 h.noNul, (hmem (by decide)).2 h.noBackslash,
      by rw [hasEncodedScopedSeparator_encode e, h.noEscape], hparts.2 h.plain⟩

theorem withinLimits_encode_iff (measure : List β → Nat) (raw : List α) :
    WithinLimits measure (e.encode raw) ↔ WithinLimits (fun part => measure (e.encode part)) raw := by
  rw [WithinLimits, WithinLimits, e.encode_splitOn (by decide), List.forall_mem_map]

end Encoded

/-! ## The policy -/

section Policy

variable {α β : Type} [DecidableEq α] [CodeUnit α] [DecidableEq β] [CodeUnit β] (e : Encoding α β)

/-- The scope admits the path. -/
def Admits (path : List α) : UnityMCPPathScope → Bool
  | .unityAsset => TS.startsWithAny path ["Assets", "Packages"]
  | .packageManifest => path == lit "Packages/manifest.json" || path == lit "Packages/packages-lock.json"
  | .knowledge | .tempSession => TS.isPlainScopeRelative path
  | .artifact => TS.startsWithAny path ["job-artifacts", "screenshots"]
  | .gatewayCache => TS.startsWithAny path ["index"]
  | .other _ => false

/-- The kind of a result and the directory that the scope puts before a path. -/
def placement : UnityMCPPathScope → Go.ScopedPathKind × String
  | .knowledge => (.project, "Assets/UnityMcpKnowledge/")
  | .artifact => (.project, "Library/SGGUnityMcp/")
  | .tempSession => (.project, "Temp/SGGUnityMcp/")
  | .gatewayCache => (.cache, "")
  | .unityAsset | .packageManifest | .other _ => (.project, "")

omit [DecidableEq α] [CodeUnit α] in
theorem scopedProjectPath_eq_ok_iff {scope : UnityMCPPathScope} {path : List α} {allowed : Bool}
    {result : TS.ScopedPathResult α} :
    TS.scopedProjectPath scope path allowed = .ok result ↔ allowed = true ∧ result = ⟨scope, .project, path⟩ := by
  cases allowed with
  | false =>
      exact newError_eq_ok_iff fun h => Bool.false_ne_true h.1
  | true =>
      constructor
      · intro heq
        cases heq
        exact ⟨rfl, rfl⟩
      · rintro ⟨_, heq⟩
        rw [heq]
        rfl

omit [DecidableEq α] in
theorem prefixedScopedProjectPath_eq_ok_iff {scope : UnityMCPPathScope} {root : String} {path : List α}
    {allowed : Bool} {result : TS.ScopedPathResult α} :
    TS.prefixedScopedProjectPath scope root path allowed = .ok result ↔
      allowed = true ∧ result = ⟨scope, .project, lit root ++ lit "/" ++ path⟩ :=
  scopedProjectPath_eq_ok_iff

theorem startsWith_lit_of_short {file leader : String} (h : file.toList.length < leader.toList.length) :
    TS.startsWith (lit file : List α) (lit leader) = false := by
  rw [TS.startsWith, Bool.eq_false_iff]
  intro hleads
  have hlength := (List.isPrefixOf_iff_prefix.1 hleads).length_le
  rw [lit, lit, List.length_map, List.length_map] at hlength
  exact Nat.not_lt_of_ge hlength h

/-- No path is a manifest file and lies below it. -/
theorem packageManifestPath_eq_ok_iff {scope : UnityMCPPathScope} {path : List α} {result : TS.ScopedPathResult α} :
    TS.packageManifestPath scope path = .ok result ↔
      (path == lit "Packages/manifest.json" || path == lit "Packages/packages-lock.json") = true ∧
        result = ⟨scope, .project, path⟩ := by
  rw [TS.packageManifestPath]
  split_ifs with hbelow
  · apply newError_eq_ok_iff
    rintro ⟨hfile, _⟩
    rcases Bool.or_eq_true_iff.1 hfile with hmanifest | hlock
    · rw [eq_of_beq hmanifest, startsWith_lit_of_short (by decide), startsWith_lit_of_short (by decide)] at hbelow
      cases hbelow
    · have hother : TS.startsWith (lit "Packages/packages-lock.json" : List α) (lit "Packages/manifest.json/") = false := by
        have hhead : (lit "packages-lock.json" : List α).head? ≠ some (chr 'm') := by
          simp [lit]
        calc
          TS.startsWith (lit "Packages/packages-lock.json" : List α) (lit "Packages/manifest.json/")
              = Go.hasPrefix (lit "Packages/" ++ lit "packages-lock.json" : List α)
                  (lit "Packages/" ++ lit "manifest.json/") := rfl
          _ = Go.hasPrefix (lit "packages-lock.json" : List α) (lit "manifest.json/") :=
              Go.hasPrefix_append_append _ _ _
          _ = false := Go.hasPrefix_cons_eq_false hhead
      rw [eq_of_beq hlock, hother, startsWith_lit_of_short (by decide)] at hbelow
      cases hbelow
  · exact scopedProjectPath_eq_ok_iff

theorem applyScope_eq_ok_iff {scope : UnityMCPPathScope} {clean : List α} {result : TS.ScopedPathResult α} :
    TS.applyScope scope clean = .ok result ↔
      Admits clean scope = true ∧ result = ⟨scope, (placement scope).1, lit (placement scope).2 ++ clean⟩ := by
  cases scope with
  | unityAsset =>
      exact scopedProjectPath_eq_ok_iff
  | knowledge =>
      exact prefixedScopedProjectPath_eq_ok_iff
  | packageManifest =>
      exact packageManifestPath_eq_ok_iff
  | artifact =>
      exact prefixedScopedProjectPath_eq_ok_iff
  | gatewayCache =>
      rw [TS.applyScope, Admits]
      cases TS.startsWithAny clean ["index"] with
      | false =>
          exact newError_eq_ok_iff fun h => Bool.false_ne_true h.1
      | true =>
          constructor
          · intro heq
            cases heq
            exact ⟨rfl, rfl⟩
          · rintro ⟨_, heq⟩
            rw [heq]
            rfl
  | tempSession =>
      exact prefixedScopedProjectPath_eq_ok_iff
  | other name =>
      exact newError_eq_ok_iff fun h => Bool.false_ne_true h.1

theorem normalizeScopedPath_eq_ok_iff {scope : UnityMCPPathScope} {raw : List α} {result : TS.ScopedPathResult α} :
    TS.normalizeScopedPath scope raw = .ok result ↔
      (PlainScoped raw ∧ WithinLimits List.length raw ∧ Admits raw scope = true) ∧
        result = ⟨scope, (placement scope).1, lit (placement scope).2 ++ raw⟩ := by
  rw [TS.normalizeScopedPath, bind_eq_ok_iff]
  constructor
  · rintro ⟨clean, hclean, hresult⟩
    obtain ⟨rfl, hplain, hlimits⟩ := validateScoped_ts_iff.1 hclean
    obtain ⟨hadmits, heq⟩ := applyScope_eq_ok_iff.1 hresult
    exact ⟨⟨hplain, hlimits, hadmits⟩, heq⟩
  · rintro ⟨⟨hplain, hlimits, hadmits⟩, heq⟩
    exact ⟨raw, validateScoped_ts_iff.2 ⟨rfl, hplain, hlimits⟩, applyScope_eq_ok_iff.2 ⟨hadmits, heq⟩⟩

omit [DecidableEq α] in
theorem lit_append (p q : String) : (lit p ++ lit q : List α) = lit (p ++ q) := by
  rw [lit, lit, lit, String.toList_append, List.map_append]

theorem startsWithAny_encode {roots : List String} (h : ∀ root ∈ roots, IsAscii root) (path : List α) :
    TS.startsWithAny (e.encode path) roots = TS.startsWithAny path roots := by
  rw [TS.startsWithAny, TS.startsWithAny]
  induction roots with
  | nil =>
      rfl
  | cons root roots ih =>
      have hroot : IsAscii root := h root List.mem_cons_self
      have hbelow : IsAscii (root ++ "/") := by
        intro c hc
        rw [String.toList_append, List.mem_append] at hc
        have hslash : IsAscii "/" := by decide
        exact hc.elim (hroot c) (hslash c)
      have heq : (e.encode path == lit root) = (path == lit root) := by
        rw [Bool.eq_iff_iff, beq_iff_eq, beq_iff_eq, e.encode_eq_lit_iff hroot]
      have hleads : TS.startsWith (e.encode path) (lit root ++ lit "/") = TS.startsWith path (lit root ++ lit "/") := by
        rw [lit_append, lit_append]
        exact e.isPrefixOf_lit_encode hbelow
      rw [List.any_cons, List.any_cons, heq, hleads, ih fun root' hmem => h root' (List.mem_cons_of_mem root hmem)]

theorem admits_encode (path : List α) (scope : UnityMCPPathScope) :
    Admits (e.encode path) scope = Admits path scope := by
  cases scope with
  | unityAsset =>
      exact startsWithAny_encode e (by decide) path
  | knowledge =>
      exact congrArg (!·) (startsWithAny_encode e (by decide) path)
  | packageManifest =>
      rw [Admits, Admits, Bool.eq_iff_iff]
      simp only [Bool.or_eq_true, beq_iff_eq]
      rw [e.encode_eq_lit_iff (by decide), e.encode_eq_lit_iff (by decide)]
  | artifact =>
      exact startsWithAny_encode e (by decide) path
  | gatewayCache =>
      exact startsWithAny_encode e (by decide) path
  | tempSession =>
      exact congrArg (!·) (startsWithAny_encode e (by decide) path)
  | other name =>
      rfl

end Policy

/-! ## Both ports -/

/-- Both results have one scope and one kind, and spell one path. -/
def SameScoped (go : Go.ScopedPathResult) (ts : TS.ScopedPathResult UInt16) : Prop :=
  go.scope = ts.scope ∧ go.kind = ts.kind ∧ SameText go.path ts.path

/-- The path is acceptable in scalar values and too long in units. -/
def LongInUnits (scope : UnityMCPPathScope) (text : List Char) : Prop :=
  PlainScoped text ∧ Admits text scope = true ∧ WithinLimits List.length text ∧
    ¬WithinLimits (fun part => (utf16.encode part).length) text

/-- The result of the Go port from its fields. -/
def goResult (result : TS.ScopedPathResult UInt8) : Go.ScopedPathResult :=
  ⟨result.scope, result.kind, result.path⟩

/-- The two switches are one. -/
theorem normalizeUnityMCPScopedPath_eq (scope : UnityMCPPathScope) (raw : Bytes) :
    Go.normalizeUnityMCPScopedPath scope raw =
      Go.validateUnityMCPScopedRelativeInput raw >>= fun clean => mapOk goResult (TS.applyScope scope clean) := by
  have hproject (path : Bytes) (allowed : Bool) :
      Go.scopedProjectPath scope path allowed = mapOk goResult (TS.scopedProjectPath scope path allowed) := by
    cases allowed <;> rfl
  have hprefixed (root : String) (path : Bytes) (allowed : Bool) :
      Go.prefixedScopedProjectPath scope root path allowed =
        mapOk goResult (TS.prefixedScopedProjectPath scope root path allowed) := by
    cases allowed <;> rfl
  have hany (path : Bytes) (roots : List String) : Go.startsWithAny path roots = TS.startsWithAny path roots := rfl
  have hmanifest (path : Bytes) :
      Go.packageManifestPath scope path = mapOk goResult (TS.packageManifestPath scope path) := by
    rw [Go.packageManifestPath, TS.packageManifestPath, startsWith_eq, startsWith_eq]
    split_ifs with hbelow
    · rfl
    · exact hproject path _
  rw [Go.normalizeUnityMCPScopedPath]
  cases Go.validateUnityMCPScopedRelativeInput raw with
  | error e =>
      rfl
  | ok clean =>
      cases scope with
      | unityAsset =>
          exact hproject clean _
      | knowledge =>
          exact hprefixed _ clean _
      | packageManifest =>
          exact hmanifest clean
      | artifact =>
          exact hprefixed _ clean _
      | gatewayCache =>
          simp only [ok_bind, hany, TS.applyScope]
          cases TS.startsWithAny clean ["index"] <;> rfl
      | tempSession =>
          exact hprefixed _ clean _
      | other name =>
          rfl

theorem normalizeUnityMCPScopedPath_eq_ok_iff {scope : UnityMCPPathScope} {raw : Bytes} {result : Go.ScopedPathResult} :
    Go.normalizeUnityMCPScopedPath scope raw = .ok result ↔
      (PlainScoped raw ∧ WithinLimits Go.runeCount raw ∧ Admits raw scope = true) ∧
        result = ⟨scope, (placement scope).1, lit (placement scope).2 ++ raw⟩ := by
  rw [normalizeUnityMCPScopedPath_eq, bind_eq_ok_iff]
  constructor
  · rintro ⟨clean, hclean, hresult⟩
    obtain ⟨rfl, hplain, hlimits⟩ := validateScoped_go_iff.1 hclean
    obtain ⟨inner, hinner, heq⟩ := mapOk_eq_ok_iff.1 hresult
    obtain ⟨hadmits, rfl⟩ := applyScope_eq_ok_iff.1 hinner
    exact ⟨⟨hplain, hlimits, hadmits⟩, heq.symm⟩
  · rintro ⟨⟨hplain, hlimits, hadmits⟩, heq⟩
    refine ⟨raw, validateScoped_go_iff.2 ⟨rfl, hplain, hlimits⟩, ?_⟩
    rw [applyScope_eq_ok_iff.2 ⟨hadmits, rfl⟩, heq]
    rfl

/-- Two computations that accept under two conditions, with related values when both do, agree where one
condition is the other. -/
theorem sameOutcome_iff {ε ε' β γ : Type} {R : β → γ → Prop} {x : Except ε β} {y : Except ε' γ} {b : β} {c : γ}
    {accepts accepts' : Prop} (hx : ∀ value, x = .ok value ↔ accepts ∧ value = b)
    (hy : ∀ value, y = .ok value ↔ accepts' ∧ value = c) (hR : R b c) :
    SameOutcome R x y ↔ (accepts ↔ accepts') := by
  have hleft : accepts ↔ x = .ok b := by
    rw [hx, and_iff_left rfl]
  have hright : accepts' ↔ y = .ok c := by
    rw [hy, and_iff_left rfl]
  rw [hleft, hright]
  cases x with
  | error e =>
      cases y with
      | error e' =>
          exact iff_of_true (Rel.error trivial) (by simp)
      | ok value' =>
          obtain ⟨-, rfl⟩ := (hy value').1 rfl
          rw [SameOutcome, rel_error_left_iff]
          simp
  | ok value =>
      obtain ⟨-, rfl⟩ := (hx value).1 rfl
      cases y with
      | error e' =>
          apply iff_of_false not_rel_ok_error
          simp
      | ok value' =>
          obtain ⟨-, rfl⟩ := (hy value').1 rfl
          exact iff_of_true (Rel.ok hR) (by simp)

theorem length_le_utf16 (text : List Char) : text.length ≤ (utf16.encode text).length := by
  induction text with
  | nil =>
      exact Nat.le_refl 0
  | cons c text ih =>
      have hpos : 0 < (utf16.enc c).length := List.length_pos_of_ne_nil (utf16.enc_ne_nil c)
      rw [Encoding.encode_cons, List.length_append, List.length_cons]
      omega

theorem WithinLimits.of_units {text : List Char} (h : WithinLimits (fun part => (utf16.encode part).length) text) :
    WithinLimits List.length text :=
  ⟨Nat.le_trans (length_le_utf16 text) h.1,
    fun part hpart => Nat.le_trans (length_le_utf16 part) (h.2 part hpart)⟩

/-- What the ports accept of one text, both in terms of the text. -/
theorem sameOutcome_scoped_iff (scope : UnityMCPPathScope) (text : List Char) :
    SameOutcome SameScoped (Go.normalizeUnityMCPScopedPath scope (utf8.encode text))
        (TS.normalizeScopedPath scope (utf16.encode text)) ↔
      (PlainScoped text ∧ WithinLimits List.length text ∧ Admits text scope = true ↔
        PlainScoped text ∧ WithinLimits (fun part => (utf16.encode part).length) text ∧ Admits text scope = true) := by
  have hplacement : IsAscii (placement scope).2 := by
    cases scope with
    | other name =>
        exact (by decide : IsAscii "")
    | _ =>
        decide
  have hsame : SameScoped ⟨scope, (placement scope).1, lit (placement scope).2 ++ utf8.encode text⟩
      ⟨scope, (placement scope).1, lit (placement scope).2 ++ utf16.encode text⟩ := by
    refine ⟨rfl, rfl, lit (placement scope).2 ++ text, ?_, ?_⟩
    · rw [Encoding.encode_append, utf8.encode_lit hplacement]
    · rw [Encoding.encode_append, utf16.encode_lit hplacement]
  rw [sameOutcome_iff (fun _ => normalizeUnityMCPScopedPath_eq_ok_iff) (fun _ => normalizeScopedPath_eq_ok_iff) hsame,
    plainScoped_encode_iff, plainScoped_encode_iff, withinLimits_encode_iff, withinLimits_encode_iff, admits_encode,
    admits_encode]
  simp only [runeCount_encode]

/-- The two ports agree on every path that is not too long in units alone. -/
theorem scopedPath_agrees_iff (scope : UnityMCPPathScope) (text : List Char) :
    SameOutcome SameScoped (Go.normalizeUnityMCPScopedPath scope (utf8.encode text))
        (TS.normalizeScopedPath scope (utf16.encode text)) ↔ ¬LongInUnits scope text := by
  rw [sameOutcome_scoped_iff, LongInUnits]
  constructor
  · rintro h ⟨hplain, hadmits, hscalars, hunits⟩
    exact hunits (h.1 ⟨hplain, hscalars, hadmits⟩).2.1
  · intro h
    constructor
    · rintro ⟨hplain, hscalars, hadmits⟩
      refine ⟨hplain, ?_, hadmits⟩
      by_contra hunits
      exact h ⟨hplain, hadmits, hscalars, hunits⟩
    · rintro ⟨hplain, hunits, hadmits⟩
      exact ⟨hplain, hunits.of_units, hadmits⟩

/-- A component of 128 characters beyond the basic plane has 256 units. -/
theorem scopedPath_not_agrees :
    ¬SameOutcome SameScoped
      (Go.normalizeUnityMCPScopedPath .unityAsset (utf8.encode ("Assets/".toList ++ List.replicate 128 '😀')))
      (TS.normalizeScopedPath .unityAsset (utf16.encode ("Assets/".toList ++ List.replicate 128 '😀'))) := by
  rw [sameOutcome_scoped_iff]
  intro h
  have hparts : ("Assets/".toList ++ List.replicate 128 '😀').splitOn (chr '/') =
      ["Assets".toList, List.replicate 128 '😀'] := by
    decide +kernel
  have hplain : PlainScoped ("Assets/".toList ++ List.replicate 128 '😀') := {
    noNul := by decide +kernel
    noBackslash := by decide +kernel
    noEscape := by decide +kernel
    plain := by
      rw [hparts]
      intro part hpart
      rcases List.mem_pair.1 hpart with rfl | rfl
      · exact ⟨by decide, by decide, by decide, by decide⟩
      · exact ⟨by decide, by decide +kernel, by decide +kernel, by decide +kernel⟩
  }
  have hscalars : WithinLimits List.length ("Assets/".toList ++ List.replicate 128 '😀') := by
    decide +kernel
  have hunits := (h.1 ⟨hplain, hscalars, by decide +kernel⟩).2.1.2
  rw [hparts] at hunits
  have hlong : ¬(utf16.encode (List.replicate 128 '😀')).length ≤ 255 := by
    decide +kernel
  exact hlong (hunits _ (List.mem_pair.2 (Or.inr rfl)))

end Ports

end CanonicalPath
