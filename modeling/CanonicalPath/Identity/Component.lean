import CanonicalPath.Go.Sanitize
import CanonicalPath.Identity.Mounts
import CanonicalPath.Identity.Policies
import CanonicalPath.Identity.Strict
import CanonicalPath.Library.Trim

/-!
# Component — sanitized names under the rules of the library

A component without separators, colons and NUL passes every mode of `normalize` unchanged.  What `sanitizeComponent`
returns is such a component, and sanitizing it again changes nothing.

* `IsComponent` : a single component that no grammar reads as more
* `normalize_component` : every mode returns it
* `sanitizeComponent_legal` : sanitized names are components, stable and accepted
-/

namespace CanonicalPath

open CodeUnit Segments Go DotStack

section Components

variable {α : Type} [DecidableEq α] [CodeUnit α]

/-! ## Components -/

/-- A single component without the units that any grammar gives a meaning. -/
structure IsComponent (v : List α) : Prop where
  name : IsName v
  nul_not_mem : nul ∉ v
  backslash_not_mem : chr '\\' ∉ v
  colon_not_mem : chr ':' ∉ v

namespace IsComponent

variable {v : List α}

theorem splitOn_eq (h : IsComponent v) : v.splitOn (chr '/') = [v] := by
  have hnames : ∀ part ∈ [v], chr '/' ∉ part := by
    simpa using h.name.slash_not_mem
  simpa [joinOn] using splitOn_joinOn hnames (List.cons_ne_nil v [])

omit [DecidableEq α] in
theorem head_ne_slash (h : IsComponent v) : v.head? ≠ some (chr '/') := fun hhead =>
  h.name.slash_not_mem (List.mem_of_mem_head? hhead)

theorem hasPrefix_slash (h : IsComponent v) (leader : List α) : hasPrefix v (chr '/' :: leader) = false :=
  hasPrefix_cons_eq_false h.head_ne_slash

theorem splits (h : IsComponent v) : Splits v .relative v :=
  Splits.relative h.head_ne_slash (needsRelativeMarker_of_noColon h.colon_not_mem)

theorem resolve_eq (h : IsComponent v) (floor : Bool) : resolve floor v = some [v] := by
  have hnames : ∀ part ∈ [v], IsName part := by
    simpa using h.name
  have hresolve : resolve floor (joinOn (chr '/') [v]) = some [v] := resolve_joinOn hnames
  simpa [joinOn] using hresolve

theorem markRelative_eq (h : IsComponent v) : markRelative v = v := by
  rw [markRelative, needsRelativeMarker_of_noColon h.colon_not_mem, if_neg Bool.false_ne_true]

theorem cleanCanonical_eq (h : IsComponent v) : cleanCanonical v = .ok v := by
  rw [cleanCanonical_of_splits h.name.ne_nil h.nul_not_mem h.splits, h.resolve_eq]
  simp only [Root.fold, Root.text, serialize, joinOn, List.intercalate_singleton, if_pos, h.markRelative_eq,
    if_neg h.name.ne_nil]

theorem normalizeRelative_eq (h : IsComponent v) : normalizeRelative v = .ok v := by
  refine normalizeRelative_eq_ok_iff.2
    (.inr ⟨h.nul_not_mem, h.backslash_not_mem, h.splits, [v], h.resolve_eq false, List.cons_ne_nil v [], ?_⟩)
  simp [joinOn]

theorem prepareNativePOSIX_eq (h : IsComponent v) : prepareNativePOSIX v = .ok v := by
  have hprepare := prepareNativePOSIX_slashes 0 h.head_ne_slash
  rwa [List.replicate_zero, List.nil_append, if_neg (by decide), if_pos rfl, h.markRelative_eq] at hprepare

theorem rewriteSeparators_eq (h : IsComponent v) (opts : WindowsOptions) : rewriteSeparators v opts = .ok v := by
  have huri : isURIWindowsDrivePath v = false := by
    rw [Bool.eq_false_iff]
    intro huri
    obtain ⟨tail, rfl, -⟩ := isURIWindowsDrivePath_iff.1 huri
    exact h.head_ne_slash rfl
  have hextended : hasPrefix v (lit "//?/") = false := h.hasPrefix_slash _
  rw [rewriteSeparators, toSlashes_of_not_mem h.backslash_not_mem, hextended,
    unwrapWindowsExtendedPrefix_of_not hextended, stripURIDriveSlash_of_not huri, ite_self]
  rfl

/-- No grammar reads more than one component. -/
theorem interpretHost_eq (h : IsComponent v) {parseURI : URIOptions → List α → Except PathError (List α)}
    {opts : Options α} (hpath : uriPath parseURI v opts = .ok v) : interpretHost parseURI v opts = .ok v := by
  -- the three readings of an input: native, canonical and raw
  by_cases hposix : opts.sourceHost = some .posix
  · rw [interpretHost_posix hposix, h.prepareNativePOSIX_eq]
  by_cases hcanonical : opts.sourceHost = some .canonical
  · exact interpretHost_canonical hcanonical
  have hcandidate : isPOSIXMountCandidate v = false := by
    have hslash : hasPrefix v (lit "/") = false := h.hasPrefix_slash []
    rw [isPOSIXMountCandidate, hslash, Bool.false_and]
  rw [interpretHost_of_not_scheme ⟨hposix, hcanonical⟩ hpath (hasURIScheme_of_slash_not_mem h.name.slash_not_mem),
    hcandidate, Bool.and_false, if_neg Bool.false_ne_true, h.rewriteSeparators_eq]

theorem checkAndClean_eq (h : IsComponent v) {opts : Options α} (hoffends : ¬Offends opts.windows v)
    (htarget : ∀ other, opts.targetProfile ≠ some (.other other)) : checkAndClean v opts = .ok v := by
  refine checkAndClean_eq_ok_iff.2 ⟨?_, h.cleanCanonical_eq, ?_⟩
  · rw [validateWindowsComponents_iff_of_splits h.splits, h.splitOn_eq]
    simpa using hoffends
  · rw [validateTargetProfile_eq_ok_iff h.splits]
    -- every profile accepts a path without a root
    cases hprofile : opts.targetProfile with
    | none =>
        rfl
    | some profile =>
        cases profile with
        | portable =>
            rfl
        | win32Drive =>
            rfl
        | posix =>
            rfl
        | other other =>
            exact absurd hprofile (htarget other)

end IsComponent

/-! ## Devices -/

theorem not_reserved_nil : isReservedDeviceBase (([] : List α).map upper) = false := by
  simp [isReservedDeviceBase, isReservedPort, lit]

theorem not_reserved_of_dash {base : List α} (h : chr '-' ∈ base) :
    isReservedDeviceBase (base.map upper) = false := by
  rw [Bool.eq_false_iff]
  intro hreserved
  have hcode := isDeviceCode_of_isReservedDeviceBase hreserved _ (List.mem_map_of_mem h)
  rw [upper, if_neg (by simp), code_chr (by decide)] at hcode
  exact absurd hcode (by decide)

/-- Without colons the base that the policy looks at is the text before the first dot. -/
theorem deviceBase_of_noColon {value : List α} (h : chr ':' ∉ value) :
    deviceBase value = value.takeWhile (· != chr '.') := by
  rw [deviceBase]
  induction value with
  | nil =>
      rfl
  | cons a value ih =>
      rw [List.mem_cons, not_or] at h
      have ha : (a != chr ':') = true := bne_iff_ne.2 (Ne.symm h.1)
      rw [List.takeWhile_cons, List.takeWhile_cons, ha, Bool.and_true, ih h.2]

/-- The dash goes in front of the first dot. -/
theorem escapeReservedWin32Component_eq (value : List α) :
    escapeReservedWin32Component value =
      if isReservedDeviceBase ((value.takeWhile (· != chr '.')).map upper) then
        value.takeWhile (· != chr '.') ++ lit "-" ++ value.dropWhile (· != chr '.')
      else
        value := by
  -- without a dot the index is the length
  have hbase : (if value.idxOf (chr '.') < value.length then value.take (value.idxOf (chr '.')) else value) =
      value.takeWhile (· != chr '.') := by
    rw [← Trim.take_idxOf]
    split_ifs with hfound
    · rfl
    · exact (List.take_of_length_le (Nat.le_of_not_lt hfound)).symm
  have hsuffix : (if value.idxOf (chr '.') < value.length then value.drop (value.idxOf (chr '.')) else []) =
      value.dropWhile (· != chr '.') := by
    rw [← Trim.drop_idxOf]
    split_ifs with hfound
    · rfl
    · exact (List.drop_of_length_le (Nat.le_of_not_lt hfound)).symm
  rw [escapeReservedWin32Component]
  simp only [hbase, hsuffix]

/-! ## Sanitized names -/

theorem isReplaced_dash : isReplaced (chr '-' : α) = false := by
  simp [isReplaced]

theorem replaceEach_of_kept {value : List α} (h : ∀ a ∈ value, isReplaced a = false) : replaceEach value = value := by
  rw [replaceEach]
  conv_rhs => rw [← List.map_id value]
  refine List.map_congr_left fun a ha => ?_
  rw [h a ha, if_neg Bool.false_ne_true, id]

/-- A name that replacing and trimming leave as it is. -/
structure IsClean (value : List α) : Prop where
  ne_nil : value ≠ []
  kept : ∀ a ∈ value, isReplaced a = false
  nul_not_mem : nul ∉ value
  trimmed : Trim.Trimmed (fun a => (lit " ._-").contains a) value

/-- What `sanitizeComponent` writes: a clean name, or a device with a dash behind its base. -/
inductive Sanitized (profile : List α) : List α → Prop
  | clean {value : List α} :
      IsClean value →
        (profile = lit "win32" → isReservedDeviceBase ((value.takeWhile (· != chr '.')).map upper) = false) →
        Sanitized profile value
  | escaped {base suffix : List α} :
      profile = lit "win32" → isReservedDeviceBase (base.map upper) = true → chr '.' ∉ base →
        (∀ a ∈ suffix.head?, a = chr '.') → IsClean (base ++ suffix) →
        Sanitized profile (base ++ lit "-" ++ suffix)

theorem isClean_component : IsClean (lit "component" : List α) where
  ne_nil := by simp [lit]
  kept := by simp [lit, isReplaced]
  nul_not_mem := by simp [lit, nul]
  trimmed := ⟨by simp [lit], by simp [lit]⟩

theorem isClean_trim {name : List α} (hnul : nul ∉ name) (hne : trim (replaceEach name) " ._-" ≠ []) :
    IsClean (trim (replaceEach name) " ._-") where
  ne_nil := hne
  kept := fun a ha => by
    obtain ⟨b, -, rfl⟩ := List.mem_map.1 (Trim.mem_of_mem_rdropWhile_dropWhile ha)
    split_ifs with hreplaced
    · exact isReplaced_dash
    · exact Bool.eq_false_iff.2 hreplaced
  nul_not_mem := fun hmem => by
    obtain ⟨b, hb, heq⟩ := List.mem_map.1 (Trim.mem_of_mem_rdropWhile_dropWhile hmem)
    split_ifs at heq
    · simp [nul] at heq
    · exact hnul (heq ▸ hb)
  trimmed := Trim.trimmed_rdropWhile_dropWhile _ _

theorem sanitizeComponent_of_clean {value : List α} (h : IsClean value) (profile : List α) :
    sanitizeComponent value profile =
      .ok (if profile = lit "win32" then escapeReservedWin32Component value else value) := by
  have htrim : trim value " ._-" = value := Trim.rdropWhile_dropWhile_of_trimmed h.trimmed
  rw [sanitizeComponent, if_neg h.ne_nil, if_neg h.nul_not_mem, replaceEach_of_kept h.kept, htrim]
  simp only [if_neg h.ne_nil]

theorem sanitized_of_clean {value : List α} (h : IsClean value) (profile : List α) :
    Sanitized profile (if profile = lit "win32" then escapeReservedWin32Component value else value) := by
  rw [escapeReservedWin32Component_eq]
  by_cases hprofile : profile = lit "win32"
  · rw [if_pos hprofile]
    split_ifs with hreserved
    · -- the base is what is in front of the first dot, if there is one
      refine .escaped hprofile hreserved ?_ ?_ ?_
      · intro hdot
        have hself := List.mem_takeWhile_imp hdot
        simp at hself
      · intro a ha
        have hhead := List.head?_dropWhile_not (· != chr '.') value
        rw [Option.mem_def.1 ha] at hhead
        simpa using hhead
      · rw [List.takeWhile_append_dropWhile]
        exact h
    · exact .clean h fun _ => Bool.eq_false_iff.2 hreserved
  · rw [if_neg hprofile]
    exact .clean h fun hwin32 => absurd hwin32 hprofile

theorem sanitized_of_sanitizeComponent {name profile v : List α} (h : sanitizeComponent name profile = .ok v) :
    Sanitized profile v := by
  by_cases hnil : name = []
  · rw [sanitizeComponent, if_pos hnil] at h
    cases h
  by_cases hnul : nul ∈ name
  · rw [sanitizeComponent, if_neg hnil, if_pos hnul] at h
    cases h
  rw [sanitizeComponent, if_neg hnil, if_neg hnul, Except.ok.injEq] at h
  rw [← h]
  by_cases hempty : trim (replaceEach name) " ._-" = []
  · simp only [if_pos hempty]
    exact sanitized_of_clean isClean_component profile
  · simp only [if_neg hempty]
    exact sanitized_of_clean (isClean_trim hnul hempty) profile

theorem IsClean.head_ne_dot {value : List α} (h : IsClean value) : value.head? ≠ some (chr '.') := by
  intro hhead
  have hkept := h.trimmed.head _ hhead
  simp [lit] at hkept

namespace Sanitized

variable {profile v : List α}

theorem ne_nil (h : Sanitized profile v) : v ≠ [] := by
  cases h with
  | clean hclean _ =>
      exact hclean.ne_nil
  | escaped _ _ _ _ _ =>
      simp [lit]

theorem kept (h : Sanitized profile v) : ∀ a ∈ v, isReplaced a = false := by
  cases h with
  | clean hclean _ =>
      exact hclean.kept
  | @escaped base suffix _ _ _ _ hclean =>
      intro a ha
      rw [List.mem_append, List.mem_append] at ha
      rcases ha with (hbase | hdash) | hsuffix
      · exact hclean.kept a (List.mem_append_left suffix hbase)
      · obtain rfl : a = chr '-' := by simpa [lit] using hdash
        exact isReplaced_dash
      · exact hclean.kept a (List.mem_append_right base hsuffix)

theorem nul_not_mem (h : Sanitized profile v) : nul ∉ v := by
  cases h with
  | clean hclean _ =>
      exact hclean.nul_not_mem
  | @escaped base suffix _ _ _ _ hclean =>
      have hdash : nul ∉ (lit "-" : List α) := by simp [lit, nul]
      rw [List.mem_append, List.mem_append, or_assoc]
      rintro (hbase | hmem | hsuffix)
      · exact hclean.nul_not_mem (List.mem_append_left suffix hbase)
      · exact hdash hmem
      · exact hclean.nul_not_mem (List.mem_append_right base hsuffix)

/-- The base of a device is not empty, and a clean name does not begin with a dot. -/
theorem head_ne_dot (h : Sanitized profile v) : v.head? ≠ some (chr '.') := by
  cases h with
  | clean hclean _ =>
      exact hclean.head_ne_dot
  | @escaped base suffix _ hreserved _ _ hclean =>
      cases base with
      | nil =>
          rw [not_reserved_nil] at hreserved
          cases hreserved
      | cons a base =>
          exact hclean.head_ne_dot

theorem isComponent (h : Sanitized profile v) : IsComponent v := by
  have hreplaced {c : Char} (hc : isReplaced (chr c : α) = true) : chr c ∉ v := by
    intro hmem
    rw [h.kept _ hmem] at hc
    cases hc
  refine ⟨⟨h.ne_nil, ?_, ?_, hreplaced ?_⟩, h.nul_not_mem, hreplaced ?_, hreplaced ?_⟩
  · rintro rfl
    exact h.head_ne_dot rfl
  · rintro rfl
    exact h.head_ne_dot rfl
  · simp [isReplaced]
  · simp [isReplaced]
  · simp [isReplaced]

/-- The dash of an escaped device stands in front of the first dot. -/
theorem takeWhile_escaped {base suffix : List α} (hdot : chr '.' ∉ base) (hsuffix : ∀ a ∈ suffix.head?, a = chr '.') :
    (base ++ lit "-" ++ suffix).takeWhile (· != chr '.') = base ++ lit "-" ∧
      (base ++ lit "-" ++ suffix).dropWhile (· != chr '.') = suffix := by
  have hfront : ∀ a ∈ base ++ lit "-", (a != chr '.') = true := by
    rw [Trim.forall_bne_iff]
    intro ha
    rcases List.mem_append.1 ha with hbase | hdash
    · exact hdot hbase
    · simp [lit] at hdash
  cases suffix with
  | nil =>
      rw [List.append_nil]
      exact ⟨List.takeWhile_eq_self_iff.2 hfront, List.dropWhile_eq_nil_iff.2 hfront⟩
  | cons a suffix =>
      have ha : (a != chr '.') = false := by
        simpa using hsuffix a rfl
      exact ⟨Trim.takeWhile_append_cons hfront ha suffix, Trim.dropWhile_append_cons hfront ha suffix⟩

theorem not_reserved (h : Sanitized profile v) (hprofile : profile = lit "win32") :
    isReservedDeviceBase ((v.takeWhile (· != chr '.')).map upper) = false := by
  cases h with
  | clean _ hfree =>
      exact hfree hprofile
  | escaped _ _ hdot hsuffix _ =>
      rw [(takeWhile_escaped hdot hsuffix).1]
      exact not_reserved_of_dash (List.mem_append_right _ (by simp [lit]))

/-- A second pass changes nothing: what it trims off an escaped device it writes again. -/
theorem stable (h : Sanitized profile v) : sanitizeComponent v profile = .ok v := by
  have hfree := h.not_reserved
  have hsame := h
  cases hsame with
  | clean hclean _ =>
      rw [sanitizeComponent_of_clean hclean, escapeReservedWin32Component_eq]
      split_ifs with hprofile hreserved
      · rw [hfree hprofile] at hreserved
        cases hreserved
      · rfl
      · rfl
  | @escaped base suffix hprofile hreserved hdot hsuffix hclean =>
      have hne : base ≠ [] := by
        rintro rfl
        rw [not_reserved_nil] at hreserved
        cases hreserved
      cases suffix with
      | nil =>
          -- the dash is the last unit: it is trimmed, and the base that is left is a device again
          rw [List.append_nil] at hclean ⊢
          have hnul := h.nul_not_mem
          have hkept := h.kept
          rw [List.append_nil] at hnul hkept
          have hedge : (lit " ._-" : List α).contains (chr '-') = true := by
            simp [lit]
          have htrim : trim (base ++ lit "-") " ._-" = base :=
            Trim.rdropWhile_dropWhile_concat hclean.trimmed hne hedge
          have hbase : ∀ a ∈ base, (a != chr '.') = true := Trim.forall_bne_iff.2 hdot
          rw [sanitizeComponent, if_neg (by simp [lit]), if_neg hnul, replaceEach_of_kept hkept, htrim]
          simp only [if_neg hne, if_pos hprofile]
          rw [escapeReservedWin32Component_eq, List.takeWhile_eq_self_iff.2 hbase, if_pos hreserved,
            List.dropWhile_eq_nil_iff.2 hbase, List.append_nil]
      | cons a suffix =>
          -- the dash is in the middle: the edges are those of a clean name, and the base is no device
          have hkept : IsClean (base ++ lit "-" ++ a :: suffix) :=
            { ne_nil := h.ne_nil
              kept := h.kept
              nul_not_mem := h.nul_not_mem
              trimmed := hclean.trimmed.insert hne (List.cons_ne_nil a suffix) (lit "-") }
          rw [sanitizeComponent_of_clean hkept, if_pos hprofile, escapeReservedWin32Component_eq, hfree hprofile,
            if_neg Bool.false_ne_true]

end Sanitized

end Components

/-! ## Every mode -/

/-- Options for a component of a profile: a mount root that is accepted where it may be given, a target profile that
exists, and the device policy only for the Windows profile. -/
structure ComponentOptions (profile : Bytes) (opts : Options UInt8) : Prop where
  mount : ∃ mountRoot, normalizeMountRoot opts.wsl.mountRoot = .ok mountRoot
  mode : ¬(opts.sourceHost = some .posix ∧ opts.wsl.enabled = true)
  target : ∀ other, opts.targetProfile ≠ some (.other other)
  devices : opts.windows.rejectDeviceNames = true → profile = lit "win32"
  noTrim : opts.trimOuterWhitespace = false

theorem normalize_component {v : Bytes} (h : IsComponent v) {opts : Options UInt8}
    (hmount : ∃ mountRoot, normalizeMountRoot opts.wsl.mountRoot = .ok mountRoot)
    (hmode : ¬(opts.sourceHost = some .posix ∧ opts.wsl.enabled = true)) (hoffends : ¬Offends opts.windows v)
    (htarget : ∀ other, opts.targetProfile ≠ some (.other other)) (htrim : opts.trimOuterWhitespace = false) :
    normalize v opts = .ok v := by
  obtain ⟨mountRoot, hmount⟩ := hmount
  have hpath : uriPath parseFileURI v (opts.withMountRoot mountRoot) = .ok v :=
    uriPath_of_not_scheme h.nul_not_mem (hasURIScheme_of_slash_not_mem h.name.slash_not_mem)
  rw [normalize_of_noTrim htrim]
  exact normalizeWith_eq_ok_iff.2 ⟨h.name.ne_nil, h.nul_not_mem, mountRoot, hmount, hmode, v, h.interpretHost_eq hpath,
    h.checkAndClean_eq hoffends htarget⟩

/-- A sanitized component is stable under another pass, is one component of a relative path, and passes every mode of
`normalize` with the stream policy and, for the Windows profile, the device policy. -/
theorem sanitizeComponent_legal {name profile v : Bytes} (h : sanitizeComponent name profile = .ok v) :
    sanitizeComponent v profile = .ok v ∧ normalizeRelative v = .ok v ∧ v.splitOn (chr '/') = [v] ∧ IsName v ∧
      ∀ opts : Options UInt8, ComponentOptions profile opts → normalize v opts = .ok v := by
  have hsanitized := sanitized_of_sanitizeComponent h
  have hcomponent := hsanitized.isComponent
  refine ⟨hsanitized.stable, hcomponent.normalizeRelative_eq, hcomponent.splitOn_eq, hcomponent.name, ?_⟩
  intro opts hopts
  refine normalize_component hcomponent hopts.mount hopts.mode ?_ hopts.target hopts.noTrim
  rintro (⟨-, hcolon⟩ | ⟨hdevices, hdevice⟩)
  · exact hcomponent.colon_not_mem hcolon
  · have hbase := deviceBase_of_noColon hcomponent.colon_not_mem
    have hreserved : isReservedDeviceBase ((deviceBase v).map upper) = true := isReservedDeviceBase_iff.2 hdevice
    rw [hbase, hsanitized.not_reserved (hopts.devices hdevices)] at hreserved
    cases hreserved

/-- A device whose dash a second pass trims and writes again. -/
theorem sanitizeComponent_legal_device :
    sanitizeComponent (lit "CON/") (lit "win32") = .ok (lit "CON-" : Bytes) ∧
      sanitizeComponent (lit "CON-") (lit "win32") = .ok (lit "CON-" : Bytes) ∧
        normalize (lit "CON-")
          { sourceHost := some .wsl
            wsl := { enabled := true, mountRoot := lit "/mnt" }
            windows := { rejectADS := true, rejectDeviceNames := true } } = .ok (lit "CON-") := by
  have hname : sanitizeComponent (lit "CON/") (lit "win32") = .ok (lit "CON-" : Bytes) := by
    decide
  obtain ⟨hstable, -, -, -, hnormalize⟩ := sanitizeComponent_legal hname
  refine ⟨hname, hstable, hnormalize _ ⟨⟨lit "/mnt", by decide⟩, by decide, ?_, fun _ => rfl, rfl⟩⟩
  intro other hother
  cases hother

end CanonicalPath
