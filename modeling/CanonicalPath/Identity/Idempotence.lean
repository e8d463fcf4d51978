import CanonicalPath.Identity.Raw

/-!
# Idempotence — when a raw run accepts its own output unchanged

A raw run may be given its own output.  `Unstable` and `ExposesDrive` describe the inputs, with
their separators read as slashes, whose output a second run reads differently:

* behind `//?/UNC/?/` the unwrapped value starts with the extended prefix again
* dot cleanup may put a drive-looking component first, which a raw run takes for a drive URI
* with WSL mapping, dot cleanup may put the mount and a drive letter first

`normalize_raw_idempotent_iff` and `normalize_wsl_idempotent_iff` say that these are all.
-/

namespace CanonicalPath

open CodeUnit Segments Go DotStack

variable {α : Type} [DecidableEq α] [CodeUnit α]

/-! ## The inputs -/

/-- Exactly one leading slash. -/
def SingleSlash (value : List α) : Prop :=
  value.head? = some (chr '/') ∧ hasPrefix value (lit "//") = false

/-- Dot cleanup turns the POSIX path into the path of a drive URI. -/
def ExposesDrive (value : List α) : Prop :=
  SingleSlash value ∧ isURIWindowsDrivePath value = false ∧
    ∃ d next more, isLetter d = true ∧ components value = [d, chr ':'] :: next :: more

/-- A raw run without WSL mapping reads the output for this value differently. -/
def Unstable (preserve : Bool) (value : List α) : Prop :=
  (preserve = false ∧ hasPrefix value (lit "//?/UNC/?/") = true) ∨ ExposesDrive value

/-! ## From the output back to the input -/

omit [CodeUnit α] in
theorem hasPrefix_of_hasPrefix_append {value : List α} (leader more : List α)
    (h : hasPrefix value (leader ++ more) = true) : hasPrefix value leader = true := by
  rcases hasPrefix_iff.1 h with ⟨tail, rfl⟩
  rw [List.append_assoc]
  exact hasPrefix_append _ _

/-- Without preservation the rewritten value has an extended root again behind `//?/UNC/?/` only. -/
theorem Rewrites.hasPrefix_extended {value out : List α} (h : Rewrites false value out) :
    hasPrefix out (lit "//?/") = hasPrefix value (lit "//?/UNC/?/") := by
  have hdouble {value : List α} (hvalue : hasPrefix value (lit "//?/") = false) :
      hasPrefix value (lit "//?/UNC/?/") = false := by
    rw [Bool.eq_false_iff]
    intro hleads
    rw [hasPrefix_of_hasPrefix_append (lit "//?/") (lit "UNC/?/") hleads] at hvalue
    exact absurd hvalue (by simp)
  cases h with
  | same huri hextended =>
      have hplain : hasPrefix value (lit "//?/") = false := by
        rw [Bool.eq_false_iff]
        intro hleads
        exact absurd (hextended hleads).1 (by simp)
      rw [hplain, hdouble hplain]
  | uriDrive hdrive =>
      have hplain : hasPrefix (chr '/' :: out) (lit "//?/") = false :=
        hasPrefix_cons_cons.trans (hasPrefix_cons_eq_false (head?_ne_slash_of_hasDriveRoot hdrive))
      rw [hdouble hplain, hasPrefix_extended_of_hasDriveRoot hdrive]
  | extendedDrive hpreserve hsplits =>
      rcases hsplits.extended_cases with ⟨d, -, hdrive⟩ | ⟨server, share, body, hroot, -⟩
      · rw [hasPrefix_extended_of_hasDriveRoot hdrive]
        rcases hasDriveRoot_iff.1 hdrive with ⟨d, rest, -, rfl⟩
        rw [hasPrefix_lit (by decide)]
        simp [lit, Pattern.literal, Pattern.char]
      · exact absurd hroot (by simp)
  | extendedUNC hpreserve hsplits =>
      rename_i body server share rest
      -- moving the share prefix: the `?/` behind it is what is left to see
      calc
        hasPrefix (lit "//" ++ body) (lit "//?/") = hasPrefix body (lit "?/") :=
          hasPrefix_append_append (lit "//") body (lit "?/")
        _ = hasPrefix (lit "//?/UNC/" ++ body) (lit "//?/UNC/?/") :=
          (hasPrefix_append_append (lit "//?/UNC/") body (lit "?/")).symm

theorem singleSlash_iff {value : List α} :
    SingleSlash value ↔ ∃ rest, value = chr '/' :: rest ∧ rest.head? ≠ some (chr '/') := by
  constructor
  · rintro ⟨hhead, hdouble⟩
    cases value with
    | nil =>
        exact absurd hhead (by simp)
    | cons a rest =>
        rw [List.head?_cons, Option.some.injEq] at hhead
        subst hhead
        refine ⟨rest, rfl, fun hrest => ?_⟩
        have hleads : hasPrefix (chr '/' :: rest) (lit "//") = true :=
          hasPrefix_cons_cons.trans (hasPrefix_slash_iff.2 hrest)
        rw [hleads] at hdouble
        exact absurd hdouble (by simp)
  · rintro ⟨rest, rfl, hrest⟩
    exact ⟨rfl, hasPrefix_cons_cons.trans (hasPrefix_cons_eq_false hrest)⟩

/-- A value with the POSIX root comes out of separator rewriting untouched. -/
theorem Rewrites.eq_of_posix {preserve : Bool} {value out rest : List α}
    (h : Rewrites preserve value out) (hsplits : Splits out .posix rest) : value = out := by
  rcases hsplits.root_eq_posix_iff.1 rfl with ⟨hout, hhead⟩
  have hdrive (hdrive : hasDriveRoot out = true) : False :=
    head?_ne_slash_of_hasDriveRoot hdrive (by rw [hout]; rfl)
  cases h with
  | same huri hextended =>
      rfl
  | uriDrive hroot =>
      exact (hdrive hroot).elim
  | extendedDrive hpreserve hextended =>
      rcases hextended.extended_cases with ⟨d, -, hroot⟩ | ⟨server, share, body, hroot, -⟩
      · exact (hdrive hroot).elim
      · exact absurd hroot (by simp)
  | extendedUNC hpreserve hextended =>
      rename_i body server share rest'
      have hrest : chr '/' :: body = rest := (List.cons.inj hout).2
      exact absurd (by rw [← hrest]; rfl) hhead

theorem Rewrites.eq_of_singleSlash {preserve : Bool} {value out : List α}
    (h : Rewrites preserve value out) (hsingle : SingleSlash value)
    (huri : isURIWindowsDrivePath value = false) : value = out := by
  cases h with
  | same =>
      rfl
  | uriDrive hdrive =>
      rw [isURIWindowsDrivePath_iff.2 ⟨out, rfl, hdrive⟩] at huri
      exact absurd huri (by simp)
  | extendedDrive =>
      have hdouble : hasPrefix (lit "//?/" ++ out) (lit "//") = true :=
        hasPrefix_iff.2 ⟨lit "?/" ++ out, rfl⟩
      exact absurd (hdouble.symm.trans hsingle.2) (by simp)
  | extendedUNC =>
      rename_i body server share rest hpreserve hextended
      have hdouble : hasPrefix (lit "//?/UNC/" ++ body) (lit "//") = true :=
        hasPrefix_iff.2 ⟨lit "?/UNC/" ++ body, rfl⟩
      exact absurd (hdouble.symm.trans hsingle.2) (by simp)

/-- The output has the POSIX root exactly when the input starts with one slash that is not the slash
of a drive URI. -/
theorem Rewrites.root_eq_posix_iff {preserve : Bool} {value out rest : List α} {root : Root α}
    (h : Rewrites preserve value out) (hsplits : Splits out root rest) :
    root = .posix ↔ SingleSlash value ∧ isURIWindowsDrivePath value = false := by
  constructor
  · rintro rfl
    have hvalue := h.eq_of_posix hsplits
    refine ⟨?_, ?_⟩
    · rw [hvalue, singleSlash_iff]
      exact ⟨rest, hsplits.root_eq_posix_iff.1 rfl⟩
    · rcases h.eq_or_shorter with ⟨-, huri, -⟩ | ⟨hshorter, -⟩
      · exact huri
      · -- an untouched value did not get shorter
        rw [hvalue] at hshorter
        exact absurd hshorter (Nat.lt_irrefl _)
  · rintro ⟨hsingle, huri⟩
    rw [h.eq_of_singleSlash hsingle huri, singleSlash_iff] at hsingle
    rcases hsingle with ⟨rest', hout, hhead⟩
    have hposix : Splits out .posix rest' := hout ▸ Splits.posix hhead
    have hrest : rest = rest' := (hsplits.rest_eq hposix).2
    exact hsplits.root_eq_posix_iff.2 ⟨by rw [hrest, hout], by rwa [hrest]⟩

/-- Behind the POSIX root the output keeps the components of the input. -/
theorem Rewrites.components_eq {preserve : Bool} {value out rest : List α}
    (h : Rewrites preserve value out) (hsplits : Splits out .posix rest) :
    components value = components rest := by
  rw [h.eq_of_posix hsplits, (hsplits.root_eq_posix_iff.1 rfl).1, components_slash_cons]

/-- Separator rewriting leaves no backslash. -/
theorem Rewrites.backslash_not_mem {preserve : Bool} {value out : List α}
    (h : Rewrites preserve value out) (hvalue : chr '\\' ∉ value) : chr '\\' ∉ out := by
  cases h with
  | same =>
      exact hvalue
  | uriDrive =>
      exact fun hmem => hvalue (List.mem_cons_of_mem _ hmem)
  | extendedDrive =>
      exact fun hmem => hvalue (List.mem_append_right _ hmem)
  | extendedUNC =>
      intro hmem
      rcases List.mem_append.1 hmem with hmem | hmem
      · simp [lit] at hmem
      · exact hvalue (List.mem_append_right _ hmem)

/-- How the identity that a separator-rewriting run builds relates to the value it was read from. -/
structure ReadFrom (preserve : Bool) (value : List α) (p : Identity α) : Prop where
  backslash_free : chr '\\' ∉ p.render
  extended_iff : preserve = false →
    (p.root.isExtended = true ↔ hasPrefix value (lit "//?/UNC/?/") = true)
  posix_iff : p.root = .posix ↔ SingleSlash value ∧ isURIWindowsDrivePath value = false
  components_eq : p.root = .posix → components value = p.parts

/-- The identity behind the output of a separator-rewriting run. -/
theorem exists_readFrom {preserve : Bool} {value out p : List α} {opts : Options α}
    (h : Rewrites preserve value out) (hvalue : chr '\\' ∉ value)
    (hclean : checkAndClean out opts = .ok p) :
    ∃ identity : Identity α, p = identity.render ∧ ReadFrom preserve value identity := by
  rcases exists_identity_of_cleanCanonical (checkAndClean_eq_ok_iff.1 hclean).2.1 with
    ⟨identity, root, rest, rfl, hsplits, hroot, hparts⟩
  have hout := h.backslash_not_mem hvalue
  refine ⟨identity, rfl, ?_, fun hpreserve => ?_, ?_, fun hposix => ?_⟩
  · refine not_mem_serialize (by simp) (by simp) (fun hmem => ?_) fun part hpart hmem => ?_
    · -- no backslash in the root, which is a part of the rewritten value up to case
      rw [hroot] at hmem
      exact hout (hsplits.mem_text (Root.chr_mem_text_of_fold hsplits.valid (by decide) (by decide) hmem))
    · exact hout (hsplits.mem_rest (mem_of_resolve hparts hpart hmem))
  · subst hpreserve
    rw [hroot, Root.isExtended_fold, ← hsplits.hasPrefix_extended, h.hasPrefix_extended]
  · rw [hroot, Root.fold_eq_posix_iff, h.root_eq_posix_iff hsplits]
  · rw [hroot, Root.fold_eq_posix_iff] at hposix
    subst hposix
    have hresolve : resolve true rest = some identity.parts := hparts
    rw [h.components_eq hsplits, components, hresolve]
    rfl

/-- A second run rewrites the output exactly when the input is unstable. -/
theorem ReadFrom.rewritten_iff {preserve : Bool} {value : List α} {p : Identity α}
    (h : ReadFrom preserve value p) : Rewritten preserve p ↔ Unstable preserve value := by
  have hunwrap : (preserve = false ∧ p.root.isExtended = true) ↔
      (preserve = false ∧ hasPrefix value (lit "//?/UNC/?/") = true) :=
    and_congr_right h.extended_iff
  -- both sides look at the first component, once in the output and once in the input
  have hdrive : (p.root = .posix ∧ hasDriveRoot (joinOn (chr '/') p.parts) = true) ↔
      ExposesDrive value := by
    rw [hasDriveRoot_joinOn_iff p.parts_valid]
    constructor
    · rintro ⟨hroot, hparts⟩
      rcases h.posix_iff.1 hroot with ⟨hsingle, huri⟩
      exact ⟨hsingle, huri, by rwa [h.components_eq hroot]⟩
    · rintro ⟨hsingle, huri, hparts⟩
      have hroot := h.posix_iff.2 ⟨hsingle, huri⟩
      exact ⟨hroot, by rwa [← h.components_eq hroot]⟩
  rw [Rewritten, Unstable, hunwrap, hdrive]

/-! ## Raw runs without WSL mapping -/

/-- A raw run without WSL mapping, on input that is no URI. -/
theorem normalizeWith_rewrites_iff {parseURI : URIOptions → List α → Except PathError (List α)}
    {raw p : List α} {opts : Options α} (hhost : HostKind.IsRaw opts.sourceHost)
    (hpath : uriPath parseURI raw opts = .ok raw) (huri : hasURIScheme raw = false)
    (hcandidate : (opts.wsl.enabled && isPOSIXMountCandidate raw) = false) :
    normalizeWith parseURI raw opts = .ok p ↔
      raw ≠ [] ∧ nul ∉ raw ∧ (∃ mountRoot, normalizeMountRoot opts.wsl.mountRoot = .ok mountRoot) ∧
        ∃ out, Rewrites opts.windows.preserveExtendedLength (toSlashes raw) out ∧
          checkAndClean out opts = .ok p := by
  rw [normalizeWith_raw_eq_ok_iff hhost hpath huri, hcandidate]
  simp only [Bool.false_eq_true, if_false, rewriteSeparators_eq_ok_iff]
  constructor
  · rintro ⟨hne, hnul, mountRoot, hmount, out, hout, hclean⟩
    exact ⟨hne, hnul, ⟨mountRoot, hmount⟩, out, hout, hclean⟩
  · rintro ⟨hne, hnul, ⟨mountRoot, hmount⟩, out, hout, hclean⟩
    exact ⟨hne, hnul, mountRoot, hmount, out, hout, hclean⟩

/-- A second run that rewrites separators accepts a canonical string unchanged exactly when it is
not one of the rewritten ones. -/
theorem normalizeWith_render_iff {parseURI : URIOptions → List α → Except PathError (List α)}
    {opts : Options α} {p : Identity α} {mountRoot : List α}
    (hhost : HostKind.IsRaw opts.sourceHost)
    (hpath : uriPath parseURI p.render opts = .ok p.render)
    (hcandidate : (opts.wsl.enabled && isPOSIXMountCandidate p.render) = false)
    (hmount : normalizeMountRoot opts.wsl.mountRoot = .ok mountRoot)
    (hbackslash : chr '\\' ∉ p.render) (hclean : checkAndClean p.render opts = .ok p.render) :
    normalizeWith parseURI p.render opts = .ok p.render ↔
      ¬Rewritten opts.windows.preserveExtendedLength p := by
  rw [normalizeWith_rewrites_iff hhost hpath (hasURIScheme_render p) hcandidate,
    toSlashes_of_not_mem hbackslash]
  constructor
  · rintro ⟨-, -, -, out, hout, hagain⟩ hrewritten
    exact cleanCanonical_ne_of_rewritten hrewritten hout (checkAndClean_eq_ok_iff.1 hagain).2.1
  · intro h
    exact ⟨p.render_ne_nil, p.render_nul_free, ⟨mountRoot, hmount⟩, p.render, rewrites_render h, hclean⟩

theorem parseFileURI_of_disallowed {opts : URIOptions} {uri : Bytes} (hfile : opts.allowFileURI = false)
    (hvscode : opts.allowVSCodeFileURI = false) (huri : hasURIScheme uri = true) :
    ∃ e, parseFileURI opts uri = .error e := by
  rw [parseFileURI, hfile, hvscode, huri]
  simp only [Bool.false_eq_true, if_false, if_true]
  split_ifs
  · exact ⟨_, rfl⟩
  · exact ⟨_, rfl⟩
  · exact ⟨_, rfl⟩
  · exact ⟨_, rfl⟩

/-- Without WSL mapping and with no URI allowed, a raw run accepts its own output unchanged exactly
when its input, with its separators read as slashes, is not unstable. -/
theorem normalize_raw_idempotent_iff {raw p : Bytes} {opts : Options UInt8}
    (hhost : opts.sourceHost = none) (htrim : opts.trimOuterWhitespace = false)
    (hwsl : opts.wsl.enabled = false) (hfile : opts.uri.allowFileURI = false)
    (hvscode : opts.uri.allowVSCodeFileURI = false) (h : normalize raw opts = .ok p) :
    normalize p opts = .ok p ↔
      ¬Unstable opts.windows.preserveExtendedLength (toSlashes raw) := by
  have hraw : HostKind.IsRaw opts.sourceHost := by
    rw [hhost]
    exact ⟨by simp, by simp⟩
  have hnone : opts.sourceHost ≠ some .vscodeFileURI := by
    simp [hhost]
  have hrun (s : Bytes) : normalize s opts = normalizeWith parseFileURI s opts := by
    rw [Go.normalize, htrim]
    rfl
  rw [hrun] at h ⊢
  -- a URI would have been rejected, since neither scheme is allowed
  have huri : hasURIScheme raw = false := by
    rw [Bool.eq_false_iff]
    intro huri
    rcases normalizeWith_eq_ok_iff.1 h with ⟨-, -, mountRoot, -, -, value, hvalue, -⟩
    rcases parseFileURI_of_disallowed hfile hvscode huri with ⟨e, he⟩
    have hpath : uriPath parseFileURI raw (opts.withMountRoot mountRoot) = .error e := by
      rw [uriPath, huri]
      exact he
    have hraw' : HostKind.IsRaw (opts.withMountRoot mountRoot).sourceHost := hraw
    rw [interpretHost_raw hraw', normalizeRawInput, hpath] at hvalue
    exact absurd hvalue (by simp)
  rcases (normalizeWith_rewrites_iff hraw (uriPath_of_none hnone huri) huri (by simp [hwsl])).1 h with
    ⟨-, -, ⟨mountRoot, hmount⟩, out, hout, hclean⟩
  rcases exists_readFrom hout (backslash_not_mem_toSlashes raw) hclean with ⟨identity, rfl, hread⟩
  rw [normalizeWith_render_iff hraw (uriPath_of_none hnone (hasURIScheme_render identity))
    (by simp [hwsl]) hmount hread.backslash_free (checkAndClean_idempotent hclean),
    hread.rewritten_iff]

/-- The stable case, through every rewriting step: backslashes, an unwrapped share and dot segments. -/
theorem normalize_raw_idempotent_share :
    normalize (lit "//s/h/b") {} = .ok (lit "//s/h/b") := by
  have hfirst : normalize (lit "\\\\?\\UNC\\s\\h\\a\\..\\b") {} = .ok (lit "//s/h/b") := by
    decide
  have hstable : ¬Unstable false (toSlashes (lit "\\\\?\\UNC\\s\\h\\a\\..\\b" : Bytes)) := by
    rintro (⟨-, hdouble⟩ | ⟨⟨-, hsingle⟩, -⟩)
    · exact absurd hdouble (by decide)
    · exact absurd hsingle (by decide)
  exact (normalize_raw_idempotent_iff rfl rfl rfl rfl rfl hfirst).2 hstable

/-- Dot cleanup exposes a drive, and unwrapping exposes a preserved root. -/
theorem normalize_raw_not_idempotent :
    (normalize (lit "/./c:/x") {} = .ok (lit "/c:/x") ∧
      normalize (lit "/c:/x") {} ≠ .ok (lit "/c:/x")) ∧
    (normalize (lit "//?/UNC/?/c:/x") {} = .ok (lit "//?/c:/x") ∧
      normalize (lit "//?/c:/x") {} ≠ .ok (lit "//?/c:/x")) := by
  decide

end CanonicalPath
