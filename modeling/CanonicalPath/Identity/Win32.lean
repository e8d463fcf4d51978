import CanonicalPath.Identity.Mounts

/-!
# Win32 — Windows serialization is lossless

`toWin32` writes backslashes for separators and the drive letter in upper case.  Its output holds no
slash, so a raw run never takes it for a URI; with its backslashes read as separators it has the root
of the canonical path again, up to the case of the drive.
-/

namespace CanonicalPath

open CodeUnit Segments Go DotStack

variable {α : Type} [DecidableEq α] [CodeUnit α]

/-! ## Upper-case drives -/

/-- The root with its drive letter in upper case. -/
def Root.raise : Root α → Root α
  | .drive d => .drive (upper d)
  | .extendedDrive d => .extendedDrive (upper d)
  | root => root

omit [DecidableEq α] in
theorem Root.fold_raise {root : Root α} (h : root.Valid) : root.raise.fold = root.fold := by
  cases root with
  | drive d =>
      rw [raise, fold, fold, lower_upper h]
  | extendedDrive d =>
      rw [raise, fold, fold, lower_upper h]
  | relative =>
      rfl
  | posix =>
      rfl
  | unc server share =>
      rfl
  | extendedUNC server share =>
      rfl

omit [DecidableEq α] in
theorem Root.isExtended_raise (root : Root α) : root.raise.isExtended = root.isExtended := by
  cases root <;> rfl

omit [DecidableEq α] in
theorem Root.raise_eq_posix_iff {root : Root α} : root.raise = .posix ↔ root = .posix := by
  cases root <;> simp [raise]

omit [DecidableEq α] in
theorem Root.isAbsolute_raise (root : Root α) : root.raise.isAbsolute = root.isAbsolute := by
  cases root <;> rfl

/-- Raising the drive letter changes the root only. -/
theorem splits_uppercaseDrive {value rest : List α} {root : Root α} (h : Splits value root rest) :
    Splits (uppercaseDrive value) root.raise rest := by
  rw [uppercaseDrive, h.hasDriveRoot_eq, h.hasDriveRoot_drop_eq]
  cases h with
  | relative hhead hmarker =>
      exact Splits.relative hhead hmarker
  | posix hhead =>
      exact Splits.posix hhead
  | drive hd hrest =>
      exact Splits.drive (by rwa [isLetter_upper]) hrest
  | unc hserver hshare hne htail hclean =>
      exact Splits.unc hserver hshare hne htail hclean
  | extendedDrive hd hrest =>
      exact Splits.extendedDrive (by rwa [isLetter_upper]) hrest
  | extendedUNC hserver hshare htail hclean =>
      exact Splits.extendedUNC hserver hshare htail hclean

omit [DecidableEq α] in
/-- Raising a letter introduces no punctuation. -/
theorem eq_chr_of_upper_eq {a : α} {c : Char} (hc : c.toNat < 128)
    (hletter : isLetterCode c.toNat = false) (h : upper a = chr c) : a = chr c := by
  -- punctuation is no letter, and raising changes letters only
  have hnot : isLetter a = false := by
    rw [← isLetter_upper, h, isLetter_chr hc, hletter]
  have hsame : upper a = a := by
    rw [upper, if_neg]
    rintro ⟨hlow, hhigh⟩
    rw [Bool.eq_false_iff] at hnot
    exact hnot (isLetter_iff.2 (Or.inl ⟨hlow, hhigh⟩))
  rw [← hsame, h]

theorem chr_mem_of_uppercaseDrive {value : List α} {c : Char} (hc : c.toNat < 128)
    (hletter : isLetterCode c.toNat = false) (h : chr c ∈ uppercaseDrive value) : chr c ∈ value := by
  -- the only piece that was rewritten
  have hraised {piece : List α} (hpiece : ∀ a ∈ piece, a ∈ value)
      (hmem : chr c ∈ piece.map upper) : chr c ∈ value := by
    rcases List.mem_map.1 hmem with ⟨a, ha, hupper⟩
    rw [← eq_chr_of_upper_eq hc hletter hupper]
    exact hpiece a ha
  rw [uppercaseDrive] at h
  split_ifs at h
  · rcases List.mem_append.1 h with h | h
    · exact hraised (fun a ha => List.mem_of_mem_take ha) h
    · exact List.mem_of_mem_drop h
  · rcases List.mem_append.1 h with h | h
    · rcases List.mem_append.1 h with h | h
      · exact List.mem_of_mem_take h
      · exact hraised (fun a ha => List.mem_of_mem_drop (List.mem_of_mem_take ha)) h
    · exact List.mem_of_mem_drop h
  · exact h

theorem length_uppercaseDrive (value : List α) : (uppercaseDrive value).length = value.length := by
  rw [uppercaseDrive]
  split_ifs
  · simp
    omega
  · simp
    omega
  · rfl

/-! ## Backslashes for separators -/

theorem toSlashes_replaceAll {value : List α} (h : chr '\\' ∉ value) :
    toSlashes (replaceAll '/' '\\' value) = value := by
  have hunit : ∀ a ∈ value, ((fun a => if a = chr '\\' then chr '/' else a) ∘
      fun a => if a = chr '/' then chr '\\' else a) a = a := by
    intro a ha
    -- a slash makes the round trip; nothing else was a backslash
    by_cases hslash : a = chr '/'
    · simp [hslash]
    · have hbackslash : a ≠ chr '\\' := by
        rintro rfl
        exact h ha
      simp [hslash, hbackslash]
  rw [toSlashes, replaceAll, replaceAll, List.map_map, List.map_congr_left hunit, List.map_id']

theorem Splits.not_uriDrive {value rest : List α} {root : Root α} (h : Splits value root rest)
    (hroot : root ≠ .posix) : isURIWindowsDrivePath value = false := by
  rw [Bool.eq_false_iff]
  intro huri
  rcases isURIWindowsDrivePath_iff.1 huri with ⟨tail, rfl, hdrive⟩
  -- a drive behind one slash would be read below the POSIX root
  have hposix := Splits.posix (head?_ne_slash_of_hasDriveRoot hdrive)
  have hrest : rest = tail := (h.rest_eq hposix).2
  exact hroot (h.root_eq_posix_iff.2 ⟨by rw [hrest], by
    rw [hrest]
    exact head?_ne_slash_of_hasDriveRoot hdrive⟩)

/-! ## The round trip -/

theorem toWin32_render_eq_ok_iff {p : Identity α} {host : List α} :
    toWin32 p.render = .ok host ↔
      p.root ≠ .posix ∧ chr '\\' ∉ p.render ∧ hasRelativeMarker p.render = false ∧
        host = replaceAll '/' '\\' (uppercaseDrive p.render) := by
  have hposix : p.root.text = lit "/" ↔ p.root = .posix := by
    cases p.root <;> simp [Root.text, lit]
  rw [toWin32, parseCleanCanonical_render, Outcome.ok_bind]
  constructor
  · intro h
    split_ifs at h with hlossy
    · exact absurd h (by simp [newError])
    · simp only [not_or, Bool.not_eq_true] at hlossy
      exact ⟨mt hposix.2 hlossy.1, hlossy.2.1, hlossy.2.2, (Except.ok.inj h).symm⟩
  · rintro ⟨hroot, hbackslash, hmarker, rfl⟩
    rw [if_neg]
    simp [hposix, hroot, hbackslash, hmarker]

/-- A Windows run on the Windows spelling of a canonical path gives the path back. -/
theorem normalizeWith_toWin32 {parseURI : URIOptions → List α → Except PathError (List α)}
    {p : Identity α} {host mountRoot : List α} {opts : Options α}
    (h : toWin32 p.render = .ok host) (hhost : opts.sourceHost = some .win32)
    (hpreserve : opts.windows.preserveExtendedLength = hasPrefix p.render (lit "//?/"))
    (hwsl : opts.wsl.enabled = false) (hpolicies : NoPolicies opts.windows)
    (hprofile : Portable opts.targetProfile)
    (hmount : normalizeMountRoot opts.wsl.mountRoot = .ok mountRoot) :
    normalizeWith parseURI host opts = .ok p.render := by
  rcases toWin32_render_eq_ok_iff.1 h with ⟨hroot, hbackslash, -, rfl⟩
  have hsplits := splits_uppercaseDrive p.splits_render
  have hraised : chr '\\' ∉ uppercaseDrive p.render := fun hmem =>
    hbackslash (chr_mem_of_uppercaseDrive (by decide) (by decide) hmem)
  have hnul : nul ∉ uppercaseDrive p.render := fun hmem =>
    p.render_nul_free (chr_mem_of_uppercaseDrive (by decide) (by decide) hmem)
  have hne : uppercaseDrive p.render ≠ [] := by
    intro hnil
    have hlength := length_uppercaseDrive p.render
    rw [hnil, List.length_nil, eq_comm, List.length_eq_zero_iff] at hlength
    exact p.render_ne_nil hlength
  -- cleaning lowers the raised letter again
  have hclean : cleanCanonical (uppercaseDrive p.render) = .ok p.render := by
    rw [cleanCanonical_of_splits hne hnul hsplits, Root.isAbsolute_raise, p.resolve_body,
      Root.fold_raise p.root_valid, p.root_folded]
    rfl
  have huri : hasURIScheme (replaceAll '/' '\\' (uppercaseDrive p.render)) = false :=
    hasURIScheme_of_slash_not_mem (chr_not_mem_replaceAll (by decide) (by decide) (by decide) _)
  have hraw : HostKind.IsRaw opts.sourceHost := by
    rw [hhost]
    exact ⟨by simp, by simp⟩
  refine (normalizeWith_rewrites_iff hraw (uriPath_of_none (by simp [hhost]) huri) huri (by simp [hwsl])).2
    ⟨?_, ?_, ⟨mountRoot, hmount⟩, uppercaseDrive p.render, ?_, ?_⟩
  · simpa [replaceAll] using hne
  · rwa [chr_mem_replaceAll_iff (by simp) (by simp)]
  · rw [toSlashes_replaceAll hraised]
    refine Rewrites.same (hsplits.not_uriDrive (mt Root.raise_eq_posix_iff.1 hroot)) fun hleads => ?_
    refine ⟨?_, _, _, hsplits⟩
    rw [hpreserve, p.splits_render.hasPrefix_extended, ← Root.isExtended_raise,
      ← hsplits.hasPrefix_extended, hleads]
  · exact checkAndClean_eq_ok_iff.2 ⟨validateWindowsComponents_of_noPolicies hpolicies _, hclean,
      (validateTargetProfile_eq_ok_iff p.splits_render).2 (accepts_of_portable hprofile _)⟩

/-- The Windows spelling tells whether the path has an extended root, so one run reads both paths. -/
theorem toWin32_injective {p q : Identity α} {host : List α} (hp : toWin32 p.render = .ok host)
    (hq : toWin32 q.render = .ok host) : p.render = q.render := by
  rcases toWin32_render_eq_ok_iff.1 hp with ⟨-, hpbackslash, -, rfl⟩
  rcases toWin32_render_eq_ok_iff.1 hq with ⟨-, hqbackslash, -, hsame⟩
  have hupper : uppercaseDrive p.render = uppercaseDrive q.render := by
    have hslashes := congrArg toSlashes hsame
    rwa [toSlashes_replaceAll fun hmem =>
        hpbackslash (chr_mem_of_uppercaseDrive (by decide) (by decide) hmem),
      toSlashes_replaceAll fun hmem =>
        hqbackslash (chr_mem_of_uppercaseDrive (by decide) (by decide) hmem)] at hslashes
  have hextended : hasPrefix p.render (lit "//?/") = hasPrefix q.render (lit "//?/") := by
    rw [p.splits_render.hasPrefix_extended, q.splits_render.hasPrefix_extended,
      ← Root.isExtended_raise, ← (splits_uppercaseDrive p.splits_render).hasPrefix_extended, hupper,
      (splits_uppercaseDrive q.splits_render).hasPrefix_extended, Root.isExtended_raise]
  -- one fixed run, whose preservation flag is right for both paths
  have hrun {r : Identity α} (hr : toWin32 r.render = .ok (replaceAll '/' '\\' (uppercaseDrive p.render)))
      (hleads : hasPrefix p.render (lit "//?/") = hasPrefix r.render (lit "//?/")) :=
    @normalizeWith_toWin32 α _ _ (fun _ value => .ok value) _ _ _
      { sourceHost := some .win32
        windows := { preserveExtendedLength := hasPrefix p.render (lit "//?/") } }
      hr rfl hleads rfl ⟨rfl, rfl⟩ (Or.inl rfl) normalizeMountRoot_default
  exact Except.ok.inj ((hrun hp rfl).symm.trans (hrun hq hextended))

/-- Windows serialization is lossless: a Windows run that preserves exactly the extended prefixes
gives the path back, so no other canonical path has the same Windows spelling. -/
theorem normalize_toWin32 {p host mountRoot : Bytes} {opts : Options UInt8}
    (hfixed : normalize p { sourceHost := some .canonical } = .ok p) (h : toWin32 p = .ok host)
    (hhost : opts.sourceHost = some .win32)
    (hpreserve : opts.windows.preserveExtendedLength = hasPrefix p (lit "//?/"))
    (hwsl : opts.wsl.enabled = false) (hpolicies : NoPolicies opts.windows)
    (hprofile : Portable opts.targetProfile) (htrim : opts.trimOuterWhitespace = false)
    (hmount : normalizeMountRoot opts.wsl.mountRoot = .ok mountRoot) :
    normalize host opts = .ok p ∧
      ∀ q, normalize q { sourceHost := some .canonical } = .ok q → toWin32 q = .ok host → q = p := by
  have hidentity {q : Bytes} (hq : normalize q { sourceHost := some .canonical } = .ok q) :
      ∃ identity : Identity UInt8, q = identity.render := by
    have hcanonical : normalizeWith parseFileURI q { sourceHost := some .canonical } = .ok q := hq
    exact exists_identity_of_normalizeWith hcanonical
  rcases hidentity hfixed with ⟨identity, rfl⟩
  refine ⟨?_, fun q hq hsame => ?_⟩
  · rw [normalize_of_noTrim htrim]
    exact normalizeWith_toWin32 h hhost hpreserve hwsl hpolicies hprofile hmount
  · rcases hidentity hq with ⟨identity', rfl⟩
    exact toWin32_injective hsame h

/-- A preserved share keeps its drive-looking and UNC-like components, and nothing else is spelled like it. -/
theorem normalize_toWin32_share :
    toWin32 (lit "//?/UNC/?/c:/UNC" : Bytes) = .ok (lit "\\\\?\\UNC\\?\\c:\\UNC") ∧
      normalize (lit "\\\\?\\UNC\\?\\c:\\UNC")
        { sourceHost := some .win32, windows := { preserveExtendedLength := true } } = .ok (lit "//?/UNC/?/c:/UNC") ∧
      ∀ q : Bytes, normalize q { sourceHost := some .canonical } = .ok q →
        toWin32 q = .ok (lit "\\\\?\\UNC\\?\\c:\\UNC") → q = lit "//?/UNC/?/c:/UNC" := by
  have hmount : normalizeMountRoot ([] : Bytes) = .ok (lit "/mnt") := by
    decide
  have hserialized : toWin32 (lit "//?/UNC/?/c:/UNC" : Bytes) = .ok (lit "\\\\?\\UNC\\?\\c:\\UNC") := by
    decide
  exact ⟨hserialized, @normalize_toWin32 (lit "//?/UNC/?/c:/UNC") _ _
    { sourceHost := some .win32, windows := { preserveExtendedLength := true } }
    (by decide) hserialized rfl (by decide) rfl ⟨rfl, rfl⟩ (Or.inl rfl) rfl hmount⟩

end CanonicalPath
