import CanonicalPath.Identity.Unwrap
import CanonicalPath.Ports.Grammar

/-!
# Normalize — the two ports agree on whole runs

Both ports are followed from the boundary checks to the target profile, first at one code unit and
then across the spellings of the two languages.
-/

namespace CanonicalPath

namespace Ports

open CodeUnit Segments Outcome

variable {α : Type} [DecidableEq α] [CodeUnit α]

/-! ## The common end -/

/-- The common end depends on the folded root, on what the rest resolves to and on what the policies
see in the rest. -/
theorem checkAndClean_congr {value value' rest rest' : List α} {root root' : Root α}
    {opts : Go.Options α} (hne : value ≠ []) (hne' : value' ≠ []) (hnul : nul ∉ value)
    (hnul' : nul ∉ value') (h : Splits value root rest) (h' : Splits value' root' rest')
    (hfold : root.fold = root'.fold)
    (hresolve : resolve root.isAbsolute rest = resolve root.isAbsolute rest')
    (hcolon : chr ':' ∈ rest ↔ chr ':' ∈ rest')
    (hdevice : (rest.splitOn (chr '/')).any Go.isReservedDevicePart =
      (rest'.splitOn (chr '/')).any Go.isReservedDevicePart) :
    Go.checkAndClean value opts = Go.checkAndClean value' opts := by
  have hpolicy : Go.validateWindowsComponents value opts.windows =
      Go.validateWindowsComponents value' opts.windows := by
    rw [Go.validateWindowsComponents, Go.validateWindowsComponents, hasWindowsADS_of_splits h,
      hasWindowsADS_of_splits h', hasReservedDeviceName_of_splits h,
      hasReservedDeviceName_of_splits h', hdevice]
    simp only [hcolon]
  have habs : root'.isAbsolute = root.isAbsolute := by
    rw [← Root.isAbsolute_fold, ← hfold, Root.isAbsolute_fold]
  have hclean : Go.cleanCanonical value = Go.cleanCanonical value' := by
    rw [cleanCanonical_of_splits hne hnul h, cleanCanonical_of_splits hne' hnul' h', habs, hfold,
      hresolve]
  rw [Go.checkAndClean, Go.checkAndClean, splitRoot_of_splits h, splitRoot_of_splits h', hpolicy,
    hclean]
  rfl

/-! ## Native POSIX input -/

theorem nativePOSIXRepresentation_slashes (k : Nat) {rest : List α}
    (h : rest.head? ≠ some (chr '/')) :
    TS.nativePOSIXRepresentation (List.replicate k (chr '/') ++ rest) =
      if k = 2 then
        newError .invalidPath "implementation-defined POSIX double root is unsupported"
      else if k = 0 then
        .ok (lit "./" ++ rest)
      else
        .ok (chr '/' :: rest) := by
  have hone := hasPrefix_slashes k 1 h
  have htwo := hasPrefix_slashes k 2 h
  have hthree := hasPrefix_slashes k 3 h
  -- all leading slashes go, and one is written back
  have hdrop := dropWhile_slashes k h
  rw [TS.nativePOSIXRepresentation]
  simp only [startsWith_eq]
  rw [show (lit "/" : List α) = List.replicate 1 (chr '/') from rfl, hone,
    show (lit "//" : List α) = List.replicate 2 (chr '/') from rfl, htwo,
    show (lit "///" : List α) = List.replicate 3 (chr '/') from rfl, hthree, hdrop]
  simp only [Bool.and_eq_true, Bool.not_eq_true', decide_eq_true_eq, decide_eq_false_iff_not]
  by_cases htwo' : k = 2
  · rw [if_pos (by omega), if_pos htwo']
  · rw [if_neg (by omega), if_neg htwo']
    by_cases hzero : k = 0
    · subst hzero
      rw [if_pos (by omega), if_pos rfl, List.replicate_zero, List.nil_append]
    · rw [if_neg (by omega), if_neg hzero]
      rfl

/-- On input with a leading slash the two native representations are the same. -/
theorem prepareNativePOSIX_agrees {value : List α} (h : Go.hasPrefix value (lit "/") = true) :
    Agrees Eq (Go.prepareNativePOSIX value) (TS.nativePOSIXRepresentation value) := by
  rcases exists_slashes value with ⟨k, rest, rfl, hrest⟩
  have hk : k ≠ 0 := by
    rintro rfl
    exact hrest (Go.hasPrefix_slash_iff.1 h)
  rw [prepareNativePOSIX_slashes k hrest, nativePOSIXRepresentation_slashes k hrest, if_neg hk,
    if_neg hk]
  split_ifs
  · exact agrees_newError _ _ _
  · exact agrees_refl _

/-- A relative native path may always be marked: the marker is a dot segment. -/
theorem checkAndClean_markRelative {value : List α} {opts : Go.Options α} (hne : value ≠ [])
    (hnul : nul ∉ value) (hhead : value.head? ≠ some (chr '/')) :
    Go.checkAndClean (Go.markRelative value) opts = Go.checkAndClean (lit "./" ++ value) opts := by
  rw [Go.markRelative]
  split_ifs with hmarker
  · rfl
  · have hmarked : Splits (lit "./" ++ value) .relative (lit "./" ++ value) :=
      Splits.relative (by simp [lit]) (by simp [Go.needsRelativeMarker_eq, lit, isLetterCode])
    have hplain : Splits value .relative value := Splits.relative hhead (by simpa using hmarker)
    refine checkAndClean_congr hne (by simp [lit]) hnul (by simp [lit, hnul]) hplain hmarked rfl
      resolve_dot_slash.symm (by simp [lit]) ?_
    rw [splitOn_dot_slash, List.any_cons]
    -- the additional dot component names no device
    have hreserved : Go.isReservedDevicePart (lit "." : List α) = false := by
      simp [Go.isReservedDevicePart]
    rw [hreserved, Bool.false_or]

/-- Native POSIX input is marked only where Go needs it and always by TypeScript; the results agree. -/
theorem nativePOSIX_agrees {raw : List α} (options : TS.NormalizeOptions α) (hne : raw ≠ [])
    (hnul : nul ∉ raw) :
    Agrees Eq
      (Go.prepareNativePOSIX raw >>= fun value => Go.checkAndClean value (goOptions options))
      (TS.nativePOSIXRepresentation raw >>= fun value => TS.checkAndClean value options) := by
  rcases exists_slashes raw with ⟨k, rest, rfl, hrest⟩
  have hrestnul : nul ∉ rest := fun hmem => hnul (List.mem_append_right _ hmem)
  rw [prepareNativePOSIX_slashes k hrest, nativePOSIXRepresentation_slashes k hrest]
  by_cases htwo : k = 2
  · rw [if_pos htwo, if_pos htwo]
    exact agrees_newError _ _ _
  by_cases hzero : k = 0
  · have hrestne : rest ≠ [] := by
      simpa [hzero] using hne
    have hmarked : nul ∉ lit "./" ++ rest := by
      simp [lit, hrestnul]
    rw [if_neg htwo, if_pos hzero, if_neg htwo, if_pos hzero, ok_bind, ok_bind,
      checkAndClean_markRelative hrestne hrestnul hrest]
    exact checkAndClean_agrees options hmarked
  · rw [if_neg htwo, if_neg hzero, if_neg htwo, if_neg hzero, ok_bind, ok_bind]
    exact checkAndClean_agrees options (by simp [hrestnul])

/-! ## Mount roots -/

theorem normalizeMountRoot_agrees (value : Option (List α)) :
    Agrees Eq (Go.normalizeMountRoot (value.getD [])) (TS.normalizeMountRoot value) := by
  have hdefault : TS.defaultMountRoot value = Go.defaultMountRoot (value.getD []) := by
    cases value with
    | none =>
        rfl
    | some value =>
        rfl
  have hnul : nul ∈ Go.defaultMountRoot (value.getD []) ↔ nul ∈ value.getD [] := by
    rw [Go.defaultMountRoot]
    split_ifs with hnil
    · simp [hnil, lit]
    · rfl
  rw [Go.normalizeMountRoot, TS.normalizeMountRoot, hdefault]
  simp only [hnul, startsWith_eq]
  by_cases hmem : nul ∈ value.getD []
  · rw [if_pos hmem, if_pos hmem]
    exact agrees_newError _ _ _
  rw [if_neg hmem, if_neg hmem]
  by_cases hslash : Go.hasPrefix (Go.defaultMountRoot (value.getD [])) (lit "/") = true
  · rw [if_pos hslash, if_neg (by simp [hslash])]
    refine (prepareNativePOSIX_agrees hslash).bind fun prepared prepared' _ heq => ?_
    subst heq
    exact cleanCanonical_agrees prepared
  · rw [if_neg hslash, if_pos (by simpa using hslash)]
    exact agrees_newError _ _ _

/-- TypeScript skips the check of a mount root that is absent and unused; Go checks its default. -/
theorem checkMountRoot_agrees (options : TS.NormalizeOptions α) :
    Agrees (fun _ _ => True) (Go.normalizeMountRoot (goOptions options).wsl.mountRoot)
      (TS.checkMountRoot options) := by
  have hagrees := normalizeMountRoot_agrees (TS.wslMountRoot options.wsl)
  have hmount : (goOptions options).wsl.mountRoot = (TS.wslMountRoot options.wsl).getD [] := rfl
  rw [TS.checkMountRoot, hmount]
  split_ifs with hchecked
  · -- only success or the code matters here, not the cleaned root
    generalize Go.normalizeMountRoot ((TS.wslMountRoot options.wsl).getD []) = go at hagrees ⊢
    generalize TS.normalizeMountRoot (TS.wslMountRoot options.wsl) = ts at hagrees ⊢
    cases hagrees with
    | ok heq =>
        exact Rel.ok trivial
    | error hcode =>
        exact Rel.error hcode
  · have hnone : TS.wslMountRoot options.wsl = none := by
      simpa using (not_or.1 hchecked).1
    -- the default mount root is always accepted
    have hcandidate : Go.isPOSIXMountCandidate (lit "/mnt" : List α) = true := by
      have hhead : (lit "mnt" : List α).head? ≠ some (chr '/') := by
        simp [lit]
      exact isPOSIXMountCandidate_slashes 1 hhead
    have hdefault : Go.normalizeMountRoot ([] : List α) = .ok _ :=
      normalizeMountRoot_eq_ok_iff.2 ⟨by simp, hcandidate, rfl⟩
    rw [hnone, Option.getD_none, hdefault]
    exact Rel.ok trivial

/-! ## Input without a raw grammar -/

/-- The boundary checks agree, and then the interpretation of the host decides. -/
theorem normalizeWith_agrees {raw : List α} (options : TS.NormalizeOptions α)
    (parseUri : Option TS.UriOptions → List α → Except PathError (List α))
    (h : ∀ mountRoot, raw ≠ [] → nul ∉ raw →
      Go.normalizeMountRoot (goOptions options).wsl.mountRoot = .ok mountRoot →
      ¬(options.sourceHost = some .posix ∧ TS.wslEnabled options.wsl = true) →
      Agrees Eq
        (Go.interpretHost Go.plainPath raw ((goOptions options).withMountRoot mountRoot) >>=
          fun value => Go.checkAndClean value (goOptions options))
        (TS.interpretHost parseUri raw options >>= fun value => TS.checkAndClean value options)) :
    Agrees Eq (Go.normalizeWith Go.plainPath raw (goOptions options))
      (TS.normalizeWith parseUri raw options) := by
  rw [Go.normalizeWith, TS.normalizeWith]
  by_cases hne : raw = []
  · rw [if_pos hne, if_pos hne]
    exact agrees_newError _ _ _
  by_cases hnul : nul ∈ raw
  · rw [if_neg hne, if_pos hnul, if_neg hne, if_pos hnul]
    exact agrees_newError _ _ _
  rw [if_neg hne, if_neg hnul, if_neg hne, if_neg hnul]
  refine (checkMountRoot_agrees options).bind fun mountRoot _ hmount _ => ?_
  by_cases hmode : options.sourceHost = some .posix ∧ TS.wslEnabled options.wsl = true
  · -- one port refuses the combination before the host is read, the other while reading it
    have hgo : (goOptions options).sourceHost = some .posix ∧
        (goOptions options).wsl.enabled = true := hmode
    rw [if_pos hgo, TS.interpretHost, if_pos hmode.1, if_pos hmode.2]
    exact agrees_newError _ _ _
  · have hgo : ¬((goOptions options).sourceHost = some .posix ∧
        (goOptions options).wsl.enabled = true) := hmode
    rw [if_neg hgo]
    exact h mountRoot hne hnul hmount hmode

/-- In the grammars without host inference the ports agree on every input. -/
theorem normalizeWith_posix_canonical_agrees {raw : List α} (options : TS.NormalizeOptions α)
    (parseUri : Option TS.UriOptions → List α → Except PathError (List α))
    (hhost : ¬HostKind.IsRaw options.sourceHost) :
    Agrees Eq (Go.normalizeWith Go.plainPath raw (goOptions options))
      (TS.normalizeWith parseUri raw options) := by
  refine normalizeWith_agrees options parseUri fun mountRoot hne hnul hmount hmode => ?_
  by_cases hposix : options.sourceHost = some .posix
  · have hgo : ((goOptions options).withMountRoot mountRoot).sourceHost = some .posix := hposix
    have hwsl : ¬TS.wslEnabled options.wsl = true := fun hwsl => hmode ⟨hposix, hwsl⟩
    rw [interpretHost_posix hgo, TS.interpretHost, if_pos hposix, if_neg hwsl]
    exact nativePOSIX_agrees options hne hnul
  · have hcanonical : options.sourceHost = some .canonical := by
      by_contra hother
      exact hhost ⟨hposix, hother⟩
    have hgo : ((goOptions options).withMountRoot mountRoot).sourceHost = some .canonical := hcanonical
    rw [interpretHost_canonical hgo, TS.interpretHost, if_neg hposix,
      if_neg (by simp [hcanonical]), ok_bind, ok_bind]
    exact checkAndClean_agrees options hnul

/-! ## Across the spellings -/

/-- A Go string and a TypeScript string that spell the same scalar values. -/
def SameText (bytes : Bytes) (units : Units) : Prop :=
  ∃ text : List Char, bytes = utf8.encode text ∧ units = utf16.encode text

/-- A spelling determines its text. -/
theorem sameText_encode_iff {text : List Char} {units : Units} :
    SameText (utf8.encode text) units ↔ utf16.encode text = units := by
  constructor
  · rintro ⟨text', hbytes, rfl⟩
    rw [utf8.encode_injective hbytes]
  · rintro rfl
    exact ⟨text, rfl, rfl⟩

section Spellings

variable {β : Type} [DecidableEq β] [CodeUnit β] (e : Encoding α β)

/-- The TypeScript options in other units: only the mount root is text. -/
def encodeOptions (options : TS.NormalizeOptions α) : TS.NormalizeOptions β where
  sourceHost := options.sourceHost
  targetProfile := options.targetProfile
  wsl := options.wsl.map fun wsl =>
    { enabled := wsl.enabled, mountRoot := wsl.mountRoot.map e.encode }
  uri := options.uri
  windows := options.windows
  trimOuterWhitespace := options.trimOuterWhitespace

omit [DecidableEq α] [DecidableEq β] in
theorem goOptions_encodeOptions (options : TS.NormalizeOptions α) :
    goOptions (encodeOptions e options) = (goOptions options).encode e := by
  rcases options with ⟨host, profile, wsl, uri, windows, trim⟩
  cases wsl with
  | none =>
      rfl
  | some wsl =>
      rcases wsl with ⟨enabled, mountRoot⟩
      cases mountRoot with
      | none =>
          rfl
      | some mountRoot =>
          rfl

end Spellings

/-- A result on UTF-8 is compared with a UTF-16 one as its spelling in UTF-16 units is. -/
theorem rel_sameText_iff {E : PathError → PathError → Prop} {x : Except PathError (List Char)}
    {result : Except PathError Units} :
    Rel E SameText (mapOk utf8.encode x) result ↔ Rel E Eq (mapOk utf16.encode x) result := by
  cases x with
  | ok canonical =>
      rw [mapOk_ok, mapOk_ok, rel_ok_left_iff, rel_ok_left_iff]
      simp only [sameText_encode_iff]
  | error err =>
      rw [mapOk_error, mapOk_error, rel_error_left_iff, rel_error_left_iff]

/-- A run of the Go program on UTF-8 is compared with a result on UTF-16 as its run on UTF-16 is. -/
theorem sameText_normalizeWith_iff {text : List Char} {opts : Go.Options Char}
    {result : Except PathError Units} :
    Agrees SameText (Go.normalizeWith Go.plainPath (utf8.encode text) (opts.encode utf8)) result ↔
      Agrees Eq (Go.normalizeWith Go.plainPath (utf16.encode text) (opts.encode utf16)) result := by
  rw [Go.normalizeWith_encode, Go.normalizeWith_encode]
  exact rel_sameText_iff

/-- Agreement at UTF-16 units is agreement of the Go program on UTF-8 with the TypeScript one. -/
theorem spellings_agree_iff {text : List Char} {options : TS.NormalizeOptions Char}
    {result : Except PathError Units} :
    Agrees SameText
        (Go.normalizeWith Go.plainPath (utf8.encode text) ((goOptions options).encode utf8)) result ↔
      Agrees Eq
        (Go.normalizeWith Go.plainPath (utf16.encode text) (goOptions (encodeOptions utf16 options)))
        result := by
  rw [goOptions_encodeOptions]
  exact sameText_normalizeWith_iff

/-- On native POSIX input and on saved canonical strings the two ports return the same path or fail
with the same code, for every setting of the options. -/
theorem normalize_posix_canonical_agrees (text : List Char) (options : TS.NormalizeOptions Char)
    (hhost : options.sourceHost = some .posix ∨ options.sourceHost = some .canonical)
    (htrim : options.trims = false) :
    Agrees SameText (Go.normalize (utf8.encode text) ((goOptions options).encode utf8))
      (TS.normalize (utf16.encode text) (encodeOptions utf16 options)) := by
  have hraw : ¬HostKind.IsRaw options.sourceHost := by
    rintro ⟨hposix, hcanonical⟩
    exact hhost.elim hposix hcanonical
  have hgo : Go.normalize (utf8.encode text) ((goOptions options).encode utf8) =
      Go.normalizeWith Go.plainPath (utf8.encode text) ((goOptions options).encode utf8) := by
    rw [normalize_of_noTrim htrim]
    exact Go.normalizeWith_eq_plainPath fun _ h => absurd h hraw
  have hts : TS.normalize (utf16.encode text) (encodeOptions utf16 options) =
      TS.normalizeWith TS.parseFileUri (utf16.encode text) (encodeOptions utf16 options) := by
    have htrim' : (encodeOptions utf16 options).trims = false := htrim
    rw [TS.normalize, htrim']
    rfl
  rw [hgo, hts]
  exact spellings_agree_iff.2 (normalizeWith_posix_canonical_agrees _ _ hraw)

/-- A drive-like name beyond ASCII, in a relative path that both ports mark. -/
theorem normalize_posix_canonical_agrees_drive :
    Agrees SameText
      (Go.normalize (utf8.encode "C:\\é/./𝄞".toList)
        { sourceHost := some .posix, targetProfile := some .win32Drive,
          windows := { rejectDeviceNames := true } })
      (TS.normalize (utf16.encode "C:\\é/./𝄞".toList)
        { sourceHost := some .posix, targetProfile := some .win32Drive,
          windows := some { rejectDeviceNames := some true } }) :=
  normalize_posix_canonical_agrees "C:\\é/./𝄞".toList
    { sourceHost := some .posix, targetProfile := some .win32Drive,
      windows := some { rejectDeviceNames := some true } } (Or.inl rfl) rfl

end Ports

end CanonicalPath
