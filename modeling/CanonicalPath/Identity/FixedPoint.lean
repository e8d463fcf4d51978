import CanonicalPath.Identity.Native

/-!
# FixedPoint — successful outputs are canonical fixed points

`normalizeWith_eq_ok_iff` takes a successful run apart: the accepted mount root, the value that the
grammar of the source host hands over, and the common end.  A component policy that accepted the
value accepts what dot cleanup leaves of it, so the common end accepts its own output.
-/

namespace CanonicalPath

open CodeUnit Segments Go DotStack

variable {α : Type} [DecidableEq α] [CodeUnit α]

/-! ## Policies -/

theorem hasWindowsADS_of_splits {value rest : List α} {root : Root α} (h : Splits value root rest) :
    hasWindowsADS value = decide (chr ':' ∈ rest) := by
  rw [hasWindowsADS, splitRoot_of_splits h]

theorem hasReservedDeviceName_of_splits {value rest : List α} {root : Root α}
    (h : Splits value root rest) :
    hasReservedDeviceName value = (rest.splitOn (chr '/')).any isReservedDevicePart := by
  rw [hasReservedDeviceName, splitRoot_of_splits h]

theorem validateWindowsComponents_eq_ok_iff {value : List α} {opts : WindowsOptions} :
    validateWindowsComponents value opts = .ok () ↔
      (opts.rejectADS = true → hasWindowsADS value = false) ∧
        (opts.rejectDeviceNames = true → hasReservedDeviceName value = false) := by
  rw [validateWindowsComponents]
  cases hads : opts.rejectADS <;> cases hdev : opts.rejectDeviceNames <;>
    cases hasWindowsADS value <;> cases hasReservedDeviceName value <;> simp [newError]

/-- What a canonical string shows behind its root: its components, or a dot segment. -/
theorem mem_splitOn_body {p : Identity α} {part : List α} (h : part ∈ p.body.splitOn (chr '/')) :
    part = [] ∨ part = lit "." ∨ part ∈ p.parts := by
  -- an empty join splits into one empty piece
  have hjoin : ∀ part ∈ (joinOn (chr '/') p.parts).splitOn (chr '/'), part = [] ∨ part ∈ p.parts := by
    intro part hpart
    by_cases hnil : p.parts = []
    · left
      simpa [hnil, joinOn] using hpart
    · right
      rwa [splitOn_joinOn (fun q hq => (p.parts_valid q hq).slash_not_mem) hnil] at hpart
  rw [Identity.body] at h
  split_ifs at h with habs
  · exact (hjoin part h).imp_right Or.inr
  · have htext : p.root.text = [] := Root.text_eq_nil_iff.2 (by simpa using habs)
    rw [Identity.render, htext, serialize, if_pos rfl] at h
    split_ifs at h with hnil
    · rw [splitOn_dot, List.mem_singleton] at h
      exact Or.inr (Or.inl h)
    · rw [markRelative] at h
      split_ifs at h
      · rw [splitOn_dot_slash, List.mem_cons] at h
        rcases h with h | h
        · exact Or.inr (Or.inl h)
        · exact (hjoin part h).imp_right Or.inr
      · exact (hjoin part h).imp_right Or.inr

theorem exists_mem_splitOn_of_mem {x : α} {value : List α} (hne : x ≠ chr '/') (h : x ∈ value) :
    ∃ part ∈ value.splitOn (chr '/'), x ∈ part := by
  have hjoin : x ∈ joinOn (chr '/') (value.splitOn (chr '/')) := by
    simpa [joinOn] using h
  exact (mem_joinOn hjoin).resolve_left hne

/-- Dot cleanup leaves no component that a policy has not seen. -/
theorem validateWindowsComponents_of_cleanCanonical {value cleaned : List α} {opts : WindowsOptions}
    (hclean : cleanCanonical value = .ok cleaned)
    (h : validateWindowsComponents value opts = .ok ()) :
    validateWindowsComponents cleaned opts = .ok () := by
  rcases exists_identity_of_cleanCanonical hclean with ⟨p, root, rest, rfl, hsplits, hroot, hresolve⟩
  rw [validateWindowsComponents_eq_ok_iff, hasWindowsADS_of_splits hsplits,
    hasReservedDeviceName_of_splits hsplits] at h
  rw [validateWindowsComponents_eq_ok_iff, hasWindowsADS_of_splits p.splits_render,
    hasReservedDeviceName_of_splits p.splits_render]
  refine ⟨fun hopt => ?_, fun hopt => ?_⟩
  · -- a colon behind the root sits in a component, and the input had that component too
    have hads : chr ':' ∉ rest := by
      simpa using h.1 hopt
    rw [decide_eq_false_iff_not]
    intro hmem
    rcases exists_mem_splitOn_of_mem (by simp) hmem with ⟨part, hpart, hcolon⟩
    rcases mem_splitOn_body hpart with rfl | rfl | hpart
    · simp at hcolon
    · simp [lit] at hcolon
    · exact hads (mem_of_resolve hresolve hpart hcolon)
  · -- the check runs over the components one by one, and dot segments pass it
    have hdevice := h.2 hopt
    rw [List.any_eq_false] at hdevice ⊢
    intro part hpart
    rcases mem_splitOn_body hpart with rfl | rfl | hpart
    · simp [isReservedDevicePart]
    · simp [isReservedDevicePart]
    · exact hdevice part (mem_splitOn_of_resolve hresolve hpart)

/-! ## Target profiles -/

/-- The roots that a target profile accepts. -/
def accepts (profile : Option TargetProfile) (root : Root α) : Bool :=
  match profile with
  | none => true
  | some .portable => true
  | some .posix => !root.isWindows
  | some .win32Drive => !root.isAbsolute || root.isDrive || root.isExtendedDrive
  | some (.other _) => false

/-- A profile looks at the root only. -/
theorem validateTargetProfile_of_splits {value rest : List α} {root : Root α}
    (h : Splits value root rest) (profile : Option TargetProfile) :
    if accepts profile root then
      validateTargetProfile value profile = .ok ()
    else
      ∃ err, validateTargetProfile value profile = .error err ∧ err.code = .invalidPath := by
  have hwindows : isWindowsRoot root.text = root.isWindows := isWindowsRoot_text
  -- the test of the source, which is spelled with the prefix, on the root
  have hdrive : (root.text = lit "/" ∨ (isWindowsRoot root.text && !isDriveRoot root.text) = true) ↔
      (!root.isAbsolute || root.isDrive || root.isExtendedDrive) = false := by
    rw [isDriveRoot_text h.valid, hwindows]
    cases root <;>
      simp [Root.text, Root.isWindows, Root.isAbsolute, Root.isDrive, Root.isExtendedDrive, lit]
  rw [validateTargetProfile, splitRoot_of_splits h, Outcome.ok_bind]
  cases profile with
  | none =>
      exact rfl
  | some profile =>
      cases profile with
      | portable =>
          exact rfl
      | posix =>
          simp only [accepts, hwindows]
          cases root.isWindows with
          | true =>
              exact ⟨_, rfl, rfl⟩
          | false =>
              exact rfl
      | win32Drive =>
          simp only [accepts, hdrive]
          cases !root.isAbsolute || root.isDrive || root.isExtendedDrive with
          | true =>
              exact rfl
          | false =>
              exact ⟨_, rfl, rfl⟩
      | other name =>
          exact ⟨_, rfl, rfl⟩

theorem validateTargetProfile_eq_ok_iff {value rest : List α} {root : Root α}
    (h : Splits value root rest) {profile : Option TargetProfile} :
    validateTargetProfile value profile = .ok () ↔ accepts profile root = true := by
  have hprofile := validateTargetProfile_of_splits h profile
  split_ifs at hprofile with haccepts
  · exact iff_of_true hprofile haccepts
  · rcases hprofile with ⟨err, herr, -⟩
    exact iff_of_false (by simp [herr]) haccepts

/-! ## The common end -/

theorem checkAndClean_eq_ok_iff {value cleaned : List α} {opts : Options α} :
    checkAndClean value opts = .ok cleaned ↔
      validateWindowsComponents value opts.windows = .ok () ∧
        cleanCanonical value = .ok cleaned ∧
        validateTargetProfile cleaned opts.targetProfile = .ok () := by
  constructor
  · intro h
    rcases Outcome.bind_eq_ok_iff.1 h with ⟨split, -, h⟩
    rcases Outcome.bind_eq_ok_iff.1 h with ⟨⟨⟩, hpolicy, h⟩
    rcases Outcome.bind_eq_ok_iff.1 h with ⟨cleaned', hclean, h⟩
    rcases Outcome.bind_eq_ok_iff.1 h with ⟨⟨⟩, hprofile, h⟩
    rw [← Except.ok.inj h]
    exact ⟨hpolicy, hclean, hprofile⟩
  · rintro ⟨hpolicy, hclean, hprofile⟩
    rcases cleanCanonical_eq_ok_iff.1 hclean with ⟨-, -, root, rest, -, hsplits, -⟩
    rw [checkAndClean, splitRoot_of_splits hsplits, Outcome.ok_bind, hpolicy, Outcome.ok_bind,
      hclean, Outcome.ok_bind, hprofile]
    rfl

/-- The common end accepts its own output. -/
theorem checkAndClean_idempotent {value cleaned : List α} {opts : Options α}
    (h : checkAndClean value opts = .ok cleaned) : checkAndClean cleaned opts = .ok cleaned := by
  rcases checkAndClean_eq_ok_iff.1 h with ⟨hpolicy, hclean, hprofile⟩
  exact checkAndClean_eq_ok_iff.2 ⟨validateWindowsComponents_of_cleanCanonical hclean hpolicy,
    cleanCanonical_idempotent hclean, hprofile⟩

/-! ## The grammars -/

section Grammars

variable {parseURI : URIOptions → List α → Except PathError (List α)} {raw : List α}
variable {opts : Options α}

theorem interpretHost_posix (h : opts.sourceHost = some .posix) :
    interpretHost parseURI raw opts = prepareNativePOSIX raw := by
  rw [interpretHost, if_pos h]

theorem interpretHost_canonical (h : opts.sourceHost = some .canonical) :
    interpretHost parseURI raw opts = .ok raw := by
  rw [interpretHost, if_neg (by simp [h]), if_pos h]

theorem interpretHost_raw (h : HostKind.IsRaw opts.sourceHost) :
    interpretHost parseURI raw opts = normalizeRawInput parseURI raw opts := by
  rw [interpretHost, if_neg h.1, if_neg h.2]

end Grammars

/-- With the boundary checks passed, a run is its grammar followed by the common end. -/
theorem normalizeWith_eq {parseURI : URIOptions → List α → Except PathError (List α)}
    {raw mountRoot : List α} {opts : Options α} (hne : raw ≠ []) (hnul : nul ∉ raw)
    (hmount : normalizeMountRoot opts.wsl.mountRoot = .ok mountRoot)
    (hmode : ¬(opts.sourceHost = some .posix ∧ opts.wsl.enabled = true)) :
    normalizeWith parseURI raw opts =
      (interpretHost parseURI raw (opts.withMountRoot mountRoot) >>= fun value =>
        checkAndClean value opts) := by
  rw [normalizeWith, if_neg hne, if_neg hnul, hmount, Outcome.ok_bind, if_neg hmode]

theorem normalizeWith_eq_ok_iff {parseURI : URIOptions → List α → Except PathError (List α)}
    {raw p : List α} {opts : Options α} :
    normalizeWith parseURI raw opts = .ok p ↔
      raw ≠ [] ∧ nul ∉ raw ∧ ∃ mountRoot, normalizeMountRoot opts.wsl.mountRoot = .ok mountRoot ∧
        ¬(opts.sourceHost = some .posix ∧ opts.wsl.enabled = true) ∧
        ∃ value, interpretHost parseURI raw (opts.withMountRoot mountRoot) = .ok value ∧
          checkAndClean value opts = .ok p := by
  constructor
  · intro h
    by_cases hne : raw = []
    · rw [normalizeWith, if_pos hne] at h
      exact absurd h (by simp [newError])
    by_cases hnul : nul ∈ raw
    · rw [normalizeWith, if_neg hne, if_pos hnul] at h
      exact absurd h (by simp [newError])
    rw [normalizeWith, if_neg hne, if_neg hnul] at h
    rcases Outcome.bind_eq_ok_iff.1 h with ⟨mountRoot, hmount, h⟩
    by_cases hposix : opts.sourceHost = some .posix ∧ opts.wsl.enabled = true
    · rw [if_pos hposix] at h
      exact absurd h (by simp [newError])
    · rw [if_neg hposix] at h
      rcases Outcome.bind_eq_ok_iff.1 h with ⟨value, hvalue, h⟩
      exact ⟨hne, hnul, mountRoot, hmount, hposix, value, hvalue, h⟩
  · rintro ⟨hne, hnul, mountRoot, hmount, hposix, value, hvalue, h⟩
    rw [normalizeWith_eq hne hnul hmount hposix, hvalue, Outcome.ok_bind, h]

/-! ## Fixed points -/

theorem normalizeMountRoot_default :
    normalizeMountRoot ([] : List α) = .ok (serialize (lit "/") (components (lit "/mnt"))) := by
  rw [normalizeMountRoot_eq_ok_iff]
  refine ⟨by simp, ?_, rfl⟩
  have hmnt : (lit "/mnt" : List α) = List.replicate 1 (chr '/') ++ lit "mnt" := rfl
  rw [defaultMountRoot, if_pos rfl, hmnt, isPOSIXMountCandidate_slashes 1 (by simp [lit])]
  rfl

/-- Canonical mode without policies is dot cleanup. -/
theorem normalizeWith_canonical_of_cleanCanonical
    {parseURI : URIOptions → List α → Except PathError (List α)} {value cleaned : List α}
    (h : cleanCanonical value = .ok cleaned) :
    normalizeWith parseURI value { sourceHost := some .canonical } = .ok cleaned := by
  rcases exists_identity_of_cleanCanonical h with ⟨p, -, -, rfl, -⟩
  rcases cleanCanonical_eq_ok_iff.1 h with ⟨hne, hnul, -⟩
  refine normalizeWith_eq_ok_iff.2 ⟨hne, hnul, _, normalizeMountRoot_default, by simp, value,
    interpretHost_canonical rfl, ?_⟩
  refine checkAndClean_eq_ok_iff.2 ⟨?_, h, (validateTargetProfile_eq_ok_iff p.splits_render).2 rfl⟩
  exact validateWindowsComponents_eq_ok_iff.2 ⟨by simp, by simp⟩

theorem normalizeWith_canonical_eq_ok_iff
    {parseURI : URIOptions → List α → Except PathError (List α)} {value cleaned : List α} :
    normalizeWith parseURI value { sourceHost := some .canonical } = .ok cleaned ↔
      cleanCanonical value = .ok cleaned := by
  refine ⟨fun h => ?_, normalizeWith_canonical_of_cleanCanonical⟩
  rcases normalizeWith_eq_ok_iff.1 h with ⟨-, -, mountRoot, -, -, value', hvalue, hclean⟩
  rw [interpretHost_canonical rfl, Except.ok.injEq] at hvalue
  rw [hvalue]
  exact (checkAndClean_eq_ok_iff.1 hclean).2.1

/-- A rendered identity is a fixed point of canonical mode. -/
theorem normalizeWith_canonical_render {parseURI : URIOptions → List α → Except PathError (List α)}
    (p : Identity α) :
    normalizeWith parseURI p.render { sourceHost := some .canonical } = .ok p.render :=
  normalizeWith_canonical_of_cleanCanonical (cleanCanonical_render p)

/-- Every output is the rendering of an identity. -/
theorem exists_identity_of_normalizeWith
    {parseURI : URIOptions → List α → Except PathError (List α)} {raw p : List α} {opts : Options α}
    (h : normalizeWith parseURI raw opts = .ok p) : ∃ identity : Identity α, p = identity.render := by
  rcases normalizeWith_eq_ok_iff.1 h with ⟨-, -, mountRoot, -, -, value, -, hvalue⟩
  rcases checkAndClean_eq_ok_iff.1 hvalue with ⟨-, hclean, -⟩
  rcases exists_identity_of_cleanCanonical hclean with ⟨identity, root, rest, rfl, -⟩
  exact ⟨identity, rfl⟩

/-- The two grammars without host inference hand their own outputs through unchanged. -/
theorem interpretHost_idempotent {parseURI : URIOptions → List α → Except PathError (List α)}
    {raw value cleaned : List α} {opts opts' : Options α}
    (hhost : opts.sourceHost = some .posix ∨ opts.sourceHost = some .canonical)
    (h : interpretHost parseURI raw opts = .ok value) (hclean : checkAndClean value opts' = .ok cleaned) :
    interpretHost parseURI cleaned opts = .ok cleaned := by
  -- native input never has a Windows root, so a second native reading adds nothing
  rcases hhost with hposix | hcanonical
  · rw [interpretHost_posix hposix] at h ⊢
    rcases exists_splits_of_prepareNativePOSIX h with ⟨root, rest, hsplits, hwindows⟩
    rcases exists_identity_of_cleanCanonical (checkAndClean_eq_ok_iff.1 hclean).2.1 with
      ⟨p, root', rest', rfl, hsplits', hroot, -⟩
    refine prepareNativePOSIX_of_splits p.splits_render ?_
    have hsame : isWindowsRoot root'.text = isWindowsRoot root.text := by
      rw [(hsplits'.rest_eq hsplits).1]
    rw [hroot, Root.isWindows_fold, ← isWindowsRoot_text, hsame, isWindowsRoot_text, hwindows]
  · exact interpretHost_canonical hcanonical

/-- Every output is a canonical fixed point, and in the two grammars without host inference a fixed
point of its own options. -/
theorem normalize_fixedPoint {raw p : Bytes} {opts : Options UInt8}
    (h : normalize raw opts = .ok p) :
    normalize p { sourceHost := some .canonical } = .ok p ∧
      (opts.sourceHost = some .posix ∨ opts.sourceHost = some .canonical →
        opts.trimOuterWhitespace = false → normalize p opts = .ok p) := by
  rw [Go.normalize] at h
  refine ⟨?_, fun hhost htrim => ?_⟩
  · rcases exists_identity_of_normalizeWith h with ⟨identity, rfl⟩
    exact normalizeWith_canonical_render identity
  · rcases exists_identity_of_normalizeWith h with ⟨identity, hrender⟩
    rcases normalizeWith_eq_ok_iff.1 h with ⟨-, -, mountRoot, hmount, hposix, value, hvalue, hclean⟩
    have hagain : normalizeWith parseFileURI p opts = .ok p :=
      normalizeWith_eq_ok_iff.2 ⟨hrender ▸ identity.render_ne_nil, hrender ▸ identity.render_nul_free,
        mountRoot, hmount, hposix, p, interpretHost_idempotent hhost hvalue hclean,
        checkAndClean_idempotent hclean⟩
    rw [Go.normalize, htrim]
    exact hagain

/-- Under device policies, through the native grammar. -/
theorem normalize_fixedPoint_native :
    normalize (lit "./c:/x")
      { sourceHost := some .posix, windows := { rejectDeviceNames := true } } = .ok (lit "./c:/x") := by
  have hfirst : normalize (lit "c:/a/../x")
      { sourceHost := some .posix, windows := { rejectDeviceNames := true } } = .ok (lit "./c:/x") := by
    decide
  exact (normalize_fixedPoint hfirst).2 (Or.inl rfl) rfl

end CanonicalPath
