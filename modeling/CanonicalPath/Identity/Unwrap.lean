import CanonicalPath.Identity.Mounts

/-!
# Unwrap — extended prefixes that are not preserved

Unwrapping cuts the extended prefix off and parses what is left from scratch.  For every drive and
for every server but `?` this reads the ordinary root with the same rest.  A server `?` spells the
extended prefix itself, and `normalize_unwrap_iff` says that nothing else goes wrong.
-/

namespace CanonicalPath

open CodeUnit Segments Go DotStack

variable {α : Type} [DecidableEq α] [CodeUnit α]

/-! ## Parsed paths -/

/-- A decoded path holds no NUL. -/
theorem nul_not_mem_of_parseHierarchicalURIPath {raw path : Bytes} {leader : String} {opts : URIOptions}
    (h : parseHierarchicalURIPath raw leader opts = .ok path) : nul ∉ path := by
  rw [parseHierarchicalURIPath] at h
  split at h
  · exact absurd h (by simp [newError])
  · split at h
    · exact absurd h (by simp [newError])
    · split at h
      · exact absurd h (by simp [newError])
      · exact absurd h (by simp [newError])
      · -- both decoded pieces passed the NUL check
        rename_i decoded decodedAuthority _ _
        split_ifs at h with hutf8 hnul hempty hauthority
        · exact absurd h (by simp [newError])
        · exact absurd h (by simp [newError])
        · exact absurd h (by simp [newError])
        · rw [not_or] at hnul
          rw [← Except.ok.inj h]
          simp [lit, hnul.1, hnul.2]
        · rw [not_or] at hnul
          rw [← Except.ok.inj h]
          exact hnul.1

theorem nul_not_mem_of_parseFileURI {uri path : Bytes} {opts : URIOptions}
    (h : parseFileURI opts uri = .ok path) : nul ∉ path := by
  rw [parseFileURI] at h
  split_ifs at h with hnul
  · exact absurd h (by simp [newError])
  · exact nul_not_mem_of_parseHierarchicalURIPath h
  · exact absurd h (by simp [newError])
  · exact nul_not_mem_of_parseHierarchicalURIPath h
  · exact absurd h (by simp [newError])
  · exact absurd h (by simp [newError])
  · rw [← Except.ok.inj h]
    exact hnul

theorem nul_not_mem_of_uriPath {raw path : Bytes} {opts : Options UInt8} (hnul : nul ∉ raw)
    (h : uriPath parseFileURI raw opts = .ok path) : nul ∉ path := by
  rw [uriPath] at h
  split_ifs at h
  · exact nul_not_mem_of_parseFileURI h
  · rw [← Except.ok.inj h]
    exact hnul

theorem nul_not_mem_toSlashes {value : List α} (h : nul ∉ value) : nul ∉ toSlashes value :=
  mt (chr_mem_replaceAll_iff (by simp) (by simp)).1 h

/-! ## What is unwrapped -/

/-- Without policies an absolute root and its components pass the common end. -/
theorem checkAndClean_of_splits {value rest : List α} {root : Root α} (opts : Options α)
    (hnul : nul ∉ value) (h : Splits value root rest) (habs : root.isAbsolute = true)
    (hpolicies : NoPolicies opts.windows) (hprofile : Portable opts.targetProfile) :
    checkAndClean value opts = .ok (serialize root.fold.text (components rest)) := by
  have hne : value ≠ [] := by
    rcases h.exists_eq_append with ⟨tail, rfl, -⟩
    exact fun hnil => Root.text_ne_nil habs (List.append_eq_nil_iff.1 hnil).1
  -- an absolute root is a floor, so the walk cannot fail
  have hresolve : resolve root.isAbsolute rest = some (components rest) := by
    rw [habs, resolve_floor]
  have hclean : cleanCanonical value = .ok (serialize root.fold.text (components rest)) := by
    rw [cleanCanonical_of_splits hne hnul h, hresolve]
  rcases exists_identity_of_cleanCanonical hclean with ⟨p, -, -, hrender, -⟩
  refine checkAndClean_eq_ok_iff.2 ⟨validateWindowsComponents_of_noPolicies hpolicies _, hclean, ?_⟩
  rw [hrender]
  exact (validateTargetProfile_eq_ok_iff p.splits_render).2 (accepts_of_portable hprofile _)

/-- Only behind `//?/UNC/?/` does separator rewriting produce an extended prefix. -/
theorem Rewrites.eq_doubled {value tail : List α} (h : Rewrites false value (lit "//?/" ++ tail)) :
    value = lit "//?/UNC/?/" ++ tail := by
  have hleads : hasPrefix (lit "//?/" ++ tail) (lit "//?/") = true := hasPrefix_append _ _
  generalize hout : lit "//?/" ++ tail = out at h hleads
  cases h with
  | same huri hextended =>
      exact absurd (hextended hleads).1 (by simp)
  | uriDrive hdrive =>
      rw [hasPrefix_extended_of_hasDriveRoot hdrive] at hleads
      exact absurd hleads (by simp)
  | extendedDrive hpreserve hsplits =>
      rcases hsplits.extended_cases with ⟨d, -, hdrive⟩ | ⟨server, share, body, hroot, -⟩
      · rw [hasPrefix_extended_of_hasDriveRoot hdrive] at hleads
        exact absurd hleads (by simp)
      · exact absurd hroot (by simp)
  | extendedUNC hpreserve hsplits =>
      rename_i body server share rest
      -- only the cut share leaves two slashes, so the doubled prefix was behind it
      have hbody : lit "?/" ++ tail = body :=
        List.append_cancel_left (show lit "//" ++ (lit "?/" ++ tail) = lit "//" ++ body from hout)
      rw [← hbody]
      rfl

omit [DecidableEq α] in
theorem isName_question : IsName (lit "?" : List α) where
  ne_nil := by simp [lit]
  ne_dot := by simp [lit]
  ne_dotdot := by simp [lit]
  slash_not_mem := by simp [lit]

/-- A value behind `//?/UNC/?/` has an extended share whenever the value without the share prefix has
an extended root. -/
theorem splits_doubled {tail rest : List α} {root : Root α}
    (h : Splits (lit "//?/" ++ tail) root rest) (hbackslash : chr '\\' ∉ tail) :
    ∃ share rest', Splits (lit "//?/UNC/" ++ (lit "?/" ++ tail)) (.extendedUNC (lit "?") share) rest' := by
  rcases h.extended_cases with ⟨d, -, hdrive⟩ | ⟨server, share, body, -, rfl⟩
  · rcases hasDriveRoot_iff.1 hdrive with ⟨d', rest', hd, rfl⟩
    -- the drive is a component, which can be the name of a share
    have hname : IsName [d', chr ':'] := by
      have hne := ne_slash_of_isLetter hd
      have hdot := ne_chr_of_isLetter hd (c := '.') (by decide) (by decide)
      exact ⟨by simp, by simp [lit], by simp [lit, hdot], by simp [Ne.symm hne]⟩
    have hclean : chr '\\' ∉ lit "?" ++ [d', chr ':'] ++ rest' := by
      simp only [List.mem_cons, not_or] at hbackslash
      simp [lit, hbackslash.1, hbackslash.2.2.2]
    exact ⟨[d', chr ':'], rest', Splits.extendedUNC isName_question hname (.slash rest') hclean⟩
  · -- so can `UNC`
    have hname : IsName (lit "UNC" : List α) :=
      ⟨by simp [lit], by simp [lit], by simp [lit], by simp [lit]⟩
    have hclean : chr '\\' ∉ lit "?" ++ lit "UNC" ++ body := by
      intro hmem
      rcases List.mem_append.1 hmem with hmem | hmem
      · simp [lit] at hmem
      · exact hbackslash (List.mem_append_right _ hmem)
    exact ⟨lit "UNC", body, Splits.extendedUNC isName_question hname (.slash body) hclean⟩

/-! ## Roots by their spelling -/

theorem Root.isExtended_of_text {root : Root α} (tail : List α) (hvalid : root.Valid)
    (h : lit "//?/" ++ tail = root.text) : root.isExtended = true := by
  rw [← Root.hasPrefix_extended_text hvalid, ← h]
  exact hasPrefix_append _ _

theorem Root.eq_extendedDrive_of_text {root : Root α} {d : α} (hvalid : root.Valid)
    (h : lit "//?/" ++ d :: lit ":/" = root.text) : root = .extendedDrive d := by
  have hext : root.isExtended = true := Root.isExtended_of_text (d :: lit ":/") hvalid h
  cases root with
  | relative =>
      exact absurd hext (by simp [Root.isExtended])
  | posix =>
      exact absurd hext (by simp [Root.isExtended])
  | drive d' =>
      exact absurd hext (by simp [Root.isExtended])
  | unc server share =>
      exact absurd hext (by simp [Root.isExtended])
  | extendedDrive d' =>
      rw [Root.text, List.append_right_inj] at h
      rw [(List.cons.inj h).1]
  | extendedUNC server share =>
      exact absurd h (by simp [Root.text, lit])

theorem Root.eq_extendedUNC_of_text {root : Root α} {names : List α} (hvalid : root.Valid)
    (h : lit "//?/UNC/" ++ names = root.text) :
    ∃ server share, root = .extendedUNC server share ∧ names = server ++ lit "/" ++ share := by
  have hext : root.isExtended = true := Root.isExtended_of_text (lit "UNC/" ++ names) hvalid h
  cases root with
  | relative =>
      exact absurd hext (by simp [Root.isExtended])
  | posix =>
      exact absurd hext (by simp [Root.isExtended])
  | drive d' =>
      exact absurd hext (by simp [Root.isExtended])
  | unc server share =>
      exact absurd hext (by simp [Root.isExtended])
  | extendedDrive d' =>
      exact absurd h (by simp [Root.text, lit])
  | extendedUNC server share =>
      refine ⟨server, share, rfl, ?_⟩
      rw [Root.text, List.append_assoc, List.append_assoc, List.append_right_inj,
        ← List.append_assoc] at h
      exact h

/-! ## Faithful unwrapping -/

/-- What unwrapping owes to a value that is read as an extended root: the ordinary root of the same
drive or share with the components of the same rest, and never an extended root. -/
structure UnwrapsFaithfully (value : Bytes) (result : Except PathError Bytes) : Prop where
  drive : ∀ d rest, splitRoot value = .ok (lit "//?/" ++ d :: lit ":/", rest) →
    result = .ok (serialize (lower d :: lit ":/") (components rest))
  share : ∀ names rest, splitRoot value = .ok (lit "//?/UNC/" ++ names, rest) →
    (∃ e, result = .error e) ∨ result = .ok (serialize (lit "//" ++ names) (components rest))
  ordinary : ∀ p, result = .ok p → hasPrefix p (lit "//?/") = false

section Unwrapped

variable {path value : List α} {opts : Options α}

/-- An extended drive is unwrapped to the drive, with the components of its rest. -/
theorem unwrap_drive {d : α} {rest : List α} (hvalue : toSlashes path = value)
    (hpreserve : opts.windows.preserveExtendedLength = false) (hpolicies : NoPolicies opts.windows)
    (hprofile : Portable opts.targetProfile) (hnul : nul ∉ value)
    (h : Splits value (.extendedDrive d) rest) :
    (rewriteSeparators path opts.windows >>= fun out => checkAndClean out opts) =
      .ok (serialize (lower d :: lit ":/") (components rest)) := by
  cases h with
  | extendedDrive hd hrest =>
      have hout : rewriteSeparators path opts.windows = .ok (d :: lit ":/" ++ rest) := by
        rw [rewriteSeparators_eq_ok_iff, hpreserve, hvalue]
        exact Rewrites.extendedDrive rfl (Splits.extendedDrive hd hrest)
      rw [hout, Outcome.ok_bind]
      refine checkAndClean_of_splits opts ?_ (Splits.drive hd hrest) rfl hpolicies hprofile
      exact fun hmem => hnul (List.mem_append_right _ hmem)

/-- An extended share is unwrapped to the share, unless its server spells the extended prefix. -/
theorem unwrap_share {server share rest : List α} (hvalue : toSlashes path = value)
    (hpreserve : opts.windows.preserveExtendedLength = false) (hpolicies : NoPolicies opts.windows)
    (hprofile : Portable opts.targetProfile) (hnul : nul ∉ value)
    (hnot : ¬∃ tail, value = lit "//?/UNC/?/" ++ tail ∧
      ∃ split, splitRoot (lit "//?/" ++ tail) = .ok split)
    (h : Splits value (.extendedUNC server share) rest) :
    (∃ e, (rewriteSeparators path opts.windows >>= fun out => checkAndClean out opts) = .error e) ∨
      (rewriteSeparators path opts.windows >>= fun out => checkAndClean out opts) =
        .ok (serialize (Root.unc server share).text (components rest)) := by
  cases h with
  | extendedUNC hserver hshare htail hclean =>
      rename_i tail
      have hout : rewriteSeparators path opts.windows =
          .ok (lit "//" ++ (server ++ lit "/" ++ share ++ tail)) := by
        rw [rewriteSeparators_eq_ok_iff, hpreserve, hvalue]
        exact Rewrites.extendedUNC rfl (Splits.extendedUNC hserver hshare htail hclean)
      rw [hout, Outcome.ok_bind]
      -- the share of a server `?` is the extended prefix again; by assumption it has no root
      by_cases hquestion : server = lit "?"
      · left
        have hdoubled : lit "//?/UNC/" ++ (server ++ lit "/" ++ share ++ tail) =
            lit "//?/UNC/?/" ++ (share ++ tail) := by
          simp [hquestion, lit]
        have hcut : lit "//" ++ (server ++ lit "/" ++ share ++ tail) =
            lit "//?/" ++ (share ++ tail) := by
          simp [hquestion, lit]
        cases hagain : splitRoot (lit "//?/" ++ (share ++ tail)) with
        | error e =>
            rw [hcut, checkAndClean, hagain]
            exact ⟨e, rfl⟩
        | ok split =>
            exact absurd ⟨share ++ tail, hdoubled, split, hagain⟩ hnot
      · right
        refine checkAndClean_of_splits opts ?_ (Splits.unc hserver hshare hquestion htail hclean) rfl
          hpolicies hprofile
        intro hmem
        rcases List.mem_append.1 hmem with hmem | hmem
        · simp [lit] at hmem
        · exact hnul (List.mem_append_right _ hmem)

/-- No other result starts with the extended prefix. -/
theorem unwrap_ordinary {p : List α} (hvalue : toSlashes path = value)
    (hpreserve : opts.windows.preserveExtendedLength = false)
    (hnot : ¬∃ tail, value = lit "//?/UNC/?/" ++ tail ∧
      ∃ split, splitRoot (lit "//?/" ++ tail) = .ok split)
    (h : (rewriteSeparators path opts.windows >>= fun out => checkAndClean out opts) = .ok p) :
    hasPrefix p (lit "//?/") = false := by
  rcases Outcome.bind_eq_ok_iff.1 h with ⟨out, hout, hclean⟩
  rcases exists_identity_of_cleanCanonical (checkAndClean_eq_ok_iff.1 hclean).2.1 with
    ⟨identity, root, rest, rfl, hsplits, hroot, -⟩
  rw [Bool.eq_false_iff, identity.splits_render.hasPrefix_extended, hroot, Root.isExtended_fold,
    ← hsplits.hasPrefix_extended]
  intro hleads
  rcases hasPrefix_iff.1 hleads with ⟨tail, rfl⟩
  rw [rewriteSeparators_eq_ok_iff, hpreserve, hvalue] at hout
  exact hnot ⟨tail, hout.eq_doubled, _, splitRoot_of_splits hsplits⟩

/-- Behind the share prefix of the server `?` an extended root comes out again. -/
theorem unwrap_doubled {tail rest : List α} {root : Root α}
    (hvalue : toSlashes path = lit "//?/UNC/?/" ++ tail)
    (hpreserve : opts.windows.preserveExtendedLength = false) (hpolicies : NoPolicies opts.windows)
    (hprofile : Portable opts.targetProfile) (hnul : nul ∉ toSlashes path)
    (h : Splits (lit "//?/" ++ tail) root rest) :
    ∃ p, (rewriteSeparators path opts.windows >>= fun out => checkAndClean out opts) = .ok p ∧
      hasPrefix p (lit "//?/") = true := by
  have hbackslash : chr '\\' ∉ tail := by
    intro hmem
    refine backslash_not_mem_toSlashes path ?_
    rw [hvalue]
    exact List.mem_append_right _ hmem
  have hnulTail : nul ∉ lit "//?/" ++ tail := by
    intro hmem
    rcases List.mem_append.1 hmem with hmem | hmem
    · simp [lit] at hmem
    · rw [hvalue] at hnul
      exact hnul (List.mem_append_right _ hmem)
  rcases splits_doubled h hbackslash with ⟨share, rest', hshare⟩
  have hout : rewriteSeparators path opts.windows = .ok (lit "//" ++ (lit "?/" ++ tail)) := by
    rw [rewriteSeparators_eq_ok_iff, hpreserve, hvalue]
    exact Rewrites.extendedUNC rfl hshare
  have hclean := checkAndClean_of_splits opts hnulTail h (h.isAbsolute_of (Or.inl rfl)) hpolicies hprofile
  rcases exists_identity_of_cleanCanonical (checkAndClean_eq_ok_iff.1 hclean).2.1 with
    ⟨p, root', rest'', hrender, hsplits', hroot, -⟩
  -- the output keeps the kind of the root that was left
  have hextended : root'.isExtended = true := by
    rw [← hsplits'.hasPrefix_extended]
    exact hasPrefix_append _ _
  refine ⟨_, by rw [hout]; exact hclean, ?_⟩
  rw [hrender, p.splits_render.hasPrefix_extended, hroot, Root.isExtended_fold, hextended]

end Unwrapped

/-- Without preservation, WSL mapping and policies, unwrapping is faithful exactly when the path is not
a share of a server `?` that spells an extended root behind it. -/
theorem normalize_unwrap_iff {raw path mountRoot : Bytes} {opts : Options UInt8}
    (hhost : HostKind.IsRaw opts.sourceHost) (hwsl : opts.wsl.enabled = false)
    (hpreserve : opts.windows.preserveExtendedLength = false) (hpolicies : NoPolicies opts.windows)
    (hprofile : Portable opts.targetProfile) (htrim : opts.trimOuterWhitespace = false)
    (hmount : normalizeMountRoot opts.wsl.mountRoot = .ok mountRoot) (hne : raw ≠ [])
    (hnul : nul ∉ raw) (hpath : uriPath parseFileURI raw opts = .ok path) :
    UnwrapsFaithfully (toSlashes path) (normalize raw opts) ↔
      ¬∃ tail, toSlashes path = lit "//?/UNC/?/" ++ tail ∧
        ∃ split, splitRoot (lit "//?/" ++ tail) = .ok split := by
  have hnuls : nul ∉ toSlashes path := nul_not_mem_toSlashes (nul_not_mem_of_uriPath hnul hpath)
  rw [normalize_of_noTrim htrim, normalizeWith_separators_eq hhost hne hnul hmount hpath hwsl]
  constructor
  · rintro hfaithful ⟨tail, hvalue, ⟨rootPrefix, rest⟩, hsplit⟩
    rcases splitRoot_eq_ok_iff.1 hsplit with ⟨root, hsplits, -⟩
    rcases unwrap_doubled hvalue hpreserve hpolicies hprofile hnuls hsplits with ⟨p, hp, hleads⟩
    rw [hfaithful.ordinary p hp] at hleads
    exact absurd hleads (by simp)
  · intro hnot
    refine ⟨fun d rest hsplit => ?_, fun names rest hsplit => ?_, fun p hp => ?_⟩
    · rcases splitRoot_eq_ok_iff.1 hsplit with ⟨root, hsplits, htext⟩
      obtain rfl := Root.eq_extendedDrive_of_text hsplits.valid htext
      exact unwrap_drive rfl hpreserve hpolicies hprofile hnuls hsplits
    · rcases splitRoot_eq_ok_iff.1 hsplit with ⟨root, hsplits, htext⟩
      rcases Root.eq_extendedUNC_of_text hsplits.valid htext with ⟨server, share, rfl, rfl⟩
      have htext' : (Root.unc server share).text = lit "//" ++ (server ++ lit "/" ++ share) := by
        simp [Root.text]
      rw [← htext']
      exact unwrap_share rfl hpreserve hpolicies hprofile hnuls hnot hsplits
    · exact unwrap_ordinary rfl hpreserve hnot hp

/-- An unwrapped share, whose rest keeps a drive-looking component. -/
theorem normalize_unwrap_share :
    UnwrapsFaithfully (lit "//?/UNC/s/h/./c:/x") (normalize (lit "//?/UNC/s/h/./c:/x") {}) := by
  have hmount : normalizeMountRoot ([] : Bytes) = .ok (lit "/mnt") := by
    decide
  have hiff := @normalize_unwrap_iff (lit "//?/UNC/s/h/./c:/x") (lit "//?/UNC/s/h/./c:/x") (lit "/mnt")
    {} ⟨by decide, by decide⟩ rfl rfl ⟨rfl, rfl⟩ (Or.inl rfl) rfl hmount (by decide) (by decide)
    (by decide)
  refine hiff.2 ?_
  rintro ⟨tail, htail, -⟩
  have hleads : hasPrefix (toSlashes (lit "//?/UNC/s/h/./c:/x" : Bytes)) (lit "//?/UNC/?/") = true := by
    rw [htail]
    exact hasPrefix_append _ _
  exact absurd hleads (by decide)

/-- The share `c:` of the server `?` becomes a preserved drive root. -/
theorem normalize_unwrap_question :
    ¬UnwrapsFaithfully (lit "//?/UNC/?/c:/x") (normalize (lit "//?/UNC/?/c:/x") {}) := by
  intro h
  exact absurd (h.ordinary (lit "//?/c:/x") (by decide)) (by decide)

end CanonicalPath
