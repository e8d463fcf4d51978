import CanonicalPath.Ports.Raw
import CanonicalPath.Unity.Normalize

/-!
# Unity — the C# port agrees with Go

Both ports at one code unit, and then across the spellings of the two languages.  The C# port looks at
a drive before the slashes, folds the drive letter while parsing, runs the policies of native input on
another rest, checks them once where Go checks them twice, and cleans a mapped drive a second time.

* `parseGrammar_agrees`, `cleanGrammar_agrees` : roots and dot cleanup
* `native_agrees`, `candidate_agrees`, `windows_agrees` : the three grammars of raw input
* `normalize_agrees` : the ports agree on every string that is no URI
-/

namespace CanonicalPath

namespace Ports

namespace Unity

open CodeUnit Segments Outcome

variable {α : Type} [DecidableEq α] [CodeUnit α]

/-! ## Roots -/

/-- The C# name of a root form. -/
def kindOf : Root α → Unity.RootKind
  | .relative => .relative
  | .posix => .posix
  | .drive _ => .drive
  | .unc _ _ => .unc
  | .extendedDrive _ => .extendedDrive
  | .extendedUNC _ _ => .extendedUNC

/-- What the C# parser returns for a root and the rest behind it. -/
def grammarRoot (root : Root α) (rest : List α) : Unity.GrammarRoot α where
  kind := kindOf root
  rootPrefix := root.fold.text
  rest := rest

/-- A split of the Go port and a root of the C# port that come from one root. -/
def FromRoot (split : List α × List α) (parsed : Unity.GrammarRoot α) : Prop :=
  ∃ root : Root α, root.Valid ∧ split.1 = root.text ∧ parsed = grammarRoot root split.2

omit [DecidableEq α] in
theorem windows_grammarRoot (root : Root α) (rest : List α) :
    (grammarRoot root rest).windows = root.isWindows := by
  cases root <;> rfl

omit [CodeUnit α] in
theorem startsWith_eq (value leader : List α) :
    Unity.startsWith value leader = Go.hasPrefix value leader :=
  Bool.eq_iff_iff.2 Iff.rfl

theorem hasDriveRoot_eq (value : List α) : Unity.hasDriveRoot value = Go.hasDriveRoot value :=
  Bool.eq_iff_iff.2 Iff.rfl

theorem isDriveRelative_eq (value : List α) : Unity.isDriveRelative value = Go.isDriveRelative value := by
  match value with
  | [] => rfl
  | [a] => rfl
  | [a, b] => simp [Unity.isDriveRelative, Go.isDriveRelative]
  | a :: b :: c :: rest => simp [Unity.isDriveRelative, Go.isDriveRelative, bne]

theorem isUriWindowsDrivePath_eq (value : List α) :
    Unity.isUriWindowsDrivePath value = Go.isURIWindowsDrivePath value :=
  Bool.eq_iff_iff.2 Iff.rfl

theorem markRelative_eq (value : List α) : Unity.markRelative value = Go.markRelative value := by
  match value with
  | [] => rfl
  | [a] => rfl
  | a :: b :: rest => rfl

/-- The bounded split of Go, in terms of all the pieces. -/
theorem splitUNCRoot_append (leader body : List α) :
    Go.splitUNCRoot (leader ++ body) leader =
      match body.splitOn (chr '/') with
      | server :: share :: more =>
          if server = [] ∨ share = [] ∨ server = lit "." ∨ server = lit ".." ∨ share = lit "." ∨
              share = lit ".." then
            newError .invalidPath "UNC root requires non-dot server and share components"
          else
            .ok (leader ++ server ++ lit "/" ++ share, joinOn (chr '/') more)
      | _ => newError .invalidPath "UNC root requires non-dot server and share components" := by
  rw [Go.splitUNCRoot, List.drop_left]
  cases hcut : cut (chr '/') body with
  | none =>
      have hmem := cut_eq_none_iff.1 hcut
      rw [splitN_of_not_mem _ hmem, List.splitOn_eq_singleton hmem]
  | some halves =>
      rcases halves with ⟨server, body'⟩
      rcases cut_eq_some_iff.1 hcut with ⟨rfl, hserver⟩
      rw [splitN_append_cons 1 hserver, List.splitOn_append_cons_self_of_not_mem hserver]
      cases hcut' : cut (chr '/') body' with
      | none =>
          have hshare := cut_eq_none_iff.1 hcut'
          rw [splitN_of_not_mem _ hshare, List.splitOn_eq_singleton hshare]
          rfl
      | some halves' =>
          rcases halves' with ⟨share, rest⟩
          rcases cut_eq_some_iff.1 hcut' with ⟨rfl, hshare⟩
          rw [splitN_append_cons 0 hshare, List.splitOn_append_cons_self_of_not_mem hshare]
          simp [splitN, joinOn]

theorem parseUNCRoot_agrees (kind : Unity.RootKind) (leader : List α) (mk : List α → List α → Root α)
    (hkind : ∀ server share, kindOf (mk server share) = kind)
    (htext : ∀ server share, (mk server share).text = leader ++ server ++ lit "/" ++ share)
    (hfold : ∀ server share, (mk server share).fold = mk server share) {body : List α}
    (hvalid : ∀ server more, body = server ++ lit "/" ++ more → IsName server →
      ∀ share, IsName share → (mk server share).Valid) :
    Agrees FromRoot (Go.splitUNCRoot (leader ++ body) leader) (Unity.parseUNCRoot body leader kind) := by
  have hbody : joinOn (chr '/') (body.splitOn (chr '/')) = body := by
    simp [joinOn]
  have hslash : ∀ part ∈ body.splitOn (chr '/'), chr '/' ∉ part := fun part => not_mem_of_mem_splitOn
  rw [splitUNCRoot_append, Unity.parseUNCRoot]
  rcases hsplit : body.splitOn (chr '/') with _ | ⟨server, _ | ⟨share, more⟩⟩
  · exact agrees_newError _ _ _
  · exact agrees_newError _ _ _
  · simp only
    split_ifs with hbad
    · exact agrees_newError _ _ _
    · rw [hsplit] at hbody hslash
      simp only [not_or] at hbad
      have hserver : IsName server := ⟨hbad.1, hbad.2.2.1, hbad.2.2.2.1, hslash _ (by simp)⟩
      have hshare : IsName share := ⟨hbad.2.1, hbad.2.2.2.2.1, hbad.2.2.2.2.2, hslash _ (by simp)⟩
      rw [joinOn_cons_of_ne_nil (List.cons_ne_nil _ _)] at hbody
      have hserverBody : body = server ++ lit "/" ++ joinOn (chr '/') (share :: more) := by
        rw [← hbody]
        simp [lit]
      refine Rel.ok ⟨mk server share, hvalid server _ hserverBody hserver share hshare,
        (htext server share).symm, ?_⟩
      rw [grammarRoot, hkind, hfold, htext]

/-- The branches of the two parsers; C# looks for a drive-relative value earlier. -/
theorem parseCanonical_agrees (value : List α) :
    Agrees FromRoot (Go.splitRootSwitch value) (Unity.parseCanonical value) := by
  have hslash : Go.hasPrefix value (lit "/") = true ↔ value.head? = some (chr '/') :=
    Go.hasPrefix_slash_iff
  rw [Go.splitRootSwitch, Unity.parseCanonical]
  simp only [startsWith_eq, hasDriveRoot_eq, isDriveRelative_eq, hslash]
  by_cases hext : Go.hasPrefix value (lit "//?/") = true
  · obtain ⟨tail, rfl⟩ := Go.hasPrefix_iff.1 hext
    have hdrop : (lit "//?/" ++ tail).drop 4 = tail := rfl
    rw [if_pos hext, if_pos hext, hdrop]
    by_cases hdrive : Go.hasDriveRoot tail = true
    · obtain ⟨d, rest, hd, rfl⟩ := Go.hasDriveRoot_iff.1 hdrive
      rw [if_pos hdrive, if_pos hdrive]
      exact Rel.ok ⟨.extendedDrive d, hd, rfl, rfl⟩
    · rw [if_neg hdrive, if_neg hdrive]
      by_cases hunc : Go.hasPrefix tail (lit "UNC/") = true
      · obtain ⟨body, rfl⟩ := Go.hasPrefix_iff.1 hunc
        rw [if_pos hunc, if_pos hunc]
        exact parseUNCRoot_agrees .extendedUNC (lit "//?/UNC/") Root.extendedUNC (fun _ _ => rfl)
          (fun _ _ => rfl) (fun _ _ => rfl) fun _ _ _ hserver _ hshare => ⟨hserver, hshare⟩
      · rw [if_neg hunc, if_neg hunc]
        exact agrees_newError _ _ _
  · rw [if_neg hext, if_neg hext]
    by_cases hdrive : Go.hasDriveRoot value = true
    · obtain ⟨d, rest, hd, rfl⟩ := Go.hasDriveRoot_iff.1 hdrive
      rw [if_pos hdrive, if_pos hdrive]
      exact Rel.ok ⟨.drive d, hd, rfl, rfl⟩
    · rw [if_neg hdrive, if_neg hdrive]
      by_cases hrelative : Go.isDriveRelative value = true
      · -- a letter in front, so no branch of the slashes applies
        have hmarker : Go.needsRelativeMarker value = true := by
          rw [Go.isDriveRelative_eq, Bool.and_eq_true] at hrelative
          exact hrelative.1
        obtain ⟨d, rest, hd, rfl⟩ := Go.needsRelativeMarker_iff.1 hmarker
        have hhead : (d :: chr ':' :: rest).head? ≠ some (chr '/') := by
          simpa using Go.ne_slash_of_isLetter hd
        have hdouble : Go.hasPrefix (d :: chr ':' :: rest) (lit "//") = false :=
          Go.hasPrefix_cons_eq_false hhead
        rw [if_pos hrelative, if_neg (by simp [hdouble]), if_neg hhead, if_pos hrelative]
        exact agrees_newError _ _ _
      · rw [if_neg hrelative, if_neg hrelative]
        by_cases hunc : Go.hasPrefix value (lit "//") = true
        · obtain ⟨body, rfl⟩ := Go.hasPrefix_iff.1 hunc
          rw [if_pos hunc, if_pos hunc]
          refine parseUNCRoot_agrees .unc (lit "//") Root.unc (fun _ _ => rfl)
            (fun _ _ => rfl) (fun _ _ => rfl) fun server more hbody hserver share hshare => ?_
          refine ⟨hserver, hshare, ?_⟩
          rintro rfl
          exact hext (Go.hasPrefix_iff.2 ⟨more, by rw [hbody]; rfl⟩)
        · rw [if_neg hunc, if_neg hunc]
          split_ifs
          · exact Rel.ok ⟨.posix, trivial, rfl, rfl⟩
          · exact Rel.ok ⟨.relative, trivial, rfl, rfl⟩

/-- The two root parsers read the same root and rest, or fail alike. -/
theorem parseGrammar_agrees {value : List α} (hne : value ≠ []) (hnul : nul ∉ value) :
    Agrees FromRoot (Go.splitRoot value) (Unity.parseGrammar value) := by
  rw [Go.splitRoot, Unity.parseGrammar, if_neg hne, if_neg hnul, if_neg (by simp)]
  refine (parseCanonical_agrees value).bind fun split parsed _ hroot => ?_
  obtain ⟨root, hvalid, htext, rfl⟩ := hroot
  rw [windows_grammarRoot, htext, isWindowsRoot_text]
  split_ifs
  · exact agrees_newError _ _ _
  · exact Rel.ok ⟨root, hvalid, htext, rfl⟩

/-! ## Dot cleanup -/

theorem cleanParts_eq (rootPrefix : List α) (escapeCode : ErrorCode) (parts comps : List (List α)) :
    Unity.cleanParts rootPrefix escapeCode parts comps =
      Go.cleanLoop (rootPrefix != [])
        { code := escapeCode, message := "relative path escapes its root" } parts comps := by
  induction comps generalizing parts with
  | nil =>
      rfl
  | cons part comps ih =>
      rw [Unity.cleanParts, Go.cleanLoop]
      simp only [List.length_pos_iff, ih, bne_iff_ne, ne_eq]
      by_cases hroot : rootPrefix = []
      · simp only [if_pos hroot, if_neg (not_not_intro hroot)]
        rfl
      · simp only [if_neg hroot, if_pos hroot]

theorem writeRoot_eq (rootPrefix : List α) (parts : List (List α)) :
    Unity.writeRoot rootPrefix (joinOn (chr '/') parts) = Go.serialize rootPrefix parts := by
  have hendsWith : Unity.endsWith rootPrefix (lit "/") = Go.hasSuffix rootPrefix (lit "/") :=
    Bool.eq_iff_iff.2 Iff.rfl
  rw [Unity.writeRoot, Go.serialize, markRelative_eq, hendsWith]
  by_cases hroot : rootPrefix = []
  · rw [if_pos hroot, if_pos hroot]
  · rw [if_neg hroot, if_neg hroot]
    by_cases hjoined : joinOn (chr '/') parts = []
    · rw [if_pos (Or.inl hjoined), if_pos hjoined, hjoined, List.append_nil, List.append_nil]
    · by_cases hsuffix : Go.hasSuffix rootPrefix (lit "/") = true
      · rw [if_pos (Or.inr hsuffix), if_neg hjoined, if_pos hsuffix, List.append_nil]
      · rw [if_neg (not_or_intro hjoined hsuffix), if_neg hjoined, if_neg hsuffix]

/-- What the C# cleanup computes, once the root is read. -/
theorem cleanGrammar_of_parsed {value rest : List α} {root : Root α} {nativePosix : Bool}
    (h : Unity.parseGrammar value nativePosix = .ok (grammarRoot root rest)) :
    Unity.cleanGrammar value nativePosix =
      match resolve root.isAbsolute rest with
      | some parts => .ok (Go.serialize root.fold.text parts)
      | none => newError .invalidPath "relative path escapes its root" := by
  have htext : (grammarRoot root rest).rootPrefix = root.fold.text := rfl
  have hrest : (grammarRoot root rest).rest = rest := rfl
  rw [Unity.cleanGrammar, h, ok_bind, htext, hrest, cleanParts_eq, Root.text_fold_bne_nil, cleanLoop_eq,
    resolve]
  cases DotStack.run root.isAbsolute [] (List.map move (rest.splitOn (chr '/'))) with
  | none =>
      rfl
  | some parts =>
      exact congrArg Except.ok (writeRoot_eq root.fold.text parts)

/-- A root that both parsers read is cleaned alike, also from two different rests. -/
theorem cleanGrammar_agrees_of_splits {value value' rest rest' : List α} {root : Root α}
    {nativePosix : Bool} (hne : value ≠ []) (hnul : nul ∉ value) (hsplits : Splits value root rest)
    (hparse : Unity.parseGrammar value' nativePosix = .ok (grammarRoot root rest'))
    (hresolve : resolve root.isAbsolute rest = resolve root.isAbsolute rest') :
    Agrees Eq (Go.cleanCanonical value) (Unity.cleanGrammar value' nativePosix) := by
  rw [cleanCanonical_of_splits hne hnul hsplits, cleanGrammar_of_parsed hparse, hresolve]
  cases resolve root.isAbsolute rest' with
  | none =>
      exact agrees_newError _ _ _
  | some parts =>
      exact Rel.ok rfl

/-- Where Go reads no root, C# fails with the same code. -/
theorem exists_parse_error {value : List α} {err : PathError} (hne : value ≠ []) (hnul : nul ∉ value)
    (h : Go.splitRoot value = .error err) :
    ∃ err', Unity.parseGrammar value = .error err' ∧ SameCode err err' := by
  have hagrees := parseGrammar_agrees hne hnul
  rw [h] at hagrees
  exact rel_error_left_iff.1 hagrees

/-- Where Go reads a root, C# reads the same root and rest. -/
theorem parseGrammar_of_splits {value rest : List α} {root : Root α} (hne : value ≠ []) (hnul : nul ∉ value)
    (h : Splits value root rest) : Unity.parseGrammar value = .ok (grammarRoot root rest) := by
  have hagrees := parseGrammar_agrees hne hnul
  rw [splitRoot_of_splits h] at hagrees
  obtain ⟨parsed, hparsed, root', hvalid, htext, rfl⟩ := rel_ok_left_iff.1 hagrees
  rw [hparsed, Root.text_inj hvalid h.valid htext.symm]

theorem cleanGrammar_agrees {value : List α} (hne : value ≠ []) (hnul : nul ∉ value) :
    Agrees Eq (Go.cleanCanonical value) (Unity.cleanGrammar value) := by
  cases hsplit : Go.splitRoot value with
  | error err =>
      obtain ⟨err', herr', hcode⟩ := exists_parse_error hne hnul hsplit
      rw [Go.cleanCanonical, if_neg hne, if_neg hnul, hsplit, Unity.cleanGrammar, herr']
      exact Rel.error hcode
  | ok split =>
      obtain ⟨root, hsplits, -⟩ := splitRoot_eq_ok_iff.1 hsplit
      exact cleanGrammar_agrees_of_splits hne hnul hsplits (parseGrammar_of_splits hne hnul hsplits) rfl

/-! ## Native POSIX input -/

theorem parseNative_slashes (k : Nat) {rest : List α} (h : rest.head? ≠ some (chr '/')) :
    Unity.parseNative (List.replicate k (chr '/') ++ rest) =
      if k = 2 then
        newError .invalidPath "double-leading-slash POSIX paths are unsupported"
      else if k = 0 then
        .ok (grammarRoot .relative rest)
      else
        .ok (grammarRoot .posix rest) := by
  have hone := hasPrefix_slashes k 1 h
  have htwo := hasPrefix_slashes k 2 h
  have hthree := hasPrefix_slashes k 3 h
  rw [show (List.replicate 1 (chr '/') : List α) = lit "/" from rfl] at hone
  rw [show (List.replicate 2 (chr '/') : List α) = lit "//" from rfl] at htwo
  rw [show (List.replicate 3 (chr '/') : List α) = lit "///" from rfl] at hthree
  have hhead : (List.replicate k (chr '/') ++ rest).head? = some (chr '/') ↔ 1 ≤ k := by
    rw [← Go.hasPrefix_slash_iff, hone, decide_eq_true_eq]
  rw [Unity.parseNative, startsWith_eq, startsWith_eq, htwo, hthree, dropWhile_slashes k h]
  simp only [hhead, Bool.and_eq_true, Bool.not_eq_true', decide_eq_true_eq, decide_eq_false_iff_not]
  by_cases hdouble : k = 2
  · rw [if_pos (by omega), if_pos hdouble]
  · rw [if_neg (by omega), if_neg hdouble]
    by_cases hzero : k = 0
    · subst hzero
      rw [if_neg (by omega), if_pos rfl, List.replicate_zero, List.nil_append]
      rfl
    · rw [if_pos (by omega), if_neg hzero]
      rfl

/-- Native input is read from one root by both ports; Go marks a relative path where it needs to. -/
structure NativeSplit (value prepared : List α) (root : Root α) (rest rest' : List α) : Prop where
  posix_iff : root = .posix ↔ Go.hasPrefix value (lit "/") = true
  prepare_eq : Go.prepareNativePOSIX value = .ok prepared
  parse_eq : Unity.parseGrammar value true = .ok (grammarRoot root rest')
  splits : Splits prepared root rest
  ne_nil : prepared ≠ []
  nul_not_mem : nul ∉ prepared
  resolve_eq : resolve root.isAbsolute rest = resolve root.isAbsolute rest'
  colon_iff : chr ':' ∈ rest ↔ chr ':' ∈ rest'
  device_eq : (rest.splitOn (chr '/')).any Go.isReservedDevicePart =
    (rest'.splitOn (chr '/')).any Go.isReservedDevicePart

theorem splits_markRelative {rest : List α} (h : rest.head? ≠ some (chr '/')) :
    Splits (Go.markRelative rest) .relative (Go.markRelative rest) := by
  rw [Go.markRelative]
  split_ifs with hmarker
  · exact Splits.relative (by simp [lit]) (by simp [Go.needsRelativeMarker_eq, lit, isLetterCode])
  · exact Splits.relative h (by simpa using hmarker)

/-- Native input fails in both ports, or is split alike. -/
theorem native_cases {value : List α} (hne : value ≠ []) (hnul : nul ∉ value) :
    (Invalid (Go.prepareNativePOSIX value) ∧ Invalid (Unity.parseGrammar value true)) ∨
      ∃ prepared root rest rest', NativeSplit value prepared root rest rest' := by
  have hparse : Unity.parseGrammar value true = Unity.parseNative value := by
    rw [Unity.parseGrammar, if_neg hne, if_neg hnul, if_pos rfl]
  obtain ⟨k, rest, rfl, hrest⟩ := exists_slashes value
  have hrestnul : nul ∉ rest := fun hmem => hnul (List.mem_append_right _ hmem)
  rw [parseNative_slashes k hrest] at hparse
  have hprepare := prepareNativePOSIX_slashes k hrest
  have hslash := hasPrefix_slashes k 1 hrest
  rw [show (List.replicate 1 (chr '/') : List α) = lit "/" from rfl] at hslash
  by_cases hdouble : k = 2
  · rw [if_pos hdouble] at hparse hprepare
    exact Or.inl ⟨⟨_, hprepare, rfl⟩, ⟨_, hparse, rfl⟩⟩
  · rw [if_neg hdouble] at hparse hprepare
    by_cases hzero : k = 0
    · rw [if_pos hzero] at hparse hprepare
      have hrestne : rest ≠ [] := by
        simpa [hzero] using hne
      refine Or.inr ⟨_, _, _, _, ?_, hprepare, hparse, splits_markRelative hrest, ?_, ?_, ?_, ?_, ?_⟩
      · rw [hslash, decide_eq_true_eq, hzero]
        simp
      · rw [Go.markRelative]
        split_ifs
        · simp [lit]
        · exact hrestne
      · rw [Go.markRelative]
        split_ifs
        · simp [lit, hrestnul]
        · exact hrestnul
      -- the marker is a dot component, which changes nothing
      · rw [Go.markRelative]
        split_ifs
        · exact resolve_dot_slash
        · rfl
      · rw [Go.markRelative]
        split_ifs
        · simp [lit]
        · rfl
      · have hdot : Go.isReservedDevicePart (lit "." : List α) = false := by
          simp [Go.isReservedDevicePart]
        rw [Go.markRelative]
        split_ifs
        · rw [splitOn_dot_slash, List.any_cons, hdot, Bool.false_or]
        · rfl
    · rw [if_neg hzero] at hparse hprepare
      refine Or.inr ⟨_, _, _, _, ?_, hprepare, hparse, Splits.posix hrest, by simp, ?_, rfl, Iff.rfl, rfl⟩
      · simp [hslash, Nat.one_le_iff_ne_zero, hzero]
      · simp [hrestnul]

theorem NativeSplit.cleanGrammar_agrees {value prepared rest rest' : List α} {root : Root α}
    (h : NativeSplit value prepared root rest rest') :
    Agrees Eq (Go.cleanCanonical prepared) (Unity.cleanGrammar value true) :=
  cleanGrammar_agrees_of_splits h.ne_nil h.nul_not_mem h.splits h.parse_eq h.resolve_eq

theorem cleanNativePOSIX_agrees {value : List α} (hne : value ≠ []) (hnul : nul ∉ value) :
    Agrees Eq (Go.cleanNativePOSIX value) (Unity.cleanGrammar value true) := by
  rcases native_cases hne hnul with ⟨⟨err, herr, hcode⟩, ⟨err', herr', hcode'⟩⟩ | ⟨_, _, _, _, h⟩
  · rw [Go.cleanNativePOSIX, herr, Unity.cleanGrammar, herr']
    exact Rel.error (hcode.trans hcode'.symm)
  · rw [Go.cleanNativePOSIX, h.prepare_eq, ok_bind]
    exact h.cleanGrammar_agrees

/-! ## Mount roots -/

theorem normalizeMount_agrees (value : Option (List α)) :
    Agrees Eq (Go.normalizeMountRoot (value.getD [])) (Unity.normalizeMount value) := by
  have hempty : Agrees Eq (Go.normalizeMountRoot ([] : List α)) (.ok (lit "/mnt")) := by
    have hdefault : Go.normalizeMountRoot ([] : List α) = Go.normalizeMountRoot (lit "/mnt") := by
      simp [Go.normalizeMountRoot, Go.defaultMountRoot, lit]
    rw [hdefault, normalizeMountRoot_mnt]
    exact Rel.ok rfl
  cases value with
  | none =>
      exact hempty
  | some value =>
      rw [Option.getD_some, Unity.normalizeMount]
      by_cases hne : value = []
      · simp only [if_pos hne]
        rw [hne]
        exact hempty
      · simp only [if_neg hne]
        by_cases hclean : value = lit "/mnt" ∨ value = lit "/"
        · rw [if_pos hclean]
          rcases hclean with rfl | rfl
          · rw [normalizeMountRoot_mnt]
            exact Rel.ok rfl
          · rw [normalizeMountRoot_root]
            exact Rel.ok rfl
        · have hdefault : Go.defaultMountRoot value = value := if_neg hne
          rw [if_neg hclean, Go.normalizeMountRoot, hdefault]
          by_cases hnul : nul ∈ value
          · have hparse : Unity.parseGrammar value true = newError .nulByte "path contains NUL" := by
              rw [Unity.parseGrammar, if_neg hne, if_pos hnul]
            rw [if_pos hnul, hparse]
            exact agrees_newError _ _ _
          · rw [if_neg hnul]
            have hcleanAgrees := cleanNativePOSIX_agrees hne hnul
            rcases native_cases hne hnul with ⟨⟨err, herr, hcode⟩, ⟨err', herr', hcode'⟩⟩ | ⟨_, root, _, rest, h⟩
            · -- two slashes
              refine agrees_of_invalid ?_ ⟨err', by rw [herr', error_bind], hcode'⟩
              split_ifs
              · exact ⟨err, by rw [Go.cleanNativePOSIX, herr, error_bind], hcode⟩
              · exact ⟨_, rfl, rfl⟩
            · have hkind : (grammarRoot root rest).kind = .posix ↔ root = .posix := by
                cases root <;> simp [grammarRoot, kindOf]
              rw [h.parse_eq, ok_bind]
              simp only [ne_eq, hkind, h.posix_iff]
              by_cases hslash : Go.hasPrefix value (lit "/") = true
              · rw [if_pos hslash, if_neg (not_not_intro hslash)]
                exact hcleanAgrees
              · rw [if_neg hslash, if_pos hslash]
                exact agrees_newError _ _ _

/-! ## Policies -/

theorem splitComponentBase_eq (part : List α) : Unity.splitComponentBase part = Go.deviceBase part := by
  rw [Unity.splitComponentBase, Go.deviceBase]
  induction part with
  | nil =>
      rfl
  | cons a part ih =>
      by_cases hdot : a = chr '.'
      · simp [hdot]
      · by_cases hcolon : a = chr ':'
        · simp [hcolon]
        · have htake : (a != chr '.' && a != chr ':') = true := by
            simp [hdot, hcolon]
          rw [List.idxOf_cons_ne _ hdot, List.idxOf_cons_ne _ hcolon, Nat.succ_min_succ,
            List.take_succ_cons, List.takeWhile_cons, if_pos htake, ih]

theorem isReservedPort_eq (base : List α) : Unity.isReservedPort base = Go.isReservedPort base := by
  match base with
  | [] => rfl
  | [a] => rfl
  | [a, b] => rfl
  | [a, b, c] => rfl
  | [a, b, c, digit] =>
      have hstem (stem : String) (x y z : Char) (hstem : stem.toList = [x, y, z]) :
          Unity.startsWith [a, b, c, digit] (lit stem) = ([a, b, c] == lit stem) := by
        rw [Bool.eq_iff_iff, Unity.startsWith, List.isPrefixOf_iff_prefix, beq_iff_eq, lit, hstem]
        simp only [List.map_cons, List.map_nil, List.cons_prefix_cons, List.nil_prefix, and_true,
          List.cons.injEq]
        exact ⟨fun h => ⟨h.1.symm, h.2.1.symm, h.2.2.symm⟩, fun h => ⟨h.1.symm, h.2.1.symm, h.2.2.symm⟩⟩
      rw [Unity.isReservedPort, Go.isReservedPort, hstem "COM" 'C' 'O' 'M' rfl, hstem "LPT" 'L' 'P' 'T' rfl]
  | a :: b :: c :: d :: x :: more => simp [Unity.isReservedPort, Go.isReservedPort]

theorem isReservedDeviceBase_eq (base : List α) : Unity.isReservedDeviceBase base = Go.isReservedDeviceBase base := by
  rw [Unity.isReservedDeviceBase, Go.isReservedDeviceBase, isReservedPort_eq]

/-- C# asks every part, Go all but the dot parts, which name no device anyway. -/
theorem isReservedDevicePart_eq (part : List α) :
    Unity.isReservedDeviceBase ((Unity.splitComponentBase part).map upper) = Go.isReservedDevicePart part := by
  rw [isReservedDeviceBase_eq, splitComponentBase_eq, Go.isReservedDevicePart]
  split_ifs with hdots
  · have hnil : Go.deviceBase part = [] := by
      rcases hdots with rfl | rfl | rfl <;> simp [Go.deviceBase, lit]
    rw [hnil]
    simp [Go.isReservedDeviceBase, Go.isReservedPort, lit]
  · rfl

/-- The Go record for a C# record: null is the zero value, and the URI settings are free. -/
def goOptions (uri : Go.URIOptions) (options : Option (Unity.NormalizeOptions α)) : Go.Options α where
  sourceHost := Unity.optionSourceHost options
  targetProfile := Unity.optionTargetProfile options
  wsl := {
    enabled := Unity.wslEnabled options
    mountRoot := (Unity.wslMountRoot options).getD []
  }
  uri := uri
  windows := {
    preserveExtendedLength := Unity.preserveExtendedLength options
    rejectDeviceNames := Unity.rejectDeviceNames options
    rejectADS := Unity.rejectADS options
  }
  trimOuterWhitespace := Unity.optionTrims options

variable (uri : Go.URIOptions) (options : Option (Unity.NormalizeOptions α))

/-- The policies agree on two rests with the same colons and the same devices. -/
theorem validateWindowsComponents_agrees {value value' rest rest' : List α} {root : Root α}
    {nativePosix : Bool} (hsplits : Splits value root rest)
    (hparse : Unity.parseGrammar value' nativePosix = .ok (grammarRoot root rest'))
    (hcolon : chr ':' ∈ rest ↔ chr ':' ∈ rest')
    (hdevice : (rest.splitOn (chr '/')).any Go.isReservedDevicePart =
      (rest'.splitOn (chr '/')).any Go.isReservedDevicePart) :
    Agrees Eq (Go.validateWindowsComponents value (goOptions uri options).windows)
      (Unity.validateWindowsComponents value' options nativePosix) := by
  have hpart : (fun part : List α => Unity.isReservedDeviceBase ((Unity.splitComponentBase part).map upper)) =
      Go.isReservedDevicePart := funext isReservedDevicePart_eq
  have hrest : (grammarRoot root rest').rest = rest' := rfl
  have hwindows : (goOptions uri options).windows.rejectADS = Unity.rejectADS options ∧
      (goOptions uri options).windows.rejectDeviceNames = Unity.rejectDeviceNames options := ⟨rfl, rfl⟩
  rw [Go.validateWindowsComponents, hasWindowsADS_of_splits hsplits, hasReservedDeviceName_of_splits hsplits,
    hwindows.1, hwindows.2, Unity.validateWindowsComponents, hparse, ok_bind, hrest, hpart, ← hdevice]
  simp only [← hcolon]
  -- the alternate data stream is tested first in both ports
  cases Unity.rejectADS options <;> cases Unity.rejectDeviceNames options <;>
    by_cases hads : chr ':' ∈ rest <;> cases (rest.splitOn (chr '/')).any Go.isReservedDevicePart <;>
    simp only [hads, Bool.not_false, Bool.not_true, Bool.and_self, Bool.and_true, Bool.and_false,
      decide_true, decide_false, if_true, if_false, Bool.false_eq_true,
      and_true, and_false] <;>
    first | exact Rel.ok rfl | exact agrees_newError _ _ _

theorem validateTargetProfile_agrees {value rest : List α} {root : Root α} (hne : value ≠ [])
    (hnul : nul ∉ value) (h : Splits value root rest) (profile : Option TargetProfile) :
    Agrees Eq (Go.validateTargetProfile value profile) (Unity.validateTargetProfile value profile) := by
  have hgo := validateTargetProfile_of_splits h profile
  have hunity : if accepts profile root then
      Unity.validateTargetProfile value profile = .ok ()
    else
      Invalid (Unity.validateTargetProfile value profile) := by
    rw [Unity.validateTargetProfile, parseGrammar_of_splits hne hnul h, ok_bind]
    cases profile with
    | none =>
        exact rfl
    | some profile =>
        cases profile with
        | portable =>
            exact rfl
        | posix =>
            simp only [accepts, windows_grammarRoot]
            cases root.isWindows with
            | true =>
                exact ⟨_, rfl, rfl⟩
            | false =>
                exact rfl
        -- one of the six roots at a time: no root, a drive or an extended drive
        | win32Drive =>
            cases root with
            | relative =>
                exact rfl
            | posix =>
                exact ⟨_, rfl, rfl⟩
            | drive d =>
                exact rfl
            | unc server share =>
                exact ⟨_, rfl, rfl⟩
            | extendedDrive d =>
                exact rfl
            | extendedUNC server share =>
                exact ⟨_, rfl, rfl⟩
        | other name =>
            exact ⟨_, rfl, rfl⟩
  split_ifs at hgo hunity with haccepts
  · rw [hgo, hunity]
    exact Rel.ok rfl
  · exact agrees_of_invalid hgo hunity

/-! ## The common end -/

/-- The end of `Normalize`. -/
def finish (value : List α) : Except PathError (List α) := do
  Unity.validateTargetProfile value (Unity.optionTargetProfile options)
  .ok value

/-- Target profile and result, on what both ports have cleaned. -/
theorem finish_agrees {value cleaned : List α} (hclean : Go.cleanCanonical value = .ok cleaned) :
    Agrees Eq
      (Go.validateTargetProfile cleaned (goOptions uri options).targetProfile >>= fun _ => .ok cleaned)
      (finish options cleaned) := by
  obtain ⟨p, -, -, rfl, -⟩ := exists_identity_of_cleanCanonical hclean
  have hprofile := validateTargetProfile_agrees p.render_ne_nil p.render_nul_free p.splits_render
    (Unity.optionTargetProfile options)
  exact hprofile.bind fun _ _ _ _ => Rel.ok rfl

/-- Policies, cleanup and profile, where both ports read one root with like rests. -/
theorem end_agrees {value value' rest rest' : List α} {root : Root α} {nativePosix : Bool}
    (hne : value ≠ []) (hnul : nul ∉ value) (hsplits : Splits value root rest)
    (hparse : Unity.parseGrammar value' nativePosix = .ok (grammarRoot root rest'))
    (hresolve : resolve root.isAbsolute rest = resolve root.isAbsolute rest')
    (hcolon : chr ':' ∈ rest ↔ chr ':' ∈ rest')
    (hdevice : (rest.splitOn (chr '/')).any Go.isReservedDevicePart =
      (rest'.splitOn (chr '/')).any Go.isReservedDevicePart) :
    Agrees Eq (Go.checkAndClean value (goOptions uri options))
      (Unity.validateWindowsComponents value' options nativePosix >>= fun _ =>
        Unity.cleanGrammar value' nativePosix >>= finish options) := by
  rw [Go.checkAndClean, splitRoot_of_splits hsplits, ok_bind]
  refine (validateWindowsComponents_agrees uri options hsplits hparse hcolon hdevice).bind fun _ _ _ _ => ?_
  refine (cleanGrammar_agrees_of_splits hne hnul hsplits hparse hresolve).bind fun cleaned cleaned' hclean heq => ?_
  subst heq
  exact finish_agrees uri options hclean

/-- A value that C# cannot parse is refused by the policies or by the cleanup. -/
theorem end_of_parse_error {value : List α} {nativePosix : Bool} {err : PathError}
    (h : Unity.parseGrammar value nativePosix = .error err) {γ : Type}
    (next : List α → Except PathError γ) :
    (Unity.validateWindowsComponents value options nativePosix >>= fun _ =>
      Unity.cleanGrammar value nativePosix >>= next) = .error err := by
  have hclean : Unity.cleanGrammar value nativePosix = .error err := by
    rw [Unity.cleanGrammar, h, error_bind]
  rw [Unity.validateWindowsComponents, h, hclean]
  split_ifs
  · rfl
  · rfl

/-- On one value, the end of canonical mode. -/
theorem checkAndClean_agrees {value : List α} (hne : value ≠ []) (hnul : nul ∉ value) :
    Agrees Eq (Go.checkAndClean value (goOptions uri options))
      (Unity.validateWindowsComponents value options >>= fun _ =>
        Unity.cleanGrammar value >>= finish options) := by
  cases hsplit : Go.splitRoot value with
  | error err =>
      obtain ⟨err', herr', hcode⟩ := exists_parse_error hne hnul hsplit
      rw [Go.checkAndClean, hsplit, error_bind, end_of_parse_error options herr']
      exact Rel.error hcode
  | ok split =>
      obtain ⟨root, hsplits, -⟩ := splitRoot_eq_ok_iff.1 hsplit
      exact end_agrees uri options hne hnul hsplits (parseGrammar_of_splits hne hnul hsplits) rfl Iff.rfl rfl

/-- The end of native POSIX input. -/
theorem native_agrees {value : List α} (hne : value ≠ []) (hnul : nul ∉ value) :
    Agrees Eq
      (Go.prepareNativePOSIX value >>= fun prepared => Go.checkAndClean prepared (goOptions uri options))
      (Unity.validateWindowsComponents value options true >>= fun _ =>
        Unity.cleanGrammar value true >>= finish options) := by
  rcases native_cases hne hnul with ⟨⟨err, herr, hcode⟩, ⟨err', herr', hcode'⟩⟩ | ⟨_, _, _, _, h⟩
  · rw [herr, error_bind, end_of_parse_error options herr']
    exact Rel.error (hcode.trans hcode'.symm)
  · rw [h.prepare_eq, ok_bind]
    exact end_agrees uri options h.ne_nil h.nul_not_mem h.splits h.parse_eq h.resolve_eq h.colon_iff h.device_eq

/-! ## Separators -/

theorem stripUriDriveSlash_eq (value : List α) :
    Unity.stripUriDriveSlash value = Go.stripURIDriveSlash value := by
  rw [Unity.stripUriDriveSlash, Go.stripURIDriveSlash, isUriWindowsDrivePath_eq]

/-- Only an extended root is cut, and it has the extended prefix. -/
theorem cutExtended_of_not {value rest : List α} {root : Root α} (h : Splits value root rest)
    (hext : Go.hasPrefix value (lit "//?/") = false) :
    Unity.cutExtended value (grammarRoot root rest).kind options = value := by
  have hroot : root.isExtended = false := by
    obtain ⟨tail, hvalue, -⟩ := h.exists_eq_append
    rw [← Root.hasPrefix_extended_text h.valid, Bool.eq_false_iff]
    intro hleads
    obtain ⟨more, hmore⟩ := Go.hasPrefix_iff.1 hleads
    rw [hvalue, hmore, List.append_assoc, Go.hasPrefix_append] at hext
    cases hext
  rw [Unity.cutExtended]
  cases root <;> simp_all [grammarRoot, kindOf, Root.isExtended]

/-- An extended root without its prefix: Go cuts the text, C# the text of the kind it has parsed. -/
structure Unwrapped (value rest : List α) (root : Root α) (out : List α) : Prop where
  go_eq : Go.unwrapWindowsExtendedPrefix value = out
  kind_eq : root.isExtended = true ∧ (if (grammarRoot root rest).kind = .extendedDrive then
    value.drop 4 else lit "//" ++ value.drop 8) = out
  strip_eq : Go.stripURIDriveSlash out = out
  ne_nil : out ≠ []
  mem_of_mem : nul ∉ value → nul ∉ out

theorem exists_unwrapped {tail rest : List α} {root : Root α} (h : Splits (lit "//?/" ++ tail) root rest) :
    ∃ out, Unwrapped (lit "//?/" ++ tail) rest root out := by
  rcases h.extended_inv with ⟨d, rfl, rfl, hd, -⟩ | ⟨server, share, body, rfl, rfl, -⟩
  · have hdrive : Go.hasDriveRoot (d :: lit ":/" ++ rest) = true := Go.hasDriveRoot_iff.2 ⟨d, rest, hd, rfl⟩
    refine ⟨d :: lit ":/" ++ rest, unwrapWindowsExtendedPrefix_drive hdrive, ⟨rfl, rfl⟩,
      stripURIDriveSlash_drive rest hd, by simp, ?_⟩
    exact fun hnul hmem => hnul (List.mem_append_right _ hmem)
  · refine ⟨lit "//" ++ (server ++ lit "/" ++ share ++ body), unwrapWindowsExtendedPrefix_unc _, ⟨rfl, rfl⟩,
      stripURIDriveSlash_unc _, by simp [lit], ?_⟩
    intro hnul hmem
    apply hnul
    rcases List.mem_append.1 hmem with hslash | hbody
    · simp [lit] at hslash
    · exact List.mem_append_right _ (List.mem_append_right _ hbody)

theorem Unwrapped.cutExtended_eq {value rest out : List α} {root : Root α}
    (h : Unwrapped value rest root out) : Unity.cutExtended value (grammarRoot root rest).kind options =
      if Unity.preserveExtendedLength options then value else out := by
  rw [Unity.cutExtended, ← h.kind_eq.2]
  have hextended := h.kind_eq.1
  cases Unity.preserveExtendedLength options with
  | true =>
      rfl
  | false =>
      cases root with
      | extendedDrive d =>
          rfl
      | extendedUNC server share =>
          rfl
      | relative =>
          cases hextended
      | posix =>
          cases hextended
      | drive d =>
          cases hextended
      | unc server share =>
          cases hextended

/-- A value without the extended prefix. -/
structure Plain (value : List α) : Prop where
  ne_nil : value ≠ []
  nul_not_mem : nul ∉ value
  not_extended : Go.hasPrefix value (lit "//?/") = false

theorem stripped_plain {value : List α} (hne : value ≠ []) (hnul : nul ∉ value)
    (hext : Go.hasPrefix value (lit "//?/") = false) : Plain (Go.stripURIDriveSlash value) := by
  by_cases hdrive : Go.isURIWindowsDrivePath value = true
  · obtain ⟨tail, rfl, htail⟩ := Go.isURIWindowsDrivePath_iff.1 hdrive
    rw [stripURIDriveSlash_slash_cons htail]
    refine ⟨?_, fun hmem => hnul (List.mem_cons_of_mem _ hmem), hasPrefix_extended_of_hasDriveRoot htail⟩
    rintro rfl
    cases htail
  · rw [stripURIDriveSlash_of_not (by simpa using hdrive)]
    exact ⟨hne, hnul, hext⟩

/-- Behind a plain value C# parses once more than Go, and cuts nothing. -/
theorem plain_agrees {value : List α} (h : Plain value) :
    Agrees Eq (Go.checkAndClean value (goOptions uri options))
      (Unity.parseGrammar value >>= fun parsed =>
        Unity.validateWindowsComponents (Unity.cutExtended value parsed.kind options) options >>= fun _ =>
          Unity.cleanGrammar (Unity.cutExtended value parsed.kind options) >>= finish options) := by
  cases hsplit : Go.splitRoot value with
  | error err =>
      obtain ⟨err', herr', hcode⟩ := exists_parse_error h.ne_nil h.nul_not_mem hsplit
      rw [Go.checkAndClean, hsplit, herr']
      exact Rel.error hcode
  | ok split =>
      obtain ⟨root, hsplits, -⟩ := splitRoot_eq_ok_iff.1 hsplit
      rw [parseGrammar_of_splits h.ne_nil h.nul_not_mem hsplits, ok_bind,
        cutExtended_of_not options hsplits h.not_extended]
      exact checkAndClean_agrees uri options h.ne_nil h.nul_not_mem

/-- The separator branch agrees. -/
theorem windows_agrees {path : List α} (hne : path ≠ []) (hnul : nul ∉ path) :
    Agrees Eq
      (Go.rewriteSeparators path (goOptions uri options).windows >>= fun value =>
        Go.checkAndClean value (goOptions uri options))
      (Unity.normalizeWindows path options >>= finish options) := by
  have hslashes : Go.toSlashes path ≠ [] := by
    simpa [Go.toSlashes, replaceAll] using hne
  have hnuls : nul ∉ Go.toSlashes path := nul_not_mem_toSlashes hnul
  have hreplace : replaceAll '\\' '/' path = Go.toSlashes path := rfl
  have hpreserve : (goOptions uri options).windows.preserveExtendedLength =
      Unity.preserveExtendedLength options := rfl
  simp only [Go.rewriteSeparators, Unity.normalizeWindows, hreplace, hpreserve, bind_assoc]
  generalize Go.toSlashes path = value at hslashes hnuls ⊢
  by_cases hext : Go.hasPrefix value (lit "//?/") = true
  · -- an extended value is parsed before it is cut, and has no slash in front of a drive
    obtain ⟨tail, rfl⟩ := Go.hasPrefix_iff.1 hext
    have hkeep : Go.stripURIDriveSlash (lit "//?/" ++ tail) = lit "//?/" ++ tail :=
      stripURIDriveSlash_of_not (isURIWindowsDrivePath_double_slash _)
    rw [if_pos hext, stripUriDriveSlash_eq, hkeep]
    cases hsplit : Go.splitRoot (lit "//?/" ++ tail) with
    | error err =>
        obtain ⟨err', herr', hcode⟩ := exists_parse_error hslashes hnuls hsplit
        rw [herr']
        exact Rel.error hcode
    | ok split =>
        obtain ⟨root, hsplits, -⟩ := splitRoot_eq_ok_iff.1 hsplit
        obtain ⟨out, hout⟩ := exists_unwrapped hsplits
        rw [parseGrammar_of_splits hslashes hnuls hsplits, hout.go_eq, hout.strip_eq, ok_bind, ok_bind,
          hout.cutExtended_eq options]
        -- kept or cut, the same value goes on
        cases Unity.preserveExtendedLength options with
        | true =>
            exact checkAndClean_agrees uri options hslashes hnuls
        | false =>
            exact checkAndClean_agrees uri options hout.ne_nil (hout.mem_of_mem hnuls)
  · have hext' : Go.hasPrefix value (lit "//?/") = false := by
      simpa using hext
    rw [if_neg hext, unwrapWindowsExtendedPrefix_of_not hext', ite_self, ok_bind, stripUriDriveSlash_eq]
    exact plain_agrees uri options (stripped_plain hslashes hnuls hext')

/-! ## Mount candidates -/

theorem mapMount_eq {value mount root : List α} (hmount : Go.normalizeMountRoot root = .ok mount) :
    Unity.mapMount value mount = (Go.mapWSLDrive value ⟨true, mount⟩).getD value := by
  have hleader : (if mount = lit "/" then lit "/" else mount ++ lit "/") = Go.mountPrefix mount := by
    rw [eq_serialize_of_normalizeMountRoot hmount]
    exact mountPrefix_eq fun part hpart => isName_of_mem_components hpart
  rw [Unity.mapMount, hleader, Go.mapWSLDrive, Bool.true_and, startsWith_eq]
  by_cases hbelow : Go.hasPrefix value (Go.mountPrefix mount) = true
  · simp only [if_pos hbelow]
    generalize value.drop (Go.mountPrefix mount).length = below
    cases below with
    | nil =>
        rfl
    | cons d below =>
        cases below with
        | nil =>
            rw [Go.selectDrive]
            split_ifs with hletter
            · exact if_pos hletter
            · exact if_neg hletter
        | cons slash tail =>
            rw [Go.selectDrive]
            split_ifs with hletter
            · exact if_pos hletter
            · exact if_neg hletter
  · simp only [if_neg hbelow]
    rfl

/-- Below the POSIX root the policies look at the whole value. -/
theorem policies_posix {value rest : List α} (h : Splits value .posix rest) (opts : Go.WindowsOptions) :
    Go.validateWindowsComponents value opts = .ok () ↔
      (opts.rejectADS = true → chr ':' ∉ value) ∧
        (opts.rejectDeviceNames = true → (value.splitOn (chr '/')).any Go.isReservedDevicePart = false) := by
  have hvalue : value = chr '/' :: rest := by
    obtain ⟨tail, hvalue, htail⟩ := h.exists_eq_append
    cases h
    rfl
  have hsplit : value.splitOn (chr '/') = [] :: rest.splitOn (chr '/') := by
    have hleading : chr '/' ∉ ([] : List α) := List.not_mem_nil
    rw [hvalue]
    exact List.splitOn_append_cons_self_of_not_mem hleading rest
  have hempty : Go.isReservedDevicePart ([] : List α) = false := by
    simp [Go.isReservedDevicePart]
  have hcolon : chr ':' ∈ value ↔ chr ':' ∈ rest := by
    simp [hvalue]
  rw [validateWindowsComponents_eq_ok_iff, hasWindowsADS_of_splits h, hasReservedDeviceName_of_splits h,
    hsplit, List.any_cons, hempty, Bool.false_or, hcolon, decide_eq_false_iff_not]

/-- What the policies accept below the mount, they accept below the drive. -/
theorem policies_selectDrive {leader below rest drive : List α} {opts : Go.WindowsOptions}
    (hsplits : Splits (leader ++ below) .posix rest)
    (hpolicy : Go.validateWindowsComponents (leader ++ below) opts = .ok ())
    (hdrive : Go.selectDrive below = some drive) (hbackslash : chr '\\' ∉ below) :
    Go.validateWindowsComponents drive opts = .ok () := by
  obtain ⟨hads, hdevice⟩ := (policies_posix hsplits opts).1 hpolicy
  obtain ⟨d, hd, hcase⟩ := selectDrive_eq_some_iff.1 hdrive
  have hlower : isLetter (lower d) = true := by
    rwa [isLetter_lower]
  rw [validateWindowsComponents_eq_ok_iff]
  rcases hcase with ⟨rfl, rfl⟩ | ⟨tail, rfl, rfl⟩
  · have hbare : Splits (lower d :: lit ":/") (.drive (lower d)) [] := Splits.drive hlower (by simp)
    rw [hasWindowsADS_of_splits hbare, hasReservedDeviceName_of_splits hbare]
    exact ⟨fun _ => by simp, fun _ => by simp [Go.isReservedDevicePart]⟩
  · have htail : Splits (lower d :: lit ":/" ++ tail) (.drive (lower d)) tail :=
      Splits.drive hlower fun hmem => hbackslash (by simp [hmem])
    rw [hasWindowsADS_of_splits htail, hasReservedDeviceName_of_splits htail]
    refine ⟨fun hopt => ?_, fun hopt => ?_⟩
    · rw [decide_eq_false_iff_not]
      intro hcolon
      exact hads hopt (by simp [hcolon])
    · have hparts := hdevice hopt
      have hvalue : leader ++ d :: chr '/' :: tail = (leader ++ [d]) ++ chr '/' :: tail := by
        simp
      rw [hvalue, List.splitOn_append_cons_self, List.any_append, Bool.or_eq_false_iff] at hparts
      exact hparts.2

/-- The common end of Go checks the policies again; where that changes nothing, C# need not. -/
theorem cleanAgain_agrees {value : List α} (hne : value ≠ []) (hnul : nul ∉ value)
    (hpolicy : ∀ split, Go.splitRoot value = .ok split →
      Go.validateWindowsComponents value (goOptions uri options).windows = .ok ()) :
    Agrees Eq (Go.checkAndClean value (goOptions uri options))
      (Unity.cleanGrammar value >>= finish options) := by
  have hclean := cleanGrammar_agrees hne hnul
  rw [Go.checkAndClean]
  cases hsplit : Go.splitRoot value with
  | error err =>
      have hgo : Go.cleanCanonical value = .error err := by
        rw [Go.cleanCanonical, if_neg hne, if_neg hnul, hsplit, error_bind]
      rw [hgo] at hclean
      obtain ⟨err', herr', hcode⟩ := rel_error_left_iff.1 hclean
      rw [herr']
      exact Rel.error hcode
  | ok split =>
      rw [ok_bind, hpolicy split hsplit, ok_bind]
      refine hclean.bind fun cleaned cleaned' hcleaned heq => ?_
      subst heq
      exact finish_agrees uri options hcleaned

/-- The end behind a selected drive. -/
theorem selected_agrees {leader below rest drive : List α} (hnul : nul ∉ leader ++ below)
    (hsplits : Splits (leader ++ below) .posix rest)
    (hpolicy : Go.validateWindowsComponents (leader ++ below) (goOptions uri options).windows = .ok ())
    (hdrive : Go.selectDrive below = some drive) :
    Agrees Eq (Go.checkAndClean drive (goOptions uri options))
      (Unity.cleanGrammar drive >>= finish options) := by
  obtain ⟨d, hd, hcase⟩ := selectDrive_eq_some_iff.1 hdrive
  have hlower : isLetter (lower d) = true := by
    rwa [isLetter_lower]
  have hdriveNul := Ne.symm (Go.ne_nul_of_isLetter hlower)
  have hvalue : ∃ tail, drive = lower d :: lit ":/" ++ tail ∧ (chr '\\' ∈ below → chr '\\' ∈ tail) ∧
      nul ∉ tail := by
    rcases hcase with ⟨rfl, rfl⟩ | ⟨tail, rfl, rfl⟩
    · refine ⟨[], rfl, fun hmem => ?_, by simp⟩
      exact absurd (List.mem_singleton.1 hmem) (Ne.symm (Go.ne_backslash_of_isLetter hd))
    · refine ⟨tail, rfl, fun hmem => ?_, fun hmem => hnul (by simp [hmem])⟩
      simpa [Ne.symm (Go.ne_backslash_of_isLetter hd)] using hmem
  obtain ⟨tail, rfl, hbackslash, htail⟩ := hvalue
  refine cleanAgain_agrees uri options (by simp) (by simp [lit, hdriveNul, htail]) fun split hsplit => ?_
  refine policies_selectDrive hsplits hpolicy hdrive fun hmem => ?_
  rw [splitRoot_drive_backslash hlower (hbackslash hmem)] at hsplit
  cases hsplit

theorem candidate_agrees {path mount root : List α} (hnul : nul ∉ path)
    (hcandidate : Go.isPOSIXMountCandidate path = true) (hwsl : Unity.wslEnabled options = true)
    (hmount : Go.normalizeMountRoot root = .ok mount) :
    Agrees Eq
      (Go.normalizeWSLCandidate path ((goOptions uri options).withMountRoot mount) >>= fun value =>
        Go.checkAndClean value (goOptions uri options))
      (Unity.normalizeWSL path mount options >>= finish options) := by
  have hslash : Go.hasPrefix path (lit "/") = true := hasPrefix_slash_of_candidate hcandidate
  have hne : path ≠ [] := by
    intro hnil
    rw [hnil] at hslash
    cases hslash
  have hwindows : ((goOptions uri options).withMountRoot mount).windows = (goOptions uri options).windows := rfl
  have hmounted : ((goOptions uri options).withMountRoot mount).wsl = ⟨true, mount⟩ := by
    rw [← hwsl]
    rfl
  have hprofile : ((goOptions uri options).withMountRoot mount).targetProfile =
      Unity.optionTargetProfile options := rfl
  simp only [Go.normalizeWSLCandidate, Unity.normalizeWSL, bind_assoc]
  -- two slashes alone are refused by both
  rcases native_cases hne hnul with ⟨⟨err, herr, hcode⟩, ⟨err', herr', hcode'⟩⟩ | ⟨prepared, root', rest, rest', h⟩
  · rw [herr, error_bind, end_of_parse_error options herr']
    exact Rel.error (hcode.trans hcode'.symm)
  · have hroot : root' = .posix := h.posix_iff.2 hslash
    subst hroot
    rw [h.prepare_eq, ok_bind, hwindows]
    refine (validateWindowsComponents_agrees uri options h.splits h.parse_eq h.colon_iff h.device_eq).bind
      fun _ _ hpolicy _ => ?_
    refine h.cleanGrammar_agrees.bind fun cleaned cleaned' hclean heq => ?_
    subst heq
    have hcleanPolicy := validateWindowsComponents_of_cleanCanonical hclean hpolicy
    obtain ⟨p, root, rest'', rfl, hsplits, hroot, -⟩ := exists_identity_of_cleanCanonical hclean
    -- a path that is not mapped is cleaned again by the C# port, which changes nothing
    have hkept := cleanAgain_agrees uri options p.render_ne_nil p.render_nul_free fun _ _ => hcleanPolicy
    rw [hprofile]
    by_cases hposix : Unity.optionTargetProfile options = some .posix
    · rw [if_pos hposix, if_neg (not_not_intro hposix), ok_bind]
      exact hkept
    · rw [if_neg hposix, if_pos hposix, ok_bind, mapMount_eq hmount, hmounted]
      cases hdrive : Go.mapWSLDrive p.render ⟨true, mount⟩ with
      | none =>
          exact hkept
      | some drive =>
          rw [Go.mapWSLDrive, Bool.true_and] at hdrive
          split_ifs at hdrive with hbelow
          -- below the mount root: the letter of the drive and what follows
          obtain ⟨below, hrender⟩ := Go.hasPrefix_iff.1 hbelow
          rw [hrender, List.drop_left] at hdrive
          rw [hsplits.root_eq h.splits] at hroot
          have hposixRender := p.splits_render
          have hrenderNul := p.render_nul_free
          rw [hrender] at hcleanPolicy hposixRender hrenderNul
          rw [hroot] at hposixRender
          exact selected_agrees uri options hrenderNul hposixRender hcleanPolicy hdrive

/-! ## Whole runs -/

theorem before_scheme (scheme : String) (hcolon : chr ':' ∉ (lit scheme : List α)) (rest : List α) :
    before (lit "://") (lit scheme ++ lit "://" ++ rest) = some (lit scheme) :=
  before_append (lit "//") hcolon

/-- A value without the separator of a scheme is its own path. -/
theorem parseFileUri_of_none (parseHierarchical : Unity.HierarchicalParser α) {value : List α}
    (hnul : nul ∉ value) (hscheme : before (lit "://") value = none) (options : Option Unity.URIOptions) :
    Unity.parseFileUri parseHierarchical value options = .ok value := by
  have hfile : Unity.startsWith value (lit "file://") = false := by
    rw [Bool.eq_false_iff, startsWith_eq]
    intro hstarts
    obtain ⟨rest, rfl⟩ := Go.hasPrefix_iff.1 hstarts
    cases (before_scheme "file" (by simp [lit]) rest).symm.trans hscheme
  have hvscode : Unity.startsWith value (lit "vscode-file://") = false := by
    rw [Bool.eq_false_iff, startsWith_eq]
    intro hstarts
    obtain ⟨rest, rfl⟩ := Go.hasPrefix_iff.1 hstarts
    cases (before_scheme "vscode-file" (by simp [lit]) rest).symm.trans hscheme
  have huri : Unity.hasUriScheme value = false := by
    rw [Unity.hasUriScheme, hscheme]
  rw [Unity.parseFileUri, if_neg hnul, hfile, hvscode, huri]
  rfl

/-- On raw input that is no URI both ports choose between a mount candidate and the separators. -/
theorem raw_agrees (parseHierarchical : Unity.HierarchicalParser α) {raw mount root : List α}
    (hne : raw ≠ []) (hnul : nul ∉ raw) (hscheme : before (lit "://") raw = none)
    (hmount : Go.normalizeMountRoot root = .ok mount)
    (hhost : HostKind.IsRaw (Unity.optionSourceHost options)) :
    Agrees Eq
      (Go.interpretHost Go.plainPath raw ((goOptions uri options).withMountRoot mount) >>= fun value =>
        Go.checkAndClean value (goOptions uri options))
      (Unity.interpretHost parseHierarchical raw mount options >>= finish options) := by
  have huri : Go.hasURIScheme raw = false := by
    rw [Go.hasURIScheme, hscheme]
  have huriUnity : Unity.hasUriScheme raw = false := by
    rw [Unity.hasUriScheme, hscheme]
  -- without a scheme the host is chosen by the slash at the front alone
  have hgo : Go.interpretHost Go.plainPath raw ((goOptions uri options).withMountRoot mount) =
      if Unity.wslEnabled options && Go.isPOSIXMountCandidate raw then
        Go.normalizeWSLCandidate raw ((goOptions uri options).withMountRoot mount)
      else
        Go.rewriteSeparators raw (goOptions uri options).windows := by
    have hhost' : HostKind.IsRaw ((goOptions uri options).withMountRoot mount).sourceHost := hhost
    exact interpretHost_of_not_scheme hhost' (Go.uriPath_plainPath raw _) huri
  have hunity : Unity.interpretHost parseHierarchical raw mount options =
      if Unity.wslEnabled options && Go.isPOSIXMountCandidate raw then
        Unity.normalizeWSL raw mount options
      else
        Unity.normalizeWindows raw options := by
    have hpath := parseFileUri_of_none parseHierarchical hnul hscheme (Unity.optionURI options)
    rw [Unity.interpretHost, if_neg hhost.1, if_neg hhost.2, huriUnity]
    simp only [hpath, ok_bind, ite_self]
    rw [Unity.isWSLCandidate, Bool.false_and, Bool.not_false, Bool.and_true, Bool.and_assoc]
    rfl
  rw [hgo, hunity]
  by_cases hcandidate : (Unity.wslEnabled options && Go.isPOSIXMountCandidate raw) = true
  · rw [if_pos hcandidate, if_pos hcandidate]
    rw [Bool.and_eq_true] at hcandidate
    exact candidate_agrees uri options hnul hcandidate.2 hcandidate.1 hmount
  · rw [if_neg hcandidate, if_neg hcandidate]
    exact windows_agrees uri options hne hnul

theorem normalizeTrimmed_agrees (parseHierarchical : Unity.HierarchicalParser α) {raw : List α}
    (hscheme : before (lit "://") raw = none) :
    Agrees Eq (Go.normalizeWith Go.plainPath raw (goOptions uri options))
      (Unity.normalizeTrimmed parseHierarchical raw options) := by
  rw [Go.normalizeWith, Unity.normalizeTrimmed]
  by_cases hne : raw = []
  · rw [if_pos hne, if_pos hne]
    exact agrees_newError _ _ _
  by_cases hnul : nul ∈ raw
  · rw [if_neg hne, if_pos hnul, if_neg hne, if_pos hnul]
    exact agrees_newError _ _ _
  rw [if_neg hne, if_neg hnul, if_neg hne, if_neg hnul]
  refine (normalizeMount_agrees (Unity.wslMountRoot options)).bind fun mount mount' hmount heq => ?_
  subst heq
  have hhost : (goOptions uri options).sourceHost = Unity.optionSourceHost options := rfl
  have hwsl : (goOptions uri options).wsl.enabled = Unity.wslEnabled options := rfl
  have hend (x : Except PathError (List α)) :
      (x >>= fun value => Unity.validateTargetProfile value (Unity.optionTargetProfile options) >>= fun _ =>
        .ok value) = x >>= finish options := rfl
  rw [hend, hhost, hwsl]
  -- native, canonical and raw input
  by_cases hposix : Unity.optionSourceHost options = some .posix
  · rw [Unity.interpretHost, if_pos hposix]
    by_cases henabled : Unity.wslEnabled options = true
    · rw [if_pos ⟨hposix, henabled⟩, if_pos henabled]
      exact agrees_newError _ _ _
    · have hgo : ((goOptions uri options).withMountRoot mount).sourceHost = some .posix := hposix
      rw [if_neg fun h => henabled h.2, if_neg henabled, interpretHost_posix hgo, bind_assoc]
      exact native_agrees uri options hne hnul
  · rw [if_neg fun h => hposix h.1]
    by_cases hcanonical : Unity.optionSourceHost options = some .canonical
    · have hgo : ((goOptions uri options).withMountRoot mount).sourceHost = some .canonical := hcanonical
      rw [interpretHost_canonical hgo, ok_bind, Unity.interpretHost, if_neg hposix, if_pos hcanonical,
        bind_assoc]
      exact checkAndClean_agrees uri options hne hnul
    · exact raw_agrees uri options parseHierarchical hne hnul hscheme hmount ⟨hposix, hcanonical⟩

/-! ## Across the spellings -/

section Spellings

variable {β : Type} [DecidableEq β] [CodeUnit β] (e : Encoding α β)

/-- The C# options in other units: only the mount root is text. -/
def encodeOptions (options : Option (Unity.NormalizeOptions α)) : Option (Unity.NormalizeOptions β) :=
  options.map fun options =>
    { sourceHost := options.sourceHost
      targetProfile := options.targetProfile
      wsl := options.wsl.map fun wsl =>
        { enabled := wsl.enabled, mountRoot := wsl.mountRoot.map e.encode }
      uri := options.uri
      windows := options.windows
      trimOuterWhitespace := options.trimOuterWhitespace }

omit [DecidableEq α] [DecidableEq β] in
theorem goOptions_encodeOptions :
    goOptions uri (encodeOptions e options) = (goOptions uri options).encode e := by
  rcases options with _ | ⟨host, profile, _ | ⟨enabled, _ | mountRoot⟩, fileUri, windows, trim⟩
  · rfl
  · rfl
  · rfl
  · rfl

omit [DecidableEq α] [DecidableEq β] in
theorem optionTrims_encodeOptions :
    Unity.optionTrims (encodeOptions e options) = Unity.optionTrims options := by
  cases options <;> rfl

end Spellings

/-- The C# program and the Go program return the same path or fail with the same code on every text
without `://`, for every setting of the options; the URI settings play no role. -/
theorem normalize_agrees (parseHierarchical : Unity.HierarchicalParser UInt16) (uri : Go.URIOptions)
    (text : List Char) (options : Option (Unity.NormalizeOptions Char)) (htext : ¬"://".toList <:+: text)
    (htrim : Unity.optionTrims options = false) :
    Agrees SameText (Go.normalize (utf8.encode text) ((goOptions uri options).encode utf8))
      (Unity.normalize parseHierarchical (utf16.encode text) (encodeOptions utf16 options)) := by
  have hgo : ((goOptions uri options).encode utf8).trimOuterWhitespace = false := htrim
  have hunity : Unity.optionTrims (encodeOptions utf16 options) = false := by
    rw [optionTrims_encodeOptions, htrim]
  rw [normalize_eq_plainPath htext hgo, sameText_normalizeWith_iff, ← goOptions_encodeOptions,
    Unity.normalize, hunity]
  exact normalizeTrimmed_agrees uri (encodeOptions utf16 options) parseHierarchical (before_encode utf16 htext)

/-- A mounted drive with names beyond ASCII, under both policies. -/
theorem normalize_agrees_mount :
    Agrees SameText
      (Go.normalize (utf8.encode "///mnt//C/é/./𝄞".toList)
        { targetProfile := some .win32Drive, wsl := { enabled := true },
          windows := { rejectDeviceNames := true, rejectADS := true } })
      (Unity.normalize (fun _ _ _ => newError .invalidURI "URI path is empty")
        (utf16.encode "///mnt//C/é/./𝄞".toList)
        (some { targetProfile := some .win32Drive, wsl := some { enabled := true },
                windows := some { rejectDeviceNames := true, rejectADS := true } })) :=
  normalize_agrees _ {} "///mnt//C/é/./𝄞".toList
    (some { targetProfile := some .win32Drive, wsl := some { enabled := true },
            windows := some { rejectDeviceNames := true, rejectADS := true } })
    (by decide +kernel) rfl

end Unity

end Ports

end CanonicalPath
