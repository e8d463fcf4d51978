import CanonicalPath.Identity.FixedPoint
import CanonicalPath.Ports.Spelling
import CanonicalPath.TS.Normalize

/-!
# Grammar — the two ports read the same roots

Both ports at one code unit.  `Agrees` relates a Go and a TypeScript result that are both a success
with related values or both an error with the same code; the messages differ freely.

* `splitRoot_agrees` : one root parser cuts a string, the other rebuilds its parts
* `cleanCanonical_agrees`, `nativePOSIX_agrees`, `normalizeMountRoot_agrees` : the functions over it
* `checkAndClean_agrees` : policies, dot cleanup and target profile
-/

namespace CanonicalPath

namespace Ports

open CodeUnit Segments Outcome

/-- The two errors have one machine-readable code. -/
def SameCode (go ts : PathError) : Prop :=
  go.code = ts.code

/-- Both results are successes with related values, or errors with the same code. -/
abbrev Agrees {γ δ : Type} (R : γ → δ → Prop) : Except PathError γ → Except PathError δ → Prop :=
  Rel SameCode R

theorem agrees_newError {γ δ : Type} {R : γ → δ → Prop} (code : ErrorCode) (go ts : String) :
    Agrees R (newError code go) (newError code ts) :=
  Rel.error rfl

theorem agrees_refl {γ : Type} (x : Except PathError γ) : Agrees Eq x x := by
  cases x with
  | ok a =>
      exact Rel.ok rfl
  | error err =>
      exact Rel.error rfl

variable {α : Type} [DecidableEq α] [CodeUnit α]

/-! ## Roots -/

/-- The TypeScript name of a root form. -/
def kindOf : Root α → TS.RootKind
  | .relative => .relative
  | .posix => .posix
  | .drive _ => .drive
  | .unc _ _ => .unc
  | .extendedDrive _ => .extendedDrive
  | .extendedUNC _ _ => .extendedUnc

/-- What the TypeScript parser returns for a root and the rest behind it. -/
def parsedRoot (root : Root α) (rest : List α) : TS.ParsedRoot α where
  kind := kindOf root
  rootPrefix := root.fold.text
  rest := rest

/-- A split of the Go port and a parsed root that come from one root. -/
def FromRoot (split : List α × List α) (parsed : TS.ParsedRoot α) : Prop :=
  ∃ root : Root α, root.Valid ∧ split.1 = root.text ∧ parsed = parsedRoot root split.2

omit [DecidableEq α] [CodeUnit α] in
theorem isWindowsRoot_kindOf (root : Root α) : TS.isWindowsRoot (kindOf root) = root.isWindows := by
  cases root <;> rfl

theorem hasDriveRoot_eq (value : List α) : TS.hasDriveRoot value = Go.hasDriveRoot value :=
  Bool.eq_iff_iff.2 Iff.rfl

omit [CodeUnit α] in
theorem startsWith_eq (value leader : List α) : TS.startsWith value leader = Go.hasPrefix value leader :=
  Bool.eq_iff_iff.2 Iff.rfl

theorem needsRelativeMarker_eq (value : List α) :
    TS.needsRelativeMarker value = Go.needsRelativeMarker value :=
  Bool.eq_iff_iff.2 Iff.rfl

theorem isUriWindowsDrivePath_eq (value : List α) :
    TS.isUriWindowsDrivePath value = Go.isURIWindowsDrivePath value :=
  Bool.eq_iff_iff.2 Iff.rfl

theorem isDriveRelative_eq (value : List α) : TS.isDriveRelative value = Go.isDriveRelative value := by
  match value with
  | [] => rfl
  | [a] => rfl
  | [a, b] => simp [TS.isDriveRelative, TS.needsRelativeMarker, Go.isDriveRelative]
  | a :: b :: c :: rest =>
      simp [TS.isDriveRelative, TS.needsRelativeMarker, Go.isDriveRelative, bne]

/-- A bounded split and a full split name the same server, share and rest. -/
theorem splitUNC_agrees (kind : TS.RootKind) (leader : List α) (mk : List α → List α → Root α)
    (hkind : ∀ server share, kindOf (mk server share) = kind)
    (htext : ∀ server share, (mk server share).text = leader ++ server ++ lit "/" ++ share)
    (hfold : ∀ server share, (mk server share).fold = mk server share) {body : List α}
    (hvalid : ∀ server more, body = server ++ lit "/" ++ more → IsName server →
      ∀ share, IsName share → (mk server share).Valid) :
    Agrees FromRoot (Go.splitUNCRoot (leader ++ body) leader)
      (TS.splitUNC kind leader (body.splitOn (chr '/'))) := by
  -- from the pieces on, both ports check the same two names
  have hagree {server share : List α} {more comps : List (List α)} (rest : List α)
      (hserver : chr '/' ∉ server)
      (hshare : chr '/' ∉ share) (hbody : ∃ tail, body = server ++ lit "/" ++ tail)
      (hgo : more.headD [] = rest)
      (hts : joinOn (chr '/') comps = rest)
      (hcut : splitN (chr '/') 3 body = server :: share :: more)
      (hsplit : body.splitOn (chr '/') = server :: share :: comps) :
      Agrees FromRoot (Go.splitUNCRoot (leader ++ body) leader)
        (TS.splitUNC kind leader (body.splitOn (chr '/'))) := by
    rw [Go.splitUNCRoot, List.drop_left, hcut, hsplit, TS.splitUNC, TS.requireUNCParts]
    simp only
    split_ifs with hbad
    · exact agrees_newError _ _ _
    · simp only [not_or] at hbad
      have hservername : IsName server := ⟨hbad.1, hbad.2.2.1, hbad.2.2.2.1, hserver⟩
      have hsharename : IsName share := ⟨hbad.2.1, hbad.2.2.2.2.1, hbad.2.2.2.2.2, hshare⟩
      rcases hbody with ⟨tail, htail⟩
      refine Rel.ok ⟨mk server share, hvalid server tail htail hservername share hsharename,
        (htext server share).symm, ?_⟩
      cases more with
      | nil =>
          simp [parsedRoot, hkind, hfold, htext, hts, ← hgo]
      | cons rest' more =>
          simp [parsedRoot, hkind, hfold, htext, hts, ← hgo]
  -- one separator, two, or more: the bounded split keeps the rest joined
  cases hcut : cut (chr '/') body with
  | none =>
      have hmem := cut_eq_none_iff.1 hcut
      rw [Go.splitUNCRoot, List.drop_left, splitN_of_not_mem _ hmem, List.splitOn_eq_singleton hmem]
      exact agrees_newError _ _ _
  | some halves =>
      rcases halves with ⟨server, body'⟩
      rcases cut_eq_some_iff.1 hcut with ⟨rfl, hserver⟩
      have hN := splitN_append_cons 1 hserver (t := body')
      have hOn := List.splitOn_append_cons_self_of_not_mem hserver body'
      have hbody : ∃ tail, server ++ chr '/' :: body' = server ++ lit "/" ++ tail :=
        ⟨body', by simp [lit]⟩
      cases hcut' : cut (chr '/') body' with
      | none =>
          have hshare := cut_eq_none_iff.1 hcut'
          rw [splitN_of_not_mem _ hshare] at hN
          rw [List.splitOn_eq_singleton hshare] at hOn
          exact hagree [] hserver hshare hbody rfl rfl hN hOn
      | some halves' =>
          rcases halves' with ⟨share, rest⟩
          rcases cut_eq_some_iff.1 hcut' with ⟨rfl, hshare⟩
          rw [splitN_append_cons _ hshare] at hN
          rw [List.splitOn_append_cons_self_of_not_mem hshare] at hOn
          exact hagree rest hserver hshare hbody rfl (by simp [joinOn]) hN hOn

theorem splitRootBranches_agrees (value : List α) :
    Agrees FromRoot (Go.splitRootSwitch value) (TS.splitRootBranches value) := by
  rw [Go.splitRootSwitch, TS.splitRootBranches]
  simp only [startsWith_eq, hasDriveRoot_eq, isDriveRelative_eq]
  split_ifs with hext hextDrive hextUNC hdrive hunc hposix hrelative
  · -- the extended drive root
    rcases Go.hasPrefix_iff.1 hext with ⟨tail, rfl⟩
    rcases Go.hasDriveRoot_iff.1 hextDrive with ⟨d, rest, hd, htail⟩
    have htail' : tail = d :: lit ":/" ++ rest := htail
    subst htail'
    exact Rel.ok ⟨.extendedDrive d, hd, rfl, rfl⟩
  · -- the extended UNC root
    rcases Go.hasPrefix_iff.1 hext with ⟨tail, rfl⟩
    rcases Go.hasPrefix_iff.1 hextUNC with ⟨body, hbody⟩
    have htail : tail = lit "UNC/" ++ body := hbody
    subst htail
    exact splitUNC_agrees .extendedUnc (lit "//?/UNC/") Root.extendedUNC (fun _ _ => rfl)
      (fun _ _ => rfl) (fun _ _ => rfl) fun _ _ _ hserver _ hshare => ⟨hserver, hshare⟩
  · exact agrees_newError _ _ _
  · -- the drive root
    rcases Go.hasDriveRoot_iff.1 hdrive with ⟨d, rest, hd, rfl⟩
    exact Rel.ok ⟨.drive d, hd, rfl, rfl⟩
  · -- the UNC root
    rcases Go.hasPrefix_iff.1 hunc with ⟨body, rfl⟩
    refine splitUNC_agrees .unc (lit "//") Root.unc (fun _ _ => rfl)
      (fun _ _ => rfl) (fun _ _ => rfl) fun server more hbody hserver share hshare => ?_
    refine ⟨hserver, hshare, ?_⟩
    rintro rfl
    exact hext (Go.hasPrefix_iff.2 ⟨more, by rw [hbody]; rfl⟩)
  · exact Rel.ok ⟨.posix, trivial, rfl, rfl⟩
  · exact agrees_newError _ _ _
  · exact Rel.ok ⟨.relative, trivial, rfl, rfl⟩

/-- The two root parsers read the same root and rest, or fail alike. -/
theorem splitRoot_agrees {value : List α} (hnul : nul ∉ value) :
    Agrees FromRoot (Go.splitRoot value) (TS.splitRoot value) := by
  rw [Go.splitRoot, TS.splitRoot, if_neg hnul]
  refine (splitRootBranches_agrees value).bind fun split parsed _ hroot => ?_
  rcases hroot with ⟨root, hvalid, htext, rfl⟩
  have hwindows : TS.isWindowsRoot (parsedRoot root split.2).kind = Go.isWindowsRoot split.1 := by
    rw [htext, isWindowsRoot_text]
    exact isWindowsRoot_kindOf root
  rw [hwindows]
  split_ifs
  · exact agrees_newError _ _ _
  · exact Rel.ok ⟨root, hvalid, htext, rfl⟩

/-! ## Dot cleanup -/

theorem cleanComponentsLoop_eq (absolute : Bool) (outsideCode : ErrorCode)
    (parts comps : List (List α)) :
    TS.cleanComponentsLoop absolute outsideCode parts comps =
      Go.cleanLoop absolute
        { code := outsideCode, message := "relative path escapes above its root" } parts comps := by
  induction comps generalizing parts with
  | nil =>
      rfl
  | cons part comps ih =>
      rw [TS.cleanComponentsLoop, Go.cleanLoop]
      -- the loops differ in the order of the last two branches only
      simp only [List.length_pos_iff, ih]
      cases absolute with
      | false =>
          rfl
      | true =>
          rfl

/-- The two ports write a root and its components alike. -/
theorem joinRoot_parsedRoot {root : Root α} (rest : List α) (parts : List (List α)) :
    TS.joinRoot (parsedRoot root rest) (joinOn (chr '/') parts) =
      Go.serialize root.fold.text parts := by
  have hendsWith (value : List α) : TS.endsWith value (lit "/") = Go.hasSuffix value (lit "/") :=
    Bool.eq_iff_iff.2 Iff.rfl
  have hmark (value : List α) : TS.markRelative value =
      if value = [] then lit "." else Go.markRelative value := by
    rw [TS.markRelative, Go.markRelative]
    simp only [needsRelativeMarker_eq]
  -- the TypeScript kind is relative where the Go prefix is empty
  have hkind : kindOf root = .relative ↔ root.fold.text = [] := by
    rw [Root.text_eq_nil_iff, Root.isAbsolute_fold]
    cases root <;> simp [kindOf, Root.isAbsolute]
  rw [TS.joinRoot, Go.serialize]
  simp only [parsedRoot, hkind, hendsWith, hmark]

theorem cleanCanonical_agrees (value : List α) :
    Agrees Eq (Go.cleanCanonical value) (TS.cleanCanonical value) := by
  rw [Go.cleanCanonical, TS.cleanCanonical]
  by_cases hne : value = []
  · rw [if_pos hne, if_pos hne]
    exact agrees_newError _ _ _
  by_cases hnul : nul ∈ value
  · rw [if_neg hne, if_pos hnul, if_neg hne, TS.splitRoot, if_pos hnul]
    exact agrees_newError _ _ _
  rw [if_neg hne, if_neg hnul, if_neg hne]
  refine (splitRoot_agrees hnul).bind fun split parsed _ hroot => ?_
  rcases hroot with ⟨root, hvalid, htext, rfl⟩
  -- one port asks the kind, the other the prefix, whether the root is a floor
  have habs : ((parsedRoot root split.2).kind != .relative) = (root.fold.text != []) := by
    rw [Bool.eq_iff_iff, bne_iff_ne, bne_iff_ne, Ne, Ne, Root.text_eq_nil_iff, Root.isAbsolute_fold]
    cases root <;> simp [parsedRoot, kindOf, Root.isAbsolute]
  rw [htext, lowercaseDrive_text hvalid, TS.cleanComponents, cleanComponentsLoop_eq, habs]
  refine (agrees_refl _).bind fun parts parts' _ heq => ?_
  subst heq
  exact Rel.ok (joinRoot_parsedRoot split.2 parts).symm

/-! ## Policies -/

theorem isReservedPort_eq (base : List α) : TS.isReservedPort base = Go.isReservedPort base := by
  match base with
  | [] => rfl
  | [a] => rfl
  | [a, b] => rfl
  | [a, b, c] => rfl
  | [a, b, c, digit] =>
      rw [Bool.eq_iff_iff]
      simp [TS.isReservedPort, TS.isPortCode, Go.isReservedPort, Pattern.literal, char_code_iff, lit,
        and_assoc, or_and_right]
  | a :: b :: c :: d :: x :: more => simp [TS.isReservedPort, Go.isReservedPort]

theorem isReservedDeviceBase_eq (base : List α) : TS.isReservedDeviceBase base = Go.isReservedDeviceBase base := by
  rw [TS.isReservedDeviceBase, Go.isReservedDeviceBase]
  simp only [List.mem_cons, List.not_mem_nil, or_false, isReservedPort_eq]

theorem isReservedDevicePart_eq (part : List α) :
    TS.isReservedDevicePart part = Go.isReservedDevicePart part := by
  rw [TS.isReservedDevicePart, Go.isReservedDevicePart, isReservedDeviceBase_eq]
  rfl

/-- The Go record for a TypeScript record: an absent field is the zero value. -/
def goOptions (options : TS.NormalizeOptions α) : Go.Options α where
  sourceHost := options.sourceHost
  targetProfile := options.targetProfile
  wsl := {
    enabled := TS.wslEnabled options.wsl
    mountRoot := (TS.wslMountRoot options.wsl).getD []
  }
  uri := {
    allowFileURI := TS.allowFileUri options.uri
    allowVSCodeFileURI := TS.allowVSCodeFileUri options.uri
    rejectEncodedSlash := options.uri.bind fun uri => uri.rejectEncodedSlash
  }
  windows := {
    preserveExtendedLength := options.preserveExtendedLength
    rejectDeviceNames := options.rejectDeviceNames
    rejectADS := options.rejectADS
  }
  trimOuterWhitespace := options.trims

/-- Where the Go parser reads a root, the TypeScript parser returns a root with the same spelling and
the same rest. -/
theorem exists_parsed_of_splits {value rest : List α} {root : Root α} (hnul : nul ∉ value)
    (h : Splits value root rest) :
    ∃ root', root'.Valid ∧ root.text = root'.text ∧ TS.splitRoot value = .ok (parsedRoot root' rest) := by
  have hagrees := splitRoot_agrees hnul
  rw [splitRoot_of_splits h] at hagrees
  cases hts : TS.splitRoot value with
  | error err =>
      rw [hts] at hagrees
      exact absurd hagrees not_rel_ok_error
  | ok parsed =>
      rw [hts] at hagrees
      rcases rel_ok_ok_iff.1 hagrees with ⟨root', hvalid, htext, rfl⟩
      exact ⟨root', hvalid, htext, rfl⟩

theorem validateWindowsPolicy_agrees {value rest : List α} {root : Root α}
    (options : TS.NormalizeOptions α) (hnul : nul ∉ value) (h : Splits value root rest) :
    Agrees Eq (Go.validateWindowsComponents value (goOptions options).windows)
      (TS.validateWindowsPolicy value options) := by
  rcases exists_parsed_of_splits hnul h with ⟨root', -, -, hparsed⟩
  have hrest : (parsedRoot root' rest).rest = rest := rfl
  have hads : TS.hasWindowsADS value = .ok (Go.hasWindowsADS value) := by
    rw [TS.hasWindowsADS, hparsed, ok_bind, hasWindowsADS_of_splits h, hrest]
  have hdevice : TS.hasReservedDeviceName value = .ok (Go.hasReservedDeviceName value) := by
    have hpart : TS.isReservedDevicePart = (Go.isReservedDevicePart : List α → Bool) :=
      funext isReservedDevicePart_eq
    rw [TS.hasReservedDeviceName, hparsed, ok_bind, hasReservedDeviceName_of_splits h, hrest, hpart]
  have hwindows : (goOptions options).windows.rejectADS = options.rejectADS ∧
      (goOptions options).windows.rejectDeviceNames = options.rejectDeviceNames := ⟨rfl, rfl⟩
  -- the alternate data stream is tested first in both ports
  rw [Go.validateWindowsComponents, TS.validateWindowsPolicy, hads, hdevice, hwindows.1, hwindows.2]
  cases options.rejectADS <;> cases options.rejectDeviceNames <;> cases Go.hasWindowsADS value <;>
    cases Go.hasReservedDeviceName value <;> first | exact Rel.ok rfl | exact Rel.error rfl

theorem validateTargetProfile_agrees {value : List α} (hnul : nul ∉ value)
    (profile : Option TargetProfile) :
    Agrees Eq (Go.validateTargetProfile value profile) (TS.validateTargetProfile value profile) := by
  rw [Go.validateTargetProfile, TS.validateTargetProfile]
  refine (splitRoot_agrees hnul).bind fun split parsed _ hroot => ?_
  rcases hroot with ⟨root, hvalid, htext, rfl⟩
  have hwindows : TS.isWindowsRoot (parsedRoot root split.2).kind = Go.isWindowsRoot split.1 := by
    rw [htext, isWindowsRoot_text]
    exact isWindowsRoot_kindOf root
  have hdrive : (split.1 = lit "/" ∨ (Go.isWindowsRoot split.1 && !Go.isDriveRoot split.1) = true) ↔
      ((parsedRoot root split.2).kind = .posix ∨ (parsedRoot root split.2).kind = .unc ∨
        (parsedRoot root split.2).kind = .extendedUnc) := by
    rw [htext, isWindowsRoot_text, isDriveRoot_text hvalid]
    cases root <;>
      simp [parsedRoot, kindOf, Root.text, Root.isWindows, Root.isDrive, Root.isExtendedDrive, lit]
  cases profile with
  | none =>
      exact agrees_refl _
  | some profile =>
      cases profile with
      | portable =>
          exact agrees_refl _
      | win32Drive =>
          simp only [hdrive]
          split_ifs
          · exact agrees_newError _ _ _
          · exact agrees_refl _
      | posix =>
          simp only [hwindows]
          split_ifs
          · exact agrees_newError _ _ _
          · exact agrees_refl _
      | other name =>
          exact agrees_newError _ _ _

/-- A value without a root is rejected by the first check that parses it, in both ports. -/
theorem checkAndClean_eq_error {value : List α} (options : TS.NormalizeOptions α) {err : PathError}
    (h : TS.splitRoot value = .error err) (hne : value ≠ []) :
    TS.checkAndClean value options = .error err := by
  have hads : TS.hasWindowsADS value = .error err := by
    rw [TS.hasWindowsADS, h, error_bind]
  have hdevice : TS.hasReservedDeviceName value = .error err := by
    rw [TS.hasReservedDeviceName, h, error_bind]
  have hclean : TS.cleanCanonical value = .error err := by
    rw [TS.cleanCanonical, if_neg hne, h, error_bind]
  rw [TS.checkAndClean, TS.validateWindowsPolicy, hads, hdevice, hclean]
  cases options.rejectADS with
  | true =>
      rfl
  | false =>
      cases options.rejectDeviceNames with
      | true =>
          rfl
      | false =>
          rfl

/-- Policies, dot cleanup and target profile agree. -/
theorem checkAndClean_agrees {value : List α} (options : TS.NormalizeOptions α) (hnul : nul ∉ value) :
    Agrees Eq (Go.checkAndClean value (goOptions options)) (TS.checkAndClean value options) := by
  cases hgo : Go.splitRoot value with
  | error err =>
      have hagrees := splitRoot_agrees hnul
      have hne : value ≠ [] := by
        rintro rfl
        have hempty : Splits ([] : List α) .relative [] := Splits.relative (by simp) rfl
        rw [splitRoot_of_splits hempty] at hgo
        exact absurd hgo (by simp)
      rw [Go.checkAndClean, hgo, error_bind]
      rw [hgo] at hagrees
      cases hts : TS.splitRoot value with
      | ok parsed =>
          rw [hts] at hagrees
          cases hagrees
      | error err' =>
          rw [hts] at hagrees
          rw [checkAndClean_eq_error options hts hne]
          cases hagrees with
          | error hcode =>
              exact Rel.error hcode
  | ok split =>
      rcases splitRoot_eq_ok_iff.1 hgo with ⟨root, hsplits, -⟩
      rw [Go.checkAndClean, hgo, ok_bind, TS.checkAndClean]
      refine (validateWindowsPolicy_agrees options hnul hsplits).bind fun _ _ _ _ => ?_
      refine (cleanCanonical_agrees value).bind fun cleaned cleaned' hclean heq => ?_
      subst heq
      rcases exists_identity_of_cleanCanonical hclean with ⟨p, -, -, rfl, -⟩
      refine (validateTargetProfile_agrees p.render_nul_free _).bind fun _ _ _ _ => ?_
      exact Rel.ok rfl

end Ports

end CanonicalPath
