import CanonicalPath.Ports.Normalize

/-!
# Raw — where the two ports agree on raw input

Raw input that holds no `://` takes one of two branches.  On a WSL mount candidate the ports always
agree.  On the separator branch they unwrap an extended prefix by different means, a cut and a
rebuilt root, and agree except on `//?/UNC/?/` followed by a bare drive root: the rebuilt UNC root
loses the separator that makes the drive root one.
-/

namespace CanonicalPath

namespace Ports

open CodeUnit Segments Outcome

variable {α : Type} [DecidableEq α] [CodeUnit α]

/-- The run fails with the code of a malformed path. -/
def Invalid {γ : Type} (x : Except PathError γ) : Prop :=
  ∃ err, x = .error err ∧ err.code = .invalidPath

theorem agrees_of_invalid {γ δ : Type} {R : γ → δ → Prop} {x : Except PathError γ}
    {y : Except PathError δ} (hx : Invalid x) (hy : Invalid y) : Agrees R x y := by
  rcases hx with ⟨err, rfl, hcode⟩
  rcases hy with ⟨err', rfl, hcode'⟩
  exact Rel.error (hcode.trans hcode'.symm)

/-! ## Mount candidates -/

/-- Both drive selections read the same letter; TypeScript already rejects a backslash behind it. -/
theorem mapDriveRest_eq (rest : List α) :
    TS.mapDriveRest rest =
      if (Go.selectDrive rest).isSome = true ∧ chr '\\' ∈ rest then
        newError .invalidPath "WSL tail cannot preserve a literal backslash in a Windows identity"
      else
        .ok (Go.selectDrive rest) := by
  -- the test and the selection read the same first two units
  have hselects : TS.selectsDrive rest = (Go.selectDrive rest).isSome := by
    match rest with
    | [] => rfl
    | [d] =>
        rw [TS.selectsDrive, Go.selectDrive]
        cases isLetter d <;> rfl
    | d :: slash :: tail =>
        rw [TS.selectsDrive, Go.selectDrive]
        cases isLetter d && slash == chr '/' <;> rfl
  rw [TS.mapDriveRest, hselects]
  cases hdrive : Go.selectDrive rest with
  | none =>
      rfl
  | some value =>
      have hvalue : (rest.take 1).map lower ++ lit ":/" ++ (if rest.length = 1 then [] else rest.drop 2) =
          value := by
        rcases selectDrive_eq_some_iff.1 hdrive with ⟨d, -, ⟨rfl, rfl⟩ | ⟨tail, rfl, rfl⟩⟩
        · rfl
        · simp
      rw [hvalue]
      simp only [Option.isSome_some, Bool.not_true, Bool.false_eq_true, if_false, true_and]

theorem mountPrefix_eq {mountParts : List (List α)} (h : ∀ part ∈ mountParts, IsName part) :
    TS.mountPrefix (Go.serialize (lit "/") mountParts) =
      Go.mountPrefix (Go.serialize (lit "/") mountParts) := by
  have hroot : Go.serialize (lit "/") mountParts = lit "/" ↔ mountParts = [] := by
    rw [serialize_posix, ← joinOn_parts_eq_nil_iff h]
    simp [lit]
  rw [mountPrefix_serialize h, TS.mountPrefix]
  simp only [hroot]
  split_ifs
  · rfl
  · rw [serialize_posix]
    rfl

/-- A selected drive with a backslash behind it is rejected by the Go grammar. -/
theorem checkAndClean_selectDrive {rest value : List α} (opts : Go.Options α)
    (h : Go.selectDrive rest = some value) (hmem : chr '\\' ∈ rest) :
    Invalid (Go.checkAndClean value opts) := by
  rcases selectDrive_eq_some_iff.1 h with ⟨d, hd, hcase⟩
  have hne := Go.ne_backslash_of_isLetter hd
  have hlower : isLetter (lower d) = true := by
    rwa [isLetter_lower]
  rcases hcase with ⟨rfl, -⟩ | ⟨tail, rfl, rfl⟩
  · exact absurd (List.mem_singleton.1 hmem).symm hne
  · have htail : chr '\\' ∈ tail := by
      simpa [Ne.symm hne] using hmem
    rw [Go.checkAndClean, splitRoot_drive_backslash hlower htail]
    exact ⟨_, rfl, rfl⟩

/-- The two mappings agree, up to the backslash that TypeScript rejects while mapping. -/
theorem mapWSLDrive_eq {mountRoot : List α} {options : TS.NormalizeOptions α} (value : List α)
    (hwsl : TS.wslEnabled options.wsl = true)
    (hmount : Go.normalizeMountRoot (goOptions options).wsl.mountRoot = .ok mountRoot) :
    ∃ rest, Go.mapWSLDrive value ((goOptions options).withMountRoot mountRoot).wsl =
        Go.selectDrive rest ∧
      TS.mapWSLDrive value options.wsl = TS.mapDriveRest rest ∧ ∀ x ∈ rest, x ∈ value := by
  have hmountTS : TS.normalizeMountRoot (TS.wslMountRoot options.wsl) = .ok mountRoot := by
    have hagrees := normalizeMountRoot_agrees (TS.wslMountRoot options.wsl)
    have hgo : Go.normalizeMountRoot ((TS.wslMountRoot options.wsl).getD []) = .ok mountRoot := hmount
    rw [hgo] at hagrees
    rcases rel_ok_left_iff.1 hagrees with ⟨_, hts, rfl⟩
    exact hts
  have hleads : TS.mountPrefix mountRoot = Go.mountPrefix mountRoot := by
    rw [eq_serialize_of_normalizeMountRoot hmount]
    exact mountPrefix_eq fun part hpart => isName_of_mem_components hpart
  have hgo : Go.mapWSLDrive value ((goOptions options).withMountRoot mountRoot).wsl =
      if Go.hasPrefix value (Go.mountPrefix mountRoot) then
        Go.selectDrive (value.drop (Go.mountPrefix mountRoot).length)
      else
        none := by
    have hwslGo : ((goOptions options).withMountRoot mountRoot).wsl = ⟨true, mountRoot⟩ := by
      rw [← hwsl]
      rfl
    rw [hwslGo, Go.mapWSLDrive, Bool.true_and]
  rw [hgo, TS.mapWSLDrive, hwsl, hmountTS, ok_bind, hleads]
  simp only [startsWith_eq]
  by_cases hbelow : Go.hasPrefix value (Go.mountPrefix mountRoot) = true
  · refine ⟨value.drop (Go.mountPrefix mountRoot).length, ?_, ?_, fun x => List.mem_of_mem_drop⟩
    · rw [if_pos hbelow]
    · rw [if_neg (by simp), if_neg (by simp [hbelow])]
  · -- a value outside the mount selects nothing, like the empty rest
    refine ⟨[], ?_, ?_, by simp⟩
    · rw [if_neg hbelow]
      rfl
    · rw [if_neg (by simp), if_pos (by simpa using hbelow)]
      rfl

/-- The candidate branch agrees. -/
theorem mountCandidate_agrees {path mountRoot : List α} (options : TS.NormalizeOptions α)
    (hnul : nul ∉ path) (hcandidate : Go.isPOSIXMountCandidate path = true)
    (hwsl : TS.wslEnabled options.wsl = true)
    (hmount : Go.normalizeMountRoot (goOptions options).wsl.mountRoot = .ok mountRoot) :
    Agrees Eq
      (Go.normalizeWSLCandidate path ((goOptions options).withMountRoot mountRoot) >>=
        fun value => Go.checkAndClean value (goOptions options))
      (TS.normalizeMountCandidate path options >>= fun value => TS.checkAndClean value options) := by
  rcases prepareNativePOSIX_of_candidate hcandidate with ⟨rest, hrest, hprepare, -, hmem⟩
  have hslash : Go.hasPrefix path (lit "/") = true := hasPrefix_slash_of_candidate hcandidate
  have hnative : TS.nativePOSIXRepresentation path = .ok (chr '/' :: rest) := by
    have hagrees := prepareNativePOSIX_agrees hslash
    rw [hprepare] at hagrees
    rcases rel_ok_left_iff.1 hagrees with ⟨_, hts, rfl⟩
    exact hts
  have hvalue : nul ∉ chr '/' :: rest := by
    simp only [List.mem_cons, not_or]
    exact ⟨by simp, fun hx => hnul (hmem _ hx)⟩
  simp only [Go.normalizeWSLCandidate, TS.normalizeMountCandidate, bind_assoc, hprepare, hnative, ok_bind]
  -- policies, cleaning and mapping in turn; what one port has, the other has too
  refine (validateWindowsPolicy_agrees options hvalue (Splits.posix hrest)).bind fun _ _ _ _ => ?_
  refine (cleanCanonical_agrees _).bind fun cleaned cleaned' hclean heq => ?_
  subst heq
  rcases exists_identity_of_cleanCanonical hclean with ⟨p, -, -, rfl, -⟩
  have hplain := checkAndClean_agrees options p.render_nul_free
  have hprofile : ((goOptions options).withMountRoot mountRoot).targetProfile = options.targetProfile := rfl
  rw [hprofile]
  by_cases hposix : options.targetProfile = some .posix
  · rw [if_pos hposix, if_pos hposix, ok_bind, ok_bind]
    exact hplain
  rw [if_neg hposix, if_neg hposix, ok_bind]
  rcases mapWSLDrive_eq p.render hwsl hmount with ⟨tail, hgo, hts, htail⟩
  rw [hgo, hts, mapDriveRest_eq]
  cases hdrive : Go.selectDrive tail with
  | none =>
      exact hplain
  | some value =>
      rw [Option.isSome_some, Option.getD_some]
      by_cases hbackslash : chr '\\' ∈ tail
      · -- TypeScript fails while mapping, Go at the common end
        rcases checkAndClean_selectDrive (goOptions options) hdrive hbackslash with ⟨err, herr, hcode⟩
        rw [if_pos ⟨rfl, hbackslash⟩, herr]
        exact Rel.error hcode
      · have hdrivenul : nul ∉ value := by
          have htailnul : nul ∉ tail := fun hx => p.render_nul_free (htail _ hx)
          rcases selectDrive_eq_some_iff.1 hdrive with ⟨d, hd, hcase⟩
          have hne := Go.ne_nul_of_isLetter (d := lower d) (by rwa [isLetter_lower])
          rcases hcase with ⟨-, rfl⟩ | ⟨tail', rfl, rfl⟩
          · simp [lit, Ne.symm hne]
          · simp only [List.mem_cons, not_or] at htailnul
            simp [lit, Ne.symm hne, htailnul.2.2]
        rw [if_neg (by simp [hbackslash]), ok_bind, Option.getD_some]
        exact checkAndClean_agrees options hdrivenul

/-! ## Separators -/

/-- A server `?` with a bare drive as its share, behind the extended prefix. -/
def DoubledDrive (value : List α) : Prop :=
  ∃ d, isLetter d = true ∧ value = lit "//?/UNC/?/" ++ [d, chr ':', chr '/']

theorem nul_not_mem_of_doubledDrive {raw : List α} (h : DoubledDrive (Go.toSlashes raw)) :
    nul ∉ raw := by
  intro hmem
  rcases h with ⟨d, hd, hraw⟩
  have hne := Go.ne_nul_of_isLetter hd
  have hslashes : nul ∈ Go.toSlashes raw := by
    refine List.mem_map.2 ⟨nul, hmem, ?_⟩
    rw [if_neg (by simp)]
  rw [hraw] at hslashes
  simp [lit, Ne.symm hne] at hslashes

theorem code_of_splitUNCRoot {value leader : List α} {err : PathError}
    (h : Go.splitUNCRoot value leader = .error err) : err.code = .invalidPath := by
  rw [Go.splitUNCRoot] at h
  split at h
  · split_ifs at h
    rw [← Except.error.inj h]
  · rw [← Except.error.inj h]

/-- Behind the extended prefix every rejection has the same code. -/
theorem code_of_extended {tail : List α} {err : PathError}
    (h : Go.splitRoot (lit "//?/" ++ tail) = .error err) : err.code = .invalidPath := by
  rw [Go.splitRoot] at h
  cases hswitch : Go.splitRootSwitch (lit "//?/" ++ tail) with
  | ok split =>
      rw [hswitch, ok_bind] at h
      -- the switch succeeded, so the backslash check failed
      split_ifs at h
      rw [← Except.error.inj h]
  | error err' =>
      rw [hswitch, error_bind] at h
      rw [← Except.error.inj h]
      rw [Go.splitRootSwitch, if_pos (Go.hasPrefix_append _ _)] at hswitch
      split_ifs at hswitch
      · exact code_of_splitUNCRoot hswitch
      · rw [← Except.error.inj hswitch]

/-- Without the final separator the rebuilt root has no extended form any more. -/
theorem splitRoot_question {share : List α} (hshare : chr '/' ∉ share) :
    Invalid (Go.splitRoot (lit "//?/" ++ share)) := by
  cases hsplit : Go.splitRoot (lit "//?/" ++ share) with
  | error err =>
      exact ⟨err, rfl, code_of_extended hsplit⟩
  | ok split =>
      rcases splitRoot_eq_ok_iff.1 hsplit with ⟨root, hsplits, -⟩
      rcases hsplits.extended_cases with ⟨d, -, hdrive⟩ | ⟨server, share', body, -, rfl⟩
      · rcases Go.hasDriveRoot_iff.1 hdrive with ⟨d', rest, -, rfl⟩
        exact absurd (by simp) hshare
      · exact absurd (by simp [lit]) hshare

/-- With the final separator only a bare drive has an extended form. -/
theorem splitRoot_question_slash {share : List α} (hshare : chr '/' ∉ share) :
    (∃ d, isLetter d = true ∧ share = [d, chr ':']) ∨
      Invalid (Go.splitRoot (lit "//?/" ++ (share ++ lit "/"))) := by
  cases hsplit : Go.splitRoot (lit "//?/" ++ (share ++ lit "/")) with
  | error err =>
      exact Or.inr ⟨err, rfl, code_of_extended hsplit⟩
  | ok split =>
      left
      rcases splitRoot_eq_ok_iff.1 hsplit with ⟨root, hsplits, -⟩
      rcases hsplits.extended_cases with ⟨d, -, hdrive⟩ | ⟨server, share', body, rfl, hbody⟩
      · rcases Go.hasDriveRoot_iff.1 hdrive with ⟨d', rest, hd, hvalue⟩
        match share with
        | [] => simp [lit] at hvalue
        | [a] => simp [lit] at hvalue
        | [a, b] =>
            simp only [lit, List.cons_append, List.cons.injEq] at hvalue
            exact ⟨d', hd, by rw [hvalue.1, hvalue.2.1]⟩
        | a :: b :: c :: more =>
            simp only [List.cons_append, List.cons.injEq] at hvalue
            exact absurd (by simp [hvalue.2.2.1]) hshare
      · -- the share would be `UNC`, with no server behind it
        have hcut : cut (chr '/') (share ++ chr '/' :: []) = cut (chr '/') (lit "UNC" ++ chr '/' :: body) :=
          congrArg (cut (chr '/')) hbody
        rw [cut_eq_some_iff.2 ⟨rfl, hshare⟩, cut_eq_some_iff.2 ⟨rfl, by simp [lit]⟩] at hcut
        have hnil : [] = body := congrArg Prod.snd (Option.some.inj hcut)
        rcases hsplits.exists_eq_append with ⟨tail, htail, -⟩
        rw [hbody, ← hnil] at htail
        simp [Root.text, lit] at htail

/-! ## The separator branch -/

/-- The target profiles that accept a drive root. -/
def allowsDrive : Option TargetProfile → Bool
  | none => true
  | some .portable => true
  | some .win32Drive => true
  | some .posix => false
  | some (.other _) => false

/-- The common end parses its value first, so a root already parsed changes nothing. -/
theorem splitRoot_bind_checkAndClean (value : List α) (opts : Go.Options α) :
    (Go.splitRoot value >>= fun _ => Go.checkAndClean value opts) = Go.checkAndClean value opts := by
  cases hsplit : Go.splitRoot value with
  | ok split =>
      rfl
  | error err =>
      rw [error_bind, Go.checkAndClean, hsplit, error_bind]

/-- A bare extended drive passes every check except the target profile. -/
theorem checkAndClean_bareDrive {d : α} (options : TS.NormalizeOptions α) (hd : isLetter d = true) :
    if allowsDrive options.targetProfile then
      Go.checkAndClean (lit "//?/" ++ [d, chr ':', chr '/']) (goOptions options) =
        .ok (lit "//?/" ++ [lower d, chr ':', chr '/'])
    else
      Invalid (Go.checkAndClean (lit "//?/" ++ [d, chr ':', chr '/']) (goOptions options)) := by
  have hsplits : Splits (lit "//?/" ++ [d, chr ':', chr '/']) (.extendedDrive d) [] :=
    Splits.extendedDrive hd (by simp)
  have hlower : isLetter (lower d) = true := by
    rwa [isLetter_lower]
  -- the target profile looks at the folded root
  have hfolded : Splits (lit "//?/" ++ [lower d, chr ':', chr '/']) (.extendedDrive (lower d)) [] :=
    Splits.extendedDrive hlower (by simp)
  have hnul : nul ∉ lit "//?/" ++ [d, chr ':', chr '/'] := by
    have hne := Go.ne_nul_of_isLetter hd
    simp [lit, Ne.symm hne]
  have hpolicy (opts : Go.WindowsOptions) :
      Go.validateWindowsComponents (lit "//?/" ++ [d, chr ':', chr '/']) opts = .ok () := by
    rw [Go.validateWindowsComponents, hasWindowsADS_of_splits hsplits,
      hasReservedDeviceName_of_splits hsplits]
    simp [Go.isReservedDevicePart]
  have hserialize : Go.serialize (lit "//?/" ++ [lower d, chr ':', chr '/']) [] =
      lit "//?/" ++ [lower d, chr ':', chr '/'] := by
    simp [Go.serialize, lit]
  have hclean : Go.cleanCanonical (lit "//?/" ++ [d, chr ':', chr '/']) =
      .ok (lit "//?/" ++ [lower d, chr ':', chr '/']) := by
    rw [cleanCanonical_of_splits (by simp [lit]) hnul hsplits]
    exact congrArg Except.ok hserialize
  have hprofile := validateTargetProfile_of_splits hfolded options.targetProfile
  have hallows : accepts options.targetProfile (Root.extendedDrive (lower d)) =
      allowsDrive options.targetProfile := by
    rcases options.targetProfile with _ | profile
    · rfl
    · cases profile <;> rfl
  have htarget : (goOptions options).targetProfile = options.targetProfile := rfl
  rw [hallows] at hprofile
  rw [Go.checkAndClean, splitRoot_of_splits hsplits, ok_bind, hpolicy, ok_bind, hclean, ok_bind, htarget]
  split_ifs at hprofile ⊢
  · rw [hprofile, ok_bind]
  · rcases hprofile with ⟨err, herr, hcode⟩
    rw [herr]
    exact ⟨err, rfl, hcode⟩

theorem invalid_checkAndClean {value : List α} {opts : Go.Options α}
    (h : Invalid (Go.splitRoot value)) : Invalid (Go.checkAndClean value opts) := by
  rcases h with ⟨err, herr, hcode⟩
  rw [Go.checkAndClean, herr, error_bind]
  exact ⟨err, rfl, hcode⟩

/-- What Go rejects as malformed, TypeScript rejects as malformed. -/
theorem Invalid.agrees {γ δ : Type} {R : γ → δ → Prop} {x : Except PathError γ}
    {y : Except PathError δ} (hx : Invalid x) (h : Agrees R x y) : Invalid y := by
  rcases hx with ⟨err, rfl, hcode⟩
  cases h with
  | error hsame =>
      exact ⟨_, rfl, Eq.trans (Eq.symm hsame) hcode⟩

/-- A cut share and a rebuilt share come to the same result, but for a doubled drive. -/
theorem unwrapUNC_agrees {server share tail rest : List α} (options : TS.NormalizeOptions α)
    (hserver : IsName server) (hshare : IsName share) (htail : Remainder tail rest)
    (hclean : chr '\\' ∉ server ++ share ++ rest) (hnul : nul ∉ server ++ share ++ rest)
    (h : ¬(allowsDrive options.targetProfile = true ∧
      DoubledDrive (lit "//?/UNC/" ++ (server ++ lit "/" ++ share ++ tail)))) :
    Agrees Eq
      (Go.checkAndClean (lit "//" ++ (server ++ lit "/" ++ share ++ tail)) (goOptions options))
      (TS.checkAndClean
        (lit "//" ++ (server ++ lit "/" ++ share) ++ if rest = [] then [] else lit "/" ++ rest)
        options) := by
  have hnames : nul ∉ lit "//" ++ (server ++ lit "/" ++ share) := by
    simp only [List.mem_append, not_or] at hnul
    simp [lit, hnul.1.1, hnul.1.2]
  cases htail with
  | bare =>
      -- nothing behind the share: the cut and the rebuilt value are the same
      rw [if_pos rfl, List.append_nil, List.append_nil]
      exact checkAndClean_agrees options hnames
  | slash =>
      have hslash : nul ∉ lit "//" ++ (server ++ lit "/" ++ share ++ chr '/' :: rest) := by
        simp only [List.mem_append, not_or] at hnul
        simp [lit, hnul.1.1, hnul.1.2, hnul.2]
      by_cases hrest : rest = []
      · subst hrest
        rw [if_pos rfl, List.append_nil]
        have hrebuilt := checkAndClean_agrees options hnames
        by_cases hquestion : server = lit "?"
        · -- the cut value and the rebuilt one start with an extended prefix
          subst hquestion
          have hcut : lit "//" ++ (lit "?" ++ lit "/" ++ share ++ [chr '/']) =
              lit "//?/" ++ (share ++ lit "/") := by
            simp [lit]
          have hbuilt : lit "//" ++ (lit "?" ++ lit "/" ++ share) = lit "//?/" ++ share := by
            simp [lit]
          rw [hcut]
          rw [hbuilt] at hrebuilt ⊢
          have hts : Invalid (TS.checkAndClean (lit "//?/" ++ share) options) :=
            Invalid.agrees (invalid_checkAndClean (splitRoot_question hshare.slash_not_mem)) hrebuilt
          rcases splitRoot_question_slash hshare.slash_not_mem with ⟨d, hd, rfl⟩ | hgo
          · have hbare := checkAndClean_bareDrive options hd
            rw [if_neg fun hallows => h ⟨hallows, d, hd, by simp [lit]⟩] at hbare
            exact agrees_of_invalid hbare hts
          · exact agrees_of_invalid (invalid_checkAndClean hgo) hts
        · -- an ordinary share: the final separator is no component
          have hsplits := Splits.unc hserver hshare hquestion (Remainder.slash []) hclean
          have hbare := Splits.unc hserver hshare hquestion Remainder.bare hclean
          rw [List.append_nil] at hbare
          rw [checkAndClean_congr (by simp [lit]) (by simp [lit]) hslash hnames hsplits hbare rfl rfl
            Iff.rfl rfl]
          exact hrebuilt
      · have hsame : lit "//" ++ (server ++ lit "/" ++ share) ++ (lit "/" ++ rest) =
            lit "//" ++ (server ++ lit "/" ++ share ++ chr '/' :: rest) := by
          simp [lit]
        rw [if_neg hrest, hsame]
        exact checkAndClean_agrees options hslash

/-- A cut drive and a rebuilt drive differ in the case of their letter, which the common end folds. -/
theorem unwrapDrive_agrees {d : α} {rest : List α} (options : TS.NormalizeOptions α)
    (hd : isLetter d = true) (hclean : chr '\\' ∉ rest) (hnul : nul ∉ rest) :
    Agrees Eq (Go.checkAndClean (d :: lit ":/" ++ rest) (goOptions options))
      (TS.checkAndClean (lower d :: lit ":/" ++ rest) options) := by
  have hlower : isLetter (lower d) = true := by
    rwa [isLetter_lower]
  have hletter {a : α} (ha : isLetter a = true) : nul ∉ a :: lit ":/" ++ rest := by
    have hne := Go.ne_nul_of_isLetter ha
    simp [lit, Ne.symm hne, hnul]
  have hfold : (Root.drive d).fold = (Root.drive (lower d)).fold := by
    rw [Root.fold, Root.fold, lower_lower]
  rw [checkAndClean_congr (by simp) (by simp) (hletter hd) (hletter hlower) (Splits.drive hd hclean)
    (Splits.drive hlower hclean) hfold rfl Iff.rfl rfl]
  exact checkAndClean_agrees options (hletter hlower)

theorem stripUriDriveSlash_eq (value : List α) :
    TS.stripUriDriveSlash value = Go.stripURIDriveSlash value := by
  rw [TS.stripUriDriveSlash, Go.stripURIDriveSlash]
  simp only [isUriWindowsDrivePath_eq]

theorem stripURIDriveSlash_drive {d : α} (rest : List α) (hd : isLetter d = true) :
    Go.stripURIDriveSlash (d :: lit ":/" ++ rest) = d :: lit ":/" ++ rest :=
  stripURIDriveSlash_of_not
    (isURIWindowsDrivePath_of_hasDriveRoot (Go.hasDriveRoot_iff.2 ⟨d, rest, hd, rfl⟩))

theorem stripURIDriveSlash_unc (body : List α) :
    Go.stripURIDriveSlash (lit "//" ++ body) = lit "//" ++ body :=
  stripURIDriveSlash_of_not (isURIWindowsDrivePath_double_slash _)

/-- TypeScript rebuilds an extended drive behind its folded letter. -/
theorem unwrapWindowsExtendedPrefix_rebuilt_drive {d : α} {rest : List α}
    (hnul : nul ∉ lit "//?/" ++ (d :: lit ":/" ++ rest))
    (h : Splits (lit "//?/" ++ (d :: lit ":/" ++ rest)) (.extendedDrive d) rest) :
    TS.unwrapWindowsExtendedPrefix (lit "//?/" ++ (d :: lit ":/" ++ rest)) =
      .ok (lower d :: lit ":/" ++ rest) := by
  have hleads : TS.startsWith (lit "//?/" ++ (d :: lit ":/" ++ rest)) (lit "//?/") = true :=
    (startsWith_eq _ _).trans (Go.hasPrefix_append _ _)
  rcases exists_parsed_of_splits hnul h with ⟨root, hvalid, htext, hparsed⟩
  obtain rfl := Root.eq_extendedDrive_of_text hvalid htext
  rw [TS.unwrapWindowsExtendedPrefix, if_pos hleads, hparsed]
  rfl

/-- TypeScript rebuilds an extended share, without a separator when nothing is behind it. -/
theorem unwrapWindowsExtendedPrefix_rebuilt_unc {server share tail rest : List α}
    (hnul : nul ∉ lit "//?/UNC/" ++ (server ++ lit "/" ++ share ++ tail))
    (h : Splits (lit "//?/UNC/" ++ (server ++ lit "/" ++ share ++ tail)) (.extendedUNC server share)
      rest) :
    TS.unwrapWindowsExtendedPrefix (lit "//?/UNC/" ++ (server ++ lit "/" ++ share ++ tail)) =
      .ok (lit "//" ++ (server ++ lit "/" ++ share) ++ if rest = [] then [] else lit "/" ++ rest) := by
  have hleads : TS.startsWith (lit "//?/UNC/" ++ (server ++ lit "/" ++ share ++ tail)) (lit "//?/") =
      true :=
    (startsWith_eq _ _).trans (hasPrefix_extendedUNC (Go.hasPrefix_append _ _))
  rcases exists_parsed_of_splits hnul h with ⟨root, hvalid, htext, hparsed⟩
  have hnames : lit "//?/UNC/" ++ (server ++ lit "/" ++ share) = root.text := by
    rw [← htext]
    simp [Root.text]
  rcases Root.eq_extendedUNC_of_text hvalid hnames with ⟨server', share', rfl, -⟩
  have hbuilt : (Root.extendedUNC server' share').text.drop 8 = server ++ lit "/" ++ share := by
    rw [← hnames]
    rfl
  rw [TS.unwrapWindowsExtendedPrefix, if_pos hleads, hparsed, ← hbuilt]
  rfl

/-- The two ways to unwrap an extended root. -/
theorem unwrap_agrees {tail : List α} (options : TS.NormalizeOptions α)
    (hnul : nul ∉ lit "//?/" ++ tail)
    (h : ¬(allowsDrive options.targetProfile = true ∧ DoubledDrive (lit "//?/" ++ tail))) :
    Agrees Eq
      (Go.splitRoot (lit "//?/" ++ tail) >>= fun _ =>
        Go.checkAndClean
          (Go.stripURIDriveSlash (Go.unwrapWindowsExtendedPrefix (lit "//?/" ++ tail)))
          (goOptions options))
      (TS.unwrapWindowsExtendedPrefix (lit "//?/" ++ tail) >>= fun unwrapped =>
        TS.checkAndClean (TS.stripUriDriveSlash unwrapped) options) := by
  cases hgo : Go.splitRoot (lit "//?/" ++ tail) with
  | error err =>
      have hleads : TS.startsWith (lit "//?/" ++ tail) (lit "//?/") = true :=
        (startsWith_eq _ _).trans (Go.hasPrefix_append _ _)
      have hagrees := splitRoot_agrees hnul
      rw [hgo] at hagrees
      rcases rel_error_left_iff.1 hagrees with ⟨err', hts, hcode⟩
      rw [TS.unwrapWindowsExtendedPrefix, if_pos hleads, hts, error_bind]
      exact Rel.error hcode
  | ok split =>
      rcases splitRoot_eq_ok_iff.1 hgo with ⟨root, hsplits, -⟩
      rw [ok_bind]
      simp only [stripUriDriveSlash_eq]
      -- an extended root is a drive or a share, and each is rebuilt in its own way
      rcases hsplits.extended_inv with ⟨d, rfl, rfl, hd, hclean⟩ |
        ⟨server, share, tail', rfl, rfl, hserver, hshare, htail, hclean⟩
      · have hlower : isLetter (lower d) = true := by
          rwa [isLetter_lower]
        have hrest : nul ∉ split.2 := by
          simp only [List.mem_append, List.cons_append, List.mem_cons, not_or] at hnul
          exact hnul.2.2.2
        have hcut : Go.unwrapWindowsExtendedPrefix (lit "//?/" ++ (d :: lit ":/" ++ split.2)) =
            d :: lit ":/" ++ split.2 :=
          unwrapWindowsExtendedPrefix_drive (Go.hasDriveRoot_iff.2 ⟨d, split.2, hd, rfl⟩)
        rw [unwrapWindowsExtendedPrefix_rebuilt_drive hnul hsplits, hcut, ok_bind,
          stripURIDriveSlash_drive split.2 hd, stripURIDriveSlash_drive split.2 hlower]
        exact unwrapDrive_agrees options hd hclean hrest
      · have hunc : lit "//?/" ++ (lit "UNC/" ++ (server ++ lit "/" ++ share ++ tail')) =
            lit "//?/UNC/" ++ (server ++ lit "/" ++ share ++ tail') := rfl
        have hrest : nul ∉ server ++ share ++ split.2 := htail.not_mem_body (lit "//?/UNC/") hnul
        rw [hunc] at hnul hsplits h ⊢
        rw [unwrapWindowsExtendedPrefix_rebuilt_unc hnul hsplits, unwrapWindowsExtendedPrefix_unc, ok_bind,
          stripURIDriveSlash_unc, List.append_assoc (lit "//"), stripURIDriveSlash_unc,
          ← List.append_assoc (lit "//")]
        exact unwrapUNC_agrees options hserver hshare htail hclean hrest h

/-- The separator branch agrees, but for a doubled drive that is unwrapped. -/
theorem separators_agree {raw : List α} (options : TS.NormalizeOptions α) (hnul : nul ∉ raw)
    (h : ¬(options.preserveExtendedLength = false ∧ allowsDrive options.targetProfile = true ∧
      DoubledDrive (Go.toSlashes raw))) :
    Agrees Eq
      (Go.rewriteSeparators raw (goOptions options).windows >>=
        fun value => Go.checkAndClean value (goOptions options))
      (TS.rewriteSeparators raw options >>= fun value => TS.checkAndClean value options) := by
  have hslashes : chr '\\' ∉ Go.toSlashes raw := backslash_not_mem_toSlashes raw
  have hnuls : nul ∉ Go.toSlashes raw := nul_not_mem_toSlashes hnul
  have hreplace : replaceAll '\\' '/' raw = Go.toSlashes raw := rfl
  have hpreserve : (goOptions options).windows.preserveExtendedLength = options.preserveExtendedLength :=
    rfl
  rw [Go.rewriteSeparators, TS.rewriteSeparators, hreplace, hpreserve]
  generalize Go.toSlashes raw = value at h hslashes hnuls
  by_cases hextended : Go.hasPrefix value (lit "//?/") = true
  · rw [if_pos hextended]
    rcases Go.hasPrefix_iff.1 hextended with ⟨tail, rfl⟩
    have hkeep : Go.stripURIDriveSlash (lit "//?/" ++ tail) = lit "//?/" ++ tail :=
      stripURIDriveSlash_of_not (isURIWindowsDrivePath_double_slash _)
    cases hcase : options.preserveExtendedLength with
    | true =>
        -- preserved: only Go parses the root here, and the common end parses it again
        simp only [if_true, stripUriDriveSlash_eq, hkeep, ok_bind, bind_assoc, splitRoot_bind_checkAndClean]
        exact checkAndClean_agrees options hnuls
    | false =>
        simp only [Bool.false_eq_true, if_false, bind_assoc, ok_bind]
        exact unwrap_agrees options hnuls fun hdoubled => h ⟨hcase, hdoubled⟩
  · have hunwrap : TS.unwrapWindowsExtendedPrefix value = .ok value := by
      rw [TS.unwrapWindowsExtendedPrefix, startsWith_eq, if_neg hextended]
    have hstrip : nul ∉ Go.stripURIDriveSlash value := by
      rw [Go.stripURIDriveSlash]
      split_ifs
      · exact fun hmem => hnuls (List.mem_of_mem_drop hmem)
      · exact hnuls
    rw [if_neg hextended, hunwrap, unwrapWindowsExtendedPrefix_of_not (by simpa using hextended)]
    cases options.preserveExtendedLength with
    | true =>
        simp only [if_true, stripUriDriveSlash_eq, ok_bind]
        exact checkAndClean_agrees options hstrip
    | false =>
        simp only [Bool.false_eq_true, if_false, stripUriDriveSlash_eq, ok_bind]
        exact checkAndClean_agrees options hstrip

/-- An unwrapped doubled drive is an extended drive for Go and no root for TypeScript. -/
theorem separators_diverge {raw : List α} (options : TS.NormalizeOptions α)
    (hpreserve : options.preserveExtendedLength = false)
    (hprofile : allowsDrive options.targetProfile = true) (h : DoubledDrive (Go.toSlashes raw)) :
    ¬Agrees Eq
      (Go.rewriteSeparators raw (goOptions options).windows >>=
        fun value => Go.checkAndClean value (goOptions options))
      (TS.rewriteSeparators raw options >>= fun value => TS.checkAndClean value options) := by
  rcases h with ⟨d, hd, hraw⟩
  have hslash := Go.ne_slash_of_isLetter hd
  have hdot := ne_chr_of_isLetter hd (c := '.') (by decide) (by decide)
  have hbackslash := Go.ne_backslash_of_isLetter hd
  have hzero := Go.ne_nul_of_isLetter hd
  have hname : IsName [d, chr ':'] :=
    ⟨by simp, by simp [lit], by simp [lit, hdot], by simp [Ne.symm hslash]⟩
  have hclean : chr '\\' ∉ lit "?" ++ [d, chr ':'] ++ [] := by
    simp [lit, Ne.symm hbackslash]
  -- the value is an extended share of the server `?`, whose share is the drive
  have hsplits := Splits.extendedUNC isName_question hname (Remainder.slash []) hclean
  have hnul : nul ∉ lit "//?/UNC/" ++ (lit "?" ++ lit "/" ++ [d, chr ':'] ++ [chr '/']) := by
    simp [lit, Ne.symm hzero]
  have hvalue : Go.toSlashes raw =
      lit "//?/UNC/" ++ (lit "?" ++ lit "/" ++ [d, chr ':'] ++ [chr '/']) := hraw
  -- Go cuts the prefix and keeps the final separator
  have hgo : Go.rewriteSeparators raw (goOptions options).windows =
      .ok (lit "//?/" ++ [d, chr ':', chr '/']) := by
    rw [rewriteSeparators_eq_ok_iff, hvalue]
    exact Rewrites.extendedUNC hpreserve hsplits
  -- TypeScript rebuilds the root without it
  have hts : TS.rewriteSeparators raw options = .ok (lit "//?/" ++ [d, chr ':']) := by
    have hreplace : replaceAll '\\' '/' raw = Go.toSlashes raw := rfl
    rw [TS.rewriteSeparators, hreplace, hvalue, hpreserve,
      if_neg (by simp), unwrapWindowsExtendedPrefix_rebuilt_unc hnul hsplits, ok_bind]
    exact congrArg Except.ok ((stripUriDriveSlash_eq _).trans (stripURIDriveSlash_unc _))
  have hrebuilt : Invalid (TS.checkAndClean (lit "//?/" ++ [d, chr ':']) options) := by
    refine Invalid.agrees (invalid_checkAndClean (splitRoot_question hname.slash_not_mem))
      (checkAndClean_agrees options ?_)
    simp [lit, Ne.symm hzero]
  have hbare := checkAndClean_bareDrive options hd
  rw [if_pos hprofile] at hbare
  rcases hrebuilt with ⟨err, herr, -⟩
  rw [hgo, hts, ok_bind, ok_bind, hbare, herr]
  exact not_rel_ok_error

/-! ## Raw runs -/

/-- The one kind of raw input on which the ports differ: a doubled drive that reaches the separator
branch, is unwrapped there and passes the checks around it. -/
structure Diverges (raw : List α) (options : TS.NormalizeOptions α) : Prop where
  drive : DoubledDrive (Go.toSlashes raw)
  separators : ¬(TS.wslEnabled options.wsl = true ∧ Go.isPOSIXMountCandidate raw = true)
  unwraps : options.preserveExtendedLength = false
  profile : allowsDrive options.targetProfile = true
  mount_nul : nul ∉ (TS.wslMountRoot options.wsl).getD []
  mount_root :
    Go.isPOSIXMountCandidate (Go.defaultMountRoot ((TS.wslMountRoot options.wsl).getD [])) = true

theorem hasUriScheme_of_none {raw : List α} (h : before (lit "://") raw = none) :
    Go.hasURIScheme raw = false ∧ TS.hasUriScheme raw = false := by
  rw [Go.hasURIScheme, TS.hasUriScheme, h]
  exact ⟨rfl, rfl⟩

/-- On raw input without `://` the ports agree exactly when they do not diverge. -/
theorem normalizeWith_raw_agrees_iff {raw : List α} (options : TS.NormalizeOptions α)
    (parseUri : Option TS.UriOptions → List α → Except PathError (List α))
    (hhost : HostKind.IsRaw options.sourceHost) (hscheme : before (lit "://") raw = none) :
    Agrees Eq (Go.normalizeWith Go.plainPath raw (goOptions options))
        (TS.normalizeWith parseUri raw options) ↔
      ¬Diverges raw options := by
  rcases hasUriScheme_of_none hscheme with ⟨huriGo, huriTS⟩
  have hwslGo : (goOptions options).wsl.enabled = TS.wslEnabled options.wsl := rfl
  -- without a scheme both ports choose between the same two branches
  have hgo (mountRoot : List α) :
      Go.interpretHost Go.plainPath raw ((goOptions options).withMountRoot mountRoot) =
        if TS.wslEnabled options.wsl && Go.isPOSIXMountCandidate raw then
          Go.normalizeWSLCandidate raw ((goOptions options).withMountRoot mountRoot)
        else
          Go.rewriteSeparators raw (goOptions options).windows := by
    have hhost' : HostKind.IsRaw ((goOptions options).withMountRoot mountRoot).sourceHost := hhost
    exact interpretHost_of_not_scheme hhost' (Go.uriPath_plainPath raw _) huriGo
  have hts : TS.interpretHost parseUri raw options =
      if TS.wslEnabled options.wsl && Go.isPOSIXMountCandidate raw then
        TS.normalizeMountCandidate raw options
      else
        TS.rewriteSeparators raw options := by
    rw [TS.interpretHost, if_neg hhost.1, if_pos hhost.2, TS.normalizeRaw, TS.uriPath,
      if_neg (by simp [huriTS]), ok_bind, TS.posixMountCandidate, huriTS, Bool.false_and, Bool.not_false,
      Bool.and_true, Bool.and_assoc]
    rfl
  constructor
  · intro hagrees hdiverges
    have hne : raw ≠ [] := by
      rintro rfl
      rcases hdiverges.drive with ⟨d, -, hnil⟩
      exact absurd hnil (by simp [Go.toSlashes, replaceAll, lit])
    have hnul : nul ∉ raw := nul_not_mem_of_doubledDrive hdiverges.drive
    -- the two conditions on the mount root say that the boundary check passes
    have hmount : Go.normalizeMountRoot (goOptions options).wsl.mountRoot = .ok _ :=
      normalizeMountRoot_eq_ok_iff.2 ⟨hdiverges.mount_nul, hdiverges.mount_root, rfl⟩
    have hmode : ¬((goOptions options).sourceHost = some .posix ∧ (goOptions options).wsl.enabled = true) :=
      fun h => hhost.1 h.1
    have hchecked := checkMountRoot_agrees options
    rw [hmount] at hchecked
    rcases rel_ok_left_iff.1 hchecked with ⟨_, hcheck, -⟩
    have hbranch : ¬(TS.wslEnabled options.wsl && Go.isPOSIXMountCandidate raw) = true := by
      simpa using hdiverges.separators
    rw [normalizeWith_eq hne hnul hmount hmode, hgo, TS.normalizeWith, if_neg hne, if_neg hnul, hcheck,
      ok_bind, hts, if_neg hbranch, if_neg hbranch] at hagrees
    exact separators_diverge options hdiverges.unwraps hdiverges.profile hdiverges.drive hagrees
  · intro hnot
    refine normalizeWith_agrees options parseUri fun mountRoot hne hnul hmount _ => ?_
    rw [hgo, hts]
    by_cases hcandidate : (TS.wslEnabled options.wsl && Go.isPOSIXMountCandidate raw) = true
    · rw [if_pos hcandidate, if_pos hcandidate]
      rw [Bool.and_eq_true] at hcandidate
      exact mountCandidate_agrees options hnul hcandidate.2 hcandidate.1 hmount
    · rw [if_neg hcandidate, if_neg hcandidate]
      refine separators_agree options hnul fun h => hnot ?_
      rcases normalizeMountRoot_eq_ok_iff.1 hmount with ⟨hmountnul, hmountroot, -⟩
      exact ⟨h.2.2, by simpa using hcandidate, h.1, h.2.1, hmountnul, hmountroot⟩

/-! ## Across the spellings -/

section Spellings

variable {β : Type} [DecidableEq β] [CodeUnit β] (e : Encoding α β)

theorem doubledDrive_encode_iff {value : List α} :
    DoubledDrive (e.encode value) ↔ DoubledDrive value := by
  constructor
  · rintro ⟨d, hd, hvalue⟩
    have hleads : Go.hasPrefix value (lit "//?/UNC/?/") = true := by
      rw [← Go.hasPrefix_encode e (by decide), hvalue]
      exact Go.hasPrefix_append _ _
    rcases Go.hasPrefix_iff.1 hleads with ⟨tail, rfl⟩
    rw [Encoding.encode_append, e.encode_lit (by decide), List.append_right_inj] at hvalue
    -- the letter is ASCII, so a spelled drive spells a drive
    have hdrive : Go.hasDriveRoot tail = true := by
      rw [← Go.hasDriveRoot_encode e, hvalue]
      exact Go.hasDriveRoot_iff.2 ⟨d, [], hd, rfl⟩
    rcases Go.hasDriveRoot_iff.1 hdrive with ⟨d', rest, hd', rfl⟩
    rcases e.exists_enc_letter hd' with ⟨b, hb, -, -⟩
    have hrest : d = b ∧ rest = [] := by
      simpa [lit, hb, e.encode_chr_cons (c := ':') (by decide), e.encode_chr_cons (c := '/') (by decide),
        eq_comm (a := b)] using hvalue
    rcases hrest with ⟨-, hrest⟩
    subst hrest
    exact ⟨d', hd', rfl⟩
  · rintro ⟨d, hd, rfl⟩
    rcases e.exists_enc_letter hd with ⟨b, hb, hletter, -⟩
    refine ⟨b, hletter, ?_⟩
    rw [Encoding.encode_append, e.encode_lit (by decide), Encoding.encode_cons, hb,
      e.encode_chr_cons (by decide), e.encode_chr_cons (by decide)]
    rfl

/-- The condition speaks about the text, not about its units. -/
theorem diverges_encode_iff {raw : List α} {options : TS.NormalizeOptions α} :
    Diverges (e.encode raw) (encodeOptions e options) ↔ Diverges raw options := by
  have hwsl : TS.wslEnabled (encodeOptions e options).wsl = TS.wslEnabled options.wsl := by
    rcases options with ⟨host, profile, wsl, uri, windows, trim⟩
    cases wsl <;> rfl
  have hmount : (TS.wslMountRoot (encodeOptions e options).wsl).getD [] =
      e.encode ((TS.wslMountRoot options.wsl).getD []) :=
    congrArg (fun opts : Go.Options β => opts.wsl.mountRoot) (goOptions_encodeOptions e options)
  have hdrive : DoubledDrive (Go.toSlashes (e.encode raw)) ↔ DoubledDrive (Go.toSlashes raw) := by
    rw [Go.toSlashes_encode, doubledDrive_encode_iff]
  have hcandidate := Go.isPOSIXMountCandidate_encode e
  have hnul : nul ∈ e.encode ((TS.wslMountRoot options.wsl).getD []) ↔
      nul ∈ (TS.wslMountRoot options.wsl).getD [] := e.chr_mem_encode_iff (by decide)
  constructor
  · rintro ⟨h, hseparators, hunwraps, hprofile, hmountnul, hmountroot⟩
    rw [hwsl, hcandidate] at hseparators
    rw [hmount, hnul] at hmountnul
    rw [hmount, Go.defaultMountRoot_encode, hcandidate] at hmountroot
    exact ⟨hdrive.1 h, hseparators, hunwraps, hprofile, hmountnul, hmountroot⟩
  · rintro ⟨h, hseparators, hunwraps, hprofile, hmountnul, hmountroot⟩
    refine ⟨hdrive.2 h, ?_, hunwraps, hprofile, ?_, ?_⟩
    · rwa [hwsl, hcandidate]
    · rwa [hmount, hnul]
    · rwa [hmount, Go.defaultMountRoot_encode, hcandidate]

end Spellings

/-- A spelling of a text without `://` has no scheme. -/
theorem before_encode {γ : Type} [DecidableEq γ] [CodeUnit γ] (e : Encoding Char γ) {text : List Char}
    (htext : ¬"://".toList <:+: text) : before (lit "://") (e.encode text) = none := by
  have hbefore : before (lit "://") text = none := before_eq_none htext
  rw [e.encode_before (by decide) (by decide), hbefore]
  rfl

/-- The Go program on a text without `://` does not ask its URI parser. -/
theorem normalize_eq_plainPath {text : List Char} (htext : ¬"://".toList <:+: text)
    {opts : Go.Options UInt8} (htrim : opts.trimOuterWhitespace = false) :
    Go.normalize (utf8.encode text) opts = Go.normalizeWith Go.plainPath (utf8.encode text) opts := by
  rw [normalize_of_noTrim htrim]
  exact Go.normalizeWith_eq_plainPath fun hnul _ =>
    uriPath_of_not_scheme hnul (hasUriScheme_of_none (before_encode utf8 htext)).1

/-- On raw input without `://` the two ports return the same path or fail with the same code, for every
setting of the options, exactly when no doubled drive is unwrapped. -/
theorem normalize_raw_agrees_iff (text : List Char) (options : TS.NormalizeOptions Char)
    (hhost : HostKind.IsRaw options.sourceHost) (htext : ¬"://".toList <:+: text)
    (htrim : options.trims = false) :
    Agrees SameText (Go.normalize (utf8.encode text) ((goOptions options).encode utf8))
        (TS.normalize (utf16.encode text) (encodeOptions utf16 options)) ↔
      ¬Diverges text options := by
  have hts : TS.normalize (utf16.encode text) (encodeOptions utf16 options) =
      TS.normalizeWith TS.parseFileUri (utf16.encode text) (encodeOptions utf16 options) := by
    have htrim' : (encodeOptions utf16 options).trims = false := htrim
    rw [TS.normalize, htrim']
    rfl
  have hhost' : HostKind.IsRaw (encodeOptions utf16 options).sourceHost := hhost
  have hgo : ((goOptions options).encode utf8).trimOuterWhitespace = false := htrim
  rw [normalize_eq_plainPath htext hgo, hts, spellings_agree_iff,
    normalizeWith_raw_agrees_iff _ _ hhost' (before_encode utf16 htext), diverges_encode_iff]

/-- An unwrapped share beyond ASCII, below a server other than `?`. -/
theorem normalize_raw_agrees_share :
    Agrees SameText (Go.normalize (utf8.encode ("//?/UNC/".toList ++ ['é', '/', '𝄞', '/'])) {})
      (TS.normalize (utf16.encode ("//?/UNC/".toList ++ ['é', '/', '𝄞', '/'])) {}) := by
  have hdrive : ¬DoubledDrive (Go.toSlashes ("//?/UNC/".toList ++ ['é', '/', '𝄞', '/'])) := by
    rintro ⟨d, -, hvalue⟩
    have hserver := congrArg (fun value : List Char => value[8]?) hvalue
    simp [Go.toSlashes, replaceAll, lit, chr_char] at hserver
  have hiff := normalize_raw_agrees_iff ("//?/UNC/".toList ++ ['é', '/', '𝄞', '/']) {}
    ⟨by decide, by decide⟩ (by decide +kernel) rfl
  exact hiff.2 fun h => hdrive h.drive

/-- The share `c:` of the server `?`, bare and with a separator behind it. -/
theorem normalize_raw_not_agrees :
    ¬Agrees SameText (Go.normalize (utf8.encode "//?/UNC/?/c:/".toList) {})
      (TS.normalize (utf16.encode "//?/UNC/?/c:/".toList) {}) := by
  have hgo : Go.normalize (lit "//?/UNC/?/c:/") {} = .ok (lit "//?/c:/") := by
    decide
  have hts : TS.normalize (lit "//?/UNC/?/c:/") {} =
      newError .invalidPath "unsupported or malformed extended root" := by
    decide
  rw [← lit_char, utf8.encode_lit (by decide), utf16.encode_lit (by decide), hgo, hts]
  exact not_rel_ok_error

end Ports

end CanonicalPath
