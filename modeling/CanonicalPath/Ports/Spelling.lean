import CanonicalPath.Go.Relative
import CanonicalPath.Identity.Native
import CanonicalPath.Library.Encoding

/-!
# Spelling — the Go grammar does not depend on the code unit

Every function of the Go port commutes with an `Encoding` of its strings: a string and its spelling
in other units are split, cleaned and mapped alike, and fail with the same error.  So the Go
program on bytes and the same program on UTF-16 units compute two spellings of one result, which is
what a port in a UTF-16 language has to be compared with.
-/

namespace CanonicalPath

namespace Go

open CodeUnit Segments Outcome

variable {α β : Type} [DecidableEq α] [CodeUnit α] [DecidableEq β] [CodeUnit β]
variable (e : Encoding α β)

/-! ## String tests -/

theorem hasPrefix_encode {p : String} (hp : IsAscii p) (value : List α) :
    hasPrefix (e.encode value) (lit p) = hasPrefix value (lit p) :=
  e.isPrefixOf_lit_encode hp

theorem hasPrefix_encode_encode (value leader : List α) :
    hasPrefix (e.encode value) (e.encode leader) = hasPrefix value leader := by
  rw [Bool.eq_iff_iff, hasPrefix, hasPrefix, List.isPrefixOf_iff_prefix,
    List.isPrefixOf_iff_prefix, e.encode_prefix_iff]

theorem hasSuffix_encode (value : List α) :
    hasSuffix (e.encode value) (lit "/") = hasSuffix value (lit "/") := by
  rw [Bool.eq_iff_iff, hasSuffix_slash_iff, hasSuffix_slash_iff]
  rcases List.eq_nil_or_concat value with rfl | ⟨front, a, rfl⟩
  · simp
  · rw [List.concat_eq_append, e.exists_encode_concat_iff (by decide)]
    simp

theorem isLetterCode_nonAscii : ∀ n, 128 ≤ n → isLetterCode n = false := by
  intro n hn
  simp only [isLetterCode, Bool.or_eq_false_iff, Bool.and_eq_false_iff, decide_eq_false_iff_not]
  omega

theorem char_nonAscii {c : Char} (hc : c.toNat < 128) :
    ∀ n, 128 ≤ n → Pattern.char c n = false := by
  intro n hn
  rw [Pattern.char, beq_eq_false_iff_ne]
  omega

theorem drivePattern_ascii : Pattern.Ascii [isLetterCode, Pattern.char ':', Pattern.char '/'] := by
  simp only [Pattern.Ascii, List.forall_mem_cons, List.not_mem_nil, false_implies, implies_true,
    and_true]
  exact ⟨isLetterCode_nonAscii, char_nonAscii (by decide), char_nonAscii (by decide)⟩

@[simp] theorem hasDriveRoot_encode (value : List α) :
    hasDriveRoot (e.encode value) = hasDriveRoot value := by
  rw [hasDriveRoot_eq, hasDriveRoot_eq, e.matches?_encode drivePattern_ascii]

@[simp] theorem needsRelativeMarker_encode (value : List α) :
    needsRelativeMarker (e.encode value) = needsRelativeMarker value := by
  rw [needsRelativeMarker_eq, needsRelativeMarker_eq, e.matches?_encode]
  simp only [Pattern.Ascii, List.forall_mem_cons, List.not_mem_nil, false_implies, implies_true,
    and_true]
  exact ⟨isLetterCode_nonAscii, char_nonAscii (by decide)⟩

@[simp] theorem isDriveRelative_encode (value : List α) :
    isDriveRelative (e.encode value) = isDriveRelative value := by
  rw [isDriveRelative_eq, isDriveRelative_eq, needsRelativeMarker_encode, hasDriveRoot_encode]

@[simp] theorem isURIWindowsDrivePath_encode (value : List α) :
    isURIWindowsDrivePath (e.encode value) = isURIWindowsDrivePath value := by
  rw [isURIWindowsDrivePath_eq, isURIWindowsDrivePath_eq, e.matches?_encode]
  simp only [Pattern.Ascii, List.forall_mem_cons, List.not_mem_nil, false_implies, implies_true,
    and_true]
  exact ⟨char_nonAscii (by decide), isLetterCode_nonAscii, char_nonAscii (by decide),
    char_nonAscii (by decide)⟩

omit [DecidableEq β] in
theorem drop_drive_encode {value : List α} (h : hasDriveRoot value = true) :
    (e.encode value).drop 3 = e.encode (value.drop 3) ∧
      (e.encode value).take 3 = e.encode (value.take 3) := by
  rw [hasDriveRoot_eq] at h
  exact ⟨e.encode_drop_of_matches? drivePattern_ascii h,
    e.encode_take_of_matches? drivePattern_ascii h⟩

omit [DecidableEq β] in
theorem drop_prefix_encode {p : String} (hp : IsAscii p) {value : List α}
    (h : hasPrefix value (lit p) = true) :
    (e.encode value).drop p.toList.length = e.encode (value.drop p.toList.length) :=
  e.encode_drop_lit hp h

/-! ## Roots -/

theorem isWindowsRoot_encode (rootPrefix : List α) :
    isWindowsRoot (e.encode rootPrefix) = isWindowsRoot rootPrefix := by
  rw [Bool.eq_iff_iff]
  simp [isWindowsRoot, bne, e.encode_eq_lit_iff (p := "/") (by decide)]

theorem splitUNCRoot_encode {leader : String} (hp : IsAscii leader)
    {value : List α} (h : hasPrefix value (lit leader) = true) :
    splitUNCRoot (e.encode value) (lit leader) =
      mapOk (Prod.map e.encode e.encode) (splitUNCRoot value (lit leader)) := by
  have hlength (γ : Type) [CodeUnit γ] : (lit leader : List γ).length = leader.toList.length := by
    simp [lit]
  have hdot (part : List α) : e.encode part = lit "." ↔ part = lit "." :=
    e.encode_eq_lit_iff (by decide)
  have hdotdot (part : List α) : e.encode part = lit ".." ↔ part = lit ".." :=
    e.encode_eq_lit_iff (by decide)
  rw [splitUNCRoot, splitUNCRoot, hlength, hlength, drop_prefix_encode e hp h,
    e.encode_splitN (by decide)]
  -- the split has no, one or at least two pieces; only the last case reads them
  rcases splitN (chr '/') 3 (value.drop leader.toList.length) with _ | ⟨server, _ | ⟨share, more⟩⟩
  · rfl
  · rfl
  · simp only [List.map_cons, Encoding.encode_eq_nil_iff, hdot, hdotdot]
    split_ifs with hbad
    · rfl
    · have hleader : e.encode (lit leader) = lit leader := e.encode_lit hp
      have hslash : e.encode (lit "/") = lit "/" := e.encode_lit (by decide)
      cases more with
      | nil =>
          simp [hleader, hslash]
      | cons rest more =>
          simp [hleader, hslash]

/-- The branches behind the extended prefix. -/
theorem splitRootSwitch_encode_extended (tail : List α) :
    splitRootSwitch (e.encode (lit "//?/" ++ tail)) =
      mapOk (Prod.map e.encode e.encode) (splitRootSwitch (lit "//?/" ++ tail)) := by
  have hvalue : e.encode (lit "//?/" ++ tail) = lit "//?/" ++ e.encode tail := by
    rw [Encoding.encode_append, e.encode_lit (by decide)]
  have hdrop {γ : Type} [CodeUnit γ] (s : List γ) : (lit "//?/" ++ s).drop 4 = s := rfl
  have hunc := hasPrefix_encode e (p := "UNC/") (by decide) tail
  have hleader : IsAscii "//?/UNC/" := by
    decide
  rw [splitRootSwitch, splitRootSwitch, hasPrefix_encode e (by decide), hasPrefix_append, hvalue,
    hdrop, hdrop, hasDriveRoot_encode, hunc]
  simp only [if_true]
  split_ifs with hdrive hextended
  · have htake {γ : Type} [CodeUnit γ] (s : List γ) :
        (lit "//?/" ++ s).take 7 = lit "//?/" ++ s.take 3 := rfl
    have hdrop7 {γ : Type} [CodeUnit γ] (s : List γ) : (lit "//?/" ++ s).drop 7 = s.drop 3 := rfl
    rw [htake, htake, hdrop7, hdrop7, (drop_drive_encode e hdrive).1, (drop_drive_encode e hdrive).2,
      mapOk_ok, Prod.map_apply, Encoding.encode_append, e.encode_lit (by decide)]
  · rw [← hvalue]
    rcases hasPrefix_iff.1 hextended with ⟨body, rfl⟩
    exact splitUNCRoot_encode e hleader (hasPrefix_iff.2 ⟨body, rfl⟩)
  · rfl

theorem splitRootSwitch_encode (value : List α) :
    splitRootSwitch (e.encode value) =
      mapOk (Prod.map e.encode e.encode) (splitRootSwitch value) := by
  -- the extended branches look behind the prefix, the others at the whole value
  by_cases hextended : hasPrefix value (lit "//?/") = true
  · rcases hasPrefix_iff.1 hextended with ⟨tail, rfl⟩
    exact splitRootSwitch_encode_extended e tail
  · have hext := hasPrefix_encode e (p := "//?/") (by decide) value
    have hdouble := hasPrefix_encode e (p := "//") (by decide) value
    have hsingle := hasPrefix_encode e (p := "/") (by decide) value
    rw [Bool.not_eq_true] at hextended
    simp only [splitRootSwitch, hext, hdouble, hsingle, hasDriveRoot_encode, isDriveRelative_encode,
      hextended, Bool.false_eq_true, if_false]
    split_ifs with hdrive hunc hposix hrelative
    · rw [(drop_drive_encode e hdrive).1, (drop_drive_encode e hdrive).2]
      rfl
    · exact splitUNCRoot_encode e (by decide) hunc
    · have hdrop : (e.encode value).drop 1 = e.encode (value.drop 1) :=
        drop_prefix_encode e (p := "/") (by decide) hposix
      rw [hdrop, mapOk_ok, Prod.map_apply, e.encode_lit (by decide)]
    · rfl
    · rfl

theorem splitRoot_encode (value : List α) :
    splitRoot (e.encode value) = mapOk (Prod.map e.encode e.encode) (splitRoot value) := by
  rw [splitRoot, splitRoot, splitRootSwitch_encode]
  refine bind_mapOk fun split => ?_
  have hmem : chr '\\' ∈ e.encode value ↔ chr '\\' ∈ value := e.chr_mem_encode_iff (by decide)
  simp only [Prod.map_fst, isWindowsRoot_encode, hmem]
  split_ifs
  · rfl
  · rfl

theorem lowercaseDrive_extended (tail : List α) :
    lowercaseDrive (lit "//?/" ++ tail) =
      lit "//?/" ++ if hasDriveRoot tail then (tail.take 1).map lower ++ tail.drop 1 else tail := by
  have hdrive : hasDriveRoot (lit "//?/" ++ tail) = false := hasDriveRoot_slash_cons
  have hdrop : (lit "//?/" ++ tail).drop 4 = tail := rfl
  rw [lowercaseDrive, hdrive, hasPrefix_append, hdrop, Bool.true_and]
  simp only [Bool.false_eq_true, if_false]
  split_ifs
  · rfl
  · rfl

theorem lowercaseDrive_encode (value : List α) :
    lowercaseDrive (e.encode value) = e.encode (lowercaseDrive value) := by
  -- a letter is one unit in both spellings, and its case is folded alike
  have hfold {tail : List α} (h : hasDriveRoot tail = true) :
      ((e.encode tail).take 1).map lower ++ (e.encode tail).drop 1 =
        e.encode ((tail.take 1).map lower ++ tail.drop 1) := by
    rcases hasDriveRoot_iff.1 h with ⟨d, rest, hd, rfl⟩
    rcases e.exists_enc_letter hd with ⟨x, hx, -, hlower⟩
    simp [hx, hlower]
  by_cases hextended : hasPrefix value (lit "//?/") = true
  · rcases hasPrefix_iff.1 hextended with ⟨tail, rfl⟩
    rw [lowercaseDrive_extended, Encoding.encode_append, Encoding.encode_append,
      e.encode_lit (by decide), lowercaseDrive_extended, hasDriveRoot_encode]
    split_ifs with hdrive
    · rw [hfold hdrive]
    · rfl
  · rw [lowercaseDrive, lowercaseDrive, hasDriveRoot_encode, hasPrefix_encode e (by decide),
      eq_false_of_ne_true hextended, Bool.false_and, Bool.false_and]
    simp only [Bool.false_eq_true, if_false]
    split_ifs with hdrive
    · exact hfold hdrive
    · rfl

/-! ## Dot cleanup -/

theorem cleanLoop_encode (absolute : Bool) (escape : PathError) (parts comps : List (List α)) :
    cleanLoop absolute escape (parts.map e.encode) (comps.map e.encode) =
      mapOk (List.map e.encode) (cleanLoop absolute escape parts comps) := by
  have hdot (part : List α) : e.encode part = lit "." ↔ part = lit "." :=
    e.encode_eq_lit_iff (by decide)
  have hdotdot (part : List α) : e.encode part = lit ".." ↔ part = lit ".." :=
    e.encode_eq_lit_iff (by decide)
  induction comps generalizing parts with
  | nil =>
      rfl
  | cons part comps ih =>
      simp only [List.map_cons, cleanLoop, Encoding.encode_eq_nil_iff, hdot, hdotdot, ne_eq,
        List.map_eq_nil_iff, ← List.map_dropLast]
      -- both loops take the same branch, since they compare with ASCII literals
      split_ifs with hstay hup hparts habs
      · exact ih parts
      · exact ih parts
      · rfl
      · exact ih parts.dropLast
      · rw [← ih, List.map_append, List.map_singleton]

theorem resolve_encode (floor : Bool) (rest : List α) :
    resolve floor (e.encode rest) = (resolve floor rest).map (List.map e.encode) := by
  have hloop := cleanLoop_encode e floor { code := .invalidPath, message := "" } []
    (rest.splitOn (chr '/'))
  rw [List.map_nil, ← e.encode_splitOn (by decide), cleanLoop_eq, cleanLoop_eq] at hloop
  rw [resolve, resolve]
  -- the loop succeeds with what the walk leaves
  cases hrun : DotStack.run floor [] ((rest.splitOn (chr '/')).map move) with
  | none =>
      rw [hrun] at hloop
      cases hrun' : DotStack.run floor [] (((e.encode rest).splitOn (chr '/')).map move) with
      | none =>
          rfl
      | some parts =>
          rw [hrun'] at hloop
          exact absurd hloop (by simp)
  | some parts =>
      rw [hrun] at hloop
      cases hrun' : DotStack.run floor [] (((e.encode rest).splitOn (chr '/')).map move) with
      | none =>
          rw [hrun'] at hloop
          exact absurd hloop (by simp)
      | some parts' =>
          rw [hrun'] at hloop
          exact congrArg some (Except.ok.inj hloop)

theorem components_encode (rest : List α) :
    components (e.encode rest) = (components rest).map e.encode := by
  have hresolve := resolve_encode e true rest
  rw [resolve_floor, resolve_floor, Option.map_some] at hresolve
  exact Option.some.inj hresolve

theorem markRelative_encode (value : List α) :
    markRelative (e.encode value) = e.encode (markRelative value) := by
  rw [markRelative, markRelative, needsRelativeMarker_encode]
  split_ifs
  · rw [Encoding.encode_append, e.encode_lit (by decide)]
  · rfl

theorem serialize_encode (rootPrefix : List α) (parts : List (List α)) :
    serialize (e.encode rootPrefix) (parts.map e.encode) = e.encode (serialize rootPrefix parts) := by
  have hdot : e.encode (lit ".") = lit "." := e.encode_lit (by decide)
  have hslash : e.encode (lit "/") = lit "/" := e.encode_lit (by decide)
  simp only [serialize, ← e.encode_joinOn (c := '/') (by decide), Encoding.encode_eq_nil_iff,
    hasSuffix_encode, markRelative_encode]
  split_ifs
  · rw [hdot]
  · rfl
  · rfl
  · rw [Encoding.encode_append]
  · rw [Encoding.encode_append, Encoding.encode_append, hslash]

theorem cleanCanonical_encode (value : List α) :
    cleanCanonical (e.encode value) = mapOk e.encode (cleanCanonical value) := by
  have hnul : nul ∈ e.encode value ↔ nul ∈ value := e.chr_mem_encode_iff (by decide)
  simp only [cleanCanonical, Encoding.encode_eq_nil_iff, hnul]
  split_ifs
  · rfl
  · rfl
  · rw [splitRoot_encode]
    refine bind_mapOk fun split => ?_
    have hroot : (lowercaseDrive (e.encode split.1) != []) = (lowercaseDrive split.1 != []) := by
      rw [lowercaseDrive_encode, Bool.eq_iff_iff]
      simp
    rw [Prod.map_fst, Prod.map_snd, hroot, e.encode_splitOn (by decide)]
    have hloop := cleanLoop_encode e (lowercaseDrive split.1 != [])
      { code := .invalidPath, message := "relative path escapes above its root" } []
      (split.2.splitOn (chr '/'))
    rw [List.map_nil] at hloop
    rw [hloop]
    refine bind_mapOk fun parts => ?_
    rw [lowercaseDrive_encode, serialize_encode]
    rfl

/-! ## Native POSIX input and WSL mounts -/

theorem prepareNativePOSIX_encode (value : List α) :
    prepareNativePOSIX (e.encode value) = mapOk e.encode (prepareNativePOSIX value) := by
  rcases exists_slashes value with ⟨k, rest, rfl, hrest⟩
  -- the leading slashes are spelled one by one, so there are as many
  have hslashes : e.encode (List.replicate k (chr '/') ++ rest) =
      List.replicate k (chr '/') ++ e.encode rest := by
    rw [Encoding.encode_append, List.append_cancel_right_eq]
    induction k with
    | zero =>
        rfl
    | succ k ih =>
        rw [List.replicate_succ, List.replicate_succ, e.encode_chr_cons (by decide), ih]
  have hhead : (e.encode rest).head? ≠ some (chr '/') := by
    rw [Ne, ← hasPrefix_slash_iff] at hrest ⊢
    rwa [hasPrefix_encode e (by decide)]
  rw [hslashes, prepareNativePOSIX_slashes k hhead, prepareNativePOSIX_slashes k hrest]
  split_ifs
  · rfl
  · rw [markRelative_encode]
    rfl
  · rw [mapOk_ok, e.encode_chr_cons (by decide)]

omit [DecidableEq α] [DecidableEq β] in
theorem defaultMountRoot_encode (value : List α) :
    defaultMountRoot (e.encode value) = e.encode (defaultMountRoot value) := by
  rw [defaultMountRoot, defaultMountRoot]
  simp only [Encoding.encode_eq_nil_iff]
  split_ifs
  · rw [e.encode_lit (by decide)]
  · rfl

theorem normalizeMountRoot_encode (value : List α) :
    normalizeMountRoot (e.encode value) = mapOk e.encode (normalizeMountRoot value) := by
  have hnul : nul ∈ e.encode value ↔ nul ∈ value := e.chr_mem_encode_iff (by decide)
  simp only [normalizeMountRoot, hnul, defaultMountRoot_encode, hasPrefix_encode e (p := "/") (by decide)]
  split_ifs
  · rfl
  · rw [cleanNativePOSIX, prepareNativePOSIX_encode, cleanNativePOSIX]
    exact bind_mapOk fun prepared => cleanCanonical_encode e prepared
  · rfl

theorem mountPrefix_encode (mountRoot : List α) :
    mountPrefix (e.encode mountRoot) = e.encode (mountPrefix mountRoot) := by
  -- the trailing slash is one unit in both spellings
  have htrim : trimSuffix (e.encode mountRoot) (lit "/") =
      e.encode (trimSuffix mountRoot (lit "/")) := by
    by_cases hslash : hasSuffix mountRoot (lit "/") = true
    · rcases hasSuffix_slash_iff.1 hslash with ⟨front, rfl⟩
      have hfront : trimSuffix (front ++ lit "/") (lit "/") = front := trimSuffix_append _ _
      have hcode : e.encode (front ++ lit "/") = e.encode front ++ lit "/" := by
        rw [Encoding.encode_append, e.encode_lit (by decide)]
      have hfront' : trimSuffix (e.encode front ++ lit "/") (lit "/") = e.encode front :=
        trimSuffix_append _ _
      have hlit : [chr '/'] = (lit "/" : List α) := rfl
      rw [hlit, hcode, hfront, hfront']
    · rw [trimSuffix, trimSuffix, if_neg hslash, if_neg (by rwa [hasSuffix_encode])]
  rw [mountPrefix, mountPrefix, htrim, Encoding.encode_append, e.encode_lit (by decide)]

theorem selectDrive_encode (value : List α) :
    selectDrive (e.encode value) = (selectDrive value).map e.encode := by
  cases value with
  | nil =>
      rfl
  | cons d value =>
      by_cases hd : isLetter d = true
      · rcases e.exists_enc_letter hd with ⟨x, hx, hletter, hlower⟩
        cases value with
        | nil =>
            simp [selectDrive, hx, hletter, hd, hlower, e.encode_lit (p := ":/") (by decide)]
        | cons slash value =>
            by_cases hslash : slash = chr '/'
            · subst hslash
              simp [selectDrive, hx, hletter, hd, hlower, e.encode_lit (p := ":/") (by decide),
                e.enc_chr (c := '/') (by decide)]
            · -- the block behind the letter does not start with a slash either
              cases henc : e.enc slash with
              | nil =>
                  exact absurd henc (e.enc_ne_nil slash)
              | cons b bs =>
                  have hb : b ≠ chr '/' := by
                    rintro rfl
                    exact hslash ((e.chr_mem_enc_iff (by decide)).1 (by simp [henc]))
                  simp [selectDrive, hx, hslash, henc, hb]
      · -- without a letter nothing is selected, whatever follows
        have hnone {γ : Type} [CodeUnit γ] [DecidableEq γ] {x : γ} (xs : List γ)
            (hletter : ¬isLetter x = true) : selectDrive (x :: xs) = none := by
          cases xs with
          | nil =>
              simp [selectDrive, hletter]
          | cons y ys =>
              simp [selectDrive, hletter]
        cases henc : e.enc d with
        | nil =>
            exact absurd henc (e.enc_ne_nil d)
        | cons b bs =>
            have hb : ¬isLetter b = true := by
              rw [isLetter, (e.test_code_enc isLetterCode_nonAscii henc).1]
              exact hd
            rw [Encoding.encode_cons, henc, List.cons_append, hnone _ hb, hnone _ hd]
            rfl

/-- The WSL options in other units. -/
@[simps] def WSLOptions.encode (opts : WSLOptions α) : WSLOptions β :=
  { enabled := opts.enabled, mountRoot := e.encode opts.mountRoot }

theorem mapWSLDrive_encode (value : List α) (opts : WSLOptions α) :
    mapWSLDrive (e.encode value) (opts.encode e) = (mapWSLDrive value opts).map e.encode := by
  simp only [mapWSLDrive, WSLOptions.encode, mountPrefix_encode, hasPrefix_encode_encode]
  split_ifs with h
  · rw [Bool.and_eq_true] at h
    rcases hasPrefix_iff.1 h.2 with ⟨tail, rfl⟩
    rw [Encoding.encode_append, List.drop_left, List.drop_left, selectDrive_encode]
  · rfl

/-! ## Windows component policies -/

/-- The four tests of a numbered port. -/
def portPattern (stem : String) : Pattern :=
  Pattern.literal stem ++ [fun n => decide ('1'.toNat ≤ n) && decide (n ≤ '9'.toNat)]

theorem portPattern_ascii {stem : String} (hstem : IsAscii stem) :
    (portPattern stem).Ascii := by
  intro test htest n hn
  rcases List.mem_append.1 htest with htest | htest
  · exact Pattern.literal_ascii hstem test htest n hn
  · rw [List.mem_singleton.1 htest, Bool.and_eq_false_iff, decide_eq_false_iff_not,
      decide_eq_false_iff_not]
    exact Or.inr (Nat.not_le.2 (Nat.lt_of_lt_of_le (by decide) hn))

theorem isReservedPort_iff {base : List α} : isReservedPort base = true ↔
    (matches? (portPattern "COM") base = true ∨ matches? (portPattern "LPT") base = true) ∧
      base.drop 4 = [] := by
  match base with
  | [] => simp [isReservedPort, portPattern, Pattern.literal]
  | [a] => simp [isReservedPort, portPattern, Pattern.literal]
  | [a, b] => simp [isReservedPort, portPattern, Pattern.literal]
  | [a, b, c] => simp [isReservedPort, portPattern, Pattern.literal]
  | [a, b, c, digit] =>
      simp [isReservedPort, portPattern, Pattern.literal, char_code_iff, lit, and_assoc, or_and_right]
  | a :: b :: c :: d :: x :: more => simp [isReservedPort]

theorem isReservedPort_encode (base : List α) :
    isReservedPort (e.encode base) = isReservedPort base := by
  -- the pattern fixes four units, so the length is read behind it
  have hstem {stem : String} (hascii : IsAscii stem)
      (hlength : (portPattern stem).length = 4) :
      (matches? (portPattern stem) (e.encode base) = true ∧ (e.encode base).drop 4 = []) ↔
        (matches? (portPattern stem) base = true ∧ base.drop 4 = []) := by
    rw [e.matches?_encode (portPattern_ascii hascii)]
    refine and_congr_right fun hmatch => ?_
    rw [← hlength, e.encode_drop_of_matches? (portPattern_ascii hascii) hmatch,
      Encoding.encode_eq_nil_iff]
  rw [Bool.eq_iff_iff, isReservedPort_iff, isReservedPort_iff, or_and_right, or_and_right,
    hstem (by decide) rfl, hstem (by decide) rfl]

theorem isReservedDeviceBase_encode (base : List α) :
    isReservedDeviceBase (e.encode base) = isReservedDeviceBase base := by
  have hname {p : String} (hp : IsAscii p) : e.encode base = lit p ↔ base = lit p :=
    e.encode_eq_lit_iff hp
  simp only [isReservedDeviceBase, hname (p := "CON") (by decide), hname (p := "PRN") (by decide),
    hname (p := "AUX") (by decide), hname (p := "NUL") (by decide), isReservedPort_encode]

theorem deviceBase_encode (part : List α) : deviceBase (e.encode part) = e.encode (deviceBase part) := by
  -- the two stops as one ASCII-only test
  have hstop {γ : Type} [CodeUnit γ] [DecidableEq γ] (s : List γ) : deviceBase s =
      s.takeWhile fun a => !(Pattern.char '.' (code a) || Pattern.char ':' (code a)) := by
    refine congrArg (List.takeWhile · s) (funext fun a => ?_)
    rw [Bool.eq_iff_iff]
    simp [← char_code_iff]
  rw [hstop, hstop]
  have hascii : ∀ n, 128 ≤ n → (Pattern.char '.' n || Pattern.char ':' n) = false := by
    intro n hn
    rw [char_nonAscii (by decide) n hn, char_nonAscii (by decide) n hn, Bool.or_false]
  exact e.encode_takeWhile hascii

theorem isReservedDevicePart_encode (part : List α) :
    isReservedDevicePart (e.encode part) = isReservedDevicePart part := by
  have hdot : e.encode part = lit "." ↔ part = lit "." := e.encode_eq_lit_iff (by decide)
  have hdotdot : e.encode part = lit ".." ↔ part = lit ".." := e.encode_eq_lit_iff (by decide)
  simp only [isReservedDevicePart, Encoding.encode_eq_nil_iff, hdot, hdotdot, deviceBase_encode,
    ← e.encode_map_upper, isReservedDeviceBase_encode]

theorem validateWindowsComponents_encode (value : List α) (opts : WindowsOptions) :
    validateWindowsComponents (e.encode value) opts = validateWindowsComponents value opts := by
  have hcolon (rest : List α) : chr ':' ∈ e.encode rest ↔ chr ':' ∈ rest :=
    e.chr_mem_encode_iff (by decide)
  have hads : hasWindowsADS (e.encode value) = hasWindowsADS value := by
    rw [hasWindowsADS, hasWindowsADS, splitRoot_encode]
    cases splitRoot value with
    | ok split =>
        simp [hcolon]
    | error err =>
        rfl
  have hdevice : hasReservedDeviceName (e.encode value) = hasReservedDeviceName value := by
    rw [hasReservedDeviceName, hasReservedDeviceName, splitRoot_encode]
    cases splitRoot value with
    | ok split =>
        simp [e.encode_splitOn (c := '/') (by decide), Function.comp_def, isReservedDevicePart_encode]
    | error err =>
        rfl
  rw [validateWindowsComponents, validateWindowsComponents, hads, hdevice]

/-! ## Canonical operands -/

theorem withoutRelativeMarker_encode (value : List α) :
    withoutRelativeMarker (e.encode value) = e.encode (withoutRelativeMarker value) := by
  have hleads := hasPrefix_encode e (p := "./") (by decide) value
  have hmarker : hasRelativeMarker (e.encode value) = hasRelativeMarker value := by
    rw [hasRelativeMarker, hasRelativeMarker, hleads]
    cases hdot : hasPrefix value (lit "./") with
    | false =>
        rfl
    | true =>
        have hdrop : (e.encode value).drop 2 = e.encode (value.drop 2) :=
          drop_prefix_encode e (p := "./") (by decide) hdot
        rw [hdrop, needsRelativeMarker_encode]
  rw [withoutRelativeMarker, withoutRelativeMarker, hmarker]
  split_ifs with hmarked
  · rw [hasRelativeMarker, Bool.and_eq_true] at hmarked
    exact drop_prefix_encode e (p := "./") (by decide) hmarked.1
  · rfl

theorem parseCleanCanonical_encode (value : List α) :
    parseCleanCanonical (e.encode value) =
      mapOk (Prod.map e.encode e.encode) (parseCleanCanonical value) := by
  have hdot (rest : List α) : e.encode rest = lit "." ↔ rest = lit "." :=
    e.encode_eq_lit_iff (by decide)
  rw [parseCleanCanonical, parseCleanCanonical, cleanCanonical_encode]
  refine bind_mapOk fun cleaned => ?_
  simp only [lowercaseDrive_encode, e.encode_injective.ne_iff]
  split_ifs with hclean
  · rfl
  · rw [splitRoot_encode]
    refine bind_mapOk fun split => ?_
    simp only [Prod.map_fst, Prod.map_snd, Encoding.encode_eq_nil_iff, hdot,
      withoutRelativeMarker_encode]
    split_ifs
    · rfl
    · rfl
    · rfl

theorem canonicalParts_encode (value : List α) :
    canonicalParts (e.encode value) =
      mapOk (Prod.map e.encode (List.map e.encode)) (canonicalParts value) := by
  rw [canonicalParts, canonicalParts, parseCleanCanonical_encode]
  refine bind_mapOk fun split => ?_
  simp only [Prod.map_fst, Prod.map_snd, Encoding.encode_eq_nil_iff, e.encode_splitOn (c := '/') (by decide)]
  split_ifs
  · rfl
  · rfl
  · rfl

theorem relative_encode (root target : List α) :
    relative (e.encode root) (e.encode target) = mapOk e.encode (relative root target) := by
  rw [relative, relative, canonicalParts_encode]
  refine bind_mapOk fun rootSplit => ?_
  rw [canonicalParts_encode]
  refine bind_mapOk fun targetSplit => ?_
  have hrun : (rootSplit.2.map e.encode).isPrefixOf (targetSplit.2.map e.encode) =
      rootSplit.2.isPrefixOf targetSplit.2 := by
    rw [Bool.eq_iff_iff, List.isPrefixOf_iff_prefix, List.isPrefixOf_iff_prefix,
      List.prefix_map_iff_of_injective e.encode_injective]
  simp only [Prod.map_fst, Prod.map_snd, e.encode_injective.ne_iff, List.length_map, hrun]
  split_ifs
  · rfl
  · rfl
  · exact congrArg Except.ok (e.encode_lit (by decide)).symm
  · rw [← List.map_drop, ← e.encode_joinOn (by decide), markRelative_encode]
    rfl

theorem normalizeCanonicalRelative_encode (rel : List α) :
    normalizeCanonicalRelative (e.encode rel) = mapOk e.encode (normalizeCanonicalRelative rel) := by
  have hnul : nul ∈ e.encode rel ↔ nul ∈ rel := e.chr_mem_encode_iff (by decide)
  have hdot : e.encode rel = lit "." ↔ rel = lit "." := e.encode_eq_lit_iff (by decide)
  have hliteral : e.encode (lit ".") = lit "." := e.encode_lit (by decide)
  simp only [normalizeCanonicalRelative, Encoding.encode_eq_nil_iff, hnul, hdot,
    hasPrefix_encode e (p := "/") (by decide), hasDriveRoot_encode, isDriveRelative_encode]
  split_ifs
  · rfl
  · rfl
  · rfl
  · rfl
  · rw [mapOk_ok, hliteral]
  · have hloop := cleanLoop_encode e false
      { code := .outsideRoot, message := "relative path escapes root" } [] (rel.splitOn (chr '/'))
    rw [List.map_nil] at hloop
    rw [e.encode_splitOn (by decide), hloop]
    refine bind_mapOk fun parts => ?_
    simp only [List.map_eq_nil_iff, ← e.encode_joinOn (c := '/') (by decide), markRelative_encode]
    split_ifs
    · rw [mapOk_ok, hliteral]
    · rfl

theorem joinClean_encode (root : List α) (split : List α × List α) (cleanRel : List α) :
    joinClean (e.encode root) (Prod.map e.encode e.encode split) (e.encode cleanRel) =
      e.encode (joinClean root split cleanRel) := by
  have hslash : e.encode (lit "/") = lit "/" := e.encode_lit (by decide)
  simp only [joinClean, Prod.map_fst, Prod.map_snd, Encoding.encode_eq_nil_iff, hasSuffix_encode]
  split_ifs
  · rw [markRelative_encode]
  · rw [← hslash, ← Encoding.encode_append, ← Encoding.encode_append, markRelative_encode]
  · rw [Encoding.encode_append]
  · rw [Encoding.encode_append, Encoding.encode_append, hslash]

theorem join_encode (root rel : List α) :
    join (e.encode root) (e.encode rel) = mapOk e.encode (join root rel) := by
  have hmem : chr '\\' ∈ e.encode rel ↔ chr '\\' ∈ rel := e.chr_mem_encode_iff (by decide)
  rw [join, join, parseCleanCanonical_encode]
  refine bind_mapOk fun split => ?_
  simp only [Prod.map_fst, isWindowsRoot_encode, hmem]
  split_ifs
  · rfl
  · rw [normalizeCanonicalRelative_encode]
    refine bind_mapOk fun cleanRel => ?_
    have hdot : e.encode cleanRel = lit "." ↔ cleanRel = lit "." := e.encode_eq_lit_iff (by decide)
    simp only [hdot, withoutRelativeMarker_encode, joinClean_encode]
    split_ifs
    · rfl
    · rfl

/-! ## Raw input -/

theorem toSlashes_encode (value : List α) : toSlashes (e.encode value) = e.encode (toSlashes value) :=
  (e.encode_replaceAll (by decide) (by decide)).symm

theorem unwrapWindowsExtendedPrefix_encode (value : List α) :
    unwrapWindowsExtendedPrefix (e.encode value) = e.encode (unwrapWindowsExtendedPrefix value) := by
  rw [unwrapWindowsExtendedPrefix, unwrapWindowsExtendedPrefix, hasPrefix_encode e (by decide),
    hasPrefix_encode e (by decide)]
  split_ifs with hunc hextended
  · have hdrop : (e.encode value).drop 8 = e.encode (value.drop 8) :=
      drop_prefix_encode e (p := "//?/UNC/") (by decide) hunc
    rw [hdrop, Encoding.encode_append, e.encode_lit (by decide)]
  · exact drop_prefix_encode e (p := "//?/") (by decide) hextended
  · rfl

theorem stripURIDriveSlash_encode (value : List α) :
    stripURIDriveSlash (e.encode value) = e.encode (stripURIDriveSlash value) := by
  rw [stripURIDriveSlash, stripURIDriveSlash, isURIWindowsDrivePath_encode]
  split_ifs with hdrive
  · rcases isURIWindowsDrivePath_iff.1 hdrive with ⟨tail, rfl, -⟩
    rw [e.encode_chr_cons (by decide), List.drop_one, List.drop_one, List.tail_cons, List.tail_cons]
  · rfl

theorem rewriteSeparators_encode (value : List α) (opts : WindowsOptions) :
    rewriteSeparators (e.encode value) opts = mapOk e.encode (rewriteSeparators value opts) := by
  have hext := hasPrefix_encode e (p := "//?/") (by decide) (toSlashes value)
  simp only [rewriteSeparators, toSlashes_encode, unwrapWindowsExtendedPrefix_encode,
    stripURIDriveSlash_encode, hext, splitRoot_encode]
  -- with the prefix the root parser may fail, without it nothing can
  cases hasPrefix (toSlashes value) (lit "//?/") with
  | true =>
      cases splitRoot (toSlashes value) with
      | ok split =>
          cases opts.preserveExtendedLength <;> rfl
      | error err =>
          rfl
  | false =>
      cases opts.preserveExtendedLength <;> rfl

theorem isPOSIXMountCandidate_encode (value : List α) :
    isPOSIXMountCandidate (e.encode value) = isPOSIXMountCandidate value := by
  rw [isPOSIXMountCandidate, isPOSIXMountCandidate, hasPrefix_encode e (by decide),
    hasPrefix_encode e (by decide), hasPrefix_encode e (by decide)]

/-- The options in other units: only the mount root is text. -/
@[simps] def Options.encode (opts : Options α) : Options β where
  sourceHost := opts.sourceHost
  targetProfile := opts.targetProfile
  wsl := opts.wsl.encode e
  uri := opts.uri
  windows := opts.windows
  trimOuterWhitespace := opts.trimOuterWhitespace

omit [DecidableEq α] [DecidableEq β] in
theorem encode_withMountRoot (opts : Options α) (mountRoot : List α) :
    (opts.withMountRoot mountRoot).encode e =
      (opts.encode e).withMountRoot (e.encode mountRoot) := rfl

theorem normalizeWSLCandidate_encode (value : List α) (opts : Options α) :
    normalizeWSLCandidate (e.encode value) (opts.encode e) =
      mapOk e.encode (normalizeWSLCandidate value opts) := by
  rw [normalizeWSLCandidate, normalizeWSLCandidate, prepareNativePOSIX_encode]
  refine bind_mapOk fun prepared => ?_
  rw [validateWindowsComponents_encode, Options.encode_windows]
  cases validateWindowsComponents prepared opts.windows with
  | error err =>
      rfl
  | ok u =>
      rw [ok_bind, ok_bind, cleanCanonical_encode]
      refine bind_mapOk fun cleaned => ?_
      simp only [Options.encode_targetProfile, Options.encode_wsl, mapWSLDrive_encode]
      split_ifs
      · rfl
      · cases mapWSLDrive cleaned opts.wsl with
        | none =>
            rfl
        | some drive =>
            rfl

/-! ## `normalize` -/

theorem isDriveRoot_encode (rootPrefix : List α) :
    isDriveRoot (e.encode rootPrefix) = isDriveRoot rootPrefix := by
  rw [isDriveRoot, isDriveRoot, hasDriveRoot_encode, hasPrefix_encode e (by decide)]
  cases hextended : hasPrefix rootPrefix (lit "//?/") with
  | true =>
      have hdrop : (e.encode rootPrefix).drop 4 = e.encode (rootPrefix.drop 4) :=
        drop_prefix_encode e (p := "//?/") (by decide) hextended
      rw [hdrop, hasDriveRoot_encode]
  | false =>
      rfl

theorem validateTargetProfile_encode (value : List α) (profile : Option TargetProfile) :
    validateTargetProfile (e.encode value) profile = validateTargetProfile value profile := by
  have hposix (rootPrefix : List α) : e.encode rootPrefix = lit "/" ↔ rootPrefix = lit "/" :=
    e.encode_eq_lit_iff (by decide)
  rw [validateTargetProfile, validateTargetProfile, splitRoot_encode]
  cases splitRoot value with
  | error err =>
      rfl
  | ok split =>
      simp only [mapOk_ok, ok_bind, Prod.map_fst, isWindowsRoot_encode, isDriveRoot_encode, hposix]

theorem checkAndClean_encode (value : List α) (opts : Options α) :
    checkAndClean (e.encode value) (opts.encode e) = mapOk e.encode (checkAndClean value opts) := by
  rw [checkAndClean, checkAndClean, splitRoot_encode]
  refine bind_mapOk fun split => ?_
  rw [validateWindowsComponents_encode, Options.encode_windows]
  cases validateWindowsComponents value opts.windows with
  | error err =>
      rfl
  | ok u =>
      rw [ok_bind, ok_bind, cleanCanonical_encode]
      refine bind_mapOk fun cleaned => ?_
      rw [validateTargetProfile_encode, Options.encode_targetProfile]
      cases validateTargetProfile cleaned opts.targetProfile with
      | error err =>
          rfl
      | ok u =>
          rfl

omit [DecidableEq α] [CodeUnit α] [DecidableEq β] [CodeUnit β] in
/-- The units of a scheme are ASCII. -/
theorem isSchemeCode_nonAscii : ∀ n, 128 ≤ n → isSchemeCode n = false := by
  intro n hn
  simp only [isSchemeCode, isLetterCode_nonAscii n hn, Bool.or_eq_false_iff,
    Bool.and_eq_false_iff, decide_eq_false_iff_not, beq_eq_false_iff_ne]
  have hne {c : Char} (hc : c.toNat < 128) : n ≠ c.toNat := by
    omega
  exact ⟨⟨⟨⟨trivial, by omega⟩, hne (by decide)⟩, hne (by decide)⟩, hne (by decide)⟩

theorem hasURIScheme_encode (value : List α) : hasURIScheme (e.encode value) = hasURIScheme value := by
  rw [hasURIScheme, hasURIScheme, e.encode_before (by decide) (by decide)]
  cases before (lit "://") value with
  | none =>
      rfl
  | some scheme =>
      have hnil : (e.encode scheme != []) = (scheme != []) := by
        rw [Bool.eq_iff_iff]
        simp
      simp only [Option.map_some, hnil, e.all_encode isSchemeCode_nonAscii]

/-- A URI parser for values that are no URI. -/
def plainPath (_ : URIOptions) (value : List α) : Except PathError (List α) :=
  .ok value

theorem uriPath_plainPath (value : List α) (opts : Options α) :
    uriPath plainPath value opts = .ok value := by
  rw [uriPath]
  split_ifs
  · rfl
  · rfl

theorem normalizeRawInput_encode (value : List α) (opts : Options α) :
    normalizeRawInput plainPath (e.encode value) (opts.encode e) =
      mapOk e.encode (normalizeRawInput plainPath value opts) := by
  simp only [normalizeRawInput, uriPath_plainPath, ok_bind, isPOSIXMountCandidate_encode,
    hasURIScheme_encode, isURIWindowsDrivePath_encode, Options.encode_wsl, WSLOptions.encode_enabled,
    Options.encode_windows]
  split_ifs
  · exact normalizeWSLCandidate_encode e value opts
  · exact rewriteSeparators_encode e value opts.windows

theorem interpretHost_encode (raw : List α) (opts : Options α) :
    interpretHost plainPath (e.encode raw) (opts.encode e) =
      mapOk e.encode (interpretHost plainPath raw opts) := by
  simp only [interpretHost, Options.encode_sourceHost]
  split_ifs
  · exact prepareNativePOSIX_encode e raw
  · rfl
  · exact normalizeRawInput_encode e raw opts

/-- A string that is no URI is normalized alike in all units. -/
theorem normalizeWith_encode (raw : List α) (opts : Options α) :
    normalizeWith plainPath (e.encode raw) (opts.encode e) =
      mapOk e.encode (normalizeWith plainPath raw opts) := by
  have hnul : nul ∈ e.encode raw ↔ nul ∈ raw := e.chr_mem_encode_iff (by decide)
  simp only [normalizeWith, Encoding.encode_eq_nil_iff, hnul, Options.encode_wsl,
    Options.encode_sourceHost, WSLOptions.encode_mountRoot, WSLOptions.encode_enabled,
    normalizeMountRoot_encode]
  split_ifs
  · rfl
  · rfl
  · exact bind_mapOk fun mountRoot => rfl
  · refine bind_mapOk fun mountRoot => ?_
    rw [← encode_withMountRoot, interpretHost_encode]
    exact bind_mapOk fun value => checkAndClean_encode e value opts

/-- The URI parser does not matter when no URI is read. -/
theorem normalizeWith_eq_plainPath {parseURI : URIOptions → List α → Except PathError (List α)}
    {raw : List α} {opts : Options α}
    (h : nul ∉ raw → HostKind.IsRaw opts.sourceHost → uriPath parseURI raw opts = .ok raw) :
    normalizeWith parseURI raw opts = normalizeWith plainPath raw opts := by
  by_cases hnul : nul ∈ raw
  · rw [normalizeWith, normalizeWith, if_pos hnul, if_pos hnul]
  -- the parser is called on raw hosts only, with the options the mount root does not touch
  have hinterpret (mountRoot : List α) :
      interpretHost parseURI raw (opts.withMountRoot mountRoot) =
        interpretHost plainPath raw (opts.withMountRoot mountRoot) := by
    rw [interpretHost, interpretHost]
    split_ifs with hposix hcanonical
    · rfl
    · rfl
    · have hpath : uriPath parseURI raw (opts.withMountRoot mountRoot) = .ok raw :=
        h hnul ⟨hposix, hcanonical⟩
      rw [normalizeRawInput, normalizeRawInput, hpath, uriPath_plainPath]
  simp only [normalizeWith, hinterpret]

end Go

end CanonicalPath
