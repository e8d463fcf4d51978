import CanonicalPath.Library.CString
import CanonicalPath.Ports.Rust
import CanonicalPath.Ports.Spelling
import CanonicalPath.Rust.Checked

/-!
# Ports rust checked — no panic in the grammar of the Rust port

Every index is behind a test of the length, and every cut is behind ASCII bytes or at a place that was found.  So the
checked functions return what the functions of `Rust.Core` return on the same text.

* `rootOf_eq`, `cleanCanonical_eq`, `parseCleanCanonical_eq` : the grammar
* `join_eq`, `joinParts_eq` : composition
* `relative_safe`, `toWin32_safe`, `toWsl_safe` : functions that the core does not have
-/

namespace CanonicalPath

namespace Ports

namespace Rust

namespace Checked

open CodeUnit Segments Str Panicking CString

/-! ## Tests -/

theorem hasDriveRoot_eq (value : List Char) : Rust.Checked.hasDriveRoot value = some (Rust.hasDriveRoot value) := by
  have hbytes : Rust.hasDriveRoot (bytes value) = Rust.hasDriveRoot value := by
    rw [Rust.hasDriveRoot_eq, Rust.hasDriveRoot_eq, bytes, Go.hasDriveRoot_encode]
  -- a short text fails the test of the length in front of the indexes
  rw [← hbytes, Rust.Checked.hasDriveRoot]
  rcases bytes value with _ | ⟨a, _ | ⟨b, _ | ⟨c, rest⟩⟩⟩
  · rfl
  · rfl
  · rfl
  · simp only [index, List.length_cons, List.getElem?_cons_zero, List.getElem?_cons_succ, Option.map_some, some_and]
    rw [Rust.hasDriveRoot]
    cases isLetter a <;> cases b == chr ':' <;> simp

theorem isDriveRelative_eq (value : List Char) :
    Rust.Checked.isDriveRelative value = some (Rust.isDriveRelative value) := by
  have hbytes : Rust.isDriveRelative (bytes value) = Rust.isDriveRelative value := by
    rw [Rust.isDriveRelative_eq, Rust.isDriveRelative_eq, bytes, Go.isDriveRelative_encode]
  rw [← hbytes, Rust.Checked.isDriveRelative]
  rcases bytes value with _ | ⟨a, _ | ⟨b, _ | ⟨c, rest⟩⟩⟩
  · rfl
  · rfl
  · simp only [index, List.length_cons, List.length_nil, List.getElem?_cons_zero, List.getElem?_cons_succ,
      Option.map_some, some_and, some_or]
    rw [Rust.isDriveRelative]
    cases isLetter a <;> cases b == chr ':' <;> rfl
  · simp only [index, List.length_cons, List.getElem?_cons_zero, List.getElem?_cons_succ, Option.map_some, some_and,
      some_or]
    rw [Rust.isDriveRelative]
    cases isLetter a <;> cases b == chr ':' <;> simp

theorem isUriWindowsDrivePath_eq (value : List Char) :
    Rust.Checked.isUriWindowsDrivePath value = some (Go.isURIWindowsDrivePath value) := by
  have hbytes : Go.isURIWindowsDrivePath (bytes value) = Go.isURIWindowsDrivePath value := by
    rw [bytes, Go.isURIWindowsDrivePath_encode]
  rw [← hbytes, Rust.Checked.isUriWindowsDrivePath]
  rcases bytes value with _ | ⟨a, _ | ⟨b, _ | ⟨c, _ | ⟨d, rest⟩⟩⟩⟩
  · rfl
  · rfl
  · rfl
  · rfl
  · simp only [index, List.length_cons, List.getElem?_cons_zero, List.getElem?_cons_succ, Option.map_some, some_and]
    rw [Go.isURIWindowsDrivePath]
    cases a == chr '/' <;> cases isLetter b <;> cases c == chr ':' <;> simp

theorem needsRelativeMarker_eq (value : List Char) :
    Rust.Checked.needsRelativeMarker value = some (Rust.needsRelativeMarker value) := by
  have hbytes : Rust.needsRelativeMarker (bytes value) = Rust.needsRelativeMarker value := by
    rw [Rust.needsRelativeMarker_eq, Rust.needsRelativeMarker_eq, bytes, Go.needsRelativeMarker_encode]
  rw [← hbytes, Rust.Checked.needsRelativeMarker]
  rcases bytes value with _ | ⟨a, _ | ⟨b, rest⟩⟩
  · rfl
  · rfl
  · simp only [index, List.length_cons, List.getElem?_cons_zero, List.getElem?_cons_succ, Option.map_some, some_and]
    rw [Rust.needsRelativeMarker]
    cases isLetter a <;> simp

theorem markRelative_eq (value : List Char) : Rust.Checked.markRelative value = some (Rust.markRelative value) := by
  rw [Rust.Checked.markRelative, needsRelativeMarker_eq, some_bind, Rust.markRelative]
  split_ifs
  · rfl
  · rfl

theorem hasRelativeMarker_eq (value : List Char) :
    Rust.Checked.hasRelativeMarker value = some (Rust.hasRelativeMarker value) := by
  rw [Rust.Checked.hasRelativeMarker, Rust.hasRelativeMarker]
  cases Rust.stripPrefix value (lit "./") with
  | none =>
      rfl
  | some tail =>
      exact needsRelativeMarker_eq tail

/-! ## Cuts -/

/-- A text behind a literal. -/
theorem exists_of_stripPrefix {value leader tail : List Char} (h : Rust.stripPrefix value leader = some tail) :
    value = leader ++ tail := by
  rw [Rust.stripPrefix] at h
  split_ifs at h with hleads
  obtain ⟨rest, rfl⟩ := List.isPrefixOf_iff_prefix.1 hleads
  rw [List.drop_left] at h
  rw [Option.some.inj h]

theorem exists_of_startsWith {value leader : List Char} (h : Rust.startsWith value leader = true) :
    ∃ tail, value = leader ++ tail := by
  obtain ⟨tail, rfl⟩ := List.isPrefixOf_iff_prefix.1 h
  exact ⟨tail, rfl⟩

theorem exists_of_hasDriveRoot {value : List Char} (h : Rust.hasDriveRoot value = true) :
    ∃ d rest, code d < 128 ∧ value = d :: chr ':' :: chr '/' :: rest := by
  rw [Rust.hasDriveRoot_eq] at h
  obtain ⟨d, rest, hd, rfl⟩ := Go.hasDriveRoot_iff.1 h
  exact ⟨d, rest, code_lt_of_isLetter hd, rfl⟩

theorem ascii_drive {d : Char} (hd : code d < 128) : ∀ c ∈ [d, chr ':', chr '/'], code c < 128 :=
  List.forall_mem_cons.2 ⟨hd, code_lt_of_mem_lit (p := ":/") (by decide)⟩

theorem withoutRelativeMarker_eq (value : List Char) :
    Rust.Checked.withoutRelativeMarker value = some (Rust.withoutRelativeMarker value) := by
  rw [Rust.Checked.withoutRelativeMarker, hasRelativeMarker_eq, some_bind, Rust.withoutRelativeMarker]
  split_ifs with hmarker
  · rw [Rust.hasRelativeMarker] at hmarker
    cases hstrip : Rust.stripPrefix value (lit "./") with
    | none =>
        rw [hstrip] at hmarker
        cases hmarker
    | some tail =>
        obtain rfl := exists_of_stripPrefix hstrip
        exact sliceFrom_ascii (s := lit "./") (code_lt_of_mem_lit (by decide)) tail
  · rfl

theorem replaceDrive_eq (letterCase : Char → Char) (value : List Char) :
    Rust.Checked.replaceDrive letterCase value = some (
      if Rust.hasDriveRoot value then
        (value.take 1).map letterCase ++ value.drop 1
      else if Rust.startsWith value (lit "//?/") && Rust.hasDriveRoot (value.drop 4) then
        value.take 4 ++ (((value.drop 4).take 1).map letterCase ++ value.drop 5)
      else
        value) := by
  have hletter {d : Char} (hd : code d < 128) : ∀ c ∈ [d], code c < 128 := by
    simpa using hd
  rw [Rust.Checked.replaceDrive, hasDriveRoot_eq, some_bind]
  by_cases hdrive : Rust.hasDriveRoot value = true
  · obtain ⟨d, rest, hd, rfl⟩ := exists_of_hasDriveRoot hdrive
    have hcut : sliceTo (d :: chr ':' :: chr '/' :: rest) 1 = some [d] := sliceTo_ascii (hletter hd) _
    rw [if_pos hdrive, if_pos hdrive, hcut, some_bind]
    exact replaceRange_ascii (s := []) (fun c hc => absurd hc List.not_mem_nil) (hletter hd) _ _
  rw [if_neg hdrive, if_neg hdrive, some_and]
  by_cases hleads : Rust.startsWith value (lit "//?/") = true
  · obtain ⟨tail, rfl⟩ := exists_of_startsWith hleads
    -- behind the four bytes of the prefix
    have hfour : sliceFrom (lit "//?/" ++ tail) 4 = some tail := sliceFrom_ascii (s := lit "//?/") (code_lt_of_mem_lit (by decide)) tail
    have hdrop : (lit "//?/" ++ tail).drop 4 = tail := rfl
    rw [if_pos hleads, hleads, hfour, some_bind, hasDriveRoot_eq, some_bind, hdrop, Bool.true_and]
    split_ifs with hinner
    · obtain ⟨d, rest, hd, rfl⟩ := exists_of_hasDriveRoot hinner
      have hcut : slice (lit "//?/" ++ (d :: chr ':' :: chr '/' :: rest)) 4 5 = some [d] :=
        slice_ascii (s := lit "//?/") (code_lt_of_mem_lit (by decide)) (hletter hd) _
      rw [hcut, some_bind]
      exact replaceRange_ascii (s := lit "//?/") (code_lt_of_mem_lit (by decide)) (hletter hd) _ _
    · rfl
  · rw [if_neg hleads, some_bind, Bool.eq_false_iff.2 hleads, Bool.false_and]
    rfl

theorem lowercaseDrive_eq (value : List Char) :
    Rust.Checked.lowercaseDrive value = some (Rust.lowercaseDrive value) := by
  rw [Rust.Checked.lowercaseDrive, replaceDrive_eq, Rust.lowercaseDrive]

/-! ## Roots -/

theorem splitUncRoot_eq (leader tail : List Char) :
    Rust.Checked.splitUncRoot (leader ++ tail) leader = returned (Rust.splitUncRoot (leader ++ tail) leader) := by
  rw [Rust.Checked.splitUncRoot, sliceFrom_append, some_lift_bind, Rust.splitUncRoot, List.drop_left]
  dsimp only
  split_ifs
  · rfl
  · rfl

theorem rootOf_eq (value : List Char) : Rust.Checked.rootOf value = returned (Rust.rootOf value) := by
  rw [Rust.Checked.rootOf, Rust.rootOf]
  cases hext : Rust.stripPrefix value (lit "//?/") with
  | some tail =>
      obtain rfl := exists_of_stripPrefix hext
      simp only [hasDriveRoot_eq, some_lift_bind]
      split_ifs with hdrive hunc
      · obtain ⟨d, rest, hd, rfl⟩ := exists_of_hasDriveRoot hdrive
        have hascii : ∀ c ∈ (lit "//?/" ++ [d, chr ':', chr '/'] : List Char), code c < 128 :=
          List.forall_mem_append.2 ⟨code_lt_of_mem_lit (by decide), ascii_drive hd⟩
        have hto : sliceTo (lit "//?/" ++ d :: chr ':' :: chr '/' :: rest) 7 = _ := sliceTo_ascii hascii rest
        have hfrom : sliceFrom (lit "//?/" ++ d :: chr ':' :: chr '/' :: rest) 7 = _ := sliceFrom_ascii hascii rest
        rw [hto, hfrom]
        rfl
      · obtain ⟨rest, rfl⟩ := exists_of_startsWith hunc
        exact splitUncRoot_eq (lit "//?/UNC/") rest
      · rfl
  | none =>
      simp only [hasDriveRoot_eq, some_lift_bind]
      by_cases hdrive : Rust.hasDriveRoot value = true
      · rw [if_pos hdrive, if_pos hdrive]
        obtain ⟨d, rest, hd, rfl⟩ := exists_of_hasDriveRoot hdrive
        have hto : sliceTo (d :: chr ':' :: chr '/' :: rest) 3 = _ := sliceTo_ascii (ascii_drive hd) rest
        have hfrom : sliceFrom (d :: chr ':' :: chr '/' :: rest) 3 = _ := sliceFrom_ascii (ascii_drive hd) rest
        rw [hto, hfrom]
        rfl
      rw [if_neg hdrive, if_neg hdrive]
      by_cases hdouble : Rust.startsWith value (lit "//") = true
      · rw [if_pos hdouble, if_pos hdouble]
        obtain ⟨rest, rfl⟩ := exists_of_startsWith hdouble
        exact splitUncRoot_eq (lit "//") rest
      rw [if_neg hdouble, if_neg hdouble]
      cases Rust.stripPrefix value (lit "/") with
      | some rest =>
          rfl
      | none =>
          simp only [isDriveRelative_eq, some_lift_bind]
          split_ifs
          · rfl
          · rfl

theorem splitRoot_eq (value : List Char) : Rust.Checked.splitRoot value = returned (Rust.splitRoot value) := by
  rw [Rust.Checked.splitRoot, rootOf_eq, Rust.splitRoot]
  apply returned_bind
  intro result _
  split_ifs
  · rfl
  · rfl

/-! ## Dot cleanup -/

theorem serialize_eq (rootPrefix joined : List Char) :
    Rust.Checked.serialize rootPrefix joined = some (Rust.serialize rootPrefix joined) := by
  rw [Rust.Checked.serialize, Rust.serialize, markRelative_eq]
  split_ifs <;> rfl

theorem cleanCanonical_eq (value : List Char) : Rust.Checked.cleanCanonical value = returned (Rust.cleanCanonical value) := by
  rw [Rust.Checked.cleanCanonical, Rust.cleanCanonical]
  split_ifs with hempty hnul
  · rfl
  · rfl
  rw [splitRoot_eq]
  apply returned_bind
  intro root _
  -- what the loop over the components returns is shared, so only the steps around it are compared
  rw [lowercaseDrive_eq, some_lift_bind]
  apply returned_bind
  intro parts _
  rw [serialize_eq]
  rfl

theorem parseCleanCanonical_eq (value : List Char) :
    Rust.Checked.parseCleanCanonical value = returned (Rust.parseCleanCanonical value) := by
  rw [Rust.Checked.parseCleanCanonical, cleanCanonical_eq, Rust.parseCleanCanonical]
  apply returned_bind
  intro cleaned _
  rw [lowercaseDrive_eq, some_lift_bind]
  split_ifs with hclean
  · rfl
  rw [splitRoot_eq]
  apply returned_bind
  intro root _
  split_ifs with hrelative hdot
  · rfl
  · rw [withoutRelativeMarker_eq, some_lift_bind]
    rfl
  · rfl

/-! ## Native input -/

/-- The slashes in front of a text are ASCII, so their bytes are counted like units. -/
theorem leading_eq (value : List Char) :
    len value - len (value.dropWhile (· == chr '/')) = (value.takeWhile (· == chr '/')).length ∧
      sliceFrom value (value.takeWhile (· == chr '/')).length = some (value.drop (value.takeWhile (· == chr '/')).length) := by
  have hparts := List.takeWhile_append_dropWhile (p := fun c => c == chr '/') (l := value)
  have hascii : ∀ c ∈ value.takeWhile (· == chr '/'), code c < 128 := by
    intro c hc
    have hslash : c = chr '/' := by
      simpa using List.mem_takeWhile_imp hc
    rw [hslash]
    decide
  -- the same text in two parts: its bytes, its cut and its units
  have hlen := len_append (value.takeWhile (· == chr '/')) (value.dropWhile (· == chr '/'))
  have hcut := sliceFrom_ascii hascii (value.dropWhile (· == chr '/'))
  have hdrop : (value.takeWhile (· == chr '/') ++ value.dropWhile (· == chr '/')).drop
      (value.takeWhile (· == chr '/')).length = value.dropWhile (· == chr '/') := List.drop_left
  rw [hparts] at hlen hcut hdrop
  rw [len_of_ascii hascii] at hlen
  refine ⟨by omega, ?_⟩
  rw [hcut, hdrop]

theorem prepareNativePosix_eq (value : List Char) :
    Rust.Checked.prepareNativePosix value = returned (Go.prepareNativePOSIX value) := by
  obtain ⟨hleading, hcut⟩ := leading_eq value
  rw [Rust.Checked.prepareNativePosix, Go.prepareNativePOSIX]
  simp only [hleading]
  split_ifs with htwo hmore
  · rfl
  · have hmark (rest : List Char) : Go.needsRelativeMarker (lit "/" ++ rest) = false := by
      cases rest <;> rfl
    rw [hcut, some_lift_bind, Go.markRelative, hmark, if_neg Bool.false_ne_true]
    rfl
  · rw [markRelative_eq, Rust.markRelative_eq]
    rfl

theorem cleanNativePosix_eq (value : List Char) :
    Rust.Checked.cleanNativePosix value = returned (Go.cleanNativePOSIX value) := by
  rw [Rust.Checked.cleanNativePosix, prepareNativePosix_eq, Go.cleanNativePOSIX]
  apply returned_bind
  intro prepared _
  rw [cleanCanonical_eq, Rust.cleanCanonical_eq]

theorem normalizeMountRoot_eq (value : List Char) :
    Rust.Checked.normalizeMountRoot value = returned (Go.normalizeMountRoot value) := by
  have hdefault : (if value.isEmpty then lit "/mnt" else value) = Go.defaultMountRoot value := by
    cases value <;> rfl
  rw [Rust.Checked.normalizeMountRoot, Go.normalizeMountRoot]
  simp only [hdefault, Rust.startsWith_eq, cleanNativePosix_eq]
  by_cases hnul : nul ∈ value
  · rw [if_pos hnul, if_pos hnul]
    rfl
  rw [if_neg hnul, if_neg hnul]
  cases Go.hasPrefix (Go.defaultMountRoot value) (lit "/") with
  | true =>
      rfl
  | false =>
      rfl

/-! ## Composition -/

theorem canonicalParts_eq (value : List Char) :
    Rust.Checked.canonicalParts value = returned (Go.canonicalParts value) := by
  rw [Rust.Checked.canonicalParts, parseCleanCanonical_eq, Rust.parseCleanCanonical_eq, Go.canonicalParts]
  cases Go.parseCleanCanonical value with
  | error err =>
      rfl
  | ok split =>
      obtain ⟨rootPrefix, rest⟩ := split
      cases rootPrefix with
      | nil =>
          rfl
      | cons a rootPrefix =>
          cases rest with
          | nil =>
              rfl
          | cons b rest =>
              rfl

/-- The loop over the components of the root stays inside those of the target. -/
theorem relativeLoop_eq (front targetParts rootParts : List (List Char)) (h : rootParts.length ≤ targetParts.length) :
    Rust.Checked.relativeLoop (front ++ targetParts) front.length rootParts =
      returned (if rootParts.isPrefixOf targetParts then .ok () else
        newError .outsideRoot "target is outside root") := by
  induction rootParts generalizing front targetParts with
  | nil =>
      rfl
  | cons rootPart rootParts ih =>
      cases targetParts with
      | nil =>
          exact absurd h (by simp)
      | cons targetPart targetParts =>
          -- what is left of the root is not longer than what is left of the target, so the place is inside
          have hindex : Str.index (front ++ targetPart :: targetParts) front.length = some targetPart := by
            rw [Str.index, List.getElem?_append_right (Nat.le_refl _), Nat.sub_self]
            rfl
          have hsplit : front ++ targetPart :: targetParts = (front ++ [targetPart]) ++ targetParts := by
            rw [List.append_assoc]
            rfl
          have hnext := ih (front ++ [targetPart]) targetParts (Nat.le_of_succ_le_succ h)
          rw [List.length_append, List.length_singleton, ← hsplit] at hnext
          rw [Rust.Checked.relativeLoop, hindex, some_lift_bind, List.isPrefixOf_cons_cons]
          by_cases hpart : rootPart = targetPart
          · rw [if_neg (not_not_intro hpart.symm), hnext, hpart]
            simp
          · rw [if_pos (Ne.symm hpart), beq_false_of_ne hpart]
            rfl

theorem relative_eq (root target : List Char) :
    Rust.Checked.relative root target = returned (Go.relative root target) := by
  rw [Rust.Checked.relative, canonicalParts_eq, Go.relative]
  apply returned_bind
  intro rootSplit _
  rw [canonicalParts_eq]
  apply returned_bind
  intro targetSplit _
  obtain ⟨rootPrefix, rootParts⟩ := rootSplit
  obtain ⟨targetPrefix, targetParts⟩ := targetSplit
  dsimp only
  by_cases hroot : rootPrefix ≠ targetPrefix ∨ targetParts.length < rootParts.length
  · rw [if_pos hroot, if_pos hroot]
    rfl
  have hlength : rootParts.length ≤ targetParts.length := Nat.le_of_not_lt (not_or.1 hroot).2
  -- the test of the lengths is what the loop and the slice need
  have hloop : Rust.Checked.relativeLoop targetParts 0 rootParts = _ := relativeLoop_eq [] targetParts rootParts hlength
  have hslice : sliceList targetParts rootParts.length targetParts.length = some (targetParts.drop rootParts.length) := by
    rw [sliceList_eq hlength (Nat.le_refl _), List.take_length]
  rw [if_neg hroot, if_neg hroot, hloop]
  cases rootParts.isPrefixOf targetParts with
  | false =>
      rfl
  | true =>
      simp only [if_true, returned_ok_bind, hslice, some_lift_bind, markRelative_eq, Rust.markRelative_eq, Bool.true_eq_false,
        if_false]
      split_ifs
      · rfl
      · rfl

theorem normalizeCanonicalRelative_eq (raw : List Char) :
    Rust.Checked.normalizeCanonicalRelative raw = returned (Rust.normalizeCanonicalRelative raw) := by
  rw [Rust.Checked.normalizeCanonicalRelative, Rust.normalizeCanonicalRelative]
  simp only [hasDriveRoot_eq, isDriveRelative_eq, some_or_some, some_lift_bind]
  split_ifs
  · rfl
  · rfl
  · rfl
  · rfl
  · rfl
  apply returned_bind
  intro parts _
  split_ifs
  · rfl
  · rw [markRelative_eq]
    rfl

theorem join_eq (root relativePath : List Char) :
    Rust.Checked.join root relativePath = returned (Rust.join root relativePath) := by
  rw [Rust.Checked.join, parseCleanCanonical_eq, Rust.join]
  apply returned_bind
  intro parsed _
  by_cases hbackslash : Rust.isWindowsRoot parsed.rootPrefix = true ∧ chr '\\' ∈ relativePath
  · rw [if_pos hbackslash, if_pos hbackslash]
    rfl
  rw [if_neg hbackslash, if_neg hbackslash, normalizeCanonicalRelative_eq]
  apply returned_bind
  intro cleanRelative _
  simp only [withoutRelativeMarker_eq, markRelative_eq, some_lift_bind]
  split_ifs <;> rfl

theorem joinPartsLoop_eq (result : List Char) (parts : List (List Char)) :
    Rust.Checked.joinPartsLoop result parts = returned (Rust.joinPartsLoop result parts) := by
  induction parts generalizing result with
  | nil =>
      rfl
  | cons part parts ih =>
      rw [Rust.Checked.joinPartsLoop, Rust.joinPartsLoop]
      split_ifs with hempty
      · rw [parseCleanCanonical_eq]
        apply returned_bind
        intro _ _
        exact ih part
      · rw [join_eq]
        apply returned_bind
        intro joined _
        exact ih joined

theorem joinParts_eq (parts : List (List Char)) :
    Rust.Checked.joinParts parts = returned (Rust.joinParts parts) := by
  rw [Rust.Checked.joinParts, joinPartsLoop_eq, Rust.joinParts]
  apply returned_bind
  intro result _
  split_ifs
  · rfl
  · rfl

/-! ## Outputs -/

/-- The outputs test their operand before they read it. -/
theorem ne_nil_of_parseCleanCanonical {value : List Char} {root : Rust.SplitRoot Char}
    (h : Rust.parseCleanCanonical value = .ok root) : value ≠ [] := by
  rintro rfl
  cases h

theorem toWin32_safe (canonical : List Char) : Safe (Rust.Checked.toWin32 canonical) fun _ => True := by
  rw [Rust.Checked.toWin32, parseCleanCanonical_eq]
  refine Safe.bind (Safe.returned fun _ _ => trivial) fun root _ => ?_
  -- the operand was read, and what is left to do has no cut off a boundary
  simp only [hasRelativeMarker_eq, some_or_some, some_lift_bind]
  refine Safe.ite (fun _ => Safe.throw _) fun _ => ?_
  rw [replaceDrive_eq, some_lift_bind]
  exact Safe.pure trivial

theorem toWsl_safe (canonical : List Char) (options : Rust.Checked.WslOptions) :
    Safe (Rust.Checked.toWsl canonical options) fun _ => True := by
  rw [Rust.Checked.toWsl, normalizeMountRoot_eq, parseCleanCanonical_eq]
  refine Safe.bind (Safe.returned fun _ _ => trivial) fun mountRoot _ => ?_
  refine Safe.bind (Safe.returned fun root hroot => ne_nil_of_parseCleanCanonical hroot) fun root hne => ?_
  -- an operand that was read has a first byte
  obtain ⟨b, rest, hbytes⟩ := List.exists_cons_of_ne_nil (mt utf8.encode_eq_nil_iff.1 hne)
  have hfirst : index (bytes canonical) 0 = some b := by
    rw [index, bytes, hbytes]
    rfl
  simp only [hasDriveRoot_eq, Option.map_some, some_and_some, some_lift_bind, hfirst]
  refine Safe.ite (fun _ => Safe.throw _) fun _ => ?_
  refine Safe.ite (fun _ => Safe.pure trivial) fun _ => ?_
  exact Safe.ite (fun _ => Safe.pure trivial) fun _ => Safe.pure trivial

theorem toPosix_safe (canonical : List Char) : Safe (Rust.Checked.toPosix canonical) fun _ => True := by
  rw [Rust.Checked.toPosix, parseCleanCanonical_eq]
  refine Safe.bind (Safe.returned fun _ _ => trivial) fun root _ => ?_
  exact Safe.ite (fun _ => Safe.throw _) fun _ => Safe.pure trivial

end Checked

end Rust

end Ports

end CanonicalPath
