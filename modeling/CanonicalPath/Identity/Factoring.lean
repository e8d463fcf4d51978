import CanonicalPath.Identity.Composition
import CanonicalPath.Identity.Win32

/-!
# Factoring — which operations see only the identity of their operands

The host serializers read an operand through its identity.  `relative` compares the root spellings and
`join` writes its root spelling back, so these two tell the two cases of a drive letter apart:

* `toWin32_spelling`, `toWSL_spelling` : the serializers do not look at the case
* `relative_spelling_eq_iff`, `join_spelling_eq_iff` : where the other two do
* `operations_factor_iff` : all four together
-/

namespace CanonicalPath

open CodeUnit Segments Go DotStack

variable {α : Type} [DecidableEq α] [CodeUnit α]

/-! ## Host serializers -/

/-- An operand is its canonical string, or it differs from it by the case of a drive letter. -/
theorem Operand.spelling_cases (o : Operand α) : o.spelling = o.identity.render ∨
    ∃ d, isLetter d = true ∧ (o.root = .drive d ∧ o.identity.root = .drive (lower d) ∨
      o.root = .extendedDrive d ∧ o.identity.root = .extendedDrive (lower d)) := by
  have hsame (hfold : o.root.fold = o.root) : o.spelling = o.identity.render := by
    rw [o.spelling_eq_render_iff, ← o.root_fold, hfold]
  have hvalid := o.root_valid
  have hfolds := o.root_fold
  cases hroot : o.root with
  | drive d =>
      rw [hroot] at hvalid hfolds
      exact Or.inr ⟨d, hvalid, Or.inl ⟨rfl, hfolds.symm⟩⟩
  | extendedDrive d =>
      rw [hroot] at hvalid hfolds
      exact Or.inr ⟨d, hvalid, Or.inr ⟨rfl, hfolds.symm⟩⟩
  | relative =>
      exact Or.inl (hsame (by rw [hroot]; rfl))
  | posix =>
      exact Or.inl (hsame (by rw [hroot]; rfl))
  | unc server share =>
      exact Or.inl (hsame (by rw [hroot]; rfl))
  | extendedUNC server share =>
      exact Or.inl (hsame (by rw [hroot]; rfl))

theorem uppercaseDrive_drive {d : α} (hd : isLetter d = true) (rest : List α) :
    uppercaseDrive (d :: lit ":/" ++ rest) = upper d :: lit ":/" ++ rest := by
  have hdrive : hasDriveRoot (d :: lit ":/" ++ rest) = true := hasDriveRoot_iff.2 ⟨d, rest, hd, rfl⟩
  rw [uppercaseDrive, if_pos hdrive]
  rfl

theorem uppercaseDrive_extendedDrive {d : α} (hd : isLetter d = true) (rest : List α) :
    uppercaseDrive (lit "//?/" ++ (d :: lit ":/" ++ rest)) =
      lit "//?/" ++ (upper d :: lit ":/" ++ rest) := by
  have hslash : hasDriveRoot (lit "//?/" ++ (d :: lit ":/" ++ rest)) = false :=
    hasDriveRoot_slash_cons
  have hdrive : hasDriveRoot ((lit "//?/" ++ (d :: lit ":/" ++ rest)).drop 4) = true :=
    hasDriveRoot_iff.2 ⟨d, rest, hd, rfl⟩
  rw [uppercaseDrive, hslash, hasPrefix_append, hdrive]
  rfl

theorem serialize_extendedDrive {d : α} (hd : isLetter d = true) (parts : List (List α)) :
    serialize (Root.extendedDrive d).text parts =
      lit "//?/" ++ (d :: lit ":/" ++ joinOn (chr '/') parts) := by
  have hvalid : (Root.extendedDrive d).Valid := hd
  exact serialize_slash (Root.text_ne_nil rfl) (hasSuffix_text hvalid rfl)

/-- Only a drive root can be spelled in two ways. -/
theorem Operand.isWindows_of_ne_render (o : Operand α) (h : o.spelling ≠ o.identity.render) :
    o.root.isWindows = true := by
  rcases o.spelling_cases with hsame | ⟨d, -, ⟨hroot, -⟩ | ⟨hroot, -⟩⟩
  · exact absurd hsame h
  · rw [hroot]
    rfl
  · rw [hroot]
    rfl

theorem toWin32_of_isWindows (o : Operand α) (hwindows : o.root.isWindows = true) :
    toWin32 o.spelling = .ok (replaceAll '/' '\\' (uppercaseDrive o.spelling)) := by
  have hsplits := o.splits_spelling
  have hposix : o.root.text ≠ lit "/" := by
    intro htext
    rw [← isWindowsRoot_text, htext] at hwindows
    exact absurd hwindows (by simp [isWindowsRoot])
  have hbackslash : chr '\\' ∉ o.spelling := hsplits.backslash_not_mem hwindows
  -- a marked string has no root
  have hmarker : hasRelativeMarker o.spelling = false := by
    rw [Bool.eq_false_iff]
    intro hmarked
    rw [hasRelativeMarker, Bool.and_eq_true] at hmarked
    rcases hasPrefix_iff.1 hmarked.1 with ⟨tail, htail⟩
    have hrelative : Splits o.spelling .relative o.spelling := by
      rw [htail]
      exact Splits.relative (by simp [lit]) (by simp [needsRelativeMarker_eq, lit, isLetterCode])
    have htext := (hsplits.rest_eq hrelative).1
    rw [← isWindowsRoot_text, htext] at hwindows
    exact absurd hwindows (by simp [isWindowsRoot, Root.text])
  rw [toWin32, parseCleanCanonical_spelling, Outcome.ok_bind, if_neg]
  simp [hposix, hbackslash, hmarker]

theorem toWin32_spelling (o : Operand α) : toWin32 o.spelling = toWin32 o.identity.render := by
  rcases o.spelling_cases with hsame | ⟨d, hd, hroots⟩
  · rw [hsame]
  · have hwindows : o.root.isWindows = true := by
      rcases hroots with ⟨hroot, -⟩ | ⟨hroot, -⟩
      · rw [hroot]
        rfl
      · rw [hroot]
        rfl
    have hidentity : (Operand.ofIdentity o.identity).root.isWindows = true := by
      rw [← hwindows, o.isWindows_root]
      rfl
    -- both spellings are written with the letter in upper case
    have hraise : uppercaseDrive o.spelling = uppercaseDrive o.identity.render := by
      have hlower : isLetter (lower d) = true := by
        rwa [isLetter_lower]
      rcases hroots with ⟨hroot, hidentity⟩ | ⟨hroot, hidentity⟩
      · rw [Operand.spelling, Identity.render, hroot, hidentity, Root.text, Root.text, serialize_drive,
          serialize_drive, uppercaseDrive_drive hd, uppercaseDrive_drive hlower, upper_lower hd]
      · rw [Operand.spelling, Identity.render, hroot, hidentity, serialize_extendedDrive hd,
          serialize_extendedDrive hlower, uppercaseDrive_extendedDrive hd,
          uppercaseDrive_extendedDrive hlower, upper_lower hd]
    rw [toWin32_of_isWindows o hwindows, hraise]
    exact (toWin32_of_isWindows (.ofIdentity o.identity) hidentity).symm

theorem toWSL_spelling (o : Operand α) (opts : WSLOptions α) :
    toWSL o.spelling opts = toWSL o.identity.render opts := by
  rcases o.spelling_cases with hsame | ⟨d, hd, hroots⟩
  · rw [hsame]
  · have hlower : isLetter (lower d) = true := by
      rwa [isLetter_lower]
    rw [toWSL, toWSL]
    cases normalizeMountRoot opts.mountRoot with
    | error err =>
        rfl
    | ok mountRoot =>
        rw [Outcome.ok_bind, Outcome.ok_bind, parseCleanCanonical_spelling, parseCleanCanonical_render,
          Outcome.ok_bind, Outcome.ok_bind]
        rcases hroots with ⟨hroot, hidentity⟩ | ⟨hroot, hidentity⟩
        · -- the writer folds the letter itself
          have htail {e : α} (rest : List α) : driveTail (e :: lit ":/" ++ rest) =
              lower e :: if rest = [] then [] else lit "/" ++ rest := rfl
          have hdrive {e : α} (he : isLetter e = true) : hasDriveRoot (Root.drive e).text = true :=
            hasDriveRoot_iff.2 ⟨e, [], he, rfl⟩
          have htails : driveTail o.spelling = driveTail o.identity.render := by
            rw [Operand.spelling, Identity.render, hroot, hidentity, Root.text, Root.text,
              serialize_drive, serialize_drive, htail, htail, lower_lower]
          simp only [hroot, hidentity, hdrive hd, hdrive hlower, htails, Bool.not_true, Bool.and_false,
            Bool.false_eq_true, if_false]
        · have hextended (e : α) : (isWindowsRoot (Root.extendedDrive e).text &&
              !hasDriveRoot (Root.extendedDrive e).text) = true := by
            rw [isWindowsRoot_text]
            exact congrArg not hasDriveRoot_slash_cons
          simp only [hroot, hidentity, hextended, if_true]

/-! ## `relative` -/

/-- Two roots that differ by the case of the drive letter only, with the target inside the root. -/
def SpelledApart (o q : Operand α) : Prop :=
  o.root.text ≠ q.root.text ∧ o.identity.root.text = q.identity.root.text ∧
    o.identity.parts <+: q.identity.parts

theorem relative_spelling_eq_iff (o q : Operand α) :
    relative o.spelling q.spelling = relative o.identity.render q.identity.render ↔
      ¬SpelledApart o q := by
  -- a relative operand is refused before its spelling matters
  cases ho : o.root.isAbsolute with
  | false =>
      have ho' : o.identity.root.isAbsolute = false := by
        rw [← o.isAbsolute_root, ho]
      have herror := canonicalParts_spelling_relative o ho
      have herror' := canonicalParts_spelling_relative (.ofIdentity o.identity) ho'
      rw [Operand.spelling_ofIdentity] at herror'
      refine iff_of_true (by rw [relative, herror, relative, herror']; rfl) ?_
      rintro ⟨hne, heq, -⟩
      rw [Root.text_eq_nil_iff.2 ho', eq_comm, Root.text_eq_nil_iff, ← q.isAbsolute_root,
        ← Root.text_eq_nil_iff] at heq
      exact hne (by rw [Root.text_eq_nil_iff.2 ho, heq])
  | true =>
      have ho' : o.identity.root.isAbsolute = true := by
        rw [← o.isAbsolute_root, ho]
      cases hq : q.root.isAbsolute with
      | false =>
          have hq' : q.identity.root.isAbsolute = false := by
            rw [← q.isAbsolute_root, hq]
          have herror := canonicalParts_spelling_relative q hq
          have herror' := canonicalParts_spelling_relative (.ofIdentity q.identity) hq'
          have hroot := canonicalParts_spelling (.ofIdentity o.identity) ho'
          rw [Operand.spelling_ofIdentity] at herror' hroot
          refine iff_of_true ?_ ?_
          · rw [relative, canonicalParts_spelling o ho, herror, relative, hroot, herror']
            rfl
          · rintro ⟨-, heq, -⟩
            exact Root.text_ne_nil ho' (heq.trans (Root.text_eq_nil_iff.2 hq'))
      | true =>
          have hq' : q.identity.root.isAbsolute = true := by
            rw [← q.isAbsolute_root, hq]
          have hfold (heq : o.root.text = q.root.text) :
              o.identity.root.text = q.identity.root.text := by
            rw [← o.root_fold, ← q.root_fold, ← lowercaseDrive_text o.root_valid,
              ← lowercaseDrive_text q.root_valid, heq]
          rw [relative_spelling o q ho hq, relative_render _ _ ho' hq', SpelledApart]
          by_cases hparts : o.identity.parts <+: q.identity.parts
          · by_cases hsame : o.root.text = q.root.text
            · simp [hsame, hfold hsame]
            · by_cases hident : o.identity.root.text = q.identity.root.text
              · simp [hsame, hident, hparts, newError]
              · simp [hsame, hident]
          · simp [hparts]

/-! ## `join` -/

/-- The relative paths that `join` appends: unrooted text whose `..` stay inside it. -/
structure Appendable (rel : List α) : Prop where
  ne_nil : rel ≠ []
  nul_not_mem : nul ∉ rel
  not_rooted : rel.head? ≠ some (chr '/')
  not_drive : needsRelativeMarker rel = false
  inside : ∃ parts, resolve false rel = some parts

theorem appendable_iff {rel : List α} :
    Appendable rel ↔ ∃ out, normalizeCanonicalRelative rel = .ok out := by
  constructor
  · rintro ⟨hne, hnul, hrooted, hdrive, parts, hparts⟩
    exact ⟨_, normalizeCanonicalRelative_eq_ok_iff.2
      ⟨hne, hnul, Splits.relative hrooted hdrive, parts, hparts, rfl⟩⟩
  · rintro ⟨out, hout⟩
    rcases normalizeCanonicalRelative_eq_ok_iff.1 hout with ⟨hne, hnul, hsplits, parts, hparts, -⟩
    cases hsplits with
    | relative hrooted hdrive =>
        exact ⟨hne, hnul, hrooted, hdrive, parts, hparts⟩

/-- `join` writes the root spelling back, so it succeeds with an unfolded drive letter. -/
theorem join_spelling_of_appendable (o : Operand α) {rel : List α}
    (hbackslash : o.root.isWindows = true → chr '\\' ∉ rel) (h : Appendable rel) :
    ∃ more, resolve false rel = some more ∧
      join o.spelling rel = .ok (serialize o.root.text (o.identity.parts ++ more)) := by
  rcases h.inside with ⟨more, hmore⟩
  exact ⟨more, hmore, (join_spelling_eq_ok_iff o).2 ⟨hbackslash, h.ne_nil, h.nul_not_mem,
    Splits.relative h.not_rooted h.not_drive, more, hmore, rfl⟩⟩

/-- What `join` refuses, it refuses behind every root of one kind with the same error. -/
theorem join_spelling_of_not_appendable (o : Operand α) {rel : List α} (h : ¬Appendable rel) :
    join o.spelling rel = join o.identity.render rel := by
  rw [join, join, parseCleanCanonical_spelling, parseCleanCanonical_render, Outcome.ok_bind,
    Outcome.ok_bind, isWindowsRoot_text, isWindowsRoot_text, o.isWindows_root]
  cases hrel : normalizeCanonicalRelative rel with
  | ok out =>
      exact absurd (appendable_iff.2 ⟨out, hrel⟩) h
  | error err =>
      rfl

theorem serialize_spelling_eq_iff (o : Operand α) (parts : List (List α)) :
    serialize o.root.text parts = serialize o.identity.root.text parts ↔
      o.spelling = o.identity.render := by
  rcases exists_serialize_eq_append parts o.root_valid with ⟨tail, hvalue, hlower⟩
  rw [o.root_fold] at hlower
  rw [hvalue, hlower, List.append_cancel_right_eq, o.spelling_eq_render_iff]

theorem join_spelling_eq_iff (o : Operand α) {rel : List α} :
    join o.spelling rel = join o.identity.render rel ↔
      o.spelling = o.identity.render ∨ chr '\\' ∈ rel ∨ ¬Appendable rel := by
  by_cases hsame : o.spelling = o.identity.render
  · exact iff_of_true (by rw [hsame]) (Or.inl hsame)
  have hwindows : o.root.isWindows = true := o.isWindows_of_ne_render hsame
  by_cases hbackslash : chr '\\' ∈ rel
  · refine iff_of_true ?_ (Or.inr (Or.inl hbackslash))
    rw [join, join, parseCleanCanonical_spelling, parseCleanCanonical_render, Outcome.ok_bind,
      Outcome.ok_bind, isWindowsRoot_text, isWindowsRoot_text, ← o.isWindows_root, hwindows,
      if_pos ⟨rfl, hbackslash⟩, if_pos ⟨rfl, hbackslash⟩]
  by_cases happend : Appendable rel
  · refine iff_of_false ?_ (by simp [hsame, hbackslash, happend])
    rcases join_spelling_of_appendable o (fun _ => hbackslash) happend with ⟨more, hmore, hjoin⟩
    rcases join_spelling_of_appendable (.ofIdentity o.identity) (fun _ => hbackslash) happend with
      ⟨more', hmore', hjoin'⟩
    rw [hmore, Option.some.injEq] at hmore'
    rw [Operand.spelling_ofIdentity, ← hmore'] at hjoin'
    rw [hjoin, hjoin']
    intro heq
    exact hsame ((serialize_spelling_eq_iff o _).1 (Except.ok.inj heq))
  · exact iff_of_true (join_spelling_of_not_appendable o happend) (Or.inr (Or.inr happend))

/-! ## All operations -/

/-- The operations give one result on `root` and `target` and on the identities `root'` and `target'`:
joins are canonical, and a target inside the root is found there. -/
structure FactorsThrough (root target root' target' rel : Bytes) (wsl : WSLOptions UInt8) : Prop where
  relative_eq : relative root target = relative root' target'
  join_eq : join root rel = join root' rel
  toWin32_eq : toWin32 root = toWin32 root'
  toWSL_eq : toWSL root wsl = toWSL root' wsl
  join_canonical : ∀ q, join root rel = .ok q →
    normalize q { sourceHost := some .canonical } = .ok q
  relative_inside : ∀ rootPrefix rootParts targetParts, CanonicalAbsolute root' rootPrefix rootParts →
    CanonicalAbsolute target' rootPrefix targetParts → rootParts <+: targetParts →
      ∀ e, relative root target = .error e → e.code ≠ .outsideRoot

theorem join_spelling_canonical (o : Operand UInt8) {rel q : Bytes}
    (hsame : o.spelling = o.identity.render ∨ chr '\\' ∈ rel ∨ ¬Appendable rel)
    (h : join o.spelling rel = .ok q) : normalize q { sourceHost := some .canonical } = .ok q := by
  rw [(join_spelling_eq_iff o).2 hsame] at h
  rcases exists_identity_of_join o.identity h with ⟨r, -, rfl, -⟩
  exact normalize_canonical_render r

/-- Inside a root with the same spelling nothing is outside. -/
theorem relative_spelling_inside (o q : Operand UInt8) (h : ¬SpelledApart o q)
    {rootPrefix : Bytes} {rootParts targetParts : List Bytes}
    (hroot : CanonicalAbsolute o.identity.render rootPrefix rootParts)
    (htarget : CanonicalAbsolute q.identity.render rootPrefix targetParts)
    (hparts : rootParts <+: targetParts) :
    ∀ e, relative o.spelling q.spelling = .error e → e.code ≠ .outsideRoot := by
  rcases ((relative_join_inverse hroot).1 _ _ _ htarget).1.2 ⟨rfl, hparts⟩ with ⟨rel, hrel⟩
  rw [(relative_spelling_eq_iff o q).2 h, hrel]
  intro e herror
  exact absurd herror (by simp)

/-- The canonical operations factor through canonical identity exactly when `join` has no upper-case
drive letter to write back and `relative` no drive letter in two cases to compare. -/
theorem operations_factor_iff {root target rootPrefix rootRest targetPrefix targetRest : Bytes}
    (hroot : parseCleanCanonical root = .ok (rootPrefix, rootRest))
    (htarget : parseCleanCanonical target = .ok (targetPrefix, targetRest)) (rel : Bytes)
    (wsl : WSLOptions UInt8) :
    ∃ root' target', normalize root { sourceHost := some .canonical } = .ok root' ∧
      normalize target { sourceHost := some .canonical } = .ok target' ∧
      (FactorsThrough root target root' target' rel wsl ↔
        (lowercaseDrive root = root ∨ chr '\\' ∈ rel ∨ ¬Appendable rel) ∧
          ¬(rootPrefix ≠ targetPrefix ∧ lowercaseDrive rootPrefix = lowercaseDrive targetPrefix ∧
            components rootRest <+: components targetRest)) := by
  rcases exists_operand_of_parseCleanCanonical hroot with ⟨o, rfl⟩
  rcases exists_operand_of_parseCleanCanonical htarget with ⟨q, rfl⟩
  rw [parseCleanCanonical_spelling] at hroot htarget
  simp only [Except.ok.injEq, Prod.mk.injEq] at hroot htarget
  rcases hroot with ⟨rfl, rfl⟩
  rcases htarget with ⟨rfl, rfl⟩
  refine ⟨o.identity.render, q.identity.render, normalizeWith_canonical_spelling o,
    normalizeWith_canonical_spelling q, ?_⟩
  -- the conditions on the strings are the conditions on the operands
  have hapart : (o.root.text ≠ q.root.text ∧
      lowercaseDrive o.root.text = lowercaseDrive q.root.text ∧
        components (joinOn (chr '/') o.identity.parts) <+:
          components (joinOn (chr '/') q.identity.parts)) ↔ SpelledApart o q := by
    rw [lowercaseDrive_text o.root_valid, lowercaseDrive_text q.root_valid, o.root_fold, q.root_fold,
      components_joinOn o.identity.parts_valid, components_joinOn q.identity.parts_valid]
    rfl
  have hfolded : lowercaseDrive o.spelling = o.spelling ↔ o.spelling = o.identity.render := by
    rw [o.lowercaseDrive_spelling, eq_comm]
  rw [hapart, hfolded]
  constructor
  · intro h
    exact ⟨(join_spelling_eq_iff o).1 h.join_eq, (relative_spelling_eq_iff o q).1 h.relative_eq⟩
  · rintro ⟨hjoin, hrelative⟩
    exact {
      relative_eq := (relative_spelling_eq_iff o q).2 hrelative
      join_eq := (join_spelling_eq_iff o).2 hjoin
      toWin32_eq := toWin32_spelling o
      toWSL_eq := toWSL_spelling o wsl
      join_canonical := fun _ h => join_spelling_canonical o hjoin h
      relative_inside := fun _ _ _ hp hq hparts => relative_spelling_inside o q hrelative hp hq hparts
    }

/-- Two spellings of one drive letter, in a relative path that `join` appends. -/
theorem operations_factor_drive :
    ∃ root' target', normalize (lit "C:/a") { sourceHost := some .canonical } = .ok root' ∧
      normalize (lit "c:/a/b") { sourceHost := some .canonical } = .ok target' ∧
      (FactorsThrough (lit "C:/a") (lit "c:/a/b") root' target' (lit "b") {} ↔
        (lowercaseDrive (lit "C:/a" : Bytes) = lit "C:/a" ∨ chr '\\' ∈ (lit "b" : Bytes) ∨
            ¬Appendable (lit "b" : Bytes)) ∧
          ¬((lit "C:/" : Bytes) ≠ lit "c:/" ∧
            lowercaseDrive (lit "C:/" : Bytes) = lowercaseDrive (lit "c:/") ∧
              components (lit "a" : Bytes) <+: components (lit "a/b"))) :=
  operations_factor_iff (by decide) (by decide) (lit "b") {}

/-- With an upper-case root the join is not canonical and the target is not found. -/
theorem operations_not_factor :
    (∃ split, parseCleanCanonical (lit "C:/a" : Bytes) = .ok split) ∧
      (∃ split, parseCleanCanonical (lit "c:/a/b" : Bytes) = .ok split) ∧
      normalize (lit "C:/a") { sourceHost := some .canonical } = .ok (lit "c:/a") ∧
      normalize (lit "c:/a/b") { sourceHost := some .canonical } = .ok (lit "c:/a/b") ∧
      ¬FactorsThrough (lit "C:/a") (lit "c:/a/b") (lit "c:/a") (lit "c:/a/b") (lit "b") {} ∧
      join (lit "C:/a" : Bytes) (lit "b") = .ok (lit "C:/a/b") ∧
      join (lit "c:/a" : Bytes) (lit "b") = .ok (lit "c:/a/b") ∧
      relative (lit "C:/a" : Bytes) (lit "c:/a/b") =
        newError .outsideRoot "target is outside root" ∧
      relative (lit "c:/a" : Bytes) (lit "c:/a/b") = .ok (lit "b") := by
  refine ⟨⟨(lit "C:/", lit "a"), by decide⟩, ⟨(lit "c:/", lit "a/b"), by decide⟩, by decide, by decide,
    fun h => absurd h.join_eq (by decide), by decide, by decide, by decide, by decide⟩

end CanonicalPath
