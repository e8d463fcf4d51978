import CanonicalPath.Go.Relative
import CanonicalPath.Identity.Composition

/-!
# Strict — what the strict validator of relative input returns

`normalizeRelative` tests the raw text for roots and drives, and cleans it afterwards.  Cleanup can move
a later component to the front, and nothing looks at it there:

* `FrontsDrive` : a component that looks like a drive is the first one that cleanup leaves
* `normalizeRelative_eq_ok_iff` : what the validator accepts and returns
* `safeRelative_of_not_frontsDrive` : a result is stable and stays inside every root unless cleanup leaves
  a drive at its front
-/

namespace CanonicalPath

open CodeUnit Segments Go DotStack

variable {α : Type} [DecidableEq α] [CodeUnit α]

/-! ## Components at the front -/

/-- A component begins with a letter and a colon, the ones before it resolve to nothing, and the ones
behind it do not go back above it. -/
def FrontsDrive (raw : List α) : Prop :=
  ∃ front part more below, raw.splitOn (chr '/') = front ++ part :: more ∧
    needsRelativeMarker part = true ∧ run false [] (front.map move) = some [] ∧
    run false [] (more.map move) = some below

/-- A component with a drive marker is a name. -/
theorem isName_of_marker {part : List α} (h : needsRelativeMarker part = true) (hslash : chr '/' ∉ part) :
    IsName part := by
  obtain ⟨d, tail, hd, rfl⟩ := needsRelativeMarker_iff.1 h
  exact ⟨by simp, by simp [lit], by simp [lit], hslash⟩

theorem needsRelativeMarker_iff_frontsDrive {raw : List α} {parts : List (List α)}
    (h : resolve false raw = some parts) :
    needsRelativeMarker (joinOn (chr '/') parts) = true ↔ FrontsDrive raw := by
  rw [resolve] at h
  constructor
  · intro hmarker
    cases parts with
    | nil =>
        exact absurd hmarker (by simp [joinOn, needsRelativeMarker])
    | cons part below =>
        rw [needsRelativeMarker_joinOn] at hmarker
        obtain ⟨front, more, hmoves, hfront, hmore⟩ := run_eq_cons_iff.1 h
        obtain ⟨front', rest', hsplit, rfl, hrest⟩ := List.map_eq_append_iff.1 hmoves
        obtain ⟨part', more', rfl, hpart, rfl⟩ := List.map_eq_cons_iff.1 hrest
        obtain ⟨rfl, -⟩ := move_eq_into_iff.1 hpart
        exact ⟨front', part', more', below, hsplit, hmarker, hfront, hmore⟩
  · intro hfronts
    obtain ⟨front, part, more, below, hsplit, hmarker, hfront, hmore⟩ := hfronts
    have hmem : part ∈ raw.splitOn (chr '/') := by
      rw [hsplit]
      simp
    have hname : IsName part := isName_of_marker hmarker (not_mem_of_mem_splitOn hmem)
    have hrun : run false [] ((raw.splitOn (chr '/')).map move) = some (part :: below) := by
      apply run_eq_cons_iff.2
      refine ⟨front.map move, more.map move, ?_, hfront, hmore⟩
      rw [hsplit, List.map_append, List.map_cons, move_name hname]
    rw [hrun] at h
    obtain rfl := Option.some.inj h
    rw [needsRelativeMarker_joinOn]
    exact hmarker

/-! ## The strict validator -/

/-- Text without a colon looks like no drive. -/
theorem needsRelativeMarker_of_noColon {value : List α} (h : chr ':' ∉ value) : needsRelativeMarker value = false := by
  rw [Bool.eq_false_iff]
  intro hmarker
  obtain ⟨d, rest, hd, rfl⟩ := needsRelativeMarker_iff.1 hmarker
  apply h
  simp

theorem hasPrefix_backslashes_of_plain {value : List α} (h : chr '\\' ∉ value) :
    hasPrefix value (lit "\\\\") = false := by
  rw [Bool.eq_false_iff]
  intro hshare
  obtain ⟨tail, rfl⟩ := hasPrefix_iff.1 hshare
  exact h (List.mem_append_left tail List.mem_cons_self)

theorem isAbsolutePathLike_of_plain {value : List α} (h : chr '\\' ∉ value) :
    isAbsolutePathLike value = (hasPrefix value (lit "/") || hasDriveRoot value) := by
  rw [isAbsolutePathLike, hasPrefix_backslashes_of_plain h, Bool.or_false, replaceAll_of_not_mem h]

theorem normalizeRelative_dot : normalizeRelative (lit "." : List α) = .ok (lit ".") := by
  rw [normalizeRelative, if_neg (by simp [lit]), if_pos rfl]

theorem resolve_dot : resolve false (lit "." : List α) = some [] :=
  resolve_serialize_relative fun _ h => absurd h List.not_mem_nil

theorem normalizeRelative_of_splits {raw : List α} (hdot : raw ≠ lit ".") (hne : raw ≠ []) (hnul : nul ∉ raw)
    (hback : chr '\\' ∉ raw) (hsplits : Splits raw .relative raw) :
    normalizeRelative raw = (resolve false raw).elim (newError .outsideRoot "relative path escapes root")
      fun parts =>
        if parts = [] then
          newError .emptyPath "relative path is empty after cleaning"
        else
          .ok (joinOn (chr '/') parts) := by
  obtain ⟨hroot, hdrive⟩ := splits_relative_iff.1 hsplits
  rw [normalizeRelative, if_neg hne, if_neg hdot, if_neg hnul, isAbsolutePathLike_of_plain hback, hroot,
    hdrive, if_neg hback, cleanLoop_eq, resolve]
  cases run false [] ((raw.splitOn (chr '/')).map move) with
  | none =>
      rfl
  | some parts =>
      rfl

/-- What the strict validator accepts and returns. -/
theorem normalizeRelative_eq_ok_iff {raw v : List α} :
    normalizeRelative raw = .ok v ↔ (raw = lit "." ∧ v = lit ".") ∨
      (nul ∉ raw ∧ chr '\\' ∉ raw ∧ Splits raw .relative raw ∧
        ∃ parts, resolve false raw = some parts ∧ parts ≠ [] ∧ v = joinOn (chr '/') parts) := by
  constructor
  · intro h
    by_cases hdot : raw = lit "."
    · rw [hdot, normalizeRelative_dot] at h
      exact Or.inl ⟨hdot, (Except.ok.inj h).symm⟩
    have hne : raw ≠ [] := by
      rintro rfl
      cases h
    -- a value that is returned has passed every check in front of the walk
    have hchecks : nul ∉ raw ∧ chr '\\' ∉ raw ∧ Splits raw .relative raw := by
      rw [normalizeRelative, if_neg hne, if_neg hdot] at h
      by_cases hnul : nul ∈ raw
      · rw [if_pos hnul] at h
        cases h
      by_cases habsolute : isAbsolutePathLike raw = true
      · rw [if_neg hnul, if_pos habsolute] at h
        cases h
      by_cases hdrive : isDriveRelative raw = true
      · rw [if_neg hnul, if_neg habsolute, if_pos hdrive] at h
        cases h
      by_cases hback : chr '\\' ∈ raw
      · rw [if_neg hnul, if_neg habsolute, if_neg hdrive, if_pos hback] at h
        cases h
      rw [isAbsolutePathLike_of_plain hback] at habsolute
      exact ⟨hnul, hback, splits_relative_iff.2 ⟨Bool.eq_false_iff.2 habsolute, Bool.eq_false_iff.2 hdrive⟩⟩
    obtain ⟨hnul, hback, hsplits⟩ := hchecks
    rw [normalizeRelative_of_splits hdot hne hnul hback hsplits] at h
    cases hresolve : resolve false raw with
    | none =>
        rw [hresolve] at h
        cases h
    | some parts =>
        rw [hresolve, Option.elim_some] at h
        by_cases hnil : parts = []
        · rw [if_pos hnil] at h
          cases h
        · rw [if_neg hnil] at h
          exact Or.inr ⟨hnul, hback, hsplits, parts, rfl, hnil, (Except.ok.inj h).symm⟩
  · rintro (⟨rfl, rfl⟩ | ⟨hnul, hback, hsplits, parts, hresolve, hnil, rfl⟩)
    · exact normalizeRelative_dot
    · -- nothing is left of the dot and of the empty value
      have hdot : raw ≠ lit "." := by
        rintro rfl
        rw [resolve_dot] at hresolve
        exact hnil (Option.some.inj hresolve).symm
      have hne : raw ≠ [] := by
        rintro rfl
        rw [resolve_nil] at hresolve
        exact hnil (Option.some.inj hresolve).symm
      rw [normalizeRelative_of_splits hdot hne hnul hback hsplits, hresolve, Option.elim_some, if_neg hnil]

/-! ## Safe relative paths -/

/-- The operations of a port on relative paths, and those that consume them. -/
structure RelativeOps (α : Type) where
  normalizeRelative : List α → Except PathError (List α)
  isAbsolutePathLike : List α → Bool
  hasDriveRoot : List α → Bool
  isDriveRelative : List α → Bool
  canonicalParts : List α → Except PathError (List α × List (List α))
  join : List α → List α → Except PathError (List α)

/-- A relative path that its validator returns unchanged, that looks neither absolute nor like a drive,
and that joins below every canonical absolute root. -/
structure SafeRelative (ops : RelativeOps α) (v : List α) : Prop where
  normalized : ops.normalizeRelative v = .ok v
  not_absolute : ops.isAbsolutePathLike v = false
  not_driveRoot : ops.hasDriveRoot v = false
  not_driveRelative : ops.isDriveRelative v = false
  inside : ∀ root rootPrefix parts, ops.canonicalParts root = .ok (rootPrefix, parts) →
    ∃ target below, ops.join root v = .ok target ∧ ops.canonicalParts target = .ok (rootPrefix, parts ++ below)

namespace Go

def relativeOps : RelativeOps α where
  normalizeRelative := normalizeRelative
  isAbsolutePathLike := isAbsolutePathLike
  hasDriveRoot := hasDriveRoot
  isDriveRelative := isDriveRelative
  canonicalParts := canonicalParts
  join := join

end Go

/-- The operand reached by descending through more components. -/
theorem canonicalParts_below (o : Operand α) (habs : o.root.isAbsolute = true) {more : List (List α)}
    (hnames : ∀ part ∈ more, IsName part) (hnul : ∀ part ∈ more, nul ∉ part)
    (hback : ∀ part ∈ more, chr '\\' ∉ part) :
    canonicalParts (serialize o.root.text (o.identity.parts ++ more)) =
      .ok (o.root.text, o.identity.parts ++ more) := by
  let deeper : Operand α :=
    { o with
      identity := o.identity.below more hnames hnul fun _ => hback
      root_fold := o.root_fold }
  exact canonicalParts_spelling deeper habs

/-- Plain relative text joins below every root. -/
theorem join_inside {v root rootPrefix : List α} {more parts : List (List α)} (hne : v ≠ []) (hnul : nul ∉ v)
    (hback : chr '\\' ∉ v) (hsplits : Splits v .relative v) (hmore : resolve false v = some more)
    (hroot : canonicalParts root = .ok (rootPrefix, parts)) :
    ∃ target below, join root v = .ok target ∧ canonicalParts target = .ok (rootPrefix, parts ++ below) := by
  obtain ⟨o, habs, rfl, hparts⟩ : ∃ o : Operand α, o.root.isAbsolute = true ∧ root = o.spelling ∧
      (rootPrefix, parts) = (o.root.text, o.identity.parts) := by
    obtain ⟨split, hparse, -⟩ := Outcome.bind_eq_ok_iff.1 hroot
    obtain ⟨o, rfl⟩ := exists_operand_of_parseCleanCanonical hparse
    cases habs : o.root.isAbsolute with
    | false =>
        rw [canonicalParts_spelling_relative o habs] at hroot
        cases hroot
    | true =>
        rw [canonicalParts_spelling o habs] at hroot
        exact ⟨o, habs, rfl, (Except.ok.inj hroot).symm⟩
  obtain ⟨rfl, rfl⟩ := Prod.mk.inj hparts
  refine ⟨_, more, (join_spelling_eq_ok_iff o).2 ⟨fun _ => hback, hne, hnul, hsplits, more, hmore, rfl⟩, ?_⟩
  apply canonicalParts_below o habs (isName_of_resolve hmore)
  · exact fun part hpart hmem => hnul (mem_of_resolve hmore hpart hmem)
  · exact fun part hpart hmem => hback (mem_of_resolve hmore hpart hmem)

theorem safeRelative_of_splits {v : List α} {more : List (List α)} (hnorm : normalizeRelative v = .ok v)
    (hne : v ≠ []) (hnul : nul ∉ v) (hback : chr '\\' ∉ v) (hsplits : Splits v .relative v)
    (hmore : resolve false v = some more) : SafeRelative Go.relativeOps v where
  normalized := hnorm
  not_absolute := (isAbsolutePathLike_of_plain hback).trans (splits_relative_iff.1 hsplits).1
  not_driveRoot := (Bool.or_eq_false_iff.1 (splits_relative_iff.1 hsplits).1).2
  not_driveRelative := (splits_relative_iff.1 hsplits).2
  inside := fun _ _ _ hroot => join_inside hne hnul hback hsplits hmore hroot

omit [DecidableEq α] in
theorem not_mem_joinOn_slash {parts : List (List α)} {x : α} (hx : x ≠ chr '/') (h : ∀ part ∈ parts, x ∉ part) :
    x ∉ joinOn (chr '/') parts := by
  intro hmem
  rcases mem_joinOn hmem with hslash | ⟨part, hpart, hmem⟩
  · exact hx hslash
  · exact h part hpart hmem

/-- What a result says about the components of its input. -/
theorem exists_resolve_of_normalizeRelative {raw v : List α} (h : normalizeRelative raw = .ok v) :
    ∃ parts, resolve false raw = some parts ∧ needsRelativeMarker v = needsRelativeMarker (joinOn (chr '/') parts) := by
  rcases normalizeRelative_eq_ok_iff.1 h with ⟨rfl, rfl⟩ | ⟨-, -, -, parts, hresolve, -, rfl⟩
  · exact ⟨[], resolve_dot, by simp [lit, joinOn, needsRelativeMarker]⟩
  · exact ⟨parts, hresolve, rfl⟩

/-- A result that looks like no drive has none at its front. -/
theorem not_frontsDrive {raw v : List α} (h : normalizeRelative raw = .ok v) (hroot : hasDriveRoot v = false)
    (hrelative : isDriveRelative v = false) : ¬FrontsDrive raw := by
  obtain ⟨parts, hresolve, hmarker⟩ := exists_resolve_of_normalizeRelative h
  -- a marker is a drive root or a drive-relative path
  rw [isDriveRelative_eq, hroot, Bool.not_false, Bool.and_true, hmarker] at hrelative
  rw [← needsRelativeMarker_iff_frontsDrive hresolve, hrelative]
  exact Bool.false_ne_true

theorem safeRelative_of_not_frontsDrive {raw v : List α} (h : normalizeRelative raw = .ok v)
    (hfronts : ¬FrontsDrive raw) : SafeRelative Go.relativeOps v := by
  rcases normalizeRelative_eq_ok_iff.1 h with ⟨rfl, rfl⟩ | ⟨hnul, hback, -, parts, hresolve, hnil, rfl⟩
  · have hsplits : Splits (lit "." : List α) .relative (lit ".") :=
      splits_serialize_relative fun _ h => absurd h List.not_mem_nil
    exact safeRelative_of_splits normalizeRelative_dot (by simp [lit]) (by simp [lit]) (by simp [lit]) hsplits resolve_dot
  · rw [← needsRelativeMarker_iff_frontsDrive hresolve] at hfronts
    have hnames := isName_of_resolve hresolve
    have hjoin : resolve false (joinOn (chr '/') parts) = some parts := resolve_joinOn hnames
    have hjoinNul : nul ∉ joinOn (chr '/') parts :=
      not_mem_joinOn_slash (by simp) fun part hpart hmem => hnul (mem_of_resolve hresolve hpart hmem)
    have hjoinBack : chr '\\' ∉ joinOn (chr '/') parts :=
      not_mem_joinOn_slash (by simp) fun part hpart hmem => hback (mem_of_resolve hresolve hpart hmem)
    have hsplits : Splits (joinOn (chr '/') parts) .relative (joinOn (chr '/') parts) :=
      Splits.relative (head?_joinOn_ne_slash hnames) (Bool.eq_false_iff.2 hfronts)
    have hnorm : normalizeRelative (joinOn (chr '/') parts) = .ok (joinOn (chr '/') parts) :=
      normalizeRelative_eq_ok_iff.2 (Or.inr ⟨hjoinNul, hjoinBack, hsplits, parts, hjoin, hnil, rfl⟩)
    have hne : joinOn (chr '/') parts ≠ [] := mt (joinOn_parts_eq_nil_iff hnames).1 hnil
    exact safeRelative_of_splits hnorm hne hjoinNul hjoinBack hsplits hjoin

end CanonicalPath
