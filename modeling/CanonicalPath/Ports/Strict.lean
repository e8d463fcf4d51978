import CanonicalPath.Identity.Strict
import CanonicalPath.Ports.Composition

/-!
# Strict — the strict validator in the two ports

TypeScript checks and cleans raw relative input as Go does, and what it returns is as safe.

* `normalizeRelative_eq` : the two validators
* `normalizeRelative_safe_iff` : the results of both are safe unless cleanup leaves a drive at the front
-/

namespace CanonicalPath

namespace Ports

open CodeUnit Segments Outcome DotStack

variable {α : Type} [DecidableEq α] [CodeUnit α]

/-! ## The validators -/

theorem isAbsolutePathLike_eq (value : List α) : TS.isAbsolutePathLike value = Go.isAbsolutePathLike value := by
  rw [TS.isAbsolutePathLike, Go.isAbsolutePathLike, startsWith_eq, startsWith_eq, hasDriveRoot_eq]

theorem normalizeRelativeLoop_eq (parts comps : List (List α)) :
    TS.normalizeRelativeLoop parts comps =
      Go.cleanLoop false { code := .outsideRoot, message := "relative path escapes root" } parts comps := by
  induction comps generalizing parts with
  | nil =>
      rfl
  | cons part comps ih =>
      rw [TS.normalizeRelativeLoop, Go.cleanLoop]
      by_cases hstay : part = [] ∨ part = lit "."
      · rw [if_pos hstay, if_pos hstay, ih]
      rw [if_neg hstay, if_neg hstay]
      by_cases hup : part = lit ".."
      · rw [if_pos hup, if_pos hup]
        by_cases hnil : parts = []
        · rw [if_pos (List.length_eq_zero_iff.2 hnil), if_neg (not_not_intro hnil)]
          rfl
        · rw [if_neg (mt List.length_eq_zero_iff.1 hnil), if_pos hnil, ih]
      · rw [if_neg hup, if_neg hup, ih]

theorem normalizeRelative_eq (raw : List α) : TS.normalizeRelative raw = Go.normalizeRelative raw := by
  rw [TS.normalizeRelative, Go.normalizeRelative]
  simp only [isAbsolutePathLike_eq, isDriveRelative_eq, normalizeRelativeLoop_eq, List.length_eq_zero_iff]

end Ports

namespace TS

variable {α : Type} [DecidableEq α] [CodeUnit α]

def relativeOps : RelativeOps α where
  normalizeRelative := normalizeRelative
  isAbsolutePathLike := isAbsolutePathLike
  hasDriveRoot := hasDriveRoot
  isDriveRelative := isDriveRelative
  canonicalParts := canonicalParts
  join := join

end TS

namespace Ports

open CodeUnit Segments Outcome DotStack

variable {α : Type} [DecidableEq α] [CodeUnit α]

/-! ## Safe relative paths -/

theorem exists_identity_of_canonicalParts {root rootPrefix : List α} {parts : List (List α)}
    (h : TS.canonicalParts root = .ok (rootPrefix, parts)) :
    ∃ p : Identity α, root = p.render ∧ p.root.isAbsolute = true ∧ rootPrefix = p.root.text ∧ parts = p.parts := by
  obtain ⟨parsed, hvalid, -⟩ := bind_eq_ok_iff.1 h
  obtain ⟨p, rfl⟩ := exists_identity_of_validateCanonical hvalid
  cases habs : p.root.isAbsolute with
  | false =>
      rw [canonicalParts_relative_ts p habs] at h
      cases h
  | true =>
      rw [canonicalParts_render_ts p habs] at h
      obtain ⟨hleads, hparts⟩ := Prod.mk.inj (Except.ok.inj h)
      exact ⟨p, rfl, habs, hleads.symm, hparts.symm⟩

/-- What is safe for Go is safe for TypeScript. -/
theorem safeRelative_ts {v : List α} (h : SafeRelative Go.relativeOps v) : SafeRelative TS.relativeOps v where
  normalized := (normalizeRelative_eq v).trans h.normalized
  not_absolute := (isAbsolutePathLike_eq v).trans h.not_absolute
  not_driveRoot := (hasDriveRoot_eq v).trans h.not_driveRoot
  not_driveRelative := (isDriveRelative_eq v).trans h.not_driveRelative
  inside := by
    intro root rootPrefix parts hroot
    obtain ⟨p, rfl, habs, rfl, rfl⟩ := exists_identity_of_canonicalParts hroot
    have hparts : Go.canonicalParts p.render = .ok (p.root.text, p.parts) :=
      canonicalParts_spelling (.ofIdentity p) habs
    obtain ⟨target, below, hjoin, htarget⟩ := h.inside _ _ _ hparts
    obtain ⟨r, more, rfl, hrootEq, hmore, -⟩ := exists_identity_of_join p hjoin
    have habs' : r.root.isAbsolute = true := by
      rw [hrootEq, habs]
    refine ⟨r.render, more, (join_render_iff p).1 hjoin, ?_⟩
    change TS.canonicalParts r.render = .ok (p.root.text, p.parts ++ more)
    rw [canonicalParts_render_ts r habs', hrootEq, hmore]

/-- A result of either validator is safe exactly when cleanup leaves no drive at its front. -/
theorem normalizeRelative_safe_iff (rawBytes goResult : Bytes) (rawUnits tsResult : Units) :
    (Go.normalizeRelative rawBytes = .ok goResult →
        (SafeRelative Go.relativeOps goResult ↔ ¬FrontsDrive rawBytes)) ∧
      (TS.normalizeRelative rawUnits = .ok tsResult →
        (SafeRelative TS.relativeOps tsResult ↔ ¬FrontsDrive rawUnits)) := by
  constructor
  · intro h
    exact ⟨fun hsafe => not_frontsDrive h hsafe.not_driveRoot hsafe.not_driveRelative,
      safeRelative_of_not_frontsDrive h⟩
  · intro h
    have hgo : Go.normalizeRelative rawUnits = .ok tsResult := (normalizeRelative_eq rawUnits).symm.trans h
    constructor
    · intro hsafe
      apply not_frontsDrive hgo
      · exact (hasDriveRoot_eq tsResult).symm.trans hsafe.not_driveRoot
      · exact (isDriveRelative_eq tsResult).symm.trans hsafe.not_driveRelative
    · intro hfronts
      exact safeRelative_ts (safeRelative_of_not_frontsDrive hgo hfronts)

theorem normalizeRelative_safe_plain :
    (SafeRelative Go.relativeOps (lit "a/b" : Bytes) ↔ ¬FrontsDrive (lit "x/../a/./b" : Bytes)) ∧
      (SafeRelative TS.relativeOps (lit "a/b" : Units) ↔ ¬FrontsDrive (lit "x/../a/./b" : Units)) :=
  ⟨(normalizeRelative_safe_iff _ _ (lit "x") (lit "x")).1 (by decide),
    (normalizeRelative_safe_iff (lit "x") (lit "x") _ _).2 (by decide)⟩

/-- Cleanup drops the dot, and the drive-relative rest is refused by the function that returned it. -/
theorem normalizeRelative_not_safe :
    Go.normalizeRelative (lit "./C:x" : Bytes) = .ok (lit "C:x") ∧
      ¬SafeRelative Go.relativeOps (lit "C:x" : Bytes) ∧
        TS.normalizeRelative (lit "./C:x" : Units) = .ok (lit "C:x") ∧
          ¬SafeRelative TS.relativeOps (lit "C:x" : Units) := by
  refine ⟨by decide, ?_, by decide, ?_⟩
  · intro hsafe
    exact absurd (show Go.isDriveRelative (lit "C:x" : Bytes) = false from hsafe.not_driveRelative) (by decide)
  · intro hsafe
    exact absurd (show TS.isDriveRelative (lit "C:x" : Units) = false from hsafe.not_driveRelative) (by decide)

end Ports

end CanonicalPath
