import CanonicalPath.Go.Relative
import CanonicalPath.Library.Outcome
import CanonicalPath.Rust.Core

/-!
# Ports rust — one grammar and one composition in Rust and in Go

The Rust port keeps a root as a struct and writes some tests in another order.  Function by function it computes what
the Go port computes, errors included.

* `splitRoot_eq` : the root parser
* `parseCleanCanonical_eq` : the operand check
* `join_eq` : composition
-/

namespace CanonicalPath

namespace Ports

namespace Rust

open CodeUnit Segments Outcome

variable {α : Type} [DecidableEq α] [CodeUnit α]

/-! ## Tests -/

theorem hasDriveRoot_eq (value : List α) : Rust.hasDriveRoot value = Go.hasDriveRoot value := by
  match value with
  | [] => rfl
  | [a] => rfl
  | [a, b] => rfl
  | a :: b :: c :: rest => rfl

theorem isDriveRelative_eq (value : List α) : Rust.isDriveRelative value = Go.isDriveRelative value := by
  match value with
  | [] => rfl
  | [a] => rfl
  | [a, b] => rw [Rust.isDriveRelative, Go.isDriveRelative, Bool.and_true]
  | a :: b :: c :: rest => rfl

theorem needsRelativeMarker_eq (value : List α) : Rust.needsRelativeMarker value = Go.needsRelativeMarker value := by
  match value with
  | [] => rfl
  | [a] => rfl
  | a :: b :: rest => rfl

theorem markRelative_eq (value : List α) : Rust.markRelative value = Go.markRelative value := by
  rw [Rust.markRelative, Go.markRelative, needsRelativeMarker_eq]

omit [CodeUnit α] in
theorem startsWith_eq (value leader : List α) : Rust.startsWith value leader = Go.hasPrefix value leader := by
  rw [Rust.startsWith, Go.hasPrefix]

omit [CodeUnit α] in
theorem endsWith_eq (value trailer : List α) : Rust.endsWith value trailer = Go.hasSuffix value trailer := by
  rw [Rust.endsWith, Go.hasSuffix]

theorem hasRelativeMarker_eq (value : List α) : Rust.hasRelativeMarker value = Go.hasRelativeMarker value := by
  rw [Rust.hasRelativeMarker, Go.hasRelativeMarker, Rust.stripPrefix, Go.hasPrefix]
  cases (lit "./" : List α).isPrefixOf value with
  | true =>
      exact needsRelativeMarker_eq (value.drop 2)
  | false =>
      rfl

theorem withoutRelativeMarker_eq (value : List α) : Rust.withoutRelativeMarker value = Go.withoutRelativeMarker value := by
  rw [Rust.withoutRelativeMarker, Go.withoutRelativeMarker, hasRelativeMarker_eq]

theorem lowercaseDrive_eq (value : List α) : Rust.lowercaseDrive value = Go.lowercaseDrive value := by
  rw [Rust.lowercaseDrive, Go.lowercaseDrive, hasDriveRoot_eq, hasDriveRoot_eq, startsWith_eq, List.append_assoc]

theorem isWindowsRoot_eq (rootPrefix : List α) : Rust.isWindowsRoot rootPrefix = Go.isWindowsRoot rootPrefix := by
  cases rootPrefix with
  | nil =>
      rfl
  | cons a rootPrefix =>
      rfl

/-! ## Roots -/

/-- The struct of a pair. -/
def struct (split : List α × List α) : Rust.SplitRoot α :=
  { rootPrefix := split.1, rest := split.2 }

theorem splitUncRoot_eq (value leader : List α) :
    Rust.splitUncRoot value leader = mapOk struct (Go.splitUNCRoot value leader) := by
  rw [Rust.splitUncRoot, Go.splitUNCRoot]
  rcases splitN (chr '/') 3 (value.drop leader.length) with _ | ⟨server, _ | ⟨share, more⟩⟩
  · rfl
  · -- without a second piece the share is empty
    exact if_pos (.inr (.inl rfl))
  simp only [List.getElem?_cons_zero, List.getElem?_cons_succ, Option.getD_some, or_assoc]
  split_ifs
  · rfl
  · cases more with
    | nil =>
        rfl
    | cons rest more =>
        rfl

omit [CodeUnit α] in
theorem stripPrefix_eq (value leader : List α) :
    Rust.stripPrefix value leader = if Go.hasPrefix value leader then some (value.drop leader.length) else none :=
  rfl

theorem rootOf_eq (value : List α) : Rust.rootOf value = mapOk struct (Go.splitRootSwitch value) := by
  rw [Rust.rootOf, Go.splitRootSwitch, stripPrefix_eq, stripPrefix_eq]
  simp only [hasDriveRoot_eq, isDriveRelative_eq, startsWith_eq]
  by_cases hext : Go.hasPrefix value (lit "//?/") = true
  · rw [if_pos hext, if_pos hext]
    have hdrop : value.drop (lit "//?/" : List α).length = value.drop 4 := rfl
    dsimp only
    rw [hdrop]
    by_cases hdrive : Go.hasDriveRoot (value.drop 4) = true
    · rw [if_pos hdrive, if_pos hdrive]
      rfl
    rw [if_neg hdrive, if_neg hdrive]
    by_cases hunc : Go.hasPrefix (value.drop 4) (lit "UNC/") = true
    · rw [if_pos hunc, if_pos hunc]
      exact splitUncRoot_eq value (lit "//?/UNC/")
    · rw [if_neg hunc, if_neg hunc]
      rfl
  rw [if_neg hext, if_neg hext]
  dsimp only
  by_cases hdrive : Go.hasDriveRoot value = true
  · rw [if_pos hdrive, if_pos hdrive]
    rfl
  rw [if_neg hdrive, if_neg hdrive]
  by_cases hunc : Go.hasPrefix value (lit "//") = true
  · rw [if_pos hunc, if_pos hunc]
    exact splitUncRoot_eq value (lit "//")
  rw [if_neg hunc, if_neg hunc]
  by_cases hslash : Go.hasPrefix value (lit "/") = true
  · rw [if_pos hslash, if_pos hslash]
    rfl
  rw [if_neg hslash, if_neg hslash]
  dsimp only
  split_ifs
  · rfl
  · rfl

theorem splitRoot_eq (value : List α) : Rust.splitRoot value = mapOk struct (Go.splitRoot value) := by
  rw [Rust.splitRoot, Go.splitRoot, rootOf_eq]
  apply bind_mapOk
  intro split
  have hwindows : Rust.isWindowsRoot (struct split).rootPrefix = Go.isWindowsRoot split.1 := isWindowsRoot_eq split.1
  rw [hwindows]
  split_ifs
  · rfl
  · rfl

/-! ## Dot cleanup -/

theorem cleanLoop_eq (absolute : Bool) (escape : PathError) (parts comps : List (List α)) :
    Rust.cleanLoop absolute escape parts comps = Go.cleanLoop absolute escape parts comps := by
  induction comps generalizing parts with
  | nil =>
      rfl
  | cons part comps ih =>
      have hstay : (part.isEmpty || part == lit ".") = true ↔ part = [] ∨ part = lit "." := by
        rw [Bool.or_eq_true, List.isEmpty_iff, beq_iff_eq]
      have hparts : (!parts.isEmpty) = true ↔ parts ≠ [] := by
        rw [Bool.not_eq_true', ← Bool.not_eq_true, List.isEmpty_iff]
      rw [Rust.cleanLoop, Go.cleanLoop]
      simp only [hstay, hparts, ih]

theorem serialize_eq (rootPrefix : List α) (parts : List (List α)) :
    Rust.serialize rootPrefix (joinOn (chr '/') parts) = Go.serialize rootPrefix parts := by
  rw [Rust.serialize, Go.serialize]
  simp only [List.isEmpty_iff, endsWith_eq, markRelative_eq]
  by_cases hroot : rootPrefix = []
  · rw [if_pos hroot, if_pos hroot]
  rw [if_neg hroot, if_neg hroot]
  -- the POSIX root is one that ends with a separator
  by_cases hposix : rootPrefix = lit "/"
  · have hsuffix : Go.hasSuffix (lit "/" : List α) (lit "/") = true := Go.hasSuffix_slash_iff.2 ⟨[], rfl⟩
    rw [if_pos hposix, hposix, hsuffix]
    rfl
  rw [if_neg hposix]
  split_ifs
  · rfl
  · rfl
  · rfl
  · rfl

theorem cleanCanonical_eq (value : List α) : Rust.cleanCanonical value = Go.cleanCanonical value := by
  rw [Rust.cleanCanonical, Go.cleanCanonical, splitRoot_eq]
  simp only [List.isEmpty_iff]
  by_cases hne : value = []
  · rw [if_pos hne, if_pos hne]
  by_cases hnul : nul ∈ value
  · rw [if_neg hne, if_pos hnul, if_neg hne, if_pos hnul]
  rw [if_neg hne, if_neg hnul, if_neg hne, if_neg hnul]
  cases Go.splitRoot value with
  | error e =>
      rfl
  | ok split =>
      have hroot : (!(Rust.lowercaseDrive (struct split).rootPrefix).isEmpty) = (Go.lowercaseDrive split.1 != []) := by
        rw [struct, lowercaseDrive_eq]
        cases Go.lowercaseDrive split.1 <;> rfl
      rw [mapOk_ok, ok_bind, ok_bind, hroot, cleanLoop_eq, struct, lowercaseDrive_eq]
      simp only [serialize_eq]

theorem parseCleanCanonical_eq (value : List α) :
    Rust.parseCleanCanonical value = mapOk struct (Go.parseCleanCanonical value) := by
  rw [Rust.parseCleanCanonical, Go.parseCleanCanonical, cleanCanonical_eq, splitRoot_eq, lowercaseDrive_eq]
  cases Go.cleanCanonical value with
  | error e =>
      rfl
  | ok cleaned =>
      rw [ok_bind, ok_bind]
      by_cases hdiffers : cleaned ≠ Go.lowercaseDrive value
      · rw [if_pos hdiffers, if_pos hdiffers]
        rfl
      rw [if_neg hdiffers, if_neg hdiffers]
      apply bind_mapOk
      intro split
      rw [struct]
      simp only [List.isEmpty_iff, withoutRelativeMarker_eq]
      split_ifs
      · rfl
      · rfl
      · rfl

/-! ## Composition -/

/-- A single dot passes every check in front of the walk. -/
theorem normalizeCanonicalRelative_eq (raw : List α) :
    Rust.normalizeCanonicalRelative raw = Go.normalizeCanonicalRelative raw := by
  rw [Rust.normalizeCanonicalRelative, Go.normalizeCanonicalRelative]
  simp only [List.isEmpty_iff, startsWith_eq, hasDriveRoot_eq, isDriveRelative_eq, cleanLoop_eq, markRelative_eq]
  by_cases hdot : raw = lit "."
  · have hne : ¬raw = [] := by
      rw [hdot]
      exact List.cons_ne_nil _ _
    have hnul : ¬nul ∈ raw := by
      rw [hdot]
      simp [lit]
    have hroot : (Go.hasPrefix raw (lit "/") || Go.hasDriveRoot raw) = false := by
      rw [hdot]
      simp [Go.hasPrefix, Go.hasDriveRoot, lit, List.isPrefixOf]
    have hdrive : Go.isDriveRelative raw = false := by
      rw [hdot]
      rfl
    rw [if_neg hne, if_pos hdot, if_neg hne, if_neg hnul, hroot, if_neg Bool.false_ne_true, hdrive,
      if_neg Bool.false_ne_true, if_pos hdot]
  · rw [if_neg hdot]
    split_ifs
    · rfl
    · rfl
    · rfl
    · rfl
    · rfl

theorem join_eq (root rel : List α) : Rust.join root rel = Go.join root rel := by
  rw [Rust.join, Go.join, parseCleanCanonical_eq]
  cases Go.parseCleanCanonical root with
  | error e =>
      rfl
  | ok split =>
      rw [mapOk_ok, ok_bind, ok_bind, struct]
      simp only [isWindowsRoot_eq, normalizeCanonicalRelative_eq, List.isEmpty_iff, endsWith_eq, markRelative_eq,
        withoutRelativeMarker_eq]
      by_cases hbackslash : Go.isWindowsRoot split.1 = true ∧ chr '\\' ∈ rel
      · rw [if_pos hbackslash, if_pos hbackslash]
      rw [if_neg hbackslash, if_neg hbackslash]
      cases Go.normalizeCanonicalRelative rel with
      | error e =>
          rfl
      | ok cleanRel =>
          rw [ok_bind, ok_bind]
          by_cases hdot : cleanRel = lit "."
          · rw [if_pos hdot, if_pos hdot]
          rw [if_neg hdot, if_neg hdot, Go.joinClean]
          split_ifs
          · rfl
          · rfl
          · rfl
          · rfl

end Rust

end Ports

end CanonicalPath
