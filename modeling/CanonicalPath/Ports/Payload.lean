import CanonicalPath.Identity.Component
import CanonicalPath.Ports.Strict
import CanonicalPath.Ports.Unity
import CanonicalPath.TS.Payload
import CanonicalPath.Unity.PathGuard

/-!
# Payload — one guard in the gateway and in the bridge

TypeScript and C# accept the same Unity payload paths and write the same file names.

* `Payload` : what both ask of a payload path
* `normalizeUnityAssetPath_eq_ok_iff`, `normalizeUnityPath_eq_ok_iff` : both accept exactly these
* `guards_agree` : the two guards
-/

namespace CanonicalPath

namespace Ports

open CodeUnit Segments Outcome

/-! ## Payload paths -/

section Paths

variable {α : Type} [DecidableEq α] [CodeUnit α]

/-- The components that cleanup keeps. -/
def visible (parts : List (List α)) : List (List α) :=
  parts.filter fun part => part != [] && part != lit "."

/-- What the guards ask of a payload, whose separators are slashes already, and what they return. -/
structure Payload (value clean : List α) : Prop where
  noSlash : Go.hasPrefix value (lit "/") = false
  noColon : chr ':' ∉ value
  noTraversal : lit ".." ∉ value.splitOn (chr '/')
  nonempty : visible (value.splitOn (chr '/')) ≠ []
  clean_eq : clean = joinOn (chr '/') (visible (value.splitOn (chr '/')))
  allowed : TS.isAllowedUnityRoot clean = true

theorem visible_cons_of_stay {part : List α} (h : part = [] ∨ part = lit ".") (rest : List (List α)) :
    visible (part :: rest) = visible rest := by
  apply List.filter_cons_of_neg
  rcases h with rfl | rfl
  · simp
  · simp

theorem visible_cons_of_not_stay {part : List α} (h : ¬(part = [] ∨ part = lit ".")) (rest : List (List α)) :
    visible (part :: rest) = part :: visible rest := by
  rw [not_or] at h
  apply List.filter_cons_of_pos
  simp [h.1, h.2]

omit [DecidableEq α] in
/-- The component that goes up is neither empty nor the dot. -/
theorem not_stay_up : ¬((lit ".." : List α) = [] ∨ (lit ".." : List α) = lit ".") := by
  simp [lit]

theorem payloadParts_eq (parts rest : List (List α)) :
    Unity.payloadParts parts rest =
      if lit ".." ∈ rest then
        .error (.argument "Unity path traversal is not allowed." "unityPath")
      else
        .ok (parts ++ visible rest) := by
  induction rest generalizing parts with
  | nil =>
      rw [Unity.payloadParts, if_neg List.not_mem_nil, visible, List.filter_nil, List.append_nil]
  | cons part rest ih =>
      rw [Unity.payloadParts]
      simp only [List.length_eq_zero_iff]
      by_cases hstay : part = [] ∨ part = lit "."
      · have hne : lit ".." ≠ part := by
          rintro rfl
          exact not_stay_up hstay
        have hmem : lit ".." ∈ part :: rest ↔ lit ".." ∈ rest := by
          rw [List.mem_cons, or_iff_right hne]
        rw [if_pos hstay, ih, visible_cons_of_stay hstay]
        simp only [hmem]
      · rw [if_neg hstay, visible_cons_of_not_stay hstay]
        by_cases hup : part = lit ".."
        · rw [if_pos hup, if_pos (hup ▸ List.mem_cons_self)]
        · have hmem : lit ".." ∈ part :: rest ↔ lit ".." ∈ rest := by
            rw [List.mem_cons, or_iff_right (Ne.symm hup)]
          rw [if_neg hup, ih, List.append_assoc, List.singleton_append]
          simp only [hmem]

theorem normalizeRelativeLoop_of_noTraversal {rest : List (List α)} (h : lit ".." ∉ rest) (parts : List (List α)) :
    TS.normalizeRelativeLoop parts rest = .ok (parts ++ visible rest) := by
  induction rest generalizing parts with
  | nil =>
      rw [TS.normalizeRelativeLoop, visible, List.filter_nil, List.append_nil]
  | cons part rest ih =>
      rw [List.mem_cons, not_or] at h
      rw [TS.normalizeRelativeLoop]
      by_cases hstay : part = [] ∨ part = lit "."
      · rw [if_pos hstay, ih h.2, visible_cons_of_stay hstay]
      · rw [if_neg hstay, if_neg (Ne.symm h.1), ih h.2, visible_cons_of_not_stay hstay, List.append_assoc,
          List.singleton_append]

/-- Past the checks of the guard the strict validator drops components only. -/
theorem normalizeRelative_of_checked {value : List α} (hnul : nul ∉ value) (hback : chr '\\' ∉ value)
    (hcolon : chr ':' ∉ value) (hup : lit ".." ∉ value.splitOn (chr '/')) (hne : value ≠ []) (hdot : value ≠ lit ".")
    {clean : List α} :
    TS.normalizeRelative value = .ok clean ↔
      Go.hasPrefix value (lit "/") = false ∧ visible (value.splitOn (chr '/')) ≠ [] ∧
        clean = joinOn (chr '/') (visible (value.splitOn (chr '/'))) := by
  have hmarker := needsRelativeMarker_of_noColon hcolon
  have habsolute : TS.isAbsolutePathLike value = Go.hasPrefix value (lit "/") := by
    rw [isAbsolutePathLike_eq, isAbsolutePathLike_of_plain hback, Go.hasDriveRoot_eq_false_of_marker hmarker,
      Bool.or_false]
  have hdrive : ¬TS.isDriveRelative value = true := by
    rw [isDriveRelative_eq, Go.isDriveRelative_eq, hmarker]
    exact Bool.false_ne_true
  rw [TS.normalizeRelative, if_neg hne, if_neg hdot, if_neg hnul, if_neg hdrive, if_neg hback,
    normalizeRelativeLoop_of_noTraversal hup, ok_bind, List.nil_append, habsolute]
  simp only [newError, ite_error_eq_ok_iff, List.length_eq_zero_iff, Except.ok.injEq, Bool.not_eq_true, ne_eq]
  rw [eq_comm (a := clean)]

theorem visible_dot : visible ((lit "." : List α).splitOn (chr '/')) = [] := by
  have hparts : (lit "." : List α).splitOn (chr '/') = [lit "."] := by
    have hsingle : (joinOn (chr '/') [lit "."]).splitOn (chr '/' : α) = [lit "."] :=
      splitOn_joinOn (by simp [lit]) (by simp)
    simpa [joinOn] using hsingle
  rw [hparts, visible_cons_of_stay (Or.inr rfl)]
  rfl

theorem not_allowed_dot : TS.isAllowedUnityRoot (lit "." : List α) = false := by
  simp [TS.isAllowedUnityRoot, TS.startsWith, lit, List.isPrefixOf]

theorem isDriveLeading_eq (value : List α) : TS.isDriveLeading value = Go.needsRelativeMarker value := by
  cases value with
  | nil =>
      rfl
  | cons a value =>
      cases value <;> rfl

theorem isAbsolutePayload_of_noColon {value : List α} (h : chr ':' ∉ value) :
    Unity.isAbsolutePayload value = Go.hasPrefix value (lit "/") := by
  have hdouble : Go.hasPrefix value (lit "//") = true → Go.hasPrefix value (lit "/") = true := by
    intro hleads
    obtain ⟨tail, rfl⟩ := Go.hasPrefix_iff.1 hleads
    exact Go.hasPrefix_iff.2 ⟨lit "/" ++ tail, rfl⟩
  have heq : Unity.isAbsolutePayload value =
      (Go.hasPrefix value (lit "/") || Go.hasPrefix value (lit "//") || Go.needsRelativeMarker value) := by
    cases value with
    | nil =>
        rfl
    | cons a value =>
        cases value <;> rfl
  rw [heq, needsRelativeMarker_of_noColon h, Bool.or_false, Bool.or_eq_left_iff_imp]
  exact hdouble

theorem normalizeUnityPath_eq_ok_iff {raw clean : List α} :
    Unity.normalizeUnityPath raw = .ok clean ↔
      raw ≠ [] ∧ nul ∉ raw ∧ Payload (replaceAll '\\' '/' raw) clean := by
  rw [Unity.normalizeUnityPath]
  simp only [ite_error_eq_ok_iff, bind_eq_ok_iff, payloadParts_eq, List.nil_append]
  constructor
  · rintro ⟨hne, hnul, habsolute, hcolon, parts, ⟨hup, hparts⟩, hnonempty, hallowed, hclean⟩
    cases hparts
    cases hclean
    rw [isAbsolutePayload_of_noColon hcolon] at habsolute
    exact ⟨hne, hnul, {
      noSlash := Bool.eq_false_iff.2 habsolute
      noColon := hcolon
      noTraversal := hup
      nonempty := mt List.length_eq_zero_iff.2 hnonempty
      clean_eq := rfl
      allowed := eq_true_of_ne_false hallowed
    }⟩
  · rintro ⟨hne, hnul, hpayload⟩
    have hallowed : Unity.isAllowedUnityRoot (joinOn (chr '/') (visible ((replaceAll '\\' '/' raw).splitOn (chr '/')))) = true :=
      hpayload.clean_eq ▸ hpayload.allowed
    refine ⟨hne, hnul, ?_, hpayload.noColon, _, ⟨hpayload.noTraversal, rfl⟩,
      mt List.length_eq_zero_iff.1 hpayload.nonempty, ?_, by rw [hpayload.clean_eq]⟩
    · rw [isAbsolutePayload_of_noColon hpayload.noColon, hpayload.noSlash]
      exact Bool.false_ne_true
    · rw [hallowed]
      exact Bool.noConfusion

theorem normalizeUnityAssetPath_eq_ok_iff {raw clean : List α} :
    TS.normalizeUnityAssetPath raw = .ok clean ↔
      raw ≠ [] ∧ nul ∉ raw ∧ Payload (replaceAll '\\' '/' raw) clean := by
  have hback : chr '\\' ∉ replaceAll '\\' '/' raw := chr_not_mem_replaceAll (by decide) (by decide) (by decide) raw
  have hnul : nul ∈ replaceAll '\\' '/' raw ↔ nul ∈ raw := chr_mem_replaceAll_iff (by simp) (by simp)
  have hnil : replaceAll '\\' '/' raw = [] ↔ raw = [] := List.map_eq_nil_iff
  rw [TS.normalizeUnityAssetPath]
  simp only [newError, ite_error_eq_ok_iff, bind_eq_ok_iff, isDriveLeading_eq, List.contains_iff_mem]
  rw [← hnul, ne_eq, ← hnil]
  -- from here on only the slashed text matters
  generalize replaceAll '\\' '/' raw = value at hback
  constructor
  · rintro ⟨hne, hnul, -, hup, hcolon, clean', hnormal, hallowed, heq⟩
    cases heq
    have hdot : value ≠ lit "." := by
      rintro rfl
      rw [normalizeRelative_eq, normalizeRelative_dot] at hnormal
      cases hnormal
      exact hallowed not_allowed_dot
    obtain ⟨hslash, hnonempty, heq⟩ := (normalizeRelative_of_checked hnul hback hcolon hup hne hdot).1 hnormal
    exact ⟨hne, hnul, hslash, hcolon, hup, hnonempty, heq, eq_true_of_ne_false hallowed⟩
  · rintro ⟨hne, hnul, hpayload⟩
    have hdot : value ≠ lit "." := by
      rintro rfl
      exact hpayload.nonempty visible_dot
    have hmarker : ¬Go.needsRelativeMarker value = true := by
      rw [needsRelativeMarker_of_noColon hpayload.noColon]
      exact Bool.false_ne_true
    have hnormal : TS.normalizeRelative value = .ok clean :=
      (normalizeRelative_of_checked hnul hback hpayload.noColon hpayload.noTraversal hne hdot).2
        ⟨hpayload.noSlash, hpayload.nonempty, hpayload.clean_eq⟩
    refine ⟨hne, hnul, hmarker, hpayload.noTraversal, hpayload.noColon, clean, hnormal, ?_, rfl⟩
    rw [hpayload.allowed]
    exact Bool.noConfusion

/-! ## File names -/

theorem isUnsafeFileNameChar_eq (a : α) : Unity.isUnsafeFileNameChar a = TS.isUnsafeUnit a := by
  rw [Unity.isUnsafeFileNameChar, TS.isUnsafeUnit, Bool.or_comm (a == chr '/')]

/-- Behind an unsafe unit the loop skips the rest of its run. -/
theorem replaceUnsafe_skip (input : List α) :
    Unity.replaceUnsafeFileNameChars true input =
      Unity.replaceUnsafeFileNameChars false (input.dropWhile TS.isUnsafeUnit) := by
  induction input with
  | nil =>
      rfl
  | cons a input ih =>
      rw [Unity.replaceUnsafeFileNameChars, isUnsafeFileNameChar_eq]
      by_cases hunsafe : TS.isUnsafeUnit a = true
      · rw [if_pos hunsafe, if_pos rfl, ih, List.dropWhile_cons_of_pos hunsafe]
      · rw [if_neg hunsafe, List.dropWhile_cons_of_neg hunsafe, Unity.replaceUnsafeFileNameChars,
          isUnsafeFileNameChar_eq, if_neg hunsafe]

/-- The flag of the loop and the longest runs of the pattern give the same text. -/
theorem replaceUnsafe_eq (input : List α) :
    Unity.replaceUnsafeFileNameChars false input = TS.replaceUnsafeRuns input := by
  induction input using TS.replaceUnsafeRuns.induct with
  | case1 =>
      rw [TS.replaceUnsafeRuns, Unity.replaceUnsafeFileNameChars]
  | case2 a input hunsafe ih =>
      rw [TS.replaceUnsafeRuns, if_pos hunsafe, Unity.replaceUnsafeFileNameChars, isUnsafeFileNameChar_eq,
        if_pos hunsafe, if_neg Bool.false_ne_true, replaceUnsafe_skip, ih]
  | case3 a input hsafe ih =>
      rw [TS.replaceUnsafeRuns, if_neg hsafe, Unity.replaceUnsafeFileNameChars, isUnsafeFileNameChar_eq,
        if_neg hsafe, ih]

theorem isTrimmed_eq : (fun a : α => decide (a ∈ lit " ._-")) = Unity.isTrimmed := by
  funext a
  rw [Bool.eq_iff_iff, decide_eq_true_eq, Unity.isTrimmed]
  simp [lit, or_assoc]

theorem escape_eq_go (value : List α) :
    TS.escapeReservedWin32Component value = Go.escapeReservedWin32Component value := by
  rw [TS.escapeReservedWin32Component, escapeReservedWin32Component_eq, isReservedDeviceBase_eq]

/-- Splitting at the first dot, by index or by the longest front without a dot. -/
theorem escapeReserved_eq (value : List α) :
    Unity.escapeReservedDeviceName value = TS.escapeReservedWin32Component value := by
  rw [escape_eq_go, Unity.escapeReservedDeviceName, Go.escapeReservedWin32Component]
  simp only [Unity.isReservedDeviceBase_eq]

theorem trimSafe_eq (value : List α) : Unity.trimSafe value = TS.trimGeneratedName value := by
  rw [Unity.trimSafe, TS.trimGeneratedName, TS.trimBoundaryCharacters, isTrimmed_eq]
  simp only [List.length_eq_zero_iff]
  rfl

end Paths

section Names

theorem guardedName_eq (input : Units) : Unity.guardedName input = TS.safeName input := by
  rw [Unity.guardedName, TS.safeName, replaceUnsafe_eq, escapeReserved_eq, TS.trimBoundaryCharacters, isTrimmed_eq]
  simp only [List.length_eq_zero_iff]
  rfl

/-- Four octets are eight digits. -/
theorem shortSha256_eq (sha256 : List UInt8 → Vector UInt8 32) (input : Units) :
    Unity.shortSha256 sha256 input = TS.shortHash sha256 input := by
  rw [Unity.shortSha256, TS.shortHash]
  rcases sha256 (transcode input) with ⟨⟨bytes⟩, hsize⟩
  rcases bytes with _ | ⟨a, _ | ⟨b, _ | ⟨c, _ | ⟨d, rest⟩⟩⟩⟩
  · cases hsize
  · cases hsize
  · cases hsize
  · cases hsize
  · rfl

/-- The order of the checks differs, not what they ask. -/
theorem makeSafeFileName_agrees (sha256 : List UInt8 → Vector UInt8 32) (input : Units) (maxLength : Int) :
    SameOutcome Eq (TS.makeSafeFileName sha256 input maxLength) (Unity.makeSafeFileName sha256 input maxLength) := by
  rw [TS.makeSafeFileName, Unity.makeSafeFileName, guardedName_eq, shortSha256_eq]
  simp only [trimSafe_eq]
  by_cases hne : input = []
  · rw [if_pos hne, if_pos hne]
    split_ifs
    · exact Rel.error trivial
    · exact Rel.error trivial
  rw [if_neg hne, if_neg hne]
  by_cases hnul : nul ∈ input
  · rw [if_pos hnul, if_pos hnul]
    split_ifs
    · exact Rel.error trivial
    · exact Rel.error trivial
  rw [if_neg hnul, if_neg hnul]
  split_ifs
  · exact Rel.error trivial
  · exact Rel.ok rfl
  · exact Rel.ok rfl
  · exact Rel.ok rfl

end Names

/-- The gateway and the bridge apply one payload guard. -/
theorem guards_agree (sha256 : List UInt8 → Vector UInt8 32) (text : List Char) (maxLength : Int) :
    SameOutcome Eq (TS.normalizeUnityAssetPath (utf16.encode text)) (Unity.normalizeUnityPath (utf16.encode text)) ∧
      SameOutcome Eq (TS.makeSafeFileName sha256 (utf16.encode text) maxLength)
        (Unity.makeSafeFileName sha256 (utf16.encode text) maxLength) := by
  constructor
  · rw [sameOutcome_eq_iff]
    intro clean
    rw [normalizeUnityAssetPath_eq_ok_iff, normalizeUnityPath_eq_ok_iff]
  · exact makeSafeFileName_agrees sha256 (utf16.encode text) maxLength

end Ports

end CanonicalPath
