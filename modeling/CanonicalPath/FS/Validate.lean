import CanonicalPath.FS.Path

/-!
# Validate — relative paths of the root-bound filesystem

`validate.go` of the filesystem layer, on bytes.  `cleanRelative` guards every operation that takes a
name; what it accepts and returns is `cleanRelative_eq_ok_iff`.
-/

namespace CanonicalPath

namespace FS

open CodeUnit Segments Go DotStack

/-! ## Errors -/

/-- The stable codes of the filesystem layer. -/
inductive ErrorCode
  | absolutePath
  | archiveTraversal
  | driveRelativePath
  | nulByte
  | outsideRoot
  | raceDetected
  | readLimitExceeded
  | symlinkEscape
  deriving DecidableEq, Repr

structure Error where
  code : ErrorCode
  message : String
  deriving DecidableEq, Repr

def ErrorCode.text : ErrorCode → String
  | .absolutePath => "ERR_ABSOLUTE_PATH"
  | .archiveTraversal => "ERR_ARCHIVE_TRAVERSAL"
  | .driveRelativePath => "ERR_DRIVE_RELATIVE_PATH"
  | .nulByte => "ERR_NUL_BYTE"
  | .outsideRoot => "ERR_OUTSIDE_ROOT"
  | .raceDetected => "ERR_RACE_DETECTED"
  | .readLimitExceeded => "ERR_READ_LIMIT_EXCEEDED"
  | .symlinkEscape => "ERR_SYMLINK_ESCAPE"

/-- `Error()` of an error. -/
def Error.text (error : Error) : String :=
  if error.message = "" then error.code.text else error.code.text ++ ": " ++ error.message

def newError {β : Type} (code : ErrorCode) (message : String) : Except Error β :=
  .error { code := code, message := message }

/-! ## The validator -/

def isAbsolutePathLike (rel : Bytes) : Bool :=
  if hasPrefix rel (lit "/") || hasPrefix rel (lit "\\\\") then
    true
  else
    match rel with
    | a :: b :: c :: _ => isLetter a && b == chr ':' && (c == chr '/' || c == chr '\\')
    | _ => false

def isDriveRelativePathLike : Bytes → Bool
  | a :: b :: more =>
      isLetter a && b == chr ':' &&
        match more with
        | [] => true
        | c :: _ => c != chr '/' && c != chr '\\'
  | _ => false

/-- The loop of `cleanRelative`. -/
def cleanParts : List Bytes → List Bytes → Except Error (List Bytes)
  | parts, [] => .ok parts
  | parts, part :: more =>
      if part = [] ∨ part = lit "." then
        cleanParts parts more
      else if part = lit ".." then
        if parts = [] then
          newError .outsideRoot "path escapes root"
        else
          cleanParts parts.dropLast more
      else
        cleanParts (parts ++ [part]) more

def cleanRelative (rel : Bytes) : Except Error Bytes :=
  if nul ∈ rel then
    newError .nulByte "path contains NUL"
  else if rel = [] ∨ rel = lit "." then
    .ok (lit ".")
  else if isAbsolutePathLike rel then
    newError .absolutePath "path must be relative to root"
  else if isDriveRelativePathLike rel then
    newError .driveRelativePath
      "Windows drive-relative paths are not accepted in CanonicalFS relative paths"
  else if chr '\\' ∈ rel then
    newError .outsideRoot "backslash separators are not accepted in CanonicalFS relative paths"
  else do
    let parts ← cleanParts [] (rel.splitOn (chr '/'))
    if parts = [] then .ok (lit ".") else .ok (Path.join parts)

/-! ## What it computes -/

/-- The tests on the whole path. -/
structure Relative (rel : Bytes) : Prop where
  nul_not_mem : nul ∉ rel
  backslash_not_mem : chr '\\' ∉ rel
  head_ne_slash : rel.head? ≠ some (chr '/')
  no_marker : needsRelativeMarker rel = false

/-- The spelling of components that are left. -/
def spell (parts : List Bytes) : Bytes :=
  if parts = [] then lit "." else joinOn (chr '/') parts

theorem cleanParts_eq (parts comps : List Bytes) :
    cleanParts parts comps =
      match run false parts (comps.map move) with
      | some parts' => .ok parts'
      | none => newError .outsideRoot "path escapes root" := by
  induction comps generalizing parts with
  | nil =>
      rfl
  | cons part comps ih =>
      rw [cleanParts, List.map_cons, move]
      split_ifs with hstay hup hparts
      · rw [ih, run_stay]
      · rw [hparts]
        rfl
      · rw [ih, run, step, if_neg (by simpa using hparts)]
        rfl
      · rw [ih, run_into]

/-- The two drive tests together: a letter and a colon. -/
theorem marker_iff {rel : Bytes} (h : hasPrefix rel (lit "/") = false)
    (hshare : hasPrefix rel (lit "\\\\") = false) :
    (isAbsolutePathLike rel || isDriveRelativePathLike rel) = needsRelativeMarker rel := by
  match rel with
  | [] => rfl
  | [a] =>
      simp only [isAbsolutePathLike, h, hshare]
      rfl
  | [a, b] =>
      simp only [isAbsolutePathLike, h, hshare]
      simp [isDriveRelativePathLike, needsRelativeMarker]
  | a :: b :: c :: more =>
      simp only [isAbsolutePathLike, h, hshare, isDriveRelativePathLike, needsRelativeMarker]
      rw [Bool.eq_iff_iff]
      simp
      tauto

theorem hasPrefix_backslashes {rel : Bytes} (h : chr '\\' ∉ rel) :
    hasPrefix rel (lit "\\\\") = false := by
  rw [Bool.eq_false_iff]
  intro hshare
  obtain ⟨tail, rfl⟩ := hasPrefix_iff.1 hshare
  exact h (List.mem_append_left tail List.mem_cons_self)

theorem relative_iff {rel : Bytes} : Relative rel ↔
    nul ∉ rel ∧ isAbsolutePathLike rel = false ∧ isDriveRelativePathLike rel = false ∧
      chr '\\' ∉ rel := by
  constructor
  · intro h
    have hslash : hasPrefix rel (lit "/") = false := by
      rw [Bool.eq_false_iff, ne_eq, hasPrefix_slash_iff]
      exact h.head_ne_slash
    have hmarker := marker_iff hslash (hasPrefix_backslashes h.backslash_not_mem)
    rw [h.no_marker, Bool.or_eq_false_iff] at hmarker
    exact ⟨h.nul_not_mem, hmarker.1, hmarker.2, h.backslash_not_mem⟩
  · intro ⟨hnul, habsolute, hdrive, hback⟩
    have hslash : hasPrefix rel (lit "/") = false := by
      rw [Bool.eq_false_iff]
      intro hslash
      simp [isAbsolutePathLike, hslash] at habsolute
    refine ⟨hnul, hback, ?_, ?_⟩
    · intro hhead
      rw [hasPrefix_slash_iff.2 hhead] at hslash
      cases hslash
    · rw [← marker_iff hslash (hasPrefix_backslashes hback), habsolute, hdrive]
      rfl

theorem spell_of_resolve {rel : Bytes} {parts : List Bytes} (h : resolve false rel = some parts) :
    (if parts = [] then lit "." else Path.join parts) = spell parts := by
  rw [spell]
  split_ifs with hnil
  · rfl
  · exact Path.join_names (isName_of_resolve h) hnil

theorem resolve_of_dot {rel : Bytes} (h : rel = [] ∨ rel = lit ".") :
    Relative rel ∧ resolve false rel = some [] := by
  rcases h with rfl | rfl
  · exact ⟨⟨List.not_mem_nil, List.not_mem_nil, Option.some_ne_none _ ∘ Eq.symm, rfl⟩, resolve_nil⟩
  · exact ⟨⟨by decide, by decide, by decide, rfl⟩, by decide⟩

/-- A path that passes the tests is resolved. -/
theorem cleanRelative_of_relative {rel : Bytes} (h : Relative rel) :
    cleanRelative rel =
      match resolve false rel with
      | some parts => .ok (spell parts)
      | none => newError .outsideRoot "path escapes root" := by
  by_cases hdot : rel = [] ∨ rel = lit "."
  · rw [cleanRelative, if_neg h.nul_not_mem, if_pos hdot, (resolve_of_dot hdot).2]
    rfl
  · obtain ⟨hnul, habsolute, hdrive, hback⟩ := relative_iff.1 h
    rw [cleanRelative, if_neg hnul, if_neg hdot, habsolute, hdrive, if_neg hback, cleanParts_eq]
    rcases hresolve : resolve false rel with _ | parts
    · rw [resolve] at hresolve
      rw [hresolve]
      rfl
    · have hspell := spell_of_resolve hresolve
      rw [resolve] at hresolve
      rw [hresolve]
      change (if parts = [] then Except.ok (lit ".") else Except.ok (Path.join parts)) = .ok (spell parts)
      rw [← hspell]
      split_ifs <;> rfl

theorem cleanRelative_of_not_relative {rel : Bytes} (h : ¬Relative rel) :
    ∃ error, cleanRelative rel = .error error := by
  by_cases hdot : rel = [] ∨ rel = lit "."
  · exact absurd (resolve_of_dot hdot).1 h
  · rw [cleanRelative, if_neg hdot]
    split_ifs with hnul habsolute hdrive hback
    · exact ⟨_, rfl⟩
    · exact ⟨_, rfl⟩
    · exact ⟨_, rfl⟩
    · exact ⟨_, rfl⟩
    · exact absurd (relative_iff.2 ⟨hnul, Bool.eq_false_iff.2 habsolute, Bool.eq_false_iff.2 hdrive, hback⟩) h

theorem cleanRelative_eq_ok_iff {rel clean : Bytes} :
    cleanRelative rel = .ok clean ↔
      Relative rel ∧ ∃ parts, resolve false rel = some parts ∧ spell parts = clean := by
  by_cases hrelative : Relative rel
  · rw [cleanRelative_of_relative hrelative, and_iff_right hrelative]
    rcases resolve false rel with _ | parts
    · constructor
      · intro h
        cases h
      · rintro ⟨parts, hparts, -⟩
        cases hparts
    · constructor
      · intro h
        exact ⟨parts, rfl, Except.ok.inj h⟩
      · rintro ⟨parts', hparts, hspell⟩
        cases hparts
        exact congrArg Except.ok hspell
  · obtain ⟨error, herror⟩ := cleanRelative_of_not_relative hrelative
    rw [herror]
    constructor
    · intro h
      cases h
    · intro h
      exact absurd h.1 hrelative

/-- What `cleanRelative` returns it accepts again, and returns unchanged, unless a component moved to
the front has a drive marker. -/
theorem cleanRelative_joinOn {parts : List Bytes} (h : ∀ part ∈ parts, IsName part) (hne : parts ≠ [])
    (hrelative : Relative (joinOn (chr '/') parts)) :
    cleanRelative (joinOn (chr '/') parts) = .ok (joinOn (chr '/') parts) := by
  apply cleanRelative_eq_ok_iff.2
  refine ⟨hrelative, parts, resolve_joinOn h, ?_⟩
  rw [spell, if_neg hne]

end FS

end CanonicalPath
