import CanonicalPath.FS.Validate
import CanonicalPath.Identity.Strict
import CanonicalPath.Ports.Normalize

/-!
# Client — relative paths are validated by the client and by the daemon

`validate.ts` of the TypeScript client, which cleans every path before it is sent to the daemon and
cleaned there by `cleanRelative` again.

* `validateRelativePath_eq_ok_iff` : the client accepts and returns what the daemon does
* `cleaning_composes_iff` : both compositions give the first result, unless cleanup leaves a drive at
  the front
-/

namespace CanonicalPath

namespace FS

open CodeUnit Segments Go DotStack

/-! ## The client -/

namespace Client

variable {α : Type} [DecidableEq α] [CodeUnit α]

/-- The test `/^[A-Za-z]:[\\/]/` is the second branch. -/
def isAbsolutePathLike (rel : List α) : Bool :=
  if TS.startsWith rel (lit "/") || TS.startsWith rel (lit "\\\\") then
    true
  else
    match rel with
    | a :: b :: c :: _ => isLetter a && b == chr ':' && (c == chr '\\' || c == chr '/')
    | _ => false

/-- `/^[A-Za-z]:($|[^\\/])/`. -/
def isDriveRelativePathLike : List α → Bool
  | a :: b :: more =>
      isLetter a && b == chr ':' &&
        match more with
        | [] => true
        | c :: _ => !(c == chr '\\' || c == chr '/')
  | _ => false

/-- The component loop, from the parts collected so far. -/
def collectParts : List (List α) → List (List α) → Except Error (List (List α))
  | parts, [] => .ok parts
  | parts, part :: more =>
      if part = [] ∨ part = lit "." then
        collectParts parts more
      else if part = lit ".." then
        if parts.length = 0 then
          newError .outsideRoot "path escapes root"
        else
          collectParts parts.dropLast more
      else
        collectParts (parts ++ [part]) more

def validateRelativePath (rel : List α) : Except Error (List α) :=
  if nul ∈ rel then
    newError .nulByte "path contains NUL"
  else if rel = [] ∨ rel = lit "." then
    .ok (lit ".")
  else if isAbsolutePathLike rel then
    newError .absolutePath "path must be relative to root"
  else if isDriveRelativePathLike rel then
    newError .driveRelativePath
      "Windows drive-relative paths are not accepted in CanonicalFS relative paths"
  else if chr '\\' ∈ rel then
    newError .outsideRoot "backslash separators are not accepted in CanonicalFS relative paths"
  else do
    let parts ← collectParts [] (rel.splitOn (chr '/'))
    .ok (if parts.length = 0 then lit "." else joinOn (chr '/') parts)

/-! ### What it computes -/

theorem collectParts_eq (parts comps : List (List α)) :
    collectParts parts comps =
      match run false parts (comps.map move) with
      | some parts' => .ok parts'
      | none => newError .outsideRoot "path escapes root" := by
  induction comps generalizing parts with
  | nil =>
      rfl
  | cons part comps ih =>
      rw [collectParts, List.map_cons, move]
      split_ifs with hstay hup hparts
      · rw [ih, run_stay]
      · rw [List.length_eq_zero_iff.1 hparts]
        rfl
      · rw [ih, run, step, if_neg (by simpa using mt List.length_eq_zero_iff.2 hparts)]
        rfl
      · rw [ih, run_into]

theorem isAbsolutePathLike_of_plain {rel : List α} (hback : chr '\\' ∉ rel) :
    isAbsolutePathLike rel = (hasPrefix rel (lit "/") || hasDriveRoot rel) := by
  rw [isAbsolutePathLike.eq_def, Ports.startsWith_eq, Ports.startsWith_eq, hasPrefix_backslashes_of_plain hback,
    Bool.or_false]
  by_cases hslash : hasPrefix rel (lit "/") = true
  · rw [if_pos hslash, hslash, Bool.true_or]
  · rw [if_neg hslash, Bool.eq_false_iff.2 hslash, Bool.false_or]
    match rel with
    | [] => rfl
    | [a] => rfl
    | [a, b] => rfl
    | a :: b :: c :: rest =>
        have hc : (c == chr '\\') = false := by
          rw [beq_eq_false_iff_ne]
          rintro rfl
          exact hback (by simp)
        simp [hasDriveRoot, hc]

theorem isDriveRelativePathLike_of_plain {rel : List α} (hback : chr '\\' ∉ rel) :
    isDriveRelativePathLike rel = isDriveRelative rel := by
  match rel with
  | [] => rfl
  | [a] => rfl
  | [a, b] => simp [isDriveRelativePathLike, isDriveRelative]
  | a :: b :: c :: rest =>
      have hc : (c == chr '\\') = false := by
        rw [beq_eq_false_iff_ne]
        rintro rfl
        exact hback (by simp)
      simp [isDriveRelativePathLike, isDriveRelative, hc, bne]

/-- Without a backslash the two tests are the ones of the path grammar. -/
theorem splits_iff_of_plain {rel : List α} (hback : chr '\\' ∉ rel) :
    Splits rel .relative rel ↔ isAbsolutePathLike rel = false ∧ isDriveRelativePathLike rel = false := by
  rw [splits_relative_iff, isAbsolutePathLike_of_plain hback, isDriveRelativePathLike_of_plain hback]

/-- The spelling of components that are left. -/
def spell (parts : List (List α)) : List α :=
  if parts = [] then lit "." else joinOn (chr '/') parts

theorem resolve_of_short {rel : List α} (h : rel = [] ∨ rel = lit ".") : resolve false rel = some [] := by
  rcases h with rfl | rfl
  · exact resolve_nil
  · exact resolve_dot

theorem splits_of_short {rel : List α} (h : rel = [] ∨ rel = lit ".") : Splits rel .relative rel := by
  rcases h with rfl | rfl
  · exact Splits.relative (by simp) rfl
  · exact splits_serialize_relative fun _ h => absurd h List.not_mem_nil

omit [DecidableEq α] in
theorem backslash_not_mem_short {rel : List α} (h : rel = [] ∨ rel = lit ".") : chr '\\' ∉ rel := by
  rcases h with rfl | rfl
  · exact List.not_mem_nil
  · simp [lit]

/-- What passes the tests is resolved. -/
theorem validateRelativePath_of_splits {rel : List α} (hnul : nul ∉ rel) (hback : chr '\\' ∉ rel)
    (hsplits : Splits rel .relative rel) :
    validateRelativePath rel = (resolve false rel).elim (newError .outsideRoot "path escapes root")
      fun parts => .ok (spell parts) := by
  rw [validateRelativePath, if_neg hnul]
  by_cases hshort : rel = [] ∨ rel = lit "."
  · rw [if_pos hshort, resolve_of_short hshort]
    rfl
  · obtain ⟨habsolute, hdrive⟩ := (splits_iff_of_plain hback).1 hsplits
    rw [if_neg hshort, habsolute, hdrive, if_neg hback, collectParts_eq, resolve]
    cases run false [] ((rel.splitOn (chr '/')).map move) with
    | none =>
        rfl
    | some parts =>
        rw [Option.elim_some, spell]
        simp only [← List.length_eq_zero_iff]
        rfl

/-- What the client accepts and returns. -/
theorem validateRelativePath_eq_ok_iff {rel clean : List α} :
    validateRelativePath rel = .ok clean ↔
      nul ∉ rel ∧ chr '\\' ∉ rel ∧ Splits rel .relative rel ∧
        ∃ parts, resolve false rel = some parts ∧ spell parts = clean := by
  constructor
  · intro h
    have hchecks : nul ∉ rel ∧ chr '\\' ∉ rel ∧ Splits rel .relative rel := by
      rw [validateRelativePath] at h
      by_cases hnul : nul ∈ rel
      · rw [if_pos hnul] at h
        cases h
      by_cases hshort : rel = [] ∨ rel = lit "."
      · exact ⟨hnul, backslash_not_mem_short hshort, splits_of_short hshort⟩
      by_cases habsolute : isAbsolutePathLike rel = true
      · rw [if_neg hnul, if_neg hshort, if_pos habsolute] at h
        cases h
      by_cases hdrive : isDriveRelativePathLike rel = true
      · rw [if_neg hnul, if_neg hshort, if_neg habsolute, if_pos hdrive] at h
        cases h
      by_cases hback : chr '\\' ∈ rel
      · rw [if_neg hnul, if_neg hshort, if_neg habsolute, if_neg hdrive, if_pos hback] at h
        cases h
      exact ⟨hnul, hback, (splits_iff_of_plain hback).2 ⟨Bool.eq_false_iff.2 habsolute, Bool.eq_false_iff.2 hdrive⟩⟩
    obtain ⟨hnul, hback, hsplits⟩ := hchecks
    refine ⟨hnul, hback, hsplits, ?_⟩
    rw [validateRelativePath_of_splits hnul hback hsplits] at h
    cases hresolve : resolve false rel with
    | none =>
        rw [hresolve] at h
        cases h
    | some parts =>
        rw [hresolve] at h
        exact ⟨parts, rfl, Except.ok.inj h⟩
  · rintro ⟨hnul, hback, hsplits, parts, hresolve, rfl⟩
    rw [validateRelativePath_of_splits hnul hback hsplits, hresolve]
    rfl

end Client

/-! ## The daemon behind the client -/

theorem relative_iff_splits {rel : Bytes} :
    Relative rel ↔ nul ∉ rel ∧ chr '\\' ∉ rel ∧ Splits rel .relative rel := by
  constructor
  · intro h
    exact ⟨h.nul_not_mem, h.backslash_not_mem, Splits.relative h.head_ne_slash h.no_marker⟩
  · intro ⟨hnul, hback, hsplits⟩
    cases hsplits with
    | relative hhead hmarker =>
        exact ⟨hnul, hback, hhead, hmarker⟩

/-- Cleaned components are a path that cleans to itself, unless the first one has a drive marker. -/
theorem relative_spell_iff {rel : Bytes} {parts : List Bytes} (h : Relative rel)
    (hresolve : resolve false rel = some parts) : Relative (spell parts) ↔ ¬FrontsDrive rel := by
  rw [← needsRelativeMarker_iff_frontsDrive hresolve, spell]
  by_cases hnil : parts = []
  · rw [if_pos hnil, hnil]
    exact iff_of_true (resolve_of_dot (Or.inr rfl)).1 (by simp [joinOn, needsRelativeMarker])
  · have hnames := isName_of_resolve hresolve
    rw [if_neg hnil]
    constructor
    · intro hrelative
      exact Bool.eq_false_iff.1 hrelative.no_marker
    · intro hmarker
      refine ⟨?_, ?_, head?_joinOn_ne_slash hnames, Bool.eq_false_iff.2 hmarker⟩
      · exact not_mem_joinOn_slash (by decide) fun part hpart hmem =>
          h.nul_not_mem (mem_of_resolve hresolve hpart hmem)
      · exact not_mem_joinOn_slash (by decide) fun part hpart hmem =>
          h.backslash_not_mem (mem_of_resolve hresolve hpart hmem)

theorem resolve_spell {parts : List Bytes} (h : ∀ part ∈ parts, IsName part) :
    resolve false (spell parts) = some parts := by
  rw [spell]
  split_ifs with hnil
  · rw [hnil]
    exact resolve_dot
  · exact resolve_joinOn h

theorem cleanRelative_spell_iff {rel : Bytes} {parts : List Bytes} (h : Relative rel)
    (hresolve : resolve false rel = some parts) :
    cleanRelative (spell parts) = .ok (spell parts) ↔ ¬FrontsDrive rel := by
  rw [← relative_spell_iff h hresolve, cleanRelative_eq_ok_iff]
  exact and_iff_left ⟨parts, resolve_spell (isName_of_resolve hresolve), rfl⟩

/-! ## Spellings -/

section Spellings

variable {α β : Type} [DecidableEq α] [CodeUnit α] [DecidableEq β] [CodeUnit β] (e : Encoding α β)

theorem splits_relative_encode_iff {text : List α} :
    Splits (e.encode text) .relative (e.encode text) ↔ Splits text .relative text := by
  rw [splits_relative_iff, splits_relative_iff, hasPrefix_encode e (by decide), hasDriveRoot_encode,
    isDriveRelative_encode]

omit [DecidableEq α] [DecidableEq β] in
theorem spell_encode (parts : List (List α)) :
    Client.spell (parts.map e.encode) = e.encode (Client.spell parts) := by
  rw [Client.spell, Client.spell]
  simp only [List.map_eq_nil_iff]
  split_ifs
  · exact (e.encode_lit (by decide)).symm
  · exact (e.encode_joinOn (by decide)).symm

theorem frontsDrive_encode_iff {text : List α} {parts : List (List α)} (h : resolve false text = some parts) :
    FrontsDrive (e.encode text) ↔ FrontsDrive text := by
  have hencoded : resolve false (e.encode text) = some (parts.map e.encode) := by
    rw [resolve_encode, h]
    rfl
  rw [← needsRelativeMarker_iff_frontsDrive hencoded, ← needsRelativeMarker_iff_frontsDrive h,
    ← e.encode_joinOn (by decide), needsRelativeMarker_encode]

/-- What the client reads in one spelling is read in another. -/
theorem exists_of_resolve_encode {text : List α} {parts : List (List β)}
    (h : resolve false (e.encode text) = some parts) :
    ∃ parts', resolve false text = some parts' ∧ parts = parts'.map e.encode := by
  rw [resolve_encode] at h
  obtain ⟨parts', hparts, rfl⟩ := Option.map_eq_some_iff.1 h
  exact ⟨parts', hparts, rfl⟩

end Spellings

/-! ## Both sides -/

/-- Cleaning twice is cleaning once, on the daemon alone and behind the client, exactly when cleanup
leaves no drive at the front. -/
theorem cleaning_composes_iff (rel clean : Bytes) (text : List Char) (sent : Units) :
    (cleanRelative rel = .ok clean →
      ((cleanRelative clean = .ok clean ∧ isAbsolutePathLike clean = false ∧
          isDriveRelativePathLike clean = false) ↔ ¬FrontsDrive rel)) ∧
      (Client.validateRelativePath (utf16.encode text) = .ok sent →
        ((∃ clean named, sent = utf16.encode clean ∧ cleanRelative (utf8.encode clean) = .ok named ∧
            cleanRelative (utf8.encode text) = .ok named) ↔ ¬FrontsDrive text)) := by
  constructor
  · intro h
    obtain ⟨hrelative, parts, hresolve, rfl⟩ := cleanRelative_eq_ok_iff.1 h
    rw [← cleanRelative_spell_iff hrelative hresolve]
    constructor
    · exact fun hclean => hclean.1
    · intro hclean
      obtain ⟨-, habsolute, hdrive, -⟩ := relative_iff.1 (cleanRelative_eq_ok_iff.1 hclean).1
      exact ⟨hclean, habsolute, hdrive⟩
  · intro h
    obtain ⟨hnul, hback, hsplits, parts, hresolve, rfl⟩ := Client.validateRelativePath_eq_ok_iff.1 h
    obtain ⟨names, hnames, rfl⟩ := exists_of_resolve_encode utf16 hresolve
    have hrelative : Relative (utf8.encode text) := by
      apply relative_iff_splits.2
      refine ⟨?_, ?_, ?_⟩
      · rwa [utf8.chr_mem_encode_iff (by decide), ← utf16.chr_mem_encode_iff (by decide)]
      · rwa [utf8.chr_mem_encode_iff (by decide), ← utf16.chr_mem_encode_iff (by decide)]
      · rwa [splits_relative_encode_iff, ← splits_relative_encode_iff utf16]
    have hresolve8 : resolve false (utf8.encode text) = some (names.map utf8.encode) := by
      rw [resolve_encode, hnames]
      rfl
    have hspell : spell (names.map utf8.encode) = utf8.encode (Client.spell names) := spell_encode utf8 names
    have hdirect : cleanRelative (utf8.encode text) = .ok (utf8.encode (Client.spell names)) :=
      cleanRelative_eq_ok_iff.2 ⟨hrelative, _, hresolve8, hspell⟩
    have hagain := cleanRelative_spell_iff hrelative hresolve8
    rw [hspell, frontsDrive_encode_iff utf8 hnames] at hagain
    rw [spell_encode, ← hagain, hdirect]
    constructor
    · intro hcompose
      obtain ⟨clean, named, hclean, hsent, hnamed⟩ := hcompose
      rw [← utf16.encode_injective hclean] at hsent
      rw [hsent, hnamed]
    · intro hclean
      exact ⟨Client.spell names, _, rfl, hclean, rfl⟩

theorem cleaning_composes_plain :
    ((cleanRelative (lit "a/b") = .ok (lit "a/b") ∧ isAbsolutePathLike (lit "a/b") = false ∧
        isDriveRelativePathLike (lit "a/b") = false) ↔ ¬FrontsDrive (lit "x/../a//b" : Bytes)) ∧
      ((∃ clean named, utf16.encode "a/b".toList = utf16.encode clean ∧
          cleanRelative (utf8.encode clean) = .ok named ∧
          cleanRelative (utf8.encode "x/../a//b".toList) = .ok named) ↔ ¬FrontsDrive "x/../a//b".toList) :=
  ⟨(cleaning_composes_iff _ _ [] []).1 (by decide), (cleaning_composes_iff [] [] _ _).2 (by decide)⟩

/-- The client sends `C:x` for `./C:x`, which the daemon accepts as it is and refuses once cleaned. -/
theorem cleaning_not_composes :
    cleanRelative (lit "./C:x") = .ok (lit "C:x") ∧ cleanRelative (lit "C:x") ≠ .ok (lit "C:x") ∧
      Client.validateRelativePath (utf16.encode "./C:x".toList) = .ok (utf16.encode "C:x".toList) ∧
        cleanRelative (utf8.encode "C:x".toList) ≠ cleanRelative (utf8.encode "./C:x".toList) := by
  decide

end FS

end CanonicalPath
