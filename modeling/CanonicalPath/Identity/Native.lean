import CanonicalPath.Go.Normalize
import CanonicalPath.Identity.Canonical

/-!
# Native — native POSIX input and WSL mounts as component lists

With a floor every walk succeeds, so native absolute input is nothing but its list of components:

* `components` : the components left by a walk clamped at the root
* `prepareNativePOSIX_slashes` : the entry of native input by its number of leading slashes
* `normalizeMountRoot_eq_ok_iff` : the accepted mount roots
* `mapWSLDrive_eq_some_iff` : drive selection on component lists
-/

namespace CanonicalPath

open CodeUnit Segments Go DotStack

variable {α : Type} [DecidableEq α] [CodeUnit α]

/-! ## Components -/

/-- The components of a text: split on the separator, with empty and dot parts dropped and `..`
going up, clamped at the root. -/
def components (value : List α) : List (List α) :=
  (resolve true value).getD []

theorem resolve_floor (value : List α) : resolve true value = some (components value) := by
  rcases run_floor_isSome [] ((value.splitOn (chr '/')).map move) with ⟨parts, h⟩
  have hresolve : resolve true value = some parts := h
  rw [components, hresolve]
  rfl

theorem isName_of_mem_components {value part : List α} (h : part ∈ components value) : IsName part :=
  isName_of_resolve (resolve_floor value) part h

theorem components_joinOn {parts : List (List α)} (h : ∀ part ∈ parts, IsName part) :
    components (joinOn (chr '/') parts) = parts := by
  rw [components, resolve_joinOn h]
  rfl

/-- A leading separator names no component. -/
theorem components_slash_cons (value : List α) : components (chr '/' :: value) = components value := by
  have hsplit : (chr '/' :: value).splitOn (chr '/') = [] :: value.splitOn (chr '/') :=
    List.splitOn_append_cons_self_of_not_mem (List.not_mem_nil) value
  rw [components, resolve, hsplit, List.map_cons, move, if_pos (Or.inl rfl), run_stay]
  rfl

theorem components_replicate (k : Nat) (value : List α) :
    components (List.replicate k (chr '/') ++ value) = components value := by
  induction k with
  | zero =>
      rfl
  | succ k ih =>
      rw [List.replicate_succ, List.cons_append, components_slash_cons, ih]

/-- The canonical string of a list of components below the POSIX root. -/
theorem serialize_posix (parts : List (List α)) :
    serialize (lit "/") parts = chr '/' :: joinOn (chr '/') parts :=
  serialize_slash (by simp [lit]) (hasSuffix_slash_iff.2 ⟨[], rfl⟩)

theorem serialize_drive (d : α) (parts : List (List α)) :
    serialize (d :: lit ":/") parts = d :: lit ":/" ++ joinOn (chr '/') parts :=
  serialize_slash (by simp) (hasSuffix_slash_iff.2 ⟨d :: lit ":", rfl⟩)

theorem components_serialize_posix {parts : List (List α)} (h : ∀ part ∈ parts, IsName part) :
    components (serialize (lit "/") parts) = parts := by
  rw [serialize_posix, components_slash_cons, components_joinOn h]

/-! ## Leading slashes -/

theorem exists_slashes (value : List α) : ∃ k rest,
    value = List.replicate k (chr '/') ++ rest ∧ rest.head? ≠ some (chr '/') := by
  induction value with
  | nil =>
      exact ⟨0, [], rfl, by simp⟩
  | cons a value ih =>
      by_cases ha : a = chr '/'
      · rcases ih with ⟨k, rest, rfl, hrest⟩
        exact ⟨k + 1, rest, by rw [ha, List.replicate_succ, List.cons_append], hrest⟩
      · exact ⟨0, a :: value, rfl, by simpa using ha⟩

theorem takeWhile_slashes (k : Nat) {rest : List α} (h : rest.head? ≠ some (chr '/')) :
    (List.replicate k (chr '/') ++ rest).takeWhile (· == chr '/') = List.replicate k (chr '/') := by
  have hstop : rest.takeWhile (· == chr '/') = [] := by
    cases rest with
    | nil =>
        rfl
    | cons a rest =>
        have ha : (a == chr '/') = false := by simpa using h
        simp [ha]
  rw [List.takeWhile_append_of_pos (by simp), hstop, List.append_nil]

theorem dropWhile_slashes (k : Nat) {rest : List α} (h : rest.head? ≠ some (chr '/')) :
    (List.replicate k (chr '/') ++ rest).dropWhile (· == chr '/') = rest := by
  rw [List.dropWhile_append_of_pos (by simp)]
  cases rest with
  | nil =>
      rfl
  | cons a rest =>
      have ha : ¬(a == chr '/') = true := by
        simpa using h
      rw [List.dropWhile_cons, if_neg ha]

theorem hasPrefix_slashes (k n : Nat) {rest : List α} (h : rest.head? ≠ some (chr '/')) :
    hasPrefix (List.replicate k (chr '/') ++ rest) (List.replicate n (chr '/')) = decide (n ≤ k) := by
  induction n generalizing k with
  | zero =>
      simp [hasPrefix]
  | succ n ih =>
      cases k with
      | zero =>
          rw [List.replicate_zero, List.nil_append, List.replicate_succ, hasPrefix_cons_eq_false h]
          simp
      | succ k =>
          rw [List.replicate_succ, List.replicate_succ, List.cons_append, hasPrefix_cons_cons, ih]
          simp

/-- The mount candidates are told by the number of leading slashes. -/
theorem isPOSIXMountCandidate_slashes (k : Nat) {rest : List α} (h : rest.head? ≠ some (chr '/')) :
    isPOSIXMountCandidate (List.replicate k (chr '/') ++ rest) = decide (k = 1 ∨ 3 ≤ k) := by
  have hone := hasPrefix_slashes k 1 h
  have htwo := hasPrefix_slashes k 2 h
  have hthree := hasPrefix_slashes k 3 h
  rw [isPOSIXMountCandidate, show (lit "/" : List α) = List.replicate 1 (chr '/') from rfl, hone,
    show (lit "//" : List α) = List.replicate 2 (chr '/') from rfl, htwo,
    show (lit "///" : List α) = List.replicate 3 (chr '/') from rfl, hthree, Bool.eq_iff_iff]
  simp only [Bool.and_eq_true, Bool.or_eq_true, Bool.not_eq_true', decide_eq_true_eq,
    decide_eq_false_iff_not]
  omega

/-! ## Native input -/

theorem markRelative_of_slash (value : List α) :
    markRelative (chr '/' :: value) = chr '/' :: value := by
  have hmarker : needsRelativeMarker (chr '/' :: value) = false := by
    cases value with
    | nil =>
        rfl
    | cons b value =>
        simp [needsRelativeMarker, isLetterCode]
  rw [markRelative, if_neg (by simp [hmarker])]

theorem prepareNativePOSIX_slashes (k : Nat) {rest : List α} (h : rest.head? ≠ some (chr '/')) :
    prepareNativePOSIX (List.replicate k (chr '/') ++ rest) =
      if k = 2 then
        newError .invalidPath "native POSIX paths with exactly two leading slashes are unsupported"
      else if k = 0 then
        .ok (markRelative rest)
      else
        .ok (chr '/' :: rest) := by
  rw [prepareNativePOSIX, takeWhile_slashes k h, List.length_replicate]
  by_cases htwo : k = 2
  · simp [htwo]
  · by_cases hzero : k = 0
    · simp [hzero]
    · rw [if_neg htwo, if_neg htwo, if_neg hzero]
      -- one slash goes through unchanged, three or more through the cut
      by_cases hone : k = 1
      · subst hone
        exact congrArg Except.ok (markRelative_of_slash rest)
      · have hdrop : (List.replicate k (chr '/') ++ rest).drop k = rest := by
          simp
        rw [if_pos (by omega), hdrop]
        exact congrArg Except.ok (markRelative_of_slash rest)

theorem splits_markRelative {value : List α} (h : value.head? ≠ some (chr '/')) :
    Splits (markRelative value) .relative (markRelative value) := by
  rw [markRelative]
  split_ifs with hmarker
  · exact Splits.relative (by simp [lit]) (by simp [needsRelativeMarker_eq, lit, isLetterCode])
  · exact Splits.relative h (by simpa using hmarker)

/-- Native input has the POSIX root or none. -/
theorem exists_splits_of_prepareNativePOSIX {raw value : List α}
    (h : prepareNativePOSIX raw = .ok value) :
    ∃ root rest, Splits value root rest ∧ root.isWindows = false := by
  rcases exists_slashes raw with ⟨k, rest, rfl, hrest⟩
  rw [prepareNativePOSIX_slashes k hrest] at h
  split_ifs at h with htwo hzero
  · exact absurd h (by simp [newError])
  · -- no slash: a relative path, with its marker where it needs one
    rw [← Except.ok.inj h]
    exact ⟨.relative, _, splits_markRelative hrest, rfl⟩
  · rw [← Except.ok.inj h]
    exact ⟨.posix, rest, Splits.posix hrest, rfl⟩

/-- Canonical strings without a Windows root are their own native spelling. -/
theorem prepareNativePOSIX_of_splits {value rest : List α} {root : Root α}
    (h : Splits value root rest) (hroot : root.isWindows = false) :
    prepareNativePOSIX value = .ok value := by
  cases h with
  | relative hhead hmarker =>
      have hprepare := prepareNativePOSIX_slashes 0 hhead
      rw [markRelative, hmarker] at hprepare
      exact hprepare
  | posix hhead =>
      exact prepareNativePOSIX_slashes 1 hhead
  | drive =>
      exact absurd hroot (by simp [Root.isWindows])
  | unc =>
      exact absurd hroot (by simp [Root.isWindows])
  | extendedDrive =>
      exact absurd hroot (by simp [Root.isWindows])
  | extendedUNC =>
      exact absurd hroot (by simp [Root.isWindows])

/-- An absolute native path keeps one leading separator and its components. -/
theorem prepareNativePOSIX_of_candidate {value : List α} (h : isPOSIXMountCandidate value = true) :
    ∃ rest, rest.head? ≠ some (chr '/') ∧ prepareNativePOSIX value = .ok (chr '/' :: rest) ∧
      components rest = components value ∧ ∀ x ∈ rest, x ∈ value := by
  rcases exists_slashes value with ⟨k, rest, rfl, hrest⟩
  rw [isPOSIXMountCandidate_slashes k hrest, decide_eq_true_eq] at h
  refine ⟨rest, hrest, ?_, (components_replicate k rest).symm, ?_⟩
  · rw [prepareNativePOSIX_slashes k hrest, if_neg (by omega), if_neg (by omega)]
  · exact fun x hx => List.mem_append_right _ hx

theorem cleanCanonical_slash_cons {rest : List α} (hrest : rest.head? ≠ some (chr '/'))
    (hnul : nul ∉ rest) :
    cleanCanonical (chr '/' :: rest) = .ok (serialize (lit "/") (components rest)) := by
  have hnul' : nul ∉ chr '/' :: rest := by
    simp [hnul]
  have hclean := cleanCanonical_of_splits (by simp) hnul' (Splits.posix hrest)
  rw [show (Root.posix : Root α).isAbsolute = true from rfl, resolve_floor] at hclean
  exact hclean

/-- An absolute native path is cleaned to its components below the POSIX root. -/
theorem cleanNativePOSIX_of_candidate {value : List α} (hnul : nul ∉ value)
    (h : isPOSIXMountCandidate value = true) :
    cleanNativePOSIX value = .ok (serialize (lit "/") (components value)) := by
  rcases prepareNativePOSIX_of_candidate h with ⟨rest, hrest, hprepare, hcomponents, hmem⟩
  rw [cleanNativePOSIX, hprepare, Outcome.ok_bind,
    cleanCanonical_slash_cons hrest (fun hx => hnul (hmem _ hx)), hcomponents]

/-! ## Mount roots -/

theorem isPOSIXMountCandidate_or_double {value : List α} (h : hasPrefix value (lit "/") = true) :
    isPOSIXMountCandidate value = true ∨ ∃ e, prepareNativePOSIX value = .error e := by
  rcases exists_slashes value with ⟨k, rest, rfl, hrest⟩
  have hone : hasPrefix (List.replicate k (chr '/') ++ rest) (lit "/") = decide (1 ≤ k) :=
    hasPrefix_slashes k 1 hrest
  rw [hone, decide_eq_true_eq] at h
  by_cases htwo : k = 2
  · right
    rw [prepareNativePOSIX_slashes k hrest, if_pos htwo]
    exact ⟨_, rfl⟩
  · left
    rw [isPOSIXMountCandidate_slashes k hrest, decide_eq_true_eq]
    omega

theorem hasPrefix_slash_of_candidate {value : List α} (h : isPOSIXMountCandidate value = true) :
    hasPrefix value (lit "/") = true := by
  rw [isPOSIXMountCandidate, Bool.and_eq_true] at h
  exact h.1

omit [DecidableEq α] in
theorem nul_not_mem_defaultMountRoot {value : List α} (h : nul ∉ value) :
    nul ∉ defaultMountRoot value := by
  rw [defaultMountRoot]
  split_ifs
  · simp [lit]
  · exact h

/-- The accepted mount roots, and the string an accepted one is cleaned to. -/
theorem normalizeMountRoot_eq_ok_iff {value mount : List α} :
    normalizeMountRoot value = .ok mount ↔
      nul ∉ value ∧ isPOSIXMountCandidate (defaultMountRoot value) = true ∧
        mount = serialize (lit "/") (components (defaultMountRoot value)) := by
  constructor
  · intro h
    rw [normalizeMountRoot] at h
    split_ifs at h with hnul hslash
    · exact absurd h (by simp [newError])
    · -- an absolute mount root is a candidate, unless it starts with exactly two slashes
      rcases isPOSIXMountCandidate_or_double hslash with hcandidate | ⟨e, he⟩
      · rw [cleanNativePOSIX_of_candidate (nul_not_mem_defaultMountRoot hnul) hcandidate] at h
        exact ⟨hnul, hcandidate, (Except.ok.inj h).symm⟩
      · rw [cleanNativePOSIX, he, Outcome.error_bind] at h
        exact absurd h (by simp)
    · exact absurd h (by simp [newError])
  · rintro ⟨hnul, hcandidate, rfl⟩
    rw [normalizeMountRoot, if_neg hnul, if_pos (hasPrefix_slash_of_candidate hcandidate),
      cleanNativePOSIX_of_candidate (nul_not_mem_defaultMountRoot hnul) hcandidate]

/-- An accepted mount root is the canonical string of its components. -/
theorem eq_serialize_of_normalizeMountRoot {value mount : List α}
    (h : normalizeMountRoot value = .ok mount) : mount = serialize (lit "/") (components mount) := by
  rcases normalizeMountRoot_eq_ok_iff.1 h with ⟨-, -, rfl⟩
  rw [components_serialize_posix fun part hpart => isName_of_mem_components hpart]

/-- A canonical mount root is left alone. -/
theorem normalizeMountRoot_serialize {parts : List (List α)} (h : ∀ part ∈ parts, IsName part)
    (hnul : ∀ part ∈ parts, nul ∉ part) :
    normalizeMountRoot (serialize (lit "/") parts) = .ok (serialize (lit "/") parts) := by
  have hslash : serialize (lit "/") parts = List.replicate 1 (chr '/') ++ joinOn (chr '/') parts :=
    serialize_posix parts
  have hdefault : defaultMountRoot (serialize (lit "/") parts) = serialize (lit "/") parts := by
    rw [defaultMountRoot, if_neg (by simp [hslash])]
  rw [normalizeMountRoot_eq_ok_iff, hdefault, components_serialize_posix h]
  refine ⟨?_, ?_, rfl⟩
  · rw [serialize_posix, List.mem_cons, not_or]
    refine ⟨by simp, ?_⟩
    intro hmem
    rcases mem_joinOn hmem with hsep | ⟨part, hpart, hx⟩
    · simp at hsep
    · exact hnul part hpart hx
  · rw [hslash, isPOSIXMountCandidate_slashes 1 (head?_joinOn_ne_slash h)]
    rfl

theorem normalizeMountRoot_root : normalizeMountRoot (lit "/" : List α) = .ok (lit "/") :=
  normalizeMountRoot_serialize (fun _ h => absurd h List.not_mem_nil) (fun _ h => absurd h List.not_mem_nil)

theorem normalizeMountRoot_mnt : normalizeMountRoot (lit "/mnt" : List α) = .ok (lit "/mnt") := by
  have hname : IsName (lit "mnt" : List α) :=
    ⟨by simp [lit], by simp [lit], by simp [lit], by simp [lit]⟩
  have hserialize : serialize (lit "/") [lit "mnt"] = (lit "/mnt" : List α) := by
    rw [serialize_posix]
    simp [joinOn, lit]
  rw [← hserialize]
  apply normalizeMountRoot_serialize
  · simpa using hname
  · simp [lit]

/-! ## Drive selection -/

omit [CodeUnit α] in
theorem trimSuffix_append (value trailer : List α) : trimSuffix (value ++ trailer) trailer = value := by
  have hsuffix : hasSuffix (value ++ trailer) trailer = true := by
    rw [hasSuffix, List.isSuffixOf_iff_suffix]
    exact ⟨value, rfl⟩
  rw [trimSuffix, if_pos hsuffix]
  simp

/-- The mount prefix is the canonical string of the mount with exactly one final separator. -/
theorem mountPrefix_serialize {mountParts : List (List α)} (h : ∀ part ∈ mountParts, IsName part) :
    mountPrefix (serialize (lit "/") mountParts) =
      if mountParts = [] then lit "/" else chr '/' :: joinOn (chr '/') mountParts ++ [chr '/'] := by
  rw [serialize_posix, mountPrefix]
  split_ifs with hnil
  · subst hnil
    exact congrArg (· ++ lit "/") (trimSuffix_append [] (lit "/"))
  · have hjoin : joinOn (chr '/') mountParts ≠ [] := by
      rwa [Ne, joinOn_parts_eq_nil_iff h]
    -- no separator to trim: the last component does not end with one
    have hlast : hasSuffix (chr '/' :: joinOn (chr '/') mountParts) (lit "/") = false := by
      rw [Bool.eq_false_iff]
      intro hsuffix
      rcases hasSuffix_slash_iff.1 hsuffix with ⟨front, hfront⟩
      have hgetLast := congrArg List.getLast? hfront
      rw [List.getLast?_cons_of_ne_nil hjoin, List.getLast?_concat] at hgetLast
      exact getLast?_joinOn_ne_slash h hgetLast
    rw [trimSuffix, if_neg (by simp [hlast])]
    rfl

/-- A canonical native path starts with a mount prefix exactly when its components start with the
components of the mount; only below the mount `/` may nothing be left. -/
theorem serialize_eq_mountPrefix_append_iff {parts mountParts : List (List α)} {t : List α}
    (hparts : ∀ part ∈ parts, IsName part) (hmount : ∀ part ∈ mountParts, IsName part) :
    serialize (lit "/") parts = mountPrefix (serialize (lit "/") mountParts) ++ t ↔
      ∃ below, (mountParts = [] ∨ below ≠ []) ∧ parts = mountParts ++ below ∧
        t = joinOn (chr '/') below := by
  rw [mountPrefix_serialize hmount, serialize_posix]
  -- the mount `/` has no final separator of its own
  split_ifs with hnil
  · subst hnil
    constructor
    · intro h
      exact ⟨parts, Or.inl rfl, rfl, (List.cons.inj h).2.symm⟩
    · rintro ⟨below, -, rfl, rfl⟩
      rfl
  · -- the mount prefix ends with a separator, so the join is cut between two components
    have hcut : chr '/' :: joinOn (chr '/') parts =
        chr '/' :: joinOn (chr '/') mountParts ++ [chr '/'] ++ t ↔
        joinOn (chr '/') parts = joinOn (chr '/') mountParts ++ chr '/' :: t := by
      simp
    rw [hcut, joinOn_eq_append_cons_iff (fun part hpart => (hparts part hpart).slash_not_mem)
      (fun part hpart => (hmount part hpart).slash_not_mem) hnil]
    constructor
    · rintro ⟨below, hne, hsplit, ht⟩
      exact ⟨below, Or.inr hne, hsplit, ht⟩
    · rintro ⟨below, hne, hsplit, ht⟩
      exact ⟨below, hne.resolve_left hnil, hsplit, ht⟩

theorem selectDrive_eq_some_iff {t v : List α} : selectDrive t = some v ↔
    ∃ d, isLetter d = true ∧ ((t = [d] ∧ v = lower d :: lit ":/") ∨
      ∃ tail, t = d :: chr '/' :: tail ∧ v = lower d :: lit ":/" ++ tail) := by
  match t with
  | [] =>
      simp [selectDrive]
  | [a] =>
      by_cases ha : isLetter a = true
      · simp [selectDrive, ha, eq_comm (a := v)]
      · rw [selectDrive, if_neg ha]
        constructor
        · intro h
          exact absurd h (by simp)
        · rintro ⟨d, hd, ⟨h, -⟩ | ⟨tail, h, -⟩⟩
          · exact absurd ((List.cons.inj h).1 ▸ hd) ha
          · exact absurd h (by simp)
  | a :: b :: tail =>
      by_cases hselect : isLetter a = true ∧ b = chr '/'
      · rcases hselect with ⟨ha, rfl⟩
        simp [selectDrive, ha, eq_comm (a := v)]
      · have hnone : selectDrive (a :: b :: tail) = none := by
          rw [selectDrive, if_neg (by simpa using hselect)]
        rw [hnone]
        simp only [reduceCtorEq, List.cons.injEq, false_and, and_false, false_or, false_iff,
          not_exists, not_and]
        rintro d hd tail' ⟨rfl, rfl, rfl⟩
        exact absurd ⟨hd, rfl⟩ hselect

omit [DecidableEq α] in
theorem isName_of_isLetter {d : α} (hd : isLetter d = true) : IsName [d] where
  ne_nil := by simp
  ne_dot := by
    simpa [lit] using ne_chr_of_isLetter hd (c := '.') (by decide) (by decide)
  ne_dotdot := by simp [lit]
  slash_not_mem := by
    simpa using (ne_slash_of_isLetter hd).symm

theorem selectDrive_joinOn_iff {parts : List (List α)} (hparts : ∀ part ∈ parts, IsName part)
    {v : List α} : selectDrive (joinOn (chr '/') parts) = some v ↔
      ∃ d below, isLetter d = true ∧ parts = [d] :: below ∧
        v = lower d :: lit ":/" ++ joinOn (chr '/') below := by
  have hname {d : α} (hd : isLetter d = true) : ∀ part ∈ [[d]], IsName part := by
    simpa using isName_of_isLetter hd
  have hnames {ps : List (List α)} (h : ∀ part ∈ ps, IsName part) :
      ∀ part ∈ ps, part ≠ [] ∧ chr '/' ∉ part :=
    fun part hpart => ⟨(h part hpart).ne_nil, (h part hpart).slash_not_mem⟩
  rw [selectDrive_eq_some_iff]
  constructor
  · rintro ⟨d, hd, ⟨hjoin, rfl⟩ | ⟨tail, hjoin, rfl⟩⟩
    · -- the letter is all that is left
      have hsingle : joinOn (chr '/') parts = joinOn (chr '/') [[d]] := by
        simpa [joinOn] using hjoin
      have hparts' := joinOn_inj (hnames hparts) (hnames (hname hd)) hsingle
      exact ⟨d, [], hd, hparts', by simp [joinOn]⟩
    · -- the letter is the first component
      have hcut : joinOn (chr '/') parts = joinOn (chr '/') [[d]] ++ chr '/' :: tail := by
        simpa [joinOn] using hjoin
      rcases (joinOn_eq_append_cons_iff (fun part hpart => (hparts part hpart).slash_not_mem)
        (fun part hpart => (hname hd part hpart).slash_not_mem) (by simp)).1 hcut with
        ⟨below, -, hsplit, rfl⟩
      exact ⟨d, below, hd, hsplit, rfl⟩
  · rintro ⟨d, below, hd, rfl, rfl⟩
    refine ⟨d, hd, ?_⟩
    by_cases hbelow : below = []
    · exact Or.inl ⟨by simp [hbelow, joinOn], by simp [hbelow, joinOn]⟩
    · exact Or.inr ⟨joinOn (chr '/') below, joinOn_cons_of_ne_nil hbelow [d], rfl⟩

/-- A drive is selected by a component list: the mount, one letter and whatever follows. -/
theorem mapWSLDrive_eq_some_iff {parts mountParts : List (List α)}
    (hparts : ∀ part ∈ parts, IsName part) (hmount : ∀ part ∈ mountParts, IsName part)
    {enabled : Bool} {v : List α} :
    mapWSLDrive (serialize (lit "/") parts) ⟨enabled, serialize (lit "/") mountParts⟩ = some v ↔
      enabled = true ∧ ∃ d below, isLetter d = true ∧ parts = mountParts ++ [d] :: below ∧
        v = serialize (lower d :: lit ":/") below := by
  -- the prefix test and the cut behind it, as one equation
  have hcut (t : List α) : hasPrefix (serialize (lit "/") parts)
        (mountPrefix (serialize (lit "/") mountParts)) = true ∧
      (serialize (lit "/") parts).drop (mountPrefix (serialize (lit "/") mountParts)).length = t ↔
        serialize (lit "/") parts = mountPrefix (serialize (lit "/") mountParts) ++ t := by
    constructor
    · rintro ⟨hleads, rfl⟩
      rcases hasPrefix_iff.1 hleads with ⟨tail, htail⟩
      rw [htail, List.drop_left]
    · intro h
      rw [h]
      exact ⟨hasPrefix_append _ _, List.drop_left⟩
  constructor
  · intro h
    rw [mapWSLDrive] at h
    split_ifs at h with hguard
    rw [Bool.and_eq_true] at hguard
    rcases (serialize_eq_mountPrefix_append_iff hparts hmount).1 ((hcut _).1 ⟨hguard.2, rfl⟩) with
      ⟨below, -, hsplit, hdrop⟩
    have hbelow : ∀ part ∈ below, IsName part := fun part hpart => hparts part (by simp [hsplit, hpart])
    simp only [hdrop] at h
    rcases (selectDrive_joinOn_iff hbelow).1 h with ⟨d, rest, hd, rfl, rfl⟩
    exact ⟨hguard.1, d, rest, hd, hsplit, (serialize_drive _ _).symm⟩
  · rintro ⟨rfl, d, rest, hd, hsplit, rfl⟩
    have hbelow : ∀ part ∈ [d] :: rest, IsName part :=
      fun part hpart => hparts part (by rw [hsplit]; exact List.mem_append_right _ hpart)
    have hstart := (serialize_eq_mountPrefix_append_iff hparts hmount).2
      ⟨[d] :: rest, Or.inr (by simp), hsplit, rfl⟩
    rcases (hcut _).2 hstart with ⟨hleads, hdrop⟩
    rw [mapWSLDrive, if_pos (by simpa using hleads), hdrop, serialize_drive]
    exact (selectDrive_joinOn_iff hbelow).2 ⟨d, rest, hd, rfl, rfl⟩

end CanonicalPath
