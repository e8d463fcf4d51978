import CanonicalPath.Go.Normalize
import CanonicalPath.Identity.FixedPoint
import CanonicalPath.Identity.Operand
import CanonicalPath.Ports.Spelling
import CanonicalPath.Python.Core

/-!
# Ports python — saved canonical strings in two ports

The Python port folds the drive letter while it splits the root, and its operand check looks at the
components instead of the cleaned string.  Its grammar is the Go grammar with two additions: a run of
three or more slashes is the POSIX root, and a UNC root may carry a separator with nothing behind it.

* `splitRoot_agrees` : outside the first addition both ports split alike
* `normalizeCanonical_agrees_iff`, `accepts_iff` : the two functions at one code unit
* `canonical_grammar_agrees_iff` : both, across the spellings of the two languages
-/

namespace CanonicalPath

namespace Ports

namespace Python

open CodeUnit Segments Outcome Go

variable {α : Type} [DecidableEq α] [CodeUnit α]

/-! ## Tests -/

theorem hasDriveRoot_eq (value : List α) : Python.hasDriveRoot value = hasDriveRoot value := by
  match value with
  | [] => rfl
  | [a] => rfl
  | [a, b] => rfl
  | a :: b :: c :: rest => rfl

theorem isDriveRelative_eq (value : List α) :
    Python.isDriveRelative value = isDriveRelative value := by
  match value with
  | [] => rfl
  | [a] => rfl
  | [a, b] => rw [Python.isDriveRelative, isDriveRelative, Bool.and_true]
  | a :: b :: c :: rest => rfl

theorem driveComponent_eq (value : List α) :
    Python.driveComponent value = needsRelativeMarker value := by
  match value with
  | [] => rfl
  | [a] => rfl
  | a :: b :: rest => rfl

theorem isMarkedRelative_eq (value : List α) :
    Python.isMarkedRelative value = hasRelativeMarker value := by
  rw [Python.isMarkedRelative, hasRelativeMarker, driveComponent_eq]
  rfl

theorem isDriveRelative_slash_cons (tail : List α) : isDriveRelative (chr '/' :: tail) = false := by
  rw [Go.isDriveRelative_eq, needsRelativeMarker_eq]
  simp [isLetterCode]

/-! ## Roots -/

/-- The Python splitter returns the root without its leader. -/
theorem splitUNC_agrees (leader body : List α) :
    SameOutcome (fun py go => go = (leader ++ py.1, py.2)) (Python.splitUNC body)
      (splitUNCRoot (leader ++ body) leader) := by
  rw [Python.splitUNC, splitUNCRoot, List.drop_left]
  cases splitN (chr '/') 3 body with
  | nil =>
      exact Rel.error trivial
  | cons server pieces =>
      cases pieces with
      | nil =>
          exact Rel.error trivial
      | cons share more =>
          have htest : ([server, share].any fun part =>
              part == [] || part == lit "." || part == lit "..") = true ↔ server = [] ∨ share = [] ∨
                server = lit "." ∨ server = lit ".." ∨ share = lit "." ∨ share = lit ".." := by
            simp only [List.any_cons, List.any_nil, Bool.or_false, Bool.or_eq_true, beq_iff_eq]
            tauto
          simp only [htest]
          split_ifs
          · exact Rel.error trivial
          · refine Rel.ok ?_
            cases more with
            | nil =>
                simp
            | cons rest more =>
                simp

/-- Both ports refuse a backslash behind a Windows prefix. -/
theorem rejectBackslash_agrees (value : List α) (go : List α × List α)
    (hwindows : isWindowsRoot go.1 = true) :
    SameOutcome (fun py go => py = (lowercaseDrive go.1, go.2))
      (Python.rejectBackslash value (lowercaseDrive go.1, go.2))
      (if isWindowsRoot go.1 = true ∧ chr '\\' ∈ value then
        newError .invalidPath "Windows canonical components cannot contain a literal backslash"
      else
        .ok go) := by
  rw [Python.rejectBackslash]
  by_cases hmem : chr '\\' ∈ value
  · rw [if_pos hmem, if_pos ⟨hwindows, hmem⟩]
    exact Rel.error trivial
  · rw [if_neg hmem, if_neg fun h => hmem h.2]
    exact Rel.ok rfl

/-- The prefix of a Windows root is folded by both ports, and a backslash refused behind it. -/
theorem windows_agrees (value rest : List α) {root : Root α} (hroot : root.Valid)
    (hwindows : root.isWindows = true) :
    SameOutcome (fun py go => py = (lowercaseDrive go.1, go.2))
      (Python.rejectBackslash value (root.fold.text, rest))
      (if isWindowsRoot root.text = true ∧ chr '\\' ∈ value then
        newError .invalidPath "Windows canonical components cannot contain a literal backslash"
      else
        .ok (root.text, rest)) := by
  have hagrees := rejectBackslash_agrees value (root.text, rest) (isWindowsRoot_text.trans hwindows)
  rwa [lowercaseDrive_text hroot] at hagrees

/-- A UNC root, ordinary or extended, is read alike behind its leader. -/
theorem unc_agrees (value leader body : List α)
    (hroot : ∀ server share tail, IsName server → IsName share →
      body = server ++ lit "/" ++ share ++ tail → ∃ root : Root α, root.Valid ∧ root.fold = root ∧
        root.isWindows = true ∧ root.text = leader ++ server ++ lit "/" ++ share) :
    SameOutcome (fun py go => py = (lowercaseDrive go.1, go.2))
      (do
        let split ← Python.splitUNC body
        Python.rejectBackslash value (leader ++ split.1, split.2))
      (do
        let split ← splitUNCRoot (leader ++ body) leader
        if isWindowsRoot split.1 = true ∧ chr '\\' ∈ value then
          newError .invalidPath "Windows canonical components cannot contain a literal backslash"
        else
          .ok split) := by
  have hagrees : SameOutcome (fun py go => go = (leader ++ py.1, py.2)) (Python.splitUNC body)
      (splitUNCRoot (leader ++ body) leader) :=
    splitUNC_agrees leader body
  refine Rel.bind hagrees fun py go hpy hgo => ?_
  have hsplit : splitUNCRoot (leader ++ body) leader = .ok (leader ++ py.1, py.2) := by
    rw [hpy] at hagrees
    rcases rel_ok_left_iff.1 hagrees with ⟨split, hsplit, rfl⟩
    exact hsplit
  rcases exists_of_splitUNCRoot_eq_ok hsplit with
    ⟨server, share, tail, hserver, hshare, -, hbody, hleads⟩
  rcases hroot server share tail hserver hshare hbody with ⟨root, hvalid, hfold, hwindows, htext⟩
  have hcheck := windows_agrees value py.2 hvalid hwindows
  rw [hgo, hleads, ← htext]
  rwa [hfold] at hcheck

theorem splitRoot_agrees {value : List α} (hnul : nul ∉ value) (htriple : ¬lit "///" <+: value) :
    SameOutcome (fun py go => py = (lowercaseDrive go.1, go.2)) (Python.splitRoot value)
      (splitRoot value) := by
  have hstarts (text leader : List α) : Python.startswith text leader = hasPrefix text leader := rfl
  have htriple' : hasPrefix value (lit "///") = false := by
    rw [hasPrefix, Bool.eq_false_iff, Ne, List.isPrefixOf_iff_prefix]
    exact htriple
  rw [Python.splitRoot, if_neg hnul, splitRoot, splitRootSwitch]
  simp only [hstarts, hasDriveRoot_eq, isDriveRelative_eq, htriple', Bool.false_eq_true, if_false]
  -- both grammars ask for the extended prefix, a drive, two slashes and one slash, in this order
  by_cases hext : hasPrefix value (lit "//?/") = true
  · rw [if_pos hext, if_pos hext]
    rcases hasPrefix_iff.1 hext with ⟨tail, rfl⟩
    have hdrop : (lit "//?/" ++ tail).drop 4 = tail := rfl
    rw [hdrop]
    by_cases hdrive : hasDriveRoot tail = true
    · rw [if_pos hdrive, if_pos hdrive]
      rcases hasDriveRoot_iff.1 hdrive with ⟨d, rest, hd, rfl⟩
      have hroot : (Root.extendedDrive d).Valid := hd
      exact windows_agrees _ rest hroot rfl
    · rw [if_neg hdrive, if_neg hdrive]
      by_cases hunc : hasPrefix tail (lit "UNC/") = true
      · rw [if_pos hunc, if_pos hunc]
        rcases hasPrefix_iff.1 hunc with ⟨body, rfl⟩
        refine unc_agrees _ (lit "//?/UNC/") body ?_
        intro server share _ hserver hshare _
        exact ⟨.extendedUNC server share, ⟨hserver, hshare⟩, rfl, rfl, rfl⟩
      · rw [if_neg hunc, if_neg hunc]
        exact Rel.error trivial
  · rw [if_neg hext, if_neg hext]
    by_cases hdrive : hasDriveRoot value = true
    · rw [if_pos hdrive, if_pos hdrive]
      rcases hasDriveRoot_iff.1 hdrive with ⟨d, rest, hd, rfl⟩
      have hroot : (Root.drive d).Valid := hd
      exact windows_agrees _ rest hroot rfl
    · rw [if_neg hdrive, if_neg hdrive]
      by_cases hunc : hasPrefix value (lit "//") = true
      · rcases hasPrefix_iff.1 hunc with ⟨body, rfl⟩
        have hrelative : isDriveRelative (lit "//" ++ body) = false :=
          isDriveRelative_slash_cons (chr '/' :: body)
        rw [hrelative, if_neg Bool.false_ne_true, if_pos hunc, if_pos hunc]
        refine unc_agrees _ (lit "//") body ?_
        rintro server share tail hserver hshare rfl
        refine ⟨.unc server share, ⟨hserver, hshare, ?_⟩, rfl, rfl, rfl⟩
        -- a server named `?` would be the extended prefix
        rintro rfl
        exact hext (hasPrefix_iff.2 ⟨share ++ tail, by simp [lit]⟩)
      · rw [if_neg hunc, if_neg hunc]
        by_cases hslash : hasPrefix value (lit "/") = true
        · rcases hasPrefix_iff.1 hslash with ⟨rest, rfl⟩
          have hrelative : isDriveRelative (lit "/" ++ rest) = false :=
            isDriveRelative_slash_cons rest
          rw [hrelative, if_neg Bool.false_ne_true, if_pos hslash, if_pos hslash, ok_bind, if_neg]
          · have hposix : (Root.posix : Root α).Valid := trivial
            exact Rel.ok (Prod.ext (lowercaseDrive_text hposix).symm rfl)
          · exact fun h => absurd h.1 (by simp [isWindowsRoot])
        · rw [if_neg hslash, if_neg hslash]
          split_ifs
          · exact Rel.error trivial
          · rw [ok_bind, if_neg]
            · exact Rel.ok rfl
            · exact fun h => absurd h.1 (by simp [isWindowsRoot])

/-- A run of three or more slashes at the beginning. -/
def TripleSlash (value : List α) : Prop :=
  nul ∉ value ∧ lit "///" <+: value

/-- It is the POSIX root of the Python port. -/
theorem splitRoot_triple {value : List α} (htriple : TripleSlash value) :
    Python.splitRoot value = .ok (lit "/", value.dropWhile (· == chr '/')) := by
  rcases htriple with ⟨hnul, tail, rfl⟩
  have hvalue : lit "///" ++ tail = chr '/' :: (lit "//" ++ tail) := by
    simp [lit]
  have hext : Python.startswith (lit "///" ++ tail) (lit "//?/") = false := by
    rw [Bool.eq_false_iff]
    intro h
    rcases hasPrefix_iff.1 h with ⟨rest, hrest⟩
    simp [lit] at hrest
  have hdrive : Python.hasDriveRoot (lit "///" ++ tail) = false := by
    rw [hvalue, hasDriveRoot_eq, hasDriveRoot_slash_cons]
  have hrelative : Python.isDriveRelative (lit "///" ++ tail) = false := by
    rw [hvalue, isDriveRelative_eq, isDriveRelative_slash_cons]
  have hleads : Python.startswith (lit "///" ++ tail) (lit "///") = true :=
    List.isPrefixOf_iff_prefix.2 ⟨tail, rfl⟩
  rw [Python.splitRoot, if_neg hnul, hext, hdrive, hrelative, hleads]
  rfl

/-- It is no root of the Go port, which reads a UNC root without a server. -/
theorem not_triple_of_splits {value rest : List α} {root : Root α} (h : Splits value root rest) :
    ¬lit "///" <+: value := by
  rintro ⟨tail, htail⟩
  cases h with
  | relative hhead _ =>
      exact hhead (by rw [← htail]; rfl)
  | posix hhead =>
      have hrest : lit "//" ++ tail = rest := (List.cons.inj htail).2
      exact hhead (by rw [← hrest]; rfl)
  | drive hd _ =>
      exact ne_slash_of_isLetter hd (List.cons.inj htail).1.symm
  | unc hserver hshare hne htail' hclean =>
      rename_i server share tail'
      have hbody : chr '/' :: tail = server ++ (lit "/" ++ share ++ tail') := by
        simpa [lit] using htail
      cases server with
      | nil =>
          exact hserver.ne_nil rfl
      | cons a server =>
          exact hserver.slash_not_mem (by simp [(List.cons.inj hbody).1])
  | extendedDrive _ _ =>
      exact absurd htail (by simp [lit])
  | extendedUNC _ _ _ _ =>
      exact absurd htail (by simp [lit])

theorem not_driveRelative_of_splits {value rest : List α} {root : Root α} (h : Splits value root rest) :
    isDriveRelative value = false := by
  cases h with
  | relative _ hmarker =>
      rw [Go.isDriveRelative_eq, hmarker, Bool.false_and]
  | posix _ =>
      exact isDriveRelative_slash_cons _
  | drive hd hclean =>
      rename_i d
      have hdrive : hasDriveRoot (d :: lit ":/" ++ rest) = true := hasDriveRoot_iff.2 ⟨d, rest, hd, rfl⟩
      rw [Go.isDriveRelative_eq, hdrive, Bool.not_true, Bool.and_false]
  | unc _ _ _ _ _ =>
      rw [Go.isDriveRelative_eq, needsRelativeMarker_eq]
      simp [lit, isLetterCode]
  | extendedDrive _ _ =>
      rw [Go.isDriveRelative_eq, needsRelativeMarker_eq]
      simp [lit, isLetterCode]
  | extendedUNC _ _ _ _ =>
      rw [Go.isDriveRelative_eq, needsRelativeMarker_eq]
      simp [lit, isLetterCode]

/-! ## Dot cleanup -/

theorem cleanPartsLoop_eq (rootPrefix : List α) (escape : PathError) (parts comps : List (List α)) :
    Python.cleanPartsLoop rootPrefix escape parts comps =
      cleanLoop (rootPrefix != []) escape parts comps := by
  induction comps generalizing parts with
  | nil =>
      rfl
  | cons part comps ih =>
      rw [Python.cleanPartsLoop, cleanLoop]
      split_ifs with hstay hup hparts hroot
      · exact ih _
      · exact ih _
      · simp_all
      · rfl
      · exact ih _
      · simp_all
      · exact ih _

theorem serialize_eq {rootPrefix : List α} {parts : List (List α)}
    (hparts : ∀ part ∈ parts, IsName part) :
    Python.serialize rootPrefix parts = serialize rootPrefix parts := by
  simp only [Python.serialize, serialize]
  by_cases hroot : rootPrefix = []
  · rw [if_pos hroot, if_pos hroot]
    cases parts with
    | nil =>
        rfl
    | cons part parts =>
        have hjoin : joinOn (chr '/') (part :: parts) ≠ [] := by
          rw [Ne, joinOn_parts_eq_nil_iff hparts]
          exact List.cons_ne_nil _ _
        rw [if_neg hjoin, markRelative, needsRelativeMarker_joinOn, ← driveComponent_eq]
        dsimp only
        split_ifs
        · rfl
        · rfl
  · rw [if_neg hroot, if_neg hroot]
    split_ifs with hjoin hsuffix hsuffix' hsuffix'
    · rfl
    · rfl
    · exact absurd hsuffix hsuffix'
    · exact absurd hsuffix' hsuffix
    · exact (List.append_assoc _ _ _).symm

theorem cleanCanonical_agrees {value : List α} (htriple : ¬TripleSlash value) :
    SameOutcome Eq (Python.cleanCanonical value) (cleanCanonical value) := by
  rw [Python.cleanCanonical, cleanCanonical]
  by_cases hne : value = []
  · rw [if_pos hne, if_pos hne]
    exact Rel.error trivial
  rw [if_neg hne, if_neg hne]
  by_cases hnul : nul ∈ value
  · rw [if_pos hnul, Python.splitRoot, if_pos hnul]
    exact Rel.error trivial
  rw [if_neg hnul]
  refine Rel.bind (splitRoot_agrees hnul fun h => htriple ⟨hnul, h⟩) fun py go _ hsplit => ?_
  subst hsplit
  dsimp only
  rw [Python.cleanParts, cleanPartsLoop_eq, cleanLoop_eq]
  cases hrun : DotStack.run (lowercaseDrive go.1 != []) [] ((go.2.splitOn (chr '/')).map move) with
  | none =>
      exact Rel.error trivial
  | some parts =>
      have hnames : ∀ part ∈ parts, IsName part := isName_of_resolve hrun
      exact Rel.ok (serialize_eq hnames)

/-! ## Canonical mode -/

/-- The output of dot cleanup splits again, in the Python port too. -/
theorem splitRoot_render (p : Identity α) : ∃ split, Python.splitRoot p.render = .ok split := by
  have hagrees := splitRoot_agrees p.render_nul_free (not_triple_of_splits p.splits_render)
  rw [splitRoot_of_splits p.splits_render] at hagrees
  cases hpy : Python.splitRoot p.render with
  | error err =>
      rw [hpy] at hagrees
      exact absurd hagrees (by rintro ⟨⟩)
  | ok split =>
      exact ⟨split, rfl⟩

theorem normalizeCanonical_eq_ok_iff {value cleaned : List α}
    (htriple : ¬TripleSlash value) :
    Python.normalizeCanonical value = .ok cleaned ↔ cleanCanonical value = .ok cleaned := by
  have hclean := sameOutcome_eq_iff.1 (cleanCanonical_agrees htriple) cleaned
  constructor
  · intro h
    rw [Python.normalizeCanonical] at h
    split_ifs at h with hne hnul hrelative
    · exact absurd h (by simp [newError])
    · exact absurd h (by simp [newError])
    · exact absurd h (by simp [newError])
    · rcases bind_eq_ok_iff.1 h with ⟨cleaned', hcleaned, hsplit⟩
      rcases bind_eq_ok_iff.1 hsplit with ⟨split, -, hok⟩
      rw [← hclean, hcleaned, Except.ok.inj hok]
  · intro h
    rcases cleanCanonical_eq_ok_iff.1 h with ⟨hne, hnul, -⟩
    rcases exists_identity_of_cleanCanonical h with ⟨p, root, rest, rfl, hsplits, -⟩
    have hrelative : isDriveRelative value = false := not_driveRelative_of_splits hsplits
    rcases splitRoot_render p with ⟨split, hsplit⟩
    rw [Python.normalizeCanonical, if_neg hne, if_neg hnul, isDriveRelative_eq, hrelative,
      if_neg Bool.false_ne_true, hclean.2 h, ok_bind, hsplit, ok_bind]

/-! ## The operand check -/

/-- A text of components, or no text. -/
def CleanRest (rest : List α) : Prop :=
  ∃ parts : List (List α), (∀ part ∈ parts, IsName part) ∧ rest = joinOn (chr '/') parts

/-- The components that the check tests and returns. -/
def textParts (text : List α) : List (List α) :=
  if text = [] then [] else text.splitOn (chr '/')

theorem joinOn_textParts (text : List α) : joinOn (chr '/') (textParts text) = text := by
  rw [textParts]
  split_ifs with hnil
  · rw [hnil]
    rfl
  · simp [joinOn]

/-- The component test lets names through. -/
theorem textParts_test_iff {text : List α} :
    ((textParts text).any fun part => part == [] || part == lit "." || part == lit "..") = false ↔
      ∀ part ∈ textParts text, IsName part := by
  have hslash : ∀ part ∈ textParts text, chr '/' ∉ part := by
    intro part hpart
    rw [textParts] at hpart
    split_ifs at hpart
    · exact absurd hpart List.not_mem_nil
    · exact not_mem_of_mem_splitOn hpart
  rw [List.any_eq_false]
  refine forall₂_congr fun part hpart => ?_
  simp only [Bool.or_eq_true, beq_iff_eq, not_or]
  constructor
  · intro htest
    exact ⟨htest.1.1, htest.1.2, htest.2, hslash part hpart⟩
  · intro hname
    exact ⟨⟨hname.ne_nil, hname.ne_dot⟩, hname.ne_dotdot⟩

theorem cleanRest_iff (text : List α) : CleanRest text ↔ ∀ part ∈ textParts text, IsName part := by
  constructor
  · intro h part hpart
    obtain ⟨parts, hnames, rfl⟩ := h
    rw [textParts] at hpart
    split_ifs at hpart with hnil
    · exact absurd hpart List.not_mem_nil
    · have hne : parts ≠ [] := by
        intro hparts
        rw [hparts] at hnil
        exact hnil rfl
      rw [splitOn_joinOn (fun part hpart => (hnames part hpart).slash_not_mem) hne] at hpart
      exact hnames part hpart
  · intro h
    exact ⟨textParts text, h, (joinOn_textParts text).symm⟩

/-- What the check does behind the root. -/
theorem validatedCanonical_eq_ok_iff {value : List α} {split : List α × List (List α)} :
    Python.validatedCanonical value = .ok split ↔ value ≠ [] ∧ ∃ root, Python.splitRoot value = .ok root ∧
      (root.1 = [] ∧ value = lit "." ∧ split = ([], []) ∨
        ¬(root.1 = [] ∧ value = lit ".") ∧ ∃ text,
          text = (if root.1 = [] ∧ Python.isMarkedRelative root.2 = true then root.2.drop 2 else root.2) ∧
          (∀ part ∈ textParts text, IsName part) ∧ split = (root.1, textParts text)) := by
  rw [Python.validatedCanonical]
  by_cases hne : value = []
  · rw [if_pos hne]
    constructor
    · intro h
      cases h
    · intro h
      exact absurd hne h.1
  rw [if_neg hne, bind_eq_ok_iff]
  constructor
  · intro h
    obtain ⟨root, hroot, h⟩ := h
    refine ⟨hne, root, hroot, ?_⟩
    by_cases hdot : root.1 = [] ∧ value = lit "."
    · rw [if_pos hdot] at h
      exact .inl ⟨hdot.1, hdot.2, (Except.ok.inj h).symm⟩
    · rw [if_neg hdot] at h
      refine .inr ⟨hdot, _, rfl, ?_⟩
      dsimp only at h
      rw [newError, ite_error_eq_ok_iff] at h
      exact ⟨textParts_test_iff.1 (Bool.eq_false_iff.2 h.1), (Except.ok.inj h.2).symm⟩
  · intro h
    obtain ⟨-, root, hroot, h⟩ := h
    refine ⟨root, hroot, ?_⟩
    rcases h with ⟨hempty, hdot, rfl⟩ | ⟨hdot, text, htext, hnames, rfl⟩
    · rw [if_pos ⟨hempty, hdot⟩]
    · rw [if_neg hdot]
      dsimp only
      rw [← htext]
      exact if_neg (Bool.eq_false_iff.1 (textParts_test_iff.2 hnames))

/-- Behind a root that was read, the check accepts the single dot and clean texts. -/
theorem accepts_of_root {value : List α} {root : List α × List α} (hne : value ≠ [])
    (hroot : Python.splitRoot value = .ok root) :
    (∃ split, Python.validatedCanonical value = .ok split) ↔ (root.1 = [] ∧ value = lit ".") ∨
      CleanRest (if root.1 = [] ∧ Python.isMarkedRelative root.2 = true then root.2.drop 2 else root.2) := by
  simp only [validatedCanonical_eq_ok_iff, hroot, Except.ok.injEq, cleanRest_iff]
  constructor
  · intro h
    obtain ⟨split, -, root', rfl, hcases⟩ := h
    rcases hcases with ⟨hempty, hdot, -⟩ | ⟨-, text, rfl, hnames, -⟩
    · exact .inl ⟨hempty, hdot⟩
    · exact .inr hnames
  · intro h
    by_cases hdot : root.1 = [] ∧ value = lit "."
    · exact ⟨_, hne, root, rfl, .inl ⟨hdot.1, hdot.2, rfl⟩⟩
    · exact ⟨_, hne, root, rfl, .inr ⟨hdot, _, rfl, h.resolve_left hdot, rfl⟩⟩

theorem splitRoot_fold {value rest : List α} {root : Root α} (hnul : nul ∉ value) (h : Splits value root rest) :
    Python.splitRoot value = .ok (root.fold.text, rest) := by
  have hagrees := splitRoot_agrees hnul (not_triple_of_splits h)
  rw [splitRoot_of_splits h] at hagrees
  cases hpy : Python.splitRoot value with
  | error err =>
      rw [hpy] at hagrees
      cases hagrees
  | ok split =>
      rw [hpy] at hagrees
      rw [rel_ok_ok_iff.1 hagrees, lowercaseDrive_text h.valid]

/-- Where the Go port reads the root, the marker counts for a relative value only. -/
theorem accepts_of_splits {value rest : List α} {root : Root α} (hne : value ≠ []) (hnul : nul ∉ value)
    (h : Splits value root rest) :
    (∃ split, Python.validatedCanonical value = .ok split) ↔
      (root.isAbsolute = false ∧ value = lit ".") ∨
        CleanRest (if root.isAbsolute = true then rest else withoutRelativeMarker rest) := by
  have hroot : root.fold.text = [] ↔ root.isAbsolute = false := by
    rw [Root.text_eq_nil_iff, Root.isAbsolute_fold]
  have hrest : (if root.fold.text = [] ∧ Python.isMarkedRelative rest = true then rest.drop 2 else rest) =
      if root.isAbsolute = true then rest else withoutRelativeMarker rest := by
    rw [isMarkedRelative_eq, withoutRelativeMarker]
    simp only [hroot]
    cases root.isAbsolute with
    | true =>
        simp
    | false =>
        simp
  rw [accepts_of_root hne (splitRoot_fold hnul h), hrest, hroot]

/-- A UNC root with a separator and nothing behind it. -/
def TrailingShare (value : List α) : Prop :=
  nul ∉ value ∧ ∃ root : Root α, root.Valid ∧ root.isWindows = true ∧
    root.isDrive = false ∧ root.isExtendedDrive = false ∧ chr '\\' ∉ root.text ∧
      value = root.text ++ lit "/"

/-- What follows a share spells the components, unless it is a separator alone. -/
theorem remainder_spells {rootPrefix tail rest : List α} {parts : List (List α)}
    (hne : rootPrefix ≠ []) (hsuffix : hasSuffix rootPrefix (lit "/") = false)
    (htail : Remainder tail rest) (hrest : rest = joinOn (chr '/') parts) :
    rootPrefix ++ tail = serialize rootPrefix parts ∨ tail = lit "/" := by
  rw [serialize, if_neg hne, hsuffix, ← hrest]
  cases htail with
  | bare =>
      left
      rw [if_pos rfl, List.append_nil]
  | slash =>
      by_cases hnil : rest = []
      · right
        rw [hnil]
        rfl
      · left
        rw [if_neg hnil, if_neg Bool.false_ne_true]
        simp [lit]

/-- A clean rest spells an operand behind its root, unless it is the empty rest behind a share. -/
theorem exists_operand_of_cleanRest {value rest : List α} {root : Root α} (hnul : nul ∉ value)
    (h : Splits value root rest) (habs : root.isAbsolute = true) (hclean : CleanRest rest) :
    (∃ o : Operand α, value = o.spelling) ∨ TrailingShare value := by
  rcases hclean with ⟨parts, hparts, hrest⟩
  have hresolve : resolve root.isAbsolute rest = some parts := by
    rw [hrest, resolve_joinOn hparts]
  -- the components and the root as they are spelled
  have hoperand (hvalue : value = serialize root.text parts) : ∃ o : Operand α, value = o.spelling :=
    ⟨{ identity := Identity.ofSplits hnul h hresolve, root := root, root_valid := h.valid,
       root_fold := rfl }, hvalue⟩
  have hvalid : root.Valid := h.valid
  have hbackslash := h.backslash_not_mem
  have hsuffix := hasSuffix_text hvalid habs
  cases h with
  | relative =>
      exact absurd habs (by simp [Root.isAbsolute])
  | posix _ =>
      refine .inl (hoperand ?_)
      rw [serialize_slash (Root.text_ne_nil habs) hsuffix, ← hrest]
      rfl
  | drive _ _ =>
      refine .inl (hoperand ?_)
      rw [serialize_slash (Root.text_ne_nil habs) hsuffix, ← hrest]
      rfl
  | extendedDrive _ _ =>
      refine .inl (hoperand ?_)
      rw [serialize_slash (Root.text_ne_nil habs) hsuffix, ← hrest]
      simp [Root.text]
  | unc hserver hshare hne htail hclean =>
      rename_i server share tail
      have hvalue : lit "//" ++ (server ++ lit "/" ++ share ++ tail) =
          (Root.unc server share).text ++ tail := by
        simp [Root.text]
      rw [hvalue] at hnul hbackslash hoperand ⊢
      -- behind a share there may be nothing, or a separator and nothing
      rcases remainder_spells (Root.text_ne_nil habs) hsuffix htail hrest with hspells | rfl
      · exact .inl (hoperand hspells)
      · refine .inr ⟨hnul, _, hvalid, rfl, rfl, rfl, fun hmem => ?_, rfl⟩
        exact hbackslash rfl (List.mem_append_left _ hmem)
  | extendedUNC hserver hshare htail hclean =>
      rename_i server share tail
      have hvalue : lit "//?/UNC/" ++ (server ++ lit "/" ++ share ++ tail) =
          (Root.extendedUNC server share).text ++ tail := by
        simp [Root.text]
      rw [hvalue] at hnul hbackslash hoperand ⊢
      rcases remainder_spells (Root.text_ne_nil habs) hsuffix htail hrest with hspells | rfl
      · exact .inl (hoperand hspells)
      · refine .inr ⟨hnul, _, hvalid, rfl, rfl, rfl, fun hmem => ?_, rfl⟩
        exact hbackslash rfl (List.mem_append_left _ hmem)

/-- A relative value whose unmarked text is clean spells its components. -/
theorem exists_parts_of_relative {value : List α} (hne : value ≠ []) (hmarker : needsRelativeMarker value = false)
    (hclean : CleanRest (withoutRelativeMarker value)) :
    ∃ parts : List (List α), (∀ part ∈ parts, IsName part) ∧ value = serialize [] parts := by
  rcases hclean with ⟨parts, hparts, htext⟩
  refine ⟨parts, hparts, ?_⟩
  by_cases hmarked : hasRelativeMarker value = true
  · rw [withoutRelativeMarker, if_pos hmarked] at htext
    rw [hasRelativeMarker, Bool.and_eq_true] at hmarked
    rcases hasPrefix_iff.1 hmarked.1 with ⟨tail, rfl⟩
    have hdrop : (lit "./" ++ tail).drop 2 = tail := rfl
    rw [hdrop] at htext hmarked
    have hnil : parts ≠ [] := by
      rintro rfl
      rw [htext] at hmarked
      exact absurd hmarked.2 (by simp [joinOn, needsRelativeMarker])
    rw [serialize_relative_of_ne_nil hparts hnil, ← htext, markRelative, if_pos hmarked.2]
  · rw [withoutRelativeMarker, if_neg hmarked] at htext
    have hnil : parts ≠ [] := by
      rintro rfl
      exact hne htext
    rw [serialize_relative_of_ne_nil hparts hnil, ← htext, markRelative, hmarker]
    rfl

theorem exists_operand_of_relative {value : List α} {parts : List (List α)} (hnul : nul ∉ value)
    (hparts : ∀ part ∈ parts, IsName part) (hvalue : value = serialize [] parts) :
    ∃ o : Operand α, value = o.spelling := by
  subst hvalue
  have hsplits := splits_serialize_relative hparts
  exact ⟨.ofIdentity (Identity.ofSplits hnul hsplits (resolve_serialize_relative hparts)), rfl⟩

theorem splits_of_trailingShare {value : List α} (h : TrailingShare value) :
    ∃ root : Root α, Splits value root [] ∧ root.fold = root ∧ root.isAbsolute = true ∧
      root.isWindows = true ∧ value = root.text ++ lit "/" := by
  rcases h with ⟨-, root, hvalid, hwindows, hdrive, hextended, hbackslash, rfl⟩
  cases root with
  | relative =>
      exact absurd hwindows (by simp [Root.isWindows])
  | posix =>
      exact absurd hwindows (by simp [Root.isWindows])
  | drive d =>
      exact absurd hdrive (by simp [Root.isDrive])
  | extendedDrive d =>
      exact absurd hextended (by simp [Root.isExtendedDrive])
  | unc server share =>
      have hclean : chr '\\' ∉ server ++ share ++ [] := by
        simpa [Root.text, lit] using hbackslash
      have hsplits := Splits.unc hvalid.1 hvalid.2.1 hvalid.2.2 (Remainder.slash []) hclean
      refine ⟨.unc server share, ?_, rfl, rfl, rfl, rfl⟩
      simpa [Root.text, lit] using hsplits
  | extendedUNC server share =>
      have hclean : chr '\\' ∉ server ++ share ++ [] := by
        simpa [Root.text, lit] using hbackslash
      have hsplits := Splits.extendedUNC hvalid.1 hvalid.2 (Remainder.slash []) hclean
      refine ⟨.extendedUNC server share, ?_, rfl, rfl, rfl, rfl⟩
      simpa [Root.text, lit] using hsplits

/-- What the Python check accepts spells an operand, unless it is a share with a trailing separator. -/
theorem exists_operand_of_validated {value : List α} {split : List α × List (List α)} (htriple : ¬TripleSlash value)
    (hok : Python.validatedCanonical value = .ok split) :
    (∃ o : Operand α, value = o.spelling) ∨ TrailingShare value := by
  have hne : value ≠ [] := by
    rintro rfl
    exact absurd hok (by simp [Python.validatedCanonical, newError])
  have hchecked := hok
  rw [Python.validatedCanonical, if_neg hne] at hok
  rcases bind_eq_ok_iff.1 hok with ⟨root', hroot', -⟩
  have hnul : nul ∉ value := by
    intro hmem
    rw [Python.splitRoot, if_pos hmem] at hroot'
    exact absurd hroot' (by simp [newError])
  -- the root that was read is the one that the Go grammar reads
  have hagrees := splitRoot_agrees hnul fun h => htriple ⟨hnul, h⟩
  rw [hroot'] at hagrees
  rcases rel_ok_left_iff.1 hagrees with ⟨go, hgo, -⟩
  rcases splitRoot_eq_ok_iff.1 hgo with ⟨root, hsplits, -⟩
  have haccepts := (accepts_of_splits hne hnul hsplits).1 ⟨split, hchecked⟩
  cases habs : root.isAbsolute with
  | true =>
      simp only [habs, Bool.true_eq_false, false_and, false_or, if_true] at haccepts
      exact exists_operand_of_cleanRest hnul hsplits habs haccepts
  | false =>
      -- a relative value is the single dot, or clean behind its marker
      obtain rfl := Root.isAbsolute_eq_false_iff.1 habs
      left
      rcases haccepts with ⟨-, hdot⟩ | hclean
      · cases hsplits with
        | relative _ _ =>
            have hspells : _ = serialize [] ([] : List (List α)) := hdot
            exact exists_operand_of_relative hnul (by simp) hspells
      · cases hsplits with
        | relative _ hmarker =>
            rcases exists_parts_of_relative hne hmarker hclean with ⟨parts, hparts, hvalue⟩
            exact exists_operand_of_relative hnul hparts hvalue

/-- Every spelling of an operand has a clean rest. -/
theorem validated_spelling (o : Operand α) : ∃ split, Python.validatedCanonical o.spelling = .ok split := by
  have hparts := o.identity.parts_valid
  rw [accepts_of_splits o.spelling_ne_nil o.spelling_nul_free o.splits_spelling, Identity.body, ← o.isAbsolute_root]
  cases habs : o.root.isAbsolute with
  | true =>
      exact .inr ⟨o.identity.parts, hparts, rfl⟩
  | false =>
      have hrelative : o.root.text = [] := Root.text_eq_nil_iff.2 habs
      have hrelative' : o.identity.root.text = [] :=
        Root.text_eq_nil_iff.2 (o.isAbsolute_root ▸ habs)
      rw [Operand.spelling, Identity.render, hrelative, hrelative']
      by_cases hnil : o.identity.parts = []
      · exact .inl ⟨rfl, (serialize_relative_eq_dot_iff hparts).2 hnil⟩
      · refine .inr ⟨o.identity.parts, hparts, ?_⟩
        rw [if_neg Bool.false_ne_true, if_neg Bool.false_ne_true,
          serialize_relative_of_ne_nil hparts hnil, withoutRelativeMarker_markRelative hparts]

/-- Behind the share of such a value there is an empty rest, which is clean. -/
theorem validated_of_trailingShare {value : List α} (h : TrailingShare value) :
    ∃ split, Python.validatedCanonical value = .ok split := by
  rcases splits_of_trailingShare h with ⟨root, hsplits, -, habs, -, hvalue⟩
  have hne : value ≠ [] := by
    rw [hvalue]
    simp [lit]
  rw [accepts_of_splits hne h.1 hsplits]
  refine .inr ⟨[], by simp, ?_⟩
  rw [if_pos habs]
  rfl

/-- The Python check accepts the operands of the Go check, and a UNC root with a trailing separator. -/
theorem accepts_iff {value : List α} (htriple : ¬TripleSlash value) :
    (∃ split, Python.validatedCanonical value = .ok split) ↔
      (∃ split, parseCleanCanonical value = .ok split) ∨ TrailingShare value := by
  constructor
  · rintro ⟨split, hok⟩
    refine (exists_operand_of_validated htriple hok).imp_left ?_
    rintro ⟨o, rfl⟩
    exact ⟨_, parseCleanCanonical_spelling o⟩
  · rintro (⟨split, hok⟩ | htrailing)
    · rcases exists_operand_of_parseCleanCanonical hok with ⟨o, rfl⟩
      exact validated_spelling o
    · exact validated_of_trailingShare htrailing

/-! ## The two additions -/

/-- Behind a run of slashes the Python port reads a POSIX path, and succeeds. -/
theorem normalizeCanonical_triple {value : List α} (htriple : TripleSlash value) :
    ∃ p : Identity α, Python.normalizeCanonical value = .ok p.render := by
  have hsplit := splitRoot_triple htriple
  rcases htriple with ⟨hnul, hleads⟩
  have hnul' : nul ∉ chr '/' :: value.dropWhile (· == chr '/') := by
    intro hmem
    rcases List.mem_cons.1 hmem with hslash | hmem
    · exact absurd hslash (by simp)
    · exact hnul (List.dropWhile_sublist _ |>.mem hmem)
  have hsplits : Splits (chr '/' :: value.dropWhile (· == chr '/')) .posix
      (value.dropWhile (· == chr '/')) := by
    refine Splits.posix fun hhead => ?_
    have hstop := List.head?_dropWhile_not (· == chr '/') value
    rw [hhead] at hstop
    exact absurd hstop (by simp)
  let p := Identity.ofSplits hnul' hsplits (resolve_floor (value.dropWhile (· == chr '/')))
  have hne : value ≠ [] := by
    rintro rfl
    exact absurd hleads (by simp [lit])
  -- behind the root of a run of slashes every `..` has something below it or stays
  have hclean : Python.cleanCanonical value = .ok p.render := by
    rw [Python.cleanCanonical, if_neg hne, hsplit, ok_bind, Python.cleanParts, cleanPartsLoop_eq,
      cleanLoop_eq]
    have hrun := resolve_floor (value.dropWhile (· == chr '/'))
    rw [resolve] at hrun
    have hroot : ((lit "/" : List α) != []) = true := by
      simp [lit]
    rw [hroot, hrun]
    exact congrArg Except.ok (serialize_eq p.parts_valid)
  have hrelative : isDriveRelative value = false := by
    rcases hleads with ⟨tail, rfl⟩
    rw [Go.isDriveRelative_eq, needsRelativeMarker_eq]
    simp [lit, isLetterCode]
  rcases splitRoot_render p with ⟨split, hagain⟩
  refine ⟨p, ?_⟩
  rw [Python.normalizeCanonical, if_neg hne, if_neg hnul, isDriveRelative_eq, hrelative,
    if_neg Bool.false_ne_true, hclean, ok_bind, hagain, ok_bind]

theorem not_clean_of_triple {value cleaned : List α} (htriple : TripleSlash value) :
    cleanCanonical value ≠ .ok cleaned := by
  intro h
  rcases cleanCanonical_eq_ok_iff.1 h with ⟨-, -, root, rest, -, hsplits, -⟩
  exact not_triple_of_splits hsplits htriple.2

/-- A trailing separator behind a share is dropped by dot cleanup, so the Go check refuses it. -/
theorem not_operand_of_trailingShare {value : List α} (h : TrailingShare value) :
    lowercaseDrive value = value ∧ ∀ split, parseCleanCanonical value ≠ .ok split := by
  rcases splits_of_trailingShare h with ⟨root, hsplits, hfold, habs, -, hvalue⟩
  have hlower : lowercaseDrive value = value := by
    rcases lowercaseDrive_of_splits hsplits with ⟨tail, htail, hlower⟩
    rw [hlower, hfold, ← htail]
  refine ⟨hlower, fun split hok => ?_⟩
  rcases bind_eq_ok_iff.1 hok with ⟨cleaned, hclean, hcompare⟩
  split_ifs at hcompare with hdiffers
  · exact absurd hcompare (by simp [newError])
  · have hne : value ≠ [] := by
      rw [hvalue]
      simp [lit]
    rw [cleanCanonical_of_splits hne h.1 hsplits, resolve_nil, Except.ok.injEq, hfold] at hclean
    have hbare : serialize root.text ([] : List (List α)) = root.text := by
      rw [serialize, if_neg (Root.text_ne_nil habs)]
      rfl
    rw [not_not, hlower, ← hclean, hbare, hvalue] at hdiffers
    exact absurd (congrArg List.length hdiffers) (by simp [lit])

/-! ## Both languages -/

/-- The Python port and the Go port have one canonical grammar outside the two additions.  The Go
strings are the UTF-8 of the Python ones. -/
theorem canonical_grammar_agrees_iff (value : List Char) :
    (SameOutcome (fun py go => go = utf8.encode py) (Python.normalizeCanonical value)
        (Go.normalize (utf8.encode value) { sourceHost := some .canonical }) ∧
      (Go.lowercaseDrive (utf8.encode value) = utf8.encode value →
        ((∃ split, Python.validatedCanonical value = .ok split) ↔
          ∃ split, Go.parseCleanCanonical (utf8.encode value) = .ok split) ∧
        ((∃ split, Python.validatedCanonical value = .ok split) →
          Go.normalize (utf8.encode value) { sourceHost := some .canonical } =
            .ok (utf8.encode value)))) ↔
      ¬TripleSlash value ∧ ¬TrailingShare value := by
  have hnormalize (cleaned : Bytes) :
      Go.normalize (utf8.encode value) { sourceHost := some .canonical } = .ok cleaned ↔
        ∃ text, cleanCanonical value = .ok text ∧ utf8.encode text = cleaned := by
    have hnotrim : Go.normalize (utf8.encode value) { sourceHost := some .canonical } =
        normalizeWith parseFileURI (utf8.encode value) { sourceHost := some .canonical } := rfl
    rw [hnotrim, normalizeWith_canonical_eq_ok_iff, cleanCanonical_encode, mapOk_eq_ok_iff]
  have hoperand : (∃ split, Go.parseCleanCanonical (utf8.encode value) = .ok split) ↔
      ∃ split, parseCleanCanonical value = .ok split := by
    simp only [parseCleanCanonical_encode, mapOk_eq_ok_iff]
    constructor
    · rintro ⟨-, split, hsplit, -⟩
      exact ⟨split, hsplit⟩
    · rintro ⟨split, hsplit⟩
      exact ⟨_, split, hsplit, rfl⟩
  have hlower : Go.lowercaseDrive (utf8.encode value) = utf8.encode value ↔
      lowercaseDrive value = value := by
    rw [lowercaseDrive_encode, utf8.encode_injective.eq_iff]
  rw [hoperand, hlower, hnormalize]
  constructor
  · rintro ⟨hsame, haccepts⟩
    -- each addition is accepted by the Python port and refused by the Go port
    have htriple : ¬TripleSlash value := by
      intro htriple
      rcases normalizeCanonical_triple htriple with ⟨cleaned, hcleaned⟩
      rw [hcleaned] at hsame
      rcases rel_ok_left_iff.1 hsame with ⟨go, hgo, -⟩
      rcases (hnormalize go).1 hgo with ⟨text, htext, -⟩
      exact not_clean_of_triple htriple htext
    refine ⟨htriple, fun htrailing => ?_⟩
    rcases not_operand_of_trailingShare htrailing with ⟨hsame', hrefused⟩
    rcases (haccepts hsame').1.1 ((accepts_iff htriple).2 (.inr htrailing)) with ⟨split, hsplit⟩
    exact hrefused split hsplit
  · rintro ⟨htriple, htrailing⟩
    have haccepts := accepts_iff htriple
    rw [or_iff_left htrailing] at haccepts
    refine ⟨?_, fun hsame => ⟨haccepts, fun hok => ?_⟩⟩
    · -- outside the additions both return the cleaned text
      cases hpy : Python.normalizeCanonical value with
      | ok cleaned =>
          have hclean := (normalizeCanonical_eq_ok_iff htriple).1 hpy
          exact rel_ok_left_iff.2 ⟨_, (hnormalize _).2 ⟨cleaned, hclean, rfl⟩, rfl⟩
      | error err =>
          refine rel_error_left_iff.2 ?_
          cases hgo : Go.normalize (utf8.encode value) { sourceHost := some .canonical } with
          | ok cleaned =>
              rcases (hnormalize cleaned).1 hgo with ⟨text, htext, -⟩
              rw [(normalizeCanonical_eq_ok_iff htriple).2 htext] at hpy
              exact absurd hpy (by simp)
          | error err' =>
              exact ⟨err', rfl, trivial⟩
    · rcases haccepts.1 hok with ⟨split, hsplit⟩
      rcases exists_operand_of_parseCleanCanonical hsplit with ⟨o, rfl⟩
      rw [o.lowercaseDrive_spelling] at hsame
      exact ⟨o.spelling, by rw [o.cleanCanonical_spelling, hsame], rfl⟩

/-- Three slashes, and a share with a trailing separator. -/
theorem canonical_grammar_not_agrees :
    ¬SameOutcome (fun py go => go = utf8.encode py) (Python.normalizeCanonical "///a".toList)
        (Go.normalize (utf8.encode "///a".toList) { sourceHost := some .canonical }) ∧
      Go.lowercaseDrive (utf8.encode "//server/share/".toList) = utf8.encode "//server/share/".toList ∧
      (∃ split, Python.validatedCanonical "//server/share/".toList = .ok split) ∧
      ¬∃ split, Go.parseCleanCanonical (utf8.encode "//server/share/".toList) = .ok split := by
  have hpy : Python.normalizeCanonical "///a".toList = .ok "/a".toList := by
    decide +kernel
  have hgo : Go.normalize (utf8.encode "///a".toList) { sourceHost := some .canonical } =
      newError .invalidPath "UNC root requires non-dot server and share components" := by
    decide +kernel
  have haccepts : Python.validatedCanonical "//server/share/".toList =
      .ok ("//server/share".toList, []) := by
    decide +kernel
  have hrefuses : Go.parseCleanCanonical (utf8.encode "//server/share/".toList) =
      newError .invalidPath "path is not lexically cleaned canonical input" := by
    decide +kernel
  refine ⟨?_, by decide +kernel, ⟨_, haccepts⟩, ?_⟩
  · rw [hpy, hgo]
    exact not_rel_ok_error
  · rw [hrefuses]
    rintro ⟨split, hsplit⟩
    exact absurd hsplit (by simp [newError])

end Python

end Ports

end CanonicalPath
