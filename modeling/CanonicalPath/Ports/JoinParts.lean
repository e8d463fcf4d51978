import CanonicalPath.Identity.Factoring
import CanonicalPath.Ports.Python
import CanonicalPath.Ports.Rust

/-!
# JoinParts — a list of parts in Python and in Rust

Both ports fold `join` over the parts that are not empty.  Rust checks the first one, Python hands it to the first
`join`, so that a part that stays alone is checked by nobody.

* `validatedCanonical_identity` : what the Python operand check reads is an identity
* `join_of_validated` : behind it, the two languages join alike
* `joinParts_canonical_iff` : the lists that Python joins canonically, and as Rust does
-/

namespace CanonicalPath

namespace Ports

namespace Python

open CodeUnit Segments Outcome Go

section Folds

variable {α : Type} [DecidableEq α] [CodeUnit α]

/-! ## The operand check, by its value -/

/-- What the check reads is an identity, the one that the cleaned value spells. -/
theorem validatedCanonical_of_splits {value rest : List α} {root : Root α} {split : List α × List (List α)}
    (hnul : nul ∉ value) (h : Splits value root rest) (hok : Python.validatedCanonical value = .ok split) :
    ∃ p : Identity α, split = (p.root.text, p.parts) ∧ p.root = root.fold ∧ cleanCanonical value = .ok p.render := by
  obtain ⟨hne, root', hroot', hcases⟩ := validatedCanonical_eq_ok_iff.1 hok
  rw [splitRoot_fold hnul h, Except.ok.injEq] at hroot'
  subst hroot'
  have hrelative : root.fold.text = [] ↔ root.isAbsolute = false := by
    rw [Root.text_eq_nil_iff, Root.isAbsolute_fold]
  -- the components of the rest, with or without a marker
  have hresolve : resolve root.isAbsolute rest = some split.2 := by
    rcases hcases with ⟨hempty, hdot, rfl⟩ | ⟨-, text, htext, hnames, rfl⟩
    · have habs := hrelative.1 hempty
      cases h with
      | relative =>
          rw [hdot]
          exact resolve_serialize_relative fun _ hpart => absurd hpart List.not_mem_nil
      | posix => exact absurd habs Bool.noConfusion
      | drive => exact absurd habs Bool.noConfusion
      | unc => exact absurd habs Bool.noConfusion
      | extendedDrive => exact absurd habs Bool.noConfusion
      | extendedUNC => exact absurd habs Bool.noConfusion
    · have hparts : resolve root.isAbsolute text = some (textParts text) := by
        have hjoined : resolve root.isAbsolute (joinOn (chr '/') (textParts text)) = some (textParts text) :=
          resolve_joinOn hnames
        rwa [joinOn_textParts] at hjoined
      by_cases hmarked : root.fold.text = [] ∧ Python.isMarkedRelative rest = true
      · rw [if_pos hmarked] at htext
        rw [isMarkedRelative_eq, hasRelativeMarker, Bool.and_eq_true] at hmarked
        obtain ⟨tail, rfl⟩ := hasPrefix_iff.1 hmarked.2.1
        have hdrop : (lit "./" ++ tail).drop 2 = tail := rfl
        rw [hdrop] at htext
        rw [resolve_dot_slash, ← htext]
        exact hparts
      · rw [if_neg hmarked] at htext
        have hrest : text = rest := htext
        rw [← hrest]
        exact hparts
  have htext : split.1 = root.fold.text := by
    rcases hcases with ⟨hempty, -, rfl⟩ | ⟨-, text, -, -, rfl⟩
    · exact hempty.symm
    · rfl
  refine ⟨Identity.ofSplits hnul h hresolve, Prod.ext htext rfl, rfl, ?_⟩
  rw [cleanCanonical_of_splits hne hnul h, hresolve]
  rfl

/-- Behind a run of slashes the check reads a POSIX identity. -/
theorem validatedCanonical_of_triple {value : List α} {split : List α × List (List α)} (htriple : TripleSlash value)
    (hok : Python.validatedCanonical value = .ok split) :
    ∃ p : Identity α, split = (p.root.text, p.parts) ∧ p.root = .posix := by
  obtain ⟨-, root', hroot', hcases⟩ := validatedCanonical_eq_ok_iff.1 hok
  rw [splitRoot_triple htriple, Except.ok.injEq] at hroot'
  subst hroot'
  rcases hcases with ⟨hempty, -, -⟩ | ⟨-, text, htext, hnames, rfl⟩
  · exact absurd hempty (List.cons_ne_nil _ _)
  rw [if_neg fun hmarked => List.cons_ne_nil _ _ hmarked.1] at htext
  have hbehind : text = value.dropWhile (· == chr '/') := htext
  have hnul : nul ∉ chr '/' :: text := by
    intro hmem
    rcases List.mem_cons.1 hmem with hslash | hmem
    · exact absurd hslash (by simp)
    · rw [hbehind] at hmem
      exact htriple.1 ((List.dropWhile_sublist _).mem hmem)
  have hsplits : Splits (chr '/' :: text) .posix text := by
    apply Splits.posix
    intro hhead
    have hstop := List.head?_dropWhile_not (· == chr '/') value
    rw [← hbehind, hhead] at hstop
    exact absurd hstop (by simp)
  have hresolve : resolve (Root.posix : Root α).isAbsolute text = some (textParts text) := by
    have hjoined : resolve (Root.posix : Root α).isAbsolute (joinOn (chr '/') (textParts text)) = some (textParts text) :=
      resolve_joinOn hnames
    rwa [joinOn_textParts] at hjoined
  exact ⟨Identity.ofSplits hnul hsplits hresolve, rfl, rfl⟩

/-- The check never reads anything but an identity. -/
theorem validatedCanonical_identity {value : List α} {split : List α × List (List α)}
    (hok : Python.validatedCanonical value = .ok split) : ∃ p : Identity α, split = (p.root.text, p.parts) := by
  by_cases htriple : TripleSlash value
  · obtain ⟨p, hsplit, -⟩ := validatedCanonical_of_triple htriple hok
    exact ⟨p, hsplit⟩
  · obtain ⟨-, root', hroot', -⟩ := validatedCanonical_eq_ok_iff.1 hok
    have hnul : nul ∉ value := by
      intro hmem
      rw [Python.splitRoot, if_pos hmem] at hroot'
      cases hroot'
    have hagrees := splitRoot_agrees hnul fun h => htriple ⟨hnul, h⟩
    rw [hroot'] at hagrees
    obtain ⟨go, hgo, -⟩ := rel_ok_left_iff.1 hagrees
    obtain ⟨root, hsplits, -⟩ := splitRoot_eq_ok_iff.1 hgo
    obtain ⟨p, hsplit, -, -⟩ := validatedCanonical_of_splits hnul hsplits hok
    exact ⟨p, hsplit⟩

theorem validatedCanonical_render (p : Identity α) : Python.validatedCanonical p.render = .ok (p.root.text, p.parts) := by
  have haccepts := (accepts_iff fun h => not_triple_of_splits p.splits_render h.2).2 (.inl ⟨_, parseCleanCanonical_render p⟩)
  obtain ⟨split, hok⟩ := haccepts
  obtain ⟨q, rfl, hroot, hclean⟩ := validatedCanonical_of_splits p.render_nul_free p.splits_render hok
  -- two identities with one string have one root and one list of components
  rw [cleanCanonical_render, Except.ok.injEq] at hclean
  have hbody := q.splits_render
  rw [← hclean] at hbody
  obtain ⟨htext, hrest⟩ := p.splits_render.rest_eq hbody
  have hparts : some p.parts = some q.parts := by
    rw [← p.resolve_body, ← q.resolve_body, hrest, hroot, Root.isAbsolute_fold]
  rw [hok, htext, Option.some.inj hparts]

/-! ## One step -/

/-- Behind the check the two languages join alike. -/
theorem join_of_validated {value : List α} {p : Identity α}
    (hok : Python.validatedCanonical value = .ok (p.root.text, p.parts)) (rel q : List α) :
    Python.join value rel = .ok q ↔ join p.render rel = .ok q := by
  have hwindows : (p.root.text ≠ [] ∧ p.root.text ≠ lit "/") ↔ p.root.isWindows = true := by
    rw [← isWindowsRoot_text, isWindowsRoot, Bool.and_eq_true, bne_iff_ne, bne_iff_ne]
  have hparts (more : List (List α)) :
      Python.cleanParts [] rel .outsideRoot = .ok more ↔ resolve false rel = some more := by
    rw [Python.cleanParts, cleanPartsLoop_eq, bne_self_eq_false, cleanLoop_eq, resolve]
    cases DotStack.run false [] ((rel.splitOn (chr '/')).map move) with
    | none =>
        simp
    | some parts =>
        simp
  rw [join_render_eq_ok_iff, splits_relative_iff, Python.join, hok, ok_bind]
  simp only [newError, ite_error_eq_ok_iff, bind_eq_ok_iff, hparts, hwindows, hasDriveRoot_eq, isDriveRelative_eq,
    Bool.not_eq_true, not_and, Except.ok.injEq]
  have hspelled {more : List (List α)} (hmore : resolve false rel = some more) :
      Python.serialize p.root.text (p.parts ++ more) = serialize p.root.text (p.parts ++ more) := by
    apply serialize_eq
    intro part hpart
    rcases List.mem_append.1 hpart with hroot | hrel
    · exact p.parts_valid part hroot
    · exact isName_of_resolve hmore part hrel
  constructor
  · intro h
    obtain ⟨hne, hnul, habsolute, hrelative, hbackslash, more, hmore, hq⟩ := h
    rw [hspelled hmore] at hq
    exact ⟨hbackslash, hne, hnul, ⟨habsolute, hrelative⟩, more, hmore, hq.symm⟩
  · intro h
    obtain ⟨hbackslash, hne, hnul, ⟨habsolute, hrelative⟩, more, hmore, hq⟩ := h
    rw [← hspelled hmore] at hq
    exact ⟨hne, hnul, habsolute, hrelative, hbackslash, more, hmore, hq.symm⟩

/-- What a join returns is an identity again, below the root that was read. -/
theorem join_of_ok {value rel q : List α} (h : Python.join value rel = .ok q) : ∃ r : Identity α, q = r.render := by
  obtain ⟨split, hsplit, -⟩ := bind_eq_ok_iff.1 h
  obtain ⟨p, rfl⟩ := validatedCanonical_identity hsplit
  obtain ⟨r, -, hq, -⟩ := exists_identity_of_join p ((join_of_validated hsplit rel q).1 h)
  exact ⟨r, hq⟩

theorem join_render_ok_iff (p : Identity α) {rel : List α} :
    (∃ q, join p.render rel = .ok q) ↔ Appendable rel ∧ (p.root.isWindows = true → chr '\\' ∉ rel) := by
  constructor
  · intro h
    obtain ⟨q, hq⟩ := h
    obtain ⟨hbackslash, hne, hnul, hsplits, more, hmore, -⟩ := (join_render_eq_ok_iff p).1 hq
    cases hsplits with
    | relative hrooted hdrive =>
        exact ⟨⟨hne, hnul, hrooted, hdrive, more, hmore⟩, hbackslash⟩
  · intro h
    obtain ⟨more, -, hjoin⟩ := join_spelling_of_appendable (.ofIdentity p) h.2 h.1
    exact ⟨_, hjoin⟩

/-! ## Folds of joins -/

/-- Equal canonical strings. -/
def SameIdentity (v w : List α) : Prop :=
  v = w ∧ ∃ p : Identity α, v = p.render

theorem join_agrees {value : List α} {p : Identity α}
    (hok : Python.validatedCanonical value = .ok (p.root.text, p.parts)) (rel : List α) :
    SameOutcome SameIdentity (Python.join value rel) (join p.render rel) := by
  have hsame := join_of_validated hok rel
  cases hpy : Python.join value rel with
  | ok q =>
      exact rel_ok_left_iff.2 ⟨q, (hsame q).1 hpy, rfl, join_of_ok hpy⟩
  | error err =>
      cases hgo : join p.render rel with
      | ok q =>
          rw [(hsame q).2 hgo] at hpy
          cases hpy
      | error err' =>
          exact Rel.error trivial

/-- Behind the check of the first part, at least one join. -/
theorem foldlM_agrees {first : List α} {p : Identity α}
    (hok : Python.validatedCanonical first = .ok (p.root.text, p.parts)) (part : List α) (parts : List (List α)) :
    SameOutcome SameIdentity ((part :: parts).foldlM Python.join first) ((part :: parts).foldlM join p.render) := by
  rw [List.foldlM_cons, List.foldlM_cons]
  -- the first join makes the two results equal, and an identity is its own operand from there on
  apply Rel.bind (join_agrees hok part)
  intro v w _ hsame
  apply Rel.foldlM parts _ hsame
  intro v w part hsame
  obtain ⟨rfl, q, rfl⟩ := hsame
  exact join_agrees (validatedCanonical_render q) part

/-- A fold of joins succeeds where every part can be appended behind the root. -/
theorem foldlM_join_ok_iff (p : Identity α) (parts : List (List α)) :
    (∃ v, parts.foldlM join p.render = .ok v) ↔
      ∀ part ∈ parts, Appendable part ∧ (p.root.isWindows = true → chr '\\' ∉ part) := by
  induction parts generalizing p with
  | nil =>
      exact iff_of_true ⟨_, rfl⟩ fun _ hpart => absurd hpart List.not_mem_nil
  | cons part parts ih =>
      simp only [List.foldlM_cons, bind_eq_ok_iff, List.forall_mem_cons]
      constructor
      · intro h
        obtain ⟨v, q, hq, hv⟩ := h
        obtain ⟨r, -, rfl, hroot, -⟩ := exists_identity_of_join p hq
        have hrest := (ih r).1 ⟨v, hv⟩
        rw [hroot] at hrest
        exact ⟨(join_render_ok_iff p).1 ⟨_, hq⟩, hrest⟩
      · intro h
        obtain ⟨q, hq⟩ := (join_render_ok_iff p).2 h.1
        obtain ⟨r, -, rfl, hroot, -⟩ := exists_identity_of_join p hq
        have hrest := h.2
        rw [← hroot] at hrest
        obtain ⟨v, hv⟩ := (ih r).2 hrest
        exact ⟨v, r.render, hq, hv⟩

/-! ## The loops -/

/-- The parts that the loops look at. -/
def present (parts : List (List α)) : List (List α) :=
  parts.filter fun part => !part.isEmpty

omit [DecidableEq α] [CodeUnit α] in
theorem mem_present_iff {parts : List (List α)} {part : List α} : part ∈ present parts ↔ part ∈ parts ∧ part ≠ [] := by
  rw [present, List.mem_filter, Bool.not_eq_true', ← Bool.not_eq_true, List.isEmpty_iff]

omit [DecidableEq α] [CodeUnit α] in
theorem present_nil_cons (parts : List (List α)) : present ([] :: parts) = present parts :=
  rfl

omit [DecidableEq α] [CodeUnit α] in
theorem present_cons {part : List α} (hpart : part ≠ []) (parts : List (List α)) :
    present (part :: parts) = part :: present parts := by
  apply List.filter_cons_of_pos
  rwa [Bool.not_eq_true', ← Bool.not_eq_true, List.isEmpty_iff]

omit [DecidableEq α] [CodeUnit α] in
theorem ne_nil_of_present {parts rest : List (List α)} {first : List α} (h : present parts = first :: rest) :
    first ≠ [] := by
  have hfirst : first ∈ present parts := by
    rw [h]
    exact List.mem_cons_self
  exact (mem_present_iff.1 hfirst).2

/-- A started loop is a fold. -/
theorem joinPartsLoop_eq_foldlM {result : List α} (hresult : result ≠ []) (parts : List (List α)) :
    Python.joinPartsLoop result parts = (present parts).foldlM Python.join result := by
  induction parts generalizing result with
  | nil =>
      rfl
  | cons part parts ih =>
      rw [Python.joinPartsLoop]
      by_cases hpart : part = []
      · -- an empty part is passed over, wherever it stands
        rw [if_pos hpart, hpart, present_nil_cons]
        exact ih hresult
      rw [if_neg hpart, if_neg hresult, present_cons hpart, List.foldlM_cons]
      cases hjoin : Python.join result part with
      | error err =>
          rfl
      | ok joined =>
          -- no join returns the empty string, so the loop stays started
          obtain ⟨r, rfl⟩ := join_of_ok hjoin
          exact ih r.render_ne_nil

theorem foldlM_join_ne_nil {first v : List α} {parts : List (List α)} (hfirst : first ≠ [])
    (h : parts.foldlM Python.join first = .ok v) : v ≠ [] := by
  apply foldlM_keeps (P := fun v => v ≠ []) h hfirst
  intro v part w _ hjoin
  obtain ⟨r, rfl⟩ := join_of_ok hjoin
  exact r.render_ne_nil

theorem joinParts_of_nil {parts : List (List α)} (h : present parts = []) :
    Python.joinParts parts = newError .emptyPath "join parts are empty" := by
  have hloop : Python.joinPartsLoop [] parts = .ok [] := by
    induction parts with
    | nil =>
        rfl
    | cons part parts ih =>
        rw [Python.joinPartsLoop]
        by_cases hpart : part = []
        · rw [hpart, present_nil_cons] at h
          rw [if_pos hpart]
          exact ih h
        · rw [present_cons hpart] at h
          cases h
  rw [Python.joinParts, hloop]
  rfl

theorem joinParts_of_cons {parts rest : List (List α)} {first : List α} (h : present parts = first :: rest) :
    Python.joinParts parts = rest.foldlM Python.join first := by
  have hloop : Python.joinPartsLoop [] parts = rest.foldlM Python.join first := by
    induction parts with
    | nil =>
        cases h
    | cons part parts ih =>
        rw [Python.joinPartsLoop]
        by_cases hpart : part = []
        · rw [hpart, present_nil_cons] at h
          rw [if_pos hpart]
          exact ih h
        · rw [present_cons hpart] at h
          obtain ⟨rfl, hrest⟩ := List.cons.inj h
          rw [if_neg hpart, if_pos rfl, joinPartsLoop_eq_foldlM hpart, hrest]
  have hfirst : first ≠ [] := ne_nil_of_present h
  rw [Python.joinParts, hloop]
  cases hfold : rest.foldlM Python.join first with
  | error err =>
      rfl
  | ok v =>
      rw [ok_bind, if_neg (foldlM_join_ne_nil hfirst hfold)]

theorem ne_nil_of_join {root rel q : List α} (h : join root rel = .ok q) : q ≠ [] := by
  obtain ⟨split, hsplit, -⟩ := bind_eq_ok_iff.1 h
  obtain ⟨o, rfl⟩ := exists_operand_of_parseCleanCanonical hsplit
  obtain ⟨-, -, -, -, more, -, rfl⟩ := (join_spelling_eq_ok_iff o).1 h
  exact serialize_ne_nil

/-- The loop of the Rust port, once it has started. -/
theorem rust_joinPartsLoop_eq_foldlM {result : List α} (hresult : result ≠ []) (parts : List (List α)) :
    Rust.joinPartsLoop result parts = parts.foldlM join result := by
  induction parts generalizing result with
  | nil =>
      rfl
  | cons part parts ih =>
      rw [Rust.joinPartsLoop, if_neg (mt List.isEmpty_iff.1 hresult), List.foldlM_cons, Rust.join_eq]
      cases hjoin : join result part with
      | error err =>
          rfl
      | ok joined =>
          exact ih (ne_nil_of_join hjoin)

theorem rust_joinParts_of_nil {parts : List (List α)} (h : present parts = []) :
    Rust.joinParts parts = newError .emptyPath "join parts are empty" := by
  have hfilter : (parts.filter fun part => !part.isEmpty) = [] := h
  rw [Rust.joinParts, hfilter]
  rfl

/-- The Rust port checks the first part before it starts. -/
theorem rust_joinParts_of_cons {parts rest : List (List α)} {first : List α} (h : present parts = first :: rest) :
    Rust.joinParts parts = (do
      let _ ← parseCleanCanonical first
      rest.foldlM join first) := by
  have hfilter : (parts.filter fun part => !part.isEmpty) = first :: rest := h
  have hfirst : first ≠ [] := ne_nil_of_present h
  rw [Rust.joinParts, hfilter, Rust.joinPartsLoop, if_pos (by rfl), Rust.parseCleanCanonical_eq]
  cases hparse : parseCleanCanonical first with
  | error err =>
      rfl
  | ok split =>
      rw [mapOk_ok, ok_bind, ok_bind, rust_joinPartsLoop_eq_foldlM hfirst]
      cases hfold : rest.foldlM join first with
      | error err =>
          rfl
      | ok v =>
          have hne : v ≠ [] := by
            apply foldlM_keeps (P := fun v => v ≠ []) hfold hfirst
            intro v part w _ hjoin
            exact ne_nil_of_join hjoin
          rw [ok_bind, if_neg (mt List.isEmpty_iff.1 hne)]

/-! ## A first part that only Python takes -/

/-- A first part that the Python check accepts and the Rust check refuses, in front of parts that join below it. -/
def LooseStart (first : List α) (rest : List (List α)) : Prop :=
  (TripleSlash first ∧ CleanRest (first.dropWhile (· == chr '/')) ∧ ∀ part ∈ rest, Appendable part) ∨
    (TrailingShare first ∧ ∀ part ∈ rest, Appendable part ∧ chr '\\' ∉ part)

theorem accepts_triple_iff {value : List α} (htriple : TripleSlash value) :
    (∃ split, Python.validatedCanonical value = .ok split) ↔ CleanRest (value.dropWhile (· == chr '/')) := by
  have hne : value ≠ [] := by
    intro hnil
    rw [hnil] at htriple
    exact absurd htriple.2 (by simp [lit])
  have hrooted : (lit "/" : List α) ≠ [] := List.cons_ne_nil _ _
  rw [accepts_of_root hne (splitRoot_triple htriple)]
  simp only [hrooted, false_and, if_false, false_or]

theorem not_triple_of_trailingShare {value : List α} (h : TrailingShare value) : ¬TripleSlash value := by
  obtain ⟨root, hsplits, -⟩ := splits_of_trailingShare h
  intro htriple
  exact not_triple_of_splits hsplits htriple.2

/-- It is no operand of the other ports. -/
theorem LooseStart.refused {first : List α} {rest : List (List α)} (h : LooseStart first rest) :
    ∀ split, parseCleanCanonical first ≠ .ok split := by
  rcases h with ⟨htriple, -, -⟩ | ⟨htrailing, -⟩
  · intro split hok
    obtain ⟨cleaned, hclean, -⟩ := bind_eq_ok_iff.1 hok
    exact not_clean_of_triple htriple hclean
  · exact (not_operand_of_trailingShare htrailing).2

/-- Behind a first part that only Python accepts, the rest decides. -/
theorem looseStart_iff {first : List α} {rest : List (List α)} {p : Identity α}
    (hok : Python.validatedCanonical first = .ok (p.root.text, p.parts))
    (hrefused : ¬∃ split, parseCleanCanonical first = .ok split) :
    LooseStart first rest ↔ ∀ part ∈ rest, Appendable part ∧ (p.root.isWindows = true → chr '\\' ∉ part) := by
  -- a POSIX root lets backslashes through, a share does not
  by_cases htriple : TripleSlash first
  · obtain ⟨q, hsplit, hposix⟩ := validatedCanonical_of_triple htriple hok
    have hwindows : p.root.isWindows = false := by
      have htext : p.root.text = q.root.text := (Prod.ext_iff.1 hsplit).1
      rw [← isWindowsRoot_text, htext, hposix, isWindowsRoot_text]
      rfl
    have hclean : CleanRest (first.dropWhile (· == chr '/')) := (accepts_triple_iff htriple).1 ⟨_, hok⟩
    constructor
    · intro h
      rcases h with ⟨-, -, hrest⟩ | ⟨htrailing, -⟩
      · intro part hpart
        refine ⟨hrest part hpart, ?_⟩
        rw [hwindows]
        exact fun hfalse => absurd hfalse Bool.false_ne_true
      · exact absurd htriple (not_triple_of_trailingShare htrailing)
    · intro h
      exact .inl ⟨htriple, hclean, fun part hpart => (h part hpart).1⟩
  · have htrailing : TrailingShare first := ((accepts_iff htriple).1 ⟨_, hok⟩).resolve_left hrefused
    obtain ⟨root, hsplits, -, -, hroot, -⟩ := splits_of_trailingShare htrailing
    obtain ⟨q, hsplit, hfold, -⟩ := validatedCanonical_of_splits htrailing.1 hsplits hok
    have hwindows : p.root.isWindows = true := by
      have htext : p.root.text = q.root.text := (Prod.ext_iff.1 hsplit).1
      rw [← isWindowsRoot_text, htext, isWindowsRoot_text, hfold, Root.isWindows_fold, hroot]
    constructor
    · intro h
      rcases h with ⟨htriple', -⟩ | ⟨-, hrest⟩
      · exact absurd htriple' htriple
      · intro part hpart
        exact ⟨(hrest part hpart).1, fun _ => (hrest part hpart).2⟩
    · intro h
      exact .inr ⟨htrailing, fun part hpart => ⟨(h part hpart).1, (h part hpart).2 hwindows⟩⟩

/-- Where the first part is in lower case and another one is there, the two ports agree unless it starts loosely. -/
theorem foldlM_sameOutcome_iff {first : List α} (hlower : lowercaseDrive first = first) (part : List α)
    (parts : List (List α)) :
    SameOutcome Eq ((part :: parts).foldlM Python.join first)
        (do
          let _ ← parseCleanCanonical first
          (part :: parts).foldlM join first) ↔
      ¬LooseStart first (part :: parts) := by
  by_cases hparse : ∃ split, parseCleanCanonical first = .ok split
  · -- both checks read the same identity
    have hloose : ¬LooseStart first (part :: parts) := by
      intro h
      obtain ⟨split, hsplit⟩ := hparse
      exact h.refused split hsplit
    refine iff_of_true ?_ hloose
    obtain ⟨split, hsplit⟩ := hparse
    obtain ⟨o, rfl⟩ := exists_operand_of_parseCleanCanonical hsplit
    rw [hsplit, ok_bind]
    rw [o.lowercaseDrive_spelling] at hlower
    rw [← hlower]
    apply Rel.imp (foldlM_agrees (validatedCanonical_render o.identity) part parts)
    intro v w hsame
    exact hsame.1
  -- the Rust port fails at once
  have hrust : ∃ err, (do
      let _ ← parseCleanCanonical first
      (part :: parts).foldlM join first) = .error err := by
    cases hparse' : parseCleanCanonical first with
    | ok split => exact absurd ⟨split, hparse'⟩ hparse
    | error err => exact ⟨err, rfl⟩
  obtain ⟨err, hrust⟩ := hrust
  rw [hrust]
  cases hcheck : Python.validatedCanonical first with
  | error err' =>
      have hpy : (part :: parts).foldlM Python.join first = .error err' := by
        rw [List.foldlM_cons, Python.join, hcheck]
        rfl
      rw [hpy]
      refine iff_of_true (Rel.error trivial) ?_
      intro h
      -- both kinds pass the Python check
      have haccepts : ∃ split, Python.validatedCanonical first = .ok split := by
        rcases h with ⟨htriple, hclean, -⟩ | ⟨htrailing, -⟩
        · exact (accepts_triple_iff htriple).2 hclean
        · exact (accepts_iff (not_triple_of_trailingShare htrailing)).2 (.inr htrailing)
      obtain ⟨split, hsplit⟩ := haccepts
      rw [hcheck] at hsplit
      cases hsplit
  | ok split =>
      obtain ⟨p, rfl⟩ := validatedCanonical_identity hcheck
      -- Python goes on behind the identity that it has read
      rw [looseStart_iff hcheck hparse, ← foldlM_join_ok_iff]
      have hagrees := foldlM_agrees hcheck part parts
      cases hpy : (part :: parts).foldlM Python.join first with
      | ok v =>
          rw [hpy] at hagrees
          obtain ⟨w, hgo, -⟩ := rel_ok_left_iff.1 hagrees
          exact iff_of_false not_rel_ok_error fun h => h ⟨w, hgo⟩
      | error err' =>
          rw [hpy] at hagrees
          obtain ⟨err'', hgo, -⟩ := rel_error_left_iff.1 hagrees
          rw [hgo]
          refine iff_of_true (Rel.error trivial) ?_
          intro h
          obtain ⟨w, hw⟩ := h
          cases hw

/-- Text that can be appended has no drive letter to fold. -/
theorem lowercaseDrive_of_appendable {rel : List α} (h : Appendable rel) : lowercaseDrive rel = rel := by
  obtain ⟨tail, hrel, hlower⟩ := lowercaseDrive_of_splits (Splits.relative h.not_rooted h.not_drive)
  rw [hlower]
  exact hrel.symm

theorem lowercaseDrive_of_triple {value : List α} (htriple : TripleSlash value) : lowercaseDrive value = value := by
  obtain ⟨tail, rfl⟩ := htriple.2
  have hdrive : hasDriveRoot (lit "///" ++ tail) = false := hasDriveRoot_slash_cons
  have hextended : hasPrefix (lit "///" ++ tail) (lit "//?/") = false := by
    rw [Bool.eq_false_iff]
    intro h
    obtain ⟨rest, hrest⟩ := hasPrefix_iff.1 h
    simp [lit] at hrest
  rw [lowercaseDrive, hdrive, hextended]
  rfl

theorem LooseStart.lowercaseDrive_eq {first : List α} {rest : List (List α)} (h : LooseStart first rest) :
    ∀ part ∈ first :: rest, lowercaseDrive part = part := by
  intro part hpart
  rcases h with ⟨htriple, -, hrest⟩ | ⟨htrailing, hrest⟩
  · rcases List.mem_cons.1 hpart with rfl | hpart
    · exact lowercaseDrive_of_triple htriple
    · exact lowercaseDrive_of_appendable (hrest part hpart)
  · rcases List.mem_cons.1 hpart with rfl | hpart
    · exact (not_operand_of_trailingShare htrailing).1
    · exact lowercaseDrive_of_appendable (hrest part hpart).1

/-! ## Canonical results -/

theorem normalizeCanonical_render (p : Identity α) : Python.normalizeCanonical p.render = .ok p.render := by
  have htriple : ¬TripleSlash p.render := fun h => not_triple_of_splits p.splits_render h.2
  rw [normalizeCanonical_eq_ok_iff htriple, cleanCanonical_render]

/-- Canonical mode keeps the strings of identities only. -/
theorem exists_identity_of_fixed {value : List α} (h : Python.normalizeCanonical value = .ok value) :
    ∃ p : Identity α, value = p.render := by
  by_cases htriple : TripleSlash value
  · obtain ⟨p, hp⟩ := normalizeCanonical_triple htriple
    rw [h] at hp
    exact ⟨p, Except.ok.inj hp⟩
  · obtain ⟨p, root, rest, hrender, -⟩ := exists_identity_of_cleanCanonical ((normalizeCanonical_eq_ok_iff htriple).1 h)
    exact ⟨p, hrender⟩

/-- `v` is the fold of `join` over the parts that are not empty, from an operand on, and it is canonical. -/
def CanonicalFold (parts : List (List α)) (v : List α) : Prop :=
  ∃ first rest, present parts = first :: rest ∧ (∃ split, Python.validatedCanonical first = .ok split) ∧
    rest.foldlM Python.join first = .ok v ∧ Python.normalizeCanonical v = .ok v

/-- With a second part, the first join checks the first one and every join returns an identity. -/
theorem canonicalFold_of_cons {parts more : List (List α)} {first part v : List α}
    (h : present parts = first :: part :: more) (hok : Python.joinParts parts = .ok v) : CanonicalFold parts v := by
  rw [joinParts_of_cons h] at hok
  refine ⟨first, part :: more, h, ?_, hok, ?_⟩
  · rw [List.foldlM_cons] at hok
    obtain ⟨q, hq, -⟩ := bind_eq_ok_iff.1 hok
    obtain ⟨split, hsplit, -⟩ := bind_eq_ok_iff.1 hq
    exact ⟨split, hsplit⟩
  · have hidentity : ∃ r : Identity α, v = r.render := by
      rw [List.foldlM_cons] at hok
      obtain ⟨q, hq, hrest⟩ := bind_eq_ok_iff.1 hok
      apply foldlM_keeps (P := fun v => ∃ r : Identity α, v = r.render) hrest (join_of_ok hq)
      intro v next w _ hjoin
      exact join_of_ok hjoin
    obtain ⟨r, rfl⟩ := hidentity
    exact normalizeCanonical_render r

/-- A part that stays alone is checked by nobody. -/
theorem canonicalFold_singleton_iff {parts : List (List α)} {part : List α} (h : present parts = [part]) :
    CanonicalFold parts part ↔ Python.normalizeCanonical part = .ok part := by
  constructor
  · intro hfold
    obtain ⟨-, -, -, -, -, hfixed⟩ := hfold
    exact hfixed
  · intro hfixed
    obtain ⟨p, rfl⟩ := exists_identity_of_fixed hfixed
    exact ⟨p.render, [], h, ⟨_, validatedCanonical_render p⟩, rfl, hfixed⟩

end Folds

/-! ## Across the spellings -/

section Spellings

variable {α β : Type} [DecidableEq α] [CodeUnit α] [DecidableEq β] [CodeUnit β] (e : Encoding α β)

omit [DecidableEq α] [DecidableEq β] in
theorem present_encode (parts : List (List α)) :
    present (parts.map e.encode) = (present parts).map e.encode := by
  have hempty (part : List α) : (e.encode part).isEmpty = part.isEmpty := by
    rw [Bool.eq_iff_iff, List.isEmpty_iff, List.isEmpty_iff, e.encode_eq_nil_iff]
  rw [present, present, List.filter_map]
  simp only [Function.comp_def, hempty]

theorem foldlM_join_encode (first : List α) (parts : List (List α)) :
    (parts.map e.encode).foldlM join (e.encode first) = mapOk e.encode (parts.foldlM join first) := by
  induction parts generalizing first with
  | nil =>
      rfl
  | cons part parts ih =>
      rw [List.map_cons, List.foldlM_cons, List.foldlM_cons, join_encode]
      apply bind_mapOk
      intro joined
      exact ih joined

theorem rust_joinParts_encode (parts : List (List α)) :
    Rust.joinParts (parts.map e.encode) = mapOk e.encode (Rust.joinParts parts) := by
  cases hpresent : present parts with
  | nil =>
      have hencoded : present (parts.map e.encode) = [] := by
        rw [present_encode, hpresent, List.map_nil]
      rw [rust_joinParts_of_nil hpresent, rust_joinParts_of_nil hencoded]
      rfl
  | cons first rest =>
      have hencoded : present (parts.map e.encode) = e.encode first :: rest.map e.encode := by
        rw [present_encode, hpresent, List.map_cons]
      rw [rust_joinParts_of_cons hpresent, rust_joinParts_of_cons hencoded, parseCleanCanonical_encode]
      apply bind_mapOk
      intro split
      exact foldlM_join_encode e first rest

end Spellings

/-! ## Both languages -/

/-- A list that is joined as the fold of `join` over canonical data: what comes out is a canonical string, and where the
drive letters are in lower case the Rust port gives the same outcome. -/
structure JoinsCanonically (parts : List (List Char)) : Prop where
  fold : ∀ v, Python.joinParts parts = .ok v → CanonicalFold parts v
  agrees : (∀ part ∈ parts, Rust.lowercaseDrive (utf8.encode part) = utf8.encode part) →
    SameOutcome (fun py rust => rust = utf8.encode py) (Python.joinParts parts)
      (Rust.joinParts (parts.map utf8.encode))

/-- The parts that are not empty: none, a canonical string alone, or a first one that does not start loosely. -/
def WellStarted : List (List Char) → Prop
  | [] => True
  | [part] => Python.normalizeCanonical part = .ok part
  | first :: part :: more => ¬LooseStart first (part :: more)

theorem rust_lowercaseDrive_encode_iff (part : List Char) :
    Rust.lowercaseDrive (utf8.encode part) = utf8.encode part ↔ lowercaseDrive part = part := by
  rw [Rust.lowercaseDrive_eq, lowercaseDrive_encode, utf8.encode_injective.eq_iff]

theorem rust_sameOutcome_iff (parts : List (List Char)) :
    SameOutcome (fun py rust => rust = utf8.encode py) (Python.joinParts parts)
        (Rust.joinParts (parts.map utf8.encode)) ↔
      SameOutcome Eq (Python.joinParts parts) (Rust.joinParts parts) := by
  rw [rust_joinParts_encode, SameOutcome, rel_mapOk_right_iff]
  simp only [utf8.encode_injective.eq_iff, eq_comm]

/-- `join_parts` of the Python port is the fold of `join` over canonical data, and the one of the Rust port, exactly on
the lists that are well started. -/
theorem joinParts_canonical_iff (parts : List (List Char)) : JoinsCanonically parts ↔ WellStarted (present parts) := by
  have hlower (first : List Char) (rest : List (List Char)) (h : present parts = first :: rest) :
      (∀ part ∈ parts, Rust.lowercaseDrive (utf8.encode part) = utf8.encode part) → lowercaseDrive first = first := by
    intro hlower
    have hfirst : first ∈ present parts := by
      rw [h]
      exact List.mem_cons_self
    exact (rust_lowercaseDrive_encode_iff first).1 (hlower first (mem_present_iff.1 hfirst).1)
  cases hpresent : present parts with
  | nil =>
      -- both ports report an empty list
      have hpy := joinParts_of_nil hpresent
      refine iff_of_true ⟨fun v hok => ?_, fun _ => ?_⟩ trivial
      · rw [hpy] at hok
        cases hok
      · rw [rust_sameOutcome_iff, hpy, rust_joinParts_of_nil hpresent]
        exact Rel.error trivial
  | cons first rest =>
      have hpy := joinParts_of_cons hpresent
      cases rest with
      | nil =>
          -- a part alone: Rust checks it, Python returns it
          have hok : Python.joinParts parts = .ok first := hpy
          constructor
          · intro h
            exact (canonicalFold_singleton_iff hpresent).1 (h.fold first hok)
          · intro hfixed
            obtain ⟨p, rfl⟩ := exists_identity_of_fixed hfixed
            refine ⟨fun v hv => ?_, fun _ => ?_⟩
            · rw [hok, Except.ok.injEq] at hv
              rw [← hv]
              exact (canonicalFold_singleton_iff hpresent).2 hfixed
            · rw [rust_sameOutcome_iff, hok, rust_joinParts_of_cons hpresent, parseCleanCanonical_render]
              exact Rel.ok rfl
      | cons part more =>
          have hagrees (hfirst : lowercaseDrive first = first) :
              SameOutcome (fun py rust => rust = utf8.encode py) (Python.joinParts parts)
                (Rust.joinParts (parts.map utf8.encode)) ↔ ¬LooseStart first (part :: more) := by
            rw [rust_sameOutcome_iff, hpy, rust_joinParts_of_cons hpresent, foldlM_sameOutcome_iff hfirst]
          constructor
          · intro h hloose
            refine (hagrees (hloose.lowercaseDrive_eq first List.mem_cons_self)).1 (h.agrees ?_) hloose
            intro entry hentry
            rw [rust_lowercaseDrive_encode_iff]
            by_cases hnil : entry = []
            · rw [hnil]
              rfl
            · apply hloose.lowercaseDrive_eq
              rw [← hpresent, mem_present_iff]
              exact ⟨hentry, hnil⟩
          · intro hstart
            refine ⟨fun v hok => canonicalFold_of_cons hpresent hok, fun hcase => ?_⟩
            exact (hagrees (hlower first (part :: more) hpresent hcase)).2 hstart

/-- A part that stays alone is returned as it is, dots included, and a run of slashes starts a join that the Rust port
refuses. -/
theorem joinParts_not_canonical :
    Python.joinParts ["".toList, "a/../b".toList] = .ok "a/../b".toList ∧
      Python.normalizeCanonical "a/../b".toList = .ok "b".toList ∧
      Python.joinParts ["///a".toList, "b".toList] = .ok "/a/b".toList ∧
      Rust.joinParts (["///a".toList, "b".toList].map utf8.encode) =
        newError .invalidPath "UNC root requires non-dot server and share components" ∧
      ¬∀ parts, JoinsCanonically parts := by
  have halone : Python.joinParts ["".toList, "a/../b".toList] = .ok "a/../b".toList := by
    decide +kernel
  have hcleaned : Python.normalizeCanonical "a/../b".toList = .ok "b".toList := by
    decide +kernel
  refine ⟨halone, hcleaned, by decide +kernel, by decide +kernel, ?_⟩
  intro hall
  obtain ⟨-, -, -, -, -, hfixed⟩ := (hall _).fold _ halone
  rw [hcleaned] at hfixed
  exact absurd hfixed (by decide +kernel)

end Python

end Ports

end CanonicalPath
