import CanonicalPath.Identity.Factoring
import CanonicalPath.Ports.Normalize
import CanonicalPath.TS.Relative

/-!
# Composition — `relative` and `join` in the two ports

TypeScript compares an operand with its cleaned form as it stands, so it accepts exactly the rendered
identities; Go also accepts them with an upper-case drive letter.  On rendered identities the
operations agree, and an upper-case letter is where Go may succeed alone:

* `relative_render_eq`, `join_render_iff` : rendered operands
* `relative_sameOutcome_iff`, `join_sameOutcome_iff` : all operands
* `composition_agrees_iff` : across the spellings of the two languages
-/

namespace CanonicalPath

namespace Ports

open CodeUnit Segments Outcome DotStack

variable {α : Type} [DecidableEq α] [CodeUnit α]

/-! ## The TypeScript operand check -/

/-- What the TypeScript parser reads in a rendered identity. -/
structure ReadsIdentity (parsed : TS.ParsedRoot α) (p : Identity α) : Prop where
  rootPrefix_eq : parsed.rootPrefix = p.root.text
  rest_eq : parsed.rest = p.body
  relative_iff : parsed.kind = .relative ↔ p.root.isAbsolute = false
  isWindows_eq : TS.isWindowsRoot parsed.kind = p.root.isWindows

theorem splitRoot_render (p : Identity α) :
    ∃ parsed, TS.splitRoot p.render = .ok parsed ∧ ReadsIdentity parsed p := by
  rcases exists_parsed_of_splits p.render_nul_free p.splits_render with ⟨root, hvalid, htext, hparsed⟩
  refine ⟨_, hparsed, ?_, rfl, ?_, ?_⟩
  · -- the parser folds the letter, which is folded already
    have hfold : root.fold.text = p.root.fold.text := by
      rw [← lowercaseDrive_text hvalid, ← htext, lowercaseDrive_text p.root_valid]
    rw [p.root_folded] at hfold
    exact hfold
  · rw [← Root.text_eq_nil_iff, htext, Root.text_eq_nil_iff]
    cases root <;> simp [parsedRoot, kindOf, Root.isAbsolute]
  · rw [← isWindowsRoot_text, htext, isWindowsRoot_text]
    exact isWindowsRoot_kindOf root

theorem cleanCanonical_render_ts (p : Identity α) : TS.cleanCanonical p.render = .ok p.render := by
  have hagrees := cleanCanonical_agrees p.render
  rw [cleanCanonical_render p] at hagrees
  rcases rel_ok_left_iff.1 hagrees with ⟨_, hts, rfl⟩
  exact hts

theorem validateCanonical_render (p : Identity α) :
    ∃ parsed, TS.validateCanonical p.render false = .ok parsed ∧ ReadsIdentity parsed p := by
  rcases splitRoot_render p with ⟨parsed, hparsed, hreads⟩
  refine ⟨parsed, ?_, hreads⟩
  rw [TS.validateCanonical, hparsed, ok_bind, cleanCanonical_render_ts, ok_bind]
  simp [TS.comparable]

/-- TypeScript accepts rendered identities only. -/
theorem exists_identity_of_validateCanonical {value : List α} {parsed : TS.ParsedRoot α}
    (h : TS.validateCanonical value false = .ok parsed) : ∃ p : Identity α, value = p.render := by
  rcases bind_eq_ok_iff.1 h with ⟨root, -, h⟩
  rcases bind_eq_ok_iff.1 h with ⟨cleaned, hclean, h⟩
  have hcleaned : cleaned = value := by
    by_contra hne
    rw [if_pos (by simpa [TS.comparable] using hne)] at h
    exact absurd h (by simp [newError])
  have hagrees := cleanCanonical_agrees value
  rw [hclean, hcleaned] at hagrees
  cases hgo : Go.cleanCanonical value with
  | error err =>
      rw [hgo] at hagrees
      cases hagrees
  | ok cleaned' =>
      rw [hgo] at hagrees
      rcases exists_identity_of_cleanCanonical hgo with ⟨p, -, -, hrender, -⟩
      exact ⟨p, (rel_ok_ok_iff.1 hagrees).symm.trans hrender⟩

/-! ## Rendered operands -/

theorem canonicalParts_render_ts (p : Identity α) (habs : p.root.isAbsolute = true) :
    TS.canonicalParts p.render = .ok (p.root.text, p.parts) := by
  rcases validateCanonical_render p with ⟨parsed, hparsed, hreads⟩
  have hrest : parsed.rest = joinOn (chr '/') p.parts := by
    rw [hreads.rest_eq, Identity.body, if_pos habs]
  rw [TS.canonicalParts, hparsed, ok_bind, if_neg (by simp [hreads.relative_iff, habs]),
    hreads.rootPrefix_eq, hrest]
  by_cases hnil : p.parts = []
  · rw [if_pos (by simp [hnil, joinOn]), hnil]
  · rw [if_neg (mt (joinOn_parts_eq_nil_iff p.parts_valid).1 hnil),
      splitOn_joinOn (fun part hpart => (p.parts_valid part hpart).slash_not_mem) hnil]

/-- A relative operand is refused. -/
theorem canonicalParts_relative_ts (p : Identity α) (habs : p.root.isAbsolute = false) :
    TS.canonicalParts p.render = newError .invalidPath "path must be canonical absolute" := by
  rcases validateCanonical_render p with ⟨parsed, hparsed, hreads⟩
  rw [TS.canonicalParts, hparsed, ok_bind, if_pos (hreads.relative_iff.2 habs)]

theorem markRelative_eq {value : List α} (hne : value ≠ []) :
    TS.markRelative value = Go.markRelative value := by
  rw [TS.markRelative, if_neg hne, Go.markRelative]
  simp only [needsRelativeMarker_eq]

/-- On rendered absolute operands the two ports run the same comparison. -/
theorem relative_render_eq (p q : Identity α) (hp : p.root.isAbsolute = true)
    (hq : q.root.isAbsolute = true) :
    TS.relative p.render q.render = Go.relative p.render q.render := by
  have hgo (r : Identity α) (hr : r.root.isAbsolute = true) :
      Go.canonicalParts r.render = .ok (r.root.text, r.parts) :=
    canonicalParts_spelling (.ofIdentity r) hr
  rw [TS.relative, Go.relative, canonicalParts_render_ts p hp, canonicalParts_render_ts q hq, hgo p hp,
    hgo q hq]
  simp only [ok_bind]
  split_ifs with houtside hrun hlength
  · rfl
  · rfl
  · rfl
  · -- components are left, so the join is not empty
    have hbelow : ∀ part ∈ q.parts.drop p.parts.length, IsName part :=
      fun part hpart => q.parts_valid part (List.mem_of_mem_drop hpart)
    have hne : q.parts.drop p.parts.length ≠ [] := by
      rw [not_or, Nat.not_lt] at houtside
      rw [Ne, List.drop_eq_nil_iff]
      omega
    rw [markRelative_eq (mt (joinOn_parts_eq_nil_iff hbelow).1 hne)]

/-- Where the TypeScript parser finds no root, there is none. -/
theorem splits_of_relative_kind {value : List α} {parsed : TS.ParsedRoot α} (hnul : nul ∉ value)
    (h : TS.splitRoot value = .ok parsed) (hkind : parsed.kind = .relative) :
    Splits value .relative value ∧ parsed.rest = value := by
  have hagrees := splitRoot_agrees hnul
  rw [h] at hagrees
  cases hgo : Go.splitRoot value with
  | error err =>
      rw [hgo] at hagrees
      cases hagrees
  | ok split =>
      rw [hgo] at hagrees
      rcases rel_ok_ok_iff.1 hagrees with ⟨root, -, htext, rfl⟩
      rcases splitRoot_eq_ok_iff.1 hgo with ⟨root', hsplits, htext'⟩
      -- a relative kind is an empty prefix, and then the rest is the whole value
      have hnil : root'.text = [] := by
        rw [← htext', htext, Root.text_eq_nil_iff]
        have hkind' : kindOf root = .relative := hkind
        cases root <;> simp_all [kindOf, Root.isAbsolute]
      cases hsplits with
      | relative hhead hmarker =>
          exact ⟨Splits.relative hhead hmarker, rfl⟩
      | posix | drive | unc | extendedDrive | extendedUNC =>
          exact absurd hnil (Root.text_ne_nil rfl)

/-- The relative paths that `join` accepts are the same, and they are cleaned alike. -/
theorem cleanCanonicalRelative_eq_ok_iff {rel out : List α} :
    TS.cleanCanonicalRelative rel = .ok out ↔ Go.normalizeCanonicalRelative rel = .ok out := by
  have hmark {parts : List (List α)} (h : ∀ part ∈ parts, IsName part) :
      TS.markRelative (joinOn (chr '/') parts) = Go.serialize [] parts := by
    by_cases hnil : parts = []
    · -- the Go text of no components is the dot
      rw [hnil]
      rfl
    · rw [serialize_relative_of_ne_nil h hnil, markRelative_eq (mt (joinOn_parts_eq_nil_iff h).1 hnil)]
  rw [normalizeCanonicalRelative_eq_ok_iff]
  constructor
  · intro h
    by_cases hne : rel = []
    · rw [TS.cleanCanonicalRelative, if_pos hne] at h
      exact absurd h (by simp [newError])
    rw [TS.cleanCanonicalRelative, if_neg hne] at h
    rcases bind_eq_ok_iff.1 h with ⟨parsed, hparsed, h⟩
    have hnul : nul ∉ rel := by
      intro hmem
      rw [TS.splitRoot, if_pos hmem] at hparsed
      exact absurd hparsed (by simp [newError])
    by_cases hkind : parsed.kind = .relative
    · -- the walk is over the whole value
      rcases splits_of_relative_kind hnul hparsed hkind with ⟨hsplits, hrest⟩
      rw [if_neg (not_not.2 hkind), hrest, TS.cleanComponents, cleanComponentsLoop_eq, cleanLoop_eq] at h
      rcases bind_eq_ok_iff.1 h with ⟨parts, hparts, h⟩
      have hresolve : resolve false rel = some parts := by
        rw [resolve]
        cases hrun : run false [] ((rel.splitOn (chr '/')).map move) with
        | none =>
            rw [hrun] at hparts
            exact absurd hparts (by simp)
        | some parts' =>
            rw [hrun] at hparts
            exact congrArg some (Except.ok.inj hparts)
      refine ⟨hne, hnul, hsplits, parts, hresolve, ?_⟩
      rw [← hmark (isName_of_resolve hresolve), Except.ok.inj h]
    · rw [if_pos hkind] at h
      exact absurd h (by simp [newError])
  · rintro ⟨hne, hnul, hsplits, parts, hresolve, rfl⟩
    rcases exists_parsed_of_splits hnul hsplits with ⟨root, -, htext, hparsed⟩
    -- the root that was parsed has an empty text
    have hkind : (parsedRoot root rel).kind = .relative := by
      have habs : root.isAbsolute = false := by
        rw [← Root.text_eq_nil_iff, ← htext]
        rfl
      cases root <;> simp_all [parsedRoot, kindOf, Root.isAbsolute]
    have hrest : (parsedRoot root rel).rest = rel := rfl
    rw [resolve] at hresolve
    rw [TS.cleanCanonicalRelative, if_neg hne, hparsed, ok_bind, if_neg (not_not.2 hkind), hrest,
      TS.cleanComponents, cleanComponentsLoop_eq, cleanLoop_eq, hresolve]
    exact congrArg Except.ok (hmark (isName_of_resolve hresolve))

/-! ## `join` on rendered roots -/

/-- A relative text stays relative when more text follows it behind a separator. -/
theorem splits_relative_append {value : List α} (h : Splits value .relative value) (hne : value ≠ [])
    (tail : List α) :
    Splits (value ++ chr '/' :: tail) .relative (value ++ chr '/' :: tail) := by
  cases h with
  | relative hhead hmarker =>
      refine Splits.relative ?_ ?_
      · rwa [List.head?_append_of_ne_nil _ hne]
      · match value, hne with
        | [a], _ =>
            simp [Go.needsRelativeMarker]
        | a :: b :: value, _ =>
            simpa [Go.needsRelativeMarker] using hmarker

/-- Cleaning what TypeScript joins gives what Go writes. -/
theorem cleanCanonical_joined (p : Identity α) {more : List (List α)}
    (hnames : ∀ part ∈ more, IsName part) (hnul : ∀ part ∈ more, nul ∉ part)
    (hbackslash : p.root.isWindows = true → ∀ part ∈ more, chr '\\' ∉ part) (hne : more ≠ []) :
    TS.cleanCanonical (TS.joined p.render (Go.serialize [] more)) =
      .ok (Go.serialize p.root.text (p.parts ++ more)) := by
  have hall : ∀ part ∈ p.parts ++ more, IsName part :=
    List.forall_mem_append.2 ⟨p.parts_valid, hnames⟩
  -- the cut of the marker leaves the joined components
  have hcomponents : (if TS.startsWith (Go.serialize [] more) (lit "./") then
      (Go.serialize [] more).drop 2 else Go.serialize [] more) = joinOn (chr '/') more := by
    rw [serialize_relative_of_ne_nil hnames hne, Go.markRelative, startsWith_eq]
    split_ifs with hmarker hleads
    · rfl
    · exact absurd (Go.hasPrefix_append _ _) hleads
    · rename_i hleads
      rw [hasPrefix_dot_slash_joinOn hnames] at hleads
      exact absurd hleads (by simp)
    · rfl
  have hendsWith (value : List α) : TS.endsWith value (lit "/") = Go.hasSuffix value (lit "/") :=
    Bool.eq_iff_iff.2 Iff.rfl
  rw [TS.joined, hcomponents, hendsWith]
  cases habs : p.root.isAbsolute with
  | true =>
      have hjoined : p.render ++ (if Go.hasSuffix p.render (lit "/") then [] else lit "/") ++
          joinOn (chr '/') more =
            Go.joinClean p.render (p.root.text, joinOn (chr '/') p.parts) (joinOn (chr '/') more) := by
        rw [Go.joinClean, if_neg (Root.text_ne_nil habs)]
        split_ifs
        · rw [List.append_nil]
        · rfl
      have hwritten := joinClean_spelling (.ofIdentity p) hnames hne
      rw [Operand.spelling_ofIdentity] at hwritten
      rw [hjoined]
      exact (congrArg TS.cleanCanonical hwritten).trans
        (cleanCanonical_render_ts (p.below more hnames hnul hbackslash))
  | false =>
      have htext : p.root.text = [] := Root.text_eq_nil_iff.2 habs
      have hrender : p.render = Go.serialize [] p.parts := by
        rw [Identity.render, htext]
      have hsplits := splits_relative_append (splits_serialize_relative p.parts_valid) serialize_ne_nil
        (joinOn (chr '/') more)
      have hjoinnul : nul ∉ joinOn (chr '/') more := by
        intro hmem
        rcases mem_joinOn hmem with hsep | ⟨part, hpart, hmem⟩
        · exact absurd hsep (by simp)
        · exact hnul part hpart hmem
      have hvaluenul : nul ∉ Go.serialize [] p.parts ++ chr '/' :: joinOn (chr '/') more := by
        rw [List.mem_append, List.mem_cons, not_or, not_or]
        exact ⟨not_mem_serialize (by simp) (by simp) (by simp) p.parts_nul_free, by simp, hjoinnul⟩
      have hclean : resolve false (Go.serialize [] p.parts) = some p.parts :=
        resolve_serialize_relative p.parts_valid
      have hresolve := resolve_append_joinOn hclean hnames hne
      have hgo : Go.cleanCanonical (Go.serialize [] p.parts ++ chr '/' :: joinOn (chr '/') more) =
          .ok (Go.serialize [] (p.parts ++ more)) :=
        cleanCanonical_eq_ok_iff.2 ⟨by simp, hvaluenul, .relative, _, _, hsplits, hresolve, rfl⟩
      have hagrees := cleanCanonical_agrees
        (Go.serialize [] p.parts ++ chr '/' :: joinOn (chr '/') more)
      rw [hgo] at hagrees
      rcases rel_ok_left_iff.1 hagrees with ⟨_, hts, rfl⟩
      rw [hrender, hasSuffix_serialize_relative p.parts_valid, htext, List.append_assoc]
      exact hts

/-- On a rendered root the two ports append the same components. -/
theorem join_render_iff (p : Identity α) {rel q : List α} :
    Go.join p.render rel = .ok q ↔ TS.join p.render rel = .ok q := by
  rcases validateCanonical_render p with ⟨parsed, hparsed, hreads⟩
  rw [join_render_eq_ok_iff, TS.join, hparsed, ok_bind, hreads.isWindows_eq]
  by_cases hbackslash : p.root.isWindows = true ∧ chr '\\' ∈ rel
  · rw [if_pos hbackslash]
    exact iff_of_false (fun h => h.1 hbackslash.1 hbackslash.2) (by simp [newError])
  · rw [if_neg hbackslash]
    -- what follows the cleaned relative path, as one equation
    have hwrite {more : List (List α)} (hmore : resolve false rel = some more) (hnul : nul ∉ rel) :
        (if Go.serialize [] more = lit "." then Except.ok p.render
          else TS.cleanCanonical (TS.joined p.render (Go.serialize [] more))) =
            .ok (Go.serialize p.root.text (p.parts ++ more)) := by
      have hnames := isName_of_resolve hmore
      by_cases hnil : more = []
      · rw [if_pos ((serialize_relative_eq_dot_iff hnames).2 hnil), hnil, List.append_nil]
        rfl
      · rw [if_neg (mt (serialize_relative_eq_dot_iff hnames).1 hnil)]
        refine cleanCanonical_joined p hnames (fun part hpart hmem => ?_) (fun hwindows part hpart hmem => ?_) hnil
        · exact hnul (mem_of_resolve hmore hpart hmem)
        · exact hbackslash ⟨hwindows, mem_of_resolve hmore hpart hmem⟩
    constructor
    · rintro ⟨-, hne, hnul, hsplits, more, hmore, rfl⟩
      rw [cleanCanonicalRelative_eq_ok_iff.2 (normalizeCanonicalRelative_eq_ok_iff.2
        ⟨hne, hnul, hsplits, more, hmore, rfl⟩), ok_bind, hwrite hmore hnul]
    · intro h
      rcases bind_eq_ok_iff.1 h with ⟨cleanRelative, hclean, h⟩
      rcases normalizeCanonicalRelative_eq_ok_iff.1 (cleanCanonicalRelative_eq_ok_iff.1 hclean) with
        ⟨hne, hnul, hsplits, more, hmore, rfl⟩
      rw [hwrite hmore hnul] at h
      exact ⟨fun hwindows hmem => hbackslash ⟨hwindows, hmem⟩, hne, hnul, hsplits, more, hmore,
        (Except.ok.inj h).symm⟩

/-! ## All operands -/

/-- Two accepted operands share an upper-case drive root, with the target inside the root. -/
def SharesUpperDrive (root target : List α) : Prop :=
  ∃ rootPrefix rootRest targetRest, Go.parseCleanCanonical root = .ok (rootPrefix, rootRest) ∧
    Go.parseCleanCanonical target = .ok (rootPrefix, targetRest) ∧
    Go.lowercaseDrive rootPrefix ≠ rootPrefix ∧ components rootRest <+: components targetRest

/-- An accepted root with an upper-case drive, and a relative path that can be appended to it. -/
def JoinsUpperDrive (root rel : List α) : Prop :=
  (∃ split, Go.parseCleanCanonical root = .ok split) ∧ Go.lowercaseDrive root ≠ root ∧
    chr '\\' ∉ rel ∧ Appendable rel

theorem relative_ts_eq_ok {root target rel : List α} (h : TS.relative root target = .ok rel) :
    ∃ p q : Identity α, root = p.render ∧ target = q.render ∧ Go.relative root target = .ok rel := by
  have hoperand {value : List α} {split : List α × List (List α)}
      (hparts : TS.canonicalParts value = .ok split) :
      ∃ p : Identity α, value = p.render ∧ p.root.isAbsolute = true := by
    rcases bind_eq_ok_iff.1 hparts with ⟨parsed, hparsed, -⟩
    rcases exists_identity_of_validateCanonical hparsed with ⟨p, rfl⟩
    refine ⟨p, rfl, ?_⟩
    by_contra habs
    rw [canonicalParts_relative_ts p (by simpa using habs)] at hparts
    exact absurd hparts (by simp [newError])
  have hcheck := h
  rw [TS.relative] at hcheck
  rcases bind_eq_ok_iff.1 hcheck with ⟨rootParts, hroot, hcheck⟩
  rcases bind_eq_ok_iff.1 hcheck with ⟨targetParts, htarget, -⟩
  rcases hoperand hroot with ⟨p, rfl, hp⟩
  rcases hoperand htarget with ⟨q, rfl, hq⟩
  rw [relative_render_eq p q hp hq] at h
  exact ⟨p, q, rfl, rfl, h⟩

/-- The two ports agree on `relative` except inside a shared upper-case drive root. -/
theorem relative_sameOutcome_iff {root target : List α} :
    SameOutcome Eq (Go.relative root target) (TS.relative root target) ↔
      ¬SharesUpperDrive root target := by
  rw [sameOutcome_eq_iff]
  constructor
  · rintro hsame ⟨rootPrefix, rootRest, targetRest, hroot, htarget, hupper, hparts⟩
    rcases exists_operand_of_parseCleanCanonical hroot with ⟨o, rfl⟩
    rcases exists_operand_of_parseCleanCanonical htarget with ⟨q, rfl⟩
    rw [parseCleanCanonical_spelling, Except.ok.injEq, Prod.mk.injEq] at hroot htarget
    rcases hroot with ⟨rfl, rfl⟩
    rcases htarget with ⟨htext, rfl⟩
    rw [components_joinOn o.identity.parts_valid, components_joinOn q.identity.parts_valid] at hparts
    -- Go answers, so TypeScript would accept a root it refuses
    have habs : o.root.isAbsolute = true := by
      rw [← Bool.not_eq_false, ← Root.text_eq_nil_iff]
      intro hnil
      rw [hnil] at hupper
      exact hupper rfl
    have hgo := relative_eq_ok_iff.2 ⟨o, q, rfl, rfl, habs, htext.symm, hparts, rfl⟩
    rcases relative_ts_eq_ok ((hsame _).1 hgo) with ⟨p, -, hrender, -⟩
    refine hupper (o.spelling_eq_render_iff_lowercaseDrive.1 ?_)
    rw [← o.lowercaseDrive_spelling, hrender, lowercaseDrive_render]
  · intro hnot rel
    constructor
    · intro hgo
      rcases relative_eq_ok_iff.1 hgo with ⟨o, q, rfl, rfl, habs, htext, hparts, -⟩
      have hfolded : Go.lowercaseDrive o.root.text = o.root.text := by
        by_contra hupper
        refine hnot ⟨o.root.text, _, joinOn (chr '/') q.identity.parts, parseCleanCanonical_spelling o,
          ?_, hupper, ?_⟩
        · rw [htext]
          exact parseCleanCanonical_spelling q
        · rwa [components_joinOn o.identity.parts_valid, components_joinOn q.identity.parts_valid]
      have ho := o.spelling_eq_render_iff_lowercaseDrive.2 hfolded
      have hq := q.spelling_eq_render_iff_lowercaseDrive.2 (htext ▸ hfolded)
      have habs' : q.root.isAbsolute = true := by
        rw [← Bool.not_eq_false, ← Root.text_eq_nil_iff, ← htext]
        exact Root.text_ne_nil habs
      rw [ho, hq] at hgo ⊢
      rwa [relative_render_eq _ _ (by rw [← o.isAbsolute_root, habs])
        (by rw [← q.isAbsolute_root, habs'])]
    · intro hts
      rcases relative_ts_eq_ok hts with ⟨-, -, -, -, hgo⟩
      exact hgo

/-- The two ports agree on `join` except below an upper-case drive root. -/
theorem join_sameOutcome_iff {root rel : List α} :
    SameOutcome Eq (Go.join root rel) (TS.join root rel) ↔ ¬JoinsUpperDrive root rel := by
  rw [sameOutcome_eq_iff]
  have hts {q : List α} (h : TS.join root rel = .ok q) : ∃ p : Identity α, root = p.render := by
    rcases bind_eq_ok_iff.1 h with ⟨parsed, hparsed, -⟩
    exact exists_identity_of_validateCanonical hparsed
  constructor
  · rintro hsame ⟨⟨split, hroot⟩, hupper, hbackslash, happend⟩
    rcases exists_operand_of_parseCleanCanonical hroot with ⟨o, rfl⟩
    rcases join_spelling_of_appendable o (fun _ => hbackslash) happend with ⟨more, -, hgo⟩
    rcases hts ((hsame _).1 hgo) with ⟨p, hrender⟩
    rw [hrender, lowercaseDrive_render] at hupper
    exact hupper rfl
  · intro hnot q
    constructor
    · intro hgo
      rcases bind_eq_ok_iff.1 hgo with ⟨split, hroot, -⟩
      rcases exists_operand_of_parseCleanCanonical hroot with ⟨o, rfl⟩
      by_cases hsame : o.spelling = o.identity.render
      · rw [hsame] at hgo ⊢
        exact (join_render_iff o.identity).1 hgo
      · -- what Go joins below an upper-case drive is exactly the excluded case
        rcases (join_spelling_eq_ok_iff o).1 hgo with ⟨hbackslash, hne, hnul, hsplits, more, hmore, -⟩
        have hclean := normalizeCanonicalRelative_eq_ok_iff.2 ⟨hne, hnul, hsplits, more, hmore, rfl⟩
        refine absurd ⟨⟨split, hroot⟩, ?_, hbackslash (o.isWindows_of_ne_render hsame),
          appendable_iff.2 ⟨_, hclean⟩⟩ hnot
        rw [o.lowercaseDrive_spelling]
        exact Ne.symm hsame
    · intro h
      rcases hts h with ⟨p, rfl⟩
      exact (join_render_iff p).2 h

/-! ## Across the spellings -/

section Spellings

variable {β : Type} [DecidableEq β] [CodeUnit β] (e : Encoding α β)

theorem sharesUpperDrive_encode {root target : List α} :
    SharesUpperDrive (e.encode root) (e.encode target) ↔ SharesUpperDrive root target := by
  simp only [SharesUpperDrive, Go.parseCleanCanonical_encode, mapOk_eq_ok_iff, Prod.exists,
    Prod.map_apply, Prod.mk.injEq]
  constructor
  · rintro ⟨_, _, _, ⟨rootPrefix, rootRest, hroot, rfl, rfl⟩, ⟨_, targetRest, htarget, hsame, rfl⟩,
      hupper, hparts⟩
    rw [Go.lowercaseDrive_encode, e.encode_injective.ne_iff] at hupper
    rw [Go.components_encode, Go.components_encode,
      List.prefix_map_iff_of_injective e.encode_injective] at hparts
    rw [e.encode_injective hsame] at htarget
    exact ⟨rootPrefix, rootRest, targetRest, hroot, htarget, hupper, hparts⟩
  · rintro ⟨rootPrefix, rootRest, targetRest, hroot, htarget, hupper, hparts⟩
    refine ⟨_, _, _, ⟨rootPrefix, rootRest, hroot, rfl, rfl⟩, ⟨rootPrefix, targetRest, htarget, rfl, rfl⟩,
      ?_, ?_⟩
    · rwa [Go.lowercaseDrive_encode, e.encode_injective.ne_iff]
    · rwa [Go.components_encode, Go.components_encode,
        List.prefix_map_iff_of_injective e.encode_injective]

theorem joinsUpperDrive_encode {root rel : List α} :
    JoinsUpperDrive (e.encode root) (e.encode rel) ↔ JoinsUpperDrive root rel := by
  have hmem : chr '\\' ∈ e.encode rel ↔ chr '\\' ∈ rel := e.chr_mem_encode_iff (by decide)
  have hparse : (∃ split, Go.parseCleanCanonical (e.encode root) = .ok split) ↔
      ∃ split, Go.parseCleanCanonical root = .ok split := by
    rw [Go.parseCleanCanonical_encode]
    cases Go.parseCleanCanonical root with
    | ok split =>
        simp
    | error err =>
        simp
  have happend : Appendable (e.encode rel) ↔ Appendable rel := by
    rw [appendable_iff, appendable_iff, Go.normalizeCanonicalRelative_encode]
    cases Go.normalizeCanonicalRelative rel with
    | ok out =>
        simp
    | error err =>
        simp
  rw [JoinsUpperDrive, hparse, Go.lowercaseDrive_encode, e.encode_injective.ne_iff, hmem, happend,
    JoinsUpperDrive]

end Spellings

/-- The canonical operations of the two ports give the same string or both fail, except that Go also
answers inside and below an upper-case drive root. -/
theorem composition_agrees_iff (root target rel : List Char) :
    (SameOutcome SameText (Go.relative (utf8.encode root) (utf8.encode target))
        (TS.relative (utf16.encode root) (utf16.encode target)) ∧
      SameOutcome SameText (Go.join (utf8.encode root) (utf8.encode rel))
        (TS.join (utf16.encode root) (utf16.encode rel))) ↔
      ¬SharesUpperDrive root target ∧ ¬JoinsUpperDrive root rel := by
  have hcompare (x : Except PathError (List Char)) (result : Except PathError Units) :
      SameOutcome SameText (mapOk utf8.encode x) result ↔
        SameOutcome Eq (mapOk utf16.encode x) result := rel_sameText_iff
  rw [Go.relative_encode, Go.join_encode, hcompare, hcompare, ← Go.relative_encode, ← Go.join_encode, relative_sameOutcome_iff, join_sameOutcome_iff,
    sharesUpperDrive_encode, joinsUpperDrive_encode]

/-- Go answers below an upper-case drive, TypeScript refuses the operand. -/
theorem composition_not_agrees :
    ¬SameOutcome SameText (Go.relative (utf8.encode "C:/".toList) (utf8.encode "C:/x".toList))
        (TS.relative (utf16.encode "C:/".toList) (utf16.encode "C:/x".toList)) ∧
      ¬SameOutcome SameText (Go.join (utf8.encode "C:/".toList) (utf8.encode "x".toList))
        (TS.join (utf16.encode "C:/".toList) (utf16.encode "x".toList)) := by
  have hrelative : Go.relative (utf8.encode "C:/".toList) (utf8.encode "C:/x".toList) = .ok (lit "x") := by
    decide
  have hrelativeTS : TS.relative (utf16.encode "C:/".toList) (utf16.encode "C:/x".toList) =
      newError .invalidPath "path is not lexically canonical" := by
    decide
  have hjoin : Go.join (utf8.encode "C:/".toList) (utf8.encode "x".toList) = .ok (lit "C:/x") := by
    decide
  have hjoinTS : TS.join (utf16.encode "C:/".toList) (utf16.encode "x".toList) =
      newError .invalidPath "path is not lexically canonical" := by
    decide
  rw [hrelative, hrelativeTS, hjoin, hjoinTS]
  exact ⟨not_rel_ok_error, not_rel_ok_error⟩

end Ports

end CanonicalPath
