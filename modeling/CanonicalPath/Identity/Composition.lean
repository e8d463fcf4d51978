import CanonicalPath.Identity.Operand

/-!
# Composition — `relative` and `join` on identities

On operands the operations are list operations on the components below the root:

* `relative_spelling` : same root and a leading run of components, or `ERR_OUTSIDE_ROOT`
* `join_spelling_eq_ok_iff` : the components of a relative path appended
* `relative_join_inverse` : the two are inverse and confined to the root
-/

namespace CanonicalPath

open CodeUnit Segments Go DotStack

variable {α : Type} [DecidableEq α] [CodeUnit α]

theorem canonicalParts_spelling (o : Operand α) (habs : o.root.isAbsolute = true) :
    canonicalParts o.spelling = .ok (o.root.text, o.identity.parts) := by
  rw [canonicalParts, parseCleanCanonical_spelling, Outcome.ok_bind, if_neg (Root.text_ne_nil habs)]
  have hparts := o.identity.parts_valid
  by_cases hnil : o.identity.parts = []
  · rw [if_pos (by simp [hnil, joinOn]), hnil]
  · rw [if_neg (mt (joinOn_parts_eq_nil_iff hparts).1 hnil),
      splitOn_joinOn (fun part hpart => (hparts part hpart).slash_not_mem) hnil]

/-- A relative operand is refused by the operations on absolute paths. -/
theorem canonicalParts_spelling_relative (o : Operand α) (habs : o.root.isAbsolute = false) :
    canonicalParts o.spelling = newError .invalidPath "path must be canonical absolute" := by
  rw [canonicalParts, parseCleanCanonical_spelling, Outcome.ok_bind,
    if_pos (Root.text_eq_nil_iff.2 habs)]

/-! ## `relative` -/

/-- The path from an operand down to another one with the same root spelling, if there is one. -/
theorem relative_spelling (o q : Operand α) (ho : o.root.isAbsolute = true)
    (hq : q.root.isAbsolute = true) :
    relative o.spelling q.spelling =
      if o.root.text = q.root.text ∧ o.identity.parts <+: q.identity.parts then
        .ok (serialize [] (q.identity.parts.drop o.identity.parts.length))
      else
        newError .outsideRoot "target is outside root" := by
  rw [relative, canonicalParts_spelling o ho, Outcome.ok_bind, canonicalParts_spelling q hq,
    Outcome.ok_bind]
  by_cases hroot : o.root.text = q.root.text
  · by_cases hparts : o.identity.parts <+: q.identity.parts
    · have hlen : ¬q.identity.parts.length < o.identity.parts.length :=
        Nat.not_lt.2 hparts.length_le
      have hrun : o.identity.parts.isPrefixOf q.identity.parts = true :=
        List.isPrefixOf_iff_prefix.2 hparts
      have hinside : o.root.text = q.root.text ∧ o.identity.parts <+: q.identity.parts :=
        ⟨hroot, hparts⟩
      rw [if_neg (by simp [hroot, hlen]), if_neg (by simp [hrun])]
      have hbelow : ∀ part ∈ q.identity.parts.drop o.identity.parts.length, IsName part :=
        fun part hpart => q.identity.parts_valid part (List.mem_of_mem_drop hpart)
      -- nothing below: the two paths are the same, and the answer is the dot
      by_cases hnil : q.identity.parts.drop o.identity.parts.length = []
      · have heq : q.identity.parts.length = o.identity.parts.length :=
          Nat.le_antisymm (List.drop_eq_nil_iff.1 hnil) hparts.length_le
        rw [if_pos heq, if_pos hinside, hnil]
        rfl
      · have hne : q.identity.parts.length ≠ o.identity.parts.length := by
          intro heq
          exact hnil (List.drop_eq_nil_iff.2 (Nat.le_of_eq heq))
        rw [if_neg hne, if_pos hinside, serialize_relative_of_ne_nil hbelow hnil]
    · have hrun : o.identity.parts.isPrefixOf q.identity.parts = false := by
        rw [Bool.eq_false_iff, Ne, List.isPrefixOf_iff_prefix]
        exact hparts
      rw [if_neg (show ¬(o.root.text = q.root.text ∧ o.identity.parts <+: q.identity.parts) from
        fun h => hparts h.2)]
      simp [hrun]
  · rw [if_pos (Or.inl hroot), if_neg fun h => hroot h.1]

/-- The path from an identity down to another one with the same root, if there is one. -/
theorem relative_render (p q : Identity α) (hp : p.root.isAbsolute = true)
    (hq : q.root.isAbsolute = true) :
    relative p.render q.render =
      if p.root.text = q.root.text ∧ p.parts <+: q.parts then
        .ok (serialize [] (q.parts.drop p.parts.length))
      else
        newError .outsideRoot "target is outside root" :=
  relative_spelling (.ofIdentity p) (.ofIdentity q) hp hq

/-- `relative` succeeds on absolute operands with one root spelling, the target inside the root. -/
theorem relative_eq_ok_iff {root target rel : List α} :
    relative root target = .ok rel ↔ ∃ o q : Operand α, root = o.spelling ∧ target = q.spelling ∧
      o.root.isAbsolute = true ∧ o.root.text = q.root.text ∧
      o.identity.parts <+: q.identity.parts ∧
      rel = serialize [] (q.identity.parts.drop o.identity.parts.length) := by
  constructor
  · intro h
    -- both operands pass the check, and neither is relative
    have hoperand {value : List α} {split : List α × List (List α)}
        (hparts : canonicalParts value = .ok split) :
        ∃ o : Operand α, value = o.spelling ∧ o.root.isAbsolute = true := by
      rcases Outcome.bind_eq_ok_iff.1 hparts with ⟨split', hparse, -⟩
      rcases exists_operand_of_parseCleanCanonical hparse with ⟨o, rfl⟩
      refine ⟨o, rfl, ?_⟩
      by_contra habs
      rw [canonicalParts_spelling_relative o (by simpa using habs)] at hparts
      exact absurd hparts (by simp [newError])
    have hcheck := h
    rw [relative] at hcheck
    rcases Outcome.bind_eq_ok_iff.1 hcheck with ⟨rootSplit, hroot, hcheck⟩
    rcases Outcome.bind_eq_ok_iff.1 hcheck with ⟨targetSplit, htarget, -⟩
    rcases hoperand hroot with ⟨o, rfl, ho⟩
    rcases hoperand htarget with ⟨q, rfl, hq⟩
    rw [relative_spelling o q ho hq] at h
    split_ifs at h with hinside
    · exact ⟨o, q, rfl, rfl, ho, hinside.1, hinside.2, (Except.ok.inj h).symm⟩
    · exact absurd h (by simp [newError])
  · rintro ⟨o, q, rfl, rfl, ho, hroot, hparts, rfl⟩
    have hq : q.root.isAbsolute = true := by
      rw [← Bool.not_eq_false, ← Root.text_eq_nil_iff, ← hroot]
      exact Root.text_ne_nil ho
    rw [relative_spelling o q ho hq, if_pos ⟨hroot, hparts⟩]

/-! ## `join` -/

theorem splits_relative_iff {value : List α} :
    Splits value .relative value ↔
      (hasPrefix value (lit "/") || hasDriveRoot value) = false ∧ isDriveRelative value = false := by
  constructor
  · intro h
    cases h with
    | relative hhead hmarker =>
        have hdrive : hasDriveRoot value = false := hasDriveRoot_eq_false_of_marker hmarker
        rw [isDriveRelative_eq, hmarker, hdrive, Bool.or_false, Bool.false_and]
        exact ⟨hasPrefix_cons_eq_false hhead, rfl⟩
  · rintro ⟨hroot, hrelative⟩
    rw [Bool.or_eq_false_iff] at hroot
    rw [isDriveRelative_eq, hroot.2, Bool.not_false, Bool.and_true] at hrelative
    refine Splits.relative ?_ hrelative
    rw [Ne, ← hasPrefix_slash_iff, hroot.1]
    simp

/-- The relative paths that `join` accepts, and how they are cleaned. -/
theorem normalizeCanonicalRelative_eq_ok_iff {rel out : List α} :
    normalizeCanonicalRelative rel = .ok out ↔
      rel ≠ [] ∧ nul ∉ rel ∧ Splits rel .relative rel ∧
        ∃ parts, resolve false rel = some parts ∧ out = serialize [] parts := by
  -- past the boundary checks the function is the walk of the components
  have hclean (hne : rel ≠ []) (hnul : nul ∉ rel) (hsplits : Splits rel .relative rel) :
      normalizeCanonicalRelative rel =
        (resolve false rel).elim (newError .outsideRoot "relative path escapes root")
          fun parts => .ok (serialize [] parts) := by
    rcases splits_relative_iff.1 hsplits with ⟨hroot, hrelative⟩
    rw [normalizeCanonicalRelative, if_neg hne, if_neg hnul, if_neg (by simp [hroot]),
      if_neg (by simp [hrelative])]
    -- the early return for `.` gives what the walk would give
    by_cases hdot : rel = lit "."
    · subst hdot
      have hresolve : resolve false (serialize [] ([] : List (List α))) = some [] :=
        resolve_serialize_relative (by simp)
      rw [if_pos rfl, show (lit "." : List α) = serialize [] [] from rfl, hresolve,
        Option.elim_some]
    · rw [if_neg hdot, cleanLoop_eq]
      change _ = (run false [] ((rel.splitOn (chr '/')).map move)).elim
        (newError .outsideRoot "relative path escapes root") fun parts => Except.ok (serialize [] parts)
      cases hrun : run false [] ((rel.splitOn (chr '/')).map move) with
      | none =>
          rfl
      | some parts =>
          have hnames : ∀ part ∈ parts, IsName part :=
            isName_of_resolve (show resolve false rel = some parts from hrun)
          by_cases hnil : parts = []
          · subst hnil
            rfl
          · rw [Outcome.ok_bind, if_neg hnil]
            exact congrArg Except.ok (serialize_relative_of_ne_nil hnames hnil).symm
  constructor
  · intro h
    have hne : rel ≠ [] := by
      rintro rfl
      exact absurd h (by simp [normalizeCanonicalRelative, newError])
    have hnul : nul ∉ rel := by
      intro hmem
      rw [normalizeCanonicalRelative, if_neg hne, if_pos hmem] at h
      exact absurd h (by simp [newError])
    have hsplits : Splits rel .relative rel := by
      rw [normalizeCanonicalRelative, if_neg hne, if_neg hnul] at h
      split_ifs at h with hroot hrelative hdot
      · exact absurd h (by simp [newError])
      · exact absurd h (by simp [newError])
      · exact splits_relative_iff.2 ⟨by simpa using hroot, by simpa using hrelative⟩
      · exact splits_relative_iff.2 ⟨by simpa using hroot, by simpa using hrelative⟩
    rw [hclean hne hnul hsplits] at h
    cases hresolve : resolve false rel with
    | none =>
        rw [hresolve] at h
        exact absurd h (by simp [newError])
    | some parts =>
        rw [hresolve] at h
        exact ⟨hne, hnul, hsplits, parts, rfl, (Except.ok.inj h).symm⟩
  · rintro ⟨hne, hnul, hsplits, parts, hresolve, rfl⟩
    rw [hclean hne hnul hsplits, hresolve, Option.elim_some]

/-- A serialized relative path is cleaned already. -/
theorem normalizeCanonicalRelative_serialize {parts : List (List α)}
    (hparts : ∀ part ∈ parts, IsName part) (hnul : ∀ part ∈ parts, nul ∉ part) :
    normalizeCanonicalRelative (serialize [] parts) = .ok (serialize [] parts) := by
  have hmem : nul ∉ serialize [] parts := not_mem_serialize (by simp) (by simp) (by simp) hnul
  exact normalizeCanonicalRelative_eq_ok_iff.2 ⟨serialize_ne_nil, hmem,
    splits_serialize_relative hparts, parts, resolve_serialize_relative hparts, rfl⟩

namespace Identity

/-- The identity reached by descending through more components. -/
def below (p : Identity α) (more : List (List α)) (hnames : ∀ part ∈ more, IsName part)
    (hnul : ∀ part ∈ more, nul ∉ part)
    (hbackslash : p.root.isWindows = true → ∀ part ∈ more, chr '\\' ∉ part) : Identity α where
  root := p.root
  parts := p.parts ++ more
  root_valid := p.root_valid
  root_folded := p.root_folded
  parts_valid := List.forall_mem_append.2 ⟨p.parts_valid, hnames⟩
  root_nul_free := p.root_nul_free
  parts_nul_free := List.forall_mem_append.2 ⟨p.parts_nul_free, hnul⟩
  root_backslash_free := p.root_backslash_free
  parts_backslash_free := fun hwindows =>
    List.forall_mem_append.2 ⟨p.parts_backslash_free hwindows, hbackslash hwindows⟩

end Identity

/-- A serialized root ends with a separator only when no component follows it. -/
theorem hasSuffix_serialize {rootPrefix : List α} {parts : List (List α)}
    (h : ∀ part ∈ parts, IsName part) (hroot : rootPrefix ≠ []) (hne : parts ≠ []) :
    hasSuffix (serialize rootPrefix parts) (lit "/") = false := by
  have hjoin : joinOn (chr '/') parts ≠ [] := by
    rwa [Ne, joinOn_parts_eq_nil_iff h]
  have hlast : (serialize rootPrefix parts).getLast? = (joinOn (chr '/') parts).getLast? := by
    rw [serialize, if_neg hroot, if_neg hjoin]
    split_ifs
    · rw [List.getLast?_append_of_ne_nil _ hjoin]
    · rw [List.getLast?_append_of_ne_nil _ hjoin]
  rw [Bool.eq_false_iff]
  intro hsuffix
  rcases hasSuffix_slash_iff.1 hsuffix with ⟨front, hfront⟩
  rw [hfront, List.getLast?_concat] at hlast
  exact getLast?_joinOn_ne_slash h hlast.symm

/-- A serialized relative path does not end with a separator. -/
theorem hasSuffix_serialize_relative {parts : List (List α)} (h : ∀ part ∈ parts, IsName part) :
    hasSuffix (serialize [] parts) (lit "/") = false := by
  rw [Bool.eq_false_iff]
  intro hsuffix
  rcases hasSuffix_slash_iff.1 hsuffix with ⟨front, hfront⟩
  have hlast : (serialize [] parts).getLast? = some (chr '/') := by
    rw [hfront, List.getLast?_concat]
  by_cases hnil : parts = []
  · rw [hnil] at hlast
    exact absurd hlast (by simp [serialize, joinOn, lit])
  · have hjoin : joinOn (chr '/') parts ≠ [] := by
      rwa [Ne, joinOn_parts_eq_nil_iff h]
    rw [serialize_relative_of_ne_nil h hnil, markRelative] at hlast
    split_ifs at hlast
    · rw [List.getLast?_append_of_ne_nil _ hjoin] at hlast
      exact getLast?_joinOn_ne_slash h hlast
    · exact getLast?_joinOn_ne_slash h hlast

/-- What `join` writes is the root spelling in front of the longer component list. -/
theorem joinClean_spelling (o : Operand α) {more : List (List α)}
    (hnames : ∀ part ∈ more, IsName part) (hne : more ≠ []) :
    joinClean o.spelling (o.root.text, joinOn (chr '/') o.identity.parts) (joinOn (chr '/') more) =
      serialize o.root.text (o.identity.parts ++ more) := by
  have hparts := o.identity.parts_valid
  have hall : ∀ part ∈ o.identity.parts ++ more, IsName part :=
    List.forall_mem_append.2 ⟨hparts, hnames⟩
  have happend : o.identity.parts ++ more ≠ [] := by
    simp [hne]
  have hjoin : joinOn (chr '/') (o.identity.parts ++ more) ≠ [] := by
    rwa [Ne, joinOn_parts_eq_nil_iff hall]
  rw [joinClean, Operand.spelling]
  -- the four ways of writing: no root or a root, with or without components above
  by_cases hroot : o.root.text = []
  · rw [if_pos hroot, hroot, serialize_relative_of_ne_nil hall happend]
    by_cases hnil : o.identity.parts = []
    · rw [if_pos (by simp [hnil, joinOn]), hnil, List.nil_append]
    · rw [if_neg (mt (joinOn_parts_eq_nil_iff hparts).1 hnil), joinOn_append hnil hne]
      simp [lit]
  · rw [if_neg hroot]
    by_cases hnil : o.identity.parts = []
    · have hbare : serialize o.root.text ([] : List (List α)) = o.root.text := by
        rw [serialize, if_neg hroot, if_pos (by simp [joinOn])]
      rw [hnil, hbare, List.nil_append, serialize, if_neg hroot,
        if_neg (mt (joinOn_parts_eq_nil_iff hnames).1 hne)]
    · have hjoined : joinOn (chr '/') o.identity.parts ≠ [] := by
        rwa [Ne, joinOn_parts_eq_nil_iff hparts]
      rw [if_neg (by simp [hasSuffix_serialize hparts hroot hnil]), serialize, if_neg hroot,
        if_neg hjoined, serialize, if_neg hroot, if_neg hjoin, joinOn_append hnil hne]
      split_ifs
      · simp [lit]
      · simp [lit]

/-- `join` appends the components of a relative path to those of the root. -/
theorem join_spelling_eq_ok_iff (o : Operand α) {rel q : List α} :
    join o.spelling rel = .ok q ↔
      (o.root.isWindows = true → chr '\\' ∉ rel) ∧ rel ≠ [] ∧ nul ∉ rel ∧
        Splits rel .relative rel ∧
        ∃ more, resolve false rel = some more ∧
          q = serialize o.root.text (o.identity.parts ++ more) := by
  -- the final dot test of the source and its writer, as one equation
  have hwrite {more : List (List α)} (hnames : ∀ part ∈ more, IsName part) :
      (if serialize [] more = lit "." then Except.ok o.spelling
        else Except.ok (joinClean o.spelling (o.root.text, joinOn (chr '/') o.identity.parts)
          (withoutRelativeMarker (serialize [] more))) : Except PathError (List α)) =
        .ok (serialize o.root.text (o.identity.parts ++ more)) := by
    by_cases hnil : more = []
    · rw [if_pos ((serialize_relative_eq_dot_iff hnames).2 hnil), hnil, List.append_nil]
      rfl
    · rw [if_neg (mt (serialize_relative_eq_dot_iff hnames).1 hnil),
        serialize_relative_of_ne_nil hnames hnil, withoutRelativeMarker_markRelative hnames,
        joinClean_spelling o hnames hnil]
  rw [join, parseCleanCanonical_spelling, Outcome.ok_bind, isWindowsRoot_text]
  by_cases hbackslash : o.root.isWindows = true ∧ chr '\\' ∈ rel
  · rw [if_pos hbackslash]
    constructor
    · intro h
      exact absurd h (by simp [newError])
    · intro h
      exact absurd hbackslash.2 (h.1 hbackslash.1)
  · rw [if_neg hbackslash]
    constructor
    · intro h
      rcases Outcome.bind_eq_ok_iff.1 h with ⟨cleanRel, hrel, h⟩
      rcases normalizeCanonicalRelative_eq_ok_iff.1 hrel with ⟨hne, hnul, hsplits, more, hmore, rfl⟩
      rw [hwrite (isName_of_resolve hmore)] at h
      exact ⟨fun hwindows hmem => hbackslash ⟨hwindows, hmem⟩, hne, hnul, hsplits, more, hmore,
        (Except.ok.inj h).symm⟩
    · rintro ⟨-, hne, hnul, hsplits, more, hmore, rfl⟩
      rw [normalizeCanonicalRelative_eq_ok_iff.2 ⟨hne, hnul, hsplits, more, hmore, rfl⟩,
        Outcome.ok_bind, hwrite (isName_of_resolve hmore)]

theorem join_render_eq_ok_iff (p : Identity α) {rel q : List α} :
    join p.render rel = .ok q ↔
      (p.root.isWindows = true → chr '\\' ∉ rel) ∧ rel ≠ [] ∧ nul ∉ rel ∧
        Splits rel .relative rel ∧
        ∃ more, resolve false rel = some more ∧ q = serialize p.root.text (p.parts ++ more) :=
  join_spelling_eq_ok_iff (.ofIdentity p)

/-! ## Inverse and confined -/

/-- A fixed point of canonical mode with an absolute root, with the atomic root prefix and the
component list that `splitRoot` reads in it. -/
structure CanonicalAbsolute (path rootPrefix : Bytes) (parts : List Bytes) : Prop where
  fixed : normalize path { sourceHost := some .canonical } = .ok path
  rooted : rootPrefix ≠ []
  split : ∃ rest, splitRoot path = .ok (rootPrefix, rest) ∧ parts = components rest

theorem CanonicalAbsolute.exists_identity {path rootPrefix : Bytes} {parts : List Bytes}
    (h : CanonicalAbsolute path rootPrefix parts) :
    ∃ p : Identity UInt8, path = p.render ∧ p.root.isAbsolute = true ∧ rootPrefix = p.root.text ∧
      parts = p.parts := by
  have hfixed : normalizeWith parseFileURI path { sourceHost := some .canonical } = .ok path := h.fixed
  rcases exists_identity_of_normalizeWith hfixed with ⟨p, rfl⟩
  rcases h.split with ⟨rest, hsplit, hparts⟩
  rw [splitRoot_of_splits p.splits_render] at hsplit
  simp only [Except.ok.injEq, Prod.mk.injEq] at hsplit
  rcases hsplit with ⟨hleads, hrest⟩
  have habs : p.root.isAbsolute = true := by
    rw [← Bool.not_eq_false, ← Root.text_eq_nil_iff, hleads]
    exact h.rooted
  -- behind an absolute root nothing but the join is left
  have hbody : rest = joinOn (chr '/') p.parts := by
    rw [← hrest, Identity.body, if_pos habs]
  exact ⟨p, rfl, habs, hleads.symm, by rw [hparts, hbody, components_joinOn p.parts_valid]⟩

theorem normalize_canonical_render (p : Identity UInt8) :
    normalize p.render { sourceHost := some .canonical } = .ok p.render :=
  normalizeWith_canonical_render p

/-- Joining the path down to an identity inside the root gives that identity. -/
theorem join_relative_render (p q : Identity α) (hroot : p.root.text = q.root.text)
    (hwindows : p.root.isWindows = q.root.isWindows) (hparts : p.parts <+: q.parts) :
    join p.render (serialize [] (q.parts.drop p.parts.length)) = .ok q.render := by
  rcases hparts with ⟨more, hmore⟩
  have hdrop : q.parts.drop p.parts.length = more := by
    rw [← hmore, List.drop_left]
  -- what is appended comes from the target, and so do its properties
  have hmem : ∀ part ∈ more, part ∈ q.parts := by
    intro part hpart
    rw [← hmore]
    exact List.mem_append_right _ hpart
  have hnames : ∀ part ∈ more, IsName part := fun part hpart => q.parts_valid part (hmem part hpart)
  have hclean := normalizeCanonicalRelative_eq_ok_iff.1
    (normalizeCanonicalRelative_serialize hnames fun part hpart => q.parts_nul_free part (hmem part hpart))
  rw [hdrop]
  refine (join_render_eq_ok_iff p).2 ⟨fun hp => ?_, hclean.1, hclean.2.1, hclean.2.2.1,
    more, resolve_serialize_relative hnames, ?_⟩
  · exact not_mem_serialize (by simp) (by simp) (by simp) fun part hpart =>
      q.parts_backslash_free (hwindows ▸ hp) part (hmem part hpart)
  · rw [hmore, hroot]
    rfl

/-- Every output of `join` is an identity below the root, reached by the cleaned relative path. -/
theorem exists_identity_of_join (p : Identity α) {rel q : List α} (h : join p.render rel = .ok q) :
    ∃ (r : Identity α) (more : List (List α)), q = r.render ∧ r.root = p.root ∧
      r.parts = p.parts ++ more ∧ normalizeCanonicalRelative rel = .ok (serialize [] more) := by
  rcases (join_render_eq_ok_iff p).1 h with ⟨hbackslash, hne, hnul, hsplits, more, hmore, rfl⟩
  refine ⟨p.below more (isName_of_resolve hmore) ?_ ?_, more, rfl, rfl, rfl,
    normalizeCanonicalRelative_eq_ok_iff.2 ⟨hne, hnul, hsplits, more, hmore, rfl⟩⟩
  · exact fun part hpart hmem => hnul (mem_of_resolve hmore hpart hmem)
  · exact fun hwindows part hpart hmem => hbackslash hwindows (mem_of_resolve hmore hpart hmem)

/-- `relative` and `join` are inverse to each other, and `join` never leaves its root. -/
theorem relative_join_inverse {root rootPrefix : Bytes} {rootParts : List Bytes}
    (hroot : CanonicalAbsolute root rootPrefix rootParts) :
    (∀ target targetPrefix targetParts, CanonicalAbsolute target targetPrefix targetParts →
      ((∃ rel, relative root target = .ok rel) ↔
        rootPrefix = targetPrefix ∧ rootParts <+: targetParts) ∧
      ((∀ rel, relative root target ≠ .ok rel) →
        ∃ e, relative root target = .error e ∧ e.code = .outsideRoot) ∧
      (∀ rel, relative root target = .ok rel → join root rel = .ok target)) ∧
    (∀ rel q, join root rel = .ok q →
      normalize q { sourceHost := some .canonical } = .ok q ∧
        (∃ out, relative root q = .ok out) ∧ relative root q = normalizeCanonicalRelative rel) := by
  rcases hroot.exists_identity with ⟨p, rfl, hp, rfl, rfl⟩
  refine ⟨fun target targetPrefix targetParts htarget => ?_, fun rel q hjoin => ?_⟩
  · rcases htarget.exists_identity with ⟨q, rfl, hq, rfl, rfl⟩
    rw [relative_render p q hp hq]
    -- inside the root `relative` answers, outside it fails with one code
    by_cases hinside : p.root.text = q.root.text ∧ p.parts <+: q.parts
    · rw [if_pos hinside]
      refine ⟨by simp [hinside], by simp, fun rel hrel => ?_⟩
      have hwindows : p.root.isWindows = q.root.isWindows := by
        rw [← isWindowsRoot_text, ← isWindowsRoot_text, hinside.1]
      rw [← Except.ok.inj hrel]
      exact join_relative_render p q hinside.1 hwindows hinside.2
    · rw [if_neg hinside]
      exact ⟨by simp [hinside, newError], fun _ => ⟨_, rfl, rfl⟩, by simp [newError]⟩
  · rcases exists_identity_of_join p hjoin with ⟨r, more, rfl, hroot, hparts, hclean⟩
    have hr : r.root.isAbsolute = true := by
      rw [hroot, hp]
    have hinside : p.root.text = r.root.text ∧ p.parts <+: r.parts :=
      ⟨by rw [hroot], more, hparts.symm⟩
    have hdrop : r.parts.drop p.parts.length = more := by
      rw [hparts, List.drop_left]
    have hrelative : relative p.render r.render = .ok (serialize [] more) := by
      rw [relative_render p r hp hr, if_pos hinside, hdrop]
    exact ⟨normalize_canonical_render r, ⟨_, hrelative⟩, hrelative.trans hclean.symm⟩

/-- Below a share, with a component that looks like a drive. -/
theorem relative_join_inverse_share :
    join (lit "//s/h" : Bytes) (lit "./d:/.//e") = .ok (lit "//s/h/d:/e") ∧
      relative (lit "//s/h" : Bytes) (lit "//s/h/d:/e") =
        normalizeCanonicalRelative (lit "./d:/.//e") := by
  have hroot : CanonicalAbsolute (lit "//s/h") (lit "//s/h") [] :=
    ⟨by decide, by decide, [], by decide, by decide⟩
  have hjoin : join (lit "//s/h" : Bytes) (lit "./d:/.//e") = .ok (lit "//s/h/d:/e") := by
    decide
  exact ⟨hjoin, ((relative_join_inverse hroot).2 _ _ hjoin).2.2⟩

end CanonicalPath
