import CanonicalPath.Identity.Composition

/-!
# Action — relative paths act on roots by `join`

To join twice is to join once, with the relative paths joined first.  On operands both sides append the same components
to the same root; what differs is which text is asked for a backslash.

* `join_join_spelling_eq_ok_iff` : two joins in a row append the components of both paths
* `join_action` : the two ways around, and the inputs that only one of them accepts
-/

namespace CanonicalPath

open CodeUnit Segments Go DotStack

variable {α : Type} [DecidableEq α] [CodeUnit α]

/-! ## Relative identities -/

namespace Identity

omit [DecidableEq α] in
theorem text_of_relative (p : Identity α) (hp : p.root.isAbsolute = false) : p.root.text = [] :=
  Root.text_eq_nil_iff.2 hp

omit [DecidableEq α] in
theorem isWindows_of_relative (p : Identity α) (hp : p.root.isAbsolute = false) : p.root.isWindows = false := by
  rw [Root.isAbsolute_eq_false_iff.1 hp]
  rfl

theorem splits_relative (p : Identity α) (hp : p.root.isAbsolute = false) : Splits p.render .relative p.render := by
  have hrender : p.render = serialize [] p.parts := by
    rw [render, p.text_of_relative hp]
  rw [hrender]
  exact splits_serialize_relative p.parts_valid

theorem resolve_relative (p : Identity α) (hp : p.root.isAbsolute = false) : resolve false p.render = some p.parts := by
  rw [render, p.text_of_relative hp]
  exact resolve_serialize_relative p.parts_valid

/-- A backslash in a relative identity is one of a component. -/
theorem backslash_not_mem_parts (p : Identity α) (hp : p.root.isAbsolute = false) (h : chr '\\' ∉ p.render) :
    ∀ part ∈ p.parts, chr '\\' ∉ part := by
  intro part hpart hmem
  exact h (mem_of_resolve (p.resolve_relative hp) hpart hmem)

end Identity

/-! ## Operands below operands -/

namespace Operand

/-- The operand reached by descending through the components of a relative identity. -/
def below (o : Operand α) (p : Identity α) (hbackslash : o.root.isWindows = true → ∀ part ∈ p.parts, chr '\\' ∉ part) :
    Operand α where
  identity := o.identity.below p.parts p.parts_valid p.parts_nul_free fun hwindows =>
    hbackslash (o.isWindows_root.trans hwindows)
  root := o.root
  root_valid := o.root_valid
  root_fold := o.root_fold

theorem spelling_below (o : Operand α) (p : Identity α)
    (hbackslash : o.root.isWindows = true → ∀ part ∈ p.parts, chr '\\' ∉ part) :
    (o.below p hbackslash).spelling = serialize o.root.text (o.identity.parts ++ p.parts) :=
  rfl

end Operand

/-- A relative identity is joined by appending its components. -/
theorem join_spelling_render_eq_ok_iff (o : Operand α) (p : Identity α) (hp : p.root.isAbsolute = false) {q : List α} :
    join o.spelling p.render = .ok q ↔
      (o.root.isWindows = true → chr '\\' ∉ p.render) ∧ q = serialize o.root.text (o.identity.parts ++ p.parts) := by
  rw [join_spelling_eq_ok_iff, p.resolve_relative hp]
  constructor
  · intro h
    obtain ⟨hbackslash, -, -, -, more, hmore, hq⟩ := h
    obtain rfl := Option.some.inj hmore
    exact ⟨hbackslash, hq⟩
  · intro h
    exact ⟨h.1, p.render_ne_nil, p.render_nul_free, p.splits_relative hp, p.parts, rfl, h.2⟩

/-- Two joins in a row. -/
theorem join_join_spelling_eq_ok_iff (o : Operand α) (p : Identity α) (hp : p.root.isAbsolute = false) {b q : List α} :
    (join o.spelling p.render >>= fun joined => join joined b) = .ok q ↔
      (o.root.isWindows = true → chr '\\' ∉ p.render ∧ chr '\\' ∉ b) ∧ b ≠ [] ∧ nul ∉ b ∧ Splits b .relative b ∧
        ∃ more, resolve false b = some more ∧ q = serialize o.root.text (o.identity.parts ++ (p.parts ++ more)) := by
  constructor
  · intro h
    obtain ⟨joined, hfirst, hsecond⟩ := Outcome.bind_eq_ok_iff.1 h
    obtain ⟨hbackslash, rfl⟩ := (join_spelling_render_eq_ok_iff o p hp).1 hfirst
    have hparts : o.root.isWindows = true → ∀ part ∈ p.parts, chr '\\' ∉ part :=
      fun hwindows => p.backslash_not_mem_parts hp (hbackslash hwindows)
    -- the first result is an operand with the root of the first one
    rw [← o.spelling_below p hparts] at hsecond
    obtain ⟨hbackslash', hne, hnul, hsplits, more, hmore, rfl⟩ := (join_spelling_eq_ok_iff (o.below p hparts)).1 hsecond
    refine ⟨fun hwindows => ⟨hbackslash hwindows, hbackslash' hwindows⟩, hne, hnul, hsplits, more, hmore, ?_⟩
    exact congrArg (serialize o.root.text) (List.append_assoc _ _ _)
  · intro h
    obtain ⟨hbackslash, hne, hnul, hsplits, more, hmore, rfl⟩ := h
    have hparts : o.root.isWindows = true → ∀ part ∈ p.parts, chr '\\' ∉ part :=
      fun hwindows => p.backslash_not_mem_parts hp (hbackslash hwindows).1
    refine Outcome.bind_eq_ok_iff.2 ⟨(o.below p hparts).spelling, ?_, ?_⟩
    · exact (join_spelling_render_eq_ok_iff o p hp).2 ⟨fun hwindows => (hbackslash hwindows).1, o.spelling_below p hparts⟩
    · refine (join_spelling_eq_ok_iff (o.below p hparts)).2
        ⟨fun hwindows => (hbackslash hwindows).2, hne, hnul, hsplits, more, hmore, ?_⟩
      exact congrArg (serialize o.root.text) (List.append_assoc _ _ _).symm

/-- A join of relative paths is a relative identity, with the components of both. -/
theorem join_render_relative_eq_ok_iff (p : Identity α) (hp : p.root.isAbsolute = false) {b c : List α} :
    join p.render b = .ok c ↔ b ≠ [] ∧ nul ∉ b ∧ Splits b .relative b ∧
      ∃ more, resolve false b = some more ∧ c = serialize [] (p.parts ++ more) := by
  rw [join_render_eq_ok_iff, p.text_of_relative hp, p.isWindows_of_relative hp]
  constructor
  · intro h
    exact h.2
  · intro h
    exact ⟨fun hwindows => absurd hwindows Bool.false_ne_true, h⟩

/-! ## The action -/

/-- What is appended to a root by the joined path. -/
theorem join_spelling_serialize_eq_ok_iff (o : Operand α) {parts : List (List α)} (hparts : ∀ part ∈ parts, IsName part)
    (hnul : ∀ part ∈ parts, nul ∉ part) {q : List α} :
    join o.spelling (serialize [] parts) = .ok q ↔
      (o.root.isWindows = true → chr '\\' ∉ serialize [] parts) ∧ q = serialize o.root.text (o.identity.parts ++ parts) := by
  have hclean := normalizeCanonicalRelative_eq_ok_iff.1 (normalizeCanonicalRelative_serialize hparts hnul)
  rw [join_spelling_eq_ok_iff, resolve_serialize_relative hparts]
  constructor
  · intro h
    obtain ⟨hbackslash, -, -, -, more, hmore, hq⟩ := h
    obtain rfl := Option.some.inj hmore
    exact ⟨hbackslash, hq⟩
  · intro h
    exact ⟨h.1, hclean.1, hclean.2.1, hclean.2.2.1, parts, rfl, h.2⟩

theorem join_action_spelling (o : Operand α) (p : Identity α) (hp : p.root.isAbsolute = false) {b : List α} (q : List α) :
    ((join o.spelling p.render >>= fun joined => join joined b) = .ok q →
      ∃ c, join p.render b = .ok c ∧ join o.spelling c = .ok q) ∧
    ∀ c, join p.render b = .ok c → join o.spelling c = .ok q →
      ((join o.spelling p.render >>= fun joined => join joined b) = .ok q ↔
        ¬(o.root.isWindows = true ∧ chr '\\' ∈ b ∧ chr '\\' ∉ c)) := by
  -- the components of both paths, and where they come from
  have hnames {more : List (List α)} (hmore : resolve false b = some more) : ∀ part ∈ p.parts ++ more, IsName part :=
    List.forall_mem_append.2 ⟨p.parts_valid, isName_of_resolve hmore⟩
  have hfree {x : α} {more : List (List α)} (hmore : resolve false b = some more) (ha : x ∉ p.render) (hb : x ∉ b) :
      ∀ part ∈ p.parts ++ more, x ∉ part := by
    intro part hpart hmem
    rcases List.mem_append.1 hpart with hfirst | hsecond
    · exact ha (mem_of_resolve (p.resolve_relative hp) hfirst hmem)
    · exact hb (mem_of_resolve hmore hsecond hmem)
  constructor
  · intro h
    obtain ⟨hbackslash, hne, hnul, hsplits, more, hmore, rfl⟩ := (join_join_spelling_eq_ok_iff o p hp).1 h
    refine ⟨serialize [] (p.parts ++ more), ?_, ?_⟩
    · exact (join_render_relative_eq_ok_iff p hp).2 ⟨hne, hnul, hsplits, more, hmore, rfl⟩
    · apply (join_spelling_serialize_eq_ok_iff o (hnames hmore) (hfree hmore p.render_nul_free hnul)).2
      refine ⟨?_, rfl⟩
      intro hwindows
      obtain ⟨ha, hb⟩ := hbackslash hwindows
      exact not_mem_serialize (by simp) (by simp) List.not_mem_nil (hfree hmore ha hb)
  · intro c hc hq
    obtain ⟨hne, hnul, hsplits, more, hmore, rfl⟩ := (join_render_relative_eq_ok_iff p hp).1 hc
    obtain ⟨hplain, rfl⟩ :=
      (join_spelling_serialize_eq_ok_iff o (hnames hmore) (hfree hmore p.render_nul_free hnul)).1 hq
    rw [join_join_spelling_eq_ok_iff o p hp]
    constructor
    · intro h hremoved
      exact (h.1 hremoved.1).2 hremoved.2.1
    · intro hkept
      refine ⟨?_, hne, hnul, hsplits, more, hmore, rfl⟩
      intro hwindows
      refine ⟨?_, fun hb => hkept ⟨hwindows, hb, hplain hwindows⟩⟩
      -- a backslash of the first path would be one of the joined path
      apply not_mem_serialize (by simp) (by simp)
      · rw [p.text_of_relative hp]
        exact List.not_mem_nil
      · intro part hpart hmem
        apply hplain hwindows
        have hjoined : resolve false (serialize [] (p.parts ++ more)) = some (p.parts ++ more) :=
          resolve_serialize_relative (hnames hmore)
        exact mem_of_resolve hjoined (List.mem_append_left more hpart) hmem

/-- `join` is an action of the canonical relative paths.  The two ways around give one result, except that a Windows
root sees the backslashes of `b` only when `b` is joined to it directly. -/
theorem join_action {root a b : Bytes} {split : Bytes × Bytes} {rest : Bytes} (hroot : parseCleanCanonical root = .ok split)
    (ha : normalize a { sourceHost := some .canonical } = .ok a) (hrelative : splitRoot a = .ok ([], rest)) (q : Bytes) :
    ((join root a >>= fun joined => join joined b) = .ok q → ∃ c, join a b = .ok c ∧ join root c = .ok q) ∧
    ∀ c, join a b = .ok c → join root c = .ok q →
      ((join root a >>= fun joined => join joined b) = .ok q ↔
        ¬(isWindowsRoot split.1 = true ∧ chr '\\' ∈ b ∧ chr '\\' ∉ c)) := by
  obtain ⟨o, rfl⟩ := exists_operand_of_parseCleanCanonical hroot
  have hfixed : normalizeWith parseFileURI a { sourceHost := some .canonical } = .ok a := ha
  obtain ⟨p, rfl⟩ := exists_identity_of_normalizeWith hfixed
  -- no root in front of `a`, and the root of the operand in front of `root`
  rw [splitRoot_of_splits p.splits_render, Except.ok.injEq, Prod.mk.injEq] at hrelative
  rw [parseCleanCanonical_spelling, Except.ok.injEq] at hroot
  have hp : p.root.isAbsolute = false := Root.text_eq_nil_iff.1 hrelative.1
  have hwindows : isWindowsRoot split.1 = o.root.isWindows := by
    rw [← hroot]
    exact isWindowsRoot_text
  rw [hwindows]
  exact join_action_spelling o p hp q

/-- A share, a marked path and a backslash that cleanup removes. -/
theorem join_action_share :
    join (lit "./c:/x" : Bytes) (lit "u\\v/../y") = .ok (lit "./c:/x/y") ∧
      join (lit "//s/h" : Bytes) (lit "./c:/x/y") = .ok (lit "//s/h/c:/x/y") ∧
      ¬(join (lit "//s/h" : Bytes) (lit "./c:/x") >>= fun joined => join joined (lit "u\\v/../y")) =
        .ok (lit "//s/h/c:/x/y") := by
  have hjoin : join (lit "./c:/x" : Bytes) (lit "u\\v/../y") = .ok (lit "./c:/x/y") := by
    decide
  have hroot : join (lit "//s/h" : Bytes) (lit "./c:/x/y") = .ok (lit "//s/h/c:/x/y") := by
    decide
  have hsplit : parseCleanCanonical (lit "//s/h" : Bytes) = .ok (lit "//s/h", []) := by
    decide
  have hfixed : normalize (lit "./c:/x") { sourceHost := some .canonical } = .ok (lit "./c:/x") := by
    decide
  have hrelative : splitRoot (lit "./c:/x" : Bytes) = .ok ([], lit "./c:/x") := by
    decide
  refine ⟨hjoin, hroot, ?_⟩
  rw [(join_action hsplit hfixed hrelative _).2 _ hjoin hroot, not_not]
  decide

end CanonicalPath
