import CanonicalPath.Go.Relative
import CanonicalPath.Identity.FixedPoint

/-!
# Operand — what the canonical operations accept

`parseCleanCanonical` accepts a canonical string with its drive letter in either case.  An `Operand` is
such a spelling as data: an identity together with a root that folds to the root of the identity.

* `parseCleanCanonical_spelling` : the operand check reads a spelling as its root and its components
* `exists_operand_of_parseCleanCanonical` : it accepts nothing else
* `normalizeWith_canonical_spelling` : canonical mode maps a spelling to its identity
-/

namespace CanonicalPath

open CodeUnit Segments Go DotStack

variable {α : Type} [DecidableEq α] [CodeUnit α]

/-! ## The relative marker -/

/-- A join of components never starts with a marker, for no component is a dot. -/
theorem hasPrefix_dot_slash_joinOn {parts : List (List α)} (h : ∀ part ∈ parts, IsName part) :
    hasPrefix (joinOn (chr '/') parts) (lit "./") = false := by
  rw [Bool.eq_false_iff]
  intro hleads
  rcases hasPrefix_iff.1 hleads with ⟨tail, htail⟩
  have hcut : joinOn (chr '/') parts = joinOn (chr '/') [lit "."] ++ chr '/' :: tail := by
    simpa [joinOn, lit] using htail
  rcases (joinOn_eq_append_cons_iff (fun part hpart => (h part hpart).slash_not_mem)
    (by simp [lit]) (by simp)).1 hcut with ⟨rest, -, hsplit, -⟩
  exact (h (lit ".") (by simp [hsplit])).ne_dot rfl

/-- The joined components behind the optional relative marker. -/
theorem withoutRelativeMarker_markRelative {parts : List (List α)}
    (h : ∀ part ∈ parts, IsName part) :
    withoutRelativeMarker (markRelative (joinOn (chr '/') parts)) = joinOn (chr '/') parts := by
  rw [markRelative]
  split_ifs with hmarker
  · have hmarked : hasRelativeMarker (lit "./" ++ joinOn (chr '/') parts) = true := by
      rw [hasRelativeMarker, hasPrefix_append, Bool.true_and]
      exact hmarker
    rw [withoutRelativeMarker, if_pos hmarked]
    rfl
  · have hunmarked : hasRelativeMarker (joinOn (chr '/') parts) = false := by
      rw [hasRelativeMarker, hasPrefix_dot_slash_joinOn h, Bool.false_and]
    rw [withoutRelativeMarker, if_neg (by simp [hunmarked])]

theorem serialize_relative_eq_dot_iff {parts : List (List α)} (h : ∀ part ∈ parts, IsName part) :
    serialize [] parts = lit "." ↔ parts = [] := by
  constructor
  · intro hdot
    have hresolve : resolve false (serialize [] parts) = some parts := resolve_serialize_relative h
    rw [hdot] at hresolve
    have hempty : resolve false (serialize [] ([] : List (List α))) = some [] :=
      resolve_serialize_relative (by simp)
    exact Option.some.inj (hresolve.symm.trans hempty)
  · rintro rfl
    rfl

theorem serialize_relative_of_ne_nil {parts : List (List α)} (h : ∀ part ∈ parts, IsName part)
    (hne : parts ≠ []) : serialize [] parts = markRelative (joinOn (chr '/') parts) := by
  rw [serialize, if_pos rfl, if_neg]
  rwa [joinOn_parts_eq_nil_iff h]

/-! ## Folding -/

/-- Folding touches the drive letter of the root only. -/
theorem lowercaseDrive_of_splits {value rest : List α} {root : Root α} (h : Splits value root rest) :
    ∃ tail, value = root.text ++ tail ∧ lowercaseDrive value = root.fold.text ++ tail := by
  rcases h.exists_eq_append with ⟨tail, hvalue, -⟩
  refine ⟨tail, hvalue, ?_⟩
  rw [lowercaseDrive, h.hasDriveRoot_eq, h.hasDriveRoot_drop_eq, hvalue]
  cases root <;> rfl

/-- A root and its folded form are followed by the same text. -/
theorem exists_serialize_eq_append {root : Root α} (parts : List (List α)) (hroot : root.Valid) :
    ∃ tail, serialize root.text parts = root.text ++ tail ∧
      serialize root.fold.text parts = root.fold.text ++ tail := by
  -- a drive root ends with its separator in either case; the others do not change
  cases root with
  | drive d =>
      have hfold : (Root.drive (lower d)).Valid := Root.Valid.fold hroot
      exact ⟨joinOn (chr '/') parts,
        serialize_slash (Root.text_ne_nil rfl) (hasSuffix_text hroot rfl),
        serialize_slash (Root.text_ne_nil rfl) (hasSuffix_text hfold rfl)⟩
  | extendedDrive d =>
      have hfold : (Root.extendedDrive (lower d)).Valid := Root.Valid.fold hroot
      exact ⟨joinOn (chr '/') parts,
        serialize_slash (Root.text_ne_nil rfl) (hasSuffix_text hroot rfl),
        serialize_slash (Root.text_ne_nil rfl) (hasSuffix_text hfold rfl)⟩
  | relative =>
      exact ⟨serialize [] parts, rfl, rfl⟩
  | posix =>
      have hslash : serialize Root.posix.text parts = Root.posix.text ++ joinOn (chr '/') parts :=
        serialize_slash (Root.text_ne_nil rfl) (hasSuffix_text hroot rfl)
      exact ⟨_, hslash, hslash⟩
  | unc server share =>
      rcases serialize_share (lit "//") server parts (by simp [lit]) hroot.2.1 with
        ⟨tail, -, hserialize⟩
      have htext : serialize (Root.unc server share).text parts = (Root.unc server share).text ++ tail := by
        simpa [Root.text] using hserialize
      exact ⟨tail, htext, htext⟩
  | extendedUNC server share =>
      rcases serialize_share (lit "//?/UNC/") server parts (by simp [lit]) hroot.2 with
        ⟨tail, -, hserialize⟩
      have htext : serialize (Root.extendedUNC server share).text parts =
          (Root.extendedUNC server share).text ++ tail := by
        simpa [Root.text] using hserialize
      exact ⟨tail, htext, htext⟩

omit [DecidableEq α] in
/-- Folding loses no punctuation. -/
theorem Root.chr_mem_fold_text {root : Root α} (hroot : root.Valid) {c : Char} (hc : c.toNat < 128)
    (hletter : isLetterCode c.toNat = false) (h : chr c ∈ root.text) : chr c ∈ root.fold.text := by
  have hne {d : α} (hd : isLetter d = true) : chr c ≠ d :=
    (ne_chr_of_isLetter hd hc hletter).symm
  cases root with
  | drive d =>
      simp only [fold, text, List.mem_cons] at h ⊢
      exact Or.inr (h.resolve_left (hne hroot))
  | extendedDrive d =>
      simp only [fold, text, List.mem_append, List.mem_cons] at h ⊢
      exact h.imp_right fun h => Or.inr (h.resolve_left (hne hroot))
  | relative =>
      exact h
  | posix =>
      exact h
  | unc server share =>
      exact h
  | extendedUNC server share =>
      exact h

/-! ## Operands -/

/-- An identity spelled with its drive letter in either case. -/
structure Operand (α : Type) [CodeUnit α] where
  identity : Identity α
  root : Root α
  root_valid : root.Valid
  root_fold : root.fold = identity.root

namespace Operand

/-- The string of an operand. -/
def spelling (o : Operand α) : List α :=
  serialize o.root.text o.identity.parts

/-- The canonical spelling of an identity. -/
def ofIdentity (p : Identity α) : Operand α where
  identity := p
  root := p.root
  root_valid := p.root_valid
  root_fold := p.root_folded

@[simp] theorem spelling_ofIdentity (p : Identity α) : (ofIdentity p).spelling = p.render := rfl

omit [DecidableEq α] in
theorem isAbsolute_root (o : Operand α) : o.root.isAbsolute = o.identity.root.isAbsolute := by
  rw [← o.root_fold, Root.isAbsolute_fold]

omit [DecidableEq α] in
theorem isWindows_root (o : Operand α) : o.root.isWindows = o.identity.root.isWindows := by
  rw [← o.root_fold, Root.isWindows_fold]

theorem splits_spelling (o : Operand α) : Splits o.spelling o.root o.identity.body := by
  have hsplits := splits_serialize o.root_valid o.identity.parts_valid fun hwindows => by
    have hwindows' : o.identity.root.isWindows = true := by
      rw [← o.isWindows_root, hwindows]
    refine ⟨fun hmem => o.identity.root_backslash_free hwindows' ?_,
      o.identity.parts_backslash_free hwindows'⟩
    rw [← o.root_fold]
    exact Root.chr_mem_fold_text o.root_valid (by decide) (by decide) hmem
  -- a relative operand is its own canonical string
  rw [Identity.body, ← o.isAbsolute_root]
  cases habs : o.root.isAbsolute with
  | true =>
      rwa [habs] at hsplits
  | false =>
      have hrender : o.spelling = o.identity.render := by
        have habs' : o.identity.root.isAbsolute = false := by
          rw [← o.isAbsolute_root, habs]
        rw [spelling, Identity.render, Root.text_eq_nil_iff.2 habs, Root.text_eq_nil_iff.2 habs']
      rw [habs] at hsplits
      rwa [← hrender]

theorem spelling_ne_nil (o : Operand α) : o.spelling ≠ [] :=
  serialize_ne_nil

theorem spelling_nul_free (o : Operand α) : nul ∉ o.spelling := by
  refine not_mem_serialize (by simp) (by simp) (fun hmem => o.identity.root_nul_free ?_)
    o.identity.parts_nul_free
  rw [← o.root_fold]
  exact Root.chr_mem_fold_text o.root_valid (by decide) (by decide) hmem

theorem lowercaseDrive_spelling (o : Operand α) : lowercaseDrive o.spelling = o.identity.render := by
  rcases lowercaseDrive_of_splits o.splits_spelling with ⟨tail, hvalue, hlower⟩
  rcases exists_serialize_eq_append o.identity.parts o.root_valid with ⟨tail', hvalue', hlower'⟩
  have htail : tail = tail' := by
    rw [spelling, hvalue'] at hvalue
    exact (List.append_cancel_left hvalue).symm
  rw [hlower, htail, ← hlower', o.root_fold]
  rfl

/-- Only the root can make a spelling differ from the canonical one. -/
theorem spelling_eq_render_iff (o : Operand α) : o.spelling = o.identity.render ↔
    o.root.text = o.identity.root.text := by
  rcases exists_serialize_eq_append o.identity.parts o.root_valid with ⟨tail, hvalue, hlower⟩
  rw [o.root_fold] at hlower
  rw [spelling, Identity.render, hvalue, hlower, List.append_cancel_right_eq]

theorem spelling_eq_render_iff_lowercaseDrive (o : Operand α) :
    o.spelling = o.identity.render ↔ lowercaseDrive o.root.text = o.root.text := by
  rw [o.spelling_eq_render_iff, lowercaseDrive_text o.root_valid, o.root_fold, eq_comm]

theorem cleanCanonical_spelling (o : Operand α) : cleanCanonical o.spelling = .ok o.identity.render := by
  rw [cleanCanonical_of_splits o.spelling_ne_nil o.spelling_nul_free o.splits_spelling,
    o.isAbsolute_root, o.identity.resolve_body, o.root_fold]
  rfl

end Operand

theorem lowercaseDrive_render (p : Identity α) : lowercaseDrive p.render = p.render :=
  (Operand.ofIdentity p).lowercaseDrive_spelling

/-! ## The operand check -/

/-- The operand check reads a spelling as its root and its joined components. -/
theorem parseCleanCanonical_spelling (o : Operand α) :
    parseCleanCanonical o.spelling = .ok (o.root.text, joinOn (chr '/') o.identity.parts) := by
  have hclean : o.identity.render = lowercaseDrive o.spelling := o.lowercaseDrive_spelling.symm
  rw [parseCleanCanonical, o.cleanCanonical_spelling, Outcome.ok_bind, if_neg (not_not.2 hclean),
    splitRoot_of_splits o.splits_spelling, Outcome.ok_bind]
  -- only a relative rest is rewritten: the dot is dropped, then the marker
  cases habs : o.root.isAbsolute with
  | true =>
      rw [if_neg (Root.text_ne_nil habs), Identity.body, ← o.isAbsolute_root, habs]
      rfl
  | false =>
      have htext : o.identity.root.text = [] := Root.text_eq_nil_iff.2 (o.isAbsolute_root ▸ habs)
      have hrest : o.identity.body = serialize [] o.identity.parts := by
        rw [Identity.body, ← o.isAbsolute_root, habs, Identity.render, htext]
        rfl
      rw [if_pos (Root.text_eq_nil_iff.2 habs), hrest]
      by_cases hnil : o.identity.parts = []
      · rw [if_pos ((serialize_relative_eq_dot_iff o.identity.parts_valid).2 hnil), hnil]
        rfl
      · rw [if_neg (mt (serialize_relative_eq_dot_iff o.identity.parts_valid).1 hnil),
          serialize_relative_of_ne_nil o.identity.parts_valid hnil,
          withoutRelativeMarker_markRelative o.identity.parts_valid]

theorem parseCleanCanonical_render (p : Identity α) :
    parseCleanCanonical p.render = .ok (p.root.text, joinOn (chr '/') p.parts) :=
  parseCleanCanonical_spelling (.ofIdentity p)

/-- Every accepted operand is the spelling of an identity. -/
theorem exists_operand_of_parseCleanCanonical {value : List α} {split : List α × List α}
    (h : parseCleanCanonical value = .ok split) : ∃ o : Operand α, value = o.spelling := by
  rcases Outcome.bind_eq_ok_iff.1 h with ⟨cleaned, hclean, hcompare⟩
  have hcleaned : cleaned = lowercaseDrive value := by
    by_contra hne
    rw [if_pos hne] at hcompare
    exact absurd hcompare (by simp [newError])
  rcases exists_identity_of_cleanCanonical hclean with ⟨p, root, rest, hrender, hsplits, hroot, -⟩
  refine ⟨{ identity := p, root := root, root_valid := hsplits.valid, root_fold := hroot.symm }, ?_⟩
  -- the value and the cleaned string have one tail behind the root and the folded root
  rcases lowercaseDrive_of_splits hsplits with ⟨tail, hvalue, hlower⟩
  rcases exists_serialize_eq_append p.parts hsplits.valid with ⟨tail', hvalue', hlower'⟩
  have htail : tail = tail' := by
    rw [← hcleaned, hrender, Identity.render, hroot, hlower'] at hlower
    exact (List.append_cancel_left hlower).symm
  exact (hvalue.trans (congrArg (root.text ++ ·) htail)).trans hvalue'.symm

/-- Canonical mode maps a spelling to the canonical string of its identity. -/
theorem normalizeWith_canonical_spelling
    {parseURI : URIOptions → List α → Except PathError (List α)} (o : Operand α) :
    normalizeWith parseURI o.spelling { sourceHost := some .canonical } = .ok o.identity.render :=
  normalizeWith_canonical_of_cleanCanonical o.cleanCanonical_spelling

end CanonicalPath
