import CanonicalPath.Ports.Unity
import CanonicalPath.Unity.RequireCanonical

/-!
# RequireCanonical — the in-place check of the C# port is cleanup and comparison

The check accepts what cleanup leaves as it is, up to the case of a drive letter where that is allowed, and what it
returns reassembles to the cleaned string.

* `checkComponents_iff` : the loop over indices is a check of the pieces between separators
* `IsBody` : the rests that cleanup leaves behind a root
* `requireCanonical_iff` : the check against the cleanup
-/

namespace CanonicalPath

namespace Ports

namespace Unity

open CodeUnit Segments Outcome

variable {α : Type} [DecidableEq α] [CodeUnit α]

/-! ## The loop -/

/-- The test at two indices is a test of the piece between them. -/
theorem isDropped_iff {front part tail : List α} (hslash : chr '/' ∉ part) :
    Unity.IsDropped (front ++ (part ++ tail)) front.length part.length ↔ ¬IsName part := by
  have hname : IsName part ↔ part ≠ [] ∧ part ≠ lit "." ∧ part ≠ lit ".." :=
    ⟨fun h => ⟨h.ne_nil, h.ne_dot, h.ne_dotdot⟩, fun h => ⟨h.1, h.2.1, h.2.2, hslash⟩⟩
  have hfirst : (front ++ (part ++ tail))[front.length]? = (part ++ tail)[0]? := by
    rw [List.getElem?_append_right (Nat.le_refl _), Nat.sub_self]
  have hsecond : (front ++ (part ++ tail))[front.length + 1]? = (part ++ tail)[1]? := by
    rw [List.getElem?_append_right (Nat.le_add_right _ _), Nat.add_sub_cancel_left]
  rw [hname, Unity.IsDropped, hfirst, hsecond]
  -- only pieces of at most two units can be dots
  rcases part with _ | ⟨a, _ | ⟨b, _ | ⟨c, more⟩⟩⟩
  · simp
  · simp [lit]
  · simp [lit]
  · simp [lit]

omit [DecidableEq α] [CodeUnit α] in
/-- The unit behind a piece that has been read. -/
theorem getElem?_behind (front part tail : List α) :
    (front ++ (part ++ tail))[front.length + part.length]? = tail.head? := by
  rw [← List.append_assoc, ← List.length_append, List.getElem?_append_right (Nat.le_refl _), Nat.sub_self,
    List.head?_eq_getElem?]

/-- A unit that is no separator is read. -/
theorem checkComponents_read {front part tail : List α} {c : α} (hc : c ≠ chr '/') :
    Unity.checkComponents (front ++ (part ++ c :: tail)) front.length (front.length + part.length) =
      Unity.checkComponents (front ++ (part ++ c :: tail)) front.length (front.length + part.length + 1) := by
  have hlength : front.length + part.length < (front ++ (part ++ c :: tail)).length := by
    rw [List.length_append, List.length_append, List.length_cons]
    omega
  have hmore : (c :: tail).head? ≠ some (chr '/') := fun h => hc (Option.some.inj h)
  rw [Unity.checkComponents, if_pos (Nat.le_of_lt hlength), getElem?_behind, if_pos ⟨hlength, hmore⟩]

/-- At a separator and at the end the piece is tested. -/
theorem checkComponents_stop {front part tail : List α} (hslash : chr '/' ∉ part)
    (htail : tail = [] ∨ tail.head? = some (chr '/')) :
    Unity.checkComponents (front ++ (part ++ tail)) front.length (front.length + part.length) = .ok () ↔
      IsName part ∧ Unity.checkComponents (front ++ (part ++ tail)) (front.length + part.length + 1)
        (front.length + part.length + 1) = .ok () := by
  have hlength : (front ++ (part ++ tail)).length = front.length + part.length + tail.length := by
    rw [List.length_append, List.length_append, Nat.add_assoc]
  have hstop : ¬(front.length + part.length < (front ++ (part ++ tail)).length ∧ tail.head? ≠ some (chr '/')) := by
    intro h
    rcases htail with hnil | hhead
    · rw [hlength, hnil] at h
      exact absurd h.1 (Nat.lt_irrefl _)
    · exact h.2 hhead
  rw [Unity.checkComponents, if_pos (by omega), getElem?_behind, if_neg hstop, Nat.add_sub_cancel_left]
  by_cases hname : IsName part
  · have hkept : ¬Unity.IsDropped (front ++ (part ++ tail)) front.length part.length := by
      rw [isDropped_iff hslash]
      exact not_not_intro hname
    rw [if_neg hkept]
    exact ⟨fun h => ⟨hname, h⟩, fun h => h.2⟩
  · rw [if_pos ((isDropped_iff hslash).2 hname)]
    exact ⟨fun h => (nomatch h), fun h => absurd h.1 hname⟩

/-- Behind the last unit the loop ends. -/
theorem checkComponents_end (rest : List α) (start : Nat) :
    Unity.checkComponents rest start (rest.length + 1) = .ok () := by
  rw [Unity.checkComponents, if_neg (by omega)]

/-- The loop accepts a rest if every piece of it between separators is a component. -/
theorem checkComponents_iff {front part tail : List α} (hslash : chr '/' ∉ part) :
    Unity.checkComponents (front ++ (part ++ tail)) front.length (front.length + part.length) = .ok () ↔
      ∀ name ∈ (part ++ tail).splitOn (chr '/'), IsName name := by
  -- the rest is read unit by unit, and a separator ends the piece read so far
  induction tail generalizing front part with
  | nil =>
      have hend : front.length + part.length + 1 = (front ++ (part ++ [])).length + 1 := by
        rw [List.append_nil, List.length_append]
      rw [checkComponents_stop hslash (.inl rfl), hend, checkComponents_end, List.append_nil,
        List.splitOn_eq_singleton hslash, List.forall_mem_singleton]
      exact and_iff_left rfl
  | cons c tail ih =>
      by_cases hc : c = chr '/'
      · have hnext := @ih (front ++ (part ++ [chr '/'])) [] List.not_mem_nil
        have hlength : (front ++ (part ++ [chr '/'])).length = front.length + part.length + 1 := by
          rw [List.length_append, List.length_append, List.length_singleton, Nat.add_assoc]
        rw [List.nil_append, List.length_nil, Nat.add_zero, hlength, List.append_assoc, List.append_assoc,
          List.singleton_append] at hnext
        rw [hc, checkComponents_stop hslash (.inr rfl), hnext, List.splitOn_append_cons_self_of_not_mem hslash,
          List.forall_mem_cons]
      · have hread : chr '/' ∉ part ++ [c] := by
          intro hmem
          rcases List.mem_append.1 hmem with hmem | hmem
          · exact hslash hmem
          · exact hc (List.mem_singleton.1 hmem).symm
        have hnext := @ih front (part ++ [c]) hread
        rw [List.length_append, List.length_singleton, ← Nat.add_assoc, List.append_assoc, List.singleton_append] at hnext
        rw [checkComponents_read hc, hnext]

theorem checkComponents_whole (rest : List α) :
    Unity.checkComponents rest 0 0 = .ok () ↔ ∀ name ∈ rest.splitOn (chr '/'), IsName name :=
  @checkComponents_iff α _ _ [] [] rest List.not_mem_nil

theorem checkComponents_marked (more : List α) :
    Unity.checkComponents (lit "./" ++ more) 2 2 = .ok () ↔ ∀ name ∈ more.splitOn (chr '/'), IsName name :=
  @checkComponents_iff α _ _ (lit "./") [] more List.not_mem_nil

/-! ## Rests -/

/-- What cleanup leaves behind a root: joined components, with the marker where there is no root. -/
def IsBody (root : Root α) (rest : List α) : Prop :=
  ∃ parts : List (List α), (∀ part ∈ parts, IsName part) ∧
    rest = if root.isAbsolute then joinOn (chr '/') parts else Go.serialize [] parts

/-- Pieces that are components are what a join is made of. -/
theorem forall_splitOn_iff {rest : List α} :
    (∀ name ∈ rest.splitOn (chr '/'), IsName name) ↔
      ∃ parts : List (List α), parts ≠ [] ∧ (∀ part ∈ parts, IsName part) ∧ rest = joinOn (chr '/') parts := by
  constructor
  · intro h
    exact ⟨rest.splitOn (chr '/'), List.splitOn_ne_nil _ _, h, by simp [joinOn]⟩
  · rintro ⟨parts, hne, hnames, rfl⟩
    rw [splitOn_joinOn (fun part hpart => (hnames part hpart).slash_not_mem) hne]
    exact hnames

/-- The tests of a rest, once the lengths are right. -/
def KeepsRest (value : List α) (parsed : Unity.GrammarRoot α) : Prop :=
  (parsed.rest.length = 0 ∨ parsed.kind = .relative ∧ value = lit ".") ∨
    if parsed.kind = .relative ∧ Unity.startsWith value (lit "./") = true then
      Unity.isMarkedDrive value = true ∧ Unity.checkComponents parsed.rest 2 2 = .ok ()
    else
      Unity.checkComponents parsed.rest 0 0 = .ok ()

/-- The tests of the root and of the length. -/
def KeepsRoot (value : List α) (allowDriveCase : Bool) (parsed : Unity.GrammarRoot α) : Prop :=
  ((allowDriveCase = true ∧ (parsed.kind = .drive ∨ parsed.kind = .extendedDrive)) ∨
      Unity.startsWith value parsed.rootPrefix = true) ∧
    value.length = parsed.rootPrefix.length + parsed.separatorLength + parsed.rest.length

omit [DecidableEq α] [CodeUnit α] in
/-- Behind a check nothing but the parsed root is returned. -/
theorem check_then_ok_iff {check : Except PathError Unit} {parsed returned : Unity.GrammarRoot α} :
    (check >>= fun _ => Except.ok parsed) = .ok returned ↔ returned = parsed ∧ check = .ok () := by
  rw [bind_eq_ok_iff]
  constructor
  · rintro ⟨_, hcheck, hreturned⟩
    exact ⟨(Except.ok.inj hreturned).symm, hcheck⟩
  · rintro ⟨rfl, hcheck⟩
    exact ⟨(), hcheck, rfl⟩

theorem requireCanonical_eq_ok_iff {value : List α} {allowDriveCase : Bool} {parsed returned : Unity.GrammarRoot α}
    (h : Unity.parseGrammar value = .ok parsed) :
    Unity.requireCanonical value allowDriveCase = .ok returned ↔
      returned = parsed ∧ KeepsRoot value allowDriveCase parsed ∧ KeepsRest value parsed := by
  have hroot : ¬(¬(allowDriveCase = true ∧ (parsed.kind = .drive ∨ parsed.kind = .extendedDrive)) ∧
        Unity.startsWith value parsed.rootPrefix = false ∨
      value.length ≠ parsed.rootPrefix.length + parsed.separatorLength + parsed.rest.length) ↔
      KeepsRoot value allowDriveCase parsed := by
    rw [KeepsRoot, not_or, Decidable.not_and_iff_not_or_not, Decidable.not_not, Decidable.not_not, Bool.not_eq_false]
  rw [Unity.requireCanonical, h, ok_bind]
  simp only [newError, ite_error_eq_ok_iff]
  rw [hroot, and_left_comm, and_congr_right_iff]
  intro _
  rw [KeepsRest]
  -- an empty rest and the single dot have no component; a marker hides two units from the loop
  by_cases hshort : parsed.rest.length = 0 ∨ parsed.kind = .relative ∧ value = lit "."
  · rw [if_pos hshort]
    constructor
    · intro hreturned
      exact ⟨(Except.ok.inj hreturned).symm, .inl hshort⟩
    · intro hreturned
      rw [hreturned.1]
  · rw [if_neg hshort, or_iff_right hshort]
    by_cases hmarker : parsed.kind = .relative ∧ Unity.startsWith value (lit "./") = true
    · rw [if_pos hmarker, if_pos hmarker]
      by_cases hdrive : Unity.isMarkedDrive value = true
      · rw [if_pos hdrive, check_then_ok_iff, and_iff_right hdrive]
      · rw [if_neg hdrive]
        constructor
        · intro hreturned
          cases hreturned
        · intro hreturned
          exact absurd hreturned.2.1 hdrive
    · rw [if_neg hmarker, if_neg hmarker, check_then_ok_iff]

/-! ## Roots -/

variable {value rest : List α} {root : Root α}

/-- A root form and a rest, spelled as they stand. -/
def spelled (root : Root α) (rest : List α) : List α :=
  Unity.GrammarRoot.text { kind := kindOf root, rootPrefix := root.text, rest := rest }

omit [CodeUnit α] in
theorem endsWith_eq (value trailer : List α) : Unity.endsWith value trailer = Go.hasSuffix value trailer :=
  Bool.eq_iff_iff.2 Iff.rfl

/-- A prefix and joined components reassemble to what the serializer writes. -/
theorem text_joinOn {kind : Unity.RootKind} {rootPrefix : List α} (hne : rootPrefix ≠ []) (parts : List (List α)) :
    Unity.GrammarRoot.text { kind := kind, rootPrefix := rootPrefix, rest := joinOn (chr '/') parts } =
      Go.serialize rootPrefix parts := by
  rw [Unity.GrammarRoot.text, Unity.GrammarRoot.separatorLength, Go.serialize, if_neg hne, endsWith_eq]
  by_cases hnil : joinOn (chr '/') parts = []
  · simp [hnil]
  · by_cases hslash : Go.hasSuffix rootPrefix (lit "/") = true
    · simp [hnil, hslash]
    · have hpos : 0 < rootPrefix.length := List.length_pos_iff.2 hne
      have hrest : 0 < (joinOn (chr '/') parts).length := List.length_pos_iff.2 hnil
      rw [Bool.not_eq_true] at hslash
      rw [if_neg hnil, hslash, if_pos ⟨hpos, hrest, rfl⟩, if_neg Bool.false_ne_true]
      rfl

/-- A body behind its root is what the serializer writes. -/
theorem spelled_body {root : Root α} {parts : List (List α)} :
    spelled root (if root.isAbsolute then joinOn (chr '/') parts else Go.serialize [] parts) =
      Go.serialize root.text parts := by
  cases hroot : root.isAbsolute with
  | true =>
      exact text_joinOn (Root.text_ne_nil hroot) parts
  | false =>
      rw [spelled, Root.text_eq_nil_iff.2 hroot, Unity.GrammarRoot.text, Unity.GrammarRoot.separatorLength,
        if_neg (by simp)]
      rfl

omit [DecidableEq α] in
theorem kindOf_fold (root : Root α) : kindOf root.fold = kindOf root := by
  cases root <;> rfl

/-- What the check returns reassembles to the folded root and the rest. -/
theorem text_grammarRoot (root : Root α) (rest : List α) : (grammarRoot root rest).text = spelled root.fold rest := by
  rw [spelled, kindOf_fold, grammarRoot]

variable {value rest : List α} {root : Root α}

/-- Folding a drive letter moves no separator. -/
theorem separatorLength_fold (hroot : root.Valid) (kind : Unity.RootKind) :
    Unity.GrammarRoot.separatorLength { kind := kind, rootPrefix := root.fold.text, rest := rest } =
      Unity.GrammarRoot.separatorLength { kind := kind, rootPrefix := root.text, rest := rest } := by
  have hends : Go.hasSuffix root.fold.text (lit "/") = Go.hasSuffix root.text (lit "/") := by
    by_cases habs : root.isAbsolute = true
    · rw [hasSuffix_text hroot habs, hasSuffix_text hroot.fold ((Root.isAbsolute_fold root).trans habs)]
      cases root <;> rfl
    · have htext : root.text = [] := Root.text_eq_nil_iff.2 (Bool.eq_false_iff.2 habs)
      have hfold : root.fold.text = [] := by
        rw [Root.text_eq_nil_iff, Root.isAbsolute_fold]
        exact Bool.eq_false_iff.2 habs
      rw [htext, hfold]
  simp only [Unity.GrammarRoot.separatorLength, Root.length_text_fold, endsWith_eq, hends]

/-- The lengths agree where the value is spelled as it stands. -/
theorem length_eq_iff (h : Splits value root rest) (kind : Unity.RootKind) :
    value.length = root.fold.text.length +
        Unity.GrammarRoot.separatorLength { kind := kind, rootPrefix := root.fold.text, rest := rest } + rest.length ↔
      value = spelled root rest := by
  rw [separatorLength_fold h.valid, Root.length_text_fold]
  have hkind : Unity.GrammarRoot.separatorLength { kind := kind, rootPrefix := root.text, rest := rest } =
      Unity.GrammarRoot.separatorLength { kind := kindOf root, rootPrefix := root.text, rest := rest } := rfl
  have hcases : Unity.GrammarRoot.separatorLength { kind := kindOf root, rootPrefix := root.text, rest := rest } = 0 ∨
      Unity.GrammarRoot.separatorLength { kind := kindOf root, rootPrefix := root.text, rest := rest } = 1 := by
    rw [Unity.GrammarRoot.separatorLength]
    split
    · exact .inr rfl
    · exact .inl rfl
  rw [hkind, spelled, Unity.GrammarRoot.text]
  constructor
  · intro hlength
    obtain ⟨tail, hvalue, htail⟩ := h.exists_eq_append
    rw [hvalue, List.length_append] at hlength
    -- a tail without the separator fits a root that needs none, and the other way round
    have hrest : tail = rest ∨ tail = chr '/' :: rest := by
      rcases htail with hsame | hremainder
      · exact .inl hsame
      · cases hremainder with
        | bare =>
            exact .inl rfl
        | slash =>
            exact .inr rfl
    rcases hcases with hzero | hone
    · rw [hzero] at hlength ⊢
      rcases hrest with hsame | hslash
      · rw [hvalue, hsame, List.replicate_zero, List.append_nil]
      · rw [hslash, List.length_cons] at hlength
        omega
    · rw [hone] at hlength ⊢
      rcases hrest with hsame | hslash
      · rw [hsame] at hlength
        omega
      · rw [hvalue, hslash, List.append_assoc]
        rfl
  · intro hvalue
    have hlength := congrArg List.length hvalue
    rw [List.length_append, List.length_append, List.length_replicate] at hlength
    exact hlength

/-- A value starts with its folded root if its root is folded. -/
theorem startsWith_fold_iff (h : Splits value root rest) :
    Unity.startsWith value root.fold.text = true ↔ root.fold = root := by
  obtain ⟨tail, hvalue, -⟩ := h.exists_eq_append
  rw [startsWith_eq, hvalue, Go.hasPrefix_iff]
  constructor
  · rintro ⟨more, hmore⟩
    have htext := (List.append_inj hmore (Root.length_text_fold root).symm).1
    exact Root.text_inj h.valid.fold h.valid htext.symm
  · intro hfold
    rw [hfold]
    exact ⟨tail, rfl⟩

omit [DecidableEq α] [CodeUnit α] in
theorem kindOf_drive_iff : kindOf root = .drive ∨ kindOf root = .extendedDrive ↔
    (root.isDrive || root.isExtendedDrive) = true := by
  cases root <;> simp [kindOf, Root.isDrive, Root.isExtendedDrive]

/-- The head of the check: the value is spelled as it stands, and its drive is folded or need not be. -/
theorem keepsRoot_iff {allowDriveCase : Bool} (h : Splits value root rest) :
    KeepsRoot value allowDriveCase (grammarRoot root rest) ↔
      ((allowDriveCase = true ∧ (root.isDrive || root.isExtendedDrive) = true) ∨ root.fold = root) ∧
        value = spelled root rest := by
  rw [KeepsRoot, ← length_eq_iff h (kindOf root), ← startsWith_fold_iff h, ← kindOf_drive_iff]
  rfl

/-- Behind an absolute root a rest is kept if it is a join of components. -/
theorem keepsRest_absolute_iff (habs : root.isAbsolute = true) :
    KeepsRest value (grammarRoot root rest) ↔ IsBody root rest := by
  have hkind : (grammarRoot root rest).kind ≠ .relative := by
    cases root <;> first | exact absurd habs Bool.false_ne_true | exact fun h => nomatch h
  have hrest : (grammarRoot root rest).rest = rest := rfl
  rw [KeepsRest, if_neg fun h => hkind h.1, checkComponents_whole, hrest, forall_splitOn_iff, IsBody]
  simp only [habs, ↓reduceIte]
  constructor
  · rintro ((hnil | hdot) | ⟨parts, -, hparts, hjoin⟩)
    · exact ⟨[], List.forall_mem_nil _, List.eq_nil_of_length_eq_zero hnil⟩
    · exact absurd hdot.1 hkind
    · exact ⟨parts, hparts, hjoin⟩
  · rintro ⟨parts, hparts, hjoin⟩
    by_cases hnil : parts = []
    · rw [hnil] at hjoin
      rw [hjoin]
      exact .inl (.inl rfl)
    · exact .inr ⟨parts, hnil, hparts, hjoin⟩

/-- Without a root a value is kept if it is a dot, a join of components, or one behind the marker it needs. -/
theorem keepsRest_relative_iff (hmarker : Go.needsRelativeMarker value = false) (hne : value ≠ []) :
    KeepsRest value (grammarRoot .relative value) ↔ IsBody .relative value := by
  have hrest : (grammarRoot .relative value).rest = value := rfl
  have hempty : ¬(grammarRoot .relative value).rest.length = 0 := fun h => hne (List.eq_nil_of_length_eq_zero h)
  have hdots : (lit "." : List α) = Go.serialize [] [] := rfl
  have hjoined : ∀ {parts : List (List α)}, parts ≠ [] → (∀ part ∈ parts, IsName part) →
      Go.serialize [] parts = Go.markRelative (joinOn (chr '/') parts) := by
    intro parts hparts hnames
    rw [Go.serialize, if_pos rfl, if_neg fun h => hparts ((joinOn_parts_eq_nil_iff hnames).1 h)]
  have hbody : IsBody .relative value ↔ ∃ parts : List (List α), (∀ part ∈ parts, IsName part) ∧ value = Go.serialize [] parts :=
    Iff.rfl
  rw [KeepsRest, or_iff_right hempty, hbody, hrest, startsWith_eq]
  by_cases hdot : value = lit "."
  · exact ⟨fun _ => ⟨[], List.forall_mem_nil _, hdot.trans hdots⟩, fun _ => .inl ⟨rfl, hdot⟩⟩
  rw [or_iff_right fun h => hdot h.2]
  -- behind a marker there is a drive component, and without one there is none in front
  by_cases hdotslash : Go.hasPrefix value (lit "./") = true
  · obtain ⟨more, hmore⟩ := Go.hasPrefix_iff.1 hdotslash
    have hdrive : Unity.isMarkedDrive value = Go.needsRelativeMarker more := by
      rw [hmore]
      rcases more with _ | ⟨a, _ | ⟨b, more⟩⟩
      · rfl
      · rfl
      · rfl
    rw [if_pos ⟨rfl, hdotslash⟩, hdrive, hmore, checkComponents_marked, forall_splitOn_iff]
    constructor
    · rintro ⟨hneeded, parts, hparts, hnames, hjoin⟩
      refine ⟨parts, hnames, ?_⟩
      rw [hjoined hparts hnames, ← hjoin, Go.markRelative, if_pos hneeded]
    · rintro ⟨parts, hnames, hvalue⟩
      have hparts : parts ≠ [] := by
        intro hnil
        rw [hnil, ← hdots, ← hmore] at hvalue
        exact hdot hvalue
      rw [hjoined hparts hnames, Go.markRelative] at hvalue
      by_cases hneeded : Go.needsRelativeMarker (joinOn (chr '/') parts) = true
      · rw [if_pos hneeded] at hvalue
        have hjoin := List.append_cancel_left hvalue
        rw [hjoin]
        exact ⟨hneeded, parts, hparts, hnames, rfl⟩
      · -- without a marker the first component would be a dot
        rw [if_neg hneeded] at hvalue
        have hsplit := splitOn_joinOn (fun part hpart => (hnames part hpart).slash_not_mem) hparts
        rw [← hvalue, splitOn_dot_slash] at hsplit
        have hmem : lit "." ∈ parts := by
          rw [← hsplit]
          exact List.mem_cons_self
        exact absurd rfl (hnames _ hmem).ne_dot
  · rw [if_neg fun h => hdotslash h.2, checkComponents_whole, forall_splitOn_iff]
    constructor
    · rintro ⟨parts, hparts, hnames, hjoin⟩
      refine ⟨parts, hnames, ?_⟩
      rw [hjoined hparts hnames, ← hjoin, Go.markRelative, hmarker, if_neg Bool.false_ne_true]
    · rintro ⟨parts, hnames, hvalue⟩
      have hparts : parts ≠ [] := by
        intro hnil
        rw [hnil, ← hdots] at hvalue
        exact hdot hvalue
      refine ⟨parts, hparts, hnames, ?_⟩
      rw [hjoined hparts hnames, Go.markRelative] at hvalue
      by_cases hneeded : Go.needsRelativeMarker (joinOn (chr '/') parts) = true
      · rw [if_pos hneeded] at hvalue
        exact absurd (Go.hasPrefix_iff.2 ⟨_, hvalue⟩) hdotslash
      · rw [if_neg hneeded] at hvalue
        exact hvalue

theorem keepsRest_iff (hne : value ≠ []) (h : Splits value root rest) :
    KeepsRest value (grammarRoot root rest) ↔ IsBody root rest := by
  by_cases habs : root.isAbsolute = true
  · exact keepsRest_absolute_iff habs
  · cases h with
    | relative hhead hmarker =>
        exact keepsRest_relative_iff hmarker hne
    | _ =>
        exact absurd rfl habs

/-! ## The check and the cleanup -/

/-- A value with its drive letter lowercased, where its root is a drive or an extended drive. -/
def lowerDrive (value : List α) : Option (List α) :=
  match Unity.parseGrammar value with
  | .ok parsed =>
      if parsed.kind = .drive then
        some (value.modify 0 lower)
      else if parsed.kind = .extendedDrive then
        some (value.modify 4 lower)
      else
        none
  | .error _ => none

theorem resolve_body {parts : List (List α)} (hparts : ∀ part ∈ parts, IsName part) (root : Root α) :
    resolve root.isAbsolute (if root.isAbsolute then joinOn (chr '/') parts else Go.serialize [] parts) = some parts := by
  cases root.isAbsolute with
  | true =>
      exact resolve_joinOn hparts
  | false =>
      exact resolve_serialize_relative hparts

theorem body_eq (p : Identity α) :
    p.body = if p.root.isAbsolute then joinOn (chr '/') p.parts else Go.serialize [] p.parts := by
  rw [Identity.body]
  by_cases habs : p.root.isAbsolute = true
  · rw [if_pos habs, if_pos habs]
  · rw [if_neg habs, if_neg habs, Identity.render, Root.text_eq_nil_iff.2 (Bool.eq_false_iff.2 habs)]

theorem spelled_render (p : Identity α) : p.render = spelled p.root p.body := by
  rw [body_eq, spelled_body, Identity.render]

/-- A drive root is folded in its place. -/
theorem lowerDrive_eq_some_iff {lowered : List α} (hne : value ≠ []) (hnul : nul ∉ value) (h : Splits value root rest) :
    lowerDrive value = some lowered ↔
      (root.isDrive || root.isExtendedDrive) = true ∧ lowered = root.fold.text ++ rest := by
  rw [lowerDrive, parseGrammar_of_splits hne hnul h]
  dsimp only
  cases h with
  | drive hd hrest =>
      simp [grammarRoot, kindOf, Root.isDrive, Root.fold, Root.text, eq_comm]
  | extendedDrive hd hrest =>
      simp [grammarRoot, kindOf, Root.isDrive, Root.isExtendedDrive, Root.fold, Root.text, lit, eq_comm]
  | _ =>
      simp [grammarRoot, kindOf, Root.isDrive, Root.isExtendedDrive]

theorem requireCanonical_accepts_iff {allowDriveCase : Bool} {returned : Unity.GrammarRoot α} (hne : value ≠ [])
    (hnul : nul ∉ value) (h : Splits value root rest) :
    Unity.requireCanonical value allowDriveCase = .ok returned ↔
      returned = grammarRoot root rest ∧
        ((allowDriveCase = true ∧ (root.isDrive || root.isExtendedDrive) = true) ∨ root.fold = root) ∧
          value = spelled root rest ∧ IsBody root rest := by
  rw [requireCanonical_eq_ok_iff (parseGrammar_of_splits hne hnul h), keepsRoot_iff h, keepsRest_iff hne h, and_assoc]

/-- What the check accepts is cleaned to the string that its result reassembles to. -/
theorem cleanGrammar_of_isBody (hne : value ≠ []) (hnul : nul ∉ value) (h : Splits value root rest)
    (hbody : IsBody root rest) : Unity.cleanGrammar value = .ok (spelled root.fold rest) := by
  obtain ⟨parts, hnames, hrest⟩ := hbody
  have hresolve := resolve_body hnames root
  have hspelled : spelled root.fold rest = Go.serialize root.fold.text parts := by
    rw [hrest, ← Root.isAbsolute_fold root, spelled_body]
  rw [← hrest] at hresolve
  rw [cleanGrammar_of_parsed (parseGrammar_of_splits hne hnul h), hresolve, hspelled]

/-- A cleaned string has the folded root, and a body behind it. -/
theorem exists_isBody_of_cleanGrammar {cleaned : List α} (hne : value ≠ []) (hnul : nul ∉ value)
    (h : Splits value root rest) (hclean : Unity.cleanGrammar value = .ok cleaned) :
    ∃ body, Splits cleaned root.fold body ∧ IsBody root.fold body ∧ cleaned = spelled root.fold body := by
  rw [cleanGrammar_of_parsed (parseGrammar_of_splits hne hnul h)] at hclean
  cases hresolve : resolve root.isAbsolute rest with
  | none =>
      rw [hresolve] at hclean
      cases hclean
  | some parts =>
      rw [hresolve] at hclean
      have hrender : (Identity.ofSplits hnul h hresolve).render = cleaned := Except.ok.inj hclean
      rw [← hrender]
      exact ⟨(Identity.ofSplits hnul h hresolve).body, Identity.splits_render _,
        ⟨parts, isName_of_resolve hresolve, body_eq _⟩, spelled_render _⟩

/-- A drive root and its rest need no separator between them. -/
theorem spelled_drive (hdrive : (root.isDrive || root.isExtendedDrive) = true) (hroot : root.Valid) (rest : List α) :
    spelled root rest = root.text ++ rest := by
  have hsuffix : Unity.endsWith root.text (lit "/") = true := by
    cases root with
    | drive d =>
        rw [endsWith_eq, hasSuffix_text hroot rfl]
    | extendedDrive d =>
        rw [endsWith_eq, hasSuffix_text hroot rfl]
    | _ =>
        cases hdrive
  rw [spelled, Unity.GrammarRoot.text, Unity.GrammarRoot.separatorLength, if_neg fun h => by simp [hsuffix] at h,
    List.replicate_zero, List.append_nil]

/-- A drive root in another case is read like the folded one. -/
theorem splits_drive (h : Splits value root rest) (hdrive : (root.isDrive || root.isExtendedDrive) = true) :
    value = root.text ++ rest ∧ Splits (root.fold.text ++ rest) root.fold rest := by
  cases h with
  | drive hd hrest =>
      exact ⟨rfl, Splits.drive (isLetter_lower.trans hd) hrest⟩
  | extendedDrive hd hrest =>
      exact ⟨rfl, Splits.extendedDrive (isLetter_lower.trans hd) hrest⟩
  | _ =>
      cases hdrive

/-- Where the value is accepted it has a body behind its root, and the other way round. -/
theorem cleaned_or_lowered_iff {allowDriveCase : Bool} (hne : value ≠ []) (hnul : nul ∉ value)
    (h : Splits value root rest) :
    (∃ cleaned, Unity.cleanGrammar value = .ok cleaned ∧
        (cleaned = value ∨ allowDriveCase = true ∧ lowerDrive value = some cleaned)) ↔
      ((allowDriveCase = true ∧ (root.isDrive || root.isExtendedDrive) = true) ∨ root.fold = root) ∧
        value = spelled root rest ∧ IsBody root rest := by
  constructor
  · -- the root and the rest of a string are read in one way only
    rintro ⟨cleaned, hclean, hsame | ⟨hallow, hlower⟩⟩
    · obtain ⟨body, hsplits, hbody, hspelled⟩ := exists_isBody_of_cleanGrammar hne hnul h hclean
      rw [hsame] at hsplits hspelled
      have hroot : root.fold = root := hsplits.root_eq h
      have hrest : body = rest := (hsplits.rest_eq h).2
      rw [hroot, hrest] at hspelled hbody
      exact ⟨.inr hroot, hspelled, hbody⟩
    · obtain ⟨hdrive, hlowered⟩ := (lowerDrive_eq_some_iff hne hnul h).1 hlower
      obtain ⟨body, hsplits, hbody, -⟩ := exists_isBody_of_cleanGrammar hne hnul h hclean
      obtain ⟨hvalue, hfolded⟩ := splits_drive h hdrive
      rw [hlowered] at hsplits
      have hrest : body = rest := (hsplits.rest_eq hfolded).2
      rw [hrest] at hbody
      obtain ⟨parts, hnames, hjoin⟩ := hbody
      rw [Root.isAbsolute_fold] at hjoin
      exact ⟨.inl ⟨hallow, hdrive⟩, hvalue.trans (spelled_drive hdrive h.valid rest).symm, parts, hnames, hjoin⟩
  · rintro ⟨hroot, hvalue, hbody⟩
    refine ⟨_, cleanGrammar_of_isBody hne hnul h hbody, ?_⟩
    rcases hroot with ⟨hallow, hdrive⟩ | hfold
    · right
      refine ⟨hallow, (lowerDrive_eq_some_iff hne hnul h).2 ⟨hdrive, ?_⟩⟩
      have hdrive' : (root.fold.isDrive || root.fold.isExtendedDrive) = true := by
        cases root <;> exact hdrive
      exact spelled_drive hdrive' h.valid.fold rest
    · left
      rw [hfold]
      exact hvalue.symm

/-- A value without a root is refused by both. -/
theorem parseGrammar_error_or_splits (value : List α) :
    (∃ err, Unity.parseGrammar value = .error err) ∨
      value ≠ [] ∧ nul ∉ value ∧ ∃ root rest, Splits value root rest := by
  by_cases hne : value = []
  · left
    rw [Unity.parseGrammar, if_pos hne]
    exact ⟨_, rfl⟩
  by_cases hnul : nul ∈ value
  · left
    rw [Unity.parseGrammar, if_neg hne, if_pos hnul]
    exact ⟨_, rfl⟩
  cases hsplit : Go.splitRoot value with
  | error err =>
      obtain ⟨err', herr', -⟩ := exists_parse_error hne hnul hsplit
      exact .inl ⟨err', herr'⟩
  | ok split =>
      obtain ⟨root, hsplits, -⟩ := splitRoot_eq_ok_iff.1 hsplit
      exact .inr ⟨hne, hnul, root, split.2, hsplits⟩

/-- The in-place check accepts a value if cleanup leaves it as it is, or changes nothing but a drive letter whose case
is left open; what it returns reassembles to the cleaned value. -/
theorem requireCanonical_iff_cleanGrammar (value : List α) (allowDriveCase : Bool) :
    ((∃ parsed, Unity.requireCanonical value allowDriveCase = .ok parsed) ↔
        ∃ cleaned, Unity.cleanGrammar value = .ok cleaned ∧
          (cleaned = value ∨ allowDriveCase = true ∧ lowerDrive value = some cleaned)) ∧
      ∀ parsed, Unity.requireCanonical value allowDriveCase = .ok parsed →
        Unity.cleanGrammar value = .ok parsed.text := by
  rcases parseGrammar_error_or_splits value with ⟨err, herr⟩ | ⟨hne, hnul, root, rest, hsplits⟩
  · have hcheck : Unity.requireCanonical value allowDriveCase = .error err := by
      rw [Unity.requireCanonical, herr]
      rfl
    have hclean : Unity.cleanGrammar value = .error err := by
      rw [Unity.cleanGrammar, herr]
      rfl
    rw [hcheck, hclean]
    refine ⟨⟨?_, ?_⟩, ?_⟩
    · rintro ⟨parsed, h⟩
      cases h
    · rintro ⟨cleaned, h, -⟩
      cases h
    · intro parsed h
      cases h
  · rw [cleaned_or_lowered_iff hne hnul hsplits]
    constructor
    · constructor
      · rintro ⟨parsed, hparsed⟩
        exact ((requireCanonical_accepts_iff hne hnul hsplits).1 hparsed).2
      · intro haccepted
        exact ⟨grammarRoot root rest, (requireCanonical_accepts_iff hne hnul hsplits).2 ⟨rfl, haccepted⟩⟩
    · intro parsed hparsed
      obtain ⟨hreturned, -, -, hbody⟩ := (requireCanonical_accepts_iff hne hnul hsplits).1 hparsed
      rw [hreturned, text_grammarRoot, cleanGrammar_of_isBody hne hnul hsplits hbody]

end Unity

end Ports

end CanonicalPath
