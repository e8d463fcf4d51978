import CanonicalPath.Identity.Root
import CanonicalPath.Library.DotStack

/-!
# Canonical — canonical identities as data

An `Identity` is a root together with the components below it, carrying the well-formedness of
both; an ill-formed identity cannot be built.  `Identity.render` is its canonical string.

Dot cleanup is a walk of the component stack (`resolve`), so `cleanCanonical` is: read the root,
walk the rest, render.  The main facts are

* `cleanCanonical_eq_ok_iff` : what `cleanCanonical` computes
* `cleanCanonical_render` : every rendered identity is a fixed point
* `exists_identity_of_cleanCanonical` : every output is the rendering of an identity
-/

namespace CanonicalPath

open CodeUnit Segments Go DotStack

variable {α : Type} [DecidableEq α] [CodeUnit α]

/-! ## Dot segments as moves -/

/-- What a slash-separated component asks the stack to do. -/
def move (part : List α) : Move (List α) :=
  if part = [] ∨ part = lit "." then
    .stay
  else if part = lit ".." then
    .up
  else
    .into part

/-- The components left by walking a text from the root. -/
def resolve (floor : Bool) (rest : List α) : Option (List (List α)) :=
  run floor [] ((rest.splitOn (chr '/')).map move)

theorem move_name {part : List α} (h : IsName part) : move part = .into part := by
  rw [move, if_neg (by simp [h.ne_nil, h.ne_dot]), if_neg h.ne_dotdot]

theorem move_eq_into_iff {part name : List α} :
    move part = .into name ↔ part = name ∧ part ≠ [] ∧ part ≠ lit "." ∧ part ≠ lit ".." := by
  rw [move]
  split_ifs with hstay hup
  · simp only [false_iff, not_and]
    rintro - hne hdot
    exact absurd hstay (by simp [hne, hdot])
  · simp [hup]
  · simp only [Move.into.injEq]
    rw [not_or] at hstay
    exact ⟨fun h => ⟨h, hstay.1, hstay.2, hup⟩, fun h => h.1⟩

/-- The loop of the Go port walks the stack. -/
theorem cleanLoop_eq (absolute : Bool) (escape : PathError) (parts comps : List (List α)) :
    cleanLoop absolute escape parts comps =
      match run absolute parts (comps.map move) with
      | some parts' => .ok parts'
      | none => .error escape := by
  induction comps generalizing parts with
  | nil =>
      rfl
  | cons part comps ih =>
      rw [cleanLoop, List.map_cons, move]
      -- stay, pop, clamped at the floor, escape, push
      split_ifs with hstay hup hparts habs
      · rw [ih, run_stay]
      · rw [ih, run, step, if_neg (by simpa using hparts)]
        rfl
      · rw [ih, run, step, if_pos (by simpa using hparts), if_pos habs]
        simp only [ne_eq, not_not] at hparts
        rw [hparts]
        rfl
      · rw [run, step, if_pos (by simpa using hparts), if_neg habs]
        rfl
      · rw [ih, run_into]

theorem isName_of_resolve {floor : Bool} {rest : List α} {parts : List (List α)}
    (h : resolve floor rest = some parts) : ∀ part ∈ parts, IsName part := by
  intro part hpart
  rcases mem_of_run h hpart with hnil | hinto
  · simp at hnil
  · rcases List.mem_map.1 hinto with ⟨part', hmem, hmove⟩
    rcases move_eq_into_iff.1 hmove with ⟨rfl, hne, hdot, hdotdot⟩
    exact ⟨hne, hdot, hdotdot, not_mem_of_mem_splitOn hmem⟩

/-- The components that are left are components of the text. -/
theorem mem_splitOn_of_resolve {floor : Bool} {rest : List α} {parts : List (List α)}
    (h : resolve floor rest = some parts) {part : List α} (hpart : part ∈ parts) :
    part ∈ rest.splitOn (chr '/') := by
  rcases mem_of_run h hpart with hnil | hinto
  · simp at hnil
  · rcases List.mem_map.1 hinto with ⟨part', hmem, hmove⟩
    rcases move_eq_into_iff.1 hmove with ⟨rfl, -⟩
    exact hmem

theorem mem_of_resolve {floor : Bool} {rest : List α} {parts : List (List α)}
    (h : resolve floor rest = some parts) {part : List α} (hpart : part ∈ parts) {x : α}
    (hx : x ∈ part) : x ∈ rest :=
  mem_of_mem_splitOn (mem_splitOn_of_resolve h hpart) hx

theorem names_map_move_sublist (comps : List (List α)) : (names (comps.map move)).Sublist comps := by
  induction comps with
  | nil =>
      exact List.nil_sublist _
  | cons part comps ih =>
      cases hmove : move part with
      | stay =>
          simpa [names, hmove] using ih.cons part
      | up =>
          simpa [names, hmove] using ih.cons part
      | into name =>
          rcases move_eq_into_iff.1 hmove with ⟨rfl, -⟩
          simpa [names, hmove] using ih.cons_cons part

/-- Dot cleanup does not make a text longer. -/
theorem length_joinOn_le_of_resolve {floor : Bool} {rest : List α} {parts : List (List α)}
    (h : resolve floor rest = some parts) : (joinOn (chr '/') parts).length ≤ rest.length := by
  have hsub : parts.Sublist (rest.splitOn (chr '/')) :=
    (sublist_of_run h).trans (names_map_move_sublist _)
  have hle : (joinOn (chr '/') parts).length ≤ (joinOn (chr '/') (rest.splitOn (chr '/'))).length :=
    length_joinOn_le_of_sublist hsub
  have hrest : joinOn (chr '/') (rest.splitOn (chr '/')) = rest := by
    simp [joinOn]
  rwa [hrest] at hle

theorem resolve_nil {floor : Bool} : resolve floor ([] : List α) = some [] := by
  simp [resolve, move]

theorem map_move_names {parts : List (List α)} (h : ∀ part ∈ parts, IsName part) :
    parts.map move = parts.map Move.into :=
  List.map_congr_left fun part hpart => move_name (h part hpart)

/-- Joined components resolve to themselves. -/
theorem resolve_joinOn {floor : Bool} {parts : List (List α)} (h : ∀ part ∈ parts, IsName part) :
    resolve floor (joinOn (chr '/') parts) = some parts := by
  by_cases hnil : parts = []
  · subst hnil
    exact resolve_nil
  · -- no component is a dot segment, so the walk only descends
    rw [resolve, splitOn_joinOn (fun part hpart => (h part hpart).slash_not_mem) hnil,
      map_move_names h, run_map_into, List.nil_append]

/-- Components behind a separator are pushed on what the text before it resolves to. -/
theorem resolve_append_joinOn {floor : Bool} {rest : List α} {parts more : List (List α)}
    (h : resolve floor rest = some parts) (hmore : ∀ part ∈ more, IsName part) (hne : more ≠ []) :
    resolve floor (rest ++ chr '/' :: joinOn (chr '/') more) = some (parts ++ more) := by
  rw [resolve] at h ⊢
  rw [List.splitOn_append_cons_self, splitOn_joinOn (fun part hpart => (hmore part hpart).slash_not_mem) hne,
    List.map_append, run_append, h, Option.bind_some, map_move_names hmore, run_map_into]

omit [DecidableEq α] in
theorem slash_not_mem_dot : chr '/' ∉ (lit "." : List α) := by
  simp [lit]

theorem splitOn_dot : (lit "." : List α).splitOn (chr '/') = [lit "."] :=
  List.splitOn_eq_singleton slash_not_mem_dot

theorem splitOn_dot_slash (rest : List α) :
    (lit "./" ++ rest).splitOn (chr '/') = lit "." :: rest.splitOn (chr '/') :=
  List.splitOn_append_cons_self_of_not_mem slash_not_mem_dot rest

/-- A leading `./` does not change what a text resolves to. -/
theorem resolve_dot_slash {floor : Bool} {rest : List α} :
    resolve floor (lit "./" ++ rest) = resolve floor rest := by
  rw [resolve, splitOn_dot_slash, List.map_cons, move, if_pos (Or.inr rfl), run_stay, resolve]

/-! ## Identities -/

/-- A canonical identity: a folded root and the components below it. -/
structure Identity (α : Type) [CodeUnit α] where
  root : Root α
  parts : List (List α)
  root_valid : root.Valid
  root_folded : root.fold = root
  parts_valid : ∀ part ∈ parts, IsName part
  root_nul_free : nul ∉ root.text
  parts_nul_free : ∀ part ∈ parts, nul ∉ part
  root_backslash_free : root.isWindows = true → chr '\\' ∉ root.text
  parts_backslash_free : root.isWindows = true → ∀ part ∈ parts, chr '\\' ∉ part

namespace Identity

/-- The canonical string of an identity. -/
def render (p : Identity α) : List α :=
  serialize p.root.text p.parts

/-- What `splitRoot` leaves behind the root of the canonical string. -/
def body (p : Identity α) : List α :=
  if p.root.isAbsolute then joinOn (chr '/') p.parts else p.render

end Identity

/-! ## The serializer -/

theorem hasSuffix_unc_eq_false {leader share : List α} (hshare : IsName share) :
    hasSuffix (leader ++ share) (lit "/") = false := by
  rw [Bool.eq_false_iff]
  intro h
  rcases hasSuffix_slash_iff.1 h with ⟨front, hfront⟩
  have hlast := congrArg List.getLast? hfront
  rw [List.getLast?_append_of_ne_nil _ hshare.ne_nil, List.getLast?_concat] at hlast
  exact hshare.slash_not_mem (List.mem_of_getLast? hlast)

theorem serialize_slash {rootPrefix : List α} {parts : List (List α)} (hne : rootPrefix ≠ [])
    (hslash : hasSuffix rootPrefix (lit "/") = true) :
    serialize rootPrefix parts = rootPrefix ++ joinOn (chr '/') parts := by
  rw [serialize, if_neg hne]
  split_ifs with hnil
  · rw [hnil, List.append_nil]
  · rfl

/-- Behind a share the components follow a separator, or nothing follows. -/
theorem serialize_share (leader server : List α) {share : List α} (parts : List (List α))
    (hne : leader ≠ []) (hshare : IsName share) :
    ∃ tail, Remainder tail (joinOn (chr '/') parts) ∧
      serialize (leader ++ server ++ lit "/" ++ share) parts =
        leader ++ (server ++ lit "/" ++ share ++ tail) := by
  rw [serialize, if_neg (by simp [hne])]
  simp only [hasSuffix_unc_eq_false hshare, Bool.false_eq_true, if_false]
  split_ifs with hnil
  · exact ⟨[], by rw [hnil]; exact Remainder.bare, by simp⟩
  · exact ⟨chr '/' :: joinOn (chr '/') parts, Remainder.slash _, by simp [lit]⟩

/-- A join of components has a drive marker exactly when its first component has. -/
theorem needsRelativeMarker_joinOn (part : List α) (parts : List (List α)) :
    needsRelativeMarker (joinOn (chr '/') (part :: parts)) = needsRelativeMarker part := by
  cases parts with
  | nil =>
      simp [joinOn]
  | cons next parts =>
      have hjoin : joinOn (chr '/') (part :: next :: parts) =
          part ++ chr '/' :: joinOn (chr '/') (next :: parts) := by
        simp [joinOn]
      rw [hjoin]
      cases part with
      | nil =>
          cases hmore : joinOn (chr '/') (next :: parts) with
          | nil =>
              rfl
          | cons b more =>
              simp [needsRelativeMarker, isLetterCode]
      | cons a part =>
          cases part with
          | nil =>
              simp [needsRelativeMarker]
          | cons b part =>
              rfl

/-- The serialized relative path needs no root to be read back. -/
theorem splits_serialize_relative {parts : List (List α)} (h : ∀ part ∈ parts, IsName part) :
    Splits (serialize [] parts) .relative (serialize [] parts) := by
  rw [serialize, if_pos rfl]
  split_ifs with hnil
  · -- the marker hides a component that would read as a drive
    exact Splits.relative (by simp [lit]) (by simp [needsRelativeMarker_eq, lit])
  · rw [markRelative]
    split_ifs with hmarker
    · exact Splits.relative (by simp [lit])
        (by simp [needsRelativeMarker_eq, lit, isLetterCode])
    · exact Splits.relative (head?_joinOn_ne_slash h) (by simpa using hmarker)

theorem resolve_serialize_relative {floor : Bool} {parts : List (List α)}
    (h : ∀ part ∈ parts, IsName part) : resolve floor (serialize [] parts) = some parts := by
  rw [serialize, if_pos rfl]
  split_ifs with hnil
  · -- the single dot resolves to nothing
    rw [(joinOn_parts_eq_nil_iff h).1 hnil]
    rw [resolve, splitOn_dot, List.map_singleton, move, if_pos (Or.inr rfl), run_stay, run_nil]
  · rw [markRelative]
    split_ifs
    · rw [resolve_dot_slash, resolve_joinOn h]
    · rw [resolve_joinOn h]

theorem hasSuffix_text {root : Root α} (hroot : root.Valid) (habs : root.isAbsolute = true) :
    hasSuffix root.text (lit "/") = match root with
      | .unc _ _ => false
      | .extendedUNC _ _ => false
      | _ => true := by
  cases root with
  | relative =>
      exact absurd habs (by simp [Root.isAbsolute])
  | posix =>
      exact hasSuffix_slash_iff.2 ⟨[], rfl⟩
  | drive d =>
      exact hasSuffix_slash_iff.2 ⟨d :: lit ":", rfl⟩
  | unc server share =>
      exact hasSuffix_unc_eq_false hroot.2.1
  | extendedDrive d =>
      exact hasSuffix_slash_iff.2 ⟨lit "//?/" ++ d :: lit ":", rfl⟩
  | extendedUNC server share =>
      exact hasSuffix_unc_eq_false hroot.2

/-- A serialized root is read back as the same root, whatever the components spell. -/
theorem splits_serialize {root : Root α} {parts : List (List α)} (hroot : root.Valid)
    (hparts : ∀ part ∈ parts, IsName part)
    (hclean : root.isWindows = true →
      chr '\\' ∉ root.text ∧ ∀ part ∈ parts, chr '\\' ∉ part) :
    Splits (serialize root.text parts) root
      (if root.isAbsolute then joinOn (chr '/') parts else serialize root.text parts) := by
  -- a separator is no backslash, so a clean component list has a clean join
  have hjoin : root.isWindows = true → chr '\\' ∉ joinOn (chr '/') parts := by
    intro hwindows hmem
    rcases mem_joinOn hmem with hsep | ⟨part, hpart, hmem⟩
    · exact absurd hsep (by simp)
    · exact (hclean hwindows).2 part hpart hmem
  cases root with
  | relative =>
      exact splits_serialize_relative hparts
  | posix =>
      rw [serialize_slash (Root.text_ne_nil rfl) (hasSuffix_text hroot rfl)]
      exact Splits.posix (head?_joinOn_ne_slash hparts)
  | drive d =>
      rw [serialize_slash (Root.text_ne_nil rfl) (hasSuffix_text hroot rfl)]
      exact Splits.drive hroot (hjoin rfl)
  | unc server share =>
      rcases serialize_share (lit "//") server parts (by simp [lit]) hroot.2.1 with
        ⟨tail, htail, hserialize⟩
      have hnames : chr '\\' ∉ server ++ share := by
        intro hmem
        exact (hclean rfl).1 (by simpa [Root.text, lit] using hmem)
      rw [Root.text, hserialize]
      refine Splits.unc hroot.1 hroot.2.1 hroot.2.2 htail ?_
      rw [List.mem_append, not_or]
      exact ⟨hnames, hjoin rfl⟩
  | extendedDrive d =>
      rw [serialize_slash (Root.text_ne_nil rfl) (hasSuffix_text hroot rfl)]
      exact Splits.extendedDrive hroot (hjoin rfl)
  | extendedUNC server share =>
      rcases serialize_share (lit "//?/UNC/") server parts (by simp [lit]) hroot.2 with
        ⟨tail, htail, hserialize⟩
      have hnames : chr '\\' ∉ server ++ share := by
        intro hmem
        exact (hclean rfl).1 (by simpa [Root.text, lit] using hmem)
      rw [Root.text, hserialize]
      refine Splits.extendedUNC hroot.1 hroot.2 htail ?_
      rw [List.mem_append, not_or]
      exact ⟨hnames, hjoin rfl⟩

namespace Identity

theorem splits_render (p : Identity α) : Splits p.render p.root p.body :=
  splits_serialize p.root_valid p.parts_valid fun h =>
    ⟨p.root_backslash_free h, p.parts_backslash_free h⟩

theorem resolve_body (p : Identity α) : resolve p.root.isAbsolute p.body = some p.parts := by
  rw [body]
  split_ifs with habs
  · exact resolve_joinOn p.parts_valid
  · have htext : p.root.text = [] := Root.text_eq_nil_iff.2 (by simpa using habs)
    rw [render, htext]
    exact resolve_serialize_relative p.parts_valid

end Identity

/-! ## What `cleanCanonical` computes -/

theorem lowercaseDrive_text {root : Root α} (hroot : root.Valid) :
    lowercaseDrive root.text = root.fold.text := by
  rw [lowercaseDrive, Root.hasDriveRoot_text hroot, Root.hasDriveRoot_drop_text hroot]
  cases root <;> rfl

/-- The source tests a prefix for emptiness, which says whether the root is absolute. -/
theorem Root.text_fold_bne_nil (root : Root α) : (root.fold.text != []) = root.isAbsolute := by
  rw [bne, ← Root.isAbsolute_fold]
  cases hcase : root.fold.isAbsolute with
  | false =>
      rw [Root.text_eq_nil_iff.2 hcase]
      rfl
  | true =>
      rw [beq_eq_false_iff_ne.2 (Root.text_ne_nil hcase)]
      rfl

theorem cleanCanonical_of_splits {value rest : List α} {root : Root α} (hne : value ≠ [])
    (hnul : nul ∉ value) (h : Splits value root rest) :
    cleanCanonical value =
      match resolve root.isAbsolute rest with
      | some parts => .ok (serialize root.fold.text parts)
      | none => newError .invalidPath "relative path escapes above its root" := by
  rw [cleanCanonical, if_neg hne, if_neg hnul, splitRoot_of_splits h, Outcome.ok_bind]
  simp only [lowercaseDrive_text h.valid, Root.text_fold_bne_nil, cleanLoop_eq]
  rw [resolve]
  cases run root.isAbsolute [] (List.map move (rest.splitOn (chr '/'))) with
  | none =>
      rfl
  | some parts =>
      rfl

theorem cleanCanonical_eq_ok_iff {value cleaned : List α} :
    cleanCanonical value = .ok cleaned ↔
      value ≠ [] ∧ nul ∉ value ∧ ∃ root rest parts, Splits value root rest ∧
        resolve root.isAbsolute rest = some parts ∧ cleaned = serialize root.fold.text parts := by
  constructor
  · intro h
    by_cases hne : value = []
    · rw [cleanCanonical, if_pos hne] at h
      exact absurd h (by simp [newError])
    by_cases hnul : nul ∈ value
    · rw [cleanCanonical, if_neg hne, if_pos hnul] at h
      exact absurd h (by simp [newError])
    have hsplit := h
    rw [cleanCanonical, if_neg hne, if_neg hnul] at hsplit
    rcases Outcome.bind_eq_ok_iff.1 hsplit with ⟨⟨rootPrefix, rest⟩, hroot, -⟩
    rcases splitRoot_eq_ok_iff.1 hroot with ⟨root, hsplits, -⟩
    rw [cleanCanonical_of_splits hne hnul hsplits] at h
    cases hresolve : resolve root.isAbsolute rest with
    | none =>
        rw [hresolve] at h
        exact absurd h (by simp [newError])
    | some parts =>
        rw [hresolve] at h
        exact ⟨hne, hnul, root, rest, parts, hsplits, hresolve, (Except.ok.inj h).symm⟩
  · rintro ⟨hne, hnul, root, rest, parts, hsplits, hresolve, rfl⟩
    rw [cleanCanonical_of_splits hne hnul hsplits, hresolve]

/-! ## Outputs are identities -/

theorem mem_serialize {rootPrefix : List α} {parts : List (List α)} {x : α}
    (h : x ∈ serialize rootPrefix parts) :
    x ∈ rootPrefix ∨ x = chr '/' ∨ x = chr '.' ∨ ∃ part ∈ parts, x ∈ part := by
  have hjoin (hx : x ∈ joinOn (chr '/') parts) :
      x ∈ rootPrefix ∨ x = chr '/' ∨ x = chr '.' ∨ ∃ part ∈ parts, x ∈ part := by
    rcases mem_joinOn hx with hsep | hpart
    · exact Or.inr (Or.inl hsep)
    · exact Or.inr (Or.inr (Or.inr hpart))
  rw [serialize] at h
  split_ifs at h
  · -- the single dot
    simp only [lit, String.reduceToList, List.map_cons, List.map_nil, List.mem_singleton] at h
    exact Or.inr (Or.inr (Or.inl h))
  · -- a relative path, where the marker adds a dot and a separator
    rw [markRelative] at h
    split_ifs at h
    · simp only [lit, String.reduceToList, List.map_cons, List.map_nil, List.cons_append,
        List.nil_append, List.mem_cons] at h
      rcases h with hx | hx | hx
      · exact Or.inr (Or.inr (Or.inl hx))
      · exact Or.inr (Or.inl hx)
      · exact hjoin hx
    · exact hjoin h
  · exact Or.inl h
  · rcases List.mem_append.1 h with hx | hx
    · exact Or.inl hx
    · exact hjoin hx
  · rw [List.append_assoc] at h
    rcases List.mem_append.1 h with hx | hx
    · exact Or.inl hx
    · rcases List.mem_cons.1 (show x ∈ chr '/' :: joinOn (chr '/') parts from hx) with hx | hx
      · exact Or.inr (Or.inl hx)
      · exact hjoin hx

theorem serialize_ne_nil {rootPrefix : List α} {parts : List (List α)} :
    serialize rootPrefix parts ≠ [] := by
  rw [serialize]
  split_ifs with hroot hjoin hjoin hslash
  · simp [lit]
  · rw [markRelative]
    split_ifs
    · simp [lit]
    · exact hjoin
  · exact hroot
  · simp [hroot]
  · simp [hroot]

/-- A unit other than the separator and the dot gets into a string from the root or a component. -/
theorem not_mem_serialize {rootPrefix : List α} {parts : List (List α)} {x : α}
    (hslash : x ≠ chr '/') (hdot : x ≠ chr '.') (hroot : x ∉ rootPrefix)
    (hparts : ∀ part ∈ parts, x ∉ part) : x ∉ serialize rootPrefix parts := by
  intro h
  rcases mem_serialize h with hx | hx | hx | ⟨part, hpart, hx⟩
  · exact hroot hx
  · exact hslash hx
  · exact hdot hx
  · exact hparts part hpart hx

namespace Identity

theorem render_ne_nil (p : Identity α) : p.render ≠ [] :=
  serialize_ne_nil

theorem render_nul_free (p : Identity α) : nul ∉ p.render :=
  not_mem_serialize (by simp) (by simp) p.root_nul_free p.parts_nul_free

/-- The identity read from a string by its root and the walk of its rest. -/
def ofSplits {value rest : List α} {root : Root α} {parts : List (List α)} (hnul : nul ∉ value)
    (h : Splits value root rest) (hresolve : resolve root.isAbsolute rest = some parts) :
    Identity α where
  root := root.fold
  parts := parts
  root_valid := h.valid.fold
  root_folded := root.fold_fold
  parts_valid := isName_of_resolve hresolve
  root_nul_free := fun hmem =>
    hnul (h.mem_text (Root.chr_mem_text_of_fold h.valid (by decide) (by decide) hmem))
  parts_nul_free := fun _ hpart hmem => hnul (h.mem_rest (mem_of_resolve hresolve hpart hmem))
  root_backslash_free := fun hwindows hmem =>
    h.backslash_not_mem (by simpa using hwindows)
      (h.mem_text (Root.chr_mem_text_of_fold h.valid (by decide) (by decide) hmem))
  parts_backslash_free := fun hwindows _ hpart hmem =>
    h.backslash_not_mem (by simpa using hwindows)
      (h.mem_rest (mem_of_resolve hresolve hpart hmem))

end Identity

/-- Every rendered identity is a fixed point of dot cleanup. -/
theorem cleanCanonical_render (p : Identity α) : cleanCanonical p.render = .ok p.render := by
  rw [cleanCanonical_of_splits p.render_ne_nil p.render_nul_free p.splits_render, p.resolve_body,
    p.root_folded]
  rfl

/-- Every output of dot cleanup is the rendering of an identity with the folded root of the input
and the components its rest resolves to. -/
theorem exists_identity_of_cleanCanonical {value cleaned : List α}
    (h : cleanCanonical value = .ok cleaned) :
    ∃ (p : Identity α) (root : Root α) (rest : List α), cleaned = p.render ∧
      Splits value root rest ∧ p.root = root.fold ∧
      resolve root.isAbsolute rest = some p.parts := by
  rcases cleanCanonical_eq_ok_iff.1 h with ⟨-, hnul, root, rest, parts, hsplits, hresolve, rfl⟩
  exact ⟨Identity.ofSplits hnul hsplits hresolve, root, rest, rfl, hsplits, rfl, hresolve⟩

theorem cleanCanonical_idempotent {value cleaned : List α}
    (h : cleanCanonical value = .ok cleaned) : cleanCanonical cleaned = .ok cleaned := by
  rcases exists_identity_of_cleanCanonical h with ⟨p, root, rest, rfl, -⟩
  exact cleanCanonical_render p

/-- Dot cleanup behind an absolute root does not make a string longer. -/
theorem length_serialize_le {value rest : List α} {root : Root α} {parts : List (List α)}
    (h : Splits value root rest) (habs : root.isAbsolute = true)
    (hresolve : resolve root.isAbsolute rest = some parts) :
    (serialize root.fold.text parts).length ≤ value.length := by
  have hjoin := length_joinOn_le_of_resolve hresolve
  have htext := Root.length_text_fold root
  have hne : root.fold.text ≠ [] := Root.text_ne_nil (by rw [Root.isAbsolute_fold, habs])
  have hsuffix := hasSuffix_text h.valid.fold (by rw [Root.isAbsolute_fold, habs])
  -- a root that ends with a separator is followed by the join itself
  have hslash {tail : List α} (prefixText : List α) (hsep : hasSuffix root.fold.text (lit "/") = true)
      (hlen : prefixText.length = root.fold.text.length) (htail : rest.length ≤ tail.length) :
      (serialize root.fold.text parts).length ≤ (prefixText ++ tail).length := by
    rw [serialize_slash hne hsep, List.length_append, List.length_append]
    omega
  -- a share is followed by nothing or by a separator, as it was in the input
  have hbare {prefixText tail : List α} (hlen : prefixText.length = root.fold.text.length)
      (htail : Remainder tail rest) :
      (serialize root.fold.text parts).length ≤ (prefixText ++ tail).length := by
    rw [serialize, if_neg hne]
    cases htail with
    | bare =>
        have hnil : joinOn (chr '/') parts = [] := by
          simpa using hjoin
        rw [if_pos hnil, List.length_append]
        omega
    | slash =>
        split_ifs <;> simp [lit] <;> omega
  cases h with
  | relative =>
      exact absurd habs (by simp [Root.isAbsolute])
  | posix =>
      exact hslash (lit "/") hsuffix htext.symm (Nat.le_refl _)
  | drive =>
      exact hslash _ hsuffix htext.symm (Nat.le_refl _)
  | unc hserver hshare hname htail hclean =>
      rename_i server share tail
      have hvalue : lit "//" ++ (server ++ lit "/" ++ share ++ tail) =
          (Root.unc server share).text ++ tail := by
        simp [Root.text]
      rw [hvalue]
      exact hbare htext.symm htail
  | extendedDrive hd hrest =>
      rename_i d
      exact hslash (Root.extendedDrive d).text hsuffix htext.symm (Nat.le_refl _)
  | extendedUNC hserver hshare htail hclean =>
      rename_i server share tail
      have hvalue : lit "//?/UNC/" ++ (server ++ lit "/" ++ share ++ tail) =
          (Root.extendedUNC server share).text ++ tail := by
        simp [Root.text]
      rw [hvalue]
      exact hbare htext.symm htail

end CanonicalPath
