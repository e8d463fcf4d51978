import CanonicalPath.Ports.Payload
import CanonicalPath.Ports.Scoped

/-!
# Assets — payload paths below a project root

A payload path is joined to the project root and found again by the relative path from the root.

* `PlainNames` : components that are written without a marker, on every root
* `PlainNames.join_relative` : joining them and reading them back
* `assets_compose` : the conversions of the path service compose with the canonical identity
-/

namespace CanonicalPath

namespace Ports

open CodeUnit Segments Outcome

open Go (UnityMCPPathScope)

section Names

variable {α : Type} [DecidableEq α] [CodeUnit α]

/-! ## Plain components -/

/-- Components that every root can hold and that read back as they are written. -/
structure PlainNames (parts : List (List α)) : Prop where
  nonempty : parts ≠ []
  names : ∀ part ∈ parts, IsName part
  noNul : ∀ part ∈ parts, nul ∉ part
  noBackslash : ∀ part ∈ parts, chr '\\' ∉ part
  noColon : ∀ part ∈ parts, chr ':' ∉ part

namespace PlainNames

variable {parts : List (List α)}

omit [DecidableEq α] in
theorem joinOn_noColon (h : PlainNames parts) : chr ':' ∉ joinOn (chr '/') parts :=
  not_mem_joinOn_slash (by simp) h.noColon

omit [DecidableEq α] in
theorem joinOn_noBackslash (h : PlainNames parts) : chr '\\' ∉ joinOn (chr '/') parts :=
  not_mem_joinOn_slash (by simp) h.noBackslash

omit [DecidableEq α] in
theorem joinOn_noNul (h : PlainNames parts) : nul ∉ joinOn (chr '/') parts :=
  not_mem_joinOn_slash (by simp) h.noNul

omit [DecidableEq α] in
theorem joinOn_ne_nil (h : PlainNames parts) : joinOn (chr '/') parts ≠ [] :=
  mt (joinOn_parts_eq_nil_iff h.names).1 h.nonempty

theorem noMarker (h : PlainNames parts) : Go.needsRelativeMarker (joinOn (chr '/') parts) = false :=
  needsRelativeMarker_of_noColon h.joinOn_noColon

theorem serialize_eq (h : PlainNames parts) : Go.serialize [] parts = joinOn (chr '/') parts := by
  rw [serialize_relative_of_ne_nil h.names h.nonempty, Go.markRelative, h.noMarker]
  rfl

theorem splits (h : PlainNames parts) : Splits (joinOn (chr '/') parts) .relative (joinOn (chr '/') parts) := by
  rw [← h.serialize_eq]
  exact splits_serialize_relative h.names

theorem splitOn_eq (h : PlainNames parts) : (joinOn (chr '/') parts).splitOn (chr '/') = parts :=
  splitOn_joinOn (fun part hpart => (h.names part hpart).slash_not_mem) h.nonempty

/-- Joined below a root, the components are what the relative path from the root reads. -/
theorem join_relative (h : PlainNames parts) (p : Identity α) (habs : p.root.isAbsolute = true) :
    ∃ target, TS.join p.render (joinOn (chr '/') parts) = .ok target ∧
      TS.relative p.render target = .ok (joinOn (chr '/') parts) := by
  let q : Identity α := p.below parts h.names h.noNul fun _ => h.noBackslash
  have hjoin : Go.join p.render (joinOn (chr '/') parts) = .ok q.render :=
    (join_render_eq_ok_iff p).2 ⟨fun _ => h.joinOn_noBackslash, h.joinOn_ne_nil, h.joinOn_noNul, h.splits, parts,
      resolve_joinOn h.names, rfl⟩
  refine ⟨q.render, (join_render_iff p).1 hjoin, ?_⟩
  have hinside : p.root.text = q.root.text ∧ p.parts <+: q.parts := ⟨rfl, parts, rfl⟩
  have hdrop : q.parts.drop p.parts.length = parts := List.drop_left
  calc
    TS.relative p.render q.render = Go.relative p.render q.render := relative_render_eq p q habs habs
    _ = .ok (Go.serialize [] (q.parts.drop p.parts.length)) := by
        rw [relative_render p q habs habs, if_pos hinside]
    _ = .ok (joinOn (chr '/') parts) := by
        rw [hdrop, h.serialize_eq]

end PlainNames

/-! ## Asset paths -/

theorem visible_of_names {parts : List (List α)} (h : ∀ part ∈ parts, IsName part) : visible parts = parts := by
  apply List.filter_eq_self.2
  intro part hpart
  simp [(h part hpart).ne_nil, (h part hpart).ne_dot]

/-- What a guard returns is spelled by plain components. -/
theorem Payload.plainNames {value clean : List α} (h : Payload value clean) (hnul : nul ∉ value)
    (hback : chr '\\' ∉ value) : PlainNames (visible (value.splitOn (chr '/'))) := by
  have hmem {part : List α} (hpart : part ∈ visible (value.splitOn (chr '/'))) :
      part ∈ value.splitOn (chr '/') ∧ part ≠ [] ∧ part ≠ lit "." := by
    simpa [visible] using hpart
  have hunit {x : α} (hx : x ∉ value) : ∀ part ∈ visible (value.splitOn (chr '/')), x ∉ part := by
    intro part hpart hin
    exact hx (mem_of_mem_splitOn (hmem hpart).1 hin)
  refine ⟨h.nonempty, ?_, hunit hnul, hunit hback, hunit h.noColon⟩
  intro part hpart
  obtain ⟨hsplit, hne, hdot⟩ := hmem hpart
  refine ⟨hne, hdot, ?_, not_mem_of_mem_splitOn hsplit⟩
  intro hup
  exact h.noTraversal (hup ▸ hsplit)

/-- Plain components pass the guard unchanged, below the roots that it admits. -/
theorem PlainNames.normalizeUnityAssetPath_iff {parts : List (List α)} (h : PlainNames parts) {clean : List α} :
    TS.normalizeUnityAssetPath (joinOn (chr '/') parts) = .ok clean ↔
      clean = joinOn (chr '/') parts ∧ TS.isAllowedUnityRoot clean = true := by
  have hvisible : visible ((joinOn (chr '/') parts).splitOn (chr '/')) = parts := by
    rw [h.splitOn_eq, visible_of_names h.names]
  rw [normalizeUnityAssetPath_eq_ok_iff, replaceAll_of_not_mem h.joinOn_noBackslash]
  constructor
  · rintro ⟨-, -, hpayload⟩
    have hclean := hpayload.clean_eq
    rw [hvisible] at hclean
    exact ⟨hclean, hpayload.allowed⟩
  · rintro ⟨hclean, hallowed⟩
    refine ⟨h.joinOn_ne_nil, h.joinOn_noNul, {
      noSlash := ?_
      noColon := h.joinOn_noColon
      noTraversal := ?_
      nonempty := ?_
      clean_eq := ?_
      allowed := hallowed
    }⟩
    · exact (Bool.or_eq_false_iff.1 (splits_relative_iff.1 h.splits).1).1
    · rw [h.splitOn_eq]
      intro hup
      exact (h.names _ hup).ne_dotdot rfl
    · rw [hvisible]
      exact h.nonempty
    · rw [hvisible]
      exact hclean

/-- Down and up again. -/
theorem toUnityAssetPath_fromUnityAssetPath (p : Identity α) (habs : p.root.isAbsolute = true) {raw clean : List α}
    (h : TS.normalizeUnityAssetPath raw = .ok clean) :
    ∃ full, TS.fromUnityAssetPath p.render raw = .ok full ∧ TS.toUnityAssetPath p.render full = .ok clean := by
  obtain ⟨hne, hnul, hpayload⟩ := normalizeUnityAssetPath_eq_ok_iff.1 h
  have hnames := hpayload.plainNames (mt (chr_mem_replaceAll_iff (by simp) (by simp)).1 hnul)
    (chr_not_mem_replaceAll (by decide) (by decide) (by decide) raw)
  obtain ⟨full, hjoin, hrelative⟩ := hnames.join_relative p habs
  have hagain := hnames.normalizeUnityAssetPath_iff.2 ⟨hpayload.clean_eq, hpayload.allowed⟩
  refine ⟨full, ?_, ?_⟩
  · rw [TS.fromUnityAssetPath, h, ok_bind, hpayload.clean_eq]
    exact hjoin
  · rw [TS.toUnityAssetPath, hrelative, ok_bind, if_neg hnames.joinOn_noBackslash]
    exact hagain

/-- The operands of a relative path, and what it spells. -/
theorem exists_of_relative_ts {root full rel : List α} (h : TS.relative root full = .ok rel) :
    ∃ (p q : Identity α) (more : List (List α)), root = p.render ∧ full = q.render ∧ p.root.text = q.root.text ∧
      q.parts = p.parts ++ more ∧ rel = Go.serialize [] more := by
  have hcheck := h
  rw [TS.relative] at hcheck
  obtain ⟨rootParts, hroot, hcheck⟩ := bind_eq_ok_iff.1 hcheck
  obtain ⟨fullParts, hfull, -⟩ := bind_eq_ok_iff.1 hcheck
  obtain ⟨p, rfl, hp, -, -⟩ := exists_identity_of_canonicalParts hroot
  obtain ⟨q, rfl, hq, -, -⟩ := exists_identity_of_canonicalParts hfull
  rw [relative_render_eq p q hp hq, relative_render p q hp hq] at h
  split_ifs at h with hinside
  · obtain ⟨hroot, more, hmore⟩ := hinside
    rw [← hmore, List.drop_left] at h
    exact ⟨p, q, more, rfl, rfl, hroot, hmore.symm, (Except.ok.inj h).symm⟩
  · cases h

/-- Up and down again. -/
theorem fromUnityAssetPath_toUnityAssetPath {root full asset : List α}
    (h : TS.toUnityAssetPath root full = .ok asset) : TS.fromUnityAssetPath root asset = .ok full := by
  rw [TS.toUnityAssetPath] at h
  obtain ⟨rel, hrelative, h⟩ := bind_eq_ok_iff.1 h
  obtain ⟨p, q, more, rfl, rfl, hroot, hparts, rfl⟩ := exists_of_relative_ts hrelative
  simp only [newError, ite_error_eq_ok_iff] at h
  obtain ⟨hback, hasset⟩ := h
  have hpayload := (normalizeUnityAssetPath_eq_ok_iff.1 hasset).2.2
  rw [replaceAll_of_not_mem hback] at hpayload
  have hmem {part : List α} (hpart : part ∈ more) : part ∈ q.parts :=
    hparts ▸ List.mem_append_right p.parts hpart
  have hnames : ∀ part ∈ more, IsName part := fun part hpart => q.parts_valid part (hmem hpart)
  have hne : more ≠ [] := by
    rintro rfl
    -- the root itself is the dot, which no payload is
    exact hpayload.nonempty visible_dot
  have hserialize := serialize_relative_of_ne_nil hnames hne
  -- a marker would stand before a drive, whose colon the guard refuses
  have hmarker : Go.needsRelativeMarker (joinOn (chr '/') more) = false := by
    apply needsRelativeMarker_of_noColon
    intro hcolon
    apply hpayload.noColon
    rw [hserialize, Go.markRelative]
    split_ifs
    · exact List.mem_append_right _ hcolon
    · exact hcolon
  have hplain : Go.serialize [] more = joinOn (chr '/') more := by
    rw [hserialize, Go.markRelative, hmarker]
    rfl
  rw [hplain] at hback hpayload hasset
  have hunit {x : α} (hx : x ∉ joinOn (chr '/') more) : ∀ part ∈ more, x ∉ part :=
    fun part hpart hin => hx (mem_joinOn_of_mem hpart hin)
  have hall : PlainNames more :=
    ⟨hne, hnames, fun part hpart => q.parts_nul_free part (hmem hpart), hunit hback, hunit hpayload.noColon⟩
  obtain ⟨rfl, hallowed⟩ := hall.normalizeUnityAssetPath_iff.1 hasset
  have hwindows : p.root.isWindows = q.root.isWindows := by
    rw [← isWindowsRoot_text, ← isWindowsRoot_text, hroot]
  have hjoin := join_relative_render p q hroot hwindows ⟨more, hparts.symm⟩
  rw [hparts, List.drop_left, hplain] at hjoin
  rw [TS.fromUnityAssetPath, hasset, ok_bind]
  exact (join_render_iff p).1 hjoin

/-! ## Scoped paths -/

/-- The components of the directory that a scope puts before a path. -/
def placementParts : UnityMCPPathScope → List (List α)
  | .knowledge => [lit "Assets", lit "UnityMcpKnowledge"]
  | .artifact => [lit "Library", lit "SGGUnityMcp"]
  | .tempSession => [lit "Temp", lit "SGGUnityMcp"]
  | .unityAsset | .packageManifest | .gatewayCache | .other _ => []

omit [DecidableEq α] in
theorem placement_append (scope : UnityMCPPathScope) {parts : List (List α)} (hne : parts ≠ []) :
    lit (placement scope).2 ++ joinOn (chr '/') parts = joinOn (chr '/') (placementParts scope ++ parts) := by
  cases scope with
  | knowledge | artifact | tempSession =>
      rw [placementParts, joinOn_append (by simp) hne]
      rfl
  | unityAsset | packageManifest | gatewayCache =>
      rfl
  | other name =>
      rfl

theorem PlainPart.isName {part : List α} (h : PlainPart part) (hslash : chr '/' ∉ part) : IsName part :=
  ⟨h.ne_nil, h.ne_dot, h.ne_dots, hslash⟩

omit [DecidableEq α] in
theorem chr_not_mem_lit {name : String} (h : name.toList.all (fun c => isLetterCode c.toNat) = true)
    {x : Char} (hx : x.toNat < 128) (hletter : isLetterCode x.toNat = false) : (chr x : α) ∉ lit name := by
  intro hmem
  obtain ⟨c, hc, heq⟩ := List.mem_map.1 hmem
  have hcode : isLetterCode c.toNat = true := List.all_eq_true.1 h c hc
  rw [chr_eq_chr_iff (lt_of_isLetterCode hcode) hx] at heq
  rw [← heq, hcode] at hletter
  cases hletter

omit [DecidableEq α] in
/-- A word of letters is plain. -/
theorem lit_plain {name : String} (h : name.toList.all (fun c => isLetterCode c.toNat) = true)
    (hne : name.toList ≠ []) :
    IsName (lit name : List α) ∧ (nul : α) ∉ lit name ∧ (chr '\\' : α) ∉ lit name ∧ (chr ':' : α) ∉ lit name := by
  have hdot : (chr '.' : α) ∉ lit name := chr_not_mem_lit h (by decide) (by decide)
  refine ⟨⟨?_, ?_, ?_, chr_not_mem_lit h (by decide) (by decide)⟩, chr_not_mem_lit h (by decide) (by decide),
    chr_not_mem_lit h (by decide) (by decide), chr_not_mem_lit h (by decide) (by decide)⟩
  · rw [lit, ne_eq, List.map_eq_nil_iff]
    exact hne
  · intro heq
    exact hdot (heq ▸ List.mem_cons_self)
  · intro heq
    exact hdot (heq ▸ List.mem_cons_self)

omit [DecidableEq α] in
/-- The directories are plain themselves. -/
theorem placementParts_plain (scope : UnityMCPPathScope) {part : List α} (h : part ∈ placementParts scope) :
    IsName part ∧ nul ∉ part ∧ chr '\\' ∉ part ∧ chr ':' ∉ part := by
  cases scope with
  | knowledge | artifact | tempSession =>
      rcases List.mem_pair.1 h with rfl | rfl
      · exact lit_plain (by decide) (by decide)
      · exact lit_plain (by decide) (by decide)
  | unityAsset | packageManifest | gatewayCache =>
      cases h
  | other name =>
      cases h

theorem PlainScoped.plainNames {raw : List α} (h : PlainScoped raw) (scope : UnityMCPPathScope) :
    PlainNames (placementParts scope ++ raw.splitOn (chr '/')) := by
  have hunit {x : α} (hx : x ∉ raw) : ∀ part ∈ raw.splitOn (chr '/'), x ∉ part :=
    fun part hpart hin => hx (mem_of_mem_splitOn hpart hin)
  have hplacement (part : List α) (hpart : part ∈ placementParts scope) := placementParts_plain scope hpart
  refine ⟨?_, ?_, ?_, ?_, ?_⟩
  · exact List.append_ne_nil_of_right_ne_nil _ (List.splitOn_ne_nil _ _)
  · exact List.forall_mem_append.2 ⟨fun part hpart => (hplacement part hpart).1,
      fun part hpart => (h.plain part hpart).isName (not_mem_of_mem_splitOn hpart)⟩
  · exact List.forall_mem_append.2 ⟨fun part hpart => (hplacement part hpart).2.1, hunit h.noNul⟩
  · exact List.forall_mem_append.2 ⟨fun part hpart => (hplacement part hpart).2.2.1, hunit h.noBackslash⟩
  · exact List.forall_mem_append.2 ⟨fun part hpart => (hplacement part hpart).2.2.2, hunit h.noColon⟩

theorem toScopedCanonicalPath_relative (p : Identity α) (habs : p.root.isAbsolute = true) {scope : UnityMCPPathScope}
    {raw : List α} {result : TS.ScopedPathResult α} (hscope : scope ≠ .gatewayCache)
    (h : TS.normalizeScopedPath scope raw = .ok result) :
    ∃ target, TS.toScopedCanonicalPath p.render scope raw = .ok target ∧
      TS.relative p.render target = .ok result.path := by
  obtain ⟨⟨hplain, -, -⟩, hresult⟩ := normalizeScopedPath_eq_ok_iff.1 h
  have hkind : result.kind = .project := by
    rw [hresult]
    cases scope with
    | gatewayCache =>
        exact absurd rfl hscope
    | _ =>
        rfl
  have hraw : joinOn (chr '/') (raw.splitOn (chr '/')) = raw := List.intercalate_splitOn _
  have hpath : result.path = joinOn (chr '/') (placementParts scope ++ raw.splitOn (chr '/')) := by
    rw [← placement_append scope (List.splitOn_ne_nil _ _), hraw, hresult]
  obtain ⟨target, hjoin, hrelative⟩ := (hplain.plainNames scope).join_relative p habs
  refine ⟨target, ?_, ?_⟩
  · rw [TS.toScopedCanonicalPath, h, ok_bind, if_neg (not_not_intro hkind), hpath]
    exact hjoin
  · rw [hpath]
    exact hrelative

end Names

/-- The conversions of the path service compose with the canonical identity, below every root. -/
theorem assets_compose {root rootPrefix : Units} {rootParts : List Units}
    (hroot : TS.canonicalParts root = .ok (rootPrefix, rootParts)) :
    (∀ scope raw result, scope ≠ .gatewayCache → TS.normalizeScopedPath scope raw = .ok result →
      ∃ target, TS.toScopedCanonicalPath root scope raw = .ok target ∧
        TS.relative root target = .ok result.path) ∧
    (∀ raw clean, TS.normalizeUnityAssetPath raw = .ok clean →
      ∃ full, TS.fromUnityAssetPath root raw = .ok full ∧ TS.toUnityAssetPath root full = .ok clean) ∧
    ∀ full asset, TS.toUnityAssetPath root full = .ok asset → TS.fromUnityAssetPath root asset = .ok full := by
  obtain ⟨p, rfl, habs, -, -⟩ := exists_identity_of_canonicalParts hroot
  refine ⟨?_, ?_, ?_⟩
  · intro scope raw result hscope h
    exact toScopedCanonicalPath_relative p habs hscope h
  · intro raw clean h
    exact toUnityAssetPath_fromUnityAssetPath p habs h
  · intro full asset h
    exact fromUnityAssetPath_toUnityAssetPath h

/-- Below a share. -/
theorem assets_compose_share :
    (∃ target, TS.toScopedCanonicalPath (lit "//s/h" : Units) .knowledge (lit "a/b") = .ok target ∧
        TS.relative (lit "//s/h") target = .ok (lit "Assets/UnityMcpKnowledge/a/b")) ∧
      (∃ full, TS.fromUnityAssetPath (lit "//s/h" : Units) (lit "Assets\\.//a") = .ok full ∧
        TS.toUnityAssetPath (lit "//s/h") full = .ok (lit "Assets/a")) ∧
      TS.fromUnityAssetPath (lit "//s/h" : Units) (lit "Assets/a") = .ok (lit "//s/h/Assets/a") := by
  have hroot : TS.canonicalParts (lit "//s/h" : Units) = .ok (lit "//s/h", []) := by
    decide
  refine ⟨?_, ?_, ?_⟩
  · exact (assets_compose hroot).1 .knowledge (lit "a/b") ⟨.knowledge, .project, lit "Assets/UnityMcpKnowledge/a/b"⟩
      (by decide) (by decide)
  · exact (assets_compose hroot).2.1 _ _ (by decide)
  · exact (assets_compose hroot).2.2 (lit "//s/h/Assets/a") _ (by decide)

end Ports

end CanonicalPath
