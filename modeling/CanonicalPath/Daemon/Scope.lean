import CanonicalPath.Daemon.Registry
import CanonicalPath.FS.Validate
import CanonicalPath.Go.Scoped

/-!
# Scope — the anchor of a scoped request

The daemon decides about a scoped path lexically, on one string, and opens the file from a split of
the raw path into an anchor and a suffix.  `scopedAnchor_names_path` says that both name the same file
and that the filesystem layer takes the anchor and the suffix as they are.
-/

namespace CanonicalPath

namespace Daemon

open CodeUnit Segments Outcome Go FS

/-! ## The daemon's side -/

/-- `strings.Cut` at the first slash, and the dot where there is none. -/
def cutFirst (raw : Bytes) : Bytes × Bytes :=
  match cut (chr '/') raw with
  | some (first, rest) => (first, rest)
  | none => (raw, lit ".")

def scopedAnchor (scope : UnityMCPPathScope) (raw : Bytes) : Bytes × Bytes :=
  let (first, rest) := cutFirst raw
  match scope with
  | .knowledge => (lit "Assets/UnityMcpKnowledge", raw)
  | .artifact => (lit "Library/SGGUnityMcp/" ++ first, rest)
  | .tempSession => (lit "Temp/SGGUnityMcp/" ++ first, rest)
  -- an asset or one of the exact manifest files
  | _ => (first, rest)

def scopedOperationAllowed (scope : UnityMCPPathScope) (operation : String) : Bool :=
  match scope with
  | .unityAsset | .knowledge | .packageManifest | .artifact =>
      operation == "read" || operation == "write"
  | .tempSession => operation == "read" || operation == "write" || operation == "delete"
  | _ => false

/-- The name that `OpenScopedRoot` opens below the project. -/
def openScopedRoot (rel : Bytes) : Except FS.Error Bytes := do
  let clean ← cleanRelative rel
  if clean = lit "." then
    FS.newError .outsideRoot "scope must be narrower than the project root"
  else
    .ok clean

/-- The part of a request that a scoped operation reads. -/
structure ScopedRequest where
  scope : UnityMCPPathScope
  operation : String
  path : Bytes
  urlPath : String

/-- Why a scoped request is refused. -/
inductive ScopedRefusal
  | lexical (error : PathError)
  | filesystem (error : FS.Error)
  | unsupported (message : String)
  deriving DecidableEq, Repr

/-- The handle to open, the name below it and the path that is reported. -/
structure ScopedRoot where
  anchor : Bytes
  suffix : Bytes
  scopedPath : Bytes
  deriving DecidableEq, Repr

/-- `decodeScopedRootRequest`, behind the lookup of the project. -/
def decodeScopedRootRequest (req : ScopedRequest) (requiredOperation : String) :
    Except ScopedRefusal ScopedRoot :=
  if req.operation ≠ "" ∧ req.operation ≠ requiredOperation then
    .error (.unsupported "scoped operation does not match endpoint policy")
  else
    match normalizeUnityMCPScopedPath req.scope req.path with
    | .error error => .error (.lexical error)
    | .ok result =>
      if result.kind ≠ .project then
        .error (.unsupported "scoped path is not backed by a project root")
      else if scopedOperationAllowed result.scope requiredOperation = false then
        .error (.unsupported "operation is not allowed for scoped path")
      else
        let (anchor, suffix) := scopedAnchor result.scope req.path
        if result.scope = .packageManifest ∧ requiredOperation ≠ "read" ∧
            req.urlPath ≠ "/v1/scoped/writeFile" then
          .error (.unsupported "package manifest scope accepts file read, write and stat only")
        else
          match openScopedRoot anchor with
          | .error error => .error (.filesystem error)
          | .ok clean => .ok { anchor := clean, suffix := suffix, scopedPath := result.path }

/-! ## Plain paths -/

instance (name : Bytes) : Decidable (IsName name) :=
  decidable_of_iff
    (name ≠ [] ∧ name ≠ lit "." ∧ name ≠ lit ".." ∧ chr '/' ∉ name)
    ⟨fun ⟨hne, hdot, hdotdot, hslash⟩ => ⟨hne, hdot, hdotdot, hslash⟩,
      fun ⟨hne, hdot, hdotdot, hslash⟩ => ⟨hne, hdot, hdotdot, hslash⟩⟩

/-- Components without a marker, a backslash or a NUL, joined by slashes. -/
structure Plain (value : Bytes) : Prop where
  nul_not_mem : nul ∉ value
  backslash_not_mem : chr '\\' ∉ value
  colon_not_mem : chr ':' ∉ value
  names : ∀ part ∈ value.splitOn (chr '/'), IsName part

theorem joinOn_splitOn (value : Bytes) : joinOn (chr '/') (value.splitOn (chr '/')) = value := by
  simp [joinOn]

/-- A plain path is what the filesystem layer accepts and returns. -/
theorem Plain.cleanRelative {value : Bytes} (h : Plain value) : cleanRelative value = .ok value := by
  have hmarker : needsRelativeMarker value = false := by
    rw [Bool.eq_false_iff]
    intro hmarker
    obtain ⟨d, rest, -, rfl⟩ := needsRelativeMarker_iff.1 hmarker
    exact h.colon_not_mem (List.mem_cons_of_mem d List.mem_cons_self)
  have hhead := head?_joinOn_ne_slash h.names
  rw [joinOn_splitOn] at hhead
  have hclean := cleanRelative_joinOn h.names (List.splitOn_ne_nil _ _)
  rw [joinOn_splitOn] at hclean
  exact hclean ⟨h.nul_not_mem, h.backslash_not_mem, hhead, hmarker⟩

theorem plain_append_iff {front behind : Bytes} :
    Plain (front ++ chr '/' :: behind) ↔ Plain front ∧ Plain behind := by
  have hmem : ∀ c : UInt8, c ≠ chr '/' →
      (c ∉ front ++ chr '/' :: behind ↔ c ∉ front ∧ c ∉ behind) := by
    intro c hc
    rw [List.mem_append, List.mem_cons, or_iff_right hc, not_or]
  have hnul := hmem nul (by decide)
  have hback := hmem (chr '\\') (by decide)
  have hcolon := hmem (chr ':') (by decide)
  constructor
  · intro h
    have hnames := h.names
    rw [List.splitOn_append_cons_self] at hnames
    refine ⟨⟨(hnul.1 h.nul_not_mem).1, (hback.1 h.backslash_not_mem).1,
      (hcolon.1 h.colon_not_mem).1, ?_⟩, ⟨(hnul.1 h.nul_not_mem).2, (hback.1 h.backslash_not_mem).2,
      (hcolon.1 h.colon_not_mem).2, ?_⟩⟩
    · intro part hpart
      exact hnames part (List.mem_append_left _ hpart)
    · intro part hpart
      exact hnames part (List.mem_append_right _ hpart)
  · intro ⟨hfront, hbehind⟩
    refine ⟨hnul.2 ⟨hfront.nul_not_mem, hbehind.nul_not_mem⟩,
      hback.2 ⟨hfront.backslash_not_mem, hbehind.backslash_not_mem⟩,
      hcolon.2 ⟨hfront.colon_not_mem, hbehind.colon_not_mem⟩, ?_⟩
    rw [List.splitOn_append_cons_self]
    intro part hpart
    rcases List.mem_append.1 hpart with hpart | hpart
    · exact hfront.names part hpart
    · exact hbehind.names part hpart

/-! ## What the policy accepts -/

/-- An accepted path is plain, and is returned unchanged. -/
theorem validateInput_ok {raw clean : Bytes} (h : validateUnityMCPScopedRelativeInput raw = .ok clean) :
    clean = raw ∧ Plain raw := by
  rw [validateUnityMCPScopedRelativeInput] at h
  split_ifs at h with hempty hnul hfile hencoded habsolute hdrive hback hlong
  iterate 7 cases h
  · obtain ⟨-, -, hlength⟩ := bind_eq_ok_iff.1 h
    cases hlength
  · obtain ⟨⟨⟩, hparts, hclean⟩ := bind_eq_ok_iff.1 h
    have hpart : ∀ part ∈ raw.splitOn (chr '/'),
        part ≠ [] ∧ part ≠ lit "." ∧ part ≠ lit ".." ∧ chr ':' ∉ part := by
      intro part hmem
      have hok := validateScopedPart_eq_ok_iff.1 (validateScopedParts_eq_ok_iff.1 hparts part hmem)
      exact ⟨hok.1, hok.2.1, hok.2.2.1, hok.2.2.2.1⟩
    refine ⟨(Except.ok.inj hclean).symm, hnul, hback, ?_, ?_⟩
    · -- a colon would lie in a component
      intro hcolon
      rw [← joinOn_splitOn raw] at hcolon
      rcases mem_joinOn hcolon with hslash | ⟨part, hmem, hcolon⟩
      · exact absurd hslash (by decide)
      · exact (hpart part hmem).2.2.2 hcolon
    · intro part hmem
      obtain ⟨hne, hdot, hdotdot, -⟩ := hpart part hmem
      exact ⟨hne, hdot, hdotdot, not_mem_of_mem_splitOn hmem⟩

theorem startsWithAny_iff {value : Bytes} {roots : List String} :
    startsWithAny value roots = true ↔
      ∃ root ∈ roots, value = lit root ∨ ∃ tail, value = lit root ++ chr '/' :: tail := by
  rw [startsWithAny, List.any_eq_true]
  refine exists_congr fun root => and_congr_right fun _ => ?_
  rw [Bool.or_eq_true, beq_iff_eq, hasPrefix_iff]
  refine or_congr_right (exists_congr fun tail => ?_)
  rw [List.append_assoc]
  rfl

/-! ## The cut -/

theorem cutFirst_append {first rest : Bytes} (h : chr '/' ∉ first) :
    cutFirst (first ++ chr '/' :: rest) = (first, rest) := by
  rw [cutFirst, cut_eq_some_iff.2 ⟨rfl, h⟩]

theorem cutFirst_of_slash_not_mem {first : Bytes} (h : chr '/' ∉ first) :
    cutFirst first = (first, lit ".") := by
  rw [cutFirst, cut_eq_none_iff.2 h]

/-- The first component and what is behind it. -/
theorem exists_cutFirst {raw : Bytes} (h : Plain raw) :
    ∃ first rest, cutFirst raw = (first, rest) ∧ Plain first ∧
      (raw.splitOn (chr '/')).head? = some first ∧
      ((rest = lit "." ∧ raw = first) ∨
        (rest ≠ lit "." ∧ Plain rest ∧ raw = first ++ chr '/' :: rest)) := by
  rcases hcut : cut (chr '/') raw with _ | ⟨first, rest⟩
  · have hslash := cut_eq_none_iff.1 hcut
    refine ⟨raw, lit ".", cutFirst_of_slash_not_mem hslash, h, ?_, .inl ⟨rfl, rfl⟩⟩
    rw [List.splitOn_eq_singleton hslash]
    rfl
  · obtain ⟨rfl, hslash⟩ := cut_eq_some_iff.1 hcut
    obtain ⟨hfirst, hrest⟩ := plain_append_iff.1 h
    refine ⟨first, rest, cutFirst_append hslash, hfirst, ?_, .inr ⟨?_, hrest, rfl⟩⟩
    · rw [List.splitOn_append_cons_self_of_not_mem hslash]
      rfl
    · intro hdot
      rw [hdot] at hrest
      exact (hrest.names (lit ".") (by decide)).ne_dot rfl

/-- A path below a root is cut at the root. -/
theorem cutFirst_root {raw : Bytes} {root : String} (hroot : chr '/' ∉ (lit root : Bytes))
    (h : raw = lit root ∨ ∃ tail, raw = lit root ++ chr '/' :: tail) : (cutFirst raw).1 = lit root := by
  rcases h with rfl | ⟨tail, rfl⟩
  · rw [cutFirst_of_slash_not_mem hroot]
  · rw [cutFirst_append hroot]

/-! ## One file -/

/-- The directory that a scope confines its anchors to. -/
def InFixedRoot (scope : UnityMCPPathScope) (raw anchor : Bytes) : Prop :=
  match scope with
  | .unityAsset => anchor = lit "Assets" ∨ anchor = lit "Packages"
  | .packageManifest => anchor = lit "Packages"
  | .knowledge => anchor = lit "Assets/UnityMcpKnowledge"
  | .artifact =>
      anchor = lit "Library/SGGUnityMcp/job-artifacts" ∨
        anchor = lit "Library/SGGUnityMcp/screenshots"
  | .tempSession =>
      ∃ first, (raw.splitOn (chr '/')).head? = some first ∧
        anchor = lit "Temp/SGGUnityMcp/" ++ first
  | .gatewayCache => False
  | .other _ => False

/-- An anchor and a suffix for a path: together they spell it, and the filesystem layer takes each of
them unchanged. -/
structure Names (path anchor suffix : Bytes) : Prop where
  spelling : (suffix = lit "." ∧ anchor = path) ∨
    (suffix ≠ lit "." ∧ anchor ++ lit "/" ++ suffix = path)
  anchor_clean : cleanRelative anchor = .ok anchor
  suffix_clean : cleanRelative suffix = .ok suffix

theorem names_cutFirst {raw first rest : Bytes} (h : Plain raw) (hcut : cutFirst raw = (first, rest)) :
    Names raw first rest := by
  obtain ⟨first', rest', hcut', hfirst, -, hspelling⟩ := exists_cutFirst h
  rw [hcut] at hcut'
  cases hcut'
  rcases hspelling with ⟨rfl, rfl⟩ | ⟨hdot, hrest, rfl⟩
  · exact ⟨.inl ⟨rfl, rfl⟩, hfirst.cleanRelative, rfl⟩
  · refine ⟨.inr ⟨hdot, ?_⟩, hfirst.cleanRelative, hrest.cleanRelative⟩
    rw [List.append_assoc]
    rfl

/-- A fixed directory in front of the anchor. -/
theorem Names.below {path anchor suffix : Bytes} (h : Names path anchor suffix) {root : Bytes}
    (hroot : Plain root) (hanchor : Plain anchor) :
    Names (root ++ lit "/" ++ path) (root ++ lit "/" ++ anchor) suffix := by
  have hplain : Plain (root ++ lit "/" ++ anchor) := by
    rw [List.append_assoc]
    exact plain_append_iff.2 ⟨hroot, hanchor⟩
  refine ⟨?_, hplain.cleanRelative, h.suffix_clean⟩
  rcases h.spelling with ⟨hdot, hpath⟩ | ⟨hdot, hpath⟩
  · exact .inl ⟨hdot, by rw [hpath]⟩
  · refine .inr ⟨hdot, ?_⟩
    rw [← hpath]
    simp only [List.append_assoc]

theorem InFixedRoot.ne_dot {scope : UnityMCPPathScope} {raw anchor : Bytes}
    (h : InFixedRoot scope raw anchor) : anchor ≠ lit "." := by
  cases scope with
  | unityAsset =>
      rcases h with rfl | rfl <;> decide
  | knowledge =>
      rw [show anchor = _ from h]
      decide
  | packageManifest =>
      rw [show anchor = _ from h]
      decide
  | artifact =>
      rcases h with rfl | rfl <;> decide
  | gatewayCache =>
      exact h.elim
  | tempSession =>
      obtain ⟨first, -, rfl⟩ := h
      intro hdot
      have hhead : some (chr 'T' : UInt8) = some (chr '.') := congrArg List.head? hdot
      exact absurd hhead (by decide)
  | other name =>
      exact h.elim

theorem scopedProjectPath_ok {scope : UnityMCPPathScope} {path : Bytes} {allowed : Bool}
    {result : ScopedPathResult} (h : scopedProjectPath scope path allowed = .ok result) :
    allowed = true ∧ result = { scope := scope, kind := .project, path := path } := by
  rw [scopedProjectPath] at h
  split_ifs at h with hallowed
  · exact ⟨hallowed, (Except.ok.inj h).symm⟩
  · cases h

theorem prefixedScopedProjectPath_ok {scope : UnityMCPPathScope} {root : String} {path : Bytes}
    {allowed : Bool} {result : ScopedPathResult}
    (h : prefixedScopedProjectPath scope root path allowed = .ok result) :
    allowed = true ∧
      result = { scope := scope, kind := .project, path := lit root ++ lit "/" ++ path } := by
  rw [prefixedScopedProjectPath] at h
  split_ifs at h with hallowed
  · exact ⟨hallowed, (Except.ok.inj h).symm⟩
  · cases h

theorem packageManifestPath_ok {scope : UnityMCPPathScope} {path : Bytes} {result : ScopedPathResult}
    (h : packageManifestPath scope path = .ok result) :
    (path = lit "Packages/manifest.json" ∨ path = lit "Packages/packages-lock.json") ∧
      result = { scope := scope, kind := .project, path := path } := by
  rw [packageManifestPath] at h
  split_ifs at h with hbelow
  · cases h
  · obtain ⟨hallowed, hresult⟩ := scopedProjectPath_ok h
    rw [Bool.or_eq_true, beq_iff_eq, beq_iff_eq] at hallowed
    exact ⟨hallowed, hresult⟩

theorem plain_scope_roots :
    Plain (lit "Assets/UnityMcpKnowledge") ∧ Plain (lit "Library/SGGUnityMcp") ∧
      Plain (lit "Temp/SGGUnityMcp") := by
  refine ⟨⟨?_, ?_, ?_, ?_⟩, ⟨?_, ?_, ?_, ?_⟩, ⟨?_, ?_, ?_, ?_⟩⟩ <;> decide

theorem exists_names {scope : UnityMCPPathScope} (hscope : scope ≠ .gatewayCache) {raw : Bytes}
    {result : ScopedPathResult} (h : normalizeUnityMCPScopedPath scope raw = .ok result) :
    ∃ anchor suffix, scopedAnchor scope raw = (anchor, suffix) ∧ InFixedRoot scope raw anchor ∧
      Names result.path anchor suffix := by
  obtain ⟨clean, hvalid, hpolicy⟩ := bind_eq_ok_iff.1 h
  obtain ⟨rfl, hplain⟩ := validateInput_ok hvalid
  -- the anchor is the first component, alone or behind the root of the scope
  obtain ⟨first, rest, hcut, hfirst, hhead, -⟩ := exists_cutFirst hplain
  have hfirst' : (cutFirst clean).1 = first := congrArg Prod.fst hcut
  have hnames := names_cutFirst hplain hcut
  obtain ⟨hknowledge, hlibrary, htemp⟩ := plain_scope_roots
  cases scope with
  | unityAsset =>
      obtain ⟨hallowed, rfl⟩ := scopedProjectPath_ok hpolicy
      refine ⟨first, rest, ?_, ?_, hnames⟩
      · rw [scopedAnchor, hcut]
      · obtain ⟨root, hroot, hpath⟩ := startsWithAny_iff.1 hallowed
        rw [InFixedRoot, ← hfirst']
        simp only [List.mem_cons, List.not_mem_nil, or_false] at hroot
        -- an allowed root is the first component of the path
        rcases hroot with rfl | rfl
        · exact .inl (cutFirst_root (by decide) hpath)
        · exact .inr (cutFirst_root (by decide) hpath)
  | knowledge =>
      obtain ⟨-, rfl⟩ := prefixedScopedProjectPath_ok hpolicy
      refine ⟨lit "Assets/UnityMcpKnowledge", clean, ?_, rfl, .inr ⟨?_, rfl⟩,
        hknowledge.cleanRelative, hplain.cleanRelative⟩
      · rw [scopedAnchor, hcut]
      · intro hdot
        rw [hdot] at hplain
        exact (hplain.names (lit ".") (by decide)).ne_dot rfl
  | packageManifest =>
      obtain ⟨hallowed, rfl⟩ := packageManifestPath_ok hpolicy
      refine ⟨first, rest, ?_, ?_, hnames⟩
      · rw [scopedAnchor, hcut]
      · rw [InFixedRoot, ← hfirst']
        rcases hallowed with rfl | rfl
        · exact cutFirst_root (by decide) (.inr ⟨lit "manifest.json", rfl⟩)
        · exact cutFirst_root (by decide) (.inr ⟨lit "packages-lock.json", rfl⟩)
  | artifact =>
      obtain ⟨hallowed, rfl⟩ := prefixedScopedProjectPath_ok hpolicy
      refine ⟨lit "Library/SGGUnityMcp" ++ lit "/" ++ first, rest, ?_, ?_,
        hnames.below hlibrary hfirst⟩
      · rw [scopedAnchor, hcut]
        rfl
      · obtain ⟨root, hroot, hpath⟩ := startsWithAny_iff.1 hallowed
        rw [InFixedRoot, ← hfirst']
        simp only [List.mem_cons, List.not_mem_nil, or_false] at hroot
        rcases hroot with rfl | rfl
        · left
          rw [cutFirst_root (by decide) hpath]
          rfl
        · right
          rw [cutFirst_root (by decide) hpath]
          rfl
  | gatewayCache =>
      exact absurd rfl hscope
  | tempSession =>
      obtain ⟨-, rfl⟩ := prefixedScopedProjectPath_ok hpolicy
      refine ⟨lit "Temp/SGGUnityMcp" ++ lit "/" ++ first, rest, ?_, ⟨first, hhead, rfl⟩,
        hnames.below htemp hfirst⟩
      rw [scopedAnchor, hcut]
      rfl
  | other name =>
      cases hpolicy

/-- What the policy accepts, the daemon opens under the same name. -/
theorem scopedAnchor_names_path {scope : UnityMCPPathScope} (hscope : scope ≠ .gatewayCache)
    {raw : Bytes} {result : ScopedPathResult} (h : normalizeUnityMCPScopedPath scope raw = .ok result) :
    ∃ anchor suffix, scopedAnchor scope raw = (anchor, suffix) ∧
      ((suffix = lit "." ∧ anchor = result.path) ∨
        (suffix ≠ lit "." ∧ anchor ++ lit "/" ++ suffix = result.path)) ∧
      anchor ≠ lit "." ∧ InFixedRoot scope raw anchor ∧
      cleanRelative anchor = .ok anchor ∧ cleanRelative suffix = .ok suffix := by
  obtain ⟨anchor, suffix, hanchor, hroot, hnames⟩ := exists_names hscope h
  exact ⟨anchor, suffix, hanchor, hnames.spelling, hroot.ne_dot, hroot, hnames.anchor_clean,
    hnames.suffix_clean⟩

theorem scopedAnchor_names_path_asset :
    ∃ anchor suffix, scopedAnchor .unityAsset (lit "Assets/a b/c.txt") = (anchor, suffix) ∧
      ((suffix = lit "." ∧ anchor = lit "Assets/a b/c.txt") ∨
        (suffix ≠ lit "." ∧ anchor ++ lit "/" ++ suffix = lit "Assets/a b/c.txt")) ∧
      anchor ≠ lit "." ∧ InFixedRoot .unityAsset (lit "Assets/a b/c.txt") anchor ∧
      cleanRelative anchor = .ok anchor ∧ cleanRelative suffix = .ok suffix := by
  have hallowed : normalizeUnityMCPScopedPath .unityAsset (lit "Assets/a b/c.txt") =
      .ok { scope := .unityAsset, kind := .project, path := lit "Assets/a b/c.txt" } := by
    decide
  exact scopedAnchor_names_path (by decide) hallowed

/-- The scope is handed through, and the cache is no project scope. -/
theorem normalize_scope {scope : UnityMCPPathScope} {raw : Bytes} {result : ScopedPathResult}
    (h : normalizeUnityMCPScopedPath scope raw = .ok result) :
    result.scope = scope ∧ (result.kind = .project → scope ≠ .gatewayCache) := by
  obtain ⟨clean, -, hpolicy⟩ := bind_eq_ok_iff.1 h
  cases scope with
  | unityAsset =>
      obtain ⟨-, rfl⟩ := scopedProjectPath_ok hpolicy
      exact ⟨rfl, fun _ => by decide⟩
  | knowledge =>
      obtain ⟨-, rfl⟩ := prefixedScopedProjectPath_ok hpolicy
      exact ⟨rfl, fun _ => by decide⟩
  | packageManifest =>
      obtain ⟨-, rfl⟩ := packageManifestPath_ok hpolicy
      exact ⟨rfl, fun _ => by decide⟩
  | artifact =>
      obtain ⟨-, rfl⟩ := prefixedScopedProjectPath_ok hpolicy
      exact ⟨rfl, fun _ => by decide⟩
  | gatewayCache =>
      by_cases hindex : startsWithAny clean ["index"] = true
      · simp only [if_pos hindex] at hpolicy
        cases hpolicy
        exact ⟨rfl, fun hkind => nomatch hkind⟩
      · simp only [if_neg hindex] at hpolicy
        cases hpolicy
  | tempSession =>
      obtain ⟨-, rfl⟩ := prefixedScopedProjectPath_ok hpolicy
      exact ⟨rfl, fun _ => by decide⟩
  | other name =>
      cases hpolicy

theorem openScopedRoot_of_names {path anchor suffix : Bytes} (h : Names path anchor suffix)
    (hdot : anchor ≠ lit ".") : openScopedRoot anchor = .ok anchor := by
  rw [openScopedRoot, h.anchor_clean, ok_bind, if_neg hdot]

/-- The handle a scoped request opens and the name it uses below it spell the path it reports. -/
theorem decodeScopedRootRequest_names_path {req : ScopedRequest} {requiredOperation : String}
    {root : ScopedRoot} (h : decodeScopedRootRequest req requiredOperation = .ok root) :
    Names root.scopedPath root.anchor root.suffix ∧ InFixedRoot req.scope req.path root.anchor := by
  rw [decodeScopedRootRequest] at h
  split_ifs at h with hoperation
  · rcases hnormalize : normalizeUnityMCPScopedPath req.scope req.path with error | result
    · rw [hnormalize] at h
      cases h
    · rw [hnormalize] at h
      obtain ⟨hscope, hproject⟩ := normalize_scope hnormalize
      by_cases hkind : result.kind = .project
      · obtain ⟨anchor, suffix, hanchor, hroot, hnames⟩ := exists_names (hproject hkind) hnormalize
        have hopen := openScopedRoot_of_names hnames hroot.ne_dot
        simp only [hkind, hscope, hanchor, hopen, ne_eq, not_true_eq_false, if_false] at h
        split_ifs at h with hallowed hmanifest
        cases h
        exact ⟨hnames, hroot⟩
      · simp only [ne_eq, hkind] at h
        cases h

end Daemon

end CanonicalPath
