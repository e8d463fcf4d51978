import CanonicalPath.Go.URI
import CanonicalPath.Library.Outcome

/-!
# Go scoped — the lexical scope policy

`unity_mcp_scoped.go` of the Go port, on bytes: a path below a named scope is validated and resolved
to a path below the project (or below a cache), without looking at any file.
-/

namespace CanonicalPath

namespace Go

open CodeUnit Segments

/-! ## Text functions -/

/-- `strings.ToLower`, up to bytes beyond ASCII: two letters there have an ASCII lower case, the dotted
capital I (`C4 B0`) and the Kelvin sign (`E2 84 AA`). -/
def toLower : Bytes → Bytes
  | [] => []
  | 0xC4 :: 0xB0 :: value => chr 'i' :: toLower value
  | 0xE2 :: 0x84 :: 0xAA :: value => chr 'k' :: toLower value
  | a :: value => lower a :: toLower value

/-- `strings.Contains`. -/
def contains (value needle : Bytes) : Bool :=
  (before needle value).isSome

/-- The bytes of the first rune; a byte that begins none is read alone. -/
def runeWidth (value : Bytes) : Nat :=
  match (ByteArray.mk value.toArray).utf8DecodeChar? 0 with
  | some c => c.utf8Size
  | none => 1

/-- The number of runes that begin behind `skip` bytes. -/
def runeCountFrom : Nat → Bytes → Nat
  | _, [] => 0
  | 0, a :: value => runeCountFrom (runeWidth (a :: value) - 1) value + 1
  | skip + 1, _ :: value => runeCountFrom skip value

/-- `len([]rune(value))`. -/
def runeCount (value : Bytes) : Nat :=
  runeCountFrom 0 value

/-! ## Scopes -/

inductive UnityMCPPathScope
  | unityAsset
  | knowledge
  | packageManifest
  | artifact
  | gatewayCache
  | tempSession
  | other (name : String)
  deriving DecidableEq, Repr

inductive ScopedPathKind
  | project
  | cache
  deriving DecidableEq, Repr

structure ScopedPathResult where
  scope : UnityMCPPathScope
  kind : ScopedPathKind
  path : Bytes
  deriving DecidableEq, Repr

/-! ## Validation -/

def hasEncodedScopedSeparator (value : Bytes) : Bool :=
  let lowered := toLower value
  contains lowered (lit "%2f") || contains lowered (lit "%5c") || contains lowered (lit "%252f") ||
    contains lowered (lit "%255c")

/-- One turn of the loop over the components. -/
def validateScopedPart (part : Bytes) : Except PathError Unit :=
  if part = [] ∨ part = lit "." then
    newError .invalidPath "scoped path contains an invalid component"
  else if part = lit ".." then
    newError .outsideRoot "scoped path traversal is not allowed"
  else if chr ':' ∈ part ∨ hasSuffix part (lit ".") ∨ hasSuffix part (lit " ") then
    newError .invalidPath "scoped path contains an invalid component"
  else if runeCount part > 255 then
    newError .invalidPath "scoped path component exceeds length limit"
  else
    .ok ()

def validateScopedParts : List Bytes → Except PathError Unit
  | [] => .ok ()
  | part :: more => do
      validateScopedPart part
      validateScopedParts more

theorem validateScopedPart_eq_ok_iff {part : Bytes} :
    validateScopedPart part = .ok () ↔ part ≠ [] ∧ part ≠ lit "." ∧ part ≠ lit ".." ∧ chr ':' ∉ part ∧
      hasSuffix part (lit ".") = false ∧ hasSuffix part (lit " ") = false ∧ runeCount part ≤ 255 := by
  rw [validateScopedPart]
  split_ifs with hstay hup hinvalid hlong
  · simp only [newError, reduceCtorEq, false_iff]
    intro h
    exact hstay.elim h.1 h.2.1
  · simp only [newError, reduceCtorEq, false_iff]
    intro h
    exact h.2.2.1 hup
  · simp only [newError, reduceCtorEq, false_iff]
    intro h
    rcases hinvalid with hcolon | hdot | hspace
    · exact h.2.2.2.1 hcolon
    · exact Bool.eq_false_iff.1 h.2.2.2.2.1 hdot
    · exact Bool.eq_false_iff.1 h.2.2.2.2.2.1 hspace
  · simp only [newError, reduceCtorEq, false_iff]
    intro h
    exact Nat.not_le_of_gt hlong h.2.2.2.2.2.2
  · rw [not_or] at hstay hinvalid
    rw [not_or] at hinvalid
    simp only [true_iff]
    exact ⟨hstay.1, hstay.2, hup, hinvalid.1, Bool.eq_false_iff.2 hinvalid.2.1, Bool.eq_false_iff.2 hinvalid.2.2,
      Nat.le_of_not_gt hlong⟩

theorem validateScopedParts_eq_ok_iff {parts : List Bytes} :
    validateScopedParts parts = .ok () ↔ ∀ part ∈ parts, validateScopedPart part = .ok () := by
  induction parts with
  | nil =>
      exact iff_of_true rfl fun part hpart => absurd hpart List.not_mem_nil
  | cons part parts ih =>
      rw [List.forall_mem_cons, ← ih, validateScopedParts, Outcome.bind_eq_ok_iff]
      constructor
      · intro ⟨_, hpart, hparts⟩
        exact ⟨hpart, hparts⟩
      · intro ⟨hpart, hparts⟩
        exact ⟨(), hpart, hparts⟩

def validateUnityMCPScopedRelativeInput (raw : Bytes) : Except PathError Bytes :=
  if raw = [] then
    newError .emptyPath "scoped path is empty"
  else if nul ∈ raw then
    newError .nulByte "scoped path contains NUL"
  else if hasPrefix (toLower raw) (lit "file://") then
    newError .unsupportedURIScheme "file URI is not allowed"
  else if hasEncodedScopedSeparator raw then
    newError .encodedSeparator "encoded path separators are not allowed"
  else if hasPrefix raw (lit "/") || hasPrefix raw (lit "\\\\") ||
      hasDriveRoot (replaceAll '\\' '/' raw) then
    newError .absolutePath "scoped path must be relative"
  else if isDriveRelative raw then
    newError .driveRelativePath "drive-relative scoped paths are not allowed"
  else if chr '\\' ∈ raw then
    newError .invalidPath "scoped paths must use slash separators"
  else do
    validateScopedParts (raw.splitOn (chr '/'))
    if runeCount raw > 4096 then
      newError .invalidPath "scoped path exceeds length limit"
    else
      .ok raw

/-! ## Policy -/

def startsWithAny (value : Bytes) (roots : List String) : Bool :=
  roots.any fun root => value == lit root || hasPrefix value (lit root ++ lit "/")

def isPlainScopeRelative (value : Bytes) : Bool :=
  !startsWithAny value
    ["Assets", "AssetsEvil", "Packages", "PackagesEvil", "ProjectSettings", "Library", "Temp",
      "UnityMcpKnowledge", "UnityMcpKnowledgeEvil", "UnityMcpArtifacts", "UnityMcpGatewayCache",
      "UnityMcpTempSession"]

def scopedProjectPath (scope : UnityMCPPathScope) (path : Bytes) (allowed : Bool) :
    Except PathError ScopedPathResult :=
  if allowed then
    .ok { scope := scope, kind := .project, path := path }
  else
    newError .outsideRoot "scoped path is outside its allowed root"

def packageManifestPath (scope : UnityMCPPathScope) (path : Bytes) :
    Except PathError ScopedPathResult :=
  if hasPrefix path (lit "Packages/manifest.json/") ||
      hasPrefix path (lit "Packages/packages-lock.json/") then
    newError .invalidPath "package manifest scope only accepts exact manifest files"
  else
    scopedProjectPath scope path
      (path == lit "Packages/manifest.json" || path == lit "Packages/packages-lock.json")

def prefixedScopedProjectPath (scope : UnityMCPPathScope) (root : String) (path : Bytes)
    (allowed : Bool) : Except PathError ScopedPathResult :=
  if allowed then
    .ok { scope := scope, kind := .project, path := lit root ++ lit "/" ++ path }
  else
    newError .outsideRoot "scoped path is outside its allowed root"

def normalizeUnityMCPScopedPath (scope : UnityMCPPathScope) (raw : Bytes) :
    Except PathError ScopedPathResult := do
  let clean ← validateUnityMCPScopedRelativeInput raw
  match scope with
  | .unityAsset => scopedProjectPath scope clean (startsWithAny clean ["Assets", "Packages"])
  | .packageManifest => packageManifestPath scope clean
  | .knowledge =>
      prefixedScopedProjectPath scope "Assets/UnityMcpKnowledge" clean (isPlainScopeRelative clean)
  | .artifact =>
      prefixedScopedProjectPath scope "Library/SGGUnityMcp" clean
        (startsWithAny clean ["job-artifacts", "screenshots"])
  | .gatewayCache =>
      if startsWithAny clean ["index"] then
        .ok { scope := scope, kind := .cache, path := clean }
      else
        newError .outsideRoot "gateway cache path must be under index/"
  | .tempSession =>
      prefixedScopedProjectPath scope "Temp/SGGUnityMcp" clean (isPlainScopeRelative clean)
  | .other _ => newError .invalidPath "unsupported Unity MCP path scope"

end Go

end CanonicalPath
