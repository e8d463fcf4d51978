import CanonicalPath.Go.Scoped
import CanonicalPath.TS.Relative

/-!
# TS scoped — the lexical scope policy

`normalizeScopedPath` of `path-service.ts`.  The scopes and the kinds are the strings of the Go port; any
other string reaches the default branch.  Lengths are counted in units.
-/

namespace CanonicalPath

namespace TS

open CodeUnit Segments

open Go (UnityMCPPathScope ScopedPathKind)

structure ScopedPathResult (α : Type) where
  scope : UnityMCPPathScope
  kind : ScopedPathKind
  path : List α
  deriving DecidableEq, Repr

variable {α : Type} [DecidableEq α] [CodeUnit α]

/-! ## Validation -/

/-- `/^file:\/\//i`. -/
def isFileUri (raw : List α) : Bool :=
  matches? (Pattern.anyCase "file://") raw

/-- `/%(?:2f|5c|252f|255c)/i`. -/
def hasEncodedScopedSeparator (raw : List α) : Bool :=
  occurs? (Pattern.anyCase "%2f") raw || occurs? (Pattern.anyCase "%5c") raw ||
    occurs? (Pattern.anyCase "%252f") raw || occurs? (Pattern.anyCase "%255c") raw

/-- `/^[A-Za-z]:[\\/]/`. -/
def isDriveAbsolute : List α → Bool
  | a :: b :: c :: _ => isLetter a && b == chr ':' && (c == chr '\\' || c == chr '/')
  | _ => false

/-- `/^[A-Za-z]:($|[^\\/])/`. -/
def isDriveQualified : List α → Bool
  | a :: b :: more =>
      isLetter a && b == chr ':' &&
        match more with
        | [] => true
        | c :: _ => !(c == chr '\\' || c == chr '/')
  | _ => false

def isInvalidPart (part : List α) : Bool :=
  part == [] || part == lit "." || decide (chr ':' ∈ part) || endsWith part (lit ".") || endsWith part (lit " ")

def validateScopedRelativeInput (raw : List α) : Except PathError (List α) :=
  if raw = [] then
    newError .emptyPath "scoped path is empty"
  else if nul ∈ raw then
    newError .nulByte "scoped path contains NUL"
  else if isFileUri raw then
    newError .unsupportedURIScheme "file URI is not allowed"
  else if hasEncodedScopedSeparator raw then
    newError .encodedSeparator "encoded path separators are not allowed"
  else if startsWith raw (lit "/") || startsWith raw (lit "\\\\") || isDriveAbsolute raw then
    newError .absolutePath "scoped path must be relative"
  else if isDriveQualified raw then
    newError .driveRelativePath "drive-relative scoped paths are not allowed"
  else if chr '\\' ∈ raw then
    newError .invalidPath "scoped paths must use slash separators"
  else if (raw.splitOn (chr '/')).any (· == lit "..") then
    newError .outsideRoot "scoped path traversal is not allowed"
  else if (raw.splitOn (chr '/')).any isInvalidPart then
    newError .invalidPath "scoped path contains an invalid component"
  else if raw.length > 4096 || (raw.splitOn (chr '/')).any (fun part => part.length > 255) then
    newError .invalidPath "scoped path exceeds length limits"
  else
    .ok raw

/-! ## Policy -/

def startsWithAny (value : List α) (roots : List String) : Bool :=
  roots.any fun root => value == lit root || startsWith value (lit root ++ lit "/")

def isPlainScopeRelative (value : List α) : Bool :=
  !startsWithAny value
    ["Assets", "AssetsEvil", "Packages", "PackagesEvil", "ProjectSettings", "Library", "Temp",
      "UnityMcpKnowledge", "UnityMcpKnowledgeEvil", "UnityMcpArtifacts", "UnityMcpGatewayCache",
      "UnityMcpTempSession"]

def scopedProjectPath (scope : UnityMCPPathScope) (path : List α) (allowed : Bool) :
    Except PathError (ScopedPathResult α) :=
  if allowed then
    .ok { scope := scope, kind := .project, path := path }
  else
    newError .outsideRoot "scoped path is outside its allowed root"

def packageManifestPath (scope : UnityMCPPathScope) (path : List α) : Except PathError (ScopedPathResult α) :=
  if startsWith path (lit "Packages/manifest.json/") || startsWith path (lit "Packages/packages-lock.json/") then
    newError .invalidPath "package manifest scope only accepts exact manifest files"
  else
    scopedProjectPath scope path
      (path == lit "Packages/manifest.json" || path == lit "Packages/packages-lock.json")

def prefixedScopedProjectPath (scope : UnityMCPPathScope) (root : String) (path : List α) (allowed : Bool) :
    Except PathError (ScopedPathResult α) :=
  if allowed then
    .ok { scope := scope, kind := .project, path := lit root ++ lit "/" ++ path }
  else
    newError .outsideRoot "scoped path is outside its allowed root"

/-- The switch of `normalizeScopedPath`, on the validated path. -/
def applyScope (scope : UnityMCPPathScope) (clean : List α) : Except PathError (ScopedPathResult α) :=
  match scope with
  | .unityAsset => scopedProjectPath scope clean (startsWithAny clean ["Assets", "Packages"])
  | .packageManifest => packageManifestPath scope clean
  | .knowledge =>
      prefixedScopedProjectPath scope "Assets/UnityMcpKnowledge" clean (isPlainScopeRelative clean)
  | .artifact =>
      prefixedScopedProjectPath scope "Library/SGGUnityMcp" clean
        (startsWithAny clean ["job-artifacts", "screenshots"])
  | .gatewayCache =>
      if startsWithAny clean ["index"] then
        .ok { scope := scope, kind := .cache, path := clean }
      else
        newError .outsideRoot "gateway cache path must be under index/"
  | .tempSession =>
      prefixedScopedProjectPath scope "Temp/SGGUnityMcp" clean (isPlainScopeRelative clean)
  | .other _ => newError .invalidPath "unsupported Unity MCP path scope"

def normalizeScopedPath (scope : UnityMCPPathScope) (raw : List α) : Except PathError (ScopedPathResult α) := do
  let clean ← validateScopedRelativeInput raw
  applyScope scope clean

end TS

end CanonicalPath
