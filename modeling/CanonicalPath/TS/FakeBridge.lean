import CanonicalPath.Library.Keyed
import CanonicalPath.TS.Broker
import CanonicalPath.TS.Scoped

/-!
# TS fake bridge — the scoped text store of the gateway

`fake-bridge.ts`, as far as it keeps scoped texts: the construction from seeds, `writeScopedText`, `readScopedText`
and `listScoped`.  The map keeps the order of insertion; the counter is a JavaScript number.  A method that
throws may already have written, so a writer returns its outcome and what it leaves behind.

* `scopedFileKey` : the key of a text
* `storeScopedText` : the accounting of one text
* `create` : the seeds of the constructor
* `scopedEntries` : the scan below a query budget
-/

namespace CanonicalPath

namespace TS

open CodeUnit Segments

open Go (UnityMCPPathScope)

/-! ## Limits -/

def maxScopedEntriesExamined : Nat := 10000

def maxScopedStoredEntries : Nat := 10000

def maxScopedStoredUnits : Nat := 8388608

def maxScopedValueUnits : Nat := 1048576

def maxScopedQueryWork : Nat := 4000000

/-! ## Arguments -/

/-- A number argument: `Number.isInteger`, or any other one. -/
inductive Number
  | integer (value : Int)
  | other

/-- A text argument: `typeof text === "string"`, or anything else. -/
inductive Text
  | string (value : Units)
  | other

def boundedPositiveInteger (value : Option Number) (defaultValue hardCap : Nat) (label : String) :
    Except PathError Nat :=
  match value with
  | none => .ok defaultValue
  | some .other => newError .invalidPath (label ++ " must be a positive integer")
  | some (.integer value) =>
      if value < 1 then
        newError .invalidPath (label ++ " must be a positive integer")
      else if value > hardCap then
        newError .invalidPath (label ++ " exceeds hard cap")
      else
        .ok value.toNat

/-- The string of a scope. -/
def scopeName : UnityMCPPathScope → String
  | .unityAsset => "unity_asset"
  | .knowledge => "knowledge"
  | .packageManifest => "package_manifest"
  | .artifact => "artifact"
  | .gatewayCache => "gateway_cache"
  | .tempSession => "temp_session"
  | .other name => name

/-- The scopes of a workflow. -/
def isWorkflowScope (scope : UnityMCPPathScope) : Bool :=
  scope == .knowledge || scope == .artifact

def scopedFileKey (projectId : Units) (scope : UnityMCPPathScope) (path : Units) : Units :=
  projectId ++ nul :: (lit (scopeName scope) ++ nul :: path)

/-! ## Results -/

structure UnityMcpArtifactRef where
  path : Units
  deriving DecidableEq, Repr

def artifactRef (scope : UnityMCPPathScope) (path : Units) : Option UnityMcpArtifactRef :=
  if scope = .artifact then some { path := path } else none

structure WorkflowPath where
  path : Units
  projectRelativePath : Units

structure UnityBridgeScopedTextResult where
  projectId : Units
  scope : UnityMCPPathScope
  path : Units
  projectRelativePath : Units
  text : Units
  truncated : Bool
  artifactRef : Option UnityMcpArtifactRef
  deriving DecidableEq, Repr

structure UnityBridgeScopedWriteResult where
  projectId : Units
  scope : UnityMCPPathScope
  path : Units
  projectRelativePath : Units
  chars : Nat
  artifactRef : Option UnityMcpArtifactRef
  deriving DecidableEq, Repr

structure UnityBridgeScopedEntry where
  scope : UnityMCPPathScope
  path : Units
  projectRelativePath : Units
  chars : Nat
  artifactRef : Option UnityMcpArtifactRef
  deriving DecidableEq, Repr

structure UnityBridgeScopedListResult where
  projectId : Units
  scope : UnityMCPPathScope
  pathPrefix : Option Units
  entries : List UnityBridgeScopedEntry
  truncated : Bool
  deriving DecidableEq, Repr

/-! ## Queries -/

/-- What the host brings to a sort: the order of `Intl.Collator`, and the comparisons it makes on a list of paths. -/
structure ScopedEntryOrder where
  le : Units → Units → Bool
  comparisons : List Units → List (Units × Units)

/-- `consume` of `ScopedQueryBudget`, on the units that remain. -/
def consume (units remaining : Nat) : Except PathError Nat :=
  if units > remaining then
    newError .invalidPath "scoped query exceeds matching or traversal work limit"
  else
    .ok (remaining - units)

def isUnderPrefix (path leader : Units) : Bool :=
  path == leader || startsWith path (leader ++ lit "/")

/-- The test of `listScoped`, and the budget that it leaves. -/
def acceptsUnder (pathPrefix : Option Units) (path : Units) (budget : Nat) : Except PathError (Bool × Nat) :=
  match pathPrefix with
  | none => .ok (true, budget)
  | some pathPrefix => do
      let budget ← consume (path.length + pathPrefix.length) budget
      .ok (isUnderPrefix path pathPrefix, budget)

/-- The loop of `scopedEntries` over the stored texts. -/
def examineEntries (leader : Units) (scope : UnityMCPPathScope)
    (accepts : Units → Nat → Except PathError (Bool × Nat)) :
    List (Sigma fun _ : Units => Units) → Nat → Except PathError (List UnityBridgeScopedEntry × Nat)
  | [], budget => .ok ([], budget)
  | ⟨key, text⟩ :: more, budget => do
      let budget ← consume (min key.length leader.length) budget
      if startsWith key leader = false then
        examineEntries leader scope accepts more budget
      else do
        let path := key.drop leader.length
        let budget ← consume path.length budget
        let resolved ← normalizeScopedPath scope path
        if resolved.kind ≠ .project then
          examineEntries leader scope accepts more budget
        else do
          let accepted ← accepts path budget
          if accepted.1 = false then
            examineEntries leader scope accepts more accepted.2
          else do
            let rest ← examineEntries leader scope accepts more accepted.2
            .ok ({
              scope := scope
              path := path
              projectRelativePath := resolved.path
              chars := text.length
              artifactRef := artifactRef scope path
            } :: rest.1, rest.2)

/-- The work of the comparisons. -/
def consumeComparisons : List (Units × Units) → Nat → Except PathError Nat
  | [], budget => .ok budget
  | (left, right) :: more, budget => do
      let budget ← consume (left.length + right.length) budget
      consumeComparisons more budget

/-! ## The bridge -/

structure FakeUnityBridge where
  broker : CanonicalPathBroker
  scopedFiles : AList fun _ : Units => Units
  scopedStoredUnits : Int

namespace FakeUnityBridge

/-- `projected`: the counter after a text, where a new entry is charged with its key. -/
def projectedUnits (s : FakeUnityBridge) (key text : Units) : Int :=
  let previous := s.scopedFiles.lookup key
  s.scopedStoredUnits + (if previous = none then key.length else 0 : Nat) + text.length -
    (previous.map List.length).getD 0

def storeScopedText (s : FakeUnityBridge) (key : Units) (text : Text) : Except PathError Unit × FakeUnityBridge :=
  match text with
  | .other => (newError .invalidPath "text must be a string", s)
  | .string text =>
      if text.length > maxScopedValueUnits then
        (newError .invalidPath "text exceeds bounded write limit", s)
      else
        if s.scopedFiles.lookup key = none ∧ s.scopedFiles.keys.length ≥ maxScopedStoredEntries then
          (newError .invalidPath "scoped storage exceeds entry limit", s)
        else if s.projectedUnits key text > maxScopedStoredUnits then
          (newError .invalidPath "scoped storage exceeds retained-unit limit", s)
        else
          (.ok (), { s with
            scopedFiles := Keyed.put key text s.scopedFiles
            scopedStoredUnits := s.projectedUnits key text })

def resolveWorkflowPath (s : FakeUnityBridge) (projectId : Units) (scope : UnityMCPPathScope) (path : Units) :
    Except PathError WorkflowPath := do
  let _ ← s.broker.getProject projectId
  if isWorkflowScope scope = false then
    newError .invalidPath "workflow scope must be knowledge or artifact"
  else do
    let resolved ← normalizeScopedPath scope path
    if resolved.kind ≠ .project then
      newError .invalidPath "workflow path must be project-backed"
    else
      .ok { path := path, projectRelativePath := resolved.path }

/-- The three parts of a seed key. -/
def parseSeedKey (key : Units) : Except PathError (Units × UnityMCPPathScope × Units) :=
  match key.splitOn nul with
  | [projectId, scope, path] =>
      if scope = lit "knowledge" then
        .ok (projectId, .knowledge, path)
      else if scope = lit "artifact" then
        .ok (projectId, .artifact, path)
      else
        newError .invalidPath "invalid scoped seed key"
  | _ => newError .invalidPath "invalid scoped seed key"

/-- The loop of the constructor over the seeds, in the order of their keys. -/
def admitSeeds (s : FakeUnityBridge) : List (Units × Text) → Except PathError FakeUnityBridge
  | [] => .ok s
  | (key, text) :: more =>
      if key.length > maxScopedStoredUnits then
        newError .invalidPath "scoped storage exceeds retained-unit limit"
      else do
        let (projectId, scope, path) ← parseSeedKey key
        let resolved ← s.resolveWorkflowPath projectId scope path
        match s.storeScopedText (scopedFileKey projectId scope resolved.path) text with
        | (.error e, _) => .error e
        | (.ok _, stored) => admitSeeds stored more

/-- The constructor; one that throws leaves no bridge. -/
def create (broker : CanonicalPathBroker) (seeds : List (Units × Text)) : Except PathError FakeUnityBridge :=
  admitSeeds { broker := broker, scopedFiles := ∅, scopedStoredUnits := 0 } seeds

def writeScopedText (s : FakeUnityBridge) (projectId : Units) (scope : UnityMCPPathScope) (path : Units) (text : Text)
    (maxChars : Option Number) : Except PathError UnityBridgeScopedWriteResult × FakeUnityBridge :=
  match text with
  | .other => (newError .invalidPath "text must be a string", s)
  | .string value =>
      let checked := do
        let limit ← boundedPositiveInteger maxChars 1048576 1048576 "maxChars"
        if value.length > limit then
          newError .invalidPath "text exceeds bounded write limit"
        else
          s.resolveWorkflowPath projectId scope path
      match checked with
      | .error e => (.error e, s)
      | .ok resolved =>
          match s.storeScopedText (scopedFileKey projectId scope resolved.path) text with
          | (.error e, s) => (.error e, s)
          | (.ok _, s) =>
              (.ok {
                projectId := projectId
                scope := scope
                path := resolved.path
                projectRelativePath := resolved.projectRelativePath
                chars := value.length
                artifactRef := artifactRef scope resolved.path
              }, s)

def readScopedText (s : FakeUnityBridge) (projectId : Units) (scope : UnityMCPPathScope) (path : Units)
    (maxChars : Option Number) : Except PathError UnityBridgeScopedTextResult := do
  let limit ← boundedPositiveInteger maxChars 65536 1048576 "maxChars"
  let resolved ← s.resolveWorkflowPath projectId scope path
  let text := (s.scopedFiles.lookup (scopedFileKey projectId scope resolved.path)).getD []
  let truncated := decide (text.length > limit)
  .ok {
    projectId := projectId
    scope := scope
    path := resolved.path
    projectRelativePath := resolved.projectRelativePath
    text := if truncated then text.take limit else text
    truncated := truncated
    artifactRef := artifactRef scope resolved.path
  }

def scopedEntries (s : FakeUnityBridge) (order : ScopedEntryOrder) (projectId : Units) (scope : UnityMCPPathScope)
    (accepts : Units → Nat → Except PathError (Bool × Nat)) : Except PathError (List UnityBridgeScopedEntry) := do
  let _ ← s.broker.getProject projectId
  if s.scopedFiles.keys.length > maxScopedEntriesExamined then
    newError .invalidPath "scoped query exceeds examined-entry limit"
  else do
    let examined ← examineEntries (scopedFileKey projectId scope []) scope accepts s.scopedFiles.entries maxScopedQueryWork
    let _ ← consumeComparisons (order.comparisons (examined.1.map UnityBridgeScopedEntry.path)) examined.2
    .ok (examined.1.mergeSort fun left right => order.le left.path right.path)

def listScoped (s : FakeUnityBridge) (order : ScopedEntryOrder) (projectId : Units) (scope : UnityMCPPathScope)
    (pathPrefix : Option Units) (maxEntries : Option Number) : Except PathError UnityBridgeScopedListResult := do
  let limit ← boundedPositiveInteger maxEntries 100 1000 "maxEntries"
  let pathPrefix ← match pathPrefix with
    | none => .ok none
    | some pathPrefix => (s.resolveWorkflowPath projectId scope pathPrefix).map fun resolved => some resolved.path
  let entries ← s.scopedEntries order projectId scope (acceptsUnder pathPrefix)
  .ok {
    projectId := projectId
    scope := scope
    pathPrefix := pathPrefix
    entries := entries.take limit
    truncated := decide (entries.length > limit)
  }

end FakeUnityBridge

end TS

end CanonicalPath
