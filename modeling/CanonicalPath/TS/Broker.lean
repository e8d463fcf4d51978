import Mathlib.Data.List.AList
import CanonicalPath.Library.Transcode
import CanonicalPath.TS.Normalize
import CanonicalPath.TS.Relative

/-!
# TS broker — the project and alias registry of the gateway

`broker.ts`, as far as it registers projects and path aliases.  A method that throws may already have written,
so every method returns its outcome and what it leaves behind.  Options are values here: what the source copies
before it stores or returns it cannot be shared.  No modelled method sees the order of the map.

* `nativeAliasOptions` : the grammar and the options of an alias, inherited or its own
* `createPathAlias`, `addPathAlias` : the checks of an alias and its place in a project
* `getProject` : the lookup that every other method begins with
* `registerProject`, `registerPathAlias` : the two methods that write
-/

namespace CanonicalPath

namespace TS

open CodeUnit Segments

/-! ## Records -/

inductive NativeHostKind
  | posix
  | win32
  | wsl
  deriving DecidableEq, Repr

def NativeHostKind.toHostKind : NativeHostKind → HostKind
  | .posix => .posix
  | .win32 => .win32
  | .wsl => .wsl

structure UnityProjectPathAliasRegistration where
  clientType : Units
  clientId : Units
  environmentId : Units
  hostKind : Option HostKind := none
  hostRoot : Units
  normalizeOptions : Option (NormalizeOptions UInt16) := none
  label : Option Units := none

structure UnityProjectPathAlias where
  projectId : Units
  canonicalProjectPath : Units
  clientType : Units
  clientId : Units
  environmentId : Units
  hostKind : NativeHostKind
  hostRoot : Units
  normalizeOptions : NormalizeOptions UInt16
  label : Option Units

structure UnityProjectRegistration where
  projectId : Units
  projectRoot : Units
  normalizeOptions : Option (NormalizeOptions UInt16) := none
  hostRoot : Option Units := none
  aliases : List UnityProjectPathAliasRegistration := []

structure UnityProjectRecord where
  projectId : Units
  canonicalProjectPath : Units
  normalizeOptions : Option (NormalizeOptions UInt16)
  hostRoot : Option Units
  pathAliases : List UnityProjectPathAlias

/-! ## Aliases -/

def normalizeProjectRoot (raw : Units) (options : NormalizeOptions UInt16) : Except PathError Units := do
  let projectRoot ← normalize raw options
  let parsed ← validateCanonical projectRoot false
  if parsed.kind = .relative then
    newError .invalidPath "Unity project root must be absolute"
  else
    .ok projectRoot

def assertAliasString (value : Units) (label : String) : Except PathError Unit :=
  if value = [] then
    newError .invalidPath (label ++ " is required")
  else if nul ∈ value then
    newError .nulByte (label ++ " contains NUL")
  else
    .ok ()

def requireNativeHostKind : Option HostKind → Except PathError NativeHostKind
  | some .posix => .ok .posix
  | some .win32 => .ok .win32
  | some .wsl => .ok .wsl
  | _ => newError .invalidPath "path alias requires a native host kind: posix, win32 or wsl"

def isNativeHostKind (value : Option HostKind) : Bool :=
  value == some .posix || value == some .win32 || value == some .wsl

def nativeAliasOptions (registration : UnityProjectPathAliasRegistration)
    (projectOptions : Option (NormalizeOptions UInt16)) :
    Except PathError (NativeHostKind × NormalizeOptions UInt16) := do
  let requestedSource := registration.normalizeOptions.bind fun options => options.sourceHost
  let inheritedSource := projectOptions.bind fun options => options.sourceHost
  let hostKind ← requireNativeHostKind ((registration.hostKind.or requestedSource).or
    (if isNativeHostKind inheritedSource then inheritedSource else some .posix))
  if requestedSource ≠ none ∧ requestedSource ≠ some hostKind.toHostKind then
    newError .invalidPath "path alias hostKind and sourceHost must select the same native grammar"
  else
    -- options of the alias replace those of the project, which must select the same grammar
    let base := registration.normalizeOptions.or
      (if inheritedSource = some hostKind.toHostKind then projectOptions else none)
    let normalizeOptions := { base.getD {} with sourceHost := some hostKind.toHostKind }
    if normalizeOptions.trims then
      newError .invalidPath "native alias normalization must not trim retained hostRoot data"
    else if hostKind = .wsl ∧ wslEnabled normalizeOptions.wsl = false then
      newError .invalidPath "native WSL aliases require explicit WSL mapping; use posix for unmapped native paths"
    else
      .ok (hostKind, normalizeOptions)

/-- The absolute native paths; only Windows grammar reads a backslash as a separator. -/
def isAbsoluteNative (hostKind : NativeHostKind) (nativeRoot : Units) : Bool :=
  if hostKind = .win32 then
    hasDriveRoot nativeRoot || startsWith nativeRoot (lit "//")
  else
    startsWith nativeRoot (lit "/") && (!startsWith nativeRoot (lit "//") || startsWith nativeRoot (lit "///"))

def createPathAlias (project : UnityProjectRecord) (registration : UnityProjectPathAliasRegistration) :
    Except PathError UnityProjectPathAlias := do
  assertAliasString registration.clientType "clientType"
  assertAliasString registration.clientId "clientId"
  assertAliasString registration.environmentId "environmentId"
  assertAliasString registration.hostRoot "hostRoot"
  let native ← nativeAliasOptions registration project.normalizeOptions
  let nativeRoot := if native.1 = .win32 then replaceAll '\\' '/' registration.hostRoot else registration.hostRoot
  if isAbsoluteNative native.1 nativeRoot = false ∨
      (nativeRoot.splitOn (chr '/')).any (fun part => part == lit "." || part == lit "..") = true then
    newError .invalidPath "path alias hostRoot must be an absolute native path without dot segments"
  else do
    let aliasCanonicalPath ← normalizeProjectRoot registration.hostRoot native.2
    if aliasCanonicalPath ≠ project.canonicalProjectPath then
      newError .invalidPath "path alias hostRoot does not match canonical project identity"
    else
      .ok {
        projectId := project.projectId
        canonicalProjectPath := project.canonicalProjectPath
        clientType := registration.clientType
        clientId := registration.clientId
        environmentId := registration.environmentId
        hostKind := native.1
        hostRoot := registration.hostRoot
        normalizeOptions := native.2
        label := registration.label
      }

def pathAliasKey (pathAlias : UnityProjectPathAlias) : Units :=
  pathAlias.clientType ++ nul :: pathAlias.clientId ++ nul :: pathAlias.environmentId

/-- The outcome, and the project as it is left: the array is written last. -/
def addPathAlias (project : UnityProjectRecord) (registration : UnityProjectPathAliasRegistration) :
    Except PathError UnityProjectPathAlias × UnityProjectRecord :=
  match createPathAlias project registration with
  | .error e => (.error e, project)
  | .ok pathAlias =>
      if project.pathAliases.any (fun existing => pathAliasKey existing == pathAliasKey pathAlias) then
        (newError .invalidPath "path alias already exists for project/client/environment", project)
      else
        (.ok pathAlias, { project with pathAliases := project.pathAliases ++ [pathAlias] })

/-- `for (const alias of ...) this.addPathAlias(record, alias)`. -/
def addPathAliases (project : UnityProjectRecord) :
    List UnityProjectPathAliasRegistration → Except PathError Unit × UnityProjectRecord
  | [] => (.ok (), project)
  | registration :: more =>
      match addPathAlias project registration with
      | (.error e, project) => (.error e, project)
      | (.ok _, project) => addPathAliases project more

/-! ## The registry -/

structure CanonicalPathBroker where
  projects : AList fun _ : Units => UnityProjectRecord

namespace CanonicalPathBroker

def getProject (s : CanonicalPathBroker) (projectId : Units) : Except PathError UnityProjectRecord :=
  match s.projects.lookup projectId with
  | none => newError .invalidPath ("unknown Unity project " ++ String.ofList (utf16Decode projectId))
  | some project => .ok project

/-- The aliases that a registration asks for, the default one first. -/
def requestedAliases (registration : UnityProjectRegistration) (normalizeOptions : NormalizeOptions UInt16) :
    Except PathError (List UnityProjectPathAliasRegistration) :=
  match registration.hostRoot with
  | none => .ok registration.aliases
  | some hostRoot => do
      let hostKind ← requireNativeHostKind normalizeOptions.sourceHost
      .ok ({
        clientType := lit "gateway"
        clientId := lit "default"
        environmentId := lit "default"
        hostKind := some hostKind.toHostKind
        hostRoot := hostRoot
        normalizeOptions := some normalizeOptions
        label := some (lit "default host root")
      } :: registration.aliases)

/-- The record before its aliases are added. -/
def createRecord (registration : UnityProjectRegistration) (normalizeOptions : NormalizeOptions UInt16) :
    Except PathError UnityProjectRecord := do
  let canonicalProjectPath ← normalizeProjectRoot registration.projectRoot normalizeOptions
  .ok {
    projectId := registration.projectId
    canonicalProjectPath := canonicalProjectPath
    normalizeOptions := some normalizeOptions
    hostRoot := registration.hostRoot
    pathAliases := []
  }

def projectOptions (registration : UnityProjectRegistration) : NormalizeOptions UInt16 :=
  let options := registration.normalizeOptions.getD {}
  { options with sourceHost := some (options.sourceHost.getD .posix) }

def registerProject (s : CanonicalPathBroker) (registration : UnityProjectRegistration) :
    Except PathError UnityProjectRecord × CanonicalPathBroker :=
  if registration.projectId = [] then
    (newError .invalidPath "projectId is required", s)
  else if nul ∈ registration.projectId then
    (newError .nulByte "projectId contains NUL", s)
  else
    let prepared := do
      let record ← createRecord registration (projectOptions registration)
      let aliases ← requestedAliases registration (projectOptions registration)
      .ok (record, aliases)
    match prepared with
    | .error e => (.error e, s)
    | .ok (record, aliases) =>
        match addPathAliases record aliases with
        | (.error e, _) => (.error e, s)
        | (.ok _, record) => (.ok record, { s with projects := s.projects.insert record.projectId record })

/-- The stored record is the object that `addPathAlias` writes. -/
def registerPathAlias (s : CanonicalPathBroker) (projectId : Units)
    (registration : UnityProjectPathAliasRegistration) :
    Except PathError UnityProjectPathAlias × CanonicalPathBroker :=
  match s.projects.lookup projectId with
  | none => (newError .invalidPath ("unknown Unity project " ++ String.ofList (utf16Decode projectId)), s)
  | some project =>
      let added := addPathAlias project registration
      (added.1, { s with projects := s.projects.replace projectId added.2 })

end CanonicalPathBroker

end TS

end CanonicalPath
