import CanonicalPath.Daemon.ReadFile
import CanonicalPath.Daemon.Registry
import CanonicalPath.Daemon.Scope
import CanonicalPath.FS.HostPath
import CanonicalPath.Library.Base64
import CanonicalPath.Library.Threads

/-!
# Service — the daemon as threads under one lock

`server.go` of the Go daemon as programs: a request is a program that asks the operating system and takes `s.mu` where
the handler does.  Every question is a step of its own, so requests interleave wherever the handlers let them.

The state under the lock is the registry of `Daemon.Registry`.  Project handles are numbered in the order in which they
are opened, scoped handles in theirs, and a trusted root has the number that the bootstrap gave it.
-/

namespace CanonicalPath

namespace Daemon

namespace Service

open CodeUnit Segments Threads

/-! ## Requests and replies -/

/-- The type `request`. -/
structure Request where
  projectID : Bytes
  hostRoot : Bytes := []
  path : Bytes := []
  target : Bytes := []
  scope : Go.UnityMCPPathScope := .other ""
  operation : String := ""
  dataBase64 : Bytes := []
  maxBytes : Int64 := 0
  deriving DecidableEq

/-- What the JSON decoder makes of a body under the cap. -/
inductive Body
  | request (req : Request)
  | tooLarge
  | invalid
  | trailing
  deriving DecidableEq

structure HttpRequest where
  method : String
  urlPath : String
  authorization : Bytes
  body : Body
  deriving DecidableEq

structure StatResponse where
  path : Bytes
  size : Int64
  isDirectory : Bool
  deriving DecidableEq

structure ErrorResponse where
  code : String
  message : String
  deriving DecidableEq

/-- The type `response`. -/
structure Response where
  dataBase64 : Bytes := []
  stat : Option StatResponse := none
  error : Option ErrorResponse := none
  deriving DecidableEq

structure CapsResponse where
  authRequired : Bool
  endpoints : List String
  maxRequestBytes : Int64
  defaultReadBytes : Int64
  maxReadBytes : Int64
  maxResponseBytes : Int64
  deriving DecidableEq

/-- What is encoded as JSON. -/
inductive Value
  | health
  | caps (caps : CapsResponse)
  | response (response : Response)
  deriving DecidableEq

structure HttpReply where
  status : Nat
  value : Value
  connectionClose : Bool := false
  wwwAuthenticate : Bool := false
  deriving DecidableEq

def writeHTTPError (status : Nat) (code message : String) : HttpReply where
  status := status
  value := .response { error := some { code := code, message := message } }

def writeCanonicalError (error : FsError) : HttpReply :=
  let code := if error.code = "" then
      if error.unsupported then "ERR_UNSUPPORTED_OPERATION" else "ERR_DAEMON"
    else error.code
  writeHTTPError 400 code error.text

def writeCanonicalPathError (error : PathError) : HttpReply :=
  writeHTTPError 400 error.code.text error.text

/-- An error of the filesystem layer with its code. -/
def fsError (error : FS.Error) : FsError where
  code := error.code.text
  unsupported := false
  text := error.text

def refuse : ScopedRefusal → HttpReply
  | .lexical error => writeCanonicalPathError error
  | .filesystem error => writeCanonicalError (fsError error)
  | .unsupported message => writeHTTPError 400 "ERR_UNSUPPORTED_OPERATION" message

/-! ## The configuration -/

/-- The names that the bootstrap bound to a trusted handle: absolute and clean. -/
structure AllowedRoot where
  pathParts : List Bytes
  pathParts_isName : ∀ part ∈ pathParts, IsName part
  aliasParts : List Bytes
  aliasParts_isName : ∀ part ∈ aliasParts, IsName part

/-- The fields of `Server` that do not change.  `marshal` is `json.Marshal`. -/
structure Config where
  capabilityToken : Bytes
  names : Nat → AllowedRoot
  limits : Reads.ServerLimits
  marshal : Value → Option Bytes

def bearer : Bytes :=
  lit "Bearer "

/-- The comparison in constant time is one of the values. -/
def isAuthorized (config : Config) (r : HttpRequest) : Bool :=
  Go.hasPrefix r.authorization bearer && r.authorization.drop bearer.length == config.capabilityToken

/-- The method `writeJSON`. -/
def writeJSON (config : Config) (status : Nat) (value : Value) : HttpReply :=
  match config.marshal value with
  | none => writeHTTPError 500 "ERR_DAEMON" "response JSON encoding failed"
  | some data =>
    if (data.length : Int) > config.limits.maxResponseBytes.toInt then
      writeHTTPError 413 "ERR_RESPONSE_TOO_LARGE" "response JSON exceeds server cap"
    else
      { status := status, value := value }

/-! ## The operating system -/

inductive Handle
  | allowed (number : Nat)
  | project (number : Nat)
  | scopedRoot (number : Nat)
  deriving DecidableEq

structure FileInfo where
  size : Int64
  isDirectory : Bool
  deriving DecidableEq

/-- What a request asks: the clock, the order of a map, the connection and the filesystem layer. -/
inductive Call
  | now
  | range (keys : List Bytes)
  | authenticateConnection
  | abs (path : Bytes)
  | openRoot (allowed : Nat) (rel : Bytes)
  | openScopedRoot (project : Nat) (rel : Bytes) (create : Bool)
  | readFile (root : Handle) (rel : Bytes) (maxBytes : Int64)
  | writeFile (root : Handle) (rel data : Bytes)
  | stat (root : Handle) (rel : Bytes)
  | mkdirAll (root : Handle) (rel : Bytes) (mode : Nat)
  | remove (root : Handle) (rel : Bytes)
  | rename (root : Handle) (oldRel newRel : Bytes)
  | close (root : Handle)
  deriving DecidableEq

@[reducible] def Call.Answer : Call → Type
  | .now => Int
  | .range _ => List Bytes
  | .authenticateConnection => Bool
  | .abs _ => Option Bytes
  | .openRoot _ _ => Option Nat
  | .openScopedRoot _ _ _ => Except FsError Nat
  | .readFile _ _ _ => Except FsError Bytes
  | .stat _ _ => Except FsError FileInfo
  | .writeFile _ _ _ | .mkdirAll _ _ _ | .remove _ _ | .rename _ _ _ | .close _ => Except FsError Unit

abbrev Program (α : Type) : Type :=
  Threads.Program Server Call Call.Answer α

def ask (call : Call) : Program call.Answer :=
  Threads.Program.request call

def lock : Program Server :=
  Threads.Program.acquire

def unlock (s : Server) : Program Unit :=
  Threads.Program.release s

/-! ## The registry -/

/-- The closes that a registry operation makes, in its order.  `Close` of a nil root does nothing. -/
def closeAll : List RegistryEvent → Program Unit
  | [] => pure ()
  | .closed (some root) :: events => do
    let _ ← ask (.close (.project root))
    closeAll events
  | .allowedClosed root :: events => do
    let _ ← ask (.close (.allowed root))
    closeAll events
  | _ :: events => closeAll events

def expireRootsLocked (s : Server) : Program Server := do
  let now ← ask .now
  let order ← ask (.range s.lastUsed.keys)
  let (s, events) := Server.expireRootsLocked now order s
  closeAll events
  pure s

/-- The method `root`. -/
def root (projectID : Bytes) : Program (Except FsError Nat) :=
  if projectID = [] then
    pure (.error errUnsupportedOperation)
  else do
    let s ← lock
    let s ← expireRootsLocked s
    match mapGet s.roots projectID with
    | none => do
      unlock s
      pure (.error errUnsupportedOperation)
    | some root => do
      let now ← ask .now
      unlock { s with lastUsed := s.lastUsed.insert projectID now }
      pure (.ok root)

def takeRoot (projectID : Bytes) : Program (Except FsError Nat) :=
  if projectID = [] then
    pure (.error errUnsupportedOperation)
  else do
    let s ← lock
    let s ← expireRootsLocked s
    match mapGet s.roots projectID with
    | none => do
      unlock s
      pure (.error errUnsupportedOperation)
    | some root => do
      unlock (s.delete projectID)
      pure (.ok root)

/-- The two names of every trusted root, in order. -/
def anchors (config : Config) (s : Server) : List (Nat × Bytes) :=
  s.allowedRoots.flatMap fun allowed =>
    [(allowed, FS.HostPath.absolute (config.names allowed).pathParts),
      (allowed, FS.HostPath.absolute (config.names allowed).aliasParts)]

/-- The loop of `openAuthorizedRoot`. -/
def openBelow (abs : Bytes) : List (Nat × Bytes) → Program (Option Nat)
  | [] => pure none
  | (allowed, anchor) :: more =>
    if FS.HostPath.isInsideAllowedRoot anchor abs = some true then
      match FS.HostPath.rel anchor abs with
      | none => openBelow abs more
      | some rel => do
        match ← ask (.openRoot allowed rel) with
        | some handle => pure (some handle)
        | none => openBelow abs more
    else
      openBelow abs more

def openAuthorizedRoot (config : Config) (s : Server) (hostRoot : Bytes) : Program (Option Nat) :=
  if 0 ∈ hostRoot then
    pure none
  else do
    match ← ask (.abs hostRoot) with
    | none => pure none
    | some abs => openBelow abs (anchors config s)

/-- `Close` of the server. -/
def close : Program Unit := do
  let s ← lock
  let order ← ask (.range s.roots.keys)
  let (s, events) := s.close order
  closeAll events
  unlock s

/-! ## Decoding -/

def decodeRequest (r : HttpRequest) : Except HttpReply Request :=
  if r.method ≠ "POST" then
    .error (writeHTTPError 405 "ERR_DAEMON" "method not allowed")
  else
    match r.body with
    | .request req => .ok req
    | .tooLarge => .error (writeHTTPError 413 "ERR_REQUEST_TOO_LARGE" "request JSON exceeds server cap")
    | .invalid => .error (writeHTTPError 400 "ERR_DAEMON" "request JSON is invalid")
    | .trailing => .error (writeHTTPError 400 "ERR_DAEMON" "request JSON has trailing data")

def decodeRootRequest (r : HttpRequest) : Program (Except HttpReply (Request × Nat)) :=
  match decodeRequest r with
  | .error reply => pure (.error reply)
  | .ok req => do
    match ← root req.projectID with
    | .error error => pure (.error (writeCanonicalError error))
    | .ok root => pure (.ok (req, root))

/-- The part of a request that its scope is decided on. -/
def scopedRequest (r : HttpRequest) (req : Request) : ScopedRequest where
  scope := req.scope
  operation := req.operation
  path := req.path
  urlPath := r.urlPath

def decodeScopedRootRequest (r : HttpRequest) (requiredOperation : String) :
    Program (Except HttpReply (Request × Nat × ScopedRoot)) := do
  match ← decodeRootRequest r with
  | .error reply => pure (.error reply)
  | .ok (req, root) =>
    match Daemon.decodeScopedRootRequest (scopedRequest r req) requiredOperation with
    | .error refusal => pure (.error (refuse refusal))
    | .ok place => do
      match ← ask (.openScopedRoot root place.anchor (requiredOperation == "write")) with
      | .error error => pure (.error (writeCanonicalError error))
      | .ok handle => pure (.ok (req, handle, place))

/-! ## Operations on a root -/

def readThrough (config : Config) (root : Handle) (rel : Bytes) (req : Request) : Program HttpReply :=
  match Reads.readLimit config.limits req.maxBytes with
  | .error message => pure (writeHTTPError 400 "ERR_READ_LIMIT_EXCEEDED" message)
  | .ok maxBytes => do
    match ← ask (.readFile root rel maxBytes) with
    | .error error => pure (writeCanonicalError error)
    | .ok data => pure (writeJSON config 200 (.response { dataBase64 := Base64.encode data }))

/-- The reply to an operation without a result. -/
def finish (config : Config) : Except FsError Unit → HttpReply
  | .error error => writeCanonicalError error
  | .ok () => writeJSON config 200 (.response {})

def writeThrough (config : Config) (root : Handle) (rel : Bytes) (req : Request) : Program HttpReply :=
  match Base64.decode req.dataBase64 with
  | none => pure (writeHTTPError 400 "ERR_DAEMON" "data_base64 is invalid")
  | some data => do
    let outcome ← ask (.writeFile root rel data)
    pure (finish config outcome)

/-- `reported` is the path that the reply names. -/
def statThrough (config : Config) (root : Handle) (rel reported : Bytes) : Program HttpReply := do
  match ← ask (.stat root rel) with
  | .error error => pure (writeCanonicalError error)
  | .ok info =>
    pure (writeJSON config 200
      (.response { stat := some { path := reported, size := info.size, isDirectory := info.isDirectory } }))

def mkdirThrough (config : Config) (root : Handle) (rel : Bytes) : Program HttpReply := do
  let outcome ← ask (.mkdirAll root rel 0o755)
  pure (finish config outcome)

def removeThrough (config : Config) (root : Handle) (rel : Bytes) : Program HttpReply := do
  let outcome ← ask (.remove root rel)
  pure (finish config outcome)

def renameThrough (config : Config) (root : Handle) (oldRel newRel : Bytes) : Program HttpReply := do
  let outcome ← ask (.rename root oldRel newRel)
  pure (finish config outcome)

/-! ## Handlers -/

def endpoints : List String := [
  "GET /healthz",
  "GET /v1/caps",
  "POST /v1/projects/open",
  "POST /v1/projects/close",
  "POST /v1/fs/readFile",
  "POST /v1/fs/writeFile",
  "POST /v1/fs/stat",
  "POST /v1/fs/mkdirAll",
  "POST /v1/fs/remove",
  "POST /v1/fs/rename",
  "POST /v1/scoped/readFile",
  "POST /v1/scoped/writeFile",
  "POST /v1/scoped/stat",
  "POST /v1/scoped/mkdirAll",
  "POST /v1/scoped/remove"]

def handleHealth (r : HttpRequest) : HttpReply :=
  if r.method ≠ "GET" then
    writeHTTPError 405 "ERR_DAEMON" "method not allowed"
  else
    { status := 200, value := .health }

def handleCaps (config : Config) (r : HttpRequest) : HttpReply :=
  if r.method ≠ "GET" then
    writeHTTPError 405 "ERR_DAEMON" "method not allowed"
  else
    writeJSON config 200 (.caps {
      authRequired := true
      endpoints := endpoints
      maxRequestBytes := config.limits.maxRequestBytes
      defaultReadBytes := config.limits.defaultReadBytes
      maxReadBytes := config.limits.maxReadBytes
      maxResponseBytes := config.limits.maxResponseBytes })

/-- The section of `handleOpenProject` under the lock, on the expired registry. -/
def register (config : Config) (req : Request) (s : Server) : Program HttpReply :=
  if s.closed ∨ (mapGet s.roots req.projectID = none ∧ (s.roots.keys.length : Int) ≥ s.maxProjects) then do
    unlock s
    pure (writeHTTPError 429 "ERR_DAEMON" "project registration limit reached")
  else do
    match ← openAuthorizedRoot config s req.hostRoot with
    | none => do
      unlock s
      pure (writeHTTPError 403 "ERR_ROOT_NOT_ALLOWED" "host_root is not allowed")
    | some root => do
      let now ← ask .now
      -- the replaced root is closed before the lock is released
      closeAll ((mapGet s.roots req.projectID).toList.map fun old => .closed (some old))
      unlock { s with
        handles := s.handles + 1
        roots := s.roots.insert req.projectID (some root)
        lastUsed := s.lastUsed.insert req.projectID now }
      pure (writeJSON config 200 (.response {}))

def handleOpenProject (config : Config) (r : HttpRequest) : Program HttpReply :=
  match decodeRequest r with
  | .error reply => pure reply
  | .ok req =>
    if req.projectID = [] ∨ req.hostRoot = [] then
      pure (writeHTTPError 400 "ERR_OUTSIDE_ROOT" "project_id and host_root are required")
    else if req.projectID.length > 128 ∨ 0 ∈ req.projectID then
      pure (writeHTTPError 400 "ERR_DAEMON" "project_id must be at most 128 bytes and contain no NUL")
    else do
      let s ← lock
      let s ← expireRootsLocked s
      register config req s

def handleCloseProject (config : Config) (r : HttpRequest) : Program HttpReply :=
  match decodeRequest r with
  | .error reply => pure reply
  | .ok req => do
    match ← takeRoot req.projectID with
    | .error error => pure (writeCanonicalError error)
    | .ok root => do
      let outcome ← ask (.close (.project root))
      pure (finish config outcome)

/-- A handler of an operation on a project. -/
def onRoot (r : HttpRequest) (operate : Request → Handle → Program HttpReply) : Program HttpReply := do
  match ← decodeRootRequest r with
  | .error reply => pure reply
  | .ok (req, root) => operate req (.project root)

def handleReadFile (config : Config) (r : HttpRequest) : Program HttpReply :=
  onRoot r fun req root => readThrough config root req.path req

def handleWriteFile (config : Config) (r : HttpRequest) : Program HttpReply :=
  onRoot r fun req root => writeThrough config root req.path req

def handleStat (config : Config) (r : HttpRequest) : Program HttpReply :=
  onRoot r fun req root => statThrough config root req.path req.path

def handleMkdirAll (config : Config) (r : HttpRequest) : Program HttpReply :=
  onRoot r fun req root => mkdirThrough config root req.path

def handleRemove (config : Config) (r : HttpRequest) : Program HttpReply :=
  onRoot r fun req root => removeThrough config root req.path

def handleRename (config : Config) (r : HttpRequest) : Program HttpReply :=
  onRoot r fun req root => renameThrough config root req.path req.target

/-- A handler of an operation below a scope, whose handle is closed when the handler returns. -/
def onScoped (r : HttpRequest) (requiredOperation : String)
    (operate : Request → Handle → ScopedRoot → Program HttpReply) : Program HttpReply := do
  match ← decodeScopedRootRequest r requiredOperation with
  | .error reply => pure reply
  | .ok (req, root, place) => do
    let reply ← operate req (.scopedRoot root) place
    let _ ← ask (.close (.scopedRoot root))
    pure reply

def handleScopedReadFile (config : Config) (r : HttpRequest) : Program HttpReply :=
  onScoped r "read" fun req root place => readThrough config root place.suffix req

def handleScopedWriteFile (config : Config) (r : HttpRequest) : Program HttpReply :=
  onScoped r "write" fun req root place => writeThrough config root place.suffix req

def handleScopedStat (config : Config) (r : HttpRequest) : Program HttpReply :=
  onScoped r "read" fun _ root place => statThrough config root place.suffix place.scopedPath

def handleScopedMkdirAll (config : Config) (r : HttpRequest) : Program HttpReply :=
  onScoped r "write" fun _ root place => mkdirThrough config root place.suffix

def handleScopedRemove (config : Config) (r : HttpRequest) : Program HttpReply :=
  onScoped r "delete" fun _ root place => removeThrough config root place.suffix

def handleNotFound : HttpReply :=
  writeHTTPError 404 "ERR_DAEMON" "endpoint not found"

/-! ## The handler -/

def serveMux (config : Config) (r : HttpRequest) : Program HttpReply :=
  match r.urlPath with
  | "/healthz" => pure (handleHealth r)
  | "/v1/caps" => pure (handleCaps config r)
  | "/v1/projects/open" => handleOpenProject config r
  | "/v1/projects/close" => handleCloseProject config r
  | "/v1/fs/readFile" => handleReadFile config r
  | "/v1/fs/writeFile" => handleWriteFile config r
  | "/v1/fs/stat" => handleStat config r
  | "/v1/fs/mkdirAll" => handleMkdirAll config r
  | "/v1/fs/remove" => handleRemove config r
  | "/v1/fs/rename" => handleRename config r
  | "/v1/scoped/readFile" => handleScopedReadFile config r
  | "/v1/scoped/writeFile" => handleScopedWriteFile config r
  | "/v1/scoped/stat" => handleScopedStat config r
  | "/v1/scoped/mkdirAll" => handleScopedMkdirAll config r
  | "/v1/scoped/remove" => handleScopedRemove config r
  | _ => pure handleNotFound

/-- The function of `Handler`. -/
def serveHTTP (config : Config) (r : HttpRequest) : Program HttpReply :=
  if isAuthorized config r then do
    if ← ask .authenticateConnection then
      serveMux config r
    else
      pure { writeHTTPError 503 "ERR_DAEMON" "connection authentication deadline expired" with
        connectionClose := true }
  else if r.urlPath ≠ "/healthz" then
    pure { writeHTTPError 401 "ERR_UNAUTHORIZED" "missing or invalid bearer token" with
      connectionClose := true, wwwAuthenticate := true }
  else do
    let reply ← serveMux config r
    pure { reply with connectionClose := true }

/-! ## The system -/

inductive Task
  | serveHTTP (r : HttpRequest)
  | close
  deriving DecidableEq

/-- A task, with the reply if it is a request. -/
def start (config : Config) : Task → Program (Option HttpReply)
  | .serveHTTP r => do
    let reply ← serveHTTP config r
    pure (some reply)
  | .close => do
    close
    pure none

/-- How a project handle came about. -/
structure ProjectOrigin where
  task : Task
  allowed : Nat
  rel : Bytes

structure ScopedOrigin where
  task : Task
  project : Nat
  rel : Bytes

/-- The handles that were opened, by number. -/
structure World where
  projects : List ProjectOrigin := []
  scopedRoots : List ScopedOrigin := []

/-- What the operating system decides. -/
structure Choice where
  now : Int := 0
  order : List Bytes := []
  authenticated : Bool := true
  workingDirectory : Option Bytes := none
  failure : Option FsError := none
  data : Bytes := []
  info : FileInfo := ⟨0, false⟩

/-- A result, unless the call fails. -/
def Choice.outcome {β : Type} (choice : Choice) (result : β) : Except FsError β :=
  match choice.failure with
  | some error => .error error
  | none => .ok result

def answer (task : Task) (w : World) : (call : Call) → Choice → World × call.Answer
  | .now, choice => (w, choice.now)
  | .range keys, choice => (w, if choice.order.Perm keys then choice.order else keys)
  | .authenticateConnection, choice => (w, choice.authenticated)
  | .abs path, choice => (w, FS.HostPath.abs choice.workingDirectory path)
  | .openRoot allowed rel, choice =>
    match choice.failure with
    | some _ => (w, none)
    | none => ({ w with projects := w.projects ++ [⟨task, allowed, rel⟩] }, some w.projects.length)
  | .openScopedRoot project rel _, choice =>
    match choice.failure with
    | some error => (w, .error error)
    | none => ({ w with scopedRoots := w.scopedRoots ++ [⟨task, project, rel⟩] }, .ok w.scopedRoots.length)
  | .readFile _ _ _, choice => (w, choice.outcome choice.data)
  | .stat _ _, choice => (w, choice.outcome choice.info)
  | .writeFile _ _ _, choice => (w, choice.outcome ())
  | .mkdirAll _ _ _, choice => (w, choice.outcome ())
  | .remove _ _, choice => (w, choice.outcome ())
  | .rename _ _ _, choice => (w, choice.outcome ())
  | .close _, choice => (w, choice.outcome ())

def operatingSystem : Environment Task World Call Call.Answer Choice where
  answer := answer

end Service

end Daemon

end CanonicalPath
