import CanonicalPath.Daemon.ReadFile
import CanonicalPath.Daemon.Registry
import CanonicalPath.FS.HostPath
import CanonicalPath.FS.Shared
import CanonicalPath.Go.Normalize

/-!
# Bootstrap — the trusted roots of the daemon

`NewServer` of `server.go` with `openAllowedRoots` and `bindAllowedRoot`, and the system calls they make on names of
the host.  At each call a name may lead to another object, or to none.

* `bindAllowedRoot` : takes over a handle, and compares it with what its names lead to now
* `openAllowedRoots` : one handle for each name, or none
* `newServer` : all of it, behind the checks of the options
-/

namespace CanonicalPath

namespace Daemon

namespace Bootstrap

open CodeUnit

open FS.Shared (Handle)

/-! ## The host -/

inductive BootError
  | checked (error : FS.Error)
  | unsupportedOperation
  | emptyRoot
  | nulRoot
  | notDirectory
  /-- `errAllowedRootChanged` -/
  | changed
  | closed
  | os (code : Nat)
  deriving DecidableEq, Repr

inductive StartError
  | refused (message : String)
  | invalidRoot (root : Bytes) (cause : BootError)
  deriving DecidableEq, Repr

structure Host where
  rootConfinementSupported : Bool := true
  /-- What `os.Getwd` returns. -/
  workingDirectory : Option Bytes
  /-- The object that a name leads to at a call, counted from the first one. -/
  resolve : Nat → Bytes → Option Nat
  isDir : Nat → Bool
  evalSymlinks : Nat → Bytes → Option Bytes
  fault : Nat → Option Nat

inductive Event
  | opened (name : Bytes) (id : Nat)
  | evaluated (name real : Bytes)
  /-- A call on a handle that is not open. -/
  | stale (handle : Nat)
  deriving DecidableEq, Repr

structure State where
  handles : List Handle := []
  log : List Event := []
  calls : Nat := 0

abbrev Booting (β : Type) := Effect State BootError β

section

variable (host : Host)

/-- The number of the call, which a fault may end. -/
def call : Booting Nat := fun s =>
  match host.fault s.calls with
  | none => (.ok s.calls, { s with calls := s.calls + 1 })
  | some e => (.error (.os e), { s with calls := s.calls + 1 })

def record (event : Event) : Booting Unit :=
  Effect.modify fun s => { s with log := s.log ++ [event] }

/-- The object of an open handle. -/
def object (handle : Nat) : Booting Nat := do
  let handles ← Effect.observe State.handles
  match handles[handle]? with
  | some ⟨id, false⟩ => pure id
  | _ => do
      record (.stale handle)
      Effect.fail .closed

/-- `canonicalfs.OpenRoot` -/
def openRoot (name : Bytes) : Booting Nat :=
  if host.rootConfinementSupported = false then
    Effect.fail .unsupportedOperation
  else if name = [] then
    Effect.fail (.checked ⟨.outsideRoot, "root path is empty"⟩)
  else if nul ∈ name then
    Effect.fail (.checked ⟨.nulByte, "root contains NUL"⟩)
  else do
    let turn ← call host
    match host.resolve turn name with
    | none => Effect.fail (.os 2)
    | some id => do
        let handle ← Effect.observe fun s => s.handles.length
        Effect.modify fun s => { s with handles := s.handles ++ [⟨id, false⟩] }
        record (.opened name id)
        pure handle

/-- `Stat(".")`: the object of a handle. -/
def stat (handle : Nat) : Booting Nat := do
  let _ ← call host
  object handle

/-- A handle is closed, even where an error is told. -/
def close (handle : Nat) : Booting Unit := do
  let outcome ← Effect.attempt (call host)
  let _ ← object handle
  Effect.modify fun s => { s with handles := s.handles.modify handle fun opened => { opened with closed := true } }
  let _ ← Effect.finish outcome
  pure ()

def evalSymlinks (name : Bytes) : Booting Bytes := do
  let turn ← call host
  match host.evalSymlinks turn name with
  | none => Effect.fail (.os 2)
  | some real => do
      record (.evaluated name real)
      pure real

/-! ## The program -/

structure AllowedRoot where
  path : Bytes
  aliasName : Bytes
  handle : Nat
  deriving DecidableEq, Repr

def cleanHostRootAlias (root : Bytes) : Except BootError Bytes :=
  let root := Go.trimSpace root
  if root = [] then
    .error .emptyRoot
  else if nul ∈ root then
    .error .nulRoot
  else
    match FS.HostPath.abs host.workingDirectory root with
    | none => .error (.os 2)
    | some abs => .ok (FS.Path.clean abs)

/-- One turn of the loop of `bindAllowedRoot`. -/
def compareName (identity : Nat) (name : Bytes) : Booting Unit := do
  let candidate ← openRoot host name
  let info ← Effect.attempt (stat host candidate)
  let closed ← Effect.attempt (close host candidate)
  match info, closed with
  | .ok info, .ok () => if identity = info then pure () else Effect.fail .changed
  | .error e, _ => Effect.fail e
  | .ok _, .error e => Effect.fail e

/-- The names that a handle is bound to. -/
def bindNames (name : Bytes) (handle : Nat) : Booting Bytes := do
  let identity ← stat host handle
  if host.isDir identity = false then
    Effect.fail .notDirectory
  else do
    let real ← evalSymlinks host name
    let real := FS.Path.clean real
    compareName host identity name
    compareName host identity real
    pure real

/-- It takes over the handle, and closes it where it fails. -/
def bindAllowedRoot (name : Bytes) (handle : Nat) : Booting AllowedRoot := do
  let bound ← Effect.attempt (bindNames host name handle)
  match bound with
  | .ok real => pure ⟨real, name, handle⟩
  | .error e => do
      let _ ← Effect.attempt (close host handle)
      Effect.fail e

/-- The body of the loop of `openAllowedRoots`: the root that is appended, unless its name was seen. -/
def openAllowedRoot (seen : List Bytes) (root : Bytes) : Booting (Option AllowedRoot) := do
  let name ← Effect.finish (cleanHostRootAlias host root)
  if name ∈ seen then
    pure none
  else do
    let handle ← openRoot host name
    let pinned ← bindAllowedRoot host name handle
    pure (some pinned)

/-- The deferred closing of what was opened. -/
def closeAll : List AllowedRoot → Booting Unit
  | [] => pure ()
  | root :: more => do
      let _ ← Effect.attempt (close host root.handle)
      closeAll more

def openLoop (seen : List Bytes) (allowed : List AllowedRoot) :
    List Bytes → Effect State StartError (List AllowedRoot)
  | [] =>
      if allowed = [] then
        Effect.fail (.refused "canonicalfsrpc: at least one allowed root is required")
      else
        pure allowed
  | root :: more => do
      let opened ← Effect.mapError (.invalidRoot root) (Effect.attempt (openAllowedRoot host seen root))
      match opened with
      | .ok none => openLoop seen allowed more
      | .ok (some pinned) => openLoop (seen ++ [pinned.aliasName]) (allowed ++ [pinned]) more
      | .error e => do
          Effect.mapError (.invalidRoot root) (closeAll host allowed)
          Effect.fail (.invalidRoot root e)

def openAllowedRoots (roots : List Bytes) : Effect State StartError (List AllowedRoot) :=
  openLoop host [] [] roots

def validateCapabilityToken (token : Bytes) : Except StartError Unit :=
  if token.length < 32 ∨ chr '\r' ∈ token ∨ chr '\n' ∈ token ∨ Go.trimSpace token ≠ token then
    .error (.refused ("canonicalfsrpc: provide a randomly generated bearer token of at least 32 characters " ++
      "without whitespace padding or line breaks"))
  else
    .ok ()

structure Options where
  registry : ServerOptions
  capabilityToken : Bytes
  allowedRoots : List Bytes
  limits : Reads.ServerOptions

/-- The fields of a new server. -/
structure Started where
  capabilityToken : Bytes
  limits : Reads.ServerLimits
  allowedRoots : List AllowedRoot
  server : Server

def newServer (options : Options) : Effect State StartError Started := do
  let token := Go.trimSpace options.capabilityToken
  Effect.finish (validateCapabilityToken token)
  let limits ← Effect.finish ((Reads.normalizeLimits options.limits).mapError .refused)
  -- the options of the registry are checked before the roots are opened
  let server ← Effect.finish ((Daemon.newServer options.registry []).mapError .refused)
  let allowed ← openAllowedRoots host options.allowedRoots
  pure { capabilityToken := token, limits := limits, allowedRoots := allowed,
         server := { server with allowedRoots := allowed.map AllowedRoot.handle } }

end

end Bootstrap

end Daemon

end CanonicalPath
