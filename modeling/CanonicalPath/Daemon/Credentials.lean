import CanonicalPath.Daemon.Bootstrap
import CanonicalPath.Library.Base64
import CanonicalPath.Library.Sha256
import CanonicalPath.Library.Transcode

/-!
# Credentials — the private files of one launch

`canonicalfs-bootstrap`: `run`, the walk of `createBootstrapDirectory` to a new private directory, and the files that
`writePrivateFile` puts there, with the checks of the Unix build.  The calls of another process, and a fault, can come
before every call.

* `createBootstrapDirectory` : a new directory below a private one
* `writePrivateFile` : a new file, checked before its first byte
* `run` : the files in their order, the completion marker last
-/

namespace CanonicalPath

namespace Daemon

namespace Credentials

open CodeUnit

open FS.Shared (Handle)

/-! ## The host -/

inductive Failure
  | os (code : Nat)
  | closed
  | message (text : String)
  /-- "cannot create a new private bootstrap directory (existing paths are refused)" -/
  | notCreated (cause : Failure)
  /-- "cannot write private %s; bootstrap is incomplete" -/
  | incomplete (name : Bytes) (cause : Failure)
  deriving DecidableEq, Repr

/-- `os.FileInfo`, with the owner that `Sys` tells. -/
structure FileInfo where
  directory : Bool
  symlink : Bool := false
  irregular : Bool := false
  /-- A device, a pipe or a socket. -/
  special : Bool := false
  sticky : Bool := false
  perm : Nat
  uid : Option Nat
  deriving DecidableEq, Repr

def FileInfo.isRegular (info : FileInfo) : Bool :=
  !(info.directory || info.symlink || info.irregular || info.special)

/-- The answers of the host at a call, counted from the first one. -/
structure Host where
  workingDirectory : Option Bytes
  geteuid : Int
  /-- The directory `/`. -/
  anchor : Nat → Option Nat
  /-- The object under a name of a directory, a link not followed. -/
  lookup : Nat → Nat → Bytes → Option Nat
  /-- The directory that a name leads to. -/
  child : Nat → Nat → Bytes → Option Nat
  /-- The object that a call creates. -/
  fresh : Nat → Nat
  tell : Nat → Nat → FileInfo
  fault : Nat → Option Nat
  /-- How much of a write that meets a fault is written. -/
  accept : Nat → Nat → Nat

/-- Directories and files are those of handles. -/
inductive Event
  | anchored (handle : Nat)
  | looked (dir : Nat) (name : Bytes) (id : Nat) (info : FileInfo)
  | entered (dir : Nat) (name : Bytes) (child id : Nat)
  /-- A directory is opened as a file. -/
  | reopened (dir file : Nat)
  | told (handle : Nat) (info : FileInfo)
  | made (dir : Nat) (name : Bytes)
  | created (dir : Nat) (name : Bytes) (file : Nat)
  | written (file : Nat) (chunk : Bytes)
  | synced (file : Nat)
  | closed (handle : Nat) (clean : Bool)
  | printed
  /-- A call on a handle that is not open. -/
  | stale (handle : Nat)
  deriving DecidableEq, Repr

structure State where
  handles : List Handle := []
  log : List Event := []
  calls : Nat := 0

abbrev Running (β : Type) := Effect State Failure β

section

variable (host : Host)

def call : Running Nat := fun s =>
  match host.fault s.calls with
  | none => (.ok s.calls, { s with calls := s.calls + 1 })
  | some e => (.error (.os e), { s with calls := s.calls + 1 })

def record (event : Event) : Running Unit :=
  Effect.modify fun s => { s with log := s.log ++ [event] }

/-- The object of an open handle. -/
def object (handle : Nat) : Running Nat := do
  let handles ← Effect.observe State.handles
  match handles[handle]? with
  | some ⟨id, false⟩ => pure id
  | _ => do
      record (.stale handle)
      Effect.fail .closed

def newHandle (id : Nat) (event : Nat → Event) : Running Nat := do
  let handle ← Effect.observe fun s => s.handles.length
  Effect.modify fun s => { s with handles := s.handles ++ [⟨id, false⟩] }
  record (event handle)
  pure handle

/-- `os.OpenRoot` of the file system root. -/
def openAnchor : Running Nat := do
  let turn ← call host
  match host.anchor turn with
  | none => Effect.fail (.os 2)
  | some id => newHandle id .anchored

def lstat (dir : Nat) (name : Bytes) : Running (Nat × FileInfo) := do
  let turn ← call host
  let id ← object dir
  match host.lookup turn id name with
  | none => Effect.fail (.os 2)
  | some id => do
      record (.looked dir name id (host.tell turn id))
      pure (id, host.tell turn id)

def openRoot (dir : Nat) (name : Bytes) : Running Nat := do
  let turn ← call host
  let id ← object dir
  match host.child turn id name with
  | none => Effect.fail (.os 2)
  | some id => newHandle id fun child => .entered dir name child id

/-- `Open(".")` -/
def openSelf (dir : Nat) : Running Nat := do
  let _ ← call host
  let id ← object dir
  newHandle id fun file => .reopened dir file

/-- `Stat(".")` of a directory, `Stat` of a file. -/
def stat (handle : Nat) : Running (Nat × FileInfo) := do
  let turn ← call host
  let id ← object handle
  record (.told handle (host.tell turn id))
  pure (id, host.tell turn id)

def mkdir (dir : Nat) (name : Bytes) : Running Unit := do
  let turn ← call host
  let id ← object dir
  match host.lookup turn id name with
  | some _ => Effect.fail (.os 17)
  | none => record (.made dir name)

/-- `OpenFile` with `O_CREATE` and `O_EXCL`. -/
def openExclusive (dir : Nat) (name : Bytes) : Running Nat := do
  let turn ← call host
  let id ← object dir
  match host.lookup turn id name with
  | some _ => Effect.fail (.os 17)
  | none => newHandle (host.fresh turn) fun file => .created dir name file

def write (file : Nat) (data : Bytes) : Running Unit := do
  let calls ← Effect.observe State.calls
  let outcome ← Effect.attempt (call host)
  let _ ← object file
  match outcome with
  | .ok _ => record (.written file data)
  | .error e => do
      record (.written file (data.take (host.accept calls data.length)))
      Effect.fail e

def sync (file : Nat) : Running Unit := do
  let _ ← call host
  let _ ← object file
  record (.synced file)

/-- A handle is closed, even where an error is told. -/
def close (handle : Nat) : Running Unit := do
  let outcome ← Effect.attempt (call host)
  let _ ← object handle
  Effect.modify fun s => { s with handles := s.handles.modify handle fun opened => { opened with closed := true } }
  match outcome with
  | .ok _ => record (.closed handle true)
  | .error e => do
      record (.closed handle false)
      Effect.fail e

/-- A deferred `Close`, whose error is dropped. -/
def deferClose {β : Type} (handle : Nat) (body : Running β) : Running β := do
  let outcome ← Effect.attempt body
  let _ ← Effect.attempt (close host handle)
  Effect.finish outcome

/-! ## Access -/

def makePrivateDirectory (parent : Nat) (name : Bytes) : Running Unit :=
  mkdir host parent name

def newPrivateFile (parent : Nat) (name : Bytes) : Running Nat :=
  openExclusive host parent name

def validateAccess (euid : Int) (info : FileInfo) (isPrivate : Bool) : Except Failure Unit :=
  match info.uid with
  | none => .error (.message "cannot determine bootstrap path ownership")
  | some uid =>
    if euid < 0 then
      .error (.message "cannot determine bootstrap path ownership")
    else
      let owned := (uid : Int) = euid
      if isPrivate then
        if ¬owned ∨ info.perm &&& 0o077 ≠ 0 then
          .error (.message
            "bootstrap parent and files must be owned by the current user and inaccessible to other users")
        else
          .ok ()
      else if (¬owned ∧ uid ≠ 0) ∨ (info.perm &&& 0o022 ≠ 0 ∧ info.sticky = false) then
        .error (.message
          "bootstrap ancestors must be owned by root/current user and protected from other-user replacement")
      else
        .ok ()

/-! ## Directories -/

def openPinnedDirectory (parent : Nat) (name : Bytes) : Running Nat := do
  let (id, info) ← lstat host parent name
  if info.directory = false ∨ info.symlink = true ∨ info.irregular = true then
    Effect.fail (.message "bootstrap path must not contain links or special files")
  else do
    let child ← openRoot host parent name
    let opened ← Effect.attempt (stat host child)
    if opened.toOption.map Prod.fst = some id then
      pure child
    else do
      let _ ← Effect.attempt (close host child)
      Effect.fail (.message "bootstrap path changed during opening")

/-- What `validateDirectory` asks of the directory that it opened as a file. -/
def validateOpened (file : Nat) (isPrivate : Bool) : Running Unit := do
  let info ← Effect.attempt (stat host file)
  match info with
  | .error _ => Effect.fail (.message "bootstrap parent is not a directory")
  | .ok (_, info) =>
    if info.directory = false then
      Effect.fail (.message "bootstrap parent is not a directory")
    else
      Effect.finish (validateAccess host.geteuid info isPrivate)

def validateDirectory (root : Nat) (isPrivate : Bool) : Running Unit := do
  let file ← openSelf host root
  deferClose host file (validateOpened host file isPrivate)

/-- `filepath.IsLocal` on Unix. -/
def isLocal (path : Bytes) : Bool :=
  if FS.HostPath.isAbs path ∨ path = [] then
    false
  else
    let hasDots := (path.splitOn (chr '/')).any fun part => part = lit "." ∨ part = lit ".."
    let path := if hasDots then FS.Path.clean path else path
    !(path = lit ".." ∨ Go.hasPrefix path (lit "../"))

/-- The names below the file system root that lead to the new directory.  A Unix path has no volume name. -/
def bootstrapParts (outDir : Bytes) : Except Failure (List Bytes) :=
  match FS.HostPath.abs host.workingDirectory outDir with
  | none => .error (.os 2)
  | some absolute =>
    match FS.HostPath.rel (lit "/") absolute with
    | none => .error (.message "bootstrap directory must be a new child of a private parent")
    | some relative =>
      if relative = lit "." ∨ isLocal relative = false then
        .error (.message "bootstrap directory must be a new child of a private parent")
      else
        .ok (relative.splitOn (chr '/'))

/-- The loop of `createBootstrapDirectory`.  It gives its parent up for the child, and closes it where it fails. -/
def descend (parent : Nat) : List Bytes → Running Nat
  | [] => pure parent
  | part :: more => do
      let child ← deferClose host parent (openPinnedDirectory host parent part)
      let valid ← Effect.attempt (validateDirectory host child (more = []))
      match valid with
      | .ok () => descend child more
      | .error e => do
          let _ ← Effect.attempt (close host child)
          Effect.fail e

/-- The new directory itself. -/
def createBelow (parent : Nat) (name : Bytes) : Running Nat := do
  let made ← Effect.attempt (makePrivateDirectory host parent name)
  match made with
  | .error e =>
      Effect.fail (.notCreated e)
  | .ok () => do
      let directory ← openPinnedDirectory host parent name
      let valid ← Effect.attempt (validateDirectory host directory true)
      match valid with
      | .ok () => pure directory
      | .error e => do
          let _ ← Effect.attempt (close host directory)
          Effect.fail e

def createBootstrapDirectory (outDir : Bytes) : Running Nat := do
  let parts ← Effect.finish (bootstrapParts host outDir)
  let anchor ← openAnchor host
  let parent ← descend host anchor parts.dropLast
  deferClose host parent (
    if parts.length = 1 then
      Effect.fail (.message "bootstrap parent must be a private directory below the filesystem root")
    else
      createBelow host parent (parts.getLastD []))

/-! ## Files -/

/-- What `writePrivateFile` does with the file that it created. -/
def writeCreated (file : Nat) (data : Bytes) : Running Unit := do
  let info ← Effect.attempt (stat host file)
  match info with
  | .error _ => Effect.fail (.message "bootstrap output is not a regular file")
  | .ok (_, info) =>
    if info.isRegular = false then
      Effect.fail (.message "bootstrap output is not a regular file")
    else do
      -- the opened descriptor is checked before the first secret byte is written
      Effect.finish (validateAccess host.geteuid info true)
      write host file data
      sync host file

def writePrivateFile (directory : Nat) (name data : Bytes) : Running Unit := do
  let file ← newPrivateFile host directory name
  let result ← Effect.attempt (writeCreated host file data)
  let closed ← Effect.attempt (close host file)
  Effect.finish result
  Effect.finish closed

/-- What the cryptography of `credentialFiles` generates. -/
structure Generated where
  caDER : Bytes
  leafDER : Bytes
  keyDER : Bytes
  spki : Bytes
  tokenBytes : Vector UInt8 32

structure Connection where
  version : Nat
  endpoint : Bytes
  token : Bytes
  caCertificatePEM : Bytes
  certificateSHA256 : Bytes
  publicKeyPin : Bytes
  deriving DecidableEq, Repr

/-- The libraries that a launch uses. -/
structure Libraries where
  splitHostPort : Bytes → Option (Bytes × Bytes)
  /-- The sixteen bytes of an address. -/
  parseIP : Bytes → Option (Vector UInt8 16)
  isLoopback : Vector UInt8 16 → Bool
  generate : Bytes → Option Generated
  pem : String → Bytes → Bytes
  marshal : Connection → Option Bytes

variable (libraries : Libraries)

def hexEncode (data : Bytes) : Bytes :=
  data.flatMap hexByte

def generatedToken (generated : Generated) : Bytes :=
  hexEncode generated.tokenBytes.toList

def connectionOf (endpoint : Bytes) (generated : Generated) : Connection where
  version := 1
  endpoint := endpoint
  token := generatedToken generated
  caCertificatePEM := libraries.pem "CERTIFICATE" generated.caDER
  certificateSHA256 := hexEncode (Sha256.digest generated.leafDER).toList
  publicKeyPin := lit "sha256//" ++ Base64.encode (Sha256.digest generated.spki).toList

/-- The map of names to contents. -/
def credentialFiles (hostName endpoint : Bytes) : Option (Bytes → Bytes) := do
  let generated ← libraries.generate hostName
  let config ← libraries.marshal (connectionOf libraries endpoint generated)
  let caPEM := libraries.pem "CERTIFICATE" generated.caDER
  pure fun name =>
    if name = lit "ca.pem" then caPEM
    else if name = lit "certificate.pem" then libraries.pem "CERTIFICATE" generated.leafDER ++ caPEM
    else if name = lit "key.pem" then libraries.pem "PRIVATE KEY" generated.keyDER
    else if name = lit "token" then generatedToken generated ++ lit "\n"
    else if name = lit "connection.json" then config ++ lit "\n"
    else []

/-! ## The command -/

/-- `strconv.Atoi` of digits after at most one sign; the bounds are those of 64 bits. -/
def atoi (text : Bytes) : Option Int :=
  let (negative, digits) := match text with
    | c :: digits => if c = chr '-' then (true, digits) else if c = chr '+' then (false, digits) else (false, text)
    | [] => (false, [])
  if digits = [] ∨ digits.any (fun c => code c < 48 ∨ 57 < code c) then
    none
  else
    let n : Int := digits.foldl (fun n c => n * 10 + (code c - 48)) 0
    let n := if negative then -n else n
    if -2 ^ 63 ≤ n ∧ n < 2 ^ 63 then some n else none

def joinHostPort (hostName : Bytes) (port : Nat) : Bytes :=
  let digits := lit (toString port)
  if chr ':' ∈ hostName then
    lit "[" ++ hostName ++ lit "]:" ++ digits
  else
    hostName ++ lit ":" ++ digits

def bootstrapEndpoint (hostName listen : Bytes) : Except Failure Bytes :=
  if hostName ≠ lit "localhost" ∧ hostName ≠ lit "127.0.0.1" ∧ hostName ≠ lit "::1" then
    .error (.message "-host must be localhost, 127.0.0.1 or ::1")
  else
    match libraries.splitHostPort listen with
    | none => .error (.message "-listen must be a loopback address with a port")
    | some (address, portText) =>
      match libraries.parseIP address, atoi portText with
      | some ip, some port =>
        if libraries.isLoopback ip = false ∨ port < 1 ∨ port > 65535 then
          .error (.message "-listen must be a loopback IP with a port between 1 and 65535")
        else if (libraries.parseIP hostName).any (· ≠ ip) then
          .error (.message "IP -host must match the -listen address")
        else
          .ok (lit "https://" ++ joinHostPort hostName port.toNat)
      | _, _ => .error (.message "-listen must be a loopback IP with a port between 1 and 65535")

/-- `connection.json` is the completion marker. -/
def published : List Bytes :=
  [lit "ca.pem", lit "certificate.pem", lit "key.pem", lit "token", lit "connection.json"]

def writeAll (directory : Nat) (files : Bytes → Bytes) : List Bytes → Running Unit
  | [] => pure ()
  | name :: more => do
      let written ← Effect.attempt (writePrivateFile host directory name (files name))
      match written with
      | .ok () => writeAll directory files more
      | .error e => Effect.fail (.incomplete name e)

def print : Running Unit := do
  let _ ← call host
  record .printed

/-- The values of the flags `-host`, `-listen` and `-out-dir`. -/
def run (hostName listen outDir : Bytes) : Running Unit := do
  let endpoint ← Effect.finish (bootstrapEndpoint libraries hostName listen)
  if outDir = [] then
    Effect.fail (.message "-out-dir is required")
  else do
    let directory ← createBootstrapDirectory host outDir
    deferClose host directory (
      match credentialFiles libraries hostName endpoint with
      | none => Effect.fail (.message "cannot generate bootstrap credentials")
      | some files => do
          writeAll host directory files published
          print host)

end

end Credentials

end Daemon

end CanonicalPath
