import CanonicalPath.FS.Validate
import CanonicalPath.Library.Effect

/-!
# Regular — opening regular files below a root that others change meanwhile

`regular.go` and `write.go`, and the system calls they make below a pinned root.  A file is known by its identity; a
name is mapped to one, and before every call others may remap the names, add objects and rewrite contents.  A handle
is the identity of the object it was opened on.  What the calls find and do is logged.

* `Move` : what others do between two calls
* `openFile` : the call, with links followed one lookup after the other
* `openRegularFile`, `writeFile` : the functions of the program
-/

namespace CanonicalPath

namespace FS

open CodeUnit Go

namespace Raced

/-! ## The namespace -/

inductive Kind
  | regular
  | link (target : Bytes)
  /-- A directory, a device, a pipe or the like. -/
  | special
  deriving DecidableEq, Repr

structure Object where
  kind : Kind
  mode : Nat := 0
  content : Bytes := []
  deriving DecidableEq, Repr

/-- What is told of an object; `os.SameFile` compares the identities. -/
structure FileInfo where
  id : Nat
  kind : Kind
  deriving DecidableEq, Repr

/-- An identity is a place in the list of all objects there have been, so that none is given twice. -/
structure World where
  names : Bytes → Option Nat
  objects : List Object

namespace World

def kind? (w : World) (id : Nat) : Option Kind :=
  w.objects[id]?.map Object.kind

def content? (w : World) (id : Nat) : Option Bytes :=
  w.objects[id]?.map Object.content

def find (w : World) (name : Bytes) : Option FileInfo :=
  (w.names name).bind fun id => (w.kind? id).map fun kind => ⟨id, kind⟩

/-- The new object gets the next identity. -/
def create (w : World) (name : Bytes) (object : Object) : World :=
  { names := Function.update w.names name (some w.objects.length)
    objects := w.objects ++ [object] }

def change (w : World) (id : Nat) (f : Bytes → Bytes) : World :=
  { w with objects := w.objects.modify id fun object => { object with content := f object.content } }

end World

/-! ## The others -/

structure Move where
  names : (Bytes → Option Nat) → Bytes → Option Nat
  rewrite : Nat → Bytes → Bytes
  added : List Object

/-- Every object keeps its identity and its kind. -/
def World.moved (w : World) (move : Move) : World :=
  { names := move.names w.names
    objects := w.objects.mapIdx (fun id object => { object with content := move.rewrite id object.content }) ++ move.added }

inductive OSError
  | notExist
  | exist
  | invalid
  | tooManyLinks
  | other (code : Nat)
  deriving DecidableEq, Repr

inductive OpenError
  | checked (error : Error)
  | unsupportedOperation
  | os (error : OSError)
  deriving DecidableEq, Repr

structure Host where
  rootConfinementSupported : Bool := true
  regularFilesSupported : Bool := true
  /-- Whether the platform's `regularOpenFlags` are `O_NONBLOCK`. -/
  nonblock : Bool := true
  maxSymlinks : Nat
  /-- What the others do before a call, counted from the first one. -/
  moves : Nat → Move
  fault : Nat → Option OSError
  /-- How much of a write that meets a fault is written. -/
  accept : Nat → Nat → Nat

/-- What the others alone make of a content, up to a call. -/
def Host.rewritten (host : Host) (id : Nat) : Nat → Bytes → Bytes
  | 0, content => content
  | calls + 1, content => (host.moves calls).rewrite id (host.rewritten id calls content)

/-! ## System calls -/

inductive Event
  | lstat (info : FileInfo)
  | created (id : Nat) (exclusive : Bool)
  | stat (info : FileInfo)
  | truncated (id : Nat)
  | written (id : Nat)
  deriving DecidableEq, Repr

structure State where
  world : World
  log : List Event := []
  calls : Nat := 0

abbrev Opening (β : Type) := Effect State OpenError β

/-- The others move, then the call is made; one that meets a fault does nothing. -/
def call (host : Host) : Opening Unit := fun s =>
  let moved := { s with world := s.world.moved (host.moves s.calls), calls := s.calls + 1 }
  match host.fault s.calls with
  | none => (.ok (), moved)
  | some e => (.error (.os e), moved)

def record (event : Event) : Opening Unit :=
  Effect.modify fun s => { s with log := s.log ++ [event] }

structure Flags where
  readWrite : Bool := false
  create : Bool := false
  truncate : Bool := false
  append : Bool := false
  exclusive : Bool := false
  nonblock : Bool := false
  deriving DecidableEq, Repr

/-- `Lstat`: the object of a name, which may be a link. -/
def lstat (host : Host) (name : Bytes) : Opening FileInfo := do
  call host
  let found ← Effect.observe fun s => s.world.find name
  match found with
  | none => Effect.fail (.os .notExist)
  | some info => do
      record (.lstat info)
      pure info

/-- `Stat` of a handle. -/
def stat (host : Host) (f : Nat) : Opening FileInfo := do
  call host
  let found ← Effect.observe fun s => s.world.kind? f
  match found with
  | none => Effect.fail (.os .invalid)
  | some kind => do
      record (.stat ⟨f, kind⟩)
      pure ⟨f, kind⟩

/-- `Truncate(0)` of a handle. -/
def truncate (host : Host) (f : Nat) : Opening Unit := do
  call host
  Effect.modify fun s => { s with world := s.world.change f fun _ => [] }
  record (.truncated f)

def close (host : Host) : Opening Unit :=
  call host

def createFile (name : Bytes) (flags : Flags) (mode : Nat) : Opening Nat := do
  let id ← Effect.observe fun s => s.world.objects.length
  Effect.modify fun s => { s with world := s.world.create name { kind := .regular, mode := mode } }
  record (.created id flags.exclusive)
  pure id

/-- The opening of an object that is no link, or of a link that may not be followed. -/
def openObject (flags : Flags) (info : FileInfo) : Opening Nat :=
  if flags.truncate = true ∧ info.kind = .regular then do
    Effect.modify fun s => { s with world := s.world.change info.id fun _ => [] }
    record (.truncated info.id)
    pure info.id
  else
    pure info.id

/-- `OpenFile`: every link that is followed is one more lookup, and others can move in between. -/
def openFile (host : Host) (flags : Flags) (mode : Nat) : Nat → Bytes → Opening Nat
  | 0, _ => Effect.fail (.os .tooManyLinks)
  | hops + 1, name => do
      call host
      let found ← Effect.observe fun s => s.world.find name
      match found with
      | none => if flags.create = true then createFile name flags mode else Effect.fail (.os .notExist)
      | some info =>
          if flags.create = true ∧ flags.exclusive = true then
            Effect.fail (.os .exist)
          else
            match info.kind with
            | .link target => openFile host flags mode hops target
            | _ => openObject flags info

/-- `Write` of a handle, behind the opening: at its start, or at its end where it appends. -/
def writeAt (append : Bool) (data content : Bytes) : Bytes :=
  if append = true then content ++ data else data ++ content.drop data.length

def write (host : Host) (append : Bool) (f : Nat) (data : Bytes) : Opening Unit := do
  let calls ← Effect.observe State.calls
  let outcome ← Effect.attempt (call host)
  let part := if outcome = .ok () then data else data.take (host.accept calls data.length)
  Effect.modify fun s => { s with world := s.world.change f (writeAt append part) }
  record (.written f)
  Effect.finish outcome

/-! ## The program -/

structure Root where
  /-- Whether it holds a handle. -/
  root : Bool := true
  rejectFileLinks : Bool

structure OpenOptions where
  create : Bool := false
  truncate : Bool := false
  append : Bool := false
  exclusive : Bool := false
  mode : Nat := 0
  deriving DecidableEq, Repr

def check {β : Type} (outcome : Except Error β) : Opening β :=
  Effect.finish (outcome.mapError OpenError.checked)

def requireSupportedPlatform (host : Host) : Opening Unit :=
  if host.rootConfinementSupported = true then pure () else Effect.fail .unsupportedOperation

def Root.rootHandle (host : Host) (r : Root) : Opening Unit := do
  requireSupportedPlatform host
  if r.root = true then pure () else Effect.fail (.os .invalid)

/-- The look at the leaf before the opening: a missing one is left to an exclusive creation. -/
def lstatBefore (host : Host) (clean : Bytes) (flags : Flags) : Opening (Option FileInfo) := do
  let before ← Effect.attempt (lstat host clean)
  match before with
  | .ok info =>
      if info.kind = .regular then
        pure (some info)
      else
        check (newError .symlinkEscape "scoped file must be a regular file without links")
  | .error e =>
      if e = .os .notExist ∧ flags.create = true then pure none else Effect.fail e

/-- What is asked of an opened handle before it is used. -/
def checkOpened (host : Host) (before : Option FileInfo) (flags : Flags) (f : Nat) : Opening Unit := do
  let info ← stat host f
  if info.kind ≠ .regular then
    Effect.fail .unsupportedOperation
  else if before.any (fun seen => seen.id ≠ info.id) = true then
    check (newError .raceDetected "scoped file changed during opening")
  else if flags.truncate = true then
    truncate host f
  else
    pure ()

def openRegularFile (host : Host) (r : Root) (rel : Bytes) (flags : Flags) (mode : Nat) : Opening Nat := do
  requireSupportedPlatform host
  if host.regularFilesSupported = true then do
    let clean ← check (cleanRelative rel)
    r.rootHandle host
    let before ← if r.rejectFileLinks = true then lstatBefore host clean flags else pure none
    -- a missing leaf must be created exclusively; never follow a raced link
    let flags := if r.rejectFileLinks = true ∧ before = none then { flags with exclusive := true } else flags
    let opened := { flags with truncate := false, nonblock := host.nonblock }
    let f ← openFile host opened mode (host.maxSymlinks + 1) clean
    let checked ← Effect.attempt (checkOpened host before flags f)
    match checked with
    | .ok () => pure f
    | .error e => do
        let _ ← Effect.attempt (close host)
        Effect.fail e
  else
    Effect.fail .unsupportedOperation

def openFlags (opts : OpenOptions) : Flags :=
  { readWrite := opts.create || opts.truncate || opts.append || opts.exclusive
    create := opts.create || opts.exclusive
    truncate := opts.truncate
    append := opts.append
    exclusive := opts.exclusive }

/-- `openMode`: `0o644` where none is given. -/
def openMode (opts : OpenOptions) : Nat :=
  if opts.mode = 0 then 420 else opts.mode

def writeFile (host : Host) (r : Root) (rel : Bytes) (data : Bytes) (opts : OpenOptions) : Opening Unit := do
  requireSupportedPlatform host
  let opts := if opts.append = true then opts else { opts with truncate := true }
  let opts := { opts with create := true }
  let f ← openRegularFile host r rel (openFlags opts) (openMode opts)
  let outcome ← Effect.attempt (write host opts.append f data)
  let _ ← Effect.attempt (close host)
  Effect.finish outcome

end Raced

end FS

end CanonicalPath
