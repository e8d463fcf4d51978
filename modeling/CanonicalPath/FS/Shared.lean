import CanonicalPath.FS.Extraction

/-!
# Shared — a tree that others change while it is walked

`root.go`, `mkdir.go`, `walk.go`, `regular.go` and the walk of `archive.go`, with the system calls they make on pinned
directories.  An object is known by its identity and keeps its kind; before every call others may put any objects under
any names.  A handle is a place in the table of all handles there have been, so that none is given twice.

* `Move` : what others do between two calls
* `openRegularFile` : a file, opened for reading
* `openPinnedDirectoryContext`, `openScopedRoot` : the walk to a directory, one handle after the other
* `Root.stat`, `Root.mkdirAll`, `Root.remove` : operations below a root
-/

namespace CanonicalPath

namespace FS

open CodeUnit Go

namespace Shared

/-! ## The tree -/

inductive Kind
  | directory
  | regular
  | link
  /-- A device, a pipe or the like. -/
  | special
  deriving DecidableEq, Repr

/-- What is told of an object; `os.SameFile` compares the identities. -/
structure FileInfo where
  id : Nat
  kind : Kind
  deriving DecidableEq, Repr

structure Entry where
  dir : Nat
  name : Bytes
  id : Nat
  deriving DecidableEq, Repr

/-- An identity is a place in the list of all objects there have been. -/
structure World where
  entries : List Entry
  objects : List Kind

namespace World

def told (w : World) (id : Nat) : Option FileInfo :=
  w.objects[id]?.map fun kind => ⟨id, kind⟩

def find (w : World) (dir : Nat) (name : Bytes) : Option FileInfo :=
  (w.entries.find? fun entry => entry.dir = dir ∧ entry.name = name).bind fun entry => w.told entry.id

/-- The new object gets the next identity. -/
def make (w : World) (dir : Nat) (name : Bytes) (kind : Kind) : World :=
  { entries := ⟨dir, name, w.objects.length⟩ :: w.entries
    objects := w.objects ++ [kind] }

def unlink (w : World) (dir : Nat) (name : Bytes) : World :=
  { w with entries := w.entries.filter fun entry => ¬(entry.dir = dir ∧ entry.name = name) }

def hasChild (w : World) (id : Nat) : Bool :=
  w.entries.any fun entry => entry.dir = id

end World

/-! ## The others -/

structure Move where
  entries : List Entry → List Entry
  added : List Kind

/-- Every object keeps its identity and its kind. -/
def World.moved (w : World) (move : Move) : World :=
  { entries := move.entries w.entries
    objects := w.objects ++ move.added }

structure Host where
  rootConfinementSupported : Bool := true
  regularFilesSupported : Bool := true
  /-- What the others do before a call, counted from the first one. -/
  moves : Nat → Move
  fault : Nat → Option Disk.HostError
  /-- The directory that all of a longer path but its last name leads to, links followed. -/
  above : Nat → Nat → Bytes → Nat
  /-- The object that a link leads to. -/
  behind : Nat → Nat → Bytes → Option Nat
  /-- How much of a write that meets a fault is written. -/
  accept : Nat → Nat → Nat
  /-- How often the archive is read, each time asking the context. -/
  archiveReads : Nat

/-! ## States -/

structure Handle where
  object : Nat
  closed : Bool := false
  deriving DecidableEq, Repr

inductive Event
  | made (dir : Nat) (name : Bytes) (id : Nat)
  | lstat (dir : Nat) (name : Bytes) (info : FileInfo)
  | created (dir : Nat) (name : Bytes) (id : Nat)
  | written (id : Nat) (chunk : Bytes)
  | removed (dir : Nat) (name : Bytes)
  /-- A call on a handle that is not open. -/
  | stale (handle : Nat)
  deriving DecidableEq, Repr

inductive OpenError
  | checked (error : Error)
  | unsupportedOperation
  | invalid
  | closed
  | notDirectory
  | host (error : Disk.HostError)
  deriving DecidableEq, Repr

structure State where
  world : World
  handles : List Handle
  /-- How often the context answers before it is done. -/
  patience : Nat := 0
  log : List Event := []
  calls : Nat := 0

abbrev Sharing (β : Type) := Effect State OpenError β

inductive Context
  | background
  | timeout
  deriving DecidableEq, Repr

/-- `ctx.Err()`. -/
def contextErr : Context → Sharing Unit
  | .background => pure ()
  | .timeout => fun s =>
      match s.patience with
      | 0 => (.error (.host .done), s)
      | patience + 1 => (.ok (), { s with patience := patience })

def check {β : Type} (outcome : Except Error β) : Sharing β :=
  Effect.finish (outcome.mapError OpenError.checked)

/-! ## System calls -/

section

variable (host : Host)

/-- The others move, then the call is made; one that meets a fault does nothing. -/
def call : Sharing Unit := fun s =>
  let moved := { s with world := s.world.moved (host.moves s.calls), calls := s.calls + 1 }
  match host.fault s.calls with
  | none => (.ok (), moved)
  | some e => (.error (.host e), moved)

def record (event : Event) : Sharing Unit :=
  Effect.modify fun s => { s with log := s.log ++ [event] }

/-- The object of an open handle. -/
def object (handle : Nat) : Sharing Nat := do
  let handles ← Effect.observe State.handles
  match handles[handle]? with
  | some ⟨id, false⟩ => pure id
  | _ => do
      record (.stale handle)
      Effect.fail .closed

def newHandle (id : Nat) : Sharing Nat := do
  let handle ← Effect.observe fun s => s.handles.length
  Effect.modify fun s => { s with handles := s.handles ++ [⟨id, false⟩] }
  pure handle

/-- A handle is closed, even where an error is told. -/
def close (handle : Nat) : Sharing Unit := do
  let outcome ← Effect.attempt (call host)
  let _ ← object handle
  Effect.modify fun s => { s with handles := s.handles.modify handle fun opened => { opened with closed := true } }
  Effect.finish outcome

/-- The directory of a name below another one. -/
def parent (dir : Nat) (name : Bytes) : Sharing Nat :=
  if chr '/' ∈ name then
    Effect.observe fun s => host.above s.calls dir name
  else
    pure dir

/-- The place of a name below a directory, and what is there. -/
def look (handle : Nat) (name : Bytes) : Sharing (Nat × Option FileInfo) := do
  call host
  let dir ← object handle
  if name = lit "." then do
    let found ← Effect.observe fun s => s.world.told dir
    pure (dir, found)
  else do
    let dir ← parent host dir name
    let found ← Effect.observe fun s => s.world.find dir (Path.base name)
    pure (dir, found)

def create (kind : Kind) (event : Nat → Event) (dir : Nat) (name : Bytes) : Sharing Nat := do
  let id ← Effect.observe fun s => s.world.objects.length
  Effect.modify fun s => { s with world := s.world.make dir name kind }
  record (event id)
  pure id

def mkdir (handle : Nat) (name : Bytes) : Sharing Unit := do
  let found ← look host handle name
  match found.2 with
  | some _ => Effect.fail (.host .exist)
  | none => do
      let _ ← create .directory (.made found.1 (Path.base name)) found.1 (Path.base name)
      pure ()

/-- `Lstat`, which does not follow the last name. -/
def lstat (handle : Nat) (name : Bytes) : Sharing FileInfo := do
  let found ← look host handle name
  match found.2 with
  | none => Effect.fail (.host .notExist)
  | some info => do
      record (.lstat found.1 (Path.base name) info)
      pure info

/-- `Stat`, which follows a link to whatever it leads to. -/
def stat (handle : Nat) (name : Bytes) : Sharing FileInfo := do
  let found ← look host handle name
  match found.2 with
  | none => Effect.fail (.host .notExist)
  | some info =>
      if info.kind = .link ∧ name ≠ lit "." then do
        let target ← Effect.observe fun s => (host.behind s.calls found.1 name).bind s.world.told
        match target with
        | none => Effect.fail (.host .notExist)
        | some info => pure info
      else
        pure info

def openRoot (handle : Nat) (name : Bytes) : Sharing Nat := do
  let info ← stat host handle name
  if info.kind = .directory then newHandle info.id else Effect.fail .notDirectory

/-- `OpenFile` with `O_CREATE` and `O_EXCL`. -/
def openExclusive (handle : Nat) (name : Bytes) : Sharing Nat := do
  let found ← look host handle name
  match found.2 with
  | some _ => Effect.fail (.host .exist)
  | none => do
      let id ← create .regular (.created found.1 (Path.base name)) found.1 (Path.base name)
      newHandle id

/-- A write that meets a fault can have written a part. -/
def write (handle : Nat) (chunk : Bytes) : Sharing Unit := do
  let calls ← Effect.observe State.calls
  let outcome ← Effect.attempt (call host)
  let id ← object handle
  record (.written id (if outcome = .ok () then chunk else chunk.take (host.accept calls chunk.length)))
  Effect.finish outcome

/-- `Remove`: a name of anything but a directory that is not empty. -/
def remove (handle : Nat) (name : Bytes) : Sharing Unit := do
  let found ← look host handle name
  match found.2 with
  | none => Effect.fail (.host .notExist)
  | some info => do
      let held ← Effect.observe fun s => s.world.hasChild info.id
      if info.kind = .directory ∧ held = true then
        Effect.fail (.host .notEmpty)
      else do
        Effect.modify fun s => { s with world := s.world.unlink found.1 (Path.base name) }
        record (.removed found.1 (Path.base name))

end

/-! ## Roots -/

structure Root where
  /-- The handle, where there is one. -/
  root : Option Nat
  rejectFileLinks : Bool := false
  deriving DecidableEq, Repr

section

variable (host : Host)

def requireSupportedPlatform : Sharing Unit :=
  if host.rootConfinementSupported = true then pure () else Effect.fail .unsupportedOperation

namespace Root

def rootHandle (r : Root) : Sharing Nat := do
  requireSupportedPlatform host
  match r.root with
  | none => Effect.fail .invalid
  | some handle => pure handle

def openRoot (r : Root) (rel : Bytes) : Sharing Root := do
  requireSupportedPlatform host
  let clean ← check (cleanRelative rel)
  let handle ← r.rootHandle host
  let child ← Shared.openRoot host handle clean
  pure { root := some child }

def close (r : Root) : Sharing Unit := do
  requireSupportedPlatform host
  match r.root with
  | none => pure ()
  | some handle => Shared.close host handle

def stat (r : Root) (rel : Bytes) : Sharing FileInfo := do
  requireSupportedPlatform host
  let clean ← check (cleanRelative rel)
  let root ← r.rootHandle host
  if r.rejectFileLinks = true then do
    let before ← lstat host root clean
    if before.kind = .link then
      check (newError .symlinkEscape "scoped stat cannot follow a file link")
    else do
      let info ← Shared.stat host root clean
      if before.id = info.id then
        pure info
      else
        check (newError .raceDetected "scoped path changed during stat")
  else
    Shared.stat host root clean

/-- What is done about a `Mkdir` that failed. -/
def existing (root : Nat) (current : Bytes) (error : OpenError) : Sharing Unit :=
  if error = .host .exist then do
    let found ← Effect.attempt (Shared.stat host root current)
    match found with
    | .error _ => Effect.fail error
    | .ok info => if info.kind = .directory then pure () else Effect.fail error
  else
    Effect.fail error

/-- The loop of `MkdirAll`. -/
def mkdirParts (root : Nat) : Bytes → List Bytes → Sharing Unit
  | _, [] => pure ()
  | current, part :: more => do
      let current := if current = [] then part else current ++ chr '/' :: part
      let made ← Effect.attempt (mkdir host root current)
      match made with
      | .ok () => mkdirParts root current more
      | .error e => do
          existing host root current e
          mkdirParts root current more

def mkdirAll (r : Root) (rel : Bytes) : Sharing Unit := do
  requireSupportedPlatform host
  let clean ← check (cleanRelative rel)
  let root ← r.rootHandle host
  if clean = lit "." then pure () else mkdirParts host root [] (clean.splitOn (chr '/'))

/-- `OpenFile` with `Create` and `Exclusive`. -/
def openFile (r : Root) (rel : Bytes) : Sharing Nat := do
  requireSupportedPlatform host
  let clean ← check (cleanRelative rel)
  let root ← r.rootHandle host
  openExclusive host root clean

def remove (r : Root) (rel : Bytes) : Sharing Unit := do
  requireSupportedPlatform host
  let clean ← check (cleanRelative rel)
  let root ← r.rootHandle host
  Shared.remove host root clean

end Root

/-! ## Reading a file -/

def requireRegularFiles : Sharing Unit :=
  if host.regularFilesSupported = true then pure () else Effect.fail .unsupportedOperation

/-- What a scoped root asks of a file before it is opened. -/
def lstatRegular (r : Root) (root : Nat) (clean : Bytes) : Sharing (Option FileInfo) :=
  if r.rejectFileLinks = true then do
    let before ← lstat host root clean
    if before.kind = .regular then
      pure (some before)
    else
      check (newError .symlinkEscape "scoped file must be a regular file without links")
  else
    pure none

/-- What is asked of a file that was opened, whose `Stat` is that of its handle itself. -/
def checkOpened (before : Option FileInfo) (file : Nat) : Sharing Unit := do
  let info ← stat host file (lit ".")
  if info.kind ≠ .regular then
    Effect.fail .unsupportedOperation
  else if ∀ seen ∈ before, seen.id = info.id then
    pure ()
  else
    check (newError .raceDetected "scoped file changed during opening")

/-- `openRegularFile` for reading, which follows a link where the root does not reject it. -/
def openRegularFile (r : Root) (rel : Bytes) : Sharing Nat := do
  requireSupportedPlatform host
  requireRegularFiles host
  let clean ← check (cleanRelative rel)
  let root ← r.rootHandle host
  let before ← lstatRegular host r root clean
  let info ← stat host root clean
  let file ← newHandle info.id
  let checked ← Effect.attempt (checkOpened host before file)
  match checked with
  | .ok () => pure file
  | .error e => do
      let _ ← Effect.attempt (close host file)
      Effect.fail e

/-! ## The walk to a directory -/

/-- A root is closed where what is done with it fails. -/
def orClose {β : Type} (current : Root) (x : Sharing β) : Sharing β := do
  let outcome ← Effect.attempt x
  match outcome with
  | .ok b => pure b
  | .error e => do
      let _ ← Effect.attempt (current.close host)
      Effect.fail e

/-- `os.ErrExist` of a `Mkdir` is no error of the walk. -/
def makePart (create : Bool) (handle : Nat) (part : Bytes) : Sharing Unit :=
  if create = true then do
    let made ← Effect.attempt (mkdir host handle part)
    if made = .error (.host .exist) then pure () else Effect.finish made
  else
    pure ()

def lstatDirectory (code : ErrorCode) (handle : Nat) (part : Bytes) : Sharing FileInfo := do
  let found ← Effect.attempt (lstat host handle part)
  match found with
  | .ok ⟨id, .directory⟩ => pure ⟨id, .directory⟩
  | _ => check (newError code "directory anchor contains a link or non-directory")

def statSame (code : ErrorCode) (info : FileInfo) (child : Root) : Sharing Unit := do
  let found ← Effect.attempt (child.stat host (lit "."))
  match found with
  | .ok opened =>
      if info.id = opened.id then pure () else check (newError code "directory anchor changed during opening")
  | .error _ => check (newError code "directory anchor changed during opening")

/-- The loop of `openPinnedDirectoryContext`. -/
def openParts (ctx : Context) (create : Bool) (code : ErrorCode) : Root → List Bytes → Sharing Root
  | current, [] => pure current
  | current, part :: more => do
      orClose host current (contextErr ctx)
      let handle ← current.rootHandle host
      orClose host current (makePart host create handle part)
      orClose host current (contextErr ctx)
      let info ← orClose host current (lstatDirectory host code handle part)
      orClose host current (contextErr ctx)
      let opened ← Effect.attempt (current.openRoot host part)
      let _ ← Effect.attempt (current.close host)
      let child ← Effect.finish opened
      orClose host child (contextErr ctx)
      orClose host child (statSame host code info child)
      openParts ctx create code child more

def openPinnedDirectoryContext (ctx : Context) (r : Root) (rel : Bytes) (create : Bool) (code : ErrorCode) :
    Sharing Root := do
  requireSupportedPlatform host
  contextErr ctx
  let current ← r.openRoot host (lit ".")
  if rel = lit "." then do
    orClose host current (contextErr ctx)
    pure current
  else do
    let current ← openParts host ctx create code current (rel.splitOn (chr '/'))
    orClose host current (contextErr ctx)
    pure current

def openPinnedDirectory (r : Root) (rel : Bytes) (create : Bool) (code : ErrorCode) : Sharing Root :=
  openPinnedDirectoryContext host .background r rel create code

def openScopedRoot (r : Root) (rel : Bytes) (create : Bool) : Sharing Root := do
  requireSupportedPlatform host
  let clean ← check (cleanRelative rel)
  if clean = lit "." then
    check (newError .outsideRoot "scope must be narrower than the project root")
  else do
    let child ← openPinnedDirectory host r clean create .symlinkEscape
    pure { child with rejectFileLinks := true }

end

end Shared

end FS

end CanonicalPath
