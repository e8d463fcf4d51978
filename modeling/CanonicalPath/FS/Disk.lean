import CanonicalPath.FS.Archive
import CanonicalPath.Library.Effect
import CanonicalPath.Library.Keyed

/-!
# Disk — a tree below the root handle, and the calls that change it

The host of an extraction, with its data: a tree of files and directories that nobody else writes, a context that
is done sooner or later, and faults that any call can meet.  A path is the list of its components; a pinned
directory handle is the path of its directory.  What the program asks of the tree is logged.

* `Store` : the tree and the log
* `mkdir`, `openFile`, `write`, `remove` : the calls that change the tree
* `Reader` : the decompressed stream of an entry
-/

namespace CanonicalPath

namespace FS

open CodeUnit Segments Go

open Traced (Failure)

namespace Disk

/-! ## Trees -/

inductive Node
  | file (content : Bytes)
  | directory
  /-- A link, a device or the like. -/
  | other
  deriving DecidableEq, Repr

abbrev Tree := AList fun _ : List Bytes => Node

/-- What is asked of the tree. -/
inductive Event
  | mkdir (path : List Bytes)
  | create (path : List Bytes)
  | write (path : List Bytes) (count : Nat)
  /-- The allowance of the next file. -/
  | allowance (remaining : Int)
  deriving DecidableEq, Repr

structure Store where
  tree : Tree
  log : List Event := []

namespace Store

def record (s : Store) (event : Event) : Store :=
  { s with log := s.log ++ [event] }

def insert (s : Store) (path : List Bytes) (node : Node) : Store :=
  { s with tree := s.tree.insert path node }

def erase (s : Store) (path : List Bytes) : Store :=
  { s with tree := s.tree.erase path }

/-- The bytes of a write go behind those of the file. -/
def append (s : Store) (path : List Bytes) (chunk : Bytes) : Store :=
  match s.tree.lookup path with
  | some (.file content) => s.insert path (.file (content ++ chunk))
  | _ => s

/-- Whether something lies below a path. -/
def hasChild (s : Store) (path : List Bytes) : Bool :=
  s.tree.keys.any fun below => decide (path <+: below ∧ path ≠ below)

end Store

/-! ## The host -/

inductive Call
  | readArchive
  | mkdir
  | lstat
  | openRoot
  | stat
  | openEntry
  | openFile
  | write
  | close
  | remove
  deriving DecidableEq, Repr

inductive HostError
  /-- The error of the context. -/
  | done
  | exist
  | notExist
  | notEmpty
  | other (code : Nat)
  deriving DecidableEq, Repr

structure Host where
  /-- The fault of a call, counted from the first one. -/
  fault : Nat → Call → Option HostError
  /-- How much of a write that meets a fault is written. -/
  accept : Nat → Nat → Nat
  /-- How often the archive is read, each time asking the context. -/
  archiveReads : Nat

structure World where
  store : Store
  /-- How often the context answers before it is done; its timeout sees to it that it will be. -/
  patience : Nat
  calls : Nat := 0

abbrev Extraction (β : Type) := Effect World (Failure Error HostError) β

/-- `ctx.Err()`. -/
def contextErr : Extraction Unit := fun w =>
  match w.patience with
  | 0 => (.error (.host .done), w)
  | patience + 1 => (.ok (), { w with patience := patience })

def contextErrs : Nat → Extraction Unit
  | 0 => pure ()
  | count + 1 => do
      contextErr
      contextErrs count

/-- The next call of the host. -/
def call (host : Host) (next : Call) : Extraction Unit := fun w =>
  match host.fault w.calls next with
  | none => (.ok (), { w with calls := w.calls + 1 })
  | some e => (.error (.host e), { w with calls := w.calls + 1 })

/-- A check of the program's own. -/
def check {β : Type} (outcome : Except Error β) : Extraction β :=
  Effect.finish (outcome.mapError Failure.checked)

def changeStore (change : Store → Store) : Extraction Unit :=
  Effect.modify fun w => { w with store := change w.store }

def record (event : Event) : Extraction Unit :=
  changeStore fun s => s.record event

def lookup (path : List Bytes) : Extraction (Option Node) :=
  Effect.observe fun w => w.store.tree.lookup path

/-! ## Directories -/

/-- The object that a handle names by a cleaned path. -/
def below (dir : List Bytes) (clean : Bytes) : List Bytes :=
  if clean = lit "." then dir else dir ++ clean.splitOn (chr '/')

def mkdir (host : Host) (path : List Bytes) : Extraction Unit := do
  record (.mkdir path)
  call host .mkdir
  let node ← lookup path
  if node = none then
    changeStore fun s => s.insert path .directory
  else
    Effect.fail (.host .exist)

/-- `Lstat`, as far as it is asked for: whether there is a directory that is no link. -/
def lstat (host : Host) (path : List Bytes) : Extraction Bool := do
  call host .lstat
  let node ← lookup path
  pure (decide (node = some .directory))

def openRoot (host : Host) (dir : List Bytes) (rel : Bytes) : Extraction (List Bytes) := do
  let clean ← check (cleanRelative rel)
  call host .openRoot
  pure (below dir clean)

def stat (host : Host) (rel : Bytes) : Extraction Unit := do
  let _ ← check (cleanRelative rel)
  call host .stat

/-! ## Files -/

/-- `OpenFile` with `Create` and `Exclusive`: the path of the new file. -/
def openFile (host : Host) (dir : List Bytes) (rel : Bytes) : Extraction (List Bytes) := do
  let clean ← check (cleanRelative rel)
  let path := below dir clean
  record (.create path)
  call host .openFile
  let node ← lookup path
  if path = [] ∨ node ≠ none then
    Effect.fail (.host .exist)
  else do
    changeStore fun s => s.insert path (.file [])
    pure path

/-- A write that meets a fault can have written a part. -/
def write (host : Host) (path : List Bytes) (chunk : Bytes) : Extraction Unit := fun w =>
  match host.fault w.calls .write with
  | none =>
      (.ok (), { w with
        store := (w.store.append path chunk).record (.write path chunk.length)
        calls := w.calls + 1 })
  | some e =>
      let part := chunk.take (host.accept w.calls chunk.length)
      (.error (.host e), { w with
        store := (w.store.append path part).record (.write path part.length)
        calls := w.calls + 1 })

/-- `Remove`: a file or an empty directory. -/
def remove (host : Host) (dir : List Bytes) (rel : Bytes) : Extraction Unit := do
  let clean ← check (cleanRelative rel)
  let path := below dir clean
  call host .remove
  let node ← lookup path
  let held ← Effect.observe fun w => w.store.hasChild path
  if node = none then
    Effect.fail (.host .notExist)
  else if node = some .directory ∧ held = true then
    Effect.fail (.host .notEmpty)
  else
    changeStore fun s => s.erase path

/-! ## Entries -/

/-- How a `Read` ends the stream. -/
inductive ReadEnd
  | eof
  | failed (error : HostError)
  deriving DecidableEq, Repr

/-- An `io.Reader`: what it answers to the last of the buffer sizes so far, the latest first. -/
structure Reader where
  read : List Nat → Bytes × Option ReadEnd
  length_le : ∀ size earlier, (read (size :: earlier)).1.length ≤ size

/-- What the archive lists, and the stream behind it. -/
structure Member where
  entry : ZipEntry
  reader : Reader

end Disk

end FS

end CanonicalPath
