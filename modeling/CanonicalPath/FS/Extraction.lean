import CanonicalPath.FS.Copy

/-!
# Extraction — the bytes and the directories that an archive is unpacked to

The extraction of `archive.go` once more, on a tree: which directories are walked and made, which bytes are copied
and when an output file is removed again.  The checks are those of the other model of it.

* `openPinnedDirectoryContext` : the walk to a directory, making what is missing
* `extractZipFile` : one file, below the bytes that are left to it
* `extractZipWithLimits` : all of it
-/

namespace CanonicalPath

namespace FS

open CodeUnit Segments Go

open Traced (Failure)

namespace Disk

section

variable (host : Host)

/-! ## Walking to a directory -/

/-- `os.ErrExist` of a `Mkdir` is no error of the walk. -/
def ignoreExist (outcome : Except (Failure Error HostError) Unit) : Extraction Unit :=
  if outcome = .error (.host .exist) then pure () else Effect.finish outcome

def requireDirectory (code : ErrorCode) (found : Except (Failure Error HostError) Bool) : Extraction Unit :=
  if found = .ok true then
    pure ()
  else
    check (newError code "directory anchor contains a link or non-directory")

/-- Nobody exchanges the directory between `Lstat` and `Stat`, which can fail all the same. -/
def requireSameFile (code : ErrorCode) (found : Except (Failure Error HostError) Unit) : Extraction Unit :=
  if found = .ok () then
    pure ()
  else
    check (newError code "directory anchor changed during opening")

/-- The loop of `openPinnedDirectoryContext`. -/
def openParts (create : Bool) (code : ErrorCode) : List Bytes → List Bytes → Extraction (List Bytes)
  | dir, [] => pure dir
  | dir, part :: more => do
      contextErr
      let made ← Effect.attempt (if create then mkdir host (dir ++ [part]) else pure ())
      ignoreExist made
      contextErr
      let found ← Effect.attempt (lstat host (dir ++ [part]))
      requireDirectory code found
      contextErr
      let child ← openRoot host dir part
      contextErr
      let opened ← Effect.attempt (stat host (lit "."))
      requireSameFile code opened
      openParts create code child more

def openPinnedDirectoryContext (dir : List Bytes) (rel : Bytes) (create : Bool) (code : ErrorCode) :
    Extraction (List Bytes) := do
  contextErr
  let current ← openRoot host dir (lit ".")
  if rel = lit "." then do
    contextErr
    pure current
  else do
    let current ← openParts host create code current (rel.splitOn (chr '/'))
    contextErr
    pure current

def openZipDestination (dir : List Bytes) (rel : Bytes) : Extraction (List Bytes) :=
  openPinnedDirectoryContext host dir rel true .archiveTraversal

/-! ## One file -/

/-- An output file of the tree, as the copy writes to it. -/
def copier (path : List Bytes) : Copier World (Failure Error HostError) where
  contextErr := contextErr
  patience := World.patience
  write := write host path
  checked := .checked
  host := .host

/-- The deferred end: an incomplete output file is removed, and the error of the removal dropped. -/
def endOutput (dir : List Bytes) (entryRel : Bytes) (copied : Except (Failure Error HostError) Nat)
    (closed : Except (Failure Error HostError) Unit) : Extraction Nat :=
  match copied, closed with
  | .ok n, .ok () => pure n
  | .error e, _ => do
      let _ ← Effect.attempt (remove host dir entryRel)
      Effect.fail e
  | .ok _, .error e => do
      let _ ← Effect.attempt (remove host dir entryRel)
      Effect.fail e

/-- The limit of a `LimitedReader` counts from zero. -/
def extractZipFile (reader : Reader) (dir : List Bytes) (entryRel : Bytes) (limit : Int) : Extraction Nat := do
  call host .openEntry
  let path ← openFile host dir entryRel
  let copied ← Effect.attempt ((copier host path).copyBounded reader limit.toNat)
  let closed ← Effect.attempt (call host .close)
  endOutput host dir entryRel copied closed

/-! ## All entries -/

/-- One turn of the extraction loop: the total that is handed on. -/
def extractEntry (limits : ZipLimits) (destination : List Bytes) (total : Int) (member : Member) : Extraction Int :=
  -- the name has passed the preflight, so the error is not looked at again
  let entryRel := (zipEntryPath (lit ".") member.entry.name).toOption.getD []
  if member.entry.mode = .directory then do
    let _ ← openZipDestination host destination entryRel
    pure total
  else do
    let parent ← openZipDestination host destination (Path.dir entryRel)
    let remaining := min limits.maxEntryBytes (limits.maxTotalBytes - total)
    record (.allowance remaining)
    let n ← extractZipFile host member.reader parent (Path.base entryRel) remaining
    pure (total + n)

/-- The extraction loop. -/
def extractEntries (limits : ZipLimits) (destination : List Bytes) : Int → List Member → Extraction Int
  | total, [] => pure total
  | total, member :: more => do
      contextErr
      let total ← extractEntry host limits destination total member
      extractEntries limits destination total more

/-- The preflight loop, with the context that it asks. -/
def preflightEntries (limits : ZipLimits) : ZipPathBudget → UInt64 → List ZipEntry → Extraction Unit
  | _, _, [] => pure ()
  | budget, declared, entry :: more => do
      contextErr
      let next ← check (preflightEntry limits budget declared entry)
      preflightEntries limits next.1 next.2 more

/-- `ExtractZipWithLimits` up to its first write. -/
def prepare (zipRel destRel : Bytes) (limits : ZipLimits) (entries : List ZipEntry) :
    Extraction (ZipLimits × Bytes) := do
  let limits ← check (defaultZipLimits limits)
  check (checkDestinationName limits destRel)
  let _ ← check (cleanRelative zipRel)
  let destClean ← check (cleanRelative destRel)
  contextErr
  let budget ← check (destinationBudget limits destClean)
  contextErrs host.archiveReads
  call host .readArchive
  check (checkEntryCount limits entries)
  preflightEntries limits budget 0 entries
  contextErr
  pure (limits, destClean)

def extractZipWithLimits (zipRel destRel : Bytes) (limits : ZipLimits) (members : List Member) : Extraction Unit := do
  let prepared ← prepare host zipRel destRel limits (members.map Member.entry)
  let destination ← openZipDestination host [] prepared.2
  let _ ← extractEntries host prepared.1 destination 0 members
  pure ()

end

end Disk

end FS

end CanonicalPath
