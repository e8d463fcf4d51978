import CanonicalPath.FS.Shared

/-!
# SharedExtraction — an archive unpacked into a tree that others change

The extraction of `archive.go` on the tree of `Shared`, with the handles it opens and closes on the way.  The checks,
the members and their streams are those of the extraction into a tree of its own.

* `extractZipFile` : one file below a pinned parent
* `extractZipWithLimits` : all of it, each handle closed where the program defers its closing
-/

namespace CanonicalPath

namespace FS

open CodeUnit Go

namespace Shared

open Disk (Member Reader)

section

variable (host : Host)

/-- What is deferred is done at the end, and its error dropped. -/
def deferring {β : Type} (deferred : Sharing Unit) (x : Sharing β) : Sharing β := do
  let outcome ← Effect.attempt x
  let _ ← Effect.attempt deferred
  Effect.finish outcome

def contextErrs : Nat → Sharing Unit
  | 0 => pure ()
  | count + 1 => do
      contextErr .timeout
      contextErrs count

def openZipDestination (r : Root) (rel : Bytes) : Sharing Root :=
  openPinnedDirectoryContext host .timeout r rel true .archiveTraversal

/-! ## One file -/

/-- An output file that is open, as the copy writes to it. -/
def copier (dst : Nat) : Copier State OpenError where
  contextErr := contextErr .timeout
  patience := State.patience
  write := write host dst
  checked := .checked
  host := .host

/-- The deferred end: an incomplete output file is removed, and the error of the removal dropped. -/
def endOutput (root : Root) (entryRel : Bytes) (copied : Except OpenError Nat) (closed : Except OpenError Unit) :
    Sharing Nat :=
  match copied, closed with
  | .ok n, .ok () => pure n
  | .error e, _ => do
      let _ ← Effect.attempt (root.remove host entryRel)
      Effect.fail e
  | .ok _, .error e => do
      let _ ← Effect.attempt (root.remove host entryRel)
      Effect.fail e

/-- The limit of a `LimitedReader` counts from zero. -/
def extractZipFile (reader : Reader) (root : Root) (entryRel : Bytes) (limit : Int) : Sharing Nat := do
  call host
  let dst ← root.openFile host entryRel
  let copied ← Effect.attempt ((copier host dst).copyBounded reader limit.toNat)
  let closed ← Effect.attempt (close host dst)
  endOutput host root entryRel copied closed

/-! ## All entries -/

/-- One turn of the extraction loop: the total that is handed on. -/
def extractEntry (limits : ZipLimits) (destination : Root) (total : Int) (member : Member) : Sharing Int :=
  -- the name has passed the preflight, so the error is not looked at again
  let entryRel := (zipEntryPath (lit ".") member.entry.name).toOption.getD []
  if member.entry.mode = .directory then do
    let dir ← openZipDestination host destination entryRel
    let _ ← Effect.attempt (dir.close host)
    pure total
  else do
    let parent ← openZipDestination host destination (Path.dir entryRel)
    let remaining := min limits.maxEntryBytes (limits.maxTotalBytes - total)
    let extracted ← Effect.attempt (extractZipFile host member.reader parent (Path.base entryRel) remaining)
    let _ ← Effect.attempt (parent.close host)
    let n ← Effect.finish extracted
    pure (total + n)

/-- The extraction loop. -/
def extractEntries (limits : ZipLimits) (destination : Root) : Int → List Member → Sharing Int
  | total, [] => pure total
  | total, member :: more => do
      contextErr .timeout
      let total ← extractEntry host limits destination total member
      extractEntries limits destination total more

/-- The preflight loop, with the context that it asks. -/
def preflightEntries (limits : ZipLimits) : ZipPathBudget → UInt64 → List ZipEntry → Sharing Unit
  | _, _, [] => pure ()
  | budget, declared, entry :: more => do
      contextErr .timeout
      let next ← check (preflightEntry limits budget declared entry)
      preflightEntries limits next.1 next.2 more

/-- What is done while the archive is open. -/
def extractArchive (r : Root) (destClean : Bytes) (limits : ZipLimits) (budget : ZipPathBudget)
    (members : List Member) : Sharing Unit := do
  call host
  contextErrs host.archiveReads
  check (checkEntryCount limits (members.map Member.entry))
  preflightEntries limits budget 0 (members.map Member.entry)
  contextErr .timeout
  let destination ← openZipDestination host r destClean
  deferring (destination.close host) do
    let _ ← extractEntries host limits destination 0 members
    pure ()

def extractZipWithLimits (r : Root) (zipRel destRel : Bytes) (limits : ZipLimits) (members : List Member) :
    Sharing Unit := do
  requireSupportedPlatform host
  let limits ← check (defaultZipLimits limits)
  check (checkDestinationName limits destRel)
  let zipClean ← check (cleanRelative zipRel)
  let destClean ← check (cleanRelative destRel)
  contextErr .timeout
  let budget ← check (destinationBudget limits destClean)
  let archiveFile ← openRegularFile host r zipClean
  deferring (close host archiveFile) (extractArchive host r destClean limits budget members)

end

end Shared

end FS

end CanonicalPath
