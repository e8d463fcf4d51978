import CanonicalPath.FS.Validate
import CanonicalPath.Library.Traced

/-!
# Archive — bounded extraction of ZIP archives

`archive.go` of the filesystem layer, on a platform with root confinement.  The host answers for the
filesystem, the archive bytes, the clock and the context; the entries are what the archive reader
lists.  The number of bytes an entry really expands to, and so the limit on it, is the host's as well.
What the program decides itself are the checks before the first write and the names of the path
operations behind them, which are logged.
-/

namespace CanonicalPath

namespace FS

open CodeUnit Segments Go Traced

/-! ## Limits -/

structure ZipLimits where
  maxArchiveBytes : Int := 0
  maxEntries : Int := 0
  maxEntryBytes : Int := 0
  maxTotalBytes : Int := 0
  maxCompressionRatio : UInt64 := 0
  maxDuration : Int := 0
  maxEntryNameBytes : Int := 0
  maxPathDepth : Int := 0
  maxTotalPathComponents : Int := 0
  maxDirectories : Int := 0
  maxObjects : Int := 0
  deriving DecidableEq, Repr

/-- A limit of zero selects its default. -/
def orDefault (limit default : Int) : Int :=
  if limit = 0 then default else limit

def defaultZipLimits (l : ZipLimits) : Except Error ZipLimits :=
  if l.maxArchiveBytes < 0 ∨ l.maxEntries < 0 ∨ l.maxEntryBytes < 0 ∨ l.maxTotalBytes < 0 ∨
      l.maxDuration < 0 ∨ l.maxEntryNameBytes < 0 ∨ l.maxPathDepth < 0 ∨
      l.maxTotalPathComponents < 0 ∨ l.maxDirectories < 0 ∨ l.maxObjects < 0 then
    newError .readLimitExceeded "invalid ZIP limits"
  else
    .ok {
      maxArchiveBytes := orDefault l.maxArchiveBytes (64 * 1048576)
      maxEntries := orDefault l.maxEntries 1000
      maxEntryBytes := orDefault l.maxEntryBytes (16 * 1048576)
      maxTotalBytes := orDefault l.maxTotalBytes (64 * 1048576)
      maxCompressionRatio := if l.maxCompressionRatio = 0 then 1000 else l.maxCompressionRatio
      -- thirty seconds, in nanoseconds
      maxDuration := orDefault l.maxDuration 30000000000
      maxEntryNameBytes := orDefault l.maxEntryNameBytes 4096
      maxPathDepth := orDefault l.maxPathDepth 64
      maxTotalPathComponents := orDefault l.maxTotalPathComponents 16384
      maxDirectories := orDefault l.maxDirectories 4096
      maxObjects := orDefault l.maxObjects 8192 }

/-! ## Path budget -/

structure ZipPathBudget where
  limits : ZipLimits
  destinationDepth : Int
  components : Int := 0
  directories : Int := 0
  objects : Int := 0
  deriving DecidableEq, Repr

def zipPathDepth (rel : Bytes) : Int :=
  if rel = lit "." then 0 else (rel.count (chr '/') : Int) + 1

def ZipPathBudget.add (b : ZipPathBudget) (rel : Bytes) (directory destination : Bool) :
    Except Error ZipPathBudget :=
  let depth := zipPathDepth rel
  let parentDepth := if destination then 0 else b.destinationDepth
  if parentDepth > b.limits.maxPathDepth ∨ depth > b.limits.maxPathDepth - parentDepth then
    newError .readLimitExceeded "ZIP output path depth exceeds limit"
  else
    let directories := if directory then depth else depth - 1
    if depth > b.limits.maxTotalPathComponents - b.components ∨
        directories > b.limits.maxDirectories - b.directories ∨
        depth > b.limits.maxObjects - b.objects then
      newError .readLimitExceeded "ZIP cumulative path or object budget exceeds limit"
    else
      .ok { b with
        components := b.components + depth
        directories := b.directories + directories
        objects := b.objects + depth }

/-! ## Preflight -/

/-- The mode of an entry: links, devices and the like are `special`. -/
inductive FileMode
  | regular
  | directory
  | special
  deriving DecidableEq, Repr

structure ZipEntry where
  name : Bytes
  mode : FileMode
  uncompressedSize : UInt64
  compressedSize : UInt64
  deriving DecidableEq, Repr

def zipEntryPath (destRel entryName : Bytes) : Except Error Bytes :=
  if entryName = [] ∨ nul ∈ entryName ∨ chr '\\' ∈ entryName ∨ hasPrefix entryName (lit "/") then
    newError .archiveTraversal "zip entry path is not a safe relative path"
  else
    match cleanRelative entryName with
    | .error _ => newError .archiveTraversal "zip entry escapes destination"
    | .ok entryClean =>
      if entryClean = lit "." then
        newError .archiveTraversal "zip entry escapes destination"
      else
        let joined :=
          if destRel = lit "." then entryClean else destRel ++ lit "/" ++ entryClean
        match cleanRelative joined with
        | .error _ => newError .archiveTraversal "zip entry escapes destination"
        | .ok clean => .ok clean

/-- `uint64(limit)` of a limit that is not negative. -/
def toUInt64 (limit : Int) : UInt64 :=
  UInt64.ofNat limit.toNat

/-- One turn of the preflight loop: the budget and the declared total that are handed on. -/
def preflightEntry (limits : ZipLimits) (budget : ZipPathBudget) (declared : UInt64)
    (entry : ZipEntry) : Except Error (ZipPathBudget × UInt64) :=
  if (entry.name.length : Int) > limits.maxEntryNameBytes then
    newError .readLimitExceeded "ZIP entry name exceeds limit"
  else do
    let entryRel ← zipEntryPath (lit ".") entry.name
    if entry.mode = .special then
      newError .archiveTraversal "ZIP contains a link or special file"
    else do
      let budget ← budget.add entryRel (entry.mode == .directory) false
      let expanded := entry.uncompressedSize
      if expanded > toUInt64 limits.maxEntryBytes ∨
          expanded > toUInt64 limits.maxTotalBytes - declared then
        newError .readLimitExceeded "ZIP expanded output exceeds limit"
      else
        let compressed := entry.compressedSize
        if expanded > 0 ∧
            (compressed = 0 ∨ (expanded - 1) / compressed ≥ limits.maxCompressionRatio) then
          newError .readLimitExceeded "ZIP compression ratio exceeds limit"
        else
          .ok (budget, declared + expanded)

/-- The preflight loop. -/
def preflight (limits : ZipLimits) :
    ZipPathBudget → UInt64 → List ZipEntry → Except Error Unit
  | _, _, [] => .ok ()
  | budget, declared, entry :: more => do
      let next ← preflightEntry limits budget declared entry
      preflight limits next.1 next.2 more

/-! ## Path operations -/

/-- What the program asks the host for. -/
inductive HostCall
  | contextErr
  | readArchive (zipRel : Bytes)
  | mkdir (part : Bytes)
  /-- `Lstat` finds a directory that is no link. -/
  | lstat (part : Bytes)
  | openRoot (clean : Bytes)
  /-- `Stat` finds the directory that was opened. -/
  | stat (clean : Bytes)
  | openEntry
  | openFile (clean : Bytes)
  | copy
  /-- Nothing is left of the entry behind its limit. -/
  | probe
  | close
  | remove (clean : Bytes)
  deriving DecidableEq, Repr

/-- A computation that logs the names of its path operations. -/
abbrev Extract (ε β : Type) := Traced Bytes Error ε β

section

variable {ε : Type} (host : Nat → HostCall → Option ε)

/-- A path operation of `Root`: its name is cleaned, then the host performs it. -/
def pathOperation (call : Bytes → HostCall) (rel : Bytes) : Extract ε Unit := do
  let clean ← validate cleanRelative rel
  ask host (call clean)

/-- The loop of `openPinnedDirectoryContext`. -/
def openParts (create : Bool) : List Bytes → Extract ε Unit
  | [] => pure ()
  | part :: more => do
      ask host .contextErr
      if create then ask host (.mkdir part)
      ask host .contextErr
      ask host (.lstat part)
      ask host .contextErr
      pathOperation host .openRoot part
      ask host .contextErr
      pathOperation host .stat (lit ".")
      openParts create more

def openPinnedDirectoryContext (rel : Bytes) (create : Bool) : Extract ε Unit := do
  ask host .contextErr
  pathOperation host .openRoot (lit ".")
  if rel = lit "." then
    ask host .contextErr
  else do
    openParts host create (rel.splitOn (chr '/'))
    ask host .contextErr

def openZipDestination (rel : Bytes) : Extract ε Unit :=
  openPinnedDirectoryContext host rel true

/-- The deferred end of `extractZipFile`: an incomplete output file is removed, and the error of the
removal dropped. -/
def endOutput (entryRel : Bytes) (copied closed : Except (Failure Error ε) Unit) : Extract ε Unit :=
  match copied, closed with
  | .ok (), .ok () => pure ()
  | .error e, _ => do
      let _ ← attempt (pathOperation host .remove entryRel)
      finish (.error e)
  | _, .error e => do
      let _ ← attempt (pathOperation host .remove entryRel)
      finish (.error e)

def extractZipFile (entryRel : Bytes) : Extract ε Unit := do
  ask host .openEntry
  pathOperation host .openFile entryRel
  let copied ← attempt (ask host .copy >>= fun _ => ask host .probe)
  let closed ← attempt (ask host .close)
  endOutput host entryRel copied closed

/-- One turn of the extraction loop. -/
def extractEntry (entry : ZipEntry) : Extract ε Unit :=
  -- the name has passed the preflight, so the error is not looked at again
  let entryRel := (zipEntryPath (lit ".") entry.name).toOption.getD []
  if entry.mode = .directory then
    openZipDestination host entryRel
  else do
    openZipDestination host (Path.dir entryRel)
    extractZipFile host (Path.base entryRel)

/-- The extraction loop. -/
def extractEntries : List ZipEntry → Extract ε Unit
  | [] => pure ()
  | entry :: more => do
      ask host .contextErr
      extractEntry host entry
      extractEntries more

end

/-! ## Extraction -/

def checkDestinationName (limits : ZipLimits) (destRel : Bytes) : Except Error Unit :=
  if (destRel.length : Int) > limits.maxEntryNameBytes then
    newError .readLimitExceeded "ZIP destination name exceeds limit"
  else
    .ok ()

def checkEntryCount (limits : ZipLimits) (entries : List ZipEntry) : Except Error Unit :=
  if (entries.length : Int) > limits.maxEntries then
    newError .readLimitExceeded "ZIP entry count exceeds limit"
  else
    .ok ()

/-- The budget that the destination leaves. -/
def destinationBudget (limits : ZipLimits) (destClean : Bytes) : Except Error ZipPathBudget :=
  ZipPathBudget.add { limits := limits, destinationDepth := zipPathDepth destClean } destClean true true

/-- The checks of `ExtractZipWithLimits` that no host answers: the cleaned destination of an archive
that passes them. -/
def checkArchive (zipRel destRel : Bytes) (limits : ZipLimits) (entries : List ZipEntry) :
    Except Error Bytes := do
  let limits ← defaultZipLimits limits
  checkDestinationName limits destRel
  let _ ← cleanRelative zipRel
  let destClean ← cleanRelative destRel
  let budget ← destinationBudget limits destClean
  checkEntryCount limits entries
  preflight limits budget 0 entries
  .ok destClean

section

variable {ε : Type} (host : Nat → HostCall → Option ε)

/-- The preflight loop, with the context that it asks for. -/
def preflightEntries (limits : ZipLimits) :
    ZipPathBudget → UInt64 → List ZipEntry → Extract ε Unit
  | _, _, [] => pure ()
  | budget, declared, entry :: more => do
      ask host .contextErr
      let next ← check (preflightEntry limits budget declared entry)
      preflightEntries limits next.1 next.2 more

/-- `ExtractZipWithLimits` up to its first write. -/
def prepare (zipRel destRel : Bytes) (limits : ZipLimits) (entries : List ZipEntry) :
    Extract ε Bytes := do
  let limits ← check (defaultZipLimits limits)
  check (checkDestinationName limits destRel)
  let zipClean ← check (cleanRelative zipRel)
  let destClean ← check (cleanRelative destRel)
  ask host .contextErr
  let budget ← check (destinationBudget limits destClean)
  ask host (.readArchive zipClean)
  check (checkEntryCount limits entries)
  preflightEntries host limits budget 0 entries
  ask host .contextErr
  pure destClean

def extractZipWithLimits (zipRel destRel : Bytes) (limits : ZipLimits) (entries : List ZipEntry) :
    Extract ε Unit := do
  let destClean ← prepare host zipRel destRel limits entries
  openZipDestination host destClean
  extractEntries host entries

end

end FS

end CanonicalPath
