import CanonicalPath.Go.Grammar
import CanonicalPath.Library.Run
import Mathlib.Data.List.AList

/-!
# Registry — the project roots of the daemon

`server.go` of the Go daemon, as far as it opens, looks up, expires and closes project roots.  Every
operation holds `s.mu` throughout, except `handleCloseProject`, which closes the root it took after
`takeRoot` has returned; that close is a step of its own.

Handles are pointers, so project handles are numbered in the order in which they are opened, and a
nil pointer is `none`.  `range` visits a map in any order, so an operation that ranges over one gets
the order in which it does.
-/

namespace CanonicalPath

namespace Daemon

/-- Go's map, read at a key that may be missing. -/
def mapGet {κ β : Type} [DecidableEq κ] (m : AList fun _ : κ => Option β) (key : κ) : Option β :=
  (m.lookup key).join

/-! ## Replies -/

/-- An error of the filesystem layer, as `writeCanonicalError` reads it. -/
structure FsError where
  code : String
  unsupported : Bool
  text : String
  deriving DecidableEq, Repr

/-- `canonicalfs.ErrUnsupportedOperation`. -/
def errUnsupportedOperation : FsError where
  code := ""
  unsupported := true
  text := "canonicalfs: operation or filesystem object is not supported"

inductive Reply
  | ok
  | httpError (status : Nat) (code message : String)
  deriving DecidableEq, Repr

def writeCanonicalError (error : FsError) : Reply :=
  let code := if error.code = "" then
      if error.unsupported then "ERR_UNSUPPORTED_OPERATION" else "ERR_DAEMON"
    else error.code
  .httpError 400 code error.text

/-- The end of `handleCloseProject`, after the close of the root. -/
def closeReply : Except FsError Unit → Reply
  | .ok () => .ok
  | .error error => writeCanonicalError error

/-! ## State -/

structure Server where
  roots : AList fun _ : Bytes => Option Nat
  lastUsed : AList fun _ : Bytes => Int
  /-- The handles of the trusted roots. -/
  allowedRoots : List Nat
  maxProjects : Int
  projectIdleTimeout : Int
  closed : Bool := false
  /-- The number of project handles opened so far. -/
  handles : Nat := 0
  /-- The handles that a `handleCloseProject` has taken and not closed yet. -/
  taken : List Nat := []

/-- The registration part of `ServerOptions`, in nanoseconds. -/
structure ServerOptions where
  maxProjects : Int
  projectIdleTimeout : Int
  deriving DecidableEq, Repr

def newServer (options : ServerOptions) (allowedRoots : List Nat) : Except String Server :=
  if options.maxProjects < 0 ∨ options.projectIdleTimeout < 0 then
    .error "canonicalfsrpc: registration limits must be non-negative"
  else
    .ok {
      roots := ∅
      lastUsed := ∅
      allowedRoots := allowedRoots
      maxProjects := if options.maxProjects = 0 then 128 else options.maxProjects
      projectIdleTimeout :=
        if options.projectIdleTimeout = 0 then 30 * 60 * 1000000000 else options.projectIdleTimeout }

/-- What a step lets the outside see. -/
inductive RegistryEvent
  /-- `openAuthorizedRoot` returns a handle. -/
  | opened (handle : Nat)
  /-- `root` or `takeRoot` returns a handle. -/
  | returned (projectID : Bytes) (handle : Nat)
  /-- `Close` is called on a project root, which may be nil. -/
  | closed (root : Option Nat)
  | allowedClosed (handle : Nat)
  | replied (reply : Reply)
  deriving DecidableEq, Repr

namespace Server

/-! ## Operations -/

/-- Deletes a project from both maps. -/
def delete (s : Server) (projectID : Bytes) : Server :=
  { s with roots := s.roots.erase projectID, lastUsed := s.lastUsed.erase projectID }

def expireRootsLocked (now : Int) : List Bytes → Server → Server × List RegistryEvent
  | [], s => (s, [])
  | id :: order, s =>
    match s.lastUsed.lookup id with
    | some last =>
      if now - last ≥ s.projectIdleTimeout then
        let rest := expireRootsLocked now order (s.delete id)
        (rest.1, .closed (mapGet s.roots id) :: rest.2)
      else
        expireRootsLocked now order s
    | none => expireRootsLocked now order s

/-- `opens` says under which trusted handles the filesystem opens the path, for one of the two names
of the trusted root. -/
def openAuthorizedRoot (s : Server) (hostRoot : Bytes) (opens : Nat → Bool) : Option (Server × Nat) :=
  if 0 ∈ hostRoot then
    none
  else if s.allowedRoots.any opens then
    some ({ s with handles := s.handles + 1 }, s.handles)
  else
    none

def handleOpenProject (s : Server) (projectID hostRoot : Bytes) (expiredAt usedAt : Int)
    (order : List Bytes) (opens : Nat → Bool) : Server × List RegistryEvent :=
  if projectID = [] ∨ hostRoot = [] then
    (s, [.replied (.httpError 400 "ERR_OUTSIDE_ROOT" "project_id and host_root are required")])
  else if projectID.length > 128 ∨ 0 ∈ projectID then
    (s, [.replied
      (.httpError 400 "ERR_DAEMON" "project_id must be at most 128 bytes and contain no NUL")])
  else
    let (s, expired) := expireRootsLocked expiredAt order s
    if s.closed ∨ (mapGet s.roots projectID = none ∧ (s.roots.keys.length : Int) ≥ s.maxProjects) then
      (s, expired ++ [.replied (.httpError 429 "ERR_DAEMON" "project registration limit reached")])
    else
      match s.openAuthorizedRoot hostRoot opens with
      | none =>
        (s, expired ++ [.replied (.httpError 403 "ERR_ROOT_NOT_ALLOWED" "host_root is not allowed")])
      | some (s, root) =>
        -- the replaced root is closed before the lock is released
        let old := (mapGet s.roots projectID).toList.map fun old => RegistryEvent.closed (some old)
        ({ s with
            roots := s.roots.insert projectID (some root)
            lastUsed := s.lastUsed.insert projectID usedAt },
          expired ++ .opened root :: old ++ [.replied .ok])

/-- A lookup that renews the lease. -/
def root (s : Server) (projectID : Bytes) (expiredAt usedAt : Int) (order : List Bytes) :
    Server × List RegistryEvent × Except FsError Nat :=
  if projectID = [] then
    (s, [], .error errUnsupportedOperation)
  else
    let (s, expired) := expireRootsLocked expiredAt order s
    match mapGet s.roots projectID with
    | none => (s, expired, .error errUnsupportedOperation)
    | some root =>
      ({ s with lastUsed := s.lastUsed.insert projectID usedAt },
        expired ++ [.returned projectID root], .ok root)

def takeRoot (s : Server) (projectID : Bytes) (now : Int) (order : List Bytes) :
    Server × List RegistryEvent × Except FsError Nat :=
  if projectID = [] then
    (s, [], .error errUnsupportedOperation)
  else
    let (s, expired) := expireRootsLocked now order s
    match mapGet s.roots projectID with
    | none => (s, expired, .error errUnsupportedOperation)
    | some root => (s.delete projectID, expired ++ [.returned projectID root], .ok root)

/-- The loop of `Close` over the project roots. -/
def closeRoots : List Bytes → Server → Server × List RegistryEvent
  | [], s => (s, [])
  | id :: order, s =>
    match s.roots.lookup id with
    | some root =>
      let rest := closeRoots order (s.delete id)
      (rest.1, .closed root :: rest.2)
    | none => closeRoots order s

def close (s : Server) (order : List Bytes) : Server × List RegistryEvent :=
  let (s', closed) := closeRoots order { s with closed := true, allowedRoots := [] }
  (s', s.allowedRoots.map RegistryEvent.allowedClosed ++ closed)

/-! ## The system -/

/-- The steps of the system.  `closeTaken` is the part of `handleCloseProject` behind `takeRoot`; it
belongs to the call at the given place of `taken`, and the filesystem decides its outcome. -/
inductive RegistryAction
  | handleOpenProject (projectID hostRoot : Bytes) (expiredAt usedAt : Int) (order : List Bytes)
      (opens : Nat → Bool)
  | root (projectID : Bytes) (expiredAt usedAt : Int) (order : List Bytes)
  | takeRoot (projectID : Bytes) (now : Int) (order : List Bytes)
  | closeTaken (call : Nat) (outcome : Except FsError Unit)
  | close (order : List Bytes)

def step (s : Server) : RegistryAction → Option (Server × List RegistryEvent)
  | .handleOpenProject projectID hostRoot expiredAt usedAt order opens =>
    if order.Perm s.lastUsed.keys then
      some (s.handleOpenProject projectID hostRoot expiredAt usedAt order opens)
    else
      none
  | .root projectID expiredAt usedAt order =>
    if order.Perm s.lastUsed.keys then
      match s.root projectID expiredAt usedAt order with
      | (s, events, .ok _) => some (s, events)
      | (s, events, .error error) => some (s, events ++ [.replied (writeCanonicalError error)])
    else
      none
  | .takeRoot projectID now order =>
    if order.Perm s.lastUsed.keys then
      match s.takeRoot projectID now order with
      | (s, events, .ok root) => some ({ s with taken := s.taken ++ [root] }, events)
      | (s, events, .error error) => some (s, events ++ [.replied (writeCanonicalError error)])
    else
      none
  | .closeTaken call outcome => do
    let root ← s.taken[call]?
    some ({ s with taken := s.taken.eraseIdx call },
      [.closed (some root), .replied (closeReply outcome)])
  | .close order =>
    if order.Perm s.roots.keys then some (s.close order) else none

end Server

end Daemon

end CanonicalPath
