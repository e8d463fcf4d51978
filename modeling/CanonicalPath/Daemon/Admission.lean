import CanonicalPath.Library.Run
import Mathlib.Data.Finset.Card
import Mathlib.Data.Finset.Filter

/-!
# Admission — the bounded listener of the daemon

`connection_admission.go` of the Go daemon.  Every section under `listener.mu` is one step; the close
of a socket runs outside the lock, between two steps of the `Close` call that performs it.  A timer may
fire at any time, also after it was stopped, and anyone may call `Close` at any time.

A request whose context holds no admitted connection is answered with true and touches nothing.
Connections are pointers, so they are numbered in the order of their allocation; `heap` holds them.
-/

namespace CanonicalPath

namespace Daemon

/-! ## Limits -/

structure ConnectionLimits where
  maxConnections : Int
  maxUnauthenticatedConnections : Int
  authenticationTimeout : Int
  deriving DecidableEq, Repr

def ConnectionLimits.validate (limits : ConnectionLimits) : Except String Unit :=
  if limits.maxConnections ≤ 0 ∨ limits.maxUnauthenticatedConnections ≤ 0 ∨
      limits.authenticationTimeout ≤ 0 then
    .error "canonicalfsrpc: connection limits and authentication timeout must be positive"
  else if limits.maxUnauthenticatedConnections ≥ limits.maxConnections then
    .error "canonicalfsrpc: unauthenticated connection limit must be smaller than total connection limit"
  else
    .ok ()

/-! ## State -/

/-- `sync.Once`: not called, its function running, or returned. -/
inductive Once
  | idle
  | running
  | done
  deriving DecidableEq, Repr

structure AdmittedConnection where
  deadline : Int
  authenticated : Bool := false
  expired : Bool := false
  closeOnce : Once := .idle
  deriving DecidableEq, Repr

/-- Who called `Close`. -/
inductive Caller
  | expire
  | authenticate
  | other
  deriving DecidableEq, Repr

/-- A call of `Close` that has not returned.  `entered` is the one call whose function `closeOnce`
runs. -/
structure Closer where
  connection : Nat
  caller : Caller
  entered : Bool := false
  deriving DecidableEq, Repr

structure BoundedListener where
  limits : ConnectionLimits
  active : Finset Nat := ∅
  pending : Int := 0
  heap : List AdmittedConnection := []
  closers : List Closer := []

def newBoundedListener (limits : ConnectionLimits) : Except String BoundedListener := do
  limits.validate
  .ok { limits := limits }

/-- What a step lets the outside see. -/
inductive Event
  | rejected
  | admitted (connection : Nat)
  /-- `authenticateConnection` returns. -/
  | answered (connection : Nat) (result : Bool)
  /-- The underlying `Conn.Close` is called. -/
  | socketClosed (connection : Nat) (caller : Caller)
  /-- The connection is deleted from `active`. -/
  | removed (connection : Nat)
  /-- `pending` is decremented. -/
  | decremented (connection : Nat)
  deriving DecidableEq, Repr

namespace BoundedListener

/-! ## Locked sections -/

def setConnection (s : BoundedListener) (c : Nat) (connection : AdmittedConnection) : BoundedListener :=
  { s with heap := s.heap.set c connection }

def call (s : BoundedListener) (c : Nat) (caller : Caller) : BoundedListener :=
  { s with closers := s.closers ++ [{ connection := c, caller := caller }] }

/-- The body of the loop of `Accept`, for one socket accepted at `now`. -/
def accept (s : BoundedListener) (now : Int) : BoundedListener × List Event :=
  if (s.active.card : Int) ≥ s.limits.maxConnections ∨
      s.pending ≥ s.limits.maxUnauthenticatedConnections then
    -- the rejected socket is closed and never joins the admitted set
    (s, [.rejected])
  else
    ({ s with
        heap := s.heap ++ [{ deadline := now + s.limits.authenticationTimeout }]
        active := insert s.heap.length s.active
        pending := s.pending + 1 },
      [.admitted s.heap.length])

def authenticateConnection (s : BoundedListener) (c : Nat) (connection : AdmittedConnection)
    (now : Int) : BoundedListener × List Event :=
  if c ∉ s.active ∨ connection.expired then
    (s, [.answered c false])
  else if connection.authenticated then
    (s, [.answered c true])
  else if ¬now < connection.deadline then
    -- the lock is dropped before the call of `Close`
    ((s.setConnection c { connection with expired := true }).call c .authenticate,
      [.answered c false])
  else
    ({ s.setConnection c { connection with authenticated := true } with pending := s.pending - 1 },
      [.decremented c, .answered c true])

def expire (s : BoundedListener) (c : Nat) (connection : AdmittedConnection) :
    BoundedListener × List Event :=
  if c ∈ s.active ∧ connection.authenticated = false ∧ connection.expired = false then
    -- the decision is made under the lock, the call of `Close` follows outside it
    ((s.setConnection c { connection with expired := true }).call c .expire, [])
  else
    (s, [])

/-- The section of `Close` behind the close of the socket.  `closeOnce` is done when it returns. -/
def closeLocked (s : BoundedListener) (c : Nat) (connection : AdmittedConnection) :
    BoundedListener × List Event :=
  let s := s.setConnection c { connection with closeOnce := .done }
  if c ∈ s.active then
    if connection.authenticated then
      ({ s with active := s.active.erase c }, [.removed c])
    else
      ({ s with active := s.active.erase c, pending := s.pending - 1 }, [.removed c, .decremented c])
  else
    (s, [])

/-! ## The system -/

/-- The steps of the system; `enterOnce` and `closeLocked` belong to a `Close` call, by its place in
`closers`. -/
inductive Action
  | accept (now : Int)
  | authenticate (connection : Nat) (now : Int)
  | expire (connection : Nat)
  | close (connection : Nat)
  | enterOnce (closer : Nat)
  | closeLocked (closer : Nat)
  deriving DecidableEq, Repr

def step (s : BoundedListener) : Action → Option (BoundedListener × List Event)
  | .accept now => some (s.accept now)
  | .authenticate c now =>
      (s.heap[c]?).map fun connection => s.authenticateConnection c connection now
  | .expire c => (s.heap[c]?).map fun connection => s.expire c connection
  | .close c => (s.heap[c]?).map fun _ => (s.call c .other, [])
  | .enterOnce i => do
      let closer ← s.closers[i]?
      let connection ← s.heap[closer.connection]?
      match closer.entered, connection.closeOnce with
      | false, .idle =>
          -- the first call closes the socket, outside the lock
          some ({ s.setConnection closer.connection { connection with closeOnce := .running } with
              closers := s.closers.set i { closer with entered := true } },
            [.socketClosed closer.connection closer.caller])
      -- a later call waits for the first one and returns
      | false, .done => some ({ s with closers := s.closers.eraseIdx i }, [])
      | _, _ => none
  | .closeLocked i => do
      let closer ← s.closers[i]?
      let connection ← s.heap[closer.connection]?
      if closer.entered then
        some ({ s with closers := s.closers.eraseIdx i }.closeLocked closer.connection connection)
      else
        none

end BoundedListener

end Daemon

end CanonicalPath
