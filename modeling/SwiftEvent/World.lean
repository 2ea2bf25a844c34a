import SwiftEvent.SocketAddress
import Mathlib.Logic.Function.Basic

/-!
# The process: descriptors, sockets and the objects that own them

What all event loops of a process share: the descriptor table, the kernel
sockets behind it, the live `Socket` and `ServerSocket` objects, and a record of
every `close(2)` they issued.

### Reading the model against the source

* An object keeps its descriptor *number* (`let fd`) for its whole life.
  `sock`, the kernel socket it was created with, and `closed`, whether `close()`
  has been called on it, are what the source does **not** keep; they are recorded
  to say what a `close(2)` should have hit.
* `close()` and `deinit` are both `closeFd` on the stored number.  `close()`
  leaves the object alive, `deinit` removes it.
* The kernel may hand out any number that is not in use (`Free`).
* A loop's signal pipe is an object of its own role: `event_base_free` closes it,
  nothing else does.
-/

namespace SwiftEvent

/-- What an object of the process is. -/
inductive Role
  | socket
  | server
  | pipe
deriving DecidableEq, Repr

/-- A live object with its descriptor. -/
structure Obj where
  role : Role
  fd : Fd
  loop : Nat
  /-- The kernel socket it was created with. -/
  sock : KSock
  /-- Whether `close()` was called on it. -/
  closed : Bool := false
deriving DecidableEq, Repr

/-- One `close(2)`: the kernel socket the closing object was created with, and
the one the number stood for; `none` is the failure with `EBADF`. -/
structure CloseRec where
  created : KSock
  hit : Option KSock
deriving DecidableEq, Repr

structure World where
  endian : Endian
  table : Fd → Option KSock
  sock : KSock → Sock
  nextSock : KSock
  obj : Nat → Option Obj
  nextObj : Nat
  closes : List CloseRec

/-- How a connection attempt ends; a listener of this process puts the other end
on its backlog, any other peer is outside. -/
inductive Verdict
  | established (listener : Option KSock)
  | failed (errno : Errno)
deriving DecidableEq, Repr

/-- What the kernel and the peers outside do on their own. -/
inductive KernelAct
  | conclude (k : KSock) (verdict : Verdict)
  | arrive (k : KSock) (bytes : List UInt8)
  | hangup (k : KSock)
  | incoming (k : KSock)
  | abort (k : KSock) (i : Nat)
deriving DecidableEq, Repr

namespace World

variable (w : World)

/-- A process that has opened nothing yet. -/
def init (endian : Endian) : World where
  endian
  table _ := none
  sock _ := {}
  nextSock := 0
  obj _ := none
  nextObj := 0
  closes := []

/-- Whether the number is in use. -/
def opened (fd : Fd) : Bool := (w.table fd).isSome

/-- A number the kernel may hand out. -/
def Free (fd : Fd) : Prop := 0 ≤ fd ∧ w.table fd = none

instance (fd : Fd) : Decidable (w.Free fd) := inferInstanceAs (Decidable (_ ∧ _))

/-- A new kernel socket. -/
def newSock (s : Sock) : World :=
  { w with
    sock := Function.update w.sock w.nextSock s
    nextSock := w.nextSock + 1 }

def setSock (k : KSock) (s : Sock) : World :=
  { w with sock := Function.update w.sock k s }

/-- The number now stands for `k`, and a new object of the loop carries it. -/
def install (role : Role) (loop : Nat) (fd : Fd) (k : KSock) : World :=
  { w with
    table := Function.update w.table fd (some k)
    obj := Function.update w.obj w.nextObj (some { role, fd, loop, sock := k })
    nextObj := w.nextObj + 1 }

/-- `socket(2)` followed by the initialiser of the object. -/
def openObj (role : Role) (loop : Nat) (fd : Fd) (s : Sock) : World :=
  (w.newSock s).install role loop fd w.nextSock

/-- `close(2)` on a number, by an object created with `created`. -/
def closeFd (created : KSock) (fd : Fd) : World :=
  { w with
    table := Function.update w.table fd none
    closes := { created, hit := w.table fd } :: w.closes }

/-- `Socket.close()` and `ServerSocket.close()`. -/
def close (o : Nat) : Option World :=
  match w.obj o with
  | some x =>
      if x.role = .pipe then none
      else some { w.closeFd x.sock x.fd with
        obj := Function.update w.obj o (some { x with closed := true }) }
  | none => none

/-- `Socket.deinit` and `ServerSocket.deinit`: the object is gone, and its number
is closed again whether or not `close()` was called before. -/
def deinit (o : Nat) : Option World :=
  match w.obj o with
  | some x => some { w.closeFd x.sock x.fd with obj := Function.update w.obj o none }
  | none => none

/-- The results of the system calls of `Socket.listen(on:backlog:loop:)`. -/
inductive ListenResult
  | socketFails (errno : Errno)
  | bindFails (fd : Fd) (errno : Errno)
  | listenFails (fd : Fd) (errno : Errno)
  | ok (fd : Fd)
deriving DecidableEq, Repr

/-- `Socket.listen(on:backlog:loop:)`.  A failure after `socket(2)` closes the
number before it throws; no object has been made for it yet. -/
def listen (loop : Nat) : ListenResult → Option World
  | .socketFails _ => some w
  | .bindFails fd _ | .listenFails fd _ =>
      if w.Free fd then
        let opened := w.newSock {}
        let opened := { opened with
          table := Function.update opened.table fd (some w.nextSock) }
        some (opened.closeFd w.nextSock fd)
      else none
  | .ok fd =>
      if w.Free fd then some (w.openObj .server loop fd { conn := .listening }) else none

/-- The connection attempt of `k` is over. -/
def conclude (k : KSock) (verdict : Verdict) : Option World :=
  if (w.sock k).conn = .connecting then
    match verdict with
    | .failed errno => some (w.setSock k { w.sock k with conn := .failed errno })
    | .established none => some (w.setSock k { w.sock k with conn := .established })
    | .established (some listener) =>
        if (w.sock listener).conn = .listening then
          let w := w.setSock k
            { w.sock k with conn := .established, peer := some w.nextSock }
          let w := w.setSock listener
            { w.sock listener with backlog := (w.sock listener).backlog ++ [w.nextSock] }
          some (w.newSock { conn := .established, peer := some k })
        else none
  else none

/-- The steps of the kernel. -/
def kernel : KernelAct → Option World
  | .conclude k verdict => w.conclude k verdict
  | .arrive k bytes =>
      -- only a peer outside the process sends on its own
      if k < w.nextSock ∧ (w.sock k).conn = .established ∧ (w.sock k).peer = none then
        some (w.setSock k { w.sock k with rx := (w.sock k).rx ++ bytes })
      else none
  | .hangup k =>
      if k < w.nextSock then some (w.setSock k { w.sock k with eof := true }) else none
  | .incoming k =>
      if (w.sock k).conn = .listening then
        let w := w.setSock k
          { w.sock k with backlog := (w.sock k).backlog ++ [w.nextSock] }
        some (w.newSock { conn := .established })
      else none
  | .abort k i =>
      if (w.sock k).conn = .listening then
        some (w.setSock k { w.sock k with backlog := (w.sock k).backlog.eraseIdx i })
      else none

end World

end SwiftEvent
