import Mathlib.Logic.Function.Basic

/-!
# The kernel the library talks to

The parts of the operating system that decide what the library's calls do:
sockets and their progress, and the interest list of one epoll instance as
`epoll_ctl(2)` changes it.

The backend of `epoll.c` is modelled next to it, since it is written against the
errors of `epoll_ctl(2)`: `epollApplyOneChange` guesses between `ADD` and `MOD`
from the events libevent *believes* to be registered, and retries with the other
operation when the kernel disagrees.  The two closed forms
`epollNochangelistAdd_eq` and `epollNochangelistDel_eq` say what that amounts
to: an accepted change always leaves the kernel with what libevent believes, and
the only ways to fail are a descriptor that is not open and a kernel that
refuses.
-/

namespace SwiftEvent

/-- A descriptor number, as `int`. -/
abbrev Fd := Int

/-- The identity of a kernel socket; never reused. -/
abbrev KSock := Nat

abbrev Errno := Nat

/-- `ENOENT`. -/
def enoent : Errno := 2

/-- `EBADF`. -/
def ebadf : Errno := 9

/-- `EAGAIN`, which is also `EWOULDBLOCK` on Linux. -/
def eagain : Errno := 11

/-- `EEXIST`. -/
def eexist : Errno := 17

/-- `EPERM`. -/
def eperm : Errno := 1

/-- `EINPROGRESS`. -/
def einprogress : Errno := 115

/-- The two address families the package supports. -/
inductive Family
  | inet
  | inet6
deriving DecidableEq, Repr

/-- How far a `connect(2)` on the socket has come, or that it listens. -/
inductive ConnState
  | unconnected
  | connecting
  | established
  | failed (errno : Errno)
  | listening
deriving DecidableEq, Repr

/-- A kernel socket: the bytes waiting to be read, whether the peer has shut
down, the socket at the other end when it is one of this process, and the
completed connections waiting on a listener. -/
structure Sock where
  family : Family := .inet
  conn : ConnState := .unconnected
  rx : List UInt8 := []
  eof : Bool := false
  peer : Option KSock := none
  backlog : List KSock := []
deriving DecidableEq, Repr

/-! ## The epoll interest list -/

/-- The event bits the backend asks epoll for. -/
structure EpollEvents where
  epollin : Bool := false
  epollout : Bool := false
deriving DecidableEq, Repr

namespace EpollEvents

def isSet (m : EpollEvents) : Bool := m.epollin || m.epollout

def union (m n : EpollEvents) : EpollEvents :=
  ⟨m.epollin || n.epollin, m.epollout || n.epollout⟩

def diff (m n : EpollEvents) : EpollEvents :=
  ⟨m.epollin && !n.epollin, m.epollout && !n.epollout⟩

/-- The registration that watches exactly `m`: none at all for no events. -/
def registration (m : EpollEvents) : Option EpollEvents :=
  if m.isSet then some m else none

end EpollEvents

/-- The operations of `epoll_ctl(2)`. -/
inductive EpollOp
  | add
  | mod
  | del
deriving DecidableEq, Repr

/-- `epoll_ctl(2)` on one descriptor: `opened` says whether the number is in use,
`registered` is the entry of the interest list, and `reject` is the errno with
which the kernel refuses to watch the descriptor, if it does. -/
def epollCtl (opened : Bool) (reject : Option Errno)
    (registered : Option EpollEvents) (op : EpollOp) (events : EpollEvents) :
    Except Errno (Option EpollEvents) :=
  if !opened then .error ebadf
  else
    match op, registered with
    | .add, some _ => .error eexist
    | .mod, none => .error enoent
    | .del, none => .error enoent
    | .del, some _ => .ok none
    | .add, none | .mod, some _ =>
        match reject with
        | some errno => .error errno
        | none => .ok (some events)

/-- One field of `struct event_change`. -/
inductive Change
  | none
  | add
  | del
deriving DecidableEq, Repr

/-- `epoll_op_table`, in the rows without a change of the close event.  `none` is
the row whose events are `0`. -/
def epollOpTable (old : EpollEvents) (readChange writeChange : Change) :
    Option (EpollOp × EpollEvents) :=
  if readChange = .add ∨ writeChange = .add then
    some (if old.isSet then .mod else .add,
      ⟨readChange = .add || (readChange ≠ .del && old.epollin),
       writeChange = .add || (writeChange ≠ .del && old.epollout)⟩)
  else if readChange = .del then
    if writeChange = .del then some (.del, ⟨true, true⟩)
    else if old.epollout then some (.mod, ⟨false, true⟩)
    else some (.del, ⟨true, false⟩)
  else if writeChange = .del then
    if old.epollin then some (.mod, ⟨true, false⟩)
    else some (.del, ⟨false, true⟩)
  else none

/-- `epoll_apply_one_change`: whether it returns `0`, and the entry of the
interest list it leaves. -/
def epollApplyOneChange (opened : Bool) (reject : Option Errno)
    (registered : Option EpollEvents) (old : EpollEvents)
    (readChange writeChange : Change) : Bool × Option EpollEvents :=
  match epollOpTable old readChange writeChange with
  | none => (true, registered)
  | some (op, events) =>
      match epollCtl opened reject registered op events with
      | .ok entry => (true, entry)
      | .error errno =>
          match op with
          | .mod =>
              -- the descriptor was probably closed and opened again
              if errno = enoent then
                match epollCtl opened reject registered .add events with
                | .ok entry => (true, entry)
                | .error _ => (false, registered)
              else (false, registered)
          | .add =>
              if errno = eexist then
                match epollCtl opened reject registered .mod events with
                | .ok entry => (true, entry)
                | .error _ => (false, registered)
              else (false, registered)
          | .del =>
              (errno = enoent || errno = ebadf || errno = eperm, registered)

/-- `epoll_nochangelist_add`. -/
def epollNochangelistAdd (opened : Bool) (reject : Option Errno)
    (registered : Option EpollEvents) (old events : EpollEvents) :
    Bool × Option EpollEvents :=
  epollApplyOneChange opened reject registered old
    (if events.epollin then .add else .none) (if events.epollout then .add else .none)

/-- `epoll_nochangelist_del`.  The kernel never refuses to watch less. -/
def epollNochangelistDel (opened : Bool) (registered : Option EpollEvents)
    (old events : EpollEvents) : Bool × Option EpollEvents :=
  epollApplyOneChange opened none registered old
    (if events.epollin then .del else .none) (if events.epollout then .del else .none)

/-- **What an addition amounts to.**  Whatever the interest list held, an
accepted addition leaves it with the events libevent now wants. -/
theorem epollNochangelistAdd_eq (opened : Bool) (reject : Option Errno)
    (registered : Option EpollEvents) (old events : EpollEvents)
    (some_event : events.isSet = true) :
    epollNochangelistAdd opened reject registered old events =
      if opened = true ∧ reject = none then (true, some (old.union events))
      else (false, registered) := by
  obtain ⟨oldIn, oldOut⟩ := old
  obtain ⟨addIn, addOut⟩ := events
  cases opened with
  | false =>
      cases addIn <;> cases addOut <;> cases oldIn <;> cases oldOut <;>
        simp_all [epollNochangelistAdd, epollApplyOneChange, epollOpTable, epollCtl,
          EpollEvents.isSet, ebadf, enoent, eexist]
  | true =>
      cases reject <;> cases registered <;>
        cases addIn <;> cases addOut <;> cases oldIn <;> cases oldOut <;>
        simp_all [epollNochangelistAdd, epollApplyOneChange, epollOpTable, epollCtl,
          EpollEvents.isSet, EpollEvents.union, enoent, eexist]

/-- **What a deletion amounts to.**  On an open descriptor it leaves the kernel
watching what libevent still wants, even when the kernel had dropped the
registration before: the `MOD` is then retried as an `ADD`. -/
theorem epollNochangelistDel_eq (opened : Bool) (registered : Option EpollEvents)
    (old events : EpollEvents) (some_event : events.isSet = true) :
    (epollNochangelistDel opened registered old events).2 =
      if opened = true then (old.diff events).registration else registered := by
  obtain ⟨oldIn, oldOut⟩ := old
  obtain ⟨delIn, delOut⟩ := events
  cases opened with
  | false =>
      cases delIn <;> cases delOut <;> cases oldIn <;> cases oldOut <;>
        simp_all [epollNochangelistDel, epollApplyOneChange, epollOpTable, epollCtl,
          EpollEvents.isSet, ebadf, enoent]
  | true =>
      cases registered <;>
        cases delIn <;> cases delOut <;> cases oldIn <;> cases oldOut <;>
        simp_all [epollNochangelistDel, epollApplyOneChange, epollOpTable, epollCtl,
          EpollEvents.isSet, EpollEvents.diff, EpollEvents.registration, enoent]

end SwiftEvent
