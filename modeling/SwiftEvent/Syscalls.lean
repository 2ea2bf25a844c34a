import SwiftEvent.Process

/-!
# The system calls of the operations

What `SwiftEvent.Core` takes as one step or one callback, call by call: which
system calls `Socket.listen`, `Socket.connect`, `ServerSocket.accept`,
`Socket.read` and `Socket.write` make, in which order, what each of them leaves
in `errno`, and when `errno` is read.

* Whatever the kernel answers, a call that throws has left no descriptor behind,
  and one that returns has added the one its object owns
  (`no_descriptor_leaks`).
* The error a call throws has the `errno` of the system call that failed, with
  one exception: `listen` closes its descriptor before it reads `errno`, so that
  the `close(2)` may have its own there (`errno_iff`, `close_overwrites_errno`).

### Reading the model against the source

* A result of the kernel is a value or a failure with its `errno`.  POSIX lets a
  call that succeeds change `errno` as well, so a success says what it leaves.
* `connect` is in two halves, before and after it waits.  In between the process
  is in the hands of others.
* ARC destroys the local `Socket` of `connect` when the function throws: that is
  `deinit`, after the error has been made.
* Results the kernel cannot give (a number in use, a connection that is not
  queued) are not enabled.
-/

namespace SwiftEvent

/-- The system calls of the Swift layer. -/
inductive Syscall
  | socket
  | fcntl
  | setsockopt
  | bind
  | listen
  | connect
  | accept
  | read
  | write
  | close
deriving DecidableEq, Repr

/-- What a system call answers. -/
inductive Ret (α : Type)
  | ok (value : α) (leaves : Option Errno)
  | fails (errno : Errno)
deriving DecidableEq, Repr

namespace Ret

variable {α : Type}

/-- `errno` after the call. -/
def errno (r : Ret α) (old : Errno) : Errno :=
  match r with
  | .ok _ leaves => leaves.getD old
  | .fails errno => errno

/-- The `errno` of a failure. -/
def failed : Ret α → Option Errno
  | .ok _ _ => none
  | .fails errno => some errno

@[simp] theorem failed_ok (value : α) (leaves : Option Errno) : (ok value leaves).failed = none :=
  rfl

@[simp] theorem failed_fails (errno : Errno) : (fails errno : Ret α).failed = some errno := rfl

end Ret

/-- Something an operation has tried: a system call, with the `errno` of its failure, or a wait. -/
inductive Attempt
  | made (call : Syscall) (failed : Option Errno)
  | awaited (timedOut : Bool)
deriving DecidableEq, Repr

/-- The error that `SocketError` documents for the failure. -/
def Attempt.error : Attempt → Option SocketError
  | .made .socket (some errno) => some (.socketCreationFailed errno)
  | .made .bind (some errno) => some (.bindFailed errno)
  | .made .listen (some errno) => some (.listenFailed errno)
  | .made .connect (some errno) =>
      if errno = einprogress then none else some (.connectionFailed errno)
  | .made .accept (some errno) => some (.acceptFailed errno)
  | .made .read (some errno) => some (.readFailed errno)
  | .made .write (some errno) => some (.writeFailed errno)
  | .awaited true => some .timeout
  | _ => none

/-- The case of an error, without its `errno`. -/
def SocketError.case : SocketError → SocketError
  | .socketCreationFailed _ => .socketCreationFailed 0
  | .bindFailed _ => .bindFailed 0
  | .listenFailed _ => .listenFailed 0
  | .connectionFailed _ => .connectionFailed 0
  | .acceptFailed _ => .acceptFailed 0
  | .readFailed _ => .readFailed 0
  | .writeFailed _ => .writeFailed 0
  | error => error

namespace World

variable (w : World)

/-- `socket(2)`. -/
def socket (fd : Fd) : World :=
  { w.newSock {} with table := Function.update w.table fd (some w.nextSock) }

/-- The initialiser of an object, on a number that is open. -/
def adopt (role : Role) (loop : Nat) (fd : Fd) (k : KSock) : World :=
  { w with
    obj := Function.update w.obj w.nextObj (some { role, fd, loop, sock := k })
    nextObj := w.nextObj + 1 }

/-- `connect(2)` or `listen(2)` has taken the socket on. -/
def enter (k : KSock) (conn : ConnState) : World :=
  w.setSock k { w.sock k with conn }

end World

/-- The process, the `errno` of a thread, and what its operation has tried so far. -/
structure Thread where
  world : World
  errno : Errno
  log : List Attempt := []

/-- How far `connect` is when it gives the thread back. -/
inductive Progress
  | done (outcome : Outcome)
  | waits (fd : Fd) (o : Nat)
deriving DecidableEq, Repr

/-- The answers to the calls of `Socket.listen(on:backlog:loop:)`. -/
structure ListenRets where
  socket : Ret Fd
  setsockopt : Ret Unit
  bind : Ret Unit
  listen : Ret Unit
  close : Ret Unit
  fcntl : Ret Unit × Ret Unit

/-- The answers to the calls of `Socket.connect(to:loop:timeout:)` before it waits; a listener of
this process takes the connection at the other end. -/
structure ConnectRets where
  socket : Ret Fd
  fcntl : Ret Unit × Ret Unit
  connect : Ret (Option KSock)
  close : Ret Unit

/-- The answers to the calls of the callback of `ServerSocket.accept()`. -/
structure AcceptRets where
  accept : Ret Fd
  fcntl : Ret Unit × Ret Unit

namespace Thread

variable {α : Type} (t : Thread)

/-- A system call is made. -/
def make (call : Syscall) (r : Ret α) : Thread :=
  { t with errno := r.errno t.errno, log := t.log ++ [.made call r.failed] }

/-- The wait for readiness, or for the timeout, is over. -/
def awaited (timedOut : Bool) : Thread :=
  { t with log := t.log ++ [.awaited timedOut] }

/-- `close(2)`; it frees the number even where it fails. -/
def close (k : KSock) (fd : Fd) (r : Ret Unit) : Thread :=
  { t.make .close r with world := t.world.closeFd k fd }

/-- `Socket.init(fd:loop:ownsDescriptor:)` and `ServerSocket.init(fd:loop:)`. -/
def adopt (role : Role) (loop : Nat) (fd : Fd) (k : KSock) (fcntl : Ret Unit × Ret Unit) :
    Thread :=
  { (t.make .fcntl fcntl.1).make .fcntl fcntl.2 with world := t.world.adopt role loop fd k }

/-- `Socket.deinit`. -/
def deinit (o : Nat) (r : Ret Unit) : Option Thread :=
  (t.world.deinit o).map fun w => { t.make .close r with world := w }

/-- `Socket.listen(on:backlog:loop:)`. -/
def listen (loop : Nat) (r : ListenRets) : Option (Outcome × Thread) :=
  let t' := t.make .socket r.socket
  match r.socket with
  | .fails _ => some (.threw (.socketCreationFailed t'.errno), t')
  | .ok fd _ =>
      if t.world.Free fd then
        let k := t.world.nextSock
        let t : Thread := { t' with world := t.world.socket fd }
        let t := (t.make .setsockopt r.setsockopt).make .bind r.bind
        if r.bind.failed.isSome then
          -- the descriptor is closed before `errno` is read
          let t := t.close k fd r.close
          some (.threw (.bindFailed t.errno), t)
        else
          let t := t.make .listen r.listen
          if r.listen.failed.isSome then
            let t := t.close k fd r.close
            some (.threw (.listenFailed t.errno), t)
          else
            let t : Thread := { t with world := t.world.enter k .listening }
            some (.socket t.world.nextObj, t.adopt .server loop fd k r.fcntl)
      else none

/-- `Socket.connect(to:loop:timeout:)`, up to where it waits. -/
def connect (loop : Nat) (r : ConnectRets) : Option (Progress × Thread) :=
  let t' := t.make .socket r.socket
  match r.socket with
  | .fails _ => some (.done (.threw (.socketCreationFailed t'.errno)), t')
  | .ok fd _ =>
      if t.world.Free fd then
        let k := t.world.nextSock
        let o := t.world.nextObj
        let t : Thread := { t' with world := t.world.socket fd }
        let t := (t.adopt .socket loop fd k r.fcntl).make .connect r.connect
        let t : Thread := { t with world := t.world.enter k .connecting }
        match r.connect with
        | .ok listener _ =>
            (t.world.conclude k (.established listener)).map fun w =>
              (.done (.socket o), { t with world := w })
        | .fails _ =>
            if t.errno = einprogress then some (.waits fd o, t)
            else
              -- the error is made before the local object goes
              let error := SocketError.connectionFailed t.errno
              (t.world.conclude k (.failed t.errno)).bind fun w =>
                (deinit { t with world := w } o r.close).map fun t => (.done (.threw error), t)
      else none

/-- The rest of `connect`, after the wait: the callback, and the return or the throw. -/
def connected (o : Nat) (timedOut : Bool) (r : Ret Unit) : Option (Outcome × Thread) :=
  let t := t.awaited timedOut
  if timedOut then (t.deinit o r).map fun t => (.threw .timeout, t)
  else some (.socket o, t)

/-- `ServerSocket.accept()`, after the wait. -/
def accept (loop : Nat) (fd : Fd) (r : AcceptRets) : Option (Outcome × Thread) :=
  let t := t.awaited false
  let t' := t.make .accept r.accept
  match r.accept with
  | .fails _ => some (.threw (.acceptFailed t'.errno), t')
  | .ok clientFd _ =>
      match t.world.table fd with
      | some k =>
          match (t.world.sock k).backlog with
          | client :: rest =>
              if t.world.Free clientFd ∧ (t.world.sock k).conn = .listening then
                let w := t.world.setSock k { t.world.sock k with backlog := rest }
                let w := { w with table := Function.update w.table clientFd (some client) }
                let t : Thread := { t' with world := w }
                some (.socket t.world.nextObj, t.adopt .socket loop clientFd client r.fcntl)
              else none
          | [] => none
      | none => none

/-- `Socket.read(maxBytes:timeout:)`, after the wait. -/
def read (fd : Fd) (timedOut : Bool) (r : Ret Nat) : Option (Outcome × Thread) :=
  let t := t.awaited timedOut
  if timedOut then some (.threw .timeout, t)
  else
    let t' := t.make .read r
    match r with
    | .fails _ => some (.threw (.readFailed t'.errno), t')
    | .ok 0 _ =>
        (t.world.table fd).bind fun k =>
          if (t.world.sock k).rx = [] ∧ (t.world.sock k).eof = true then
            some (.threw .connectionClosed, t')
          else none
    | .ok (n + 1) _ =>
        (t.world.table fd).bind fun k =>
          let rx := (t.world.sock k).rx
          if n + 1 ≤ 4096 ∧ n + 1 ≤ rx.length then
            some (.data (rx.take (n + 1)),
              { t' with
                world := t.world.setSock k { t.world.sock k with rx := rx.drop (n + 1) } })
          else none

/-- `Socket.write(_:timeout:)`, after the wait. -/
def write (data : List UInt8) (fd : Fd) (timedOut : Bool) (r : Ret Nat) :
    Option (Outcome × Thread) :=
  let t := t.awaited timedOut
  if timedOut then some (.threw .timeout, t)
  else
    let t' := t.make .write r
    match r with
    | .fails _ => some (.threw (.writeFailed t'.errno), t')
    | .ok n _ =>
        (t.world.table fd).bind fun k =>
          if n ≤ data.length ∧ (t.world.sock k).conn = .established then
            some (.returned, { t' with world := Core.send t.world k (data.take n) })
          else none

end Thread

/-! ## What a call comes to -/

/-- What `listen` comes to. -/
inductive Listens (w : World) (loop : Nat) (r : ListenRets) :
    Outcome → World → List Attempt → Prop
  | socketFails {errno : Errno} (socket : r.socket = .fails errno) :
      Listens w loop r (.threw (.socketCreationFailed errno)) w [.made .socket (some errno)]
  | bindFails {fd : Fd} {leaves : Option Errno} {errno : Errno}
      (socket : r.socket = .ok fd leaves) (free : w.Free fd) (bind : r.bind = .fails errno) :
      Listens w loop r (.threw (.bindFailed (r.close.errno errno)))
        ((w.socket fd).closeFd w.nextSock fd)
        [.made .socket none, .made .setsockopt r.setsockopt.failed, .made .bind (some errno),
          .made .close r.close.failed]
  | listenFails {fd : Fd} {leaves : Option Errno} {errno : Errno}
      (socket : r.socket = .ok fd leaves) (free : w.Free fd) (bind : r.bind.failed = none)
      (listen : r.listen = .fails errno) :
      Listens w loop r (.threw (.listenFailed (r.close.errno errno)))
        ((w.socket fd).closeFd w.nextSock fd)
        [.made .socket none, .made .setsockopt r.setsockopt.failed, .made .bind none,
          .made .listen (some errno), .made .close r.close.failed]
  | ok {fd : Fd} {leaves : Option Errno} (socket : r.socket = .ok fd leaves) (free : w.Free fd)
      (bind : r.bind.failed = none) (listen : r.listen.failed = none) :
      Listens w loop r (.socket w.nextObj)
        (((w.socket fd).enter w.nextSock .listening).adopt .server loop fd w.nextSock)
        [.made .socket none, .made .setsockopt r.setsockopt.failed, .made .bind none,
          .made .listen none, .made .fcntl r.fcntl.1.failed, .made .fcntl r.fcntl.2.failed]

/-- The process when `connect(2)` has been called on a new socket. -/
def World.connecting (w : World) (loop : Nat) (fd : Fd) : World :=
  ((w.socket fd).adopt .socket loop fd w.nextSock).enter w.nextSock .connecting

/-- What the first half of `connect` comes to. -/
inductive Connects (w : World) (loop : Nat) (r : ConnectRets) :
    Progress → World → List Attempt → Prop
  | socketFails {errno : Errno} (socket : r.socket = .fails errno) :
      Connects w loop r (.done (.threw (.socketCreationFailed errno))) w
        [.made .socket (some errno)]
  | ok {fd : Fd} {leaves leaves' : Option Errno} {listener : Option KSock} {w' : World}
      (socket : r.socket = .ok fd leaves) (free : w.Free fd)
      (connect : r.connect = .ok listener leaves')
      (h : (w.connecting loop fd).conclude w.nextSock (.established listener) = some w') :
      Connects w loop r (.done (.socket w.nextObj)) w'
        [.made .socket none, .made .fcntl r.fcntl.1.failed, .made .fcntl r.fcntl.2.failed,
          .made .connect none]
  | inProgress {fd : Fd} {leaves : Option Errno} (socket : r.socket = .ok fd leaves)
      (free : w.Free fd) (connect : r.connect = .fails einprogress) :
      Connects w loop r (.waits fd w.nextObj) (w.connecting loop fd)
        [.made .socket none, .made .fcntl r.fcntl.1.failed, .made .fcntl r.fcntl.2.failed,
          .made .connect (some einprogress)]
  | fails {fd : Fd} {leaves : Option Errno} {errno : Errno} {w₁ w' : World}
      (socket : r.socket = .ok fd leaves) (free : w.Free fd)
      (connect : r.connect = .fails errno) (decided : errno ≠ einprogress)
      (h : (w.connecting loop fd).conclude w.nextSock (.failed errno) = some w₁)
      (dropped : w₁.deinit w.nextObj = some w') :
      Connects w loop r (.done (.threw (.connectionFailed errno))) w'
        [.made .socket none, .made .fcntl r.fcntl.1.failed, .made .fcntl r.fcntl.2.failed,
          .made .connect (some errno), .made .close r.close.failed]

/-- What the callback of `accept` comes to. -/
inductive Accepts (w : World) (loop : Nat) (fd : Fd) (r : AcceptRets) :
    Outcome → World → List Attempt → Prop
  | fails {errno : Errno} (accept : r.accept = .fails errno) :
      Accepts w loop fd r (.threw (.acceptFailed errno)) w
        [.awaited false, .made .accept (some errno)]
  | ok {clientFd : Fd} {leaves : Option Errno} {k client : KSock} {rest : List KSock}
      (accept : r.accept = .ok clientFd leaves) (used : w.table fd = some k)
      (backlog : (w.sock k).backlog = client :: rest) (free : w.Free clientFd)
      (listening : (w.sock k).conn = .listening) :
      Accepts w loop fd r (.socket w.nextObj)
        ((w.setSock k { w.sock k with backlog := rest }).install .socket loop clientFd client)
        [.awaited false, .made .accept none, .made .fcntl r.fcntl.1.failed,
          .made .fcntl r.fcntl.2.failed]

/-- What the callback of `read` comes to. -/
inductive Receives (w : World) (fd : Fd) : Bool → Ret Nat → Outcome → World → List Attempt → Prop
  | timedOut (r : Ret Nat) : Receives w fd true r (.threw .timeout) w [.awaited true]
  | fails (errno : Errno) :
      Receives w fd false (.fails errno) (.threw (.readFailed errno)) w
        [.awaited false, .made .read (some errno)]
  | eof {k : KSock} (leaves : Option Errno) (used : w.table fd = some k)
      (ended : (w.sock k).rx = [] ∧ (w.sock k).eof = true) :
      Receives w fd false (.ok 0 leaves) (.threw .connectionClosed) w
        [.awaited false, .made .read none]
  | bytes {k : KSock} {n : Nat} (leaves : Option Errno) (used : w.table fd = some k)
      (there : n + 1 ≤ 4096 ∧ n + 1 ≤ (w.sock k).rx.length) :
      Receives w fd false (.ok (n + 1) leaves) (.data ((w.sock k).rx.take (n + 1)))
        (w.setSock k { w.sock k with rx := (w.sock k).rx.drop (n + 1) })
        [.awaited false, .made .read none]

/-- What the callback of `write` comes to. -/
inductive Sends (w : World) (data : List UInt8) (fd : Fd) :
    Bool → Ret Nat → Outcome → World → List Attempt → Prop
  | timedOut (r : Ret Nat) : Sends w data fd true r (.threw .timeout) w [.awaited true]
  | fails (errno : Errno) :
      Sends w data fd false (.fails errno) (.threw (.writeFailed errno)) w
        [.awaited false, .made .write (some errno)]
  | wrote {k : KSock} {n : Nat} (leaves : Option Errno) (used : w.table fd = some k)
      (may : n ≤ data.length ∧ (w.sock k).conn = .established) :
      Sends w data fd false (.ok n leaves) .returned (Core.send w k (data.take n))
        [.awaited false, .made .write none]

/-- The state in which `connect` waits. -/
theorem Connects.waits {w w' : World} {loop : Nat} {r : ConnectRets} {fd : Fd} {o : Nat}
    {log : List Attempt} (h : Connects w loop r (.waits fd o) w' log) :
    o = w.nextObj ∧ w.Free fd ∧ w' = w.connecting loop fd ∧
      log = [.made .socket none, .made .fcntl r.fcntl.1.failed, .made .fcntl r.fcntl.2.failed,
        .made .connect (some einprogress)] := by
  cases h with
  | inProgress socket free connect => exact ⟨rfl, free, rfl, rfl⟩

namespace Thread

variable {t t' : Thread} {w : World} {e : Errno} {loop : Nat} {out : Outcome} {log : List Attempt}

theorem listen_cases {r : ListenRets} (h : listen ⟨w, e, []⟩ loop r = some (out, t')) :
    Listens w loop r out t'.world t'.log := by
  rw [listen] at h
  cases socket : r.socket with
  | fails errno =>
      simp only [socket, Option.some.injEq, Prod.mk.injEq] at h
      obtain ⟨rfl, rfl⟩ := h
      exact .socketFails socket
  | ok fd leaves =>
      simp only [socket] at h
      split at h
      · next free =>
          cases bind : r.bind with
          | fails errno =>
              simp only [bind, Ret.failed, Option.isSome_some, if_true, Option.some.injEq,
                Prod.mk.injEq] at h
              obtain ⟨rfl, rfl⟩ := h
              exact .bindFails socket free bind
          | ok _ _ =>
              have bound : r.bind.failed = none := by rw [bind]; rfl
              cases listen : r.listen with
              | fails errno =>
                  simp only [bind, listen, Ret.failed, Option.isSome_none, Option.isSome_some,
                    Bool.false_eq_true, if_false, if_true, Option.some.injEq, Prod.mk.injEq] at h
                  obtain ⟨rfl, rfl⟩ := h
                  exact .listenFails socket free bound listen
              | ok _ _ =>
                  have listens : r.listen.failed = none := by rw [listen]; rfl
                  simp only [bind, listen, Ret.failed, Option.isSome_none, Bool.false_eq_true,
                    if_false, Option.some.injEq, Prod.mk.injEq] at h
                  obtain ⟨rfl, rfl⟩ := h
                  exact .ok socket free bound listens
      · cases h

theorem connect_cases {r : ConnectRets} {how : Progress}
    (h : connect ⟨w, e, []⟩ loop r = some (how, t')) :
    Connects w loop r how t'.world t'.log := by
  rw [connect] at h
  cases socket : r.socket with
  | fails errno =>
      simp only [socket, Option.some.injEq, Prod.mk.injEq] at h
      obtain ⟨rfl, rfl⟩ := h
      exact .socketFails socket
  | ok fd leaves =>
      simp only [socket] at h
      split at h
      · next free =>
          cases connect : r.connect with
          | ok listener leaves' =>
              simp only [connect] at h
              obtain ⟨w', established, eq⟩ := Option.map_eq_some_iff.mp h
              simp only [Prod.mk.injEq] at eq
              obtain ⟨rfl, rfl⟩ := eq
              exact .ok socket free connect established
          | fails errno =>
              simp only [connect] at h
              split at h
              · next progress =>
                  simp only [Option.some.injEq, Prod.mk.injEq] at h
                  obtain ⟨rfl, rfl⟩ := h
                  have progress : errno = einprogress := progress
                  subst progress
                  exact .inProgress socket free connect
              · next decided =>
                  have decided : errno ≠ einprogress := decided
                  obtain ⟨w₁, refused, h⟩ := Option.bind_eq_some_iff.mp h
                  obtain ⟨t₁, gone, eq⟩ := Option.map_eq_some_iff.mp h
                  obtain ⟨w', dropped, rfl⟩ := Option.map_eq_some_iff.mp gone
                  simp only [Prod.mk.injEq] at eq
                  obtain ⟨rfl, rfl⟩ := eq
                  exact .fails socket free connect decided refused dropped
      · cases h

theorem accept_cases {fd : Fd} {r : AcceptRets}
    (h : accept ⟨w, e, []⟩ loop fd r = some (out, t')) :
    Accepts w loop fd r out t'.world t'.log := by
  rw [accept] at h
  cases accept : r.accept with
  | fails errno =>
      simp only [accept, Option.some.injEq, Prod.mk.injEq] at h
      obtain ⟨rfl, rfl⟩ := h
      exact .fails accept
  | ok clientFd leaves =>
      simp only [accept] at h
      split at h
      · next k used =>
          split at h
          · next client rest backlog =>
              split at h
              · next may =>
                  simp only [Option.some.injEq, Prod.mk.injEq] at h
                  obtain ⟨rfl, rfl⟩ := h
                  exact .ok accept used backlog may.1 may.2
              · cases h
          · cases h
      · cases h

theorem read_cases {fd : Fd} {timedOut : Bool} {r : Ret Nat}
    (h : read ⟨w, e, []⟩ fd timedOut r = some (out, t')) :
    Receives w fd timedOut r out t'.world t'.log := by
  cases timedOut with
  | true =>
      cases h
      exact .timedOut r
  | false =>
      match r, h with
      | .fails errno, h =>
          cases h
          exact .fails errno
      | .ok 0 leaves, h =>
          obtain ⟨k, used, h⟩ := Option.bind_eq_some_iff.mp h
          split at h
          · next ended =>
              cases h
              exact .eof leaves used ended
          · cases h
      | .ok (n + 1) leaves, h =>
          obtain ⟨k, used, h⟩ := Option.bind_eq_some_iff.mp h
          dsimp only at h
          split at h
          · next there =>
              cases h
              exact .bytes leaves used there
          · cases h

theorem write_cases {data : List UInt8} {fd : Fd} {timedOut : Bool} {r : Ret Nat}
    (h : write ⟨w, e, []⟩ data fd timedOut r = some (out, t')) :
    Sends w data fd timedOut r out t'.world t'.log := by
  cases timedOut with
  | true =>
      cases h
      exact .timedOut r
  | false =>
      match r, h with
      | .fails errno, h =>
          cases h
          exact .fails errno
      | .ok n leaves, h =>
          obtain ⟨k, used, h⟩ := Option.bind_eq_some_iff.mp h
          split at h
          · next may =>
              cases h
              exact .wrote leaves used may
          · cases h

/-- What the second half of `connect` comes to. -/
theorem connected_cases {o : Nat} {timedOut : Bool} {r : Ret Unit}
    (h : connected ⟨w, e, log⟩ o timedOut r = some (out, t')) :
    (timedOut = false ∧ out = .socket o ∧ t'.world = w ∧ t'.log = log ++ [.awaited false]) ∨
      timedOut = true ∧ out = .threw .timeout ∧ w.deinit o = some t'.world ∧
        t'.log = log ++ [.awaited true, .made .close r.failed] := by
  cases timedOut with
  | false =>
      cases h
      exact Or.inl ⟨rfl, rfl, rfl, rfl⟩
  | true =>
      obtain ⟨t₁, gone, eq⟩ := Option.map_eq_some_iff.mp h
      obtain ⟨w', dropped, rfl⟩ := Option.map_eq_some_iff.mp gone
      cases eq
      refine Or.inr ⟨rfl, rfl, dropped, ?_⟩
      show (log ++ [_]) ++ [_] = _
      rw [List.append_assoc]
      rfl

end Thread

/-! ## The steps of the loop

What `SwiftEvent.Core` does in one step is what these calls come to. -/

/-- The answers to `listen`, as the loop is told of them. -/
def ListenRets.result (r : ListenRets) : World.ListenResult :=
  match r.socket, r.bind, r.listen with
  | .fails errno, _, _ => .socketFails errno
  | .ok fd _, .fails errno, _ => .bindFails fd errno
  | .ok fd _, .ok _ _, .fails errno => .listenFails fd errno
  | .ok fd _, .ok _ _, .ok _ _ => .ok fd

/-- The answers to `connect`, as the loop is told of them. -/
def ConnectRets.result (r : ConnectRets) : Core.ConnectResult :=
  match r.socket, r.connect with
  | .fails errno, _ => .socketFails errno
  | .ok fd _, .ok listener _ => .ok fd listener
  | .ok fd _, .fails errno => if errno = einprogress then .inProgress fd else .fails fd errno

/-- What the loop takes for the answer to `accept(2)`. -/
def AcceptRets.result (r : AcceptRets) : Core.SysResult :=
  match r.accept with
  | .fails errno => .fails errno
  | .ok clientFd _ => .fd clientFd

/-- What the loop takes for the answer to `read(2)`. -/
def readResult : Ret Nat → Core.SysResult
  | .fails errno => .fails errno
  | .ok 0 _ => .eof
  | .ok (n + 1) _ => .bytes (n + 1)

/-- What the loop takes for the answer to `write(2)`. -/
def writeResult : Ret Nat → Core.SysResult
  | .fails errno => .fails errno
  | .ok n _ => .bytes n

/-- A call on a number that is not open fails with `EBADF`. -/
def World.Tells {α : Type} (w : World) (fd : Fd) (r : Ret α) : Prop :=
  ∀ errno, r = .fails errno → w.table fd = none → errno = ebadf

/-- `accept(2)` fails with `EAGAIN` on a listener without a connection only. -/
def World.TellsEmpty (w : World) (fd : Fd) (r : Ret Fd) : Prop :=
  r = .fails eagain → ∀ k, w.table fd = some k →
    (w.sock k).conn = .listening ∧ (w.sock k).backlog = []

/-- The outcome that is recorded when `connect` gives the thread back. -/
def Progress.outcomes : Progress → List Outcome
  | .done out => [out]
  | .waits _ _ => []

/-- A loop in the process, told of the answers, makes the step of the first half of `connect`; the
object of a refused attempt is still to be destroyed. -/
def ConnectRets.Steps (r : ConnectRets) (w : World) (loop : Nat) (how : Progress) (w' : World) :
    Prop :=
  ∀ c : Core, c.world = w → c.loop.self = loop → ∀ (n : Nat) (address : SocketAddress)
    (timeout : Option Duration) (env : Base.AddEnv) (now : Timeval),
    address.family w.endian = some .inet →
    ∃ c', c.connect n address r.result timeout env now = some c' ∧
      (c'.loop.call n).outcomes = how.outcomes ∧
      (c'.world = w' ∨ ∃ errno, how = .done (.threw (.connectionFailed errno)) ∧
        c'.world.deinit w.nextObj = some w')

section Refines

variable {w w' : World} {loop : Nat} {out : Outcome} {log : List Attempt}

/-- A success is no failure. -/
theorem Ret.ok_of_failed {α : Type} {r : Ret α} (h : r.failed = none) :
    ∃ value leaves, r = .ok value leaves := by
  cases r with
  | ok value leaves => exact ⟨value, leaves, rfl⟩
  | fails errno => cases h

/-- `socket(2)` and what is made of the socket at once. -/
theorem openObj_eq (w : World) (role : Role) (loop : Nat) (fd : Fd) (conn : ConnState) :
    ((w.socket fd).enter w.nextSock conn).adopt role loop fd w.nextSock =
      w.openObj role loop fd { conn } := by
  simp [World.socket, World.enter, World.adopt, World.openObj, World.install, World.setSock,
    World.newSock]

theorem Listens.refines {r : ListenRets} (h : Listens w loop r out w' log) :
    w.listen loop r.result = some w' := by
  cases h with
  | socketFails socket => rw [ListenRets.result, socket]; rfl
  | bindFails socket free bind =>
      rw [ListenRets.result, socket, bind]
      exact if_pos free
  | listenFails socket free bind listen =>
      obtain ⟨_, _, bind⟩ := Ret.ok_of_failed bind
      rw [ListenRets.result, socket, bind, listen]
      exact if_pos free
  | ok socket free bind listen =>
      obtain ⟨_, _, bind⟩ := Ret.ok_of_failed bind
      obtain ⟨_, _, listen⟩ := Ret.ok_of_failed listen
      rw [ListenRets.result, socket, bind, listen, openObj_eq]
      exact if_pos free

theorem connecting_eq (w : World) (loop : Nat) (fd : Fd) :
    w.connecting loop fd =
      w.openObj .socket loop fd { family := .inet, conn := .connecting } :=
  openObj_eq w .socket loop fd .connecting

/-- The record of a new call. -/
theorem outcomes_record (c : Core) (n : Nat) (call : Call) :
    ((c.record n call).loop.call n).outcomes = call.outcomes := by
  simp [Core.record]

theorem Connects.refines {r : ConnectRets} {how : Progress} (h : Connects w loop r how w' log) :
    r.Steps w loop how w' := by
  rintro c rfl rfl n address timeout env now inet
  cases h with
  | socketFails socket =>
      rw [ConnectRets.result, socket]
      exact ⟨_, rfl, outcomes_record c n _, Or.inl rfl⟩
  | ok socket free connect established =>
      rw [ConnectRets.result, socket, connect]
      rw [connecting_eq] at established
      dsimp only [Core.connect]
      rw [if_pos ⟨free, inet⟩, established]
      exact ⟨_, rfl, outcomes_record _ n _, Or.inl rfl⟩
  | @inProgress fd leaves socket free connect =>
      rw [ConnectRets.result, socket, connect, connecting_eq]
      dsimp only [Core.connect]
      rw [if_pos rfl]
      dsimp only
      rw [if_pos ⟨free, inet⟩]
      exact ⟨_, rfl, outcomes_record _ n _, Or.inl rfl⟩
  | @fails fd leaves errno w₁ _ socket free connect decided refused dropped =>
      rw [ConnectRets.result, socket, connect]
      rw [connecting_eq] at refused
      dsimp only [Core.connect]
      rw [if_neg decided]
      dsimp only
      rw [if_pos ⟨free, decided⟩, refused]
      exact ⟨_, rfl, outcomes_record _ n _, Or.inr ⟨errno, rfl, dropped⟩⟩

/-- The callback of the loop for `accept`. -/
theorem Accepts.refines {fd : Fd} {r : AcceptRets} (h : Accepts w loop fd r out w' log)
    (tells : w.Tells fd r.accept) (empty : w.TellsEmpty fd r.accept) :
    ∃ fx, Core.acceptCallback w loop fd r.result = some fx ∧ fx.world = w' ∧ fx.outcome = out := by
  cases h with
  | @fails errno accept =>
      cases used : w.table fd with
      | none =>
          simp only [AcceptRets.result, accept, Core.acceptCallback, used]
          exact ⟨_, if_pos (tells errno accept used), rfl, rfl⟩
      | some k =>
          simp only [AcceptRets.result, accept, Core.acceptCallback, used]
          refine ⟨_, if_pos fun again => ?_, rfl, rfl⟩
          rw [again] at accept
          exact empty accept k used
  | ok accept used backlog free listening =>
      simp only [AcceptRets.result, accept, Core.acceptCallback, used, backlog]
      exact ⟨_, if_pos ⟨free, listening⟩, rfl, rfl⟩

/-- The callback of the loop for `read`. -/
theorem Receives.refines {fd : Fd} {timedOut : Bool} {r : Ret Nat}
    (h : Receives w fd timedOut r out w' log) (tells : w.Tells fd r) {res : Evs}
    (due : res.timeout = timedOut) :
    ∃ fx, Core.readCallback w fd res (readResult r) = some fx ∧ fx.world = w' ∧
      fx.outcome = out := by
  cases h with
  | timedOut r => exact ⟨_, if_pos due, rfl, rfl⟩
  | fails errno =>
      cases used : w.table fd with
      | none =>
          simp only [readResult, Core.readCallback, used, due, Bool.false_eq_true, if_false]
          exact ⟨_, if_pos (tells errno rfl used), rfl, rfl⟩
      | some k =>
          simp only [readResult, Core.readCallback, used, due]
          exact ⟨_, rfl, rfl, rfl⟩
  | eof leaves used ended =>
      simp only [readResult, Core.readCallback, used, due]
      exact ⟨_, if_pos ended, rfl, rfl⟩
  | @bytes k n leaves used there =>
      simp only [readResult, Core.readCallback, used, due, Bool.false_eq_true, if_false]
      exact ⟨_, if_pos ⟨Nat.succ_pos n, there⟩, rfl, rfl⟩

/-- The callback of the loop for `write`. -/
theorem Sends.refines {data : List UInt8} {fd : Fd} {timedOut : Bool} {r : Ret Nat}
    (h : Sends w data fd timedOut r out w' log) (tells : w.Tells fd r) {res : Evs}
    (due : res.timeout = timedOut) :
    ∃ fx, Core.writeCallback w data fd res (writeResult r) = some fx ∧ fx.world = w' ∧
      fx.outcome = out := by
  cases h with
  | timedOut r => exact ⟨_, if_pos due, rfl, rfl⟩
  | fails errno =>
      cases used : w.table fd with
      | none =>
          simp only [writeResult, Core.writeCallback, used, due, Bool.false_eq_true, if_false]
          exact ⟨_, if_pos (tells errno rfl used), rfl, rfl⟩
      | some k =>
          simp only [writeResult, Core.writeCallback, used, due]
          exact ⟨_, rfl, rfl, rfl⟩
  | wrote leaves used may =>
      simp only [writeResult, Core.writeCallback, used, due]
      exact ⟨_, if_pos may, rfl, rfl⟩

end Refines

/-! ## Plans and failures -/

/-- What `listen` tries as long as nothing stops it, with what the kernel makes of it. -/
def ListenRets.plan (r : ListenRets) : List Attempt :=
  [.made .socket r.socket.failed, .made .setsockopt r.setsockopt.failed,
    .made .bind r.bind.failed, .made .listen r.listen.failed,
    .made .fcntl r.fcntl.1.failed, .made .fcntl r.fcntl.2.failed]

/-- What `connect` tries before it waits. -/
def ConnectRets.plan (r : ConnectRets) : List Attempt :=
  [.made .socket r.socket.failed, .made .fcntl r.fcntl.1.failed, .made .fcntl r.fcntl.2.failed,
    .made .connect r.connect.failed]

/-- What `accept` tries. -/
def AcceptRets.plan (r : AcceptRets) : List Attempt :=
  [.awaited false, .made .accept r.accept.failed, .made .fcntl r.fcntl.1.failed,
    .made .fcntl r.fcntl.2.failed]

/-- What `read` and `write` try. -/
def ioPlan (call : Syscall) (timedOut : Bool) (r : Ret Nat) : List Attempt :=
  [.awaited timedOut, .made call r.failed]

/-- The first failure of a plan, as `SocketError` documents it. -/
def failure (plan : List Attempt) : Option SocketError := plan.findSome? Attempt.error

/-- The plan as far as its first failure. -/
def upTo : List Attempt → List Attempt
  | [] => []
  | x :: plan => if x.error.isSome then [x] else x :: upTo plan

@[simp] theorem failure_nil : failure [] = none := rfl

@[simp] theorem failure_cons (x : Attempt) (plan : List Attempt) :
    failure (x :: plan) = x.error.or (failure plan) := by
  rw [failure, List.findSome?_cons]
  cases x.error with
  | none => rfl
  | some error => rfl

/-- The plan has been followed as far as its first failure; after a failure, and only then,
descriptors have been closed. -/
def Tried (plan log : List Attempt) : Prop :=
  ∃ cleanup, log = upTo plan ++ cleanup ∧ (failure plan = none → cleanup = []) ∧
    ∀ x ∈ cleanup, ∃ failed, x = .made .close failed

section Tried

variable {w w' : World} {loop : Nat} {out : Outcome} {plan log : List Attempt}

/-- Nothing had to be closed. -/
theorem Tried.plain (h : log = upTo plan) : Tried plan log :=
  ⟨[], by rw [h, List.append_nil], fun _ => rfl, fun _ mem => absurd mem List.not_mem_nil⟩

/-- One descriptor has been closed after the failure. -/
theorem Tried.closed (error : SocketError) (close : Option Errno)
    (h : log = upTo plan ++ [.made .close close]) (failed : failure plan = some error) :
    Tried plan log := by
  refine ⟨_, h, fun fine => ?_, fun x mem => ⟨close, List.mem_singleton.mp mem⟩⟩
  rw [failed] at fine
  cases fine

/-! ### The first failure, by the answers of the kernel -/

theorem ListenRets.failure_socket {r : ListenRets} {errno : Errno}
    (socket : r.socket = .fails errno) : failure r.plan = some (.socketCreationFailed errno) := by
  simp [ListenRets.plan, Attempt.error, socket]

theorem ListenRets.failure_bind {r : ListenRets} {errno : Errno}
    (socket : r.socket.failed = none) (bind : r.bind = .fails errno) :
    failure r.plan = some (.bindFailed errno) := by
  simp [ListenRets.plan, Attempt.error, socket, bind]

theorem ListenRets.failure_listen {r : ListenRets} {errno : Errno}
    (socket : r.socket.failed = none) (bind : r.bind.failed = none)
    (listen : r.listen = .fails errno) : failure r.plan = some (.listenFailed errno) := by
  simp [ListenRets.plan, Attempt.error, socket, bind, listen]

theorem ListenRets.failure_none {r : ListenRets} (socket : r.socket.failed = none)
    (bind : r.bind.failed = none) (listen : r.listen.failed = none) : failure r.plan = none := by
  simp [ListenRets.plan, Attempt.error, socket, bind, listen]

theorem Listens.tried {r : ListenRets} (h : Listens w loop r out w' log) : Tried r.plan log := by
  cases h with
  | socketFails socket =>
      refine .plain ?_
      simp [ListenRets.plan, upTo, Attempt.error, socket]
  | @bindFails fd leaves errno socket free bind =>
      refine .closed (.bindFailed errno) r.close.failed ?_ (r.failure_bind (by rw [socket]; rfl) bind)
      simp [ListenRets.plan, upTo, Attempt.error, socket, bind]
  | @listenFails fd leaves errno socket free bind listen =>
      refine .closed (.listenFailed errno) r.close.failed ?_
        (r.failure_listen (by rw [socket]; rfl) bind listen)
      simp [ListenRets.plan, upTo, Attempt.error, socket, bind, listen]
  | ok socket free bind listen =>
      refine .plain ?_
      simp [ListenRets.plan, upTo, Attempt.error, socket, bind, listen]

theorem Connects.tried {r : ConnectRets} (h : Connects w loop r (.done out) w' log) :
    Tried r.plan log := by
  cases h with
  | socketFails socket =>
      refine .plain ?_
      simp [ConnectRets.plan, upTo, Attempt.error, socket]
  | ok socket free connect established =>
      refine .plain ?_
      simp [ConnectRets.plan, upTo, Attempt.error, socket, connect]
  | @fails fd leaves errno w₁ _ socket free connect decided refused dropped =>
      refine .closed (.connectionFailed errno) r.close.failed ?_ ?_
      · simp [ConnectRets.plan, upTo, Attempt.error, socket, connect, decided]
      · simp [ConnectRets.plan, Attempt.error, socket, connect, decided]

theorem Accepts.tried {fd : Fd} {r : AcceptRets} (h : Accepts w loop fd r out w' log) :
    Tried r.plan log := by
  cases h with
  | fails accept =>
      refine .plain ?_
      simp [AcceptRets.plan, upTo, Attempt.error, accept]
  | ok accept used backlog free listening =>
      refine .plain ?_
      simp [AcceptRets.plan, upTo, Attempt.error, accept]

theorem Receives.tried {fd : Fd} {timedOut : Bool} {r : Ret Nat}
    (h : Receives w fd timedOut r out w' log) : Tried (ioPlan .read timedOut r) log := by
  refine .plain ?_
  cases h with
  | timedOut => simp [ioPlan, upTo, Attempt.error]
  | fails => simp [ioPlan, upTo, Attempt.error]
  | eof => simp [ioPlan, upTo, Attempt.error]
  | bytes => simp [ioPlan, upTo, Attempt.error]

theorem Sends.tried {data : List UInt8} {fd : Fd} {timedOut : Bool} {r : Ret Nat}
    (h : Sends w data fd timedOut r out w' log) : Tried (ioPlan .write timedOut r) log := by
  refine .plain ?_
  cases h with
  | timedOut => simp [ioPlan, upTo, Attempt.error]
  | fails => simp [ioPlan, upTo, Attempt.error]
  | wrote => simp [ioPlan, upTo, Attempt.error]

/-- The second half of `connect` takes the plan up where the first has left it. -/
theorem Thread.connected_tried {t : Thread} {w₀ w₁ : World} {e : Errno} {r : ConnectRets} {fd : Fd}
    {o : Nat} {timedOut : Bool} {close : Ret Unit} (first : Connects w₀ loop r (.waits fd o) w₁ log)
    (h : connected ⟨w, e, log⟩ o timedOut close = some (out, t)) :
    Tried (r.plan ++ [.awaited timedOut]) t.log := by
  cases first with
  | inProgress socket free connect =>
      rcases connected_cases h with ⟨rfl, -, -, eq⟩ | ⟨rfl, -, -, eq⟩
      · refine .plain ?_
        rw [eq]
        simp [ConnectRets.plan, upTo, Attempt.error, socket, connect]
      · refine .closed .timeout close.failed ?_ ?_
        · rw [eq]
          simp [ConnectRets.plan, upTo, Attempt.error, socket, connect]
        · simp [ConnectRets.plan, Attempt.error, socket, connect]

end Tried

/-! ## The `errno` of a failure -/

/-- The first failure of the plan is what is thrown, with the `errno` it set. -/
def Carries (plan : List Attempt) (out : Outcome) : Prop :=
  ∀ error, failure plan = some error → out = .threw error

/-- The `errno` with which `bind(2)` or `listen(2)` fails. -/
def ListenRets.refusal (r : ListenRets) : Option Errno :=
  match r.socket, r.bind with
  | .fails _, _ => none
  | .ok _ _, .fails errno => some errno
  | .ok _ _, .ok _ _ => r.listen.failed

/-- The `close(2)` after a refusal leaves the `errno` as it is. -/
def ListenRets.Undisturbed (r : ListenRets) : Prop :=
  ∀ errno ∈ r.refusal, r.close.errno errno = errno

section Carries

variable {w w' : World} {loop : Nat} {out : Outcome} {log : List Attempt}

/-- **What `listen` throws** has the right `errno` where `close(2)` leaves it alone, and only
there. -/
theorem Listens.carries_iff {r : ListenRets} (h : Listens w loop r out w' log) :
    Carries r.plan out ↔ r.Undisturbed := by
  cases h with
  | socketFails socket =>
      have none : r.refusal = none := by rw [ListenRets.refusal, socket]
      simp [Carries, ListenRets.Undisturbed, none, ListenRets.failure_socket socket]
  | @bindFails fd leaves errno socket free bind =>
      have refusal : r.refusal = some errno := by rw [ListenRets.refusal, socket, bind]
      have failed := r.failure_bind (by rw [socket]; rfl) bind
      simp [Carries, ListenRets.Undisturbed, refusal, failed]
  | @listenFails fd leaves errno socket free bind listen =>
      have refusal : r.refusal = some errno := by
        obtain ⟨_, _, bound⟩ := Ret.ok_of_failed bind
        rw [ListenRets.refusal, socket, bound]
        exact congrArg Ret.failed listen
      have failed := r.failure_listen (by rw [socket]; rfl) bind listen
      simp [Carries, ListenRets.Undisturbed, refusal, failed]
  | ok socket free bind listen =>
      have refusal : r.refusal = none := by
        obtain ⟨_, _, bound⟩ := Ret.ok_of_failed bind
        rw [ListenRets.refusal, socket, bound]
        exact listen
      have fine := r.failure_none (by rw [socket]; rfl) bind listen
      simp [Carries, ListenRets.Undisturbed, refusal, fine]

theorem Connects.carries {r : ConnectRets} (h : Connects w loop r (.done out) w' log) :
    Carries r.plan out := by
  cases h with
  | socketFails socket => simp [Carries, ConnectRets.plan, Attempt.error, socket]
  | ok socket free connect => simp [Carries, ConnectRets.plan, Attempt.error, socket, connect]
  | fails socket free connect decided =>
      simp [Carries, ConnectRets.plan, Attempt.error, socket, connect, decided]

theorem Accepts.carries {fd : Fd} {r : AcceptRets} (h : Accepts w loop fd r out w' log) :
    Carries r.plan out := by
  cases h with
  | fails accept => simp [Carries, AcceptRets.plan, Attempt.error, accept]
  | ok accept => simp [Carries, AcceptRets.plan, Attempt.error, accept]

theorem Receives.carries {fd : Fd} {timedOut : Bool} {r : Ret Nat}
    (h : Receives w fd timedOut r out w' log) : Carries (ioPlan .read timedOut r) out := by
  cases h with
  | timedOut => simp [Carries, ioPlan, Attempt.error]
  | fails => simp [Carries, ioPlan, Attempt.error]
  | eof => simp [Carries, ioPlan, Attempt.error]
  | bytes => simp [Carries, ioPlan, Attempt.error]

theorem Sends.carries {data : List UInt8} {fd : Fd} {timedOut : Bool} {r : Ret Nat}
    (h : Sends w data fd timedOut r out w' log) : Carries (ioPlan .write timedOut r) out := by
  cases h with
  | timedOut => simp [Carries, ioPlan, Attempt.error]
  | fails => simp [Carries, ioPlan, Attempt.error]
  | wrote => simp [Carries, ioPlan, Attempt.error]

end Carries

namespace Thread

variable {t t' : Thread} {w : World} {e : Errno} {out : Outcome} {log : List Attempt}

theorem connected_carries {w₀ w₁ : World} {loop : Nat} {r : ConnectRets} {fd : Fd} {o : Nat}
    {timedOut : Bool} {close : Ret Unit} (first : Connects w₀ loop r (.waits fd o) w₁ log)
    (h : connected ⟨w, e, log⟩ o timedOut close = some (out, t')) :
    Carries (r.plan ++ [.awaited timedOut]) out := by
  cases first with
  | inProgress socket free connect =>
      rcases connected_cases h with ⟨rfl, rfl, -, -⟩ | ⟨rfl, rfl, -, -⟩
      · simp [Carries, ConnectRets.plan, Attempt.error, socket, connect]
      · simp [Carries, ConnectRets.plan, Attempt.error, socket, connect]

/-- **The `errno` of what is thrown** is that of the call that failed: always in `connect`,
`accept`, `read` and `write`, and in `listen` exactly where the `close(2)` after a refusal leaves
it alone.  What has been tried is in each case what the answers of the kernel call for, and the
callbacks of the loop, told of the same answers, come to the same. -/
theorem errno_iff (w : World) (e : Errno) (loop : Nat) :
    (∀ r out t, listen ⟨w, e, []⟩ loop r = some (out, t) →
      Tried r.plan t.log ∧ (Carries r.plan out ↔ r.Undisturbed)) ∧
    (∀ r out t, connect ⟨w, e, []⟩ loop r = some (.done out, t) →
      Tried r.plan t.log ∧ Carries r.plan out) ∧
    (∀ r fd o t, connect ⟨w, e, []⟩ loop r = some (.waits fd o, t) →
      ∀ w' e' timedOut close out t', connected ⟨w', e', t.log⟩ o timedOut close = some (out, t') →
        Tried (r.plan ++ [.awaited timedOut]) t'.log ∧
          Carries (r.plan ++ [.awaited timedOut]) out) ∧
    (∀ fd r out t, accept ⟨w, e, []⟩ loop fd r = some (out, t) →
      Tried r.plan t.log ∧ Carries r.plan out) ∧
    (∀ fd timedOut r out t, read ⟨w, e, []⟩ fd timedOut r = some (out, t) →
      Tried (ioPlan .read timedOut r) t.log ∧ Carries (ioPlan .read timedOut r) out ∧
      ∀ res, w.Tells fd r → res.timeout = timedOut →
        ∃ fx, Core.readCallback w fd res (readResult r) = some fx ∧ fx.world = t.world ∧
          fx.outcome = out) ∧
    ∀ data fd timedOut r out t, write ⟨w, e, []⟩ data fd timedOut r = some (out, t) →
      Tried (ioPlan .write timedOut r) t.log ∧ Carries (ioPlan .write timedOut r) out ∧
      ∀ res, w.Tells fd r → res.timeout = timedOut →
        ∃ fx, Core.writeCallback w data fd res (writeResult r) = some fx ∧ fx.world = t.world ∧
          fx.outcome = out := by
  refine ⟨?_, ?_, ?_, ?_, ?_, ?_⟩
  · intro r out t h
    exact ⟨(listen_cases h).tried, (listen_cases h).carries_iff⟩
  · intro r out t h
    exact ⟨(connect_cases h).tried, (connect_cases h).carries⟩
  · intro r fd o t h w' e' timedOut close out t' h'
    exact ⟨connected_tried (connect_cases h) h', connected_carries (connect_cases h) h'⟩
  · intro fd r out t h
    exact ⟨(accept_cases h).tried, (accept_cases h).carries⟩
  · intro fd timedOut r out t h
    have came := read_cases h
    exact ⟨came.tried, came.carries, fun res tells due => came.refines tells due⟩
  · intro data fd timedOut r out t h
    have came := write_cases h
    exact ⟨came.tried, came.carries, fun res tells due => came.refines tells due⟩

/-- A port that is taken. -/
def portTaken (close : Ret Unit) : ListenRets where
  socket := .ok 4 none
  setsockopt := .ok () none
  bind := .fails 98
  listen := .ok () none
  close
  fcntl := (.ok () none, .ok () none)

theorem errno_iff_portTaken :
    ∃ t, listen ⟨.init .little, 0, []⟩ 0 (portTaken (.ok () none)) =
        some (.threw (.bindFailed 98), t) ∧
      Carries (portTaken (.ok () none)).plan (.threw (.bindFailed 98)) := by
  refine ⟨_, rfl, ?_⟩
  refine ((errno_iff (.init .little) 0 0).1 (portTaken (.ok () none)) _ _ rfl).2.mpr ?_
  intro errno _
  rfl

/-- **The `errno` of `close(2)` is thrown**: the port was in use, the error says input/output
error. -/
theorem close_overwrites_errno :
    ∃ t, listen ⟨.init .little, 0, []⟩ 0 (portTaken (.fails 5)) =
        some (.threw (.bindFailed 5), t) ∧
      .made .bind (some 98) ∈ t.log ∧
      ¬ Carries (portTaken (.fails 5)).plan (.threw (.bindFailed 5)) := by
  refine ⟨_, rfl, by decide, fun carries => ?_⟩
  have thrown := carries (.bindFailed 98) rfl
  exact absurd thrown (by decide)

end Thread

/-! ## Descriptors -/

/-- An operation goes as its plan says.  Where the plan has a failure, the operation throws the
case of that failure and leaves the descriptors as they were; where it has none, the operation
returns an object and adds one descriptor, which is that object's. -/
def Clean (plan : List Attempt) (table : Fd → Option KSock) (out : Outcome) (w : World)
    (log : List Attempt) : Prop :=
  Tried plan log ∧
    match failure plan with
    | some error => ∃ thrown, out = .threw thrown ∧ thrown.case = error.case ∧ w.table = table
    | none => ∃ o x, out = .socket o ∧ w.obj o = some x ∧ 0 ≤ x.fd ∧ table x.fd = none ∧
        w.table = Function.update table x.fd (some x.sock)

section Clean

variable {w w' : World} {loop : Nat} {out : Outcome} {plan log : List Attempt}
  {table : Fd → Option KSock}

/-- A failure is thrown. -/
theorem Clean.threw {error thrown : SocketError} (tried : Tried plan log)
    (failed : failure plan = some error) (names : thrown.case = error.case)
    (same : w.table = table) : Clean plan table (.threw thrown) w log := by
  refine ⟨tried, ?_⟩
  rw [failed]
  exact ⟨thrown, rfl, names, same⟩

/-- An object is returned. -/
theorem Clean.returned {o : Nat} {x : Obj} (tried : Tried plan log) (fine : failure plan = none)
    (own : w.obj o = some x) (valid : 0 ≤ x.fd) (fresh : table x.fd = none)
    (added : w.table = Function.update table x.fd (some x.sock)) :
    Clean plan table (.socket o) w log := by
  refine ⟨tried, ?_⟩
  rw [fine]
  exact ⟨o, x, rfl, own, valid, fresh, added⟩

/-- A number that is handed out and closed again. -/
theorem update_update_free {fd : Fd} (free : w.Free fd) (k : Option KSock) :
    Function.update (Function.update w.table fd k) fd none = w.table := by
  rw [Function.update_idem, ← free.2, Function.update_eq_self]

theorem Listens.clean {r : ListenRets} (h : Listens w loop r out w' log) :
    Clean r.plan w.table out w' log := by
  have tried := h.tried
  cases h with
  | socketFails socket => exact .threw tried (r.failure_socket socket) rfl rfl
  | bindFails socket free bind =>
      exact .threw tried (r.failure_bind (by rw [socket]; rfl) bind) rfl (update_update_free free _)
  | listenFails socket free bind listen =>
      exact .threw tried (r.failure_listen (by rw [socket]; rfl) bind listen) rfl
        (update_update_free free _)
  | @ok fd leaves socket free bind listen =>
      exact .returned tried (r.failure_none (by rw [socket]; rfl) bind listen)
        (Function.update_self _ _ _) free.1 free.2 rfl

/-- The object that `connect` has made, when its `connect(2)` has been called. -/
theorem connecting_obj (w : World) (loop : Nat) (fd : Fd) :
    (w.connecting loop fd).obj w.nextObj =
      some { role := .socket, fd, loop, sock := w.nextSock } :=
  Function.update_self _ _ _

theorem connecting_table (w : World) (loop : Nat) (fd : Fd) :
    (w.connecting loop fd).table = Function.update w.table fd (some w.nextSock) := rfl

theorem table_deinit {o : Nat} {x : Obj} (own : w.obj o = some x) (h : w.deinit o = some w') :
    w'.table = Function.update w.table x.fd none := by
  rw [World.deinit, own] at h
  cases h
  rfl

theorem Connects.clean {r : ConnectRets} (h : Connects w loop r (.done out) w' log) :
    Clean r.plan w.table out w' log := by
  have tried := h.tried
  cases h with
  | @socketFails errno socket =>
      have failed : failure r.plan = some (.socketCreationFailed errno) := by
        simp [ConnectRets.plan, Attempt.error, socket]
      exact .threw tried failed rfl rfl
  | @ok fd leaves leaves' listener _ socket free connect established =>
      have same := World.same_conclude established
      have fine : failure r.plan = none := by
        simp [ConnectRets.plan, Attempt.error, socket, connect]
      have own := connecting_obj w loop fd
      rw [← same.obj] at own
      exact .returned tried fine own free.1 free.2 same.table
  | @fails fd leaves errno w₁ _ socket free connect decided refused dropped =>
      have same := World.same_conclude refused
      have failed : failure r.plan = some (.connectionFailed errno) := by
        simp [ConnectRets.plan, Attempt.error, socket, connect, decided]
      have own := connecting_obj w loop fd
      rw [← same.obj] at own
      refine .threw tried failed rfl ?_
      rw [table_deinit own dropped, same.table, connecting_table]
      exact update_update_free free _

theorem Accepts.clean {fd : Fd} {r : AcceptRets} (h : Accepts w loop fd r out w' log) :
    Clean r.plan w.table out w' log := by
  have tried := h.tried
  cases h with
  | @fails errno accept =>
      have failed : failure r.plan = some (.acceptFailed errno) := by
        simp [AcceptRets.plan, Attempt.error, accept]
      exact .threw tried failed rfl rfl
  | ok accept used backlog free listening =>
      have fine : failure r.plan = none := by simp [AcceptRets.plan, Attempt.error, accept]
      exact .returned tried fine (Function.update_self _ _ _) free.1 free.2 rfl

end Clean

namespace Thread

/-- What others do while `connect` waits: whatever they like, with descriptors and objects of
their own. -/
structure Aside (w w' : World) (fd : Fd) (o : Nat) : Prop where
  table : w'.table fd = w.table fd
  obj : w'.obj o = w.obj o

/-- What the second half of `connect` leaves, next to what the others have left. -/
theorem connected_clean {t : Thread} {w w₁ w' : World} {e : Errno} {out : Outcome}
    {log : List Attempt} {loop : Nat} {fd : Fd} {o : Nat} {timedOut : Bool} {r : ConnectRets}
    {close : Ret Unit} (first : Connects w loop r (.waits fd o) w₁ log) (aside : Aside w₁ w' fd o)
    (h : connected ⟨w', e, log⟩ o timedOut close = some (out, t)) :
    Clean (r.plan ++ [.awaited timedOut]) (Function.update w'.table fd none) out t.world t.log := by
  have tried := connected_tried first h
  obtain ⟨rfl, free, rfl, -⟩ := first.waits
  -- the object and its number are still those of the first half
  have own : w'.obj w.nextObj = _ := aside.obj.trans (connecting_obj w loop fd)
  have used : w'.table fd = some w.nextSock := by
    rw [aside.table, connecting_table, Function.update_self]
  cases first with
  | inProgress socket _ connect =>
      rcases connected_cases h with ⟨rfl, rfl, world, -⟩ | ⟨rfl, rfl, gone, -⟩
      · have fine : failure (r.plan ++ [.awaited false]) = none := by
          simp [ConnectRets.plan, Attempt.error, socket, connect]
        subst world
        refine .returned tried fine own free.1 (Function.update_self fd none t.world.table) ?_
        show t.world.table = Function.update (Function.update _ fd none) fd (some w.nextSock)
        rw [Function.update_idem, ← used, Function.update_eq_self]
      · have failed : failure (r.plan ++ [.awaited true]) = some .timeout := by
          simp [ConnectRets.plan, Attempt.error, socket, connect]
        exact .threw tried failed rfl (table_deinit own gone)

/-- **No descriptor leaks**, whatever the kernel answers.  Where an answer is a failure that the
operation checks, the operation throws the case of the first of them, has tried nothing after it
but the cleanup, and leaves the descriptors as they were; where there is none, it returns and has
added the descriptor of its object.  A loop that is told of the same answers makes the same step.

`connect` gives the process away while it waits: then the descriptors are those that the others
have left, which are those before the call if they have left them alone. -/
theorem no_descriptor_leaks (w : World) (e : Errno) (loop : Nat) :
    (∀ r out t, listen ⟨w, e, []⟩ loop r = some (out, t) →
      Clean r.plan w.table out t.world t.log ∧ w.listen loop r.result = some t.world) ∧
    (∀ r how t, connect ⟨w, e, []⟩ loop r = some (how, t) → r.Steps w loop how t.world) ∧
    (∀ r out t, connect ⟨w, e, []⟩ loop r = some (.done out, t) →
      Clean r.plan w.table out t.world t.log) ∧
    (∀ r fd o t, connect ⟨w, e, []⟩ loop r = some (.waits fd o, t) →
      ∀ w' e' timedOut close out t', Aside t.world w' fd o →
        connected ⟨w', e', t.log⟩ o timedOut close = some (out, t') →
        Clean (r.plan ++ [.awaited timedOut]) (Function.update w'.table fd none) out t'.world
            t'.log ∧
          (w'.table = t.world.table → Function.update w'.table fd none = w.table)) ∧
    ∀ fd r out t, accept ⟨w, e, []⟩ loop fd r = some (out, t) →
      Clean r.plan w.table out t.world t.log ∧
        (w.Tells fd r.accept → w.TellsEmpty fd r.accept →
          ∃ fx, Core.acceptCallback w loop fd r.result = some fx ∧ fx.world = t.world ∧
            fx.outcome = out) := by
  refine ⟨?_, ?_, ?_, ?_, ?_⟩
  · intro r out t h
    exact ⟨(listen_cases h).clean, (listen_cases h).refines⟩
  · intro r how t h
    exact (connect_cases h).refines
  · intro r out t h
    exact (connect_cases h).clean
  · intro r fd o t h w' e' timedOut close out t' aside h'
    refine ⟨connected_clean (connect_cases h) aside h', fun alone => ?_⟩
    obtain ⟨-, free, world, -⟩ := (connect_cases h).waits
    rw [alone, world, connecting_table]
    exact update_update_free free _
  · intro fd r out t h
    exact ⟨(accept_cases h).clean, (accept_cases h).refines⟩

/-- A peer that does not answer. -/
def silentPeer : ConnectRets where
  socket := .ok 4 none
  fcntl := (.ok () none, .ok () none)
  connect := .fails einprogress
  close := .ok () none

/-- A listener on number 3 with a connection that waits. -/
def queued : World :=
  { World.init .little with
    table := fun fd => if fd = 3 then some 0 else none
    sock := fun k =>
      if k = 0 then { conn := .listening, backlog := [1] } else { conn := .established }
    nextSock := 2 }

/-- A connection that is handed out on number 5. -/
def acceptsFive : AcceptRets where
  accept := .ok 5 none
  fcntl := (.ok () none, .ok () none)

/-- A port that is taken leaves nothing open, a connection is handed out on one descriptor, and a
peer that does not answer leaves nothing open either. -/
theorem no_descriptor_leaks_portTaken :
    (∃ t, listen ⟨queued, 0, []⟩ 0 (portTaken (.fails 5)) = some (.threw (.bindFailed 5), t) ∧
      t.world.table = queued.table) ∧
    (∃ t, accept ⟨queued, 0, []⟩ 0 3 acceptsFive = some (.socket 0, t) ∧
      t.world.table = Function.update queued.table 5 (some 1)) ∧
    ∃ t t', connect ⟨queued, 0, []⟩ 0 silentPeer = some (.waits 4 0, t) ∧
      connected ⟨t.world, 0, t.log⟩ 0 true (.ok () none) = some (.threw .timeout, t') ∧
      t'.world.table = queued.table := by
  obtain ⟨listens, -, -, waits, accepts⟩ := no_descriptor_leaks queued 0 0
  refine ⟨⟨_, rfl, ?_⟩, ⟨_, rfl, ?_⟩, _, _, rfl, rfl, ?_⟩
  · obtain ⟨⟨-, _, -, -, same⟩, -⟩ := listens (portTaken (.fails 5)) _ _ rfl
    exact same
  · obtain ⟨⟨-, o, x, out, own, -, -, added⟩, -⟩ := accepts 3 acceptsFive _ _ rfl
    cases out
    cases own
    exact added
  · obtain ⟨⟨-, _, -, -, same⟩, alone⟩ :=
      waits silentPeer 4 0 _ rfl _ 0 true (.ok () none) _ _ ⟨rfl, rfl⟩ rfl
    exact same.trans (alone rfl)

end Thread

end SwiftEvent
