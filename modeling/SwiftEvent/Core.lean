import SwiftEvent.Queues
import SwiftEvent.World

/-!
# One event loop and the calls made on it

`EventLoop.swift`, `Socket.swift` and `ServerSocket.swift` over the base: what
each call does up to the point where it drives the loop, and what its callback
does when the loop runs it.  Who drives the loop, and for how long, is left open
here: a `dispatch` or a `callback` may come at any moment, between any two calls
of any tasks.  `SwiftEvent.Drive` adds the driver.

### Reading the model against the source

* Every closure handed to libevent comes with a retained box; `released` counts
  the `takeRetainedValue` and `release` on it, and `stale` the callbacks that
  found it released already.
* Labels carry what the code cannot know beforehand: results of system calls,
  the descriptor numbers the kernel picks, clock readings, refusals.  A label
  that the kernel could not produce in the state is not enabled.
* A call is named by a number its label picks; it must be new.
* The result of `event_add` is recorded in `added`.  The source ignores it.
* `event_new` returning `NULL` is modelled where the source tests for it (signal
  streams).  The other places pass the `NULL` on to `event_add`, which
  dereferences it.
-/

namespace SwiftEvent

/-- What a continuation is resumed with: nothing, bytes, an object, an error. -/
inductive Outcome
  | returned
  | data (bytes : List UInt8)
  | socket (o : Nat)
  | threw (error : SocketError)
deriving DecidableEq, Repr

/-- The calls that put an event on a loop. -/
inductive Kind
  | connect (address : SocketAddress)
  | read
  | write (data : List UInt8)
  | accept
  | schedule
  | sleep
  | signal (signum : Int)
deriving DecidableEq

/-- The calls that wait for a descriptor. -/
def Kind.isIo : Kind → Bool
  | .connect _ | .read | .write _ | .accept => true
  | .schedule | .sleep | .signal _ => false

def Kind.isSignal : Kind → Bool
  | .signal _ => true
  | _ => false

/-- The calls that suspend a task until they are resumed. -/
def Kind.suspends : Kind → Bool
  | .connect _ | .read | .write _ | .accept | .sleep => true
  | .schedule | .signal _ => false

/-- A call and what has become of it. -/
structure Call where
  kind : Kind := .schedule
  obj : Option Nat := none
  /-- The kernel socket behind the descriptor when the call was made. -/
  sock : Option KSock := none
  /-- The relative timeout given to `event_add`. -/
  timeout : Option Timeval := none
  /-- Whether a box was handed over with `passRetained`. -/
  boxed : Bool := false
  /-- Whether `event_add`, or `event_base_once`, returned `0`. -/
  added : Bool := false
  /-- Event structures obtained from `event_new`, and given to `event_free`. -/
  allocs : Nat := 0
  frees : Nat := 0
  released : Nat := 0
  /-- How often the callback ran, and how often with a released box. -/
  ran : Nat := 0
  stale : Nat := 0
  outcomes : List Outcome := []
  /-- The kernel sockets on which the callback's system calls acted. -/
  syscalls : List (Option KSock) := []
  /-- The bytes a `write(2)` accepted. -/
  accepted : List UInt8 := []

/-- The record of a signal's call after a yield, which leaves the box alone. -/
def Call.yielded (call : Call) : Call :=
  { call with
    ran := call.ran + 1
    stale := call.stale + if call.released = 0 then 0 else 1 }

/-- The record of a signal's call after a round of `tearDown`. -/
def Call.torn (call : Call) : Call :=
  { call with frees := call.frees + 1, released := call.released + 1 }

/-- `SignalRegistration`. -/
structure Reg where
  events : List Nat := []
  torndown : Bool := false
deriving DecidableEq, Repr

/-- `EventLoop` with everything that was ever called on it. -/
structure Loop where
  self : Nat
  base : Base
  /-- The object that stands for the descriptor of the signal pipe. -/
  pipe : Nat
  /-- The calls, in the order in which they were made. -/
  made : List Nat
  call : Nat → Call
  reg : Nat → Reg
  nextReg : Nat
  alive : Bool

/-- A loop and the process it lives in. -/
structure Core where
  world : World
  loop : Loop

/-- `event_base_new()`: nothing is registered; the signal pipe's event is set up
but not added. -/
def Base.new (pipeFd : Fd) : Base where
  ev
    | .signalPipe => { evFd := pipeFd, evEvents := { read := true }, evPersist := true }
    | .call _ => {}
  inserted := []
  timeheap := []
  activequeue := []
  epoll _ := none
  evSignalAdded := false
  pipe := []
  disposition _ := .other 0
  shOld _ := none
  repeating := none
  pass := ⟨0, 0⟩

/-- `EventLoop.init()`, on the loop's own state. -/
def Loop.new (self pipe : Nat) (pipeFd : Fd) : Loop where
  self
  base := Base.new pipeFd
  pipe
  made := []
  call _ := {}
  reg _ := {}
  nextReg := 0
  alive := true

/-- `EventLoop.init()` in a process. -/
def newLoop (w : World) (self : Nat) (pipeFd : Fd) : Option Core :=
  if w.Free pipeFd then
    some ⟨w.openObj .pipe self pipeFd {}, Loop.new self w.nextObj pipeFd⟩
  else none

namespace Core

variable (c : Core)

/-- The core with the base replaced. -/
def withBase (b : Base) : Core := { c with loop := { c.loop with base := b } }

/-- The core with the record of a call replaced. -/
def withCall (n : Nat) (call : Call) : Core :=
  { c with loop := { c.loop with call := Function.update c.loop.call n call } }

/-- A new call is recorded. -/
def record (n : Nat) (call : Call) : Core :=
  { c with
    loop := { c.loop with
      made := c.loop.made ++ [n]
      call := Function.update c.loop.call n call } }

/-- The numbers that are in use. -/
def opened : Fd → Bool := c.world.opened

/-! ## Starting calls -/

/-- The event `event_new` makes. -/
def eventNew (n : Nat) (v : Event) : Core :=
  c.withBase { c.loop.base with ev := Function.update c.loop.base.ev (.call n) v }

/-- `event_new` with a retained box, then `event_add`: what the calls that wait
for a descriptor have in common. -/
def startIo (n : Nat) (call : Call) (fd : Fd) (events : Evs) (timeout : Option Duration)
    (env : Base.AddEnv) (now : Timeval) : Core :=
  let tv := timeout.map timevalFor
  let c := c.eventNew n { evFd := fd, evEvents := events }
  let (added, base) := c.loop.base.eventAddNolock c.opened env now (.call n) tv
  (c.withBase base).record n
    { call with sock := c.world.table fd, timeout := tv, boxed := true, added, allocs := 1 }

/-- The results of `socket(2)` and `connect(2)`. -/
inductive ConnectResult
  | socketFails (errno : Errno)
  | ok (fd : Fd) (listener : Option KSock)
  | inProgress (fd : Fd)
  | fails (fd : Fd) (errno : Errno)
deriving DecidableEq, Repr

/-- `Socket.connect(to:loop:timeout:)`.  The socket is always of `AF_INET`;
`connect(2)` gets nowhere with an address of another family. -/
def connect (n : Nat) (address : SocketAddress) (r : ConnectResult)
    (timeout : Option Duration) (env : Base.AddEnv) (now : Timeval) : Option Core :=
  let call : Call := { kind := .connect address, obj := some c.world.nextObj }
  let k := c.world.nextSock
  let opens (fd : Fd) : Core :=
    { c with
      world := c.world.openObj .socket c.loop.self fd { family := .inet, conn := .connecting } }
  let proceeds : Prop := address.family c.world.endian = some .inet
  match r with
  | .socketFails errno =>
      some (c.record n
        { kind := .connect address, outcomes := [.threw (.socketCreationFailed errno)] })
  | .ok fd listener =>
      if c.world.Free fd ∧ proceeds then
        ((opens fd).world.conclude k (.established listener)).map fun w =>
          record { c with world := w } n
            { call with
              sock := some k
              outcomes := [.socket c.world.nextObj] }
      else none
  | .fails fd errno =>
      if c.world.Free fd ∧ errno ≠ einprogress then
        ((opens fd).world.conclude k (.failed errno)).map fun w =>
          record { c with world := w } n
            { call with
              sock := some k
              outcomes := [.threw (.connectionFailed errno)] }
      else none
  | .inProgress fd =>
      if c.world.Free fd ∧ proceeds then
        some ((opens fd).startIo n call fd { write := true } timeout env now)
      else none

/-- The live object of a role on this loop. -/
def object (role : Role) (o : Nat) : Option Obj :=
  (c.world.obj o).filter fun x => x.role = role ∧ x.loop = c.loop.self

/-- `Socket.read(maxBytes:timeout:)`, which ignores `maxBytes`. -/
def read (n o : Nat) (timeout : Option Duration) (env : Base.AddEnv) (now : Timeval) :
    Option Core :=
  (c.object .socket o).map fun x =>
    c.startIo n { kind := .read, obj := some o } x.fd { read := true } timeout env now

/-- `Socket.write(_:timeout:)`. -/
def write (n o : Nat) (data : List UInt8) (timeout : Option Duration) (env : Base.AddEnv)
    (now : Timeval) : Option Core :=
  (c.object .socket o).map fun x =>
    c.startIo n { kind := .write data, obj := some o } x.fd { write := true } timeout env now

/-- `ServerSocket.accept()`. -/
def accept (n o : Nat) (env : Base.AddEnv) (now : Timeval) : Option Core :=
  (c.object .server o).map fun x =>
    c.startIo n { kind := .accept, obj := some o } x.fd { read := true } none env now

/-- `EventLoop.schedule(after:_:)` by `event_base_once`: a zero timeout makes the
event active at once, and a failure releases the box again.  `sleep(for:)` is the
same with a closure that resumes a continuation. -/
def schedule (n : Nat) (kind : Kind) (duration : Duration) (nomem : Bool) (env : Base.AddEnv)
    (now : Timeval) : Core :=
  let tv := timevalFor duration
  let call : Call := { kind, timeout := some tv, boxed := true }
  if nomem then c.record n { call with released := 1 }
  else
    let c := c.eventNew n {}
    if evutilTimerisset tv then
      match c.loop.base.eventAddNolock c.opened env now (.call n) (some tv) with
      | (true, base) => (c.withBase base).record n { call with added := true }
      | (false, base) => (c.withBase base).record n { call with released := 1 }
    else
      (c.withBase (c.loop.base.eventActiveNolock (.call n) { timeout := true } 1)).record n
        { call with added := true }

/-! ## Signal streams -/

/-- A signal number of the list, and what meets its round of the loop. -/
structure SignalArg where
  n : Nat
  signum : Int
  /-- Whether `event_new` returns `NULL`. -/
  nomem : Bool := false
  env : Base.AddEnv := {}
deriving DecidableEq, Repr

/-- The registration is handed another event. -/
def append (r n : Nat) : Core :=
  { c with
    loop := { c.loop with
      reg := Function.update c.loop.reg r
        { c.loop.reg r with events := (c.loop.reg r).events ++ [n] } } }

/-- The event of a signal, `EV_SIGNAL | EV_PERSIST`. -/
def signalEvent (signum : Int) : Event :=
  { evFd := signum, evEvents := { signal := true }, evPersist := true }

/-- One round of the loop of `signalStream`; the result of `event_add` is ignored. -/
def signalOne (r : Nat) (arg : SignalArg) : Option Core :=
  if arg.n ∈ c.loop.made then none
  else
    let call : Call := { kind := .signal arg.signum, boxed := true }
    if arg.nomem then some (c.record arg.n { call with released := 1 })
    else
      let c := c.eventNew arg.n (signalEvent arg.signum)
      let (added, base) :=
        c.loop.base.eventAddNolock c.opened arg.env ⟨0, 0⟩ (.call arg.n) none
      some (((c.withBase base).record arg.n { call with added, allocs := 1 }).append r arg.n)

/-- The rounds of `signalStream`, one after the other. -/
def signalAll (r : Nat) : Core → List SignalArg → Option Core
  | c, [] => some c
  | c, arg :: args => (c.signalOne r arg).bind fun c => signalAll r c args

/-- `EventLoop.signalStream(_:)`. -/
def signalStream (args : List SignalArg) : Option Core :=
  signalAll c.loop.nextReg
    { c with loop := { c.loop with nextReg := c.loop.nextReg + 1 } } args

/-- One round of the loop of `tearDown`: `event_del`, `event_free`, `release`. -/
def tearDownOne (n : Nat) : Core :=
  (c.withBase (c.loop.base.eventDelNolock c.opened (.call n))).withCall n (c.loop.call n).torn

/-- `SignalRegistration.tearDown()`. -/
def tearDown (r : Nat) : Core :=
  if (c.loop.reg r).torndown then c
  else
    let c' := (c.loop.reg r).events.foldl tearDownOne c
    { c' with
      loop := { c'.loop with
        reg := Function.update c'.loop.reg r { events := [], torndown := true } } }

/-! ## Callbacks -/

/-- What a system call of a callback returns. -/
inductive SysResult
  | nothing
  | bytes (n : Nat)
  | eof
  | fails (errno : Errno)
  | fd (fd : Fd)
deriving DecidableEq, Repr

/-- What a callback does besides taking its box. -/
structure Effect where
  world : World
  outcome : Outcome
  syscalls : List (Option KSock) := []
  accepted : List UInt8 := []

/-- The callback of `read`. -/
def readCallback (w : World) (fd : Fd) (res : Evs) (r : SysResult) : Option Effect :=
  if res.timeout then some { world := w, outcome := .threw .timeout }
  else
    match w.table fd, r with
    | some k, .bytes n =>
        let rx := (w.sock k).rx
        if 1 ≤ n ∧ n ≤ 4096 ∧ n ≤ rx.length then
          some
            { world := w.setSock k { w.sock k with rx := rx.drop n }
              outcome := .data (rx.take n), syscalls := [some k] }
        else none
    | some k, .eof =>
        if (w.sock k).rx = [] ∧ (w.sock k).eof = true then
          some { world := w, outcome := .threw .connectionClosed, syscalls := [some k] }
        else none
    | some k, .fails errno =>
        some { world := w, outcome := .threw (.readFailed errno), syscalls := [some k] }
    | none, .fails errno =>
        if errno = ebadf then
          some { world := w, outcome := .threw (.readFailed errno), syscalls := [none] }
        else none
    | _, _ => none

/-- Bytes put on the wire by `k` arrive at the other end. -/
def send (w : World) (k : KSock) (bytes : List UInt8) : World :=
  match (w.sock k).peer with
  | some p => w.setSock p { w.sock p with rx := (w.sock p).rx ++ bytes }
  | none => w

/-- The callback of `write`.  Empty data is a `write(2)` of no bytes where it has a base address;
where it has none, `ptr.baseAddress!` traps and no further step is made. -/
def writeCallback (w : World) (data : List UInt8) (fd : Fd) (res : Evs) (r : SysResult) :
    Option Effect :=
  if res.timeout then some { world := w, outcome := .threw .timeout }
  else
    match w.table fd, r with
    | some k, .bytes n =>
        if n ≤ data.length ∧ (w.sock k).conn = .established then
          some
            { world := send w k (data.take n), outcome := .returned
              syscalls := [some k], accepted := data.take n }
        else none
    | some k, .fails errno =>
        some { world := w, outcome := .threw (.writeFailed errno), syscalls := [some k] }
    | none, .fails errno =>
        if errno = ebadf then
          some { world := w, outcome := .threw (.writeFailed errno), syscalls := [none] }
        else none
    | _, _ => none

/-- The callback of `accept`; it does not look at its event flags. -/
def acceptCallback (w : World) (loop : Nat) (fd : Fd) (r : SysResult) : Option Effect :=
  match w.table fd, r with
  | some k, .fd clientFd =>
      match (w.sock k).backlog with
      | client :: rest =>
          if w.Free clientFd ∧ (w.sock k).conn = .listening then
            some
              { world := (w.setSock k { w.sock k with backlog := rest }).install
                  .socket loop clientFd client
                outcome := .socket w.nextObj, syscalls := [some k] }
          else none
      | [] => none
  | some k, .fails errno =>
      -- `EAGAIN` says that no connection waits
      if errno = eagain → (w.sock k).conn = .listening ∧ (w.sock k).backlog = [] then
        some { world := w, outcome := .threw (.acceptFailed errno), syscalls := [some k] }
      else none
  | none, .fails errno =>
      if errno = ebadf then
        some { world := w, outcome := .threw (.acceptFailed errno), syscalls := [none] }
      else none
  | _, _ => none

/-- The callback of a call that is not a signal; `res` is `ev_res`. -/
def callbackBody (w : World) (loop : Nat) (call : Call) (fd : Fd) (res : Evs)
    (r : SysResult) : Option Effect :=
  match call.kind with
  | .connect _ =>
      if res.timeout then some { world := w, outcome := .threw .timeout }
      else call.obj.map fun o => { world := w, outcome := .socket o }
  | .read => readCallback w fd res r
  | .write data => writeCallback w data fd res r
  | .accept => acceptCallback w loop fd r
  | .schedule | .sleep => some { world := w, outcome := .returned }
  | .signal _ => none

/-- The record of a call after its callback. -/
def Effect.settle (fx : Effect) (call : Call) : Call :=
  { call with
    released := call.released + 1
    ran := call.ran + 1
    stale := call.stale + if call.released = 0 then 0 else 1
    outcomes := call.outcomes ++ [fx.outcome]
    syscalls := call.syscalls ++ fx.syscalls
    accepted := call.accepted ++ fx.accepted }

/-- The event is deleted, and its callback has had its effect. -/
def fired (n : Nat) (fx : Effect) : Core :=
  { (c.withBase (c.loop.base.eventDelNolock c.opened (.call n))).withCall n
      (fx.settle (c.loop.call n)) with
    world := fx.world }

/-- `event_process_active_single_queue` on an event that is not persistent:
`event_del_nolock_`, then the callback. -/
def fire (n : Nat) (r : SysResult) : Option Core :=
  let v := c.loop.base.ev (.call n)
  (callbackBody c.world c.loop.self (c.loop.call n) v.evFd v.evRes r).map (c.fired n)

/-- One round of `event_signal_closure`: `left` more are to come. -/
def yield (n left : Nat) : Core :=
  (c.withBase { c.loop.base with
    repeating := if left = 0 then none else some (.call n, left) }).withCall n
    (c.loop.call n).yielded

/-- The next callback of the active queue, or the next round of the one that is
being repeated. -/
def callback (r : SysResult) : Option Core :=
  match c.loop.base.repeating with
  | some (.call n, left + 1) => some (c.yield n left)
  | some _ => none
  | none =>
      match c.loop.base.activequeue with
      | [] => none
      | .signalPipe :: rest => some (c.withBase { c.loop.base with activequeue := rest }.evsigCb)
      | .call n :: rest =>
          if (c.loop.call n).kind.isSignal then
            let c' := c.withBase { c.loop.base with activequeue := rest }
            match (c.loop.base.ev (.call n)).evNcalls with
            | 0 => some c'
            | left + 1 => some (c'.yield n left)
          else c.fire n r

/-! ## Steps -/

/-- What epoll may report: only what it was asked for, errors and hangups, and
nothing of an attempt that is still undecided. -/
def reports (r : Fd × Base.EpollReport) : Bool :=
  (c.loop.base.epoll r.1).any fun m => (c.world.table r.1).any fun k =>
    (!r.2.epollin || m.epollin) && (!r.2.epollout || m.epollout) &&
      ((c.world.sock k).conn != .connecting ||
        (!r.2.epollout && !r.2.epollerr && !r.2.epollhup))

/-- From the return of `epoll_wait(2)` to the active queue. -/
def dispatch (ready : List (Fd × Base.EpollReport)) (now : Timeval) (order : List EvId) :
    Option Core :=
  if ready.all c.reports = true ∧ c.loop.base.pass ≤ now ∧ c.loop.base.repeating = none then
    (c.loop.base.dispatchPass c.opened ready now order).map c.withBase
  else none

/-- No call on the object waits for a resumption: ARC keeps the receiver of a
suspended call alive. -/
def Unused (o : Nat) : Prop :=
  ∀ n ∈ c.loop.made, (c.loop.call n).obj = some o → (c.loop.call n).outcomes ≠ []

instance (o : Nat) : Decidable (c.Unused o) :=
  inferInstanceAs (Decidable (∀ n ∈ c.loop.made, _ → _))

/-- The last reference to an object of this loop may go. -/
def Deinits (o : Nat) : Prop :=
  c.Unused o ∧ (c.world.obj o).any (fun x => x.role ≠ .pipe ∧ x.loop = c.loop.self) = true

instance (o : Nat) : Decidable (c.Deinits o) := inferInstanceAs (Decidable (_ ∧ _))

/-- The process has become `w`; a number that was closed loses its registration. -/
def dropped (w : World) : Core :=
  { c with
    world := w
    loop := { c.loop with
      base := { c.loop.base with
        epoll := fun fd => if w.table fd = c.world.table fd then c.loop.base.epoll fd else none } } }

/-- The loop is gone, and every event with it. -/
def freed (w : World) : Core where
  world := w
  loop := { c.loop with
    base := { c.loop.base with
      inserted := [], timeheap := [], activequeue := [], epoll := fun _ => none
      repeating := none }
    alive := false }

/-- `event_base_free(base)`: every event is dropped without its callback; a loop
with live signal streams is still referenced by them. -/
def free : Option Core :=
  if ∀ r < c.loop.nextReg, (c.loop.reg r).torndown = true then
    (c.world.deinit c.loop.pipe).map c.freed
  else none

/-- The steps of a process with one loop. -/
inductive Act
  | listen (r : World.ListenResult)
  | connect (n : Nat) (address : SocketAddress) (r : ConnectResult)
      (timeout : Option Duration) (env : Base.AddEnv) (now : Timeval)
  | read (n o : Nat) (timeout : Option Duration) (env : Base.AddEnv) (now : Timeval)
  | write (n o : Nat) (data : List UInt8) (timeout : Option Duration) (env : Base.AddEnv)
      (now : Timeval)
  | accept (n o : Nat) (env : Base.AddEnv) (now : Timeval)
  | schedule (n : Nat) (sleeps : Bool) (duration : Duration) (nomem : Bool)
      (env : Base.AddEnv) (now : Timeval)
  | signalStream (args : List SignalArg)
  | tearDown (r : Nat)
  | close (o : Nat)
  | deinit (o : Nat)
  | free
  | dispatch (ready : List (Fd × Base.EpollReport)) (now : Timeval) (order : List EvId)
  | callback (r : SysResult)
  | breakSignal
  | raise (sig : Nat)
  | kernel (act : KernelAct)
deriving DecidableEq

/-- The descriptor number the kernel hands out to a new object. -/
def Act.opens : Act → Option Fd
  | .listen (.ok fd) => some fd
  | .connect _ _ (.ok fd _) _ _ _ | .connect _ _ (.inProgress fd) _ _ _
  | .connect _ _ (.fails fd _) _ _ _ => some fd
  | .callback (.fd fd) => some fd
  | _ => none

/-- The object a call is made on; `connect` makes its own. -/
def Act.target : Act → Option Nat
  | .read _ o .. | .write _ o .. | .accept _ o .. => some o
  | _ => none

/-- The calls that end with `loop.runOnce()`. -/
def Act.drives : Act → Bool
  | .connect _ _ (.inProgress _) _ _ _ | .read .. | .write .. | .accept .. => true
  | .schedule _ sleeps .. => sleeps
  | _ => false

/-- The loop must not have been deallocated. -/
def whenAlive (next : Option Core) : Option Core := if c.loop.alive then next else none

/-- The call must be a new one, on a live loop. -/
def whenNew (n : Nat) (next : Option Core) : Option Core :=
  if c.loop.alive ∧ n ∉ c.loop.made then next else none

/-- **One step.** -/
def step : Act → Option Core
  | .listen r => c.whenAlive ((c.world.listen c.loop.self r).map fun w => { c with world := w })
  | .connect n address r timeout env now => c.whenNew n (c.connect n address r timeout env now)
  | .read n o timeout env now => c.whenNew n (c.read n o timeout env now)
  | .write n o data timeout env now => c.whenNew n (c.write n o data timeout env now)
  | .accept n o env now => c.whenNew n (c.accept n o env now)
  | .schedule n sleeps duration nomem env now =>
      c.whenNew n (some
        (c.schedule n (if sleeps then .sleep else .schedule) duration nomem env now))
  | .signalStream args => c.whenAlive (c.signalStream args)
  | .tearDown r => c.whenAlive (if r < c.loop.nextReg then some (c.tearDown r) else none)
  | .close o => (c.world.close o).map c.dropped
  | .deinit o =>
      if c.Deinits o then (c.world.deinit o).map c.dropped else none
  | .free => c.whenAlive c.free
  | .dispatch ready now order => c.whenAlive (c.dispatch ready now order)
  | .callback r => c.whenAlive (c.callback r)
  | .breakSignal =>
      if c.loop.base.repeating.isSome then
        some (c.withBase { c.loop.base with repeating := none })
      else none
  | .raise sig =>
      c.whenAlive (if c.loop.base.disposition sig = .evsigHandler then
        some (c.withBase { c.loop.base with pipe := c.loop.base.pipe ++ [sig] })
      else none)
  | .kernel act => (c.world.kernel act).map fun w => { c with world := w }

end Core

end SwiftEvent
