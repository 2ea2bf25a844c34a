import SwiftEvent.Timeval
import SwiftEvent.Kernel
import Mathlib.Data.List.Basic
import Mathlib.Data.List.Nodup

/-!
# `event_base`: the queues and what changes them

The part of `event.c`, `evmap.c` and `signal.c` between the Swift layer and the
multiplexer: the event structures, the three places an event can be (`inserted`
in the evmap, on the timer heap, on the active queue), and the functions that
move it between them.

### Reading the model against the source

* A flag `EVLIST_INSERTED`, `EVLIST_TIMEOUT` or `EVLIST_ACTIVE` is membership in
  `inserted`, `timeheap` or `activequeue`, so a flag and its queue cannot
  disagree.  `TAILQ_REMOVE` and `LIST_REMOVE` are `unlink`.
* The evmap slot of a descriptor is the part of `inserted` with that descriptor,
  newest first (`LIST_INSERT_HEAD`), and its `nread`/`nwrite` are the numbers of
  readers and writers in the slot; `nread_cons` and `nread_unlink` are the
  increments and decrements of `evmap_io_add_` and `evmap_io_del_`.
* `event_base_new` gives the base one priority, no dispatch limits and no common
  timeouts, and nothing in the package creates a deferred callback: the loops
  over priorities, the later queue and the finalizers have nothing to act on and
  are left out.
* The timer heap is a list without order.  `timeoutProcess` is handed the order
  in which the heap yields the events that are due; it insists that each is a
  minimum of the heap, so every order a min-heap can produce for equal deadlines
  is covered.
-/

namespace SwiftEvent

/-- An event structure: the base's own one for its signal pipe
(`&base->sig.ev_signal`, the only one with `EVLIST_INTERNAL`), or one made for
a call of the Swift layer. -/
inductive EvId
  | signalPipe
  | call (n : Nat)
deriving DecidableEq, Repr

/-- The event flags of `event2/event.h` that the package uses. -/
structure Evs where
  timeout : Bool := false
  read : Bool := false
  write : Bool := false
  signal : Bool := false
deriving DecidableEq, Repr

namespace Evs

/-- `a | b`. -/
def union (a b : Evs) : Evs :=
  ⟨a.timeout || b.timeout, a.read || b.read, a.write || b.write, a.signal || b.signal⟩

/-- `a & b`. -/
def inter (a b : Evs) : Evs :=
  ⟨a.timeout && b.timeout, a.read && b.read, a.write && b.write, a.signal && b.signal⟩

/-- `a != 0`. -/
def isSet (a : Evs) : Bool := a.timeout || a.read || a.write || a.signal

/-- `a & (EV_READ|EV_WRITE)` is not zero. -/
def isIo (a : Evs) : Bool := a.read || a.write

end Evs

/-- `struct event`: what `event_assign` fixes (`evFd` is the signal number of a
signal event and `-1` for a timer), and what activation and `event_add` write. -/
structure Event where
  evFd : Int := -1
  evEvents : Evs := {}
  evPersist : Bool := false
  evRes : Evs := {}
  evTimeout : Timeval := ⟨0, 0⟩
  evNcalls : Nat := 0
deriving DecidableEq, Repr

/-- What a signal does to the process: libevent's handler, or anything else. -/
inductive Handler
  | evsigHandler
  | other (n : Nat)
deriving DecidableEq, Repr

/-- `NSIG`. -/
def nsig : Nat := 65

/-- `struct event_base` with the epoll instance it owns. -/
structure Base where
  ev : EvId → Event
  inserted : List EvId
  timeheap : List EvId
  activequeue : List EvId
  epoll : Fd → Option EpollEvents
  /-- `sig.ev_signal_added`. -/
  evSignalAdded : Bool
  /-- The unread bytes of the signal pipe. -/
  pipe : List Nat
  /-- The process's signal dispositions; a signal belongs to one loop. -/
  disposition : Int → Handler
  /-- `sig.sh_old`. -/
  shOld : Int → Option Handler
  /-- The event `event_signal_closure` is repeating, with `*ev_pncalls`. -/
  repeating : Option (EvId × Nat)
  /-- The time the current pass was given by `update_time_cache`. -/
  pass : Timeval

/-- `TAILQ_REMOVE`, `LIST_REMOVE` and the erasure from the heap. -/
def unlink (l : List EvId) (e : EvId) : List EvId := l.filter (· ≠ e)

@[simp] theorem mem_unlink {l : List EvId} {e x : EvId} :
    x ∈ unlink l e ↔ x ∈ l ∧ x ≠ e := by
  simp [unlink]

theorem unlink_of_notMem {l : List EvId} {e : EvId} (h : e ∉ l) : unlink l e = l := by
  rw [unlink, List.filter_eq_self]
  intro x hx
  simp only [ne_eq, decide_not, Bool.not_eq_eq_eq_not, Bool.not_true, decide_eq_false_iff_not]
  rintro rfl
  exact h hx

theorem unlink_cons_self (l : List EvId) (e : EvId) : unlink (e :: l) e = unlink l e := by
  simp [unlink]

theorem unlink_cons_of_ne {l : List EvId} {e x : EvId} (h : x ≠ e) :
    unlink (x :: l) e = x :: unlink l e := by
  simp [unlink, h]

theorem unlink_append (l m : List EvId) (e : EvId) :
    unlink (l ++ m) e = unlink l e ++ unlink m e := by
  simp [unlink]

theorem unlink_comm (l : List EvId) (e f : EvId) :
    unlink (unlink l e) f = unlink (unlink l f) e := by
  simp only [unlink, List.filter_filter, Bool.and_comm]

theorem unlink_unlink (l : List EvId) (e : EvId) :
    unlink (unlink l e) e = unlink l e :=
  unlink_of_notMem (by simp)

namespace Base

variable (b : Base)

/-- The event is on one of the base's queues. -/
def Queued (e : EvId) : Prop :=
  e ∈ b.inserted ∨ e ∈ b.timeheap ∨ e ∈ b.activequeue

instance (e : EvId) : Decidable (b.Queued e) :=
  inferInstanceAs (Decidable (_ ∨ _ ∨ _))

/-! ## The evmap -/

/-- The list of the evmap slot of a descriptor. -/
def evmapIo (fd : Fd) : List EvId :=
  b.inserted.filter fun e => (b.ev e).evEvents.isIo && (b.ev e).evFd == fd

/-- `ctx->nread` of the slot. -/
def nread (fd : Fd) : Nat :=
  b.inserted.countP fun e => (b.ev e).evEvents.read && (b.ev e).evFd == fd

/-- `ctx->nwrite` of the slot. -/
def nwrite (fd : Fd) : Nat :=
  b.inserted.countP fun e => (b.ev e).evEvents.write && (b.ev e).evFd == fd

/-- The events libevent believes the multiplexer to watch (`old`). -/
def oldEvents (fd : Fd) : EpollEvents := ⟨0 < b.nread fd, 0 < b.nwrite fd⟩

/-- The list of the evmap slot of a signal. -/
def evmapSignal (sig : Int) : List EvId :=
  b.inserted.filter fun e => (b.ev e).evEvents.signal && (b.ev e).evFd == sig

/-- What the surroundings decide about an `event_add`: whether the timer heap
can grow, whether the multiplexer refuses the descriptor or the signal pipe, and
whether `sigaction(2)` succeeds.  Memory for the slot of a descriptor is asked for
only when nothing waits on it; where there is none, `-1` is returned with nothing
changed, as when the multiplexer refuses, and `reject` stands for that too. -/
structure AddEnv where
  heapFull : Bool := false
  reject : Option Errno := none
  sigactionFails : Bool := false
  pipeReject : Option Errno := none
deriving DecidableEq, Repr

/-- `evmap_io_add_` with `event_queue_insert_inserted`; `none` is the result
`-1`, which changes nothing. -/
def evmapIoAdd (opened : Fd → Bool) (reject : Option Errno) (e : EvId) : Option Base :=
  let fd := (b.ev e).evFd
  let events := (b.ev e).evEvents
  let nread := b.nread fd + if events.read then 1 else 0
  let nwrite := b.nwrite fd + if events.write then 1 else 0
  let res : EpollEvents := ⟨events.read && nread == 1, events.write && nwrite == 1⟩
  if 0xffff < nread ∨ 0xffff < nwrite then none
  else if res.isSet then
    match epollNochangelistAdd (opened fd) reject (b.epoll fd) (b.oldEvents fd) res with
    | (true, entry) =>
        some { b with inserted := e :: b.inserted
                      epoll := Function.update b.epoll fd entry }
    | (false, _) => none
  else some { b with inserted := e :: b.inserted }

/-- `event_queue_remove_inserted` with `evmap_io_del_`. -/
def evmapIoDel (opened : Fd → Bool) (e : EvId) : Base :=
  let fd := (b.ev e).evFd
  let events := (b.ev e).evEvents
  let nread := b.nread fd - if events.read then 1 else 0
  let nwrite := b.nwrite fd - if events.write then 1 else 0
  let res : EpollEvents := ⟨events.read && nread == 0, events.write && nwrite == 0⟩
  if res.isSet then
    { b with
      inserted := unlink b.inserted e
      epoll := Function.update b.epoll fd
        (epollNochangelistDel (opened fd) (b.epoll fd) (b.oldEvents fd) res).2 }
  else { b with inserted := unlink b.inserted e }

/-- `evsig_add`.  When the pipe cannot be watched it fails with the handler
already installed. -/
def evsigAdd (opened : Fd → Bool) (env : AddEnv) (sig : Int) : Bool × Base :=
  if env.sigactionFails then (false, b)
  else
    let b := { b with shOld := Function.update b.shOld sig (some (b.disposition sig))
                      disposition := Function.update b.disposition sig .evsigHandler }
    if b.evSignalAdded then (true, b)
    else
      match b.evmapIoAdd opened env.pipeReject .signalPipe with
      | some b => (true, { b with evSignalAdded := true })
      | none => (false, b)

/-- `evmap_signal_add_` with `event_queue_insert_inserted`. -/
def evmapSignalAdd (opened : Fd → Bool) (env : AddEnv) (e : EvId) : Bool × Base :=
  let sig := (b.ev e).evFd
  if sig < 0 ∨ (nsig : Int) ≤ sig then (false, b)
  else if b.evmapSignal sig = [] then
    match b.evsigAdd opened env sig with
    | (true, b) => (true, { b with inserted := e :: b.inserted })
    | (false, b) => (false, b)
  else (true, { b with inserted := e :: b.inserted })

/-- `evsig_del` with `evsig_restore_handler_`. -/
def evsigDel (sig : Int) : Base :=
  match b.shOld sig with
  | some handler =>
      { b with disposition := Function.update b.disposition sig handler
               shOld := Function.update b.shOld sig none }
  | none => b

/-- `event_queue_remove_inserted` with `evmap_signal_del_`. -/
def evmapSignalDel (e : EvId) : Base :=
  let sig := (b.ev e).evFd
  let b := { b with inserted := unlink b.inserted e }
  if b.evmapSignal sig = [] then b.evsigDel sig else b

/-! ## Adding, deleting and activating -/

/-- `event_add_nolock_` with a relative timeout; `now` is what `gettime` answers. -/
def eventAddNolock (opened : Fd → Bool) (env : AddEnv) (now : Timeval) (e : EvId)
    (tv : Option Timeval) : Bool × Base :=
  if tv.isSome && env.heapFull && !decide (e ∈ b.timeheap) then (false, b)
  else
    let added : Bool × Base :=
      if e ∈ b.inserted ∨ e ∈ b.activequeue then (true, b)
      else if (b.ev e).evEvents.isIo then
        match b.evmapIoAdd opened env.reject e with
        | some b => (true, b)
        | none => (false, b)
      else if (b.ev e).evEvents.signal then b.evmapSignalAdd opened env e
      else (true, b)
    match added, tv with
    | (true, b), some tv =>
        -- an event active because of its timeout is rescheduled, not run
        let activequeue :=
          if (b.ev e).evRes.timeout then unlink b.activequeue e else b.activequeue
        (true, { b with
          ev := Function.update b.ev e { b.ev e with evTimeout := evutilTimeradd now tv }
          activequeue
          timeheap := e :: unlink b.timeheap e })
    | added, _ => added

/-- `event_del_nolock_`. -/
def eventDelNolock (opened : Fd → Bool) (e : EvId) : Base :=
  let b := { b with
    repeating := if (b.repeating.map Prod.fst) = some e then none else b.repeating
    timeheap := unlink b.timeheap e
    activequeue := unlink b.activequeue e }
  if e ∈ b.inserted then
    if (b.ev e).evEvents.isIo then b.evmapIoDel opened e else b.evmapSignalDel e
  else b

/-- `event_active_nolock_`.  The repeat count is a `short`: what is left of it
is its residue. -/
def eventActiveNolock (e : EvId) (res : Evs) (ncalls : Nat) : Base :=
  if e ∈ b.activequeue then
    { b with
      ev := Function.update b.ev e { b.ev e with evRes := (b.ev e).evRes.union res } }
  else
    { b with
      ev := Function.update b.ev e
        { b.ev e with
          evRes := res
          evNcalls := if (b.ev e).evEvents.signal then ncalls % 65536 else (b.ev e).evNcalls }
      activequeue := b.activequeue ++ [e] }

/-- `evmap_io_active_`. -/
def evmapIoActive (fd : Fd) (events : Evs) : Base :=
  (b.evmapIo fd).foldl
    (fun b e =>
      if ((b.ev e).evEvents.inter events).isSet then
        b.eventActiveNolock e ((b.ev e).evEvents.inter events) 1
      else b) b

/-- `evmap_signal_active_`. -/
def evmapSignalActive (sig : Int) (ncalls : Nat) : Base :=
  (b.evmapSignal sig).foldl (fun b e => b.eventActiveNolock e { signal := true } ncalls) b

/-- `evsig_cb`: drain the pipe, count each signal, activate its events. -/
def evsigCb : Base :=
  (List.range nsig).foldl
    (fun c (sig : Nat) =>
      if b.pipe.count sig = 0 then c else c.evmapSignalActive sig (b.pipe.count sig))
    { b with pipe := [] }

/-! ## One pass of the multiplexer and the timers -/

/-- The event bits `epoll_wait(2)` reports for a descriptor. -/
structure EpollReport where
  epollin : Bool := false
  epollout : Bool := false
  epollerr : Bool := false
  epollhup : Bool := false
  epollrdhup : Bool := false
deriving DecidableEq, Repr

/-- The mapping of `epoll_dispatch` from the kernel's bits to event flags; the
package never asks for `EV_CLOSED`. -/
def EpollReport.toEvs (what : EpollReport) : Evs :=
  if what.epollerr then { read := true, write := true }
  else if what.epollhup && !what.epollrdhup then { read := true, write := true }
  else { read := what.epollin, write := what.epollout }

/-- `epoll_dispatch` after `epoll_wait(2)` has returned `ready`. -/
def epollDispatch (ready : List (Fd × EpollReport)) : Base :=
  ready.foldl (fun b r => b.evmapIoActive r.1 r.2.toEvs) b

/-- The event is a minimum of the timer heap, so `min_heap_top_` may return it. -/
def IsTop (e : EvId) : Prop :=
  e ∈ b.timeheap ∧ ∀ x ∈ b.timeheap, (b.ev e).evTimeout ≤ (b.ev x).evTimeout

instance (e : EvId) : Decidable (b.IsTop e) :=
  inferInstanceAs (Decidable (_ ∧ ∀ x ∈ b.timeheap, _))

/-- `timeout_process`, the heap yielding the events in `order`. -/
def timeoutProcess (b : Base) (opened : Fd → Bool) (now : Timeval) :
    List EvId → Option Base
  | [] => if ∀ e ∈ b.timeheap, now < (b.ev e).evTimeout then some b else none
  | e :: order =>
      if b.IsTop e ∧ (b.ev e).evTimeout ≤ now then
        timeoutProcess ((b.eventDelNolock opened e).eventActiveNolock e { timeout := true } 1)
          opened now order
      else none

/-- The part of an iteration of `event_base_loop` from the return of
`epoll_wait(2)` up to the active queue: report readiness, cache the time, expire
the timers. -/
def dispatchPass (opened : Fd → Bool) (ready : List (Fd × EpollReport)) (now : Timeval)
    (order : List EvId) : Option Base :=
  timeoutProcess { b.epollDispatch ready with pass := now } opened now order

/-- `event_haveevents(base)`: only internal events are not counted. -/
def eventHaveevents : Bool :=
  (b.inserted ++ b.timeheap ++ b.activequeue).any (· ≠ .signalPipe)

end Base

end SwiftEvent
