import SwiftEvent.Core
import Mathlib.Tactic.Tauto

/-!
# What a step can be

The inversion of `Core.step`, stated once.  The sixteen labels come down to a
dozen things that can happen to a loop and its process: the four calls that wait
for a descriptor are one case (`start`), whatever they wait for; a `connect` that
is decided at once is another (`answer`); a callback is one of four.

Everything downstream takes its cases from `step_cases` and never unfolds
`Core.step`.
-/

namespace SwiftEvent

namespace Core

variable {c c' : Core}

/-- The calls that wait for a descriptor, each with its object, its descriptor,
the condition it waits for and the process it leaves. -/
inductive Starts (c : Core) : Kind → Nat → Fd → Evs → World → Prop
  | connect (address : SocketAddress) (fd : Fd) (free : c.world.Free fd)
      (inet : address.family c.world.endian = some .inet) :
      Starts c (.connect address) c.world.nextObj fd { write := true }
        (c.world.openObj .socket c.loop.self fd { family := .inet, conn := .connecting })
  | read (o : Nat) (x : Obj) (h : c.object .socket o = some x) :
      Starts c .read o x.fd { read := true } c.world
  | write (o : Nat) (x : Obj) (data : List UInt8) (h : c.object .socket o = some x) :
      Starts c (.write data) o x.fd { write := true } c.world
  | accept (o : Nat) (x : Obj) (h : c.object .server o = some x) :
      Starts c .accept o x.fd { read := true } c.world

/-- A `connect` that is decided at once, with its record and the process it
leaves. -/
inductive Answers (c : Core) (address : SocketAddress) : ConnectResult → Call → World → Prop
  | socketFails (errno : Errno) :
      Answers c address (.socketFails errno)
        { kind := .connect address, outcomes := [.threw (.socketCreationFailed errno)] } c.world
  | ok (fd : Fd) (listener : Option KSock) (w : World) (free : c.world.Free fd)
      (inet : address.family c.world.endian = some .inet)
      (h : (c.world.openObj .socket c.loop.self fd
        { family := .inet, conn := .connecting }).conclude c.world.nextSock
          (.established listener) = some w) :
      Answers c address (.ok fd listener)
        { kind := .connect address, obj := some c.world.nextObj, sock := some c.world.nextSock
          outcomes := [.socket c.world.nextObj] } w
  | fails (fd : Fd) (errno : Errno) (w : World) (free : c.world.Free fd)
      (errno_ne : errno ≠ einprogress)
      (h : (c.world.openObj .socket c.loop.self fd
        { family := .inet, conn := .connecting }).conclude c.world.nextSock
          (.failed errno) = some w) :
      Answers c address (.fails fd errno)
        { kind := .connect address, obj := some c.world.nextObj, sock := some c.world.nextSock
          outcomes := [.threw (.connectionFailed errno)] } w

/-- **What a step can be.** -/
inductive Steps (c : Core) : Act → Core → Prop
  | listen (r : World.ListenResult) (w : World)
      (h : c.world.listen c.loop.self r = some w) :
      Steps c (.listen r) { c with world := w }
  | kernel (act : KernelAct) (w : World) (h : c.world.kernel act = some w) :
      Steps c (.kernel act) { c with world := w }
  | close (o : Nat) (w : World) (h : c.world.close o = some w) :
      Steps c (.close o) (c.dropped w)
  | deinit (o : Nat) (w : World) (may : c.Deinits o) (h : c.world.deinit o = some w) :
      Steps c (.deinit o) (c.dropped w)
  | answer (n : Nat) (address : SocketAddress) (r : ConnectResult) (timeout : Option Duration)
      (env : Base.AddEnv) (now : Timeval) (call : Call) (w : World) (alive : c.loop.alive = true)
      (new : n ∉ c.loop.made) (h : c.Answers address r call w) :
      Steps c (.connect n address r timeout env now) (record { c with world := w } n call)
  | start (a : Act) (drives : a.drives = true) (n : Nat) (kind : Kind) (o : Nat) (fd : Fd)
      (events : Evs) (w : World) (timeout : Option Duration) (env : Base.AddEnv) (now : Timeval)
      (alive : c.loop.alive = true) (new : n ∉ c.loop.made)
      (h : c.Starts kind o fd events w) (accept : kind = .accept → timeout = none)
      (opens : ∀ address, kind = .connect address → a.opens = some fd)
      (target : a.target = match kind with | .connect _ => none | _ => some o) :
      Steps c a
        (startIo { c with world := w } n { kind, obj := some o } fd events timeout env now)
  | schedule (n : Nat) (sleeps : Bool) (duration : Duration) (nomem : Bool) (env : Base.AddEnv)
      (now : Timeval) (alive : c.loop.alive = true) (new : n ∉ c.loop.made) :
      Steps c (.schedule n sleeps duration nomem env now)
        (c.schedule n (if sleeps then .sleep else .schedule) duration nomem env now)
  | signalStream (args : List SignalArg) (c' : Core) (alive : c.loop.alive = true)
      (h : c.signalStream args = some c') : Steps c (.signalStream args) c'
  | tearDown (r : Nat) (alive : c.loop.alive = true) (opened : r < c.loop.nextReg) :
      Steps c (.tearDown r) (c.tearDown r)
  | free (w : World) (alive : c.loop.alive = true)
      (torn : ∀ r < c.loop.nextReg, (c.loop.reg r).torndown = true)
      (h : c.world.deinit c.loop.pipe = some w) :
      Steps c .free (c.freed w)
  | dispatch (ready : List (Fd × Base.EpollReport)) (now : Timeval) (order : List EvId) (b : Base)
      (alive : c.loop.alive = true) (reports : ready.all c.reports = true)
      (later : c.loop.base.pass ≤ now) (quiet : c.loop.base.repeating = none)
      (h : c.loop.base.dispatchPass c.opened ready now order = some b) :
      Steps c (.dispatch ready now order) (c.withBase b)
  | pipe (r : SysResult) (rest : List EvId) (alive : c.loop.alive = true)
      (quiet : c.loop.base.repeating = none)
      (h : c.loop.base.activequeue = .signalPipe :: rest) :
      Steps c (.callback r) (c.withBase { c.loop.base with activequeue := rest }.evsigCb)
  | skip (r : SysResult) (n : Nat) (rest : List EvId) (alive : c.loop.alive = true)
      (quiet : c.loop.base.repeating = none)
      (h : c.loop.base.activequeue = .call n :: rest)
      (signal : (c.loop.call n).kind.isSignal = true)
      (ncalls : (c.loop.base.ev (.call n)).evNcalls = 0) :
      Steps c (.callback r) (c.withBase { c.loop.base with activequeue := rest })
  | yield (r : SysResult) (n left : Nat) (rest : List EvId) (alive : c.loop.alive = true)
      (quiet : c.loop.base.repeating = none)
      (h : c.loop.base.activequeue = .call n :: rest)
      (signal : (c.loop.call n).kind.isSignal = true)
      (ncalls : (c.loop.base.ev (.call n)).evNcalls = left + 1) :
      Steps c (.callback r) ((c.withBase { c.loop.base with activequeue := rest }).yield n left)
  | again (r : SysResult) (n left : Nat) (alive : c.loop.alive = true)
      (h : c.loop.base.repeating = some (.call n, left + 1)) :
      Steps c (.callback r) (c.yield n left)
  | fire (r : SysResult) (n : Nat) (rest : List EvId) (fx : Effect)
      (alive : c.loop.alive = true) (quiet : c.loop.base.repeating = none)
      (h : c.loop.base.activequeue = .call n :: rest)
      (signal : (c.loop.call n).kind.isSignal = false)
      (body : callbackBody c.world c.loop.self (c.loop.call n)
        (c.loop.base.ev (.call n)).evFd (c.loop.base.ev (.call n)).evRes r = some fx) :
      Steps c (.callback r) (c.fired n fx)
  | breakSignal : Steps c .breakSignal (c.withBase { c.loop.base with repeating := none })
  | raise (sig : Nat) (alive : c.loop.alive = true) :
      Steps c (.raise sig) (c.withBase { c.loop.base with pipe := c.loop.base.pipe ++ [sig] })

theorem whenAlive_eq_some {next : Option Core} (h : c.whenAlive next = some c') :
    c.loop.alive = true ∧ next = some c' := by
  unfold whenAlive at h
  split at h
  · next alive => exact ⟨alive, h⟩
  · cases h

theorem whenNew_eq_some {n : Nat} {next : Option Core} (h : c.whenNew n next = some c') :
    c.loop.alive = true ∧ n ∉ c.loop.made ∧ next = some c' := by
  unfold whenNew at h
  split at h
  · next new => exact ⟨new.1, new.2, h⟩
  · cases h

private theorem connect_cases {n : Nat} {address : SocketAddress} {r : ConnectResult}
    {timeout : Option Duration} {env : Base.AddEnv} {now : Timeval}
    (alive : c.loop.alive = true) (new : n ∉ c.loop.made)
    (h : c.connect n address r timeout env now = some c') :
    Steps c (.connect n address r timeout env now) c' := by
  unfold connect at h
  cases r with
  | socketFails errno =>
      cases h
      exact .answer n address _ timeout env now _ _ alive new (.socketFails errno)
  | ok fd listener =>
      dsimp only at h
      split at h
      · next may =>
          obtain ⟨w, hw, rfl⟩ := Option.map_eq_some_iff.mp h
          exact .answer n address _ timeout env now _ _ alive new
            (.ok fd listener w may.1 may.2 hw)
      · cases h
  | fails fd errno =>
      dsimp only at h
      split at h
      · next may =>
          obtain ⟨w, hw, rfl⟩ := Option.map_eq_some_iff.mp h
          exact .answer n address _ timeout env now _ _ alive new
            (.fails fd errno w may.1 may.2 hw)
      · cases h
  | inProgress fd =>
      dsimp only at h
      split at h
      · next may =>
          cases h
          exact .start _ rfl n _ _ fd _ _ timeout env now alive new
            (.connect address fd may.1 may.2) (by simp) (fun _ _ => rfl) rfl
      · cases h

private theorem callback_cases {r : SysResult} (alive : c.loop.alive = true)
    (h : c.callback r = some c') : Steps c (.callback r) c' := by
  unfold callback at h
  split at h
  · next n left rep =>
      cases h
      exact .again r n left alive rep
  · cases h
  · next quiet =>
      split at h
      · cases h
      · next rest queue =>
          cases h
          exact .pipe r rest alive quiet queue
      · next n rest queue =>
          split at h
          · next signal =>
              dsimp only at h
              split at h
              · next ncalls =>
                  cases h
                  exact .skip r n rest alive quiet queue signal ncalls
              · next left ncalls =>
                  cases h
                  exact .yield r n left rest alive quiet queue signal ncalls
          · next signal =>
              obtain ⟨fx, body, rfl⟩ := Option.map_eq_some_iff.mp h
              exact .fire r n rest fx alive quiet queue (by simpa using signal) body

/-- **The inversion of a step.** -/
theorem step_cases {a : Act} (h : c.step a = some c') : c.Steps a c' := by
  cases a with
  | listen r =>
      obtain ⟨-, h⟩ := whenAlive_eq_some h
      obtain ⟨w, hw, rfl⟩ := Option.map_eq_some_iff.mp h
      exact .listen r w hw
  | connect n address r timeout env now =>
      obtain ⟨alive, new, h⟩ := whenNew_eq_some h
      exact connect_cases alive new h
  | read n o timeout env now =>
      obtain ⟨alive, new, h⟩ := whenNew_eq_some h
      obtain ⟨x, hx, rfl⟩ := Option.map_eq_some_iff.mp h
      exact .start _ rfl n _ o x.fd _ c.world timeout env now alive new (.read o x hx) (by simp)
        (by simp) rfl
  | write n o data timeout env now =>
      obtain ⟨alive, new, h⟩ := whenNew_eq_some h
      obtain ⟨x, hx, rfl⟩ := Option.map_eq_some_iff.mp h
      exact .start _ rfl n _ o x.fd _ c.world timeout env now alive new (.write o x data hx)
        (by simp) (by simp) rfl
  | accept n o env now =>
      obtain ⟨alive, new, h⟩ := whenNew_eq_some h
      obtain ⟨x, hx, rfl⟩ := Option.map_eq_some_iff.mp h
      exact .start _ rfl n _ o x.fd _ c.world none env now alive new (.accept o x hx)
        (fun _ => rfl) (by simp) rfl
  | schedule n sleeps duration nomem env now =>
      obtain ⟨alive, new, h⟩ := whenNew_eq_some h
      cases h
      exact .schedule n sleeps duration nomem env now alive new
  | signalStream args =>
      obtain ⟨alive, h⟩ := whenAlive_eq_some h
      exact .signalStream args c' alive h
  | tearDown r =>
      obtain ⟨alive, h⟩ := whenAlive_eq_some h
      split at h
      · next opened =>
          cases h
          exact .tearDown r alive opened
      · cases h
  | close o =>
      obtain ⟨w, hw, rfl⟩ := Option.map_eq_some_iff.mp h
      exact .close o w hw
  | deinit o =>
      rw [step] at h
      split at h
      · next may =>
          obtain ⟨w, hw, rfl⟩ := Option.map_eq_some_iff.mp h
          exact .deinit o w may hw
      · cases h
  | free =>
      obtain ⟨alive, h⟩ := whenAlive_eq_some h
      rw [Core.free] at h
      split at h
      · next torn =>
          obtain ⟨w, hw, rfl⟩ := Option.map_eq_some_iff.mp h
          exact .free w alive torn hw
      · cases h
  | dispatch ready now order =>
      obtain ⟨alive, h⟩ := whenAlive_eq_some h
      rw [Core.dispatch] at h
      split at h
      · next may =>
          obtain ⟨b, hb, rfl⟩ := Option.map_eq_some_iff.mp h
          exact .dispatch ready now order b alive may.1 may.2.1 may.2.2 hb
      · cases h
  | callback r =>
      obtain ⟨alive, h⟩ := whenAlive_eq_some h
      exact callback_cases alive h
  | breakSignal =>
      rw [step] at h
      split at h
      · cases h
        exact .breakSignal
      · cases h
  | raise sig =>
      obtain ⟨alive, h⟩ := whenAlive_eq_some h
      split at h
      · cases h
        exact .raise sig alive
      · cases h
  | kernel act =>
      obtain ⟨w, hw, rfl⟩ := Option.map_eq_some_iff.mp h
      exact .kernel act w hw

/-! ## Callbacks -/

/-- **What a callback can do**, by the kind of its call and the result of its system call. -/
inductive Bodies (w : World) (loop : Nat) (call : Call) (fd : Fd) (res : Evs) :
    SysResult → Effect → Prop
  | timedOut (r : SysResult) (io : call.kind.isIo = true) (notAccept : call.kind ≠ .accept)
      (due : res.timeout = true) :
      Bodies w loop call fd res r { world := w, outcome := .threw .timeout }
  | connected (r : SysResult) (address : SocketAddress) (o : Nat)
      (kind : call.kind = .connect address) (notDue : res.timeout = false)
      (obj : call.obj = some o) :
      Bodies w loop call fd res r { world := w, outcome := .socket o }
  | bytes (k : KSock) (n : Nat) (kind : call.kind = .read) (notDue : res.timeout = false)
      (used : w.table fd = some k) (some_ : 1 ≤ n) (fits : n ≤ 4096)
      (there : n ≤ (w.sock k).rx.length) :
      Bodies w loop call fd res (.bytes n)
        { world := w.setSock k { w.sock k with rx := (w.sock k).rx.drop n }
          outcome := .data ((w.sock k).rx.take n), syscalls := [some k] }
  | eof (k : KSock) (kind : call.kind = .read) (notDue : res.timeout = false)
      (used : w.table fd = some k) (empty : (w.sock k).rx = []) (ended : (w.sock k).eof = true) :
      Bodies w loop call fd res .eof
        { world := w, outcome := .threw .connectionClosed, syscalls := [some k] }
  | readFails (errno : Errno) (kind : call.kind = .read) (notDue : res.timeout = false) :
      Bodies w loop call fd res (.fails errno)
        { world := w, outcome := .threw (.readFailed errno), syscalls := [w.table fd] }
  | wrote (k : KSock) (n : Nat) (data : List UInt8) (kind : call.kind = .write data)
      (notDue : res.timeout = false) (used : w.table fd = some k) (part : n ≤ data.length)
      (established : (w.sock k).conn = .established) :
      Bodies w loop call fd res (.bytes n)
        { world := send w k (data.take n), outcome := .returned
          syscalls := [some k], accepted := data.take n }
  | writeFails (errno : Errno) (data : List UInt8) (kind : call.kind = .write data)
      (notDue : res.timeout = false) :
      Bodies w loop call fd res (.fails errno)
        { world := w, outcome := .threw (.writeFailed errno), syscalls := [w.table fd] }
  | accepts (k : KSock) (clientFd : Fd) (client : KSock) (rest : List KSock)
      (kind : call.kind = .accept) (used : w.table fd = some k)
      (backlog : (w.sock k).backlog = client :: rest) (free : w.Free clientFd)
      (listening : (w.sock k).conn = .listening) :
      Bodies w loop call fd res (.fd clientFd)
        { world := (w.setSock k { w.sock k with backlog := rest }).install
            .socket loop clientFd client
          outcome := .socket w.nextObj, syscalls := [some k] }
  | acceptFails (errno : Errno) (kind : call.kind = .accept)
      (empty : errno = eagain → ∃ k, w.table fd = some k ∧ (w.sock k).conn = .listening ∧
        (w.sock k).backlog = []) :
      Bodies w loop call fd res (.fails errno)
        { world := w, outcome := .threw (.acceptFailed errno), syscalls := [w.table fd] }
  | timer (r : SysResult) (kind : call.kind = .schedule ∨ call.kind = .sleep) :
      Bodies w loop call fd res r { world := w, outcome := .returned }

section Bodies

variable {w : World} {loop : Nat} {call : Call} {fd : Fd} {res : Evs} {r : SysResult} {fx : Effect}

private theorem readCallback_cases (kind : call.kind = .read)
    (h : readCallback w fd res r = some fx) : Bodies w loop call fd res r fx := by
  unfold readCallback at h
  split at h
  · next due =>
      cases h
      exact .timedOut r (by rw [kind]; rfl) (by rw [kind]; simp) due
  · next notDue =>
      have notDue : res.timeout = false := by simpa using notDue
      split at h
      · next k n used =>
          dsimp only at h
          split at h
          · next may =>
              cases h
              exact .bytes k n kind notDue used may.1 may.2.1 may.2.2
          · cases h
      · next k used =>
          split at h
          · next may =>
              cases h
              exact .eof k kind notDue used may.1 may.2
          · cases h
      · next k errno used =>
          cases h
          exact used ▸ .readFails errno kind notDue
      · next errno used =>
          split at h
          · cases h
            exact used ▸ .readFails errno kind notDue
          · cases h
      · cases h

private theorem writeCallback_cases {data : List UInt8} (kind : call.kind = .write data)
    (h : writeCallback w data fd res r = some fx) : Bodies w loop call fd res r fx := by
  unfold writeCallback at h
  split at h
  · next due =>
      cases h
      exact .timedOut r (by rw [kind]; rfl) (by rw [kind]; simp) due
  · next notDue =>
      have notDue : res.timeout = false := by simpa using notDue
      split at h
      · next k n used =>
          split at h
          · next may =>
              cases h
              exact .wrote k n data kind notDue used may.1 may.2
          · cases h
      · next k errno used =>
          cases h
          exact used ▸ .writeFails errno data kind notDue
      · next errno used =>
          split at h
          · cases h
            exact used ▸ .writeFails errno data kind notDue
          · cases h
      · cases h

private theorem acceptCallback_cases (kind : call.kind = .accept)
    (h : acceptCallback w loop fd r = some fx) : Bodies w loop call fd res r fx := by
  unfold acceptCallback at h
  split at h
  · next k clientFd used =>
      split at h
      · next client rest backlog =>
          split at h
          · next may =>
              cases h
              exact .accepts k clientFd client rest kind used backlog may.1 may.2
          · cases h
      · cases h
  · next k errno used =>
      split at h
      · next empty =>
          cases h
          exact used ▸ .acceptFails errno kind fun again => ⟨k, used, empty again⟩
      · cases h
  · next errno used =>
      split at h
      · next bad =>
          cases h
          refine used ▸ .acceptFails errno kind fun again => ?_
          rw [bad] at again
          cases again
      · cases h
  · cases h

/-- **The inversion of a callback.** -/
theorem callbackBody_cases (h : callbackBody w loop call fd res r = some fx) :
    Bodies w loop call fd res r fx := by
  unfold callbackBody at h
  split at h
  · next address kind =>
      split at h
      · next due =>
          cases h
          exact .timedOut r (by rw [kind]; rfl) (by rw [kind]; simp) due
      · next notDue =>
          obtain ⟨o, obj, rfl⟩ := Option.map_eq_some_iff.mp h
          exact .connected r address o kind (by simpa using notDue) obj
  · next kind => exact readCallback_cases kind h
  · next data kind => exact writeCallback_cases kind h
  · next kind => exact acceptCallback_cases kind h
  · next kind =>
      cases h
      exact .timer r (Or.inl kind)
  · next kind =>
      cases h
      exact .timer r (Or.inr kind)
  · cases h

end Bodies

/-! ## Starting, in closed form -/

section Start

/-- The base with the new event of a call, before `event_add`. -/
def eventBase (c : Core) (n : Nat) (v : Event) : Base :=
  { c.loop.base with ev := Function.update c.loop.base.ev (.call n) v }

@[simp] theorem queued_eventBase (c : Core) (n : Nat) (v : Event) (e : EvId) :
    (c.eventBase n v).Queued e ↔ c.loop.base.Queued e := Iff.rfl

@[simp] theorem eventBase_ev_self (c : Core) (n : Nat) (v : Event) :
    (c.eventBase n v).ev (.call n) = v := by
  simp [eventBase]

/-- An event that is not added yet has no part in the queues. -/
theorem shape_eventBase (c : Core) {n : Nat} (new : ¬ c.loop.base.Queued (.call n)) (v : Event) :
    ∀ e ∈ c.loop.base.inserted, ((c.eventBase n v).ev e).shape = (c.loop.base.ev e).shape := by
  intro e mem
  rw [show (c.eventBase n v).ev e = c.loop.base.ev e from
    Function.update_of_ne (by rintro rfl; exact new (Or.inl mem)) _ _]

/-- The base after an accepted `event_add` for a descriptor. -/
def addedBase (c : Core) (n : Nat) (v : Event) (now : Timeval) (tv : Option Timeval) : Base :=
  Base.withTimeout
    { c.eventBase n v with
      inserted := .call n :: c.loop.base.inserted
      epoll := (c.eventBase n v).epollAfterAdd (.call n) } now (.call n) tv

/-- **What starting a call on a descriptor amounts to.** -/
theorem startIo_eq (c : Core) {n : Nat} (call : Call) (fd : Fd) {events : Evs}
    (timeout : Option Duration) (env : Base.AddEnv) (now : Timeval)
    (new : ¬ c.loop.base.Queued (.call n)) (io : events.isIo = true) :
    c.startIo n call fd events timeout env now =
      let v : Event := { evFd := fd, evEvents := events }
      let tv := timeout.map timevalFor
      let call : Call := { call with
        sock := c.world.table fd, timeout := tv, boxed := true, allocs := 1 }
      if (c.eventBase n v).Accepts c.opened env (.call n) tv then
        (c.withBase (c.addedBase n v now tv)).record n { call with added := true }
      else (c.withBase (c.eventBase n v)).record n { call with added := false } := by
  have add : (c.eventBase n { evFd := fd, evEvents := events }).eventAddNolock c.opened env now
      (.call n) (timeout.map timevalFor) = _ :=
    Base.eventAddNolock_io (by simpa using io) (by simpa using new) (timeout.map timevalFor)
  have unfolded : c.startIo n call fd events timeout env now =
      let add := (c.eventBase n { evFd := fd, evEvents := events }).eventAddNolock c.opened env
        now (.call n) (timeout.map timevalFor)
      (c.withBase add.2).record n { call with
        sock := c.world.table fd, timeout := timeout.map timevalFor, boxed := true
        added := add.1, allocs := 1 } := rfl
  rw [unfolded, add]
  by_cases h : (c.eventBase n { evFd := fd, evEvents := events }).Accepts c.opened env (.call n)
      (timeout.map timevalFor)
  · simp only [h, if_true]
    rfl
  · simp only [h, if_false]

/-- The event stays as `event_new` made it. -/
theorem addedBase_shape (c : Core) (n : Nat) (v : Event) (now : Timeval) (tv : Option Timeval) :
    ((c.addedBase n v now tv).ev (.call n)).shape = v.shape := by
  rw [addedBase, Base.withTimeout_shape]
  simp [eventBase]

theorem queued_addedBase (c : Core) (n : Nat) (v : Event) (now : Timeval) (tv : Option Timeval)
    (e : EvId) :
    (c.addedBase n v now tv).Queued e ↔ c.loop.base.Queued e ∨ e = .call n := by
  simp only [Base.Queued, addedBase, Base.withTimeout_fields, Base.mem_withTimeout_timeheap,
    List.mem_cons]
  simp only [eventBase]
  tauto

/-- **What `schedule` and `sleep` amount to**: the box is given back, or the event
is on the timer heap, or it is active at once. -/
theorem schedule_cases (c : Core) {n : Nat} (kind : Kind) (duration : Duration) (nomem : Bool)
    (env : Base.AddEnv) (now : Timeval) (new : ¬ c.loop.base.Queued (.call n)) :
    let tv := timevalFor duration
    let call : Call := { kind, timeout := some tv, boxed := true }
    let c' := c.schedule n kind duration nomem env now
    (∃ b, (b = c.loop.base ∨ b = c.eventBase n {}) ∧
      c' = (c.withBase b).record n { call with released := 1 }) ∨
    (evutilTimerisset tv = true ∧
      c' = (c.withBase ((c.eventBase n {}).withTimeout now (.call n) (some tv))).record n
        { call with added := true }) ∨
    (evutilTimerisset tv = false ∧
      c' = (c.withBase ((c.eventBase n {}).eventActiveNolock (.call n) { timeout := true }
        1)).record n { call with added := true }) := by
  have timer : (c.eventBase n {}).eventAddNolock c.opened env now (.call n)
      (some (timevalFor duration)) = _ :=
    Base.eventAddNolock_timer (by simp) (by simpa using new) (timevalFor duration)
  dsimp only [schedule]
  cases nomem with
  | true => exact Or.inl ⟨c.loop.base, Or.inl rfl, rfl⟩
  | false =>
      cases set : evutilTimerisset (timevalFor duration) with
      | false => exact Or.inr (Or.inr ⟨rfl, rfl⟩)
      | true =>
          simp only [Bool.false_eq_true, if_false, if_true]
          rw [show (c.eventNew n {}).loop.base = c.eventBase n {} from rfl,
            show (c.eventNew n {}).opened = c.opened from rfl, timer]
          cases env.heapFull with
          | true => exact Or.inl ⟨c.eventBase n {}, Or.inr rfl, rfl⟩
          | false => exact Or.inr (Or.inl ⟨trivial, rfl⟩)

/-- **What a round of `signalStream` amounts to.** -/
theorem signalOne_cases {c c' : Core} {r : Nat} {arg : SignalArg}
    (h : c.signalOne r arg = some c')
    (new : arg.n ∉ c.loop.made → ¬ c.loop.base.Queued (.call arg.n)) :
    arg.n ∉ c.loop.made ∧
    (c' = c.record arg.n { kind := .signal arg.signum, boxed := true, released := 1 } ∨
    ∃ added b, (c.eventBase arg.n (signalEvent arg.signum)).evmapSignalAdd c.opened arg.env
        (.call arg.n) = (added, b) ∧
      c' = ((c.withBase b).record arg.n
        { kind := .signal arg.signum, boxed := true, added, allocs := 1 }).append r arg.n) := by
  rw [signalOne] at h
  split at h
  · cases h
  · next fresh =>
      refine ⟨fresh, ?_⟩
      dsimp only at h
      split at h
      · cases h
        exact Or.inl rfl
      · cases h
        rw [show (c.eventNew arg.n (signalEvent arg.signum)).loop.base
            = c.eventBase arg.n (signalEvent arg.signum) from rfl,
          show (c.eventNew arg.n (signalEvent arg.signum)).opened = c.opened from rfl,
          Base.eventAddNolock_signal (by simp [signalEvent]) (by simpa using new fresh)]
        exact Or.inr ⟨_, _, rfl, rfl⟩

/-- What a round of `signalStream` keeps, the whole of it keeps. -/
theorem signalStream_induct {P : Core → Prop} {c c' : Core} {args : List SignalArg}
    (h : c.signalStream args = some c')
    (start : P { c with loop := { c.loop with nextReg := c.loop.nextReg + 1 } })
    (one : ∀ d arg d', arg ∈ args → P d → d.signalOne c.loop.nextReg arg = some d' → P d') :
    P c' := by
  have go : ∀ (rest : List SignalArg) (d : Core), (∀ arg ∈ rest, arg ∈ args) → P d →
      signalAll c.loop.nextReg d rest = some c' → P c' := by
    intro rest
    induction rest with
    | nil => intro d _ hd h; cases h; exact hd
    | cons arg rest ih =>
        intro d sub hd h
        obtain ⟨e, he, h⟩ := Option.bind_eq_some_iff.mp h
        exact ih e (fun x mem => sub x (List.mem_cons_of_mem _ mem))
          (one d arg e (sub arg List.mem_cons_self) hd he) h
  exact go args _ (fun _ mem => mem) start h

/-- What a round of `tearDown` keeps, the whole of it keeps. -/
theorem tearDown_induct {P : Core → Prop} {c : Core} {r : Nat} (start : P c)
    (one : ∀ d n, P d → n ∈ (c.loop.reg r).events → P (d.tearDownOne n))
    (emptied : ∀ d reg, P d → P { d with loop := { d.loop with reg } }) : P (c.tearDown r) := by
  have go : ∀ (ns : List Nat) (d : Core), P d → (∀ n ∈ ns, n ∈ (c.loop.reg r).events) →
      P (ns.foldl tearDownOne d) := by
    intro ns
    induction ns with
    | nil => intro d hd _; exact hd
    | cons n ns ih =>
        intro d hd sub
        exact ih _ (one d n hd (sub n List.mem_cons_self))
          (fun m mem => sub m (List.mem_cons_of_mem _ mem))
  rw [tearDown]
  split
  · exact start
  · exact emptied _ _ (go _ c start (fun _ mem => mem))

end Start

end Core

end SwiftEvent
