import SwiftEvent.Registered
import SwiftEvent.Wired

/-!
# Descriptor numbers that are used again

`close()` gives a number back while events may still wait on it.  libevent is not
told: the events stay in the evmap, and so do the counts.  When the kernel hands
the number out again, a waiting read of the closed socket takes the bytes of the
new one, and a read of the new one is counted as the second on its number, so
that the multiplexer is never asked to watch it.

Without a `close(2)` on a number with a waiting event nothing of this happens,
however often numbers are used again (`acts_on_own_socket`).
-/

namespace SwiftEvent.Core

variable {c : Core}

theorem wired_init (endian : Endian) (pipeFd : Fd) : (init endian pipeFd).Wired := by
  constructor <;> simp [init, Loop.new, Base.new, Base.Queued]
  intro fd
  simp [Base.Watches, Base.oldEvents, Base.nread, Base.nwrite, EpollEvents.registration,
    EpollEvents.isSet]

/-- **The books are right in every run** that closes no number on which an event
waits. -/
theorem wired_run {endian : Endian} {pipeFd : Fd} {as : List Act}
    (noPending : StepSystem.Meets step NoPending (init endian pipeFd) as)
    (run : StepSystem.run step (init endian pipeFd) as = some c) : c.Wired ∧ c.loop.Sound :=
  StepSystem.invariant_run_of_meets (P := fun c : Core => c.Wired ∧ c.loop.Sound)
    (fun _ _ _ h ok hs => ⟨h.1.step h.2 ok hs, (step_follows h.2 hs).1⟩)
    ⟨wired_init endian pipeFd, sound_new 0 0 pipeFd⟩ noPending run

/-- The multiplexer watches the socket the call was made for, in the direction it
waits for. -/
def Watched (d : Core) (r : Registration) : Prop :=
  ∃ k m, d.world.table r.fd = some k ∧ (d.loop.call r.n).sock = some k ∧
    d.loop.base.epoll r.fd = some m ∧ (r.events.read = true → m.epollin = true) ∧
    (r.events.write = true → m.epollout = true)

/-- **No interference through descriptor numbers.**  In every run that closes no
number on which an event waits: every `read(2)`, `write(2)` and `accept(2)` acted
on the socket that was behind the number when its call was made, and an
`event_add` that succeeds leaves the multiplexer watching that socket. -/
theorem acts_on_own_socket {endian : Endian} {pipeFd : Fd} {as : List Act}
    (noPending : StepSystem.Meets step NoPending (init endian pipeFd) as)
    (run : StepSystem.run step (init endian pipeFd) as = some c) :
    (∀ n, ∀ s ∈ (c.loop.call n).syscalls, s = (c.loop.call n).sock ∧ s.isSome = true) ∧
      ∀ a r d, c.registration a = some r → c.step a = some d →
        (d.loop.call r.n).added = true → d.Watched r := by
  obtain ⟨wired, sound⟩ := wired_run noPending run
  refine ⟨wired.syscalls, fun a r d call start added => ?_⟩
  have ok : c.NoPending a := by
    intro o closes
    cases a with
    | close o => cases call
    | deinit o => cases call
    | _ => cases closes
  have wired := wired.step sound ok start
  obtain ⟨-, -, -, isIo, -, facts⟩ := step_registration sound call start
  obtain ⟨inserted, fd, events⟩ := facts added
  have io := wired.io r.n (Or.inl inserted) isIo
  obtain ⟨k, used, own⟩ := wired.behind _ inserted io
  obtain ⟨m, watched, rd, wr⟩ := (wired.watches _).of_mem inserted io
  rw [fd] at used watched
  rw [events] at rd wr
  exact ⟨k, m, used, own r.n rfl, watched, rd, wr⟩

/-- A client is read, closed and dropped; the next one gets its number. -/
def readCloseAccept : List Act :=
  connected ++
    [ .read 1 2 none {} ⟨2, 0⟩, .kernel (.arrive 2 [6]),
      .dispatch [(5, { epollin := true })] ⟨2, 0⟩ [], .callback (.bytes 1), .close 2,
      .kernel (.incoming 1), .accept 2 1 {} ⟨3, 0⟩,
      .dispatch [(4, { epollin := true })] ⟨3, 0⟩ [], .callback (.fd 5) ]

theorem acts_on_own_socket_readCloseAccept :
    ∃ c d r, StepSystem.run step (init .little 3) readCloseAccept = some c ∧
      c.world.table 5 = some 3 ∧ (c.loop.call 1).syscalls = [some 2] ∧
      c.registration (.read 3 3 none {} ⟨3, 0⟩) = some r ∧
      c.step (.read 3 3 none {} ⟨3, 0⟩) = some d ∧ d.Watched r := by
  have facts : (StepSystem.run step (init .little 3) readCloseAccept).bind (fun c =>
      (c.registration (.read 3 3 none {} ⟨3, 0⟩)).bind fun r =>
      (c.step (.read 3 3 none {} ⟨3, 0⟩)).map fun d =>
        (c.world.table 5, (c.loop.call 1).syscalls, (d.loop.call r.n).added)) =
      some (some 3, [some 2], true) := by decide
  have noPending : StepSystem.Meets step NoPending (init .little 3) readCloseAccept := by decide
  obtain ⟨c, run, facts⟩ := Option.bind_eq_some_iff.mp facts
  obtain ⟨r, call, facts⟩ := Option.bind_eq_some_iff.mp facts
  obtain ⟨d, start, facts⟩ := Option.map_eq_some_iff.mp facts
  simp only [Prod.mk.injEq] at facts
  exact ⟨c, d, r, run, facts.1, facts.2.1, call, start,
    (acts_on_own_socket noPending run).2 _ r d call start facts.2.2⟩

/-- A read waits on the client; the client is closed all the same, and the next
one, which gets its number, is read too. -/
def readBehindClose : List Act :=
  connected ++
    [ .read 1 2 none {} ⟨2, 0⟩, .close 2, .kernel (.incoming 1), .accept 2 1 {} ⟨2, 0⟩,
      .dispatch [(4, { epollin := true })] ⟨2, 0⟩ [], .callback (.fd 5),
      .read 3 3 none {} ⟨2, 0⟩ ]

/-- The new client is written to, and sends two bytes. -/
def writeBehindClose : List Act :=
  [ .write 4 3 [1] none {} ⟨2, 0⟩, .kernel (.arrive 3 [7, 8]),
    .dispatch [(5, { epollin := true })] ⟨3, 0⟩ [], .callback (.bytes 1), .callback (.bytes 1) ]

/-- **A closed socket reads another connection.**  `event_add` succeeds for the
read of the new client, whose socket the multiplexer does not watch; and the read
of the closed one returns a byte that was sent to the new one. -/
theorem reads_stranger :
    ∃ c d, StepSystem.run step (init .little 3) readBehindClose = some c ∧
      (c.loop.call 3).added = true ∧ (c.loop.call 3).sock = some 3 ∧
      c.world.table 5 = some 3 ∧ c.loop.base.epoll 5 = none ∧
      StepSystem.run step c writeBehindClose = some d ∧
      (d.loop.call 1).sock = some 2 ∧ (d.loop.call 1).syscalls = [some 3] ∧
      (d.loop.call 1).outcomes = [.data [8]] := by
  have before : (StepSystem.run step (init .little 3) readBehindClose).map (fun c =>
      ((c.loop.call 3).added, (c.loop.call 3).sock, c.world.table 5, c.loop.base.epoll 5)) =
      some (true, some 3, some 3, none) := by decide
  have later : ((StepSystem.run step (init .little 3) readBehindClose).bind fun c =>
      StepSystem.run step c writeBehindClose).map (fun d =>
        ((d.loop.call 1).sock, (d.loop.call 1).syscalls, (d.loop.call 1).outcomes)) =
      some (some 2, [some 3], [.data [8]]) := by decide
  obtain ⟨c, run, facts⟩ := Option.map_eq_some_iff.mp before
  rw [run, Option.bind_some] at later
  obtain ⟨d, after, later⟩ := Option.map_eq_some_iff.mp later
  simp only [Prod.mk.injEq] at facts later
  obtain ⟨added, own, used, unwatched⟩ := facts
  exact ⟨c, d, run, added, own, used, unwatched, after, later⟩

end SwiftEvent.Core
