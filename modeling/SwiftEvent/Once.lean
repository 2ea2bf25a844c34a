import SwiftEvent.Drive

/-!
# At most once

A continuation that is resumed twice traps, and a box that is used after its
release is a use after free.  Neither can happen on a driven loop, whatever the
tasks, the kernel and the clock do: a call's stage has room for one resumption
and one release, and only a call whose box is still held can be called back.

An event that is ready and due in one pass is no exception.  The pass takes it
off the evmap and leaves it on the active queue once, with `EV_TIMEOUT` alone; so
is an event that `stop()` leaves active for a later drive.
-/

namespace SwiftEvent.System

/-- **At most once.**  In every state a driven loop reaches, each call has been
resumed, or its closure invoked, at most once; its box was released at most once;
and no callback has ever run with a released box. -/
theorem resumed_at_most_once {endian : Endian} {pipeFd : Fd} {clock : Timeval} {as : List Act}
    {s : System} (run : StepSystem.run step (init endian pipeFd clock) as = some s) {n : Nat}
    (made : n ∈ s.core.loop.made) :
    (s.core.loop.call n).outcomes.length ≤ 1 ∧ (s.core.loop.call n).released ≤ 1 ∧
      (s.core.loop.call n).stale = 0 :=
  ((sound_run run).life n).once made

/-- A read that is readable and due in the same pass, which `stop()` then leaves
on the active queue for the next drive. -/
def readyAndDue : List Act :=
  [ .task (.listen (.ok 4)), .task (.kernel (.incoming 1)),
    .task (.accept 0 1 {} ⟨0, 0⟩), .iterate [(4, { epollin := true })] [], .next (.fd 5),
    .next .nothing,
    .task (.schedule 1 false ⟨0⟩ false {} ⟨0, 0⟩),
    .task (.read 2 2 (some ⟨10 ^ 18⟩) {} ⟨0, 0⟩), .task (.kernel (.arrive 2 [7])),
    .tick ⟨5, 0⟩, .iterate [(5, { epollin := true })] [.call 2], .stop, .next .nothing,
    .next .nothing, .runOnce, .iterate [] [], .next .nothing ]

theorem resumed_at_most_once_readyAndDue :
    ∃ s, StepSystem.run step (init .little 3 ⟨1, 0⟩) readyAndDue = some s ∧
      2 ∈ s.core.loop.made ∧ (s.core.loop.call 2).outcomes = [.threw .timeout] ∧
      (s.core.loop.call 2).outcomes.length ≤ 1 ∧ (s.core.loop.call 2).released ≤ 1 ∧
      (s.core.loop.call 2).stale = 0 := by
  have facts : (StepSystem.run step (init .little 3 ⟨1, 0⟩) readyAndDue).map
      (fun s => (decide (2 ∈ s.core.loop.made), (s.core.loop.call 2).outcomes)) =
      some (true, [.threw .timeout]) := by decide
  obtain ⟨s, run, facts⟩ := Option.map_eq_some_iff.mp facts
  obtain ⟨made, outcomes⟩ := Prod.mk.inj facts
  have made := of_decide_eq_true made
  exact ⟨s, run, made, outcomes, resumed_at_most_once run made⟩

end SwiftEvent.System
