import SwiftEvent.Refine

/-!
# Driving the loop

`event_base_loop`, entered through `runOnce()`, through `run()`, or at the end of
a call that waits.  A loop is driven by at most one task at a time: a second
entry returns at once (`running_loop`).  What the tasks and the driver do
interleaves between callbacks; the work done inside a callback is done by steps
that follow it, before the driver looks at `event_break` again.

### Reading the model against the source

* `looping once` is the head of `while (!done)`, up to the return of
  `epoll_wait(2)`; `draining once count ran` is
  `event_process_active_single_queue`, with its `count` and whether a callback
  has returned since the last look at `event_break`.
* `iterate` is a whole iteration up to the active queue.  `woken` is the part
  of it after `epoll_wait(2)`, which comes also where the loop was stopped, or
  emptied, while it waited.  How long it waits is left open here: a signal may
  interrupt `epoll_wait(2)` at any time.  `SwiftEvent.Waits` adds the timeout.
* `gettime` answers from the cache while a pass is being drained, and from the
  clock otherwise; a cache with `tv_sec` zero counts as empty.
* Every step of the driven loop is a step of `SwiftEvent.Core`, or changes
  nothing there (`step_core`): what holds of the calls under every driver holds
  under this one.
-/

namespace SwiftEvent

/-- Where the driver of the loop is. -/
inductive Drive
  | idle
  | looping (once : Bool)
  | draining (once : Bool) (count : Nat) (ran : Bool)
deriving DecidableEq, Repr

/-- A process with one loop and the task that drives it. -/
structure System where
  core : Core
  drive : Drive
  /-- `event_break`. -/
  eventBreak : Bool
  clock : Timeval

/-- The label with its clock reading. -/
def Core.Act.at (now : Timeval) : Core.Act → Core.Act
  | .connect n address r timeout env _ => .connect n address r timeout env now
  | .read n o timeout env _ => .read n o timeout env now
  | .write n o data timeout env _ => .write n o data timeout env now
  | .accept n o env _ => .accept n o env now
  | .schedule n sleeps duration nomem env _ => .schedule n sleeps duration nomem env now
  | a => a

/-- The labels that are not the driver's own. -/
def Core.Act.isTask : Core.Act → Bool
  | .dispatch .. | .callback _ | .breakSignal => false
  | _ => true

@[simp] theorem Core.Act.drives_at (now : Timeval) (a : Core.Act) :
    (a.at now).drives = a.drives := by
  cases a with
  | connect n address r timeout env now' => cases r <;> rfl
  | _ => rfl

namespace System

variable (s : System)

/-- A new loop in a new process, which nobody drives. -/
def init (endian : Endian) (pipeFd : Fd) (clock : Timeval) : System where
  core := Core.init endian pipeFd
  drive := .idle
  eventBreak := false
  clock

inductive Act
  | task (a : Core.Act)
  | runOnce
  | run
  | stop
  | tick (clock : Timeval)
  | iterate (ready : List (Fd × Base.EpollReport)) (order : List EvId)
  | woken (ready : List (Fd × Base.EpollReport)) (order : List EvId)
  | pollFails
  | next (r : Core.SysResult)
deriving DecidableEq

/-- `gettime(base, &now)`. -/
def gettime : Timeval :=
  match s.drive with
  | .draining .. =>
      if s.core.loop.base.pass.tvSec ≠ 0 then s.core.loop.base.pass else s.clock
  | _ => s.clock

/-- The entry of `event_base_loop`; a reentrant one returns at once. -/
def enter (once : Bool) : System :=
  match s.drive with
  | .idle => { s with drive := .looping once, eventBreak := false }
  | _ => s

/-- `event_base_loop` has nothing to wait for. -/
def exhausted : Bool :=
  !s.core.loop.base.eventHaveevents && s.core.loop.base.activequeue.isEmpty

/-- The core of a task's step, and the drive it ends with. -/
def task (a : Core.Act) : Option System :=
  if a.isTask ∧ (a = .free → s.drive = .idle) then
    (s.core.step (a.at s.gettime)).map fun c =>
      if a.drives then enter { s with core := c } true else { s with core := c }
  else none

/-- An iteration from the return of `epoll_wait(2)` up to the active queue. -/
def woken (once : Bool) (ready : List (Fd × Base.EpollReport)) (order : List EvId) :
    Option System :=
  (s.core.step (.dispatch ready s.clock order)).map fun c =>
    { s with
      core := c
      drive := if c.loop.base.activequeue = [] then .looping once else .draining once 0 false }

/-- One iteration of the loop, up to the active queue. -/
def iterate (once : Bool) (ready : List (Fd × Base.EpollReport)) (order : List EvId) :
    Option System :=
  if s.eventBreak || s.exhausted then some { s with drive := .idle }
  else s.woken once ready order

/-- One round of `event_process_active_single_queue`, or its end. -/
def next (once : Bool) (count : Nat) (ran : Bool) (r : Core.SysResult) : Option System :=
  let base := s.core.loop.base
  if ran && s.eventBreak then
    if base.repeating.isSome then
      (s.core.step .breakSignal).map fun c => { s with core := c, drive := .idle }
    else some { s with drive := .idle }
  else if base.repeating = none ∧ base.activequeue = [] then
    some { s with drive := if once && count != 0 then .idle else .looping once }
  else
    -- internal events are not counted, nor are the repetitions of a signal
    let counted :=
      base.repeating.isNone && !(base.activequeue.head? == some .signalPipe)
    (s.core.step (.callback r)).map fun c =>
      { s with core := c, drive := .draining once (if counted then count + 1 else count) true }

/-- **One step of the driven loop.** -/
def step : Act → Option System
  | .task a => s.task a
  | .runOnce => if s.core.loop.alive then some (s.enter true) else none
  | .run => if s.core.loop.alive then some (s.enter false) else none
  | .stop => if s.core.loop.alive then some { s with eventBreak := true } else none
  | .tick clock => if s.clock ≤ clock then some { s with clock } else none
  | .iterate ready order =>
      match s.drive with
      | .looping once => s.iterate once ready order
      | _ => none
  | .woken ready order =>
      match s.drive with
      | .looping once => s.woken once ready order
      | _ => none
  | .pollFails =>
      match s.drive with
      | .looping _ => some { s with drive := .idle }
      | _ => none
  | .next r =>
      match s.drive with
      | .draining once count ran => s.next once count ran r
      | _ => none

variable {s} {s' : System}

@[simp] theorem enter_core (once : Bool) : (s.enter once).core = s.core := by
  unfold enter
  split <;> rfl

@[simp] theorem enter_clock (once : Bool) : (s.enter once).clock = s.clock := by
  unfold enter
  split <;> rfl

/-- A driver that waits makes an iteration. -/
theorem iterate_iff {ready : List (Fd × Base.EpollReport)} {order : List EvId} :
    s.step (.iterate ready order) = some s' ↔
      ∃ once, s.drive = .looping once ∧ s.iterate once ready order = some s' := by
  cases drive : s.drive <;> simp [step, drive]

theorem woken_iff {ready : List (Fd × Base.EpollReport)} {order : List EvId} :
    s.step (.woken ready order) = some s' ↔
      ∃ once, s.drive = .looping once ∧ s.woken once ready order = some s' := by
  cases drive : s.drive <;> simp [step, drive]

theorem pollFails_iff :
    s.step .pollFails = some s' ↔
      ∃ once, s.drive = .looping once ∧ s' = { s with drive := .idle } := by
  cases drive : s.drive <;> simp [step, drive, eq_comm]

/-- A driver that drains the queue goes on with it. -/
theorem next_iff {r : Core.SysResult} :
    s.step (.next r) = some s' ↔ ∃ once count ran, s.drive = .draining once count ran ∧
      s.next once count ran r = some s' := by
  constructor
  · intro h
    cases drive : s.drive with
    | draining once count ran =>
        simp only [step, drive] at h
        exact ⟨once, count, ran, rfl, h⟩
    | _ => simp [step, drive] at h
  · rintro ⟨once, count, ran, drive, h⟩
    simp only [step, drive]
    exact h

/-- A pass that has begun. -/
theorem woken_eq_some {once : Bool} {ready : List (Fd × Base.EpollReport)} {order : List EvId}
    (h : s.woken once ready order = some s') :
    ∃ c, s.core.step (.dispatch ready s.clock order) = some c ∧ s' =
      { s with
        core := c
        drive := if c.loop.base.activequeue = [] then .looping once else .draining once 0 false } := by
  obtain ⟨c, hc, eq⟩ := Option.map_eq_some_iff.mp h
  exact ⟨c, hc, eq.symm⟩

/-- **Every step is a step of the core, or none.**  Only `tick` moves the clock, and a pass
is given its reading, as a call is given what `gettime` answers. -/
theorem step_cases {a : Act} (h : s.step a = some s') :
    s'.core = s.core ∧ (s'.clock = s.clock ∨ a = .tick s'.clock ∧ s.clock ≤ s'.clock) ∨
    s'.clock = s.clock ∧ ∃ b, s.core.step b = some s'.core ∧
      (∀ ready now order, b = .dispatch ready now order → now = s.clock) ∧
      (b.isTask = true → ∃ t, a = .task t ∧ b = t.at s.gettime) := by
  cases a with
  | task a =>
      simp only [step, task] at h
      split at h
      · next may =>
          obtain ⟨c, hc, rfl⟩ := Option.map_eq_some_iff.mp h
          refine Or.inr ⟨?_, a.at s.gettime, hc.trans ?_, fun ready now order eq => ?_,
            fun _ => ⟨a, rfl, rfl⟩⟩
          · split <;> simp
          · split <;> simp
          · cases a with
            | dispatch => simp [Core.Act.isTask] at may
            | _ => cases eq
      · cases h
  | runOnce =>
      simp only [step] at h
      split at h
      · cases h
        exact Or.inl ⟨enter_core true, Or.inl (enter_clock true)⟩
      · cases h
  | run =>
      simp only [step] at h
      split at h
      · cases h
        exact Or.inl ⟨enter_core false, Or.inl (enter_clock false)⟩
      · cases h
  | stop =>
      simp only [step] at h
      split at h
      · cases h
        exact Or.inl ⟨rfl, Or.inl rfl⟩
      · cases h
  | tick clock =>
      simp only [step] at h
      split at h
      · next later =>
          cases h
          exact Or.inl ⟨rfl, Or.inr ⟨rfl, later⟩⟩
      · cases h
  | iterate ready order =>
      simp only [step] at h
      split at h
      · rw [iterate] at h
        split at h
        · cases h
          exact Or.inl ⟨rfl, Or.inl rfl⟩
        · obtain ⟨c, hc, rfl⟩ := woken_eq_some h
          refine Or.inr ⟨rfl, _, hc, fun ready now order eq => ?_, fun task => nomatch task⟩
          cases eq
          rfl
      · cases h
  | woken ready order =>
      simp only [step] at h
      split at h
      · obtain ⟨c, hc, rfl⟩ := woken_eq_some h
        refine Or.inr ⟨rfl, _, hc, fun ready now order eq => ?_, fun task => nomatch task⟩
        cases eq
        rfl
      · cases h
  | pollFails =>
      simp only [step] at h
      split at h
      · cases h
        exact Or.inl ⟨rfl, Or.inl rfl⟩
      · cases h
  | next r =>
      simp only [step] at h
      split at h
      · simp only [next] at h
        split at h
        · split at h
          · obtain ⟨c, hc, rfl⟩ := Option.map_eq_some_iff.mp h
            exact Or.inr ⟨rfl, _, hc, (fun _ _ _ eq => nomatch eq), fun task => nomatch task⟩
          · cases h
            exact Or.inl ⟨rfl, Or.inl rfl⟩
        · split at h
          · cases h
            exact Or.inl ⟨rfl, Or.inl rfl⟩
          · obtain ⟨c, hc, rfl⟩ := Option.map_eq_some_iff.mp h
            exact Or.inr ⟨rfl, _, hc, (fun _ _ _ eq => nomatch eq), fun task => nomatch task⟩
      · cases h

/-- A call is given what `gettime` answers. -/
theorem task_core {a : Core.Act} (h : s.step (.task a) = some s') :
    s.core.step (a.at s.gettime) = some s'.core := by
  simp only [step, task] at h
  split at h
  · obtain ⟨c, hc, rfl⟩ := Option.map_eq_some_iff.mp h
    split
    · rw [enter_core]
      exact hc
    · exact hc
  · cases h

theorem step_core {a : Act} (h : s.step a = some s') :
    s'.core = s.core ∨ ∃ b, s.core.step b = some s'.core := by
  rcases step_cases h with ⟨same, -⟩ | ⟨-, b, hb, -⟩
  · exact Or.inl same
  · exact Or.inr ⟨b, hb⟩

/-- The calls of a driven loop are at their stages too. -/
theorem sound_step {a : Act} (sound : s.core.loop.Sound) (h : s.step a = some s') :
    s'.core.loop.Sound := by
  rcases step_core h with same | ⟨b, hb⟩
  · rw [same]; exact sound
  · exact (Core.step_follows sound hb).1

theorem sound_run {endian : Endian} {pipeFd : Fd} {clock : Timeval} {as : List Act}
    (run : StepSystem.run step (init endian pipeFd clock) as = some s) : s.core.loop.Sound :=
  StepSystem.invariant_run (P := fun s : System => s.core.loop.Sound)
    (fun _ _ _ sound h => sound_step sound h) (Core.sound_new 0 0 pipeFd) run

end System

end SwiftEvent
