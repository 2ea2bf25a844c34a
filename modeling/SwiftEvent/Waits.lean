import SwiftEvent.Drive
import SwiftEvent.Frame
import SwiftEvent.TimerHeap

/-!
# What the loop waits for, and what it knows of the time

`event_base_loop` between two passes: the head of its `while`, `epoll_wait(2)`, and
the cache of the time.  `SwiftEvent.Drive` lets a pass begin at any moment; here it
begins when a descriptor is ready, when a signal interrupts the wait, or when the
timeout has elapsed that `timeout_next` and `epoll_dispatch` have computed.

* Every run with its waits is a run of the driven loop (`step_system`), and a call is
  given the same time in both (`gettime_eq`).
* The head of the loop reads the time of the pass before, if there was one: it
  oversleeps by what the callbacks of that pass have taken.

### Reading the model against the source

* libevent reads `CLOCK_MONOTONIC_COARSE`, since the package asks for no precise
  timers.  It lags behind `CLOCK_MONOTONIC`, by which `epoll_wait(2)` measures its
  timeout; `clock` of the driven loop is the coarse one.
* `tvCache` is cleared at the entry of `event_base_loop`, before `epoll_wait(2)` and
  at the end; `update_time_cache` sets it after `epoll_wait(2)`.
* Between a pass and the next `epoll_wait(2)` nothing calls out (`busy`), and what
  works on the base (`locks`) comes before or after: libevent has a lock for it, which
  is not set up without `evthread_use_pthreads()`, and then the loop has one owner at
  a time.
-/

namespace SwiftEvent

/-- A driven loop with its wait. -/
structure Waiting where
  system : System
  /-- `CLOCK_MONOTONIC`. -/
  monotonic : Timeval
  tvCache : Timeval := ⟨0, 0⟩
  /-- Since when the loop is in `epoll_wait(2)`, and with which timeout. -/
  polling : Option (Timeval × Int) := none

namespace Waiting

/-- A new loop in a new process, which nobody drives. -/
def init (endian : Endian) (pipeFd : Fd) (clock monotonic : Timeval) : Waiting where
  system := .init endian pipeFd clock
  monotonic

inductive Act
  | system (a : System.Act)
  | tick (clock monotonic : Timeval)
  | wait
  | wakes (ready : List (Fd × Base.EpollReport)) (order : List EvId) (interrupted : Bool)
deriving DecidableEq

variable (w : Waiting)

/-- `gettime(base, &now)`. -/
def gettime : Timeval := if w.tvCache.tvSec ≠ 0 then w.tvCache else w.system.clock

/-- The driver is between a pass and `epoll_wait(2)`. -/
def busy : Bool :=
  match w.system.drive with
  | .looping _ => w.polling.isNone
  | _ => false

/-- The timeout that `event_base_loop` and `epoll_dispatch` give to `epoll_wait(2)`. -/
def timeout : Int :=
  let base := w.system.core.loop.base
  HeapBase.epollTimeout
    (if base.activequeue = [] then base.timeoutNext w.gettime else some ⟨0, 0⟩)

variable {w} in
theorem timeout_of_active (active : w.system.core.loop.base.activequeue ≠ []) : w.timeout = 0 := by
  unfold timeout
  dsimp only
  rw [if_neg active]
  rfl

variable {w} in
theorem timeout_of_idle (idle : w.system.core.loop.base.activequeue = []) :
    w.timeout = HeapBase.epollTimeout (w.system.core.loop.base.timeoutNext w.gettime) := by
  unfold timeout
  dsimp only
  rw [if_pos idle]

/-- The timeout of the wait has elapsed. -/
def elapsed (since : Timeval) (msec : Int) : Prop :=
  0 ≤ msec ∧ since.micros + 1000 * msec ≤ w.monotonic.micros

instance (since : Timeval) (msec : Int) : Decidable (w.elapsed since msec) :=
  inferInstanceAs (Decidable (_ ∧ _))

/-- `event_base_loop` returns. -/
def done (s : System) : Waiting := { w with system := s, tvCache := ⟨0, 0⟩, polling := none }

/-- A step that works on the base, for which libevent takes the lock where there is one. -/
def locks : System.Act → Bool
  | .task (.listen _) | .task (.close _) | .task (.deinit _) => false
  | .task (.raise _) | .task (.kernel _) => false
  | _ => true

/-- The steps that are not those of the wait. -/
def work (a : System.Act) : Option Waiting :=
  match a with
  | .tick _ | .iterate .. | .woken .. => none
  | .pollFails => if w.polling.isSome then (w.system.step a).map w.done else none
  | .next _ =>
      (w.system.step a).map fun s => if s.drive = .idle then w.done s else { w with system := s }
  | .task _ | .runOnce | .run | .stop =>
      if w.busy && locks a then none else (w.system.step a).map fun s => { w with system := s }

/-- The head of `while (!done)`, up to `epoll_wait(2)`. -/
def head : Waiting :=
  if w.system.eventBreak || w.system.exhausted then w.done { w.system with drive := .idle }
  else { w with tvCache := ⟨0, 0⟩, polling := some (w.monotonic, w.timeout) }

/-- `epoll_wait(2)` returns: something is ready, or a signal has interrupted it, or its time is
over. -/
def wakes (ready : List (Fd × Base.EpollReport)) (order : List EvId) (interrupted : Bool) :
    Option Waiting :=
  w.polling.bind fun (since, msec) =>
    if (interrupted = true → ready = []) ∧
        (ready ≠ [] ∨ interrupted = true ∨ w.elapsed since msec) then
      (w.system.step (.woken ready order)).map fun s =>
        { w with system := s, tvCache := w.system.clock, polling := none }
    else none

/-- **One step of the loop with its waits.** -/
def step : Act → Option Waiting
  | .system a => w.work a
  | .tick clock monotonic =>
      if w.system.clock ≤ clock ∧ w.monotonic ≤ monotonic ∧ clock ≤ monotonic then
        some { w with system := { w.system with clock }, monotonic }
      else none
  | .wait => if w.busy then some w.head else none
  | .wakes ready order interrupted => w.wakes ready order interrupted

end Waiting

namespace System

variable {s s' : System} {a : Act}

/-- Only a pass sets the time of the pass. -/
theorem pass_step (sound : s.core.loop.Sound) (h : s.step a = some s')
    (notPass : ∀ ready order, a ≠ .iterate ready order ∧ a ≠ .woken ready order) :
    s'.core.loop.base.pass = s.core.loop.base.pass := by
  cases a with
  | task a =>
      simp only [step, task] at h
      split at h
      · next may =>
          obtain ⟨c, hc, rfl⟩ := Option.map_eq_some_iff.mp h
          have same := Core.pass_step sound hc (fun ready now order eq => by
            cases a with
            | dispatch => simp [Core.Act.isTask] at may
            | _ => cases eq)
          split
          · rw [enter_core]
            exact same
          · exact same
      · cases h
  | iterate ready order => exact absurd rfl (notPass ready order).1
  | woken ready order => exact absurd rfl (notPass ready order).2
  | next r =>
      simp only [step] at h
      split at h
      · rw [next] at h
        dsimp only at h
        split at h
        · split at h
          · obtain ⟨c, hc, rfl⟩ := Option.map_eq_some_iff.mp h
            exact Core.pass_step sound hc fun _ _ _ eq => by cases eq
          · cases h
            rfl
        · split at h
          · cases h
            rfl
          · obtain ⟨c, hc, rfl⟩ := Option.map_eq_some_iff.mp h
            exact Core.pass_step sound hc fun _ _ _ eq => by cases eq
      · cases h
  | runOnce =>
      obtain ⟨-, eq⟩ := Option.ite_none_right_eq_some.mp h
      rw [← Option.some.inj eq, enter_core]
  | run =>
      obtain ⟨-, eq⟩ := Option.ite_none_right_eq_some.mp h
      rw [← Option.some.inj eq, enter_core]
  | stop =>
      obtain ⟨-, eq⟩ := Option.ite_none_right_eq_some.mp h
      rw [← Option.some.inj eq]
  | tick clock =>
      obtain ⟨-, eq⟩ := Option.ite_none_right_eq_some.mp h
      rw [← Option.some.inj eq]
  | pollFails =>
      simp only [step] at h
      split at h
      · cases h
        rfl
      · cases h

/-- What is not the driver's own step leaves the driver where it is, or makes one. -/
theorem drive_step (h : s.step a = some s')
    (call : (∃ b, a = .task b) ∨ a = .runOnce ∨ a = .run ∨ a = .stop) :
    s'.drive = s.drive ∨ s.drive = .idle ∧ ∃ once, s'.drive = .looping once := by
  have entered : ∀ (s : System) once, (s.enter once).drive = s.drive ∨
      s.drive = .idle ∧ ∃ once', (s.enter once).drive = .looping once' := by
    intro s once
    unfold enter
    split
    · next idle => exact Or.inr ⟨idle, once, rfl⟩
    · exact Or.inl rfl
  rcases call with ⟨b, rfl⟩ | rfl | rfl | rfl
  · simp only [step, task] at h
    split at h
    · obtain ⟨c, -, rfl⟩ := Option.map_eq_some_iff.mp h
      split
      · exact entered { s with core := c } true
      · exact Or.inl rfl
    · cases h
  · obtain ⟨-, eq⟩ := Option.ite_none_right_eq_some.mp h
    rw [← Option.some.inj eq]
    exact entered s true
  · obtain ⟨-, eq⟩ := Option.ite_none_right_eq_some.mp h
    rw [← Option.some.inj eq]
    exact entered s false
  · obtain ⟨-, eq⟩ := Option.ite_none_right_eq_some.mp h
    rw [← Option.some.inj eq]
    exact Or.inl rfl

end System

namespace Waiting

variable {w w' : Waiting}

theorem looping_of_busy (busy : w.busy = true) : ∃ once, w.system.drive = .looping once := by
  unfold Waiting.busy at busy
  split at busy
  · next once drive => exact ⟨once, drive⟩
  · cases busy

/-- What a step that is not of the wait can be. -/
theorem work_cases {a : System.Act} (h : w.work a = some w') :
    ∃ s, w.system.step a = some s ∧
      (((∃ b, a = .task b) ∨ a = .runOnce ∨ a = .run ∨ a = .stop) ∧
          (w.busy = true → locks a = false) ∧ w' = { w with system := s } ∨
        (∃ r, a = .next r) ∧
          (s.drive = .idle ∧ w' = w.done s ∨ s.drive ≠ .idle ∧ w' = { w with system := s }) ∨
        a = .pollFails ∧ w.polling.isSome ∧ w' = w.done s) := by
  have calls : ∀ {o : Option Waiting}, (if w.busy && locks a then none else o) = some w' →
      (w.busy = true → locks a = false) ∧ o = some w' := by
    intro o eq
    obtain ⟨free, eq⟩ := Option.ite_none_left_eq_some.mp eq
    exact ⟨fun busy => by simpa [busy] using free, eq⟩
  cases a with
  | task b =>
      obtain ⟨free, eq⟩ := calls h
      obtain ⟨s, hs, rfl⟩ := Option.map_eq_some_iff.mp eq
      exact ⟨s, hs, Or.inl ⟨Or.inl ⟨b, rfl⟩, free, rfl⟩⟩
  | runOnce =>
      obtain ⟨free, eq⟩ := calls h
      obtain ⟨s, hs, rfl⟩ := Option.map_eq_some_iff.mp eq
      exact ⟨s, hs, Or.inl ⟨Or.inr (Or.inl rfl), free, rfl⟩⟩
  | run =>
      obtain ⟨free, eq⟩ := calls h
      obtain ⟨s, hs, rfl⟩ := Option.map_eq_some_iff.mp eq
      exact ⟨s, hs, Or.inl ⟨Or.inr (Or.inr (Or.inl rfl)), free, rfl⟩⟩
  | stop =>
      obtain ⟨free, eq⟩ := calls h
      obtain ⟨s, hs, rfl⟩ := Option.map_eq_some_iff.mp eq
      exact ⟨s, hs, Or.inl ⟨Or.inr (Or.inr (Or.inr rfl)), free, rfl⟩⟩
  | next r =>
      obtain ⟨s, hs, eq⟩ := Option.map_eq_some_iff.mp h
      refine ⟨s, hs, Or.inr (Or.inl ⟨⟨r, rfl⟩, ?_⟩)⟩
      by_cases idle : s.drive = .idle
      · rw [if_pos idle] at eq
        exact Or.inl ⟨idle, eq.symm⟩
      · rw [if_neg idle] at eq
        exact Or.inr ⟨idle, eq.symm⟩
  | pollFails =>
      obtain ⟨polls, eq⟩ := Option.ite_none_right_eq_some.mp h
      obtain ⟨s, hs, rfl⟩ := Option.map_eq_some_iff.mp eq
      exact ⟨s, hs, Or.inr (Or.inr ⟨rfl, polls, rfl⟩)⟩
  | tick _ => cases h
  | iterate _ _ => cases h
  | woken _ _ => cases h

/-- A call that works on the base is not made between a pass and the wait. -/
theorem task_of_locks {a : Core.Act} (takes : locks (.task a) = true)
    (call : w.step (.system (.task a)) = some w') :
    w.busy = false ∧ w.system.step (.task a) = some w'.system := by
  have call : w.work (.task a) = some w' := call
  obtain ⟨s, hs, shape⟩ := work_cases call
  rcases shape with ⟨-, free, rfl⟩ | ⟨⟨r, eq⟩, -⟩ | ⟨eq, -⟩
  · refine ⟨?_, hs⟩
    by_contra busy
    have free := free (by simpa using busy)
    rw [takes] at free
    cases free
  · cases eq
  · cases eq

/-- The wait has ended. -/
theorem wakes_eq_some {ready : List (Fd × Base.EpollReport)} {order : List EvId}
    {interrupted : Bool} (h : w.wakes ready order interrupted = some w') :
    ∃ since msec s, w.polling = some (since, msec) ∧
      (ready ≠ [] ∨ interrupted = true ∨ w.elapsed since msec) ∧
      w.system.step (.woken ready order) = some s ∧
      w' = { w with system := s, tvCache := w.system.clock, polling := none } := by
  obtain ⟨⟨since, msec⟩, polls, h⟩ := Option.bind_eq_some_iff.mp h
  obtain ⟨⟨-, ends⟩, eq⟩ := Option.ite_none_right_eq_some.mp h
  obtain ⟨s, hs, rfl⟩ := Option.map_eq_some_iff.mp eq
  exact ⟨since, msec, s, polls, ends, hs, rfl⟩

/-- **Every step is a step of the driven loop, or changes nothing there.** -/
theorem step_system {a : Act} (h : w.step a = some w') :
    w'.system = w.system ∨ ∃ b, w.system.step b = some w'.system ∧
      (∀ clock, b = .tick clock → ∃ monotonic, a = .tick clock monotonic) ∧
      ∀ t, b = .task t → a = .system (.task t) := by
  cases a with
  | system a =>
      obtain ⟨s, hs, shape⟩ := work_cases h
      have eq : w'.system = s := by
        rcases shape with ⟨-, -, rfl⟩ | ⟨-, ⟨-, rfl⟩ | ⟨-, rfl⟩⟩ | ⟨-, -, rfl⟩
        all_goals rfl
      refine Or.inr ⟨a, eq ▸ hs, fun clock tick => ?_, fun t task => by rw [task]⟩
      subst tick
      cases h
  | tick clock monotonic =>
      obtain ⟨⟨later, -⟩, eq⟩ := Option.ite_none_right_eq_some.mp h
      rw [← Option.some.inj eq]
      refine Or.inr ⟨.tick clock, ?_, fun clock' tick => ?_, fun _ task => by cases task⟩
      · exact if_pos later
      · cases tick
        exact ⟨monotonic, rfl⟩
  | wait =>
      obtain ⟨busy, eq⟩ := Option.ite_none_right_eq_some.mp h
      rw [← Option.some.inj eq, head]
      split
      · next ends =>
          obtain ⟨once, drive⟩ := looping_of_busy busy
          refine Or.inr ⟨.iterate [] [], ?_, (fun _ tick => by cases tick),
            fun _ task => by cases task⟩
          simp only [System.step, drive, System.iterate, ends, if_true, done]
      · exact Or.inl rfl
  | wakes ready order interrupted =>
      obtain ⟨-, -, s, -, -, hs, rfl⟩ := wakes_eq_some h
      exact Or.inr ⟨_, hs, (fun _ tick => by cases tick), fun _ task => by cases task⟩

/-- So every step is a step of the calls, or none. -/
theorem step_core {a : Act} (h : w.step a = some w') :
    w'.system.core = w.system.core ∨ ∃ b, w.system.core.step b = some w'.system.core := by
  rcases step_system h with same | ⟨b, hb, -⟩
  · rw [same]
    exact Or.inl rfl
  · exact System.step_core hb

theorem core_reachable {endian : Endian} {pipeFd : Fd} {clock monotonic : Timeval} {as : List Act}
    (run : StepSystem.run step (init endian pipeFd clock monotonic) as = some w) :
    StepSystem.Reachable Core.step (Core.init endian pipeFd) w.system.core :=
  StepSystem.run_project (fun w : Waiting => w.system.core)
    (fun _ _ _ h => step_core h) run

/-- Only the kernel moves the clock. -/
theorem monotonic_step {a : Act} (h : w.step a = some w')
    (notTick : ∀ clock monotonic, a ≠ .tick clock monotonic) : w'.monotonic = w.monotonic := by
  cases a with
  | system a =>
      obtain ⟨s, -, shape⟩ := work_cases h
      rcases shape with ⟨-, -, rfl⟩ | ⟨-, ⟨-, rfl⟩ | ⟨-, rfl⟩⟩ | ⟨-, -, rfl⟩
      all_goals rfl
  | tick clock monotonic => exact absurd rfl (notTick clock monotonic)
  | wait =>
      obtain ⟨-, eq⟩ := Option.ite_none_right_eq_some.mp h
      rw [← Option.some.inj eq, head]
      split
      · rfl
      · rfl
  | wakes ready order interrupted =>
      obtain ⟨-, -, s, -, -, -, rfl⟩ := wakes_eq_some h
      rfl

/-- The cache of the time and the wait go with what the driver does. -/
structure Consistent (w : Waiting) : Prop where
  sound : w.system.core.loop.Sound
  lags : w.system.clock ≤ w.monotonic
  cache : w.tvCache = ⟨0, 0⟩ ∨ w.tvCache = w.system.core.loop.base.pass
  idle : w.system.drive = .idle → w.tvCache = ⟨0, 0⟩
  drains : ∀ once count ran, w.system.drive = .draining once count ran →
    w.tvCache = w.system.core.loop.base.pass
  polls : w.polling.isSome → (∃ once, w.system.drive = .looping once) ∧ w.tvCache = ⟨0, 0⟩

/-- Nobody drives the loop. -/
theorem Consistent.done {s : System} (h : w.Consistent) (sound : s.core.loop.Sound)
    (clock : s.clock = w.system.clock) (idle : s.drive = .idle) : (w.done s).Consistent := by
  refine ⟨sound, ?_, Or.inl rfl, fun _ => rfl, fun once count ran drains => ?_,
    fun polls => by cases polls⟩
  · show s.clock ≤ w.monotonic
    rw [clock]
    exact h.lags
  · have drains : s.drive = .draining once count ran := drains
    rw [idle] at drains
    cases drains

/-- Steps between those of the wait. -/
theorem Consistent.work {a : System.Act} (h : w.Consistent) (hs : w.work a = some w') :
    w'.Consistent := by
  obtain ⟨s, go, shape⟩ := work_cases hs
  have sound := System.sound_step h.sound go
  have clock : s.clock = w.system.clock := by
    rcases System.step_cases go with ⟨-, same | ⟨rfl, -⟩⟩ | ⟨same, -⟩
    · exact same
    · rcases shape with ⟨⟨_, eq⟩ | eq | eq | eq, -⟩ | ⟨⟨_, eq⟩, -⟩ | ⟨eq, -⟩
      all_goals cases eq
    · exact same
  have pass : s.core.loop.base.pass = w.system.core.loop.base.pass := by
    refine System.pass_step h.sound go fun ready order => ⟨?_, ?_⟩
    all_goals
      rintro rfl
      rcases shape with ⟨⟨_, eq⟩ | eq | eq | eq, -⟩ | ⟨⟨_, eq⟩, -⟩ | ⟨eq, -⟩
      all_goals cases eq
  rcases shape with ⟨call, -, rfl⟩ | ⟨⟨r, rfl⟩, ⟨idle, rfl⟩ | ⟨busy, rfl⟩⟩ | ⟨rfl, -, rfl⟩
  · have drive := System.drive_step go call
    refine ⟨sound, ?_, pass ▸ h.cache, fun idle => ?_, fun once count ran drains => ?_,
      fun polls => ?_⟩
    · show s.clock ≤ w.monotonic
      rw [clock]
      exact h.lags
    · have idle : s.drive = .idle := idle
      rcases drive with same | ⟨was, -⟩
      · exact h.idle (same ▸ idle)
      · exact h.idle was
    · have drains : s.drive = .draining once count ran := drains
      show w.tvCache = s.core.loop.base.pass
      rcases drive with same | ⟨-, once', loops⟩
      · rw [pass]
        exact h.drains once count ran (same ▸ drains)
      · rw [loops] at drains
        cases drains
    · obtain ⟨⟨once, loops⟩, cleared⟩ := h.polls polls
      rcases drive with same | ⟨was, -⟩
      · exact ⟨⟨once, same.trans loops⟩, cleared⟩
      · rw [loops] at was
        cases was
  · exact h.done sound clock idle
  · -- the pass goes on, or has ended
    have drained : ∃ once count ran, w.system.drive = .draining once count ran := by
      simp only [System.step] at go
      split at go
      · next once count ran drains => exact ⟨once, count, ran, drains⟩
      · cases go
    obtain ⟨once, count, ran, drained⟩ := drained
    refine ⟨sound, ?_, pass ▸ h.cache, fun idle => absurd idle busy, fun _ _ _ _ => ?_,
      fun polls => ?_⟩
    · show s.clock ≤ w.monotonic
      rw [clock]
      exact h.lags
    · show w.tvCache = s.core.loop.base.pass
      rw [pass]
      exact h.drains once count ran drained
    · obtain ⟨⟨once, loops⟩, -⟩ := h.polls polls
      rw [loops] at drained
      cases drained
  · have idle : s.drive = .idle := by
      simp only [System.step] at go
      split at go
      · cases go
        rfl
      · cases go
    exact h.done sound clock idle

/-- **Every step keeps the cache with the driver.** -/
theorem Consistent.step {a : Act} (h : w.Consistent) (hs : w.step a = some w') :
    w'.Consistent := by
  cases a with
  | system a => exact h.work hs
  | tick clock monotonic =>
      obtain ⟨⟨-, -, lags⟩, eq⟩ := Option.ite_none_right_eq_some.mp hs
      rw [← Option.some.inj eq]
      exact ⟨h.sound, lags, h.cache, h.idle, h.drains, h.polls⟩
  | wait =>
      obtain ⟨busy, eq⟩ := Option.ite_none_right_eq_some.mp hs
      obtain ⟨once, loops⟩ := looping_of_busy busy
      rw [← Option.some.inj eq, head]
      split
      · exact h.done h.sound rfl rfl
      · refine ⟨h.sound, h.lags, Or.inl rfl, fun _ => rfl, fun _ _ _ drains => ?_,
          fun _ => ⟨⟨once, loops⟩, rfl⟩⟩
        have drains := loops.symm.trans drains
        cases drains
  | wakes ready order interrupted =>
      obtain ⟨since, msec, s, polls, -, go, rfl⟩ := wakes_eq_some hs
      have sound := System.sound_step h.sound go
      obtain ⟨⟨once, loops⟩, -⟩ := h.polls (Option.isSome_of_eq_some polls)
      simp only [System.step, loops] at go
      obtain ⟨c, hc, rfl⟩ := System.woken_eq_some go
      have set := Core.pass_dispatch hc
      refine ⟨sound, h.lags, Or.inr set.symm, fun idle => ?_, fun _ _ _ _ => set.symm,
        fun polls => by cases polls⟩
      · dsimp only at idle
        split at idle
        · cases idle
        · cases idle

theorem consistent_init (endian : Endian) (pipeFd : Fd) {clock monotonic : Timeval}
    (lags : clock ≤ monotonic) : (init endian pipeFd clock monotonic).Consistent := by
  refine ⟨Core.sound_new 0 0 pipeFd, lags, Or.inl rfl, fun _ => rfl, fun _ _ _ drains => ?_,
    fun polls => ?_⟩
  · cases drains
  · cases polls

theorem consistent_run {endian : Endian} {pipeFd : Fd} {clock monotonic : Timeval}
    (lags : clock ≤ monotonic) {as : List Act}
    (run : StepSystem.run step (init endian pipeFd clock monotonic) as = some w) :
    w.Consistent :=
  StepSystem.invariant_run (P := Consistent) (fun _ _ _ h hs => h.step hs)
    (consistent_init endian pipeFd lags) run

/-- **What a call is told of the time** is what the driven loop tells it. -/
theorem Consistent.gettime_eq (h : w.Consistent) (free : w.busy = false) :
    w.gettime = w.system.gettime := by
  unfold Waiting.gettime System.gettime
  cases drive : w.system.drive with
  | idle =>
      rw [h.idle drive]
      rfl
  | looping once =>
      have polls : w.polling.isSome := by
        unfold busy at free
        rw [drive] at free
        simpa [Option.isSome_iff_ne_none] using free
      rw [(h.polls polls).2]
      rfl
  | draining once count ran => rw [h.drains once count ran drive]

end Waiting

end SwiftEvent
