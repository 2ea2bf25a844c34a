import SwiftEvent.Timeouts
import SwiftEvent.Pass

/-!
# Two drivers

A run of the driven loop with a read or a write that times out, and the run without
it: in both the tasks, the kernel and the clock do the same.  What differs is what
the driver does.  The call may have driven the loop itself, its event may have kept
the loop from ending, and its callback is counted by `runOnce()` and makes the
driver look at `event_break`.

* `Own` — what keeps the passes of the call's own `runOnce()` from being missed.
* `Shared` — what keeps another driver from going on, or ending, for the call alone.
* `Beside`, `Abreast` — how the loop and its driver stand to those without the call.
* `Beside.step_own`, `Abreast.step` — one step with the call is none or some without it,
  and the tasks, the kernel and the clock do the same in them.
-/

namespace SwiftEvent

/-- The label without the time, and without whether `epoll_ctl(2)` refuses. -/
def Core.Act.bare : Core.Act → Core.Act
  | .connect n address r timeout env _ =>
      .connect n address r timeout { env with reject := none } ⟨0, 0⟩
  | .read n o timeout env _ => .read n o timeout { env with reject := none } ⟨0, 0⟩
  | .write n o data timeout env _ => .write n o data timeout { env with reject := none } ⟨0, 0⟩
  | .accept n o env _ => .accept n o { env with reject := none } ⟨0, 0⟩
  | .schedule n sleeps duration nomem env _ => .schedule n sleeps duration nomem env ⟨0, 0⟩
  | a => a

namespace Core

theorem granted_bare (c : Core) (n m : Nat) (a : Act) (env : Base.AddEnv) :
    ({ c.granted n m a env with reject := none } : Base.AddEnv) = { env with reject := none } := by
  unfold granted
  split
  · rfl
  · rfl

/-- A task's label, taken without the call, asks for the same. -/
theorem Act.without_at {a : Act} (isTask : a.isTask = true) (n : Nat) (c : Core) (now : Timeval) :
    ∃ b, (a.at now).without n c = some b ∧ (∀ now', a.at now = a.at now' → b.at now' = b) ∧
      b.isTask = true ∧ b.bare = a.bare ∧ b.drives = a.drives ∧ (b = .free → a = .free) := by
  cases a with
  | connect m address r timeout env now' =>
      refine ⟨_, rfl, fun _ same => ?_, rfl, ?_, ?_, fun eq => by cases eq⟩
      · cases same
        rfl
      · show Act.connect _ _ _ _ _ _ = _
        rw [granted_bare]
        rfl
      · cases r <;> rfl
  | read m o timeout env now' =>
      refine ⟨_, rfl, fun _ same => ?_, rfl, ?_, rfl, fun eq => by cases eq⟩
      · cases same
        rfl
      show Act.read _ _ _ _ _ = _
      rw [granted_bare]
      rfl
  | write m o data timeout env now' =>
      refine ⟨_, rfl, fun _ same => ?_, rfl, ?_, rfl, fun eq => by cases eq⟩
      · cases same
        rfl
      show Act.write _ _ _ _ _ _ = _
      rw [granted_bare]
      rfl
  | accept m o env now' =>
      refine ⟨_, rfl, fun _ same => ?_, rfl, ?_, rfl, fun eq => by cases eq⟩
      · cases same
        rfl
      show Act.accept _ _ _ _ = _
      rw [granted_bare]
      rfl
  | dispatch => cases isTask
  | callback => cases isTask
  | breakSignal => cases isTask
  | schedule m sleeps duration nomem env now' =>
      refine ⟨_, rfl, fun _ same => ?_, rfl, rfl, rfl, fun eq => by cases eq⟩
      cases same
      rfl
  | free => exact ⟨_, rfl, fun _ _ => rfl, rfl, rfl, rfl, fun eq => eq⟩
  | _ => exact ⟨_, rfl, fun _ _ => rfl, rfl, rfl, rfl, fun eq => by cases eq⟩

@[simp] theorem Act.names_at (now : Timeval) (a : Act) : (a.at now).names = a.names := by
  cases a <;> rfl

theorem NoPending.at {c : Core} {a : Act} (ok : c.NoPending a) (now : Timeval) :
    c.NoPending (a.at now) := by
  cases a <;> exact ok

/-- The callback of a call that is no signal resumes it. -/
theorem resumed_of_nextCall {c c' : Core} {n : Nat} {r : SysResult} (own : c.nextCall = some n)
    (signal : (c.loop.call n).kind.isSignal = false) (hs : c.step (.callback r) = some c') :
    (c'.loop.call n).outcomes ≠ [] := by
  obtain ⟨quiet, rest, queue⟩ := queue_of_nextCall own
  cases step_cases hs with
  | start _ drives => cases drives
  | pipe r rest' alive quiet' queue' =>
      rw [queue] at queue'
      cases queue'
  | skip r m rest' alive quiet' queue' sig =>
      rw [queue] at queue'
      cases queue'
      rw [signal] at sig
      cases sig
  | yield r m left rest' alive quiet' queue' sig =>
      rw [queue] at queue'
      cases queue'
      rw [signal] at sig
      cases sig
  | again r m left alive rep =>
      rw [quiet] at rep
      cases rep
  | fire r m rest' fx alive quiet' queue' sig body =>
      rw [queue] at queue'
      cases queue'
      simp [fired, withCall, Effect.settle]

theorem Act.notPass_at {a : Act} (isTask : a.isTask = true) (now : Timeval) :
    ∀ ready now' order, a.at now ≠ .dispatch ready now' order := by
  intro ready now' order eq
  cases a with
  | dispatch => cases isTask
  | _ => cases eq

end Core

/-- `event_haveevents(base)`, one event left out. -/
def Base.haveeventsBeside (b : Base) (e : EvId) : Bool :=
  (b.inserted ++ b.timeheap ++ b.activequeue).any fun x => x ≠ .signalPipe ∧ x ≠ e

/-- `count` of the pass that is being drained. -/
def Drive.count : Drive → Option Nat
  | .draining _ count _ => some count
  | _ => none

/-- The loop is driven by `runOnce()`. -/
def Drive.once : Drive → Bool
  | .looping once | .draining once .. => once
  | .idle => false

namespace System

/-- What the tasks, the kernel and the clock do in a step; the rest is the driver's. -/
def Act.shown : Act → Option Act
  | .task a => some (.task a.bare)
  | .runOnce => some .runOnce
  | .run => some .run
  | .stop => some .stop
  | .tick clock => some (.tick clock)
  | .iterate .. | .woken .. | .pollFails | .next _ => none

variable (n : Nat) (s : System)

/-- No number is closed on which an event waits. -/
def NoPending : Act → Prop
  | .task a => s.core.NoPending a
  | _ => True

instance : ∀ a, Decidable (s.NoPending a)
  | .task a => inferInstanceAs (Decidable (s.core.NoPending a))
  | .runOnce | .run | .stop | .tick _ | .iterate .. | .woken .. | .pollFails | .next _ =>
      isTrue trivial

/-- Nothing is active but the call. -/
def Still : Prop :=
  s.core.loop.base.repeating = none ∧ ∀ e ∈ s.core.loop.base.activequeue, e = .call n

instance : Decidable (s.Still n) := inferInstanceAs (Decidable (_ ∧ ∀ e ∈ _, _))

/-- The call has been resumed. -/
def Resumed : Prop := (s.core.loop.call n).outcomes ≠ []

instance : Decidable (s.Resumed n) := inferInstanceAs (Decidable (_ ≠ _))

/-- While the call's own `runOnce()` drives the loop, its passes find nothing else to do, nobody
else enters the loop, and a timeout is not reckoned from an earlier time than the clock's. -/
def Own : Act → Prop
  | .task a => s.Still n ∧ a.drives = false ∧ a.at s.gettime = a.at s.clock
  | .runOnce | .run => False
  | _ => s.Still n

instance : ∀ a, Decidable (s.Own n a)
  | .task a => inferInstanceAs
      (Decidable (s.Still n ∧ a.drives = false ∧ a.at s.gettime = a.at s.clock))
  | .runOnce | .run => isFalse id
  | .stop | .tick _ | .iterate .. | .woken .. | .pollFails | .next _ =>
      inferInstanceAs (Decidable (s.Still n))

/-- A pass in which nothing is invoked but the call. -/
def Lonely : Prop := s.Still n ∧ s.drive.count = some (if s.Resumed n then 1 else 0)

instance : Decidable (s.Lonely n) := inferInstanceAs (Decidable (_ ∧ _))

/-- A driver that waits in the loop would wait without the call too. -/
def Awaits : Prop :=
  s.draining = false → s.drive = .idle ∨ s.eventBreak = true ∨ s.exhausted = true ∨
    s.core.loop.base.haveeventsBeside (.call n) = true

instance : Decidable (s.Awaits n) := inferInstanceAs (Decidable (_ → _))

/-- While another driver is in the loop: it would wait without the call too; a pass that is made
for the call alone changes no time and makes nothing active; and when nothing else has been
counted in the pass that invokes the call, `runOnce()` does not end for that, and a `stop()` finds
nothing left to do. -/
def Shared : Act → Prop
  | .task a => s.Awaits n ∧ (s.Lonely n → a.at s.gettime = a.at s.clock ∧ a.Delays)
  | .next _ => s.Resumed n → ∀ count ∈ s.drive.count, count < 2 →
      if s.Still n then s.drive.once = false ∨ s.eventBreak = true else s.eventBreak = false
  | _ => s.Awaits n

instance : ∀ a, Decidable (s.Shared n a)
  | .task a => inferInstanceAs
      (Decidable (s.Awaits n ∧ (s.Lonely n → a.at s.gettime = a.at s.clock ∧ a.Delays)))
  | .next _ => inferInstanceAs
      (Decidable (s.Resumed n → ∀ count ∈ s.drive.count, count < 2 → if s.Still n then
        s.drive.once = false ∨ s.eventBreak = true else s.eventBreak = false))
  | .runOnce | .run | .stop | .tick _ | .iterate .. | .woken .. | .pollFails =>
      inferInstanceAs (Decidable (s.Awaits n))

variable {n : Nat} {s s' t t' : System}

/-! ## The two loops -/

/-- `t` is `s` without the call. -/
structure Beside (n : Nat) (s t : System) : Prop where
  core : Core.Lacks n s.core t.core
  clock : t.clock = s.clock
  past : t.core.loop.base.pass = s.core.loop.base.pass ∨
    t.core.loop.base.pass ≤ t.clock ∧ s.core.loop.base.pass ≤ s.clock

/-- What a task has done to the loop, and the drive it ends with. -/
def after (s : System) (a : Core.Act) (c : Core) : System :=
  if a.drives then enter { s with core := c } true else { s with core := c }

theorem task_eq_some {a : Core.Act} (h : s.step (.task a) = some s') :
    a.isTask = true ∧ (a = .free → s.drive = .idle) ∧
      ∃ c, s.core.step (a.at s.gettime) = some c ∧ s' = s.after a c := by
  obtain ⟨⟨isTask, free⟩, eq⟩ := Option.ite_none_right_eq_some.mp h
  obtain ⟨c, hc, rfl⟩ := Option.map_eq_some_iff.mp eq
  exact ⟨isTask, free, c, hc, rfl⟩

theorem step_task {a : Core.Act} {c : Core} (isTask : a.isTask = true)
    (free : a = .free → s.drive = .idle) (hc : s.core.step (a.at s.gettime) = some c) :
    s.step (.task a) = some (s.after a c) := by
  show s.task a = _
  rw [task, if_pos ⟨isTask, free⟩, hc]
  rfl

@[simp] theorem after_core (a : Core.Act) (c : Core) : (s.after a c).core = c := by
  unfold after
  split
  · exact enter_core true
  · rfl

@[simp] theorem after_clock (a : Core.Act) (c : Core) : (s.after a c).clock = s.clock := by
  unfold after
  split
  · exact enter_clock true
  · rfl

/-- The call has not been resumed but by its timeout. -/
def Ended (n : Nat) (s : System) : Prop :=
  ∀ out ∈ (s.core.loop.call n).outcomes, out = .threw .timeout

namespace Beside

/-- A step of the core that is no pass. -/
theorem core_step (h : Beside n s t) {b : Core.Act} {c : Core} (ok : s.core.NoPending b)
    (roomy : s.core.loop.base.Roomy (.call n)) (new : n ∉ b.names)
    (notPass : ∀ ready now order, b ≠ .dispatch ready now order) (hc : s.core.step b = some c)
    (ended : ∀ out ∈ (c.loop.call n).outcomes, out = .threw .timeout) :
    (b.without n s.core).elim
      (Core.Lacks n c t.core ∧ c.loop.base.pass = s.core.loop.base.pass)
      fun b' => ∃ d, t.core.step b' = some d ∧ Core.Lacks n c d ∧
        c.loop.base.pass = s.core.loop.base.pass ∧ d.loop.base.pass = t.core.loop.base.pass := by
  have stepped := h.core.step ok roomy new (fun r o now eq => absurd eq (notPass r o now)) hc
    fun _ => ended
  have pass := Core.pass_step h.core.regular.sound hc notPass
  cases eq : b.without n s.core with
  | none =>
      rw [eq] at stepped
      exact ⟨stepped, pass⟩
  | some b' =>
      rw [eq] at stepped
      obtain ⟨d, hd, lacks⟩ := stepped
      refine ⟨d, hd, lacks, pass, Core.pass_step h.core.regular'.sound hd ?_⟩
      rintro ready now order rfl
      cases b with
      | dispatch ready now order => exact notPass ready now order rfl
      | callback r =>
          rw [Core.Act.without] at eq
          split at eq
          · cases eq
          · cases eq
      | _ => cases eq

/-- **What a task does in the one loop** it does in the other. -/
theorem task (h : Beside n s t) {a : Core.Act} (ok : s.core.NoPending a)
    (roomy : s.core.loop.base.Roomy (.call n)) (new : n ∉ a.names)
    (time : a.at s.gettime = a.at t.gettime) (free : s.drive = .idle → t.drive = .idle)
    (hs : s.step (.task a) = some s') (ended : s'.Ended n) :
    ∃ b c d, s.core.step (a.at s.gettime) = some c ∧ s' = s.after a c ∧
      t.step (.task b) = some (t.after b d) ∧ b.bare = a.bare ∧ b.drives = a.drives ∧
      t.core.step (b.at t.gettime) = some d ∧ Beside n (s.after a c) (t.after b d) ∧
      c.loop.base.pass = s.core.loop.base.pass ∧ d.loop.base.pass = t.core.loop.base.pass := by
  obtain ⟨isTask, freed, c, hc, rfl⟩ := task_eq_some hs
  have ended : ∀ out ∈ (c.loop.call n).outcomes, out = .threw .timeout := by
    rw [← after_core (s := s) a c]
    exact ended
  have stepped := h.core_step (ok.at _) roomy (by rw [Core.Act.names_at]; exact new)
    (Core.Act.notPass_at isTask _) hc ended
  obtain ⟨b, eq, at_, isTask', bare, drives, free'⟩ :=
    Core.Act.without_at isTask n s.core s.gettime
  rw [eq] at stepped
  obtain ⟨d, hd, lacks, pass, pass'⟩ := stepped
  rw [← at_ _ time] at hd
  refine ⟨b, c, d, hc, rfl, ?_, bare, drives, hd, ⟨?_, ?_, ?_⟩, pass, pass'⟩
  · exact step_task isTask' (fun eq => free (freed (free' eq))) hd
  · rw [after_core, after_core]
    exact lacks
  · rw [after_clock, after_clock]
    exact h.clock
  · rw [after_core, after_core, after_clock, after_clock, pass, pass']
    exact h.past

/-- When a pass may be made in the one loop, it may be made in the other. -/
theorem pass_le (h : Beside n s t) {ready : List (Fd × Base.EpollReport)} {order : List EvId}
    {c : Core} (hc : s.core.step (.dispatch ready s.clock order) = some c) :
    t.core.loop.base.pass ≤ s.clock := by
  rcases h.past with same | ⟨past, -⟩
  · rw [same]
    exact (Core.pass_le hc).1
  · rw [← h.clock]
    exact past

/-- **A pass**, in both loops. -/
theorem passes (h : Beside n s t) {once : Bool} {ready : List (Fd × Base.EpollReport)}
    {order : List EvId} (roomy : s.core.loop.base.Roomy (.call n))
    (hs : s.woken once ready order = some s') (ended : s'.Ended n) :
    ∃ t', t.woken once (ready.filterMap (s.core.loop.base.reportWithout (.call n)))
      (unlink order (.call n)) = some t' ∧ Beside n s' t' ∧
      t'.core.loop.base.pass = s'.core.loop.base.pass := by
  obtain ⟨c, hc, rfl⟩ := woken_eq_some hs
  have noPending : s.core.NoPending (.dispatch ready s.clock order) := by
    intro o closes
    cases closes
  have stepped := h.core.step noPending roomy List.not_mem_nil
    (fun r now o eq => by
      cases eq
      exact h.pass_le hc) hc fun _ => ended
  obtain ⟨d, hd, lacks⟩ := stepped
  have pass : d.loop.base.pass = c.loop.base.pass := by
    rw [Core.pass_dispatch hc, Core.pass_dispatch hd]
  refine ⟨{ t with
    core := d
    drive := if d.loop.base.activequeue = [] then .looping once else .draining once 0 false },
    ?_, ⟨lacks, h.clock, Or.inl pass⟩, pass⟩
  rw [woken, h.clock, hd]
  rfl

/-- A pass in the one loop only, when it activates nothing but the call. -/
theorem skips (h : Beside n s t) {once : Bool} {ready : List (Fd × Base.EpollReport)}
    {order : List EvId} (hs : s.woken once ready order = some s')
    (alone : ∀ e ∈ s'.core.loop.base.activequeue, e = .call n) : Beside n s' t := by
  obtain ⟨c, hc, rfl⟩ := woken_eq_some hs
  have past := h.pass_le hc
  refine ⟨h.core.skip past hc alone, h.clock, Or.inr ⟨?_, ?_⟩⟩
  · rw [h.clock]
    exact past
  · exact Timeval.le_of_eq (Core.pass_dispatch hc)

/-- The multiplexer may fail, the loop may end, and be entered, in either. -/
theorem drives (h : Beside n s t) (drive drive' : Drive) (stop stop' : Bool) :
    Beside n { s with drive, eventBreak := stop } { t with drive := drive', eventBreak := stop' } :=
  ⟨h.core, h.clock, h.past⟩

theorem enter (h : Beside n s t) (once : Bool) : Beside n (s.enter once) (t.enter once) := by
  refine ⟨?_, ?_, ?_⟩
  · rw [enter_core, enter_core]
    exact h.core
  · rw [enter_clock, enter_clock]
    exact h.clock
  · rw [enter_core, enter_core, enter_clock, enter_clock]
    exact h.past

/-- The clock goes on. -/
theorem tick (h : Beside n s t) {clock : Timeval} (later : s.clock ≤ clock) :
    Beside n { s with clock } { t with clock } := by
  refine ⟨h.core, rfl, ?_⟩
  rcases h.past with same | ⟨past, past'⟩
  · exact Or.inl same
  · refine Or.inr ⟨Timeval.le_trans past ?_, Timeval.le_trans past' later⟩
    rw [h.clock]
    exact later

theorem alive (h : Beside n s t) : t.core.loop.alive = s.core.loop.alive := h.core.without.alive

/-- A loop that has nothing to wait for has nothing to wait for without the call. -/
theorem exhausted (h : Beside n s t) (ends : s.exhausted = true) : t.exhausted = true := by
  unfold System.exhausted Base.eventHaveevents at ends ⊢
  rw [Bool.and_eq_true, Bool.not_eq_true', List.any_eq_false] at ends ⊢
  obtain ⟨none, empty⟩ := ends
  have base := h.core.without.base
  refine ⟨fun x mem => none x ?_, ?_⟩
  · rw [base.inserted, base.timeheap, base.activequeue] at mem
    simp only [List.mem_append, mem_unlink] at mem ⊢
    exact mem.imp (Or.imp And.left And.left) And.left
  · rw [base.activequeue, List.isEmpty_iff.mp empty]
    rfl

/-- A loop that has something else to wait for waits without the call. -/
theorem not_exhausted (h : Beside n s t)
    (waits : s.core.loop.base.haveeventsBeside (.call n) = true) : t.exhausted = false := by
  unfold Base.haveeventsBeside at waits
  obtain ⟨x, mem, ne⟩ := List.any_eq_true.mp waits
  rw [decide_eq_true_eq] at ne
  have base := h.core.without.base
  have here : t.core.loop.base.eventHaveevents = true := by
    unfold Base.eventHaveevents
    refine List.any_eq_true.mpr ⟨x, ?_, decide_eq_true ne.1⟩
    rw [base.inserted, base.timeheap, base.activequeue]
    simp only [List.mem_append, mem_unlink] at mem ⊢
    exact mem.imp (Or.imp (fun i => ⟨i, ne.2⟩) fun i => ⟨i, ne.2⟩) fun i => ⟨i, ne.2⟩
  unfold System.exhausted
  rw [here]
  rfl

/-- Nothing is active without the call when nothing else is with it. -/
theorem alone_iff (h : Beside n s t) :
    (∀ e ∈ s.core.loop.base.activequeue, e = .call n) ↔ t.core.loop.base.activequeue = [] := by
  rw [h.core.without.base.activequeue]
  refine ⟨fun alone => ?_, fun empty => ?_⟩
  · refine List.eq_nil_iff_forall_not_mem.mpr fun e mem => ?_
    obtain ⟨mem, ne⟩ := mem_unlink.mp mem
    exact ne (alone e mem)
  · intro e mem
    by_contra ne
    have mem' : e ∈ unlink s.core.loop.base.activequeue (.call n) := mem_unlink.mpr ⟨mem, ne⟩
    rw [empty] at mem'
    cases mem'

theorem still_iff (h : Beside n s t) :
    s.Still n ↔ t.core.loop.base.repeating = none ∧ t.core.loop.base.activequeue = [] := by
  rw [Still, h.alone_iff, h.core.without.base.repeating]

end Beside

/-! ## A round of the queue -/

/-- The callback to come is counted: it is not of an internal event, nor is it repeated. -/
def counts (s : System) : Bool :=
  s.core.loop.base.repeating.isNone && !(s.core.loop.base.activequeue.head? == some .signalPipe)

/-- What a round is: the driver is told to stop, or there is nothing left, or a callback comes. -/
theorem next_eq_some {once : Bool} {count : Nat} {ran : Bool} {r : Core.SysResult}
    (h : s.next once count ran r = some s') :
    (ran && s.eventBreak) = true ∧
        (s.core.loop.base.repeating = none ∧ s' = { s with drive := .idle } ∨
          s.core.loop.base.repeating.isSome ∧ ∃ c, s.core.step .breakSignal = some c ∧
            s' = { s with core := c, drive := .idle }) ∨
    ¬ (ran && s.eventBreak) = true ∧
      ((s.core.loop.base.repeating = none ∧ s.core.loop.base.activequeue = []) ∧
          s' = { s with drive := if once && count != 0 then .idle else .looping once } ∨
        ¬ (s.core.loop.base.repeating = none ∧ s.core.loop.base.activequeue = []) ∧
          ∃ c, s.core.step (.callback r) = some c ∧ s' =
            { s with
              core := c
              drive := .draining once (if s.counts then count + 1 else count) true }) := by
  unfold next at h
  dsimp only at h
  by_cases stop : (ran && s.eventBreak) = true
  · rw [if_pos stop] at h
    refine Or.inl ⟨stop, ?_⟩
    by_cases repeated : s.core.loop.base.repeating.isSome = true
    · rw [if_pos repeated] at h
      obtain ⟨c, hc, rfl⟩ := Option.map_eq_some_iff.mp h
      exact Or.inr ⟨repeated, c, hc, rfl⟩
    · rw [if_neg repeated] at h
      cases h
      exact Or.inl ⟨Option.not_isSome_iff_eq_none.mp repeated, rfl⟩
  · rw [if_neg stop] at h
    refine Or.inr ⟨stop, ?_⟩
    by_cases empty : s.core.loop.base.repeating = none ∧ s.core.loop.base.activequeue = []
    · rw [if_pos empty] at h
      cases h
      exact Or.inl ⟨empty, rfl⟩
    · rw [if_neg empty] at h
      obtain ⟨c, hc, rfl⟩ := Option.map_eq_some_iff.mp h
      exact Or.inr ⟨empty, c, hc, rfl⟩

theorem next_stops {once : Bool} {count : Nat} {ran : Bool} (r : Core.SysResult)
    (stop : (ran && s.eventBreak) = true) (repeated : s.core.loop.base.repeating = none) :
    s.next once count ran r = some { s with drive := .idle } := by
  unfold next
  dsimp only
  rw [if_pos stop, repeated]
  rfl

theorem next_breaks {once : Bool} {count : Nat} {ran : Bool} {r : Core.SysResult} {c : Core}
    (stop : (ran && s.eventBreak) = true)
    (repeated : s.core.loop.base.repeating.isSome = true)
    (hc : s.core.step .breakSignal = some c) :
    s.next once count ran r = some { s with core := c, drive := .idle } := by
  unfold next
  dsimp only
  rw [if_pos stop, if_pos repeated, hc]
  rfl

theorem next_ends {once : Bool} {count : Nat} {ran : Bool} (r : Core.SysResult)
    (goes : ¬ (ran && s.eventBreak) = true)
    (empty : s.core.loop.base.repeating = none ∧ s.core.loop.base.activequeue = []) :
    s.next once count ran r =
      some { s with drive := if once && count != 0 then .idle else .looping once } := by
  unfold next
  dsimp only
  rw [if_neg goes, if_pos empty]

theorem next_calls {once : Bool} {count : Nat} {ran : Bool} {r : Core.SysResult} {c : Core}
    (goes : ¬ (ran && s.eventBreak) = true)
    (some_ : ¬ (s.core.loop.base.repeating = none ∧ s.core.loop.base.activequeue = []))
    (hc : s.core.step (.callback r) = some c) :
    s.next once count ran r = some
      { s with
        core := c
        drive := .draining once (if s.counts then count + 1 else count) true } := by
  unfold next
  dsimp only
  rw [if_neg goes, if_neg some_, hc]
  rfl

/-! ## Another driver -/

/-- What has been counted in a pass has run. -/
def Counted (s : System) : Prop :=
  ∀ once count ran, s.drive = .draining once count ran → count ≠ 0 → ran = true

/-- How the driver without the call stands to the driver with it: at the same place; or the
callback of the call is counted in this pass; or there is no pass without it. -/
inductive Abreast (n : Nat) (s t : System) : Prop
  | same (drive : t.drive = s.drive) (stop : s.drive ≠ .idle → t.eventBreak = s.eventBreak)
      (pass : s.draining = true → t.core.loop.base.pass = s.core.loop.base.pass)
      (counts : s.Counted)
  | counted (once : Bool) (count : Nat) (ran : Bool)
      (drive : s.drive = .draining once (count + 1) true)
      (drive' : t.drive = .draining once count ran) (stop : t.eventBreak = s.eventBreak)
      (pass : t.core.loop.base.pass = s.core.loop.base.pass) (counts : count ≠ 0 → ran = true)
      (resumed : s.Resumed n)
  | alone (once : Bool) (count : Nat) (ran : Bool) (drive : s.drive = .draining once count ran)
      (drive' : t.drive = .looping once) (stop : t.eventBreak = s.eventBreak) (still : s.Still n)
      (counts : count = if s.Resumed n then 1 else 0) (runs : s.Resumed n → ran = true)

/-- The drivers are at the same place, and drain no queue. -/
theorem Abreast.outside (drive : t.drive = s.drive)
    (stop : s.drive ≠ .idle → t.eventBreak = s.eventBreak) (out : s.draining = false) :
    Abreast n s t := by
  refine .same drive stop (fun drains => ?_) fun once count ran drains => ?_
  · rw [out] at drains
    cases drains
  · unfold draining at out
    rw [drains] at out
    cases out

/-- The round after the last one ends the pass. -/
theorem draining_ite (once : Bool) (ends : Bool) :
    draining { s with drive := if ends then .idle else .looping once } = false := by
  cases ends <;> rfl

/-- What the clock reads where no pass is being drained. -/
theorem gettime_of_not_draining (h : s.draining = false) : s.gettime = s.clock := by
  unfold gettime
  unfold draining at h
  split
  · next drive =>
      rw [drive] at h
      cases h
  · rfl

/-- What the cache holds where a pass is being drained. -/
theorem gettime_of_draining (h : s.draining = true) :
    s.gettime = if s.core.loop.base.pass.tvSec ≠ 0 then s.core.loop.base.pass else s.clock := by
  unfold draining at h
  unfold gettime
  cases drive : s.drive with
  | draining once count ran => rfl
  | idle =>
      rw [drive] at h
      cases h
  | looping once =>
      rw [drive] at h
      cases h

theorem gettime_congr (drains : t.draining = s.draining) (clock : t.clock = s.clock)
    (pass : s.draining = true → t.core.loop.base.pass = s.core.loop.base.pass) :
    t.gettime = s.gettime := by
  cases eq : s.draining with
  | false =>
      rw [gettime_of_not_draining eq, gettime_of_not_draining (drains.trans eq), clock]
  | true =>
      rw [gettime_of_draining eq, gettime_of_draining (drains.trans eq), pass eq, clock]

theorem enter_of_busy (busy : s.drive ≠ .idle) (once : Bool) : s.enter once = s := by
  unfold enter
  split
  · next idle => exact absurd idle busy
  · rfl

theorem enter_of_idle (idle : s.drive = .idle) (once : Bool) :
    s.enter once = { s with drive := .looping once, eventBreak := false } := by
  unfold enter
  rw [idle]

/-- A task in a driven loop leaves the driver where it is. -/
theorem after_of_busy (busy : s.drive ≠ .idle) (a : Core.Act) (c : Core) :
    s.after a c = { s with core := c } := by
  unfold after
  split
  · exact enter_of_busy (s := { s with core := c }) busy true
  · rfl

/-- A call that waits drives a loop that nobody drives. -/
theorem after_of_idle (idle : s.drive = .idle) (a : Core.Act) (c : Core) :
    s.after a c =
      if a.drives then { s with core := c, drive := .looping true, eventBreak := false }
      else { s with core := c } := by
  unfold after
  split
  · exact enter_of_idle (s := { s with core := c }) idle true
  · rfl

/-- The record of the call is left alone by tasks. -/
theorem resumed_task (spent : s.core.Spent n) {a : Core.Act} {c : Core}
    (isTask : a.isTask = true) {now : Timeval} (hc : s.core.step (a.at now) = some c) :
    c.loop.call n = s.core.loop.call n := by
  rcases Core.call_step spent.sound hc spent.made spent.signal with same | ⟨r, fx, eq, -⟩
  · exact same
  · cases a with
    | callback => cases isTask
    | _ => cases eq

theorem delays_of_bare {a b : Core.Act} (bare : b.bare = a.bare) (delays : a.Delays) :
    b.Delays := by
  have same : ∀ a : Core.Act, a.bare.Delays ↔ a.Delays := by
    intro a
    cases a <;> exact Iff.rfl
  rw [← same, bare, same]
  exact delays

/-- What a task does while another driver is in the loop, or nobody is. -/
theorem Abreast.task (ab : Abreast n s t) (h : Beside n s t) (spent : s.core.Spent n)
    {a : Core.Act} (ok : s.core.NoPending a) (roomy : s.core.loop.base.Roomy (.call n))
    (shared : s.Shared n (.task a)) (hs : s.step (.task a) = some s') (ended : s'.Ended n) :
    ∃ b t', t.step (.task b) = some t' ∧ b.bare = a.bare ∧ Beside n s' t' ∧ Abreast n s' t' := by
  obtain ⟨isTask, -, _, hc, -⟩ := task_eq_some hs
  have new : n ∉ a.names := by
    have new := Core.names_unmade hc spent.made
    rw [Core.Act.names_at] at new
    exact new
  have time : a.at s.gettime = a.at t.gettime := by
    cases ab with
    | same drive stop pass counts =>
        rw [gettime_congr (by unfold draining; rw [drive]) h.clock pass]
    | counted once count ran drive drive' stop pass =>
        rw [gettime_congr (by unfold draining; rw [drive, drive']) h.clock fun _ => pass]
    | alone once count ran drive drive' stop still counts =>
        have lonely : s.Lonely n := ⟨still, by rw [drive, ← counts]; rfl⟩
        have idle : t.draining = false := by unfold draining; rw [drive']
        rw [gettime_of_not_draining idle, h.clock]
        exact (shared.2 lonely).1
  have free : s.drive = .idle → t.drive = .idle := by
    intro idle
    cases ab with
    | same drive => exact drive.trans idle
    | counted once count ran drive =>
        rw [idle] at drive
        cases drive
    | alone once count ran drive =>
        rw [idle] at drive
        cases drive
  obtain ⟨b, c, d, hc, rfl, go, bare, drives, hd, beside, pass, pass'⟩ :=
    h.task ok roomy new time free hs ended
  refine ⟨b, _, go, bare, beside, ?_⟩
  have call := resumed_task spent isTask hc
  cases ab with
  | same drive stop same counts =>
      by_cases idle : s.drive = .idle
      · rw [after_of_idle idle, after_of_idle (free idle), drives]
        cases a.drives with
        | true =>
            exact .outside rfl (fun _ => rfl) rfl
        | false =>
            refine .same drive stop (fun drains => ?_) counts
            show d.loop.base.pass = c.loop.base.pass
            rw [pass, pass']
            exact same drains
      · rw [after_of_busy idle, after_of_busy (by rw [drive]; exact idle)]
        refine .same drive stop (fun drains => ?_) counts
        show d.loop.base.pass = c.loop.base.pass
        rw [pass, pass']
        exact same drains
  | counted once count ran drive drive' stop same counts resumed =>
      rw [after_of_busy (by rw [drive]; simp), after_of_busy (by rw [drive']; simp)]
      refine .counted once count ran drive drive' stop ?_ counts ?_
      · show d.loop.base.pass = c.loop.base.pass
        rw [pass, pass']
        exact same
      · show (c.loop.call n).outcomes ≠ []
        rw [call]
        exact resumed
  | alone once count ran drive drive' stop still counts runs =>
      have lonely : s.Lonely n := ⟨still, by rw [drive, ← counts]; rfl⟩
      obtain ⟨quiet, empty⟩ := h.still_iff.mp still
      obtain ⟨isTask', -⟩ := task_eq_some go
      have delays := (delays_of_bare bare (shared.2 lonely).2).at t.gettime
      obtain ⟨active, repeats⟩ := Core.active_task h.core.regular'.sound hd
        ((Core.Act.isTask_at _ _).trans isTask') delays
      have still' : (s.after a c).Still n := by
        rw [beside.still_iff, after_core]
        rw [empty] at active
        rw [quiet, or_self] at repeats
        exact ⟨repeats, List.sublist_nil.mp active⟩
      have resumed : (s.after a c).Resumed n ↔ s.Resumed n := by
        unfold Resumed
        rw [after_core, call]
      rw [after_of_busy (s := t) (by rw [drive']; simp)]
      rw [after_of_busy (s := s) (by rw [drive]; simp)] at still' resumed ⊢
      refine .alone once count ran drive drive' stop still' ?_ fun now => runs (resumed.mp now)
      rw [counts]
      exact if_congr resumed.symm rfl rfl

/-- A pass while another driver is in the loop. -/
theorem Abreast.woken (h : Beside n s t) (spent : s'.core.Spent n) {once : Bool}
    (drive' : t.drive = .looping once) (stop : t.eventBreak = s.eventBreak)
    {ready : List (Fd × Base.EpollReport)} {order : List EvId}
    (roomy : s.core.loop.base.Roomy (.call n))
    (hs : s.woken once ready order = some s') (ended : s'.Ended n) :
    (Beside n s' t ∧ Abreast n s' t) ∨ ∃ ready' order' t', t.woken once ready' order' = some t' ∧
      Beside n s' t' ∧ Abreast n s' t' := by
  obtain ⟨c, hc, eq⟩ := woken_eq_some hs
  by_cases alone : ∀ e ∈ s'.core.loop.base.activequeue, e = .call n
  · left
    have beside := h.skips hs alone
    refine ⟨beside, ?_⟩
    have quiet : s'.core.loop.base.repeating = none := by
      rw [← beside.core.without.base.repeating, h.core.without.base.repeating]
      exact (Core.pass_le hc).2
    by_cases empty : c.loop.base.activequeue = []
    · rw [if_pos empty] at eq
      rw [eq]
      exact .outside drive' (fun _ => stop) rfl
    · rw [if_neg empty] at eq
      -- the call is active, and so it has not been resumed
      have waiting : ¬ s'.Resumed n := by
        intro resumed
        obtain ⟨e, rest, queue⟩ := List.exists_cons_of_ne_nil empty
        have mem : e ∈ s'.core.loop.base.activequeue := by
          rw [eq]
          show e ∈ c.loop.base.activequeue
          rw [queue]
          exact List.mem_cons_self
        have own := alone e mem
        rw [own] at mem
        exact spent.not_queued resumed (Or.inr (Or.inr mem))
      refine .alone once 0 false (by rw [eq]) drive' (by rw [eq]; exact stop) ⟨quiet, alone⟩
        (if_neg waiting).symm fun resumed => absurd resumed waiting
  · right
    obtain ⟨t', go, beside, pass⟩ := h.passes roomy hs ended
    refine ⟨_, _, t', go, beside, ?_⟩
    obtain ⟨d, hd, eq'⟩ := woken_eq_some go
    have full : t'.core.loop.base.activequeue ≠ [] :=
      fun empty => alone (beside.alone_iff.mpr empty)
    have full' : s'.core.loop.base.activequeue ≠ [] := by
      intro empty
      refine alone fun e mem => ?_
      rw [empty] at mem
      cases mem
    have drive₁ : s'.drive = .draining once 0 false := by
      rw [eq] at full' ⊢
      exact if_neg full'
    have drive₂ : t'.drive = .draining once 0 false := by
      rw [eq'] at full ⊢
      exact if_neg full
    refine .same (by rw [drive₁, drive₂]) (fun _ => ?_) (fun _ => pass) fun _ _ _ drains => ?_
    · rw [eq, eq']
      exact stop
    · rw [drive₁] at drains
      cases drains
      exact fun ne => absurd rfl ne

/-- Two drivers that drain the queue are told to stop at once. -/
theorem Beside.stops (h : Beside n s t) {once once' : Bool} {count count' : Nat}
    {ran ran' : Bool} {r : Core.SysResult}
    (roomy : s.core.loop.base.Roomy (.call n)) (stop : (ran && s.eventBreak) = true)
    (stop' : (ran' && t.eventBreak) = true) (hs : s.next once count ran r = some s')
    (ended : s'.Ended n) :
    ∃ t', t.next once' count' ran' r = some t' ∧ Beside n s' t' ∧ Abreast n s' t' := by
  have repeating := h.core.without.base.repeating
  have idle : ∀ {c d : Core}, Abreast n { s with core := c, drive := .idle }
      { t with core := d, drive := .idle } := fun {c d} =>
    .outside rfl (fun ne => absurd rfl ne) rfl
  rcases next_eq_some hs with ⟨-, ⟨quiet, rfl⟩ | ⟨repeats, c, hc, rfl⟩⟩ | ⟨goes, -⟩
  · exact ⟨_, next_stops r stop' (repeating.trans quiet), h.drives _ _ _ _, idle⟩
  · have noPending : s.core.NoPending .breakSignal := by
      intro o closes
      cases closes
    obtain ⟨d, hd, lacks, pass, pass'⟩ := h.core_step noPending roomy List.not_mem_nil
      (fun _ _ _ eq => by cases eq) hc ended
    refine ⟨_, next_breaks stop' (by rw [repeating]; exact repeats) hd, ⟨lacks, h.clock, ?_⟩, idle⟩
    rw [pass, pass']
    exact h.past
  · exact absurd stop goes

/-- The callback of another event, in both loops. -/
theorem Beside.calls (h : Beside n s t) {once' : Bool} {count' : Nat} {ran' : Bool}
    {r : Core.SysResult} {c : Core} (roomy : s.core.loop.base.Roomy (.call n))
    (goes : ¬ (ran' && t.eventBreak) = true)
    (some_ : ¬ (s.core.loop.base.repeating = none ∧ s.core.loop.base.activequeue = []))
    (other : s.core.nextCall ≠ some n) (hc : s.core.step (.callback r) = some c)
    (ended : ∀ out ∈ (c.loop.call n).outcomes, out = .threw .timeout) :
    t.counts = s.counts ∧ ∃ d, c.loop.base.pass = s.core.loop.base.pass ∧
      d.loop.base.pass = t.core.loop.base.pass ∧ Core.Lacks n c d ∧
      t.next once' count' ran' r = some
        { t with
          core := d
          drive := .draining once' (if s.counts then count' + 1 else count') true } := by
  have base := h.core.without.base
  have noPending : s.core.NoPending (.callback r) := by
    intro o closes
    cases closes
  have stepped :=
    h.core_step noPending roomy List.not_mem_nil (fun _ _ _ eq => by cases eq) hc ended
  rw [show (Core.Act.callback r).without n s.core = some (.callback r) from if_neg other] at stepped
  obtain ⟨d, hd, lacks, pass, pass'⟩ := stepped
  have head : s.core.loop.base.repeating = none → ∃ e rest, e ≠ .call n ∧
      s.core.loop.base.activequeue = e :: rest := by
    intro quiet
    obtain ⟨e, rest, queue⟩ := List.exists_cons_of_ne_nil fun empty => some_ ⟨quiet, empty⟩
    refine ⟨e, rest, ?_, queue⟩
    rintro rfl
    exact other (Core.nextCall_of_queue quiet queue)
  have counts : t.counts = s.counts := by
    unfold System.counts
    rw [base.repeating]
    cases quiet : s.core.loop.base.repeating with
    | some x => rfl
    | none =>
        obtain ⟨e, rest, ne, queue⟩ := head quiet
        rw [(h.core.without.queue ne queue).1, queue]
        rfl
  have some' : ¬ (t.core.loop.base.repeating = none ∧ t.core.loop.base.activequeue = []) := by
    rintro ⟨quiet, empty⟩
    rw [base.repeating] at quiet
    obtain ⟨e, rest, ne, queue⟩ := head quiet
    rw [(h.core.without.queue ne queue).1] at empty
    cases empty
  refine ⟨counts, d, pass, pass', lacks, ?_⟩
  rw [next_calls goes some' hd, counts]

/-- Where nothing is active but the call, the callback to come is the call's. -/
theorem Still.nextCall (still : s.Still n)
    (some_ : ¬ (s.core.loop.base.repeating = none ∧ s.core.loop.base.activequeue = [])) :
    s.core.nextCall = some n := by
  obtain ⟨e, rest, queue⟩ := List.exists_cons_of_ne_nil fun empty => some_ ⟨still.1, empty⟩
  have eq : e = .call n := still.2 e (by rw [queue]; exact List.mem_cons_self)
  rw [eq] at queue
  exact Core.nextCall_of_queue still.1 queue

/-- The callback of the call itself, which comes in one loop only. -/
theorem Beside.fires (h : Beside n s t) (spent : s.core.Spent n) {r : Core.SysResult} {c : Core}
    (roomy : s.core.loop.base.Roomy (.call n)) (own : s.core.nextCall = some n)
    (hc : s.core.step (.callback r) = some c)
    (ended : ∀ out ∈ (c.loop.call n).outcomes, out = .threw .timeout) :
    Core.Lacks n c t.core ∧ c.loop.base.pass = s.core.loop.base.pass ∧ s.counts = true ∧
      (c.loop.call n).outcomes ≠ [] := by
  have noPending : s.core.NoPending (.callback r) := by
    intro o closes
    cases closes
  have stepped :=
    h.core_step noPending roomy List.not_mem_nil (fun _ _ _ eq => by cases eq) hc ended
  rw [show (Core.Act.callback r).without n s.core = none from if_pos own] at stepped
  obtain ⟨quiet, rest, queue⟩ := Core.queue_of_nextCall own
  refine ⟨stepped.1, stepped.2, ?_, ?_⟩
  · unfold System.counts
    rw [quiet, queue]
    rfl
  · exact Core.resumed_of_nextCall own spent.signal hc

/-- **A round of the queue**, where both drivers are at the same place. -/
theorem Beside.next_same (h : Beside n s t) (spent : s.core.Spent n) {once : Bool} {count : Nat}
    {ran : Bool} {r : Core.SysResult} (drive' : t.drive = .draining once count ran)
    (stop : t.eventBreak = s.eventBreak)
    (pass : t.core.loop.base.pass = s.core.loop.base.pass) (counted : count ≠ 0 → ran = true)
    (roomy : s.core.loop.base.Roomy (.call n)) (hs : s.next once count ran r = some s')
    (ended : s'.Ended n) :
    (Beside n s' t ∧ Abreast n s' t) ∨
      ∃ t', t.next once count ran r = some t' ∧ Beside n s' t' ∧ Abreast n s' t' := by
  rcases next_eq_some hs with ⟨stops, -⟩ | ⟨goes, ⟨⟨quiet, empty⟩, rfl⟩ | ⟨some_, c, hc, rfl⟩⟩
  · exact Or.inr (h.stops roomy stops (by rw [stop]; exact stops) hs ended)
  · have still := h.still_iff.mp ⟨quiet, fun e mem => by rw [empty] at mem; cases mem⟩
    exact Or.inr ⟨_, next_ends r (by rw [stop]; exact goes) still, h.drives _ _ _ _,
      .outside rfl (fun _ => stop) (draining_ite _ _)⟩
  · by_cases own : s.core.nextCall = some n
    · obtain ⟨lacks, same, counts, resumed⟩ := h.fires spent roomy own hc ended
      refine Or.inl ⟨⟨lacks, h.clock, by rw [same]; exact h.past⟩, ?_⟩
      refine .counted once count ran (by rw [counts]; rfl) drive' stop ?_ counted resumed
      rw [pass]
      exact same.symm
    · obtain ⟨counts, d, same, same', lacks, go⟩ :=
        h.calls roomy (by rw [stop]; exact goes) some_ own hc ended
      refine Or.inr ⟨_, go, ⟨lacks, h.clock, by rw [same, same']; exact h.past⟩, ?_⟩
      refine .same rfl (fun _ => stop) (fun _ => ?_) fun _ _ _ drains => ?_
      · show d.loop.base.pass = c.loop.base.pass
        rw [same, same', pass]
      · cases drains
        exact fun _ => rfl

/-- The loop that was told to stop has nothing left to do. -/
theorem iterate_stops {once : Bool} (stop : s.eventBreak = true) :
    s.iterate once [] [] = some { s with drive := .idle } := by
  unfold iterate
  rw [stop]
  rfl

/-- A round in which the callback of the call has been counted. -/
theorem Beside.next_counted (h : Beside n s t) (spent : s.core.Spent n) {once : Bool}
    {count : Nat} {ran : Bool} {r : Core.SysResult}
    (drive : s.drive = .draining once (count + 1) true)
    (drive' : t.drive = .draining once count ran)
    (stop : t.eventBreak = s.eventBreak)
    (pass : t.core.loop.base.pass = s.core.loop.base.pass) (counted : count ≠ 0 → ran = true)
    (resumed : s.Resumed n) (shared : s.Shared n (.next r))
    (roomy : s.core.loop.base.Roomy (.call n)) (hs : s.next once (count + 1) true r = some s')
    (ended : s'.Ended n) :
    ∃ bs t', StepSystem.run step t bs = some t' ∧ bs.filterMap Act.shown = [] ∧ Beside n s' t' ∧
      Abreast n s' t' := by
  have enabled : ∀ {t'}, t.next once count ran r = some t' → t.step (.next r) = some t' :=
    fun go => next_iff.mpr ⟨once, count, ran, drive', go⟩
  have one : ∀ {t'}, t.next once count ran r = some t' ∧ Beside n s' t' ∧ Abreast n s' t' →
      ∃ bs t', StepSystem.run step t bs = some t' ∧ bs.filterMap Act.shown = [] ∧ Beside n s' t' ∧
        Abreast n s' t' := by
    rintro t' ⟨go, beside, ab⟩
    exact ⟨[.next r], t', StepSystem.run_cons_eq_some.mpr ⟨t', enabled go, rfl⟩, rfl, beside, ab⟩
  -- what is asked for is asked for when the call's is the only callback that was counted
  have asked : count = 0 → if s.Still n then once = false ∨ s.eventBreak = true
      else s.eventBreak = false := by
    rintro rfl
    have ok := shared resumed 1 (by rw [drive]; rfl) Nat.one_lt_two
    rw [drive] at ok
    exact ok
  rcases next_eq_some hs with ⟨stops, ends⟩ | ⟨goes, ⟨empty, rfl⟩ | ⟨some_, c, hc, rfl⟩⟩
  · have broken : s.eventBreak = true := stops
    cases ran with
    | true =>
        have stops' : (true && t.eventBreak) = true := stop.trans broken
        have go : ∃ t', t.next once count true r = some t' ∧ Beside n s' t' ∧ Abreast n s' t' :=
          h.stops roomy stops stops' hs ended
        obtain ⟨t', rest⟩ := go
        exact one rest
    | false =>
        have zero : count = 0 := by
          by_contra ne
          cases counted ne
        have asked := asked zero
        by_cases still : s.Still n
        · -- without the call the driver looks for more, and finds that it has been told to stop
          rcases ends with ⟨-, rfl⟩ | ⟨repeats, -⟩
          · have go := enabled (next_ends r (by simp) (h.still_iff.mp still))
            simp only [zero, bne_self_eq_false, Bool.and_false, if_neg Bool.false_ne_true] at go
            refine ⟨[.next r, .iterate [] []], { t with drive := .idle },
              StepSystem.run_cons_eq_some.mpr ⟨_, go, StepSystem.run_cons_eq_some.mpr ⟨_, ?_, rfl⟩⟩,
              rfl, h.drives _ _ _ _, .outside rfl (fun ne => absurd rfl ne) rfl⟩
            exact iterate_iff.mpr ⟨once, rfl, iterate_stops (stop.trans broken)⟩
          · rw [still.1] at repeats
            cases repeats
        · rw [if_neg still, broken] at asked
          cases asked
  · have still : s.Still n := ⟨empty.1, fun e mem => by rw [empty.2] at mem; cases mem⟩
    have unbroken : s.eventBreak = false := by simpa using goes
    have goes' : ¬ (ran && t.eventBreak) = true := by
      rw [stop, unbroken, Bool.and_false]
      exact Bool.false_ne_true
    refine one ⟨next_ends r goes' (h.still_iff.mp still), h.drives _ _ _ _,
      .outside ?_ (fun _ => stop) (draining_ite _ _)⟩
    by_cases zero : count = 0
    · have asked := asked zero
      rw [if_pos still, unbroken] at asked
      rw [asked.resolve_right Bool.false_ne_true]
      rfl
    · have some_ : (count != 0) = true := bne_iff_ne.mpr zero
      have some_' : (count + 1 != 0) = true := bne_iff_ne.mpr (Nat.succ_ne_zero count)
      rw [some_, some_']
  · have unbroken : s.eventBreak = false := by simpa using goes
    have goes' : ¬ (ran && t.eventBreak) = true := by
      rw [stop, unbroken, Bool.and_false]
      exact Bool.false_ne_true
    have other : s.core.nextCall ≠ some n := fun own =>
      spent.not_queued resumed (Core.queued_of_nextCall own)
    obtain ⟨counts, d, same, same', lacks, go⟩ := h.calls roomy goes' some_ other hc ended
    refine one ⟨go, ⟨lacks, h.clock, by rw [same, same']; exact h.past⟩, ?_⟩
    refine .counted once (if s.counts then count + 1 else count) true ?_ rfl stop ?_
      (fun _ => rfl) ?_
    · cases s.counts <;> rfl
    · show d.loop.base.pass = c.loop.base.pass
      rw [same, same', pass]
    · show (c.loop.call n).outcomes ≠ []
      rw [(Core.resumed_step spent.sound hc spent.made spent.signal resumed).2]
      exact resumed

/-- A round of a pass that is made only for the call. -/
theorem Beside.next_alone (h : Beside n s t) (spent : s.core.Spent n) {once : Bool}
    {count : Nat} {ran : Bool} {r : Core.SysResult} (drive : s.drive = .draining once count ran)
    (drive' : t.drive = .looping once) (stop : t.eventBreak = s.eventBreak) (still : s.Still n)
    (counts : count = if s.Resumed n then 1 else 0) (runs : s.Resumed n → ran = true)
    (shared : s.Shared n (.next r)) (roomy : s.core.loop.base.Roomy (.call n))
    (hs : s.next once count ran r = some s') (ended : s'.Ended n) :
    ∃ bs t', StepSystem.run step t bs = some t' ∧ bs.filterMap Act.shown = [] ∧ Beside n s' t' ∧
      Abreast n s' t' := by
  rcases next_eq_some hs with ⟨stops, ends⟩ | ⟨goes, ⟨empty, rfl⟩ | ⟨some_, c, hc, rfl⟩⟩
  · have broken : t.eventBreak = true := by
      rw [stop]
      exact (Bool.and_eq_true_iff.mp stops).2
    rcases ends with ⟨-, rfl⟩ | ⟨repeats, -⟩
    · refine ⟨[.iterate [] []], { t with drive := .idle },
        StepSystem.run_cons_eq_some.mpr ⟨_, ?_, rfl⟩, rfl, h.drives _ _ _ _,
        .outside rfl (fun ne => absurd rfl ne) rfl⟩
      exact iterate_iff.mpr ⟨once, drive', iterate_stops broken⟩
    · rw [still.1] at repeats
      cases repeats
  · refine ⟨[], t, rfl, rfl, h.drives _ t.drive _ t.eventBreak, .outside ?_ (fun _ => stop)
      (draining_ite _ _)⟩
    rw [drive']
    by_cases resumed : s.Resumed n
    · rw [if_pos resumed] at counts
      have asked := shared resumed count (by rw [drive]; rfl) (by omega)
      rw [if_pos still, drive] at asked
      have unbroken : ¬ s.eventBreak = true := by
        rw [runs resumed, Bool.true_and] at goes
        exact goes
      have once' : once = false := asked.resolve_right unbroken
      rw [once']
      rfl
    · rw [if_neg resumed] at counts
      rw [counts, show ((0 : Nat) != 0) = false from rfl, Bool.and_false]
      rfl
  · have own := still.nextCall some_
    have waiting : ¬ s.Resumed n := fun resumed =>
      spent.not_queued resumed (Core.queued_of_nextCall own)
    obtain ⟨lacks, same, counted, resumed⟩ := h.fires spent roomy own hc ended
    have beside : Beside n
        { s with core := c, drive := .draining once (if s.counts then count + 1 else count) true }
        t := ⟨lacks, h.clock, by rw [same]; exact h.past⟩
    refine ⟨[], t, rfl, rfl, beside, .alone once _ true rfl drive' stop
      (beside.still_iff.mpr (h.still_iff.mp still)) ?_ fun _ => rfl⟩
    have resumed' : Resumed n
        { s with
          core := c
          drive := .draining once (if s.counts then count + 1 else count) true } :=
      resumed
    rw [if_pos resumed', counted, counts, if_neg waiting]
    rfl

/-- The loop is entered, if nobody drives it. -/
theorem Abreast.enter (ab : Abreast n s t) (once : Bool) :
    Abreast n (s.enter once) (t.enter once) := by
  have busy : s.drive ≠ .idle → t.drive ≠ .idle → Abreast n (s.enter once) (t.enter once) := by
    intro busy busy'
    rw [enter_of_busy busy, enter_of_busy busy']
    exact ab
  cases ab with
  | same drive =>
      by_cases idle : s.drive = .idle
      · rw [enter_of_idle idle, enter_of_idle (drive.trans idle)]
        exact .outside rfl (fun _ => rfl) rfl
      · exact busy idle (by rw [drive]; exact idle)
  | counted _ _ _ drive drive' => exact busy (by rw [drive]; simp) (by rw [drive']; simp)
  | alone _ _ _ drive drive' => exact busy (by rw [drive]; simp) (by rw [drive']; simp)

theorem Abreast.stopped (ab : Abreast n s t) :
    Abreast n { s with eventBreak := true } { t with eventBreak := true } := by
  cases ab with
  | same drive _ pass counts => exact .same drive (fun _ => rfl) pass counts
  | counted once count ran drive drive' _ pass counts resumed =>
      exact .counted once count ran drive drive' rfl pass counts resumed
  | alone once count ran drive drive' _ still counts runs =>
      exact .alone once count ran drive drive' rfl still counts runs

theorem Abreast.tick (ab : Abreast n s t) (clock : Timeval) :
    Abreast n { s with clock } { t with clock } := by
  cases ab with
  | same drive stop pass counts => exact .same drive stop pass counts
  | counted once count ran drive drive' stop pass counts resumed =>
      exact .counted once count ran drive drive' stop pass counts resumed
  | alone once count ran drive drive' stop still counts runs =>
      exact .alone once count ran drive drive' stop still counts runs

/-- A driver that waits in the loop is at the same place without the call. -/
theorem Abreast.looping (ab : Abreast n s t) {once : Bool} (drive : s.drive = .looping once) :
    t.drive = .looping once ∧ t.eventBreak = s.eventBreak := by
  cases ab with
  | same drive' stop => exact ⟨drive'.trans drive, stop (by rw [drive]; simp)⟩
  | counted _ _ _ drive' =>
      rw [drive] at drive'
      cases drive'
  | alone _ _ _ drive' =>
      rw [drive] at drive'
      cases drive'

theorem spent_step {a : Act} (spent : s.core.Spent n) (hs : s.step a = some s') :
    s'.core.Spent n := by
  rcases step_core hs with same | ⟨b, hb⟩
  · rw [same]
    exact spent
  · exact spent.step hb

/-- A step is matched by one that shows the same. -/
theorem matched_one {R : System → Prop} {a b : Act} (go : t.step b = some t')
    (same : Act.shown b = Act.shown a) (related : R t') :
    ∃ bs t', StepSystem.run System.step t bs = some t' ∧
      bs.filterMap Act.shown = (Act.shown a).toList ∧ R t' := by
  refine ⟨[b], t', StepSystem.run_cons_eq_some.mpr ⟨t', go, rfl⟩, ?_, related⟩
  rw [List.filterMap_cons, same]
  cases Act.shown a <;> rfl

/-- A step that shows nothing is matched by none. -/
theorem matched_none {R : System → Prop} {a : Act} (hidden : Act.shown a = none) (related : R t) :
    ∃ bs t', StepSystem.run System.step t bs = some t' ∧
      bs.filterMap Act.shown = (Act.shown a).toList ∧ R t' := by
  rw [hidden]
  exact ⟨[], t, rfl, rfl, related⟩

/-- **One step while another driver is in the loop**, or nobody is, with the call and without. -/
theorem Abreast.step (ab : Abreast n s t) (h : Beside n s t) (spent : s.core.Spent n) {a : Act}
    (ok : s.NoPending a) (roomy : s.core.loop.base.Roomy (.call n)) (shared : s.Shared n a)
    (hs : s.step a = some s') (ended : s'.Ended n) :
    ∃ bs t', StepSystem.run System.step t bs = some t' ∧
      bs.filterMap Act.shown = (Act.shown a).toList ∧ Beside n s' t' ∧ Abreast n s' t' := by
  have spent' := spent_step spent hs
  cases a with
  | task a =>
      obtain ⟨b, t', go, bare, beside, ab⟩ := ab.task h spent ok roomy shared hs ended
      refine matched_one go ?_ ⟨beside, ab⟩
      show some (Act.task b.bare) = some (Act.task a.bare)
      rw [bare]
  | runOnce =>
      obtain ⟨alive, eq⟩ := Option.ite_none_right_eq_some.mp hs
      cases eq
      exact matched_one (b := .runOnce) (if_pos (h.alive.trans alive)) rfl
        ⟨h.enter true, ab.enter true⟩
  | run =>
      obtain ⟨alive, eq⟩ := Option.ite_none_right_eq_some.mp hs
      cases eq
      exact matched_one (b := .run) (if_pos (h.alive.trans alive)) rfl
        ⟨h.enter false, ab.enter false⟩
  | stop =>
      obtain ⟨alive, eq⟩ := Option.ite_none_right_eq_some.mp hs
      cases eq
      exact matched_one (b := .stop) (if_pos (h.alive.trans alive)) rfl
        ⟨h.drives _ _ _ _, ab.stopped⟩
  | tick clock =>
      obtain ⟨later, eq⟩ := Option.ite_none_right_eq_some.mp hs
      cases eq
      have later' : t.clock ≤ clock := by
        rw [h.clock]
        exact later
      exact matched_one (b := .tick clock) (if_pos later') rfl ⟨h.tick later, ab.tick clock⟩
  | iterate ready order =>
      obtain ⟨once, drive, hs⟩ := iterate_iff.mp hs
      obtain ⟨drive', stop⟩ := ab.looping drive
      rw [System.iterate] at hs
      by_cases ends : (s.eventBreak || s.exhausted) = true
      · rw [if_pos ends] at hs
        cases hs
        have ends' : (t.eventBreak || t.exhausted) = true := by
          rw [Bool.or_eq_true] at ends ⊢
          exact ends.imp stop.trans h.exhausted
        exact matched_one (b := .iterate [] []) (iterate_iff.mpr ⟨once, drive', if_pos ends'⟩) rfl
          ⟨h.drives _ _ _ _, .outside rfl (fun ne => absurd rfl ne) rfl⟩
      · rw [if_neg ends] at hs
        have waits : ¬ (t.eventBreak || t.exhausted) = true := by
          rw [Bool.or_eq_true, not_or] at ends ⊢
          have awaits : s.Awaits n := shared
          rcases awaits (by unfold draining; rw [drive]) with idle | broken | empty | waits
          · rw [drive] at idle
            cases idle
          · exact absurd broken ends.1
          · exact absurd empty ends.2
          · rw [stop, h.not_exhausted waits]
            exact ⟨ends.1, Bool.false_ne_true⟩
        rcases Abreast.woken h spent' drive' stop roomy hs ended with
          related | ⟨ready', order', t', go, related⟩
        · exact matched_none rfl related
        · exact matched_one (b := .iterate ready' order')
            (iterate_iff.mpr ⟨once, drive', (if_neg waits).trans go⟩) rfl related
  | woken ready order =>
      obtain ⟨once, drive, hs⟩ := woken_iff.mp hs
      obtain ⟨drive', stop⟩ := ab.looping drive
      rcases Abreast.woken h spent' drive' stop roomy hs ended with
        related | ⟨ready', order', t', go, related⟩
      · exact matched_none rfl related
      · exact matched_one (b := .woken ready' order') (woken_iff.mpr ⟨once, drive', go⟩) rfl related
  | pollFails =>
      obtain ⟨once, drive, rfl⟩ := pollFails_iff.mp hs
      obtain ⟨drive', -⟩ := ab.looping drive
      exact matched_one (b := .pollFails) (pollFails_iff.mpr ⟨once, drive', rfl⟩) rfl
        ⟨h.drives _ _ _ _, .outside rfl (fun ne => absurd rfl ne) rfl⟩
  | next r =>
      obtain ⟨once, count, ran, drive, hs⟩ := next_iff.mp hs
      cases ab with
      | same drive' stop pass counts =>
          have stop := stop (by rw [drive]; simp)
          have pass := pass (by unfold draining; rw [drive])
          have drive' := drive'.trans drive
          rcases h.next_same spent drive' stop pass (counts _ _ _ drive) roomy hs ended with
            related | ⟨t', go, related⟩
          · exact matched_none rfl related
          · exact matched_one (b := .next r) (next_iff.mpr ⟨once, count, ran, drive', go⟩) rfl
              related
      | counted once' count' ran' here drive' stop pass counts resumed =>
          have at_ := drive.symm.trans here
          cases at_
          exact h.next_counted spent drive drive' stop pass counts resumed shared roomy hs ended
      | alone once' count' ran' here drive' stop still counts runs =>
          have at_ := drive.symm.trans here
          cases at_
          exact h.next_alone spent drive drive' stop still counts runs shared roomy hs ended

/-! ## The call's own driver -/

/-- A round of the call's own driver. -/
theorem Beside.next_own (h : Beside n s t) (spent : s.core.Spent n) {once : Bool} {count : Nat}
    {ran : Bool} {r : Core.SysResult} (still : s.Still n)
    (roomy : s.core.loop.base.Roomy (.call n)) (hs : s.next once count ran r = some s')
    (ended : s'.Ended n) : Beside n s' t := by
  rcases next_eq_some hs with ⟨-, ⟨-, rfl⟩ | ⟨repeats, -⟩⟩ | ⟨-, ⟨-, rfl⟩ | ⟨some_, c, hc, rfl⟩⟩
  · exact h.drives _ t.drive _ t.eventBreak
  · rw [still.1] at repeats
    cases repeats
  · exact h.drives _ t.drive _ t.eventBreak
  · obtain ⟨lacks, same, -⟩ := h.fires spent roomy (still.nextCall some_) hc ended
    exact ⟨lacks, h.clock, by rw [same]; exact h.past⟩

/-- **One step while the call's own `runOnce()` drives the loop**, and nobody without it. -/
theorem Beside.step_own (h : Beside n s t) (idle : t.drive = .idle) (spent : s.core.Spent n)
    {a : Act} (ok : s.NoPending a) (roomy : s.core.loop.base.Roomy (.call n)) (own : s.Own n a)
    (hs : s.step a = some s') (ended : s'.Ended n) (still : s'.drive ≠ .idle → s'.Still n) :
    ∃ bs t', StepSystem.run System.step t bs = some t' ∧
      bs.filterMap Act.shown = (Act.shown a).toList ∧ Beside n s' t' ∧ t'.drive = .idle := by
  have pass : ∀ {once ready order}, s.woken once ready order = some s' → Beside n s' t := by
    intro once ready order hs
    refine h.skips hs (still ?_).2
    obtain ⟨c, -, rfl⟩ := woken_eq_some hs
    dsimp only
    split
    · simp
    · simp
  cases a with
  | task a =>
      obtain ⟨isTask, -, _, hc, -⟩ := task_eq_some hs
      have new : n ∉ a.names := by
        have new := Core.names_unmade hc spent.made
        rw [Core.Act.names_at] at new
        exact new
      obtain ⟨still, drives, time⟩ := own
      have outside : t.draining = false := by
        unfold draining
        rw [idle]
      have time : a.at s.gettime = a.at t.gettime := by
        rw [gettime_of_not_draining outside, h.clock]
        exact time
      obtain ⟨b, c, d, -, rfl, go, bare, drives', -, beside, -⟩ :=
        h.task ok roomy new time (fun _ => idle) hs ended
      refine matched_one go ?_ ⟨beside, ?_⟩
      · show some (Act.task b.bare) = some (Act.task a.bare)
        rw [bare]
      · rw [after_of_idle idle, drives', drives]
        exact idle
  | runOnce => cases own
  | run => cases own
  | stop =>
      obtain ⟨alive, eq⟩ := Option.ite_none_right_eq_some.mp hs
      cases eq
      exact matched_one (b := .stop) (if_pos (h.alive.trans alive)) rfl
        ⟨h.drives _ _ _ _, idle⟩
  | tick clock =>
      obtain ⟨later, eq⟩ := Option.ite_none_right_eq_some.mp hs
      cases eq
      have later' : t.clock ≤ clock := by
        rw [h.clock]
        exact later
      exact matched_one (b := .tick clock) (if_pos later') rfl ⟨h.tick later, idle⟩
  | iterate ready order =>
      obtain ⟨once, -, hs⟩ := iterate_iff.mp hs
      refine matched_none rfl ⟨?_, idle⟩
      rw [System.iterate] at hs
      split at hs
      · cases hs
        exact h.drives _ t.drive _ t.eventBreak
      · exact pass hs
  | woken ready order =>
      obtain ⟨once, -, hs⟩ := woken_iff.mp hs
      exact matched_none rfl ⟨pass hs, idle⟩
  | pollFails =>
      obtain ⟨once, -, rfl⟩ := pollFails_iff.mp hs
      exact matched_none rfl ⟨h.drives _ t.drive _ t.eventBreak, idle⟩
  | next r =>
      obtain ⟨once, count, ran, -, hs⟩ := next_iff.mp hs
      exact matched_none rfl ⟨h.next_own spent own roomy hs ended, idle⟩

end System

end SwiftEvent
