import SwiftEvent.Deadline
import SwiftEvent.Waits

/-!
# No timer is early by the time of the loop

When a closure passed to `schedule` is invoked, a `sleep` resumed, or a `connect`,
`read` or `write` told that its time is over, the clock stands at what `gettime`
answered at the call, plus the duration, or later (`timers_not_early`).

`gettime` may lag behind the clock, and a timer is early by that much:

* Inside a pass it answers with the time the pass began, however long the callbacks
  have taken since (`early_after_slow_callback`).
* Elsewhere it reads `CLOCK_MONOTONIC_COARSE`, which falls behind `CLOCK_MONOTONIC`
  between two ticks of the kernel.

### The argument

As long as the clock stands before the deadline, the call is not *due*: its event
is not active by its timeout, and what stands on the heap is not before the
deadline (`Core.Undue`).  Only a pass makes events active by their timeout, and it
compares with the clock.
-/

namespace SwiftEvent

namespace Core

/-- The call a label makes with a timeout, and the timeout. -/
def Act.timed : Act → Option (Nat × Duration)
  | .connect n _ _ timeout _ _ => timeout.map fun d => (n, d)
  | .read n _ timeout _ _ => timeout.map fun d => (n, d)
  | .write n _ _ timeout _ _ => timeout.map fun d => (n, d)
  | .schedule n _ duration _ _ _ => some (n, duration)
  | _ => none

variable {c c' : Core} {a : Act} {n : Nat} {D : Int} {d : Duration} {now : Timeval}
  {P : Timeval → Prop}

/-- The deadline a label sets. -/
def Act.sets : Act → Option Timeval
  | .connect _ _ _ timeout _ now => timeout.map (deadline now)
  | .read _ _ timeout _ now => timeout.map (deadline now)
  | .write _ _ _ timeout _ now => timeout.map (deadline now)
  | .schedule _ _ duration _ _ now => some (deadline now duration)
  | _ => none

theorem Act.sets_at (now : Timeval) (a : Act) :
    (a.at now).sets = a.timed.map fun call => deadline now call.2 := by
  cases a with
  | connect _ _ _ timeout _ _ => cases timeout <;> rfl
  | read _ _ timeout _ _ => cases timeout <;> rfl
  | write _ _ _ timeout _ _ => cases timeout <;> rfl
  | _ => rfl

/-- Every pending timer has a deadline of some kind. -/
def Ends (P : Timeval → Prop) (c : Core) : Prop :=
  ∀ e ∈ c.loop.base.timeheap, P (c.loop.base.ev e).evTimeout

theorem Ends.mono (h : c.Ends P) (heap : ∀ e ∈ c'.loop.base.timeheap, e ∈ c.loop.base.timeheap)
    (ev : ∀ e ∈ c'.loop.base.timeheap,
      (c'.loop.base.ev e).evTimeout = (c.loop.base.ev e).evTimeout) : c'.Ends P := by
  intro e mem
  rw [ev e mem]
  exact h e (heap e mem)

/-- The events on the heap are not new. -/
theorem ne_of_timeheap (sound : c.loop.Sound) (new : n ∉ c.loop.made) {e : EvId}
    (mem : e ∈ c.loop.base.timeheap) : e ≠ .call n := by
  rintro rfl
  exact sound.not_queued new (Or.inr (Or.inl mem))

theorem Ends.withTimeout (h : c.Ends P) {b : Base} (tv : Option Timeval)
    (heap : ∀ e ∈ b.timeheap, e ∈ c.loop.base.timeheap ∧
      (b.ev e).evTimeout = (c.loop.base.ev e).evTimeout)
    (apart : EvId.call n ∉ b.timeheap) (fresh : ∀ t ∈ tv, P (evutilTimeradd now t)) :
    (c.withBase (b.withTimeout now (.call n) tv)).Ends P := by
  cases tv with
  | none =>
      intro e mem
      have mem : e ∈ b.timeheap := mem
      show P (b.ev e).evTimeout
      rw [(heap e mem).2]
      exact h e (heap e mem).1
  | some t =>
      intro e mem
      rcases List.mem_cons.mp mem with rfl | mem
      · simpa [withBase, Base.withTimeout] using fresh t rfl
      · have ne : e ≠ .call n := by
          rintro rfl
          exact apart mem
        have same := (heap e mem).2
        simpa [withBase, Base.withTimeout, ne, same] using h e (heap e mem).1

theorem Ends.startIo (h : c.Ends P) (sound : c.loop.Sound) (new : n ∉ c.loop.made) {w : World}
    (call : Call) (fd : Fd) {events : Evs} {timeout : Option Duration} (env : Base.AddEnv)
    (io : events.isIo = true) (fresh : ∀ t ∈ timeout.map (deadline now), P t) :
    (startIo { c with world := w } n call fd events timeout env now).Ends P := by
  have notQueued := sound.not_queued new
  have apart : ∀ e ∈ c.loop.base.timeheap, ((c.eventBase n { evFd := fd, evEvents := events }).ev
      e).evTimeout = (c.loop.base.ev e).evTimeout := by
    intro e mem
    simp [eventBase, ne_of_timeheap sound new mem]
  rw [startIo_eq { c with world := w } call fd timeout env now notQueued io]
  dsimp only
  split
  · refine h.withTimeout (timeout.map timevalFor) (fun e mem => ⟨mem, apart e mem⟩)
      (fun mem => notQueued (Or.inr (Or.inl mem))) fun t eq => ?_
    obtain ⟨d, rfl, rfl⟩ := Option.map_eq_some_iff.mp eq
    exact fresh _ rfl
  · exact h.mono (fun _ mem => mem) apart

theorem Ends.schedule (h : c.Ends P) (sound : c.loop.Sound) (new : n ∉ c.loop.made) (kind : Kind)
    (nomem : Bool) (env : Base.AddEnv) (fresh : P (deadline now d)) :
    (c.schedule n kind d nomem env now).Ends P := by
  have notQueued := sound.not_queued new
  have apart : ∀ e ∈ c.loop.base.timeheap, ((c.eventBase n {}).ev e).evTimeout =
      (c.loop.base.ev e).evTimeout := by
    intro e mem
    simp [eventBase, ne_of_timeheap sound new mem]
  rcases schedule_cases c kind d nomem env now notQueued with ⟨b, rfl | rfl, eq⟩ | ⟨-, eq⟩ | ⟨-, eq⟩
  · rw [eq]
    exact h
  · rw [eq]
    exact h.mono (fun _ mem => mem) apart
  · rw [eq]
    refine h.withTimeout (some (timevalFor d)) (fun e mem => ⟨mem, apart e mem⟩)
      (fun mem => notQueued (Or.inr (Or.inl mem))) fun t eq => ?_
    cases eq
    exact fresh
  · rw [eq]
    refine h.mono (fun e mem => by simpa [record, withBase, eventBase] using mem) fun e mem => ?_
    have mem : e ∈ c.loop.base.timeheap := by simpa [record, withBase, eventBase] using mem
    show (((c.eventBase n {}).eventActiveNolock _ _ _).ev e).evTimeout = _
    rw [Base.eventActiveNolock_ev_of_ne _ (ne_of_timeheap sound new mem)]
    exact apart e mem

/-- **Only calls with a timeout set deadlines.** -/
theorem Ends.step (h : c.Ends P) (sound : c.loop.Sound) (hs : c.step a = some c')
    (fresh : ∀ t ∈ a.sets, P t) : c'.Ends P := by
  by_cases drives : a.drives = true
  · cases a with
    | connect m address r timeout env now =>
        obtain ⟨alive, new, hs⟩ := whenNew_eq_some hs
        cases r with
        | inProgress fd =>
            unfold connect at hs
            dsimp only at hs
            split at hs
            · cases hs
              exact h.startIo sound new _ fd env rfl fresh
            · cases hs
        | _ => cases drives
    | read m o timeout env now =>
        obtain ⟨alive, new, hs⟩ := whenNew_eq_some hs
        obtain ⟨x, hx, rfl⟩ := Option.map_eq_some_iff.mp hs
        exact h.startIo sound new _ x.fd env rfl fresh
    | write m o data timeout env now =>
        obtain ⟨alive, new, hs⟩ := whenNew_eq_some hs
        obtain ⟨x, hx, rfl⟩ := Option.map_eq_some_iff.mp hs
        exact h.startIo sound new _ x.fd env rfl fresh
    | accept m o env now =>
        obtain ⟨alive, new, hs⟩ := whenNew_eq_some hs
        obtain ⟨x, hx, rfl⟩ := Option.map_eq_some_iff.mp hs
        exact h.startIo sound new _ x.fd env rfl fun t none => nomatch none
    | schedule m sleeps duration nomem env now =>
        obtain ⟨alive, new, hs⟩ := whenNew_eq_some hs
        cases hs
        exact h.schedule sound new _ nomem env (fresh _ rfl)
    | _ => cases drives
  cases step_cases hs with
  | start _ starts => exact absurd starts drives
  | schedule m sleeps duration nomem env now alive new =>
      exact h.schedule sound new _ nomem env (fresh _ rfl)
  | signalStream args c' alive hc =>
      refine (signalStream_rounds (P := fun d => d.Ends P) sound alive hc h
        (fun d arg d' _ streaming same hs => ?_)).2.2
      obtain ⟨new, rfl | ⟨added, b, add, rfl⟩⟩ := signalOne_cases hs streaming.sound.not_queued
      · exact same
      · refine same.mono (fun e mem => ?_) fun e mem => ?_
        · obtain ⟨_, _, rfl | ⟨-, -, -, rfl⟩⟩ := Base.evmapSignalAdd_cases add
          · exact mem
          · exact mem
        · obtain ⟨_, _, rfl | ⟨-, -, -, rfl⟩⟩ := Base.evmapSignalAdd_cases add
          all_goals
            have ne := ne_of_timeheap streaming.sound new mem
            simp [append, record, withBase, eventBase, ne]
  | tearDown r alive opened =>
      refine tearDown_induct (P := fun d => d.Ends P) h
        (fun d m same _ => ?_) (fun d reg same => same)
      refine same.mono (fun e mem => ?_) fun e mem => ?_
      · simp only [tearDownOne, withCall, withBase, Base.eventDelNolock_timeheap] at mem
        exact (mem_unlink.mp mem).1
      · simp [tearDownOne, withCall, withBase]
  | dispatch ready now order b alive reports later quiet hb =>
      obtain ⟨d, act, exp, -⟩ := Base.dispatchPass_eq_some hb
      refine h.mono (fun e mem => ?_) fun e mem => (exp.deadline e).trans (act.deadline e)
      have mem : e ∈ d.timeheap := exp.timeheap.subset mem
      rwa [act.timeheap] at mem
  | pipe r rest alive quiet queue =>
      have act := Base.activates_evsigCb { c.loop.base with activequeue := rest }
      refine h.mono (fun e mem => ?_) fun e mem => act.deadline e
      simpa [withBase, act.timeheap] using mem
  | fire r m rest fx alive quiet queue sig body =>
      refine h.mono (fun e mem => ?_) fun e mem => ?_
      · simp only [fired, withCall, withBase, Base.eventDelNolock_timeheap] at mem
        exact (mem_unlink.mp mem).1
      · simp [fired, withCall, withBase]
  | free w alive torn hw =>
      intro e mem
      simp [freed] at mem
  | _ => exact h
/-- The event of the call is not active by its timeout, and not on the heap with a
deadline before `D`. -/
structure Undue (c : Core) (n : Nat) (D : Int) : Prop where
  quiet : (c.loop.base.ev (.call n)).evEvents.signal = false
  heap : .call n ∈ c.loop.base.timeheap →
    (c.loop.base.ev (.call n)).evTimeout.Normal ∧
      D ≤ (c.loop.base.ev (.call n)).evTimeout.micros
  active : .call n ∈ c.loop.base.activequeue →
    (c.loop.call n).kind.isIo = true ∧ (c.loop.base.ev (.call n)).evRes.timeout = false
  timer : (c.loop.call n).kind.isIo = false → .call n ∉ c.loop.base.inserted

theorem Undue.kept (h : c.Undue n D) (kept : c.Kept c' n) : c'.Undue n D := by
  refine ⟨?_, ?_, ?_, ?_⟩
  · rw [kept.ev]; exact h.quiet
  · rw [kept.timeheap, kept.ev]; exact h.heap
  · rw [kept.active, kept.call, kept.ev]; exact h.active
  · rw [kept.inserted, kept.call]; exact h.timer

/-- A pass before the deadline finds nothing due. -/
theorem Undue.dispatchPass (h : c.Undue n D) {b : Base} {ready : List (Fd × Base.EpollReport)}
    {order : List EvId} (normal : now.Normal) (early : now.micros < D)
    (hb : c.loop.base.dispatchPass c.opened ready now order = some b) :
    (c.withBase b).Undue n D := by
  obtain ⟨d, act, exp, -⟩ := Base.dispatchPass_eq_some hb
  have quiet := (Event.shape_eq (Base.shape_dispatchPass hb (.call n))).2.1
  have deadline : (b.ev (.call n)).evTimeout = (c.loop.base.ev (.call n)).evTimeout :=
    (exp.deadline (.call n)).trans (act.deadline (.call n))
  rcases exp.moved (.call n) with ⟨inserted, heap, active, ev⟩ | ⟨heap, due, -⟩
  · have inserted : .call n ∈ b.inserted ↔ .call n ∈ c.loop.base.inserted := by
      rw [inserted]
      exact iff_of_eq (by rw [act.inserted])
    have heap : .call n ∈ b.timeheap ↔ .call n ∈ c.loop.base.timeheap := by
      rw [heap]
      exact iff_of_eq (by rw [act.timeheap])
    refine ⟨?_, fun mem => ?_, fun mem => ?_, fun timer mem => ?_⟩
    · simp only [withBase, quiet]; exact h.quiet
    · simp only [withBase, deadline]
      exact h.heap (heap.mp mem)
    · -- it may have become ready, which is for descriptors only
      have mem : .call n ∈ d.activequeue := active.mp mem
      have io : (c.loop.call n).kind.isIo = true := by
        by_contra timer
        rcases act.active _ mem with was | inserted
        · exact timer (h.active was).1
        · exact h.timer (by simpa using timer) inserted
      refine ⟨io, ?_⟩
      by_contra res
      have res : (b.ev (.call n)).evRes.timeout = true := by simpa [withBase] using res
      rw [ev] at res
      obtain ⟨was, res⟩ := act.unexpired _ mem res
      rw [(h.active was).2] at res
      cases res
    · exact h.timer timer (inserted.mp mem)
  · -- it would have to be due
    have heap : .call n ∈ c.loop.base.timeheap := by
      have heap : .call n ∈ d.timeheap := heap
      rwa [act.timeheap] at heap
    have due : (c.loop.base.ev (.call n)).evTimeout ≤ now := by
      rw [← act.deadline]
      exact due
    obtain ⟨normal', late⟩ := h.heap heap
    rw [Timeval.le_iff_micros normal' normal] at due
    omega

/-- **A step before the deadline leaves the call undue.** -/
theorem Undue.step (h : c.Undue n D) (sound : c.loop.Sound) (made : n ∈ c.loop.made)
    (signal : (c.loop.call n).kind.isSignal = false) (hs : c.step a = some c')
    (early : ∀ ready now order, a = .dispatch ready now order → now.Normal ∧ now.micros < D)
    (queued : c'.loop.base.Queued (.call n)) : c'.Undue n D := by
  by_cases pass : ∃ ready now order, a = .dispatch ready now order
  · obtain ⟨ready, now, order, rfl⟩ := pass
    obtain ⟨normal, early⟩ := early ready now order rfl
    cases step_cases hs with
    | dispatch _ _ _ b alive reports later quiet hb => exact h.dispatchPass normal early hb
    | start _ drives => cases drives
  · exact h.kept (kept_step sound hs (fun _ _ _ eq => pass ⟨_, _, _, eq⟩) made queued signal h.quiet)

/-- **How a call with a timeout is made.** -/
theorem timed_step (hs : c.step (a.at now) = some c') (timed : a.timed = some (n, d)) :
    n ∉ c.loop.made ∧
    ((∃ address call w, call.kind = .connect address ∧
        c' = record { c with world := w } n call) ∨
      (∃ kind o fd events w env, c.Starts kind o fd events w ∧
        c' = startIo { c with world := w } n { kind, obj := some o } fd events (some d) env now) ∨
      ∃ kind nomem env, (kind = .schedule ∨ kind = .sleep) ∧
        c' = c.schedule n kind d nomem env now) := by
  cases a with
  | connect m address r timeout env now' =>
      obtain ⟨alive, new, hs⟩ := whenNew_eq_some hs
      obtain ⟨d, rfl, eq⟩ := Option.map_eq_some_iff.mp timed
      cases eq
      refine ⟨new, ?_⟩
      unfold connect at hs
      cases r with
      | socketFails errno =>
          cases hs
          exact Or.inl ⟨address, _, c.world, rfl, rfl⟩
      | ok fd listener =>
          dsimp only at hs
          split at hs
          · obtain ⟨w, hw, rfl⟩ := Option.map_eq_some_iff.mp hs
            exact Or.inl ⟨address, _, w, rfl, rfl⟩
          · cases hs
      | fails fd errno =>
          dsimp only at hs
          split at hs
          · obtain ⟨w, hw, rfl⟩ := Option.map_eq_some_iff.mp hs
            exact Or.inl ⟨address, _, w, rfl, rfl⟩
          · cases hs
      | inProgress fd =>
          dsimp only at hs
          split at hs
          · next may =>
              cases hs
              exact Or.inr (Or.inl ⟨_, _, fd, _, _, env, .connect address fd may.1 may.2, rfl⟩)
          · cases hs
  | read m o timeout env now' =>
      obtain ⟨alive, new, hs⟩ := whenNew_eq_some hs
      obtain ⟨x, hx, rfl⟩ := Option.map_eq_some_iff.mp hs
      obtain ⟨d, rfl, eq⟩ := Option.map_eq_some_iff.mp timed
      cases eq
      exact ⟨new, Or.inr (Or.inl ⟨_, o, x.fd, _, c.world, env, .read o x hx, rfl⟩)⟩
  | write m o data timeout env now' =>
      obtain ⟨alive, new, hs⟩ := whenNew_eq_some hs
      obtain ⟨x, hx, rfl⟩ := Option.map_eq_some_iff.mp hs
      obtain ⟨d, rfl, eq⟩ := Option.map_eq_some_iff.mp timed
      cases eq
      exact ⟨new, Or.inr (Or.inl ⟨_, o, x.fd, _, c.world, env, .write o x data hx, rfl⟩)⟩
  | schedule m sleeps duration nomem env now' =>
      obtain ⟨alive, new, hs⟩ := whenNew_eq_some hs
      cases timed
      cases hs
      refine ⟨new, Or.inr (Or.inr ⟨_, nomem, env, ?_, rfl⟩)⟩
      cases sleeps with
      | false => exact Or.inl rfl
      | true => exact Or.inr rfl
  | _ => cases timed

/-- A call that has just been made is a call with a kind of its own. -/
theorem made_timed (sound : c.loop.Sound) (hs : c.step (a.at now) = some c')
    (timed : a.timed = some (n, d)) :
    n ∈ c'.loop.made ∧ (c'.loop.call n).kind.isSignal = false := by
  obtain ⟨new, made⟩ := timed_step hs timed
  have notQueued := sound.not_queued new
  rcases made with ⟨address, call, w, kind, rfl⟩ |
    ⟨kind, o, fd, events, w, env, starts, rfl⟩ | ⟨kind, nomem, env, timer, rfl⟩
  · exact ⟨by simp [record], by simp [record, kind, Kind.isSignal]⟩
  · have signal := Kind.not_signal_of_io starts.isIo.1
    exact ⟨by simp [startIo, record, withBase, eventNew],
      by simpa [startIo, record, withBase, eventNew] using signal⟩
  · have signal : kind.isSignal = false := by
      rcases timer with rfl | rfl <;> rfl
    rcases schedule_cases c kind d nomem env now notQueued with ⟨b, -, eq⟩ | ⟨-, eq⟩ | ⟨-, eq⟩
    all_goals
      rw [eq]
      exact ⟨by simp [record, withBase], by simpa [record, withBase] using signal⟩

/-- **A call that has just been made is not due** before the deadline taken from `now`. -/
theorem undue_timed (sound : c.loop.Sound) (hs : c.step (a.at now) = some c')
    (timed : a.timed = some (n, d)) (normal : (deadline now d).Normal)
    (late : D ≤ (deadline now d).micros) (positive : evutilTimerisset (timevalFor d) = true)
    (queued : c'.loop.base.Queued (.call n)) : c'.Undue n D := by
  obtain ⟨new, made⟩ := timed_step hs timed
  have notQueued := sound.not_queued new
  have notInserted : EvId.call n ∉ c.loop.base.inserted := fun mem => notQueued (Or.inl mem)
  have notActive : EvId.call n ∉ c.loop.base.activequeue := fun mem =>
    notQueued (Or.inr (Or.inr mem))
  rcases made with ⟨address, call, w, kind, rfl⟩ |
    ⟨kind, o, fd, events, w, env, starts, eq⟩ | ⟨kind, nomem, env, timer, eq⟩
  · have queued : c.loop.base.Queued (.call n) := queued
    exact absurd queued notQueued
  · have io := starts.isIo.1
    have quiet : events.signal = false := by cases starts <;> rfl
    rw [startIo_eq { c with world := w } _ fd (some d) env now notQueued starts.isIo.2.2] at eq
    dsimp only at eq
    split at eq
    · subst eq
      refine ⟨?_, fun _ => ?_, fun mem => ?_, fun timer => ?_⟩
      · simp [record, withBase, addedBase, eventBase, Base.withTimeout, quiet]
      · simpa [record, withBase, addedBase, eventBase, Base.withTimeout] using ⟨normal, late⟩
      · simp [record, withBase, addedBase, eventBase, Base.withTimeout, notActive] at mem
      · simp [record, io] at timer
    · subst eq
      have queued : c.loop.base.Queued (.call n) := queued
      exact absurd queued notQueued
  · rcases schedule_cases c kind d nomem env now notQueued with ⟨b, base, eq'⟩ | ⟨-, eq'⟩ |
      ⟨unset, -⟩
    · rw [eq.trans eq'] at queued
      rcases base with rfl | rfl
      · exact absurd queued notQueued
      · exact absurd queued notQueued
    · rw [eq.trans eq']
      refine ⟨?_, fun _ => ?_, fun mem => ?_, fun _ mem => ?_⟩
      · simp [record, withBase, eventBase, Base.withTimeout]
      · simpa [record, withBase, eventBase, Base.withTimeout] using ⟨normal, late⟩
      · simp [record, withBase, eventBase, Base.withTimeout, notActive] at mem
      · simp [record, withBase, eventBase, Base.withTimeout, notInserted] at mem
    · rw [positive] at unset
      cases unset

/-- A callback that was not called for its timeout does not report one. -/
theorem not_timeout_of_callbackBody {w : World} {loop : Nat} {call : Call} {fd : Fd} {res : Evs}
    {r : SysResult} {fx : Effect} (body : callbackBody w loop call fd res r = some fx)
    (early : res.timeout = false) : fx.outcome ≠ .threw .timeout := by
  cases callbackBody_cases body with
  | timedOut r io notAccept due =>
      rw [early] at due
      cases due
  | _ => exact fun eq => nomatch eq

end Core

namespace System

variable {s s' t t' : System} {n : Nat} {D : Int} {d : Duration}

/-- A reading of `CLOCK_MONOTONIC`, far enough from the end of `time_t`. -/
def Reading (clock : Timeval) : Prop :=
  0 ≤ clock.tvSec ∧ clock.tvSec < 2 ^ 63 - 2 ^ 31 ∧ clock.Normal

instance (clock : Timeval) : Decidable (Reading clock) := inferInstanceAs (Decidable (_ ∧ _ ∧ _))

/-- What the clock is set to is a reading. -/
def Ticks : Act → Prop
  | .tick clock => Reading clock
  | _ => True

/-- The call is told in this step that its time has come: the closure of a timer is invoked, or
another call throws `SocketError.timeout`. -/
def Elapses (s s' : System) (n : Nat) : Prop :=
  (s'.core.loop.call n).ran ≠ (s.core.loop.call n).ran ∧
    ((s.core.loop.call n).kind.isIo = false ∨
      .threw .timeout ∈ (s'.core.loop.call n).outcomes)

instance (s s' : System) (n : Nat) : Decidable (Elapses s s' n) :=
  inferInstanceAs (Decidable (_ ∧ (_ ∨ _)))

/-- The clock and the cache stand at readings, the cache at the earlier one. -/
structure Timed (s : System) : Prop where
  sound : s.core.loop.Sound
  clock : Reading s.clock
  pass : Reading s.core.loop.base.pass
  later : s.core.loop.base.pass.micros ≤ s.clock.micros

theorem Timed.step {a : Act} (h : s.Timed) (ok : Ticks a) (hs : s.step a = some s') :
    s'.Timed ∧ s.clock.micros ≤ s'.clock.micros := by
  have sound := sound_step h.sound hs
  rcases step_cases hs with ⟨core, same | ⟨rfl, later⟩⟩ | ⟨same, b, hb, pass, -⟩
  · refine ⟨⟨sound, same ▸ h.clock, core ▸ h.pass, ?_⟩, ?_⟩
    all_goals rw [same]
    rw [core]
    exact h.later
  · have later := (Timeval.le_iff_micros h.clock.2.2 ok.2.2).mp later
    refine ⟨⟨sound, ok, core ▸ h.pass, ?_⟩, later⟩
    rw [core]
    exact h.later.trans later
  · by_cases begins : ∃ ready now order, b = .dispatch ready now order
    · obtain ⟨ready, now, order, rfl⟩ := begins
      have set := Core.pass_dispatch hb
      rw [pass ready now order rfl] at set
      refine ⟨⟨sound, same ▸ h.clock, set ▸ h.clock, ?_⟩, ?_⟩
      all_goals rw [same]
      rw [set]
    · have kept := Core.pass_step h.sound hb fun ready now order eq => begins ⟨_, _, _, eq⟩
      refine ⟨⟨sound, same ▸ h.clock, kept ▸ h.pass, ?_⟩, ?_⟩
      all_goals rw [same]
      rw [kept]
      exact h.later

/-- `gettime` answers with a reading that is not ahead of the clock. -/
theorem Timed.gettime (h : s.Timed) :
    Reading s.gettime ∧ s.gettime.micros ≤ s.clock.micros := by
  unfold System.gettime
  split
  · split
    · exact ⟨h.pass, h.later⟩
    · exact ⟨h.clock, Int.le_refl _⟩
  · exact ⟨h.clock, Int.le_refl _⟩

/-- The call is not due as long as the clock stands before `D`. -/
structure NotBefore (s : System) (n : Nat) (D : Int) : Prop where
  timed : s.Timed
  made : n ∈ s.core.loop.made
  signal : (s.core.loop.call n).kind.isSignal = false
  undue : s.clock.micros < D → s.core.loop.base.Queued (.call n) → s.core.Undue n D

/-- **No step makes the call due before its time.** -/
theorem NotBefore.step {a : Act} (h : s.NotBefore n D) (ok : Ticks a)
    (hs : s.step a = some s') : s'.NotBefore n D := by
  obtain ⟨timed, later⟩ := h.timed.step ok hs
  rcases step_cases hs with ⟨same, -⟩ | ⟨clock, b, hb, pass, -⟩
  · have undue := h.undue
    refine ⟨timed, same ▸ h.made, same ▸ h.signal, fun early => ?_⟩
    rw [same]
    exact undue (by omega)
  · obtain ⟨sound, follows⟩ := Core.step_follows h.timed.sound hb
    obtain ⟨kind, made⟩ := Life.kind_follows (follows n) h.made
    have kind : (s'.core.loop.call n).kind = (s.core.loop.call n).kind := kind
    refine ⟨timed, made, kind ▸ h.signal, fun early queued => ?_⟩
    have undue := h.undue (by omega) (Core.queued_back h.timed.sound hb h.made queued h.signal)
    refine undue.step h.timed.sound h.made h.signal hb (fun ready now order eq => ?_) queued
    obtain rfl := pass ready now order eq
    exact ⟨h.timed.clock.2.2, by omega⟩

/-- **When the call is told, its time has come.** -/
theorem NotBefore.elapses {a : Act} (h : s.NotBefore n D) (hs : s.step a = some s')
    (elapses : Elapses s s' n) : D ≤ s.clock.micros := by
  by_contra early
  obtain ⟨ran, told⟩ := elapses
  rcases step_cases hs with ⟨same, -⟩ | ⟨-, b, hb, -⟩
  · rw [same] at ran
    exact ran rfl
  · rcases Core.call_step h.timed.sound hb h.made h.signal with same | ⟨r, fx, -, next, body, eq⟩
    · rw [same] at ran
      exact ran rfl
    · have active := Core.mem_of_nextCall next
      obtain ⟨io, res⟩ := (h.undue (by omega) (Or.inr (Or.inr active))).active active
      have notTimeout := Core.not_timeout_of_callbackBody body res
      -- the call was waiting, so this is its first outcome
      obtain ⟨stage, at_⟩ := h.timed.sound.life n
      obtain rfl := at_.waiting (Or.inr (Or.inr active)) h.signal
      have empty : (s.core.loop.call n).outcomes = [] :=
        List.length_eq_zero_iff.mp at_.2.2.2.2.2.1.resumed
      rcases told with timer | told
      · rw [io] at timer
        cases timer
      · rw [eq] at told
        simp only [Core.fired, Core.withCall, Core.Effect.settle, Function.update_self, empty,
          List.nil_append, List.mem_singleton] at told
        exact notTimeout told.symm

/-- The deadline taken from a reading is exact. -/
theorem deadline_of_reading {now : Timeval} (reading : Reading now) (nonneg : 0 ≤ d.count)
    (short : d.count < 2 ^ 31 * 10 ^ 18) :
    (deadline now d).Normal ∧ now.micros + d.micros = (deadline now d).micros := by
  obtain ⟨sec, fits, normal⟩ := reading
  have fit : exactDeadline now d / 10 ^ 6 < 2 ^ 63 := by
    obtain ⟨lo, hi⟩ := normal
    simp only [exactDeadline, Timeval.micros, Duration.micros]
    omega
  obtain ⟨normal', eq⟩ := micros_deadline ⟨sec, by omega, normal⟩ nonneg fit
  exact ⟨normal', eq.symm⟩

theorem timerisset_of_micros (nonneg : 0 ≤ d.count) (positive : 0 < d.micros) :
    evutilTimerisset (timevalFor d) = true := by
  have micros := (converts_of_nonneg nonneg).micros
  rw [max_eq_right (Int.le_of_lt positive), Timeval.micros] at micros
  by_contra unset
  simp only [evutilTimerisset, Bool.or_eq_true, bne_iff_ne, not_or, not_not] at unset
  omega

/-- The call has just been made. -/
theorem notBefore_task {a : Core.Act} (start : s.Timed) (timed : a.timed = some (n, d))
    (nonneg : 0 ≤ d.count) (short : d.count < 2 ^ 31 * 10 ^ 18)
    (hs : s.step (.task a) = some s') : s'.NotBefore n (s.gettime.micros + d.micros) := by
  obtain ⟨timed', later⟩ := start.step (a := .task a) trivial hs
  obtain ⟨reading, notAhead⟩ := start.gettime
  have hc := task_core hs
  obtain ⟨made, signal⟩ := Core.made_timed start.sound hc timed
  refine ⟨timed', made, signal, fun early => ?_⟩
  have positive : 0 < d.micros := by omega
  obtain ⟨normal, eq⟩ := deadline_of_reading reading nonneg short
  exact Core.undue_timed start.sound hc timed normal (Int.le_of_eq eq)
    (timerisset_of_micros nonneg positive)

end System

namespace Waiting

variable {w w' v v' : Waiting} {n : Nat} {D : Int} {d : Duration}

/-- The clocks are set to readings. -/
def Ticks : Act → Prop
  | .tick clock monotonic => System.Reading clock ∧ System.Reading monotonic
  | _ => True

instance : ∀ a, Decidable (Ticks a)
  | .tick clock monotonic =>
      inferInstanceAs (Decidable (System.Reading clock ∧ System.Reading monotonic))
  | .system _ | .wait | .wakes .. => isTrue trivial

/-- Both clocks stand at readings, and go with the cache. -/
structure Timed (w : Waiting) : Prop where
  system : w.system.Timed
  consistent : w.Consistent
  monotonic : System.Reading w.monotonic

/-- A property of the driven loop that its steps keep. -/
theorem keep_of_system {P : System → Prop}
    (keep : ∀ {s a s'}, P s → System.Ticks a → s.step a = some s' → P s') {a : Act}
    (h : P w.system) (ok : Ticks a) (hs : w.step a = some w') : P w'.system := by
  rcases step_system hs with same | ⟨b, hb, tick, -⟩
  · rw [same]
    exact h
  · refine keep h ?_ hb
    cases b with
    | tick clock =>
        obtain ⟨monotonic, rfl⟩ := tick clock rfl
        exact ok.1
    | _ => trivial

theorem Timed.step {a : Act} (h : w.Timed) (ok : Ticks a) (hs : w.step a = some w') :
    w'.Timed ∧ w.system.clock.micros ≤ w'.system.clock.micros ∧
      w.monotonic.micros ≤ w'.monotonic.micros := by
  obtain ⟨system, later⟩ := keep_of_system
    (P := fun s => s.Timed ∧ w.system.clock.micros ≤ s.clock.micros)
    (fun h ok hs => ⟨(h.1.step ok hs).1, h.2.trans (h.1.step ok hs).2⟩)
    ⟨h.system, Int.le_refl _⟩ ok hs
  have consistent := h.consistent.step hs
  by_cases tick : ∃ clock monotonic, a = .tick clock monotonic
  · obtain ⟨clock, monotonic, rfl⟩ := tick
    obtain ⟨⟨-, grows, -⟩, eq⟩ := Option.ite_none_right_eq_some.mp hs
    have eq : w'.monotonic = monotonic := by rw [← Option.some.inj eq]
    refine ⟨⟨system, consistent, ?_⟩, later, ?_⟩
    all_goals rw [eq]
    · exact ok.2
    · exact (Timeval.le_iff_micros h.monotonic.2.2 ok.2.2.2).mp grows
  · have same := monotonic_step hs fun clock monotonic eq => tick ⟨clock, monotonic, eq⟩
    refine ⟨⟨system, consistent, ?_⟩, later, ?_⟩
    all_goals rw [same]
    · exact h.monotonic

theorem Timed.run {as : List Act} (h : w.Timed) (ticks : ∀ a ∈ as, Ticks a)
    (run : StepSystem.run Waiting.step w as = some v) :
    v.Timed ∧ w.system.clock.micros ≤ v.system.clock.micros ∧
      w.monotonic.micros ≤ v.monotonic.micros :=
  StepSystem.invariant_run_of_meets
    (P := fun v : Waiting => v.Timed ∧ w.system.clock.micros ≤ v.system.clock.micros ∧
      w.monotonic.micros ≤ v.monotonic.micros)
    (fun v a v' h ok hs => by
      obtain ⟨timed, clock, monotonic⟩ := h.1.step ok hs
      exact ⟨timed, h.2.1.trans clock, h.2.2.trans monotonic⟩)
    ⟨h, Int.le_refl _, Int.le_refl _⟩ (StepSystem.Meets.of_forall ticks w) run

theorem timed_init (endian : Endian) (pipeFd : Fd) {clock monotonic : Timeval}
    (reading : System.Reading clock) (reading' : System.Reading monotonic)
    (lags : clock ≤ monotonic) :
    (init endian pipeFd clock monotonic).Timed := by
  have sound : (init endian pipeFd clock monotonic).system.core.loop.Sound :=
    Core.sound_new 0 0 pipeFd
  refine ⟨⟨sound, reading, ?_, ?_⟩, consistent_init endian pipeFd lags, reading'⟩
  · show System.Reading ⟨0, 0⟩
    decide
  · obtain ⟨sec, -, usec, -⟩ := reading
    show (0 : Int) * 10 ^ 6 + 0 ≤ clock.tvSec * 10 ^ 6 + clock.tvUsec
    omega

theorem notBefore_run {as : List Act} (h : w.system.NotBefore n D) (ticks : ∀ a ∈ as, Ticks a)
    (run : StepSystem.run step w as = some v) : v.system.NotBefore n D :=
  StepSystem.invariant_run_of_meets (P := fun w : Waiting => w.system.NotBefore n D)
    (fun _ _ _ h ok hs => keep_of_system (P := fun s => s.NotBefore n D)
      (fun h ok hs => h.step ok hs) h ok hs)
    h (StepSystem.Meets.of_forall ticks w) run

/-- A call with a timeout works on the base. -/
theorem locks_of_timed {a : Core.Act} (timed : a.timed = some (n, d)) :
    locks (.task a) = true := by
  cases a with
  | listen | close | deinit | raise | kernel => cases timed
  | _ => rfl

/-- **Timers are never early**, by what `gettime` answers at the call: no call with a timeout
is told that its time has come before that time plus the timeout, in whole microseconds.  Where
`gettime` answers with the reading of a clock, the timer is not early by that clock. -/
theorem timers_not_early {endian : Endian} {pipeFd : Fd} {clock monotonic : Timeval}
    {as bs : List Act} {a : Core.Act} {x : Act} (reading : System.Reading clock)
    (reading' : System.Reading monotonic) (lags : clock ≤ monotonic)
    (ticks : ∀ b ∈ as ++ bs, Ticks b)
    (before : StepSystem.run step (init endian pipeFd clock monotonic) as = some w)
    (timed : a.timed = some (n, d)) (nonneg : 0 ≤ d.count)
    (short : d.count < 2 ^ 31 * 10 ^ 18) (call : w.step (.system (.task a)) = some w')
    (after : StepSystem.run step w' bs = some v) (last : v.step x = some v')
    (elapses : System.Elapses v.system v'.system n) :
    w.gettime.micros + d.micros ≤ v.system.clock.micros ∧
      ((0 < d.micros → w.gettime = w.system.clock) →
        w.system.clock.micros + d.micros ≤ v.system.clock.micros) ∧
      ((0 < d.micros → w.gettime = w.monotonic) →
        w.monotonic.micros + d.micros ≤ v.monotonic.micros) := by
  obtain ⟨start, -, -⟩ := (timed_init endian pipeFd reading reading' lags).run
    (fun b mem => ticks b (List.mem_append_left bs mem)) before
  obtain ⟨made, clock', monotonic'⟩ := start.step (a := .system (.task a)) trivial call
  have ticks' : ∀ b ∈ bs, Ticks b := fun b mem => ticks b (List.mem_append_right as mem)
  obtain ⟨stop, clock'', monotonic''⟩ := made.run ticks' after
  have bound : w.gettime.micros + d.micros ≤ v.system.clock.micros := by
    obtain ⟨free, go⟩ := task_of_locks (locks_of_timed timed) call
    rw [start.consistent.gettime_eq free]
    have due := notBefore_run (System.notBefore_task start.system timed nonneg short go)
      ticks' after
    rcases step_system last with same | ⟨b, hb, -⟩
    · rw [same] at elapses
      exact absurd rfl elapses.1
    · exact due.elapses hb elapses
  have behind : v.system.clock.micros ≤ v.monotonic.micros :=
    (Timeval.le_iff_micros stop.system.clock.2.2 stop.monotonic.2.2).mp stop.consistent.lags
  have nonneg' : 0 ≤ d.micros := Int.ediv_nonneg nonneg (by decide)
  refine ⟨bound, fun ontime => ?_, fun ontime => ?_⟩
  · by_cases positive : 0 < d.micros
    · rw [← ontime positive]
      exact bound
    · omega
  · by_cases positive : 0 < d.micros
    · rw [← ontime positive]
      omega
    · omega

/-- A closure for one second later. -/
def oneSecond : Core.Act := .schedule 0 false ⟨10 ^ 18⟩ false {} ⟨0, 0⟩

theorem timers_not_early_oneSecond :
    ∃ w w' v v', StepSystem.run step (init .little 3 ⟨100, 0⟩ ⟨100, 0⟩) [] = some w ∧
      w.step (.system (.task oneSecond)) = some w' ∧
      StepSystem.run step w' [.system .run, .wait, .tick ⟨101, 0⟩ ⟨101, 7⟩,
        .wakes [] [.call 0] false] = some v ∧
      v.step (.system (.next .nothing)) = some v' ∧ System.Elapses v.system v'.system 0 ∧
      w.monotonic.micros + (⟨10 ^ 18⟩ : Duration).micros ≤ v.monotonic.micros := by
  have facts : ((init .little 3 ⟨100, 0⟩ ⟨100, 0⟩).step (.system (.task oneSecond))).bind
      (fun w' => (StepSystem.run step w' [.system .run, .wait, .tick ⟨101, 0⟩ ⟨101, 7⟩,
        .wakes [] [.call 0] false]).bind fun v =>
      (v.step (.system (.next .nothing))).map fun v' =>
        decide (System.Elapses v.system v'.system 0)) = some true := by
    decide +kernel
  obtain ⟨w', call, facts⟩ := Option.bind_eq_some_iff.mp facts
  obtain ⟨v, after, facts⟩ := Option.bind_eq_some_iff.mp facts
  obtain ⟨v', last, elapses⟩ := Option.map_eq_some_iff.mp facts
  have elapses := of_decide_eq_true elapses
  have before : StepSystem.run step (init .little 3 ⟨100, 0⟩ ⟨100, 0⟩) [] =
      some (init .little 3 ⟨100, 0⟩ ⟨100, 0⟩) := rfl
  have late := timers_not_early (by decide) (by decide) (by decide) (by decide) before rfl
    (by decide) (by decide) call after last elapses
  exact ⟨_, w', v, v', rfl, call, after, last, elapses, late.2.2 fun _ => by decide⟩

/-- A closure that runs in a pass for ten seconds. -/
def slowCallback : List Act :=
  [ .system (.task oneSecond), .system .runOnce, .wait, .tick ⟨101, 0⟩ ⟨101, 0⟩,
    .wakes [] [.call 0] false, .system (.next .nothing), .tick ⟨111, 0⟩ ⟨111, 0⟩ ]

/-- **A timer made behind a slow callback is early.**  The closure of a timer takes ten seconds
and then schedules another one for five seconds later.  The deadline is taken from the time the
pass began, and has passed already when the next `runOnce()` reads the clock. -/
theorem early_after_slow_callback :
    ∃ w w' v v',
      StepSystem.run step (init .little 3 ⟨100, 0⟩ ⟨100, 0⟩) slowCallback = some w ∧
      w.step (.system (.task (.schedule 1 false ⟨5 * 10 ^ 18⟩ false {} ⟨0, 0⟩))) = some w' ∧
      StepSystem.run step w' [.system (.next .nothing), .system .runOnce, .wait,
        .wakes [] [.call 1] false] = some v ∧
      v.step (.system (.next .nothing)) = some v' ∧ System.Elapses v.system v'.system 1 ∧
      v.system.clock.micros <
        w.system.clock.micros + (⟨5 * 10 ^ 18⟩ : Duration).micros ∧
      v.monotonic.micros < w.monotonic.micros + (⟨5 * 10 ^ 18⟩ : Duration).micros := by
  have facts : (StepSystem.run step (init .little 3 ⟨100, 0⟩ ⟨100, 0⟩) slowCallback).bind
      (fun w => (w.step
        (.system (.task (.schedule 1 false ⟨5 * 10 ^ 18⟩ false {} ⟨0, 0⟩)))).bind fun w' =>
      (StepSystem.run step w' [.system (.next .nothing), .system .runOnce, .wait,
        .wakes [] [.call 1] false]).bind fun v =>
      (v.step (.system (.next .nothing))).map fun v' =>
        decide (System.Elapses v.system v'.system 1 ∧ v.system.clock.micros <
          w.system.clock.micros + (⟨5 * 10 ^ 18⟩ : Duration).micros ∧
        v.monotonic.micros < w.monotonic.micros + (⟨5 * 10 ^ 18⟩ : Duration).micros)) =
      some true := by
    decide +kernel
  obtain ⟨w, before, facts⟩ := Option.bind_eq_some_iff.mp facts
  obtain ⟨w', call, facts⟩ := Option.bind_eq_some_iff.mp facts
  obtain ⟨v, after, facts⟩ := Option.bind_eq_some_iff.mp facts
  obtain ⟨v', last, facts⟩ := Option.map_eq_some_iff.mp facts
  exact ⟨w, w', v, v', before, call, after, last, of_decide_eq_true facts⟩

/-! ## The wait -/

/-- Clocks are set to readings, and timeouts are of less than 2^31 seconds. -/
def Sane : Act → Prop
  | .tick clock monotonic => System.Reading clock ∧ System.Reading monotonic
  | .system (.task a) => ∀ call ∈ a.timed, 0 ≤ call.2.count ∧ call.2.count < 2 ^ 31 * 10 ^ 18
  | _ => True

instance : ∀ a, Decidable (Sane a)
  | .tick clock monotonic =>
      inferInstanceAs (Decidable (System.Reading clock ∧ System.Reading monotonic))
  | .system (.task a) =>
      inferInstanceAs (Decidable (∀ call ∈ a.timed,
        0 ≤ call.2.count ∧ call.2.count < 2 ^ 31 * 10 ^ 18))
  | .system .runOnce | .system .run | .system .stop | .system (.tick _) | .system (.iterate ..)
  | .system (.woken ..) | .system .pollFails | .system (.next _) | .wait | .wakes .. =>
      isTrue trivial

theorem Sane.ticks {a : Act} (h : Sane a) : Ticks a := by
  cases a with
  | tick clock monotonic => exact h
  | _ => trivial

/-- The deadline of a reading and a sane timeout fits into `time_t`. -/
theorem clocked_deadline {now : Timeval} (reading : System.Reading now) (nonneg : 0 ≤ d.count)
    (short : d.count < 2 ^ 31 * 10 ^ 18) : HeapBase.Clocked (deadline now d) := by
  obtain ⟨normal, eq⟩ := System.deadline_of_reading reading nonneg short
  obtain ⟨sec, fits, usec, usec'⟩ := reading
  obtain ⟨lo, hi⟩ := normal
  simp only [Timeval.micros, Duration.micros] at eq
  exact ⟨by omega, by omega, lo, hi⟩

/-- The timers of a run have deadlines that `time_t` holds. -/
theorem ends_step {a : Act} (h : w.Timed) (ends : w.system.core.Ends HeapBase.Clocked)
    (ok : Sane a) (hs : w.step a = some w') : w'.system.core.Ends HeapBase.Clocked := by
  rcases step_system hs with same | ⟨b, hb, -, task⟩
  · rw [same]
    exact ends
  · rcases System.step_cases hb with ⟨same, -⟩ | ⟨-, l, hl, -, made⟩
    · rw [same]
      exact ends
    · refine ends.step h.system.sound hl fun t sets => ?_
      have isTask : l.isTask = true := by
        cases l with
        | dispatch | callback | breakSignal => cases sets
        | _ => rfl
      obtain ⟨x, rfl, rfl⟩ := made isTask
      rw [Core.Act.sets_at] at sets
      obtain ⟨⟨n, d⟩, timed, rfl⟩ := Option.map_eq_some_iff.mp sets
      obtain rfl := task x rfl
      obtain ⟨nonneg, short⟩ := ok (n, d) timed
      exact clocked_deadline h.system.gettime.1 nonneg short

theorem ends_run {endian : Endian} {pipeFd : Fd} {clock monotonic : Timeval} {as : List Act}
    (reading : System.Reading clock) (reading' : System.Reading monotonic)
    (lags : clock ≤ monotonic) (sane : ∀ a ∈ as, Sane a)
    (run : StepSystem.run step (init endian pipeFd clock monotonic) as = some w) :
    w.Timed ∧ w.system.core.Ends HeapBase.Clocked := by
  refine StepSystem.invariant_run_of_meets (C := fun _ => Sane)
    (P := fun w : Waiting => w.Timed ∧ w.system.core.Ends HeapBase.Clocked)
    (fun w a w' h ok hs => ?_) ?_ (StepSystem.Meets.of_forall sane _) run
  · exact ⟨(h.1.step ok.ticks hs).1, ends_step h.1 h.2 ok hs⟩
  · refine ⟨timed_init endian pipeFd reading reading' lags, fun e mem => ?_⟩
    cases mem

/-- `gettime` answers with a reading, at the head of the loop too. -/
theorem Timed.clocked_gettime (h : w.Timed) : HeapBase.Clocked w.gettime := by
  have clocked : ∀ {t : Timeval}, System.Reading t → HeapBase.Clocked t := fun reading =>
    ⟨reading.1, by have := reading.2.1; omega, reading.2.2⟩
  unfold Waiting.gettime
  split
  · rcases h.consistent.cache with cache | cache
    · rw [cache]
      decide
    · rw [cache]
      exact clocked h.system.pass
  · exact clocked h.system.clock

/-- **The loop waits for the earliest timer**, counted from what `gettime` answers at its head.
With an event that is active it does not wait; without a timer it waits for the descriptors
alone.  Otherwise the wait is of at most 35 minutes; when it is shorter than that, a timer is due
at its end, and a millisecond before the end none was.  The heap of a base that agrees with the
list of the timers gives the same wait. -/
theorem wait_for_earliest {endian : Endian} {pipeFd : Fd} {clock monotonic : Timeval}
    {as : List Act} {since : Timeval} {msec : Int} (reading : System.Reading clock)
    (reading' : System.Reading monotonic) (lags : clock ≤ monotonic) (sane : ∀ a ∈ as, Sane a)
    (run : StepSystem.run step (init endian pipeFd clock monotonic) as = some w)
    (wait : w.step .wait = some w') (polls : w'.polling = some (since, msec)) :
    since = w.monotonic ∧
      (w.system.core.loop.base.activequeue ≠ [] → msec = 0) ∧
      (w.system.core.loop.base.activequeue = [] → w.system.core.loop.base.timeheap = [] →
        msec = -1) ∧
      (w.system.core.loop.base.activequeue = [] → w.system.core.loop.base.timeheap ≠ [] →
        0 ≤ msec ∧ msec ≤ HeapBase.maxEpollTimeoutMsec ∧
        (msec < HeapBase.maxEpollTimeoutMsec → ∃ e ∈ w.system.core.loop.base.timeheap,
          (w.system.core.loop.base.ev e).evTimeout.micros ≤ w.gettime.micros + 1000 * msec) ∧
        (0 < msec → ∀ e ∈ w.system.core.loop.base.timeheap,
          w.gettime.micros + 1000 * (msec - 1) <
            (w.system.core.loop.base.ev e).evTimeout.micros)) ∧
      ∀ hb : HeapBase, hb.Agrees → hb.base = w.system.core.loop.base →
        hb.base.activequeue = [] → msec = HeapBase.epollTimeout (hb.timeoutNext w.gettime) := by
  obtain ⟨timed, ends⟩ := ends_run reading reading' lags sane run
  obtain ⟨-, eq⟩ := Option.ite_none_right_eq_some.mp wait
  have goes : w' = { w with tvCache := ⟨0, 0⟩, polling := some (w.monotonic, w.timeout) } := by
    rw [← Option.some.inj eq] at polls ⊢
    unfold head at polls ⊢
    split at polls
    · cases polls
    · next go => rw [if_neg go]
  rw [goes] at polls
  obtain ⟨rfl, rfl⟩ : w.monotonic = since ∧ w.timeout = msec := by
    simpa using polls
  have clock : HeapBase.Clocked w.gettime := timed.clocked_gettime
  refine ⟨rfl, timeout_of_active, fun idle none => ?_, fun idle some => ?_, ?_⟩
  · rw [timeout_of_idle idle]
    exact Base.timeoutNext_of_no_timers none w.gettime
  · rw [timeout_of_idle idle]
    exact Base.timeoutNext_spec some clock ends
  · intro hb agrees base idle
    rw [agrees.timeoutNext, base]
    rw [base] at idle
    exact timeout_of_idle idle

/-- The closure of a timer of one second takes ten seconds and schedules another one for five
seconds later: the wait that follows is of five seconds, though the timer is due already. -/
theorem wait_for_earliest_slowCallback :
    ∃ w w', StepSystem.run step (init .little 3 ⟨100, 0⟩ ⟨100, 0⟩)
        [.system (.task oneSecond), .system .run, .wait, .tick ⟨101, 0⟩ ⟨101, 0⟩,
          .wakes [] [.call 0] false, .system (.next .nothing), .tick ⟨111, 0⟩ ⟨111, 0⟩,
          .system (.task (.schedule 1 false ⟨5 * 10 ^ 18⟩ false {} ⟨0, 0⟩)),
          .system (.next .nothing)] = some w ∧
      w.step .wait = some w' ∧ w'.polling = some (⟨111, 0⟩, 5000) ∧
      w.system.core.loop.base.timeheap = [.call 1] ∧
      (0 < (5000 : Int) → ∀ e ∈ w.system.core.loop.base.timeheap,
        w.gettime.micros + 1000 * (5000 - 1) <
          (w.system.core.loop.base.ev e).evTimeout.micros) := by
  have facts : (StepSystem.run step (init .little 3 ⟨100, 0⟩ ⟨100, 0⟩)
        [.system (.task oneSecond), .system .run, .wait, .tick ⟨101, 0⟩ ⟨101, 0⟩,
          .wakes [] [.call 0] false, .system (.next .nothing), .tick ⟨111, 0⟩ ⟨111, 0⟩,
          .system (.task (.schedule 1 false ⟨5 * 10 ^ 18⟩ false {} ⟨0, 0⟩)),
          .system (.next .nothing)]).bind (fun w => (w.step .wait).map fun w' =>
        decide (w'.polling = some (⟨111, 0⟩, 5000) ∧
          w.system.core.loop.base.timeheap = [.call 1] ∧
          w.system.core.loop.base.activequeue = [])) = some true := by
    decide +kernel
  obtain ⟨w, run, facts⟩ := Option.bind_eq_some_iff.mp facts
  obtain ⟨w', wait, facts⟩ := Option.map_eq_some_iff.mp facts
  obtain ⟨polls, timers, idle⟩ := of_decide_eq_true facts
  have waits := wait_for_earliest (by decide) (by decide) (by decide) (by decide) run wait polls
  obtain ⟨-, -, -, some, -⟩ := waits
  exact ⟨w, w', run, wait, polls, timers, (some idle (by simp [timers])).2.2.2⟩

end Waiting

end SwiftEvent
