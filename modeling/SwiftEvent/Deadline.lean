import SwiftEvent.Frame

/-!
# Deadlines

When a call that waits for a descriptor is called back, libevent tells it in
`ev_res` whether its deadline has passed.  It tells the truth: the flag is set
exactly when the deadline is not later than the time of the pass (`Due.passed`),
also for an event that became ready in that very pass, or that an earlier pass
had left on the active queue.
-/

namespace SwiftEvent.Core

variable {c c' : Core} {a : Act} {n : Nat}

/-- The deadline that `event_add` has set is not later than the current pass. -/
def TimedOut (c : Core) (n : Nat) : Prop :=
  (c.loop.call n).timeout.isSome = true ∧ (c.loop.base.ev (.call n)).evTimeout ≤ c.loop.base.pass

instance (c : Core) (n : Nat) : Decidable (c.TimedOut n) := inferInstanceAs (Decidable (_ ∧ _))

/-- The timer of a call is where it should be. -/
structure Due (c : Core) (n : Nat) : Prop where
  signal : (c.loop.base.ev (.call n)).evEvents.signal = false
  armed : .call n ∈ c.loop.base.timeheap → (c.loop.call n).timeout.isSome = true
  timed : (c.loop.call n).timeout.isSome = true → .call n ∈ c.loop.base.timeheap ∨
    .call n ∈ c.loop.base.activequeue ∧ (c.loop.base.ev (.call n)).evRes.timeout = true
  passed : .call n ∈ c.loop.base.activequeue →
    ((c.loop.base.ev (.call n)).evRes.timeout = true ↔ c.TimedOut n)

theorem Due.kept (h : c.Due n) (kept : c.Kept c' n) : c'.Due n := by
  refine ⟨?_, ?_, ?_, ?_⟩
  · rw [kept.ev]; exact h.signal
  · rw [kept.timeheap, kept.call]; exact h.armed
  · rw [kept.timeheap, kept.call, kept.active, kept.ev]; exact h.timed
  · rw [kept.active, TimedOut, kept.call, kept.ev, kept.pass]; exact h.passed

/-- A pass of the loop. -/
theorem Due.dispatchPass (h : c.Due n) {b : Base} {ready : List (Fd × Base.EpollReport)}
    {now : Timeval} {order : List EvId} (later : c.loop.base.pass ≤ now)
    (hb : c.loop.base.dispatchPass c.opened ready now order = some b) : (c.withBase b).Due n := by
  obtain ⟨d, act, exp, rest⟩ := Base.dispatchPass_eq_some hb
  have shape := Event.shape_eq (Base.shape_dispatchPass hb (.call n))
  have deadline : (b.ev (.call n)).evTimeout = (c.loop.base.ev (.call n)).evTimeout :=
    (exp.deadline (.call n)).trans (act.deadline (.call n))
  have pass : b.pass = now := exp.pass
  rcases exp.moved (.call n) with ⟨-, heap, active, ev⟩ | ⟨heap, due, -, gone, active, res⟩
  · have ev : b.ev (.call n) = d.ev (.call n) := ev
    have heap : .call n ∈ b.timeheap ↔ .call n ∈ c.loop.base.timeheap := by
      rw [heap]
      exact iff_of_eq (by rw [act.timeheap])
    have active : .call n ∈ b.activequeue ↔ .call n ∈ d.activequeue := active
    refine ⟨?_, ?_, fun some => ?_, fun mem => ?_⟩
    · simp only [withBase, shape.2.1]; exact h.signal
    · simp only [withBase, heap]; exact h.armed
    · simp only [withBase, heap, active, ev]
      exact (h.timed some).imp_right fun was =>
        ⟨act.keeps was.1, act.expired _ was.1 was.2⟩
    · simp only [withBase, TimedOut, deadline, pass]
      constructor
      · intro res
        rw [ev] at res
        obtain ⟨was, res⟩ := act.unexpired _ (active.mp mem) res
        obtain ⟨some, due⟩ := (h.passed was).mp res
        exact ⟨some, Timeval.le_trans due later⟩
      · -- what is due does not stay on the heap
        rintro ⟨some, due⟩
        rcases h.timed some with onHeap | ⟨was, res⟩
        · have late := rest _ (heap.mpr onHeap)
          rw [deadline] at late
          exact absurd due (Timeval.not_le.mpr late)
        · rw [ev]
          exact act.expired _ was res
  · have heap : .call n ∈ c.loop.base.timeheap := by
      have heap : .call n ∈ d.timeheap := heap
      rwa [act.timeheap] at heap
    have due : (c.loop.base.ev (.call n)).evTimeout ≤ now := by
      rw [← act.deadline]
      exact due
    refine ⟨?_, fun mem => absurd mem gone, fun _ => Or.inr ⟨active, ?_⟩, fun _ => ?_⟩
    · simp only [withBase, shape.2.1]; exact h.signal
    · simp [withBase, res]
    · simp only [withBase, res, TimedOut, deadline, pass, true_iff]
      exact ⟨h.armed heap, due⟩

/-- A call that has just been started. -/
theorem due_start (sound : c.loop.Sound) (new : n ∉ c.loop.made) {kind : Kind} {o : Nat} {fd : Fd}
    {events : Evs} {w : World} (starts : c.Starts kind o fd events w) {timeout : Option Duration}
    {env : Base.AddEnv} {now : Timeval}
    (eq : c' = startIo { c with world := w } n { kind, obj := some o } fd events timeout env now)
    (queued : c'.loop.base.Queued (.call n)) : c'.Due n := by
  have notQueued := sound.not_queued new
  have quiet : events.signal = false := by cases starts <;> rfl
  rw [startIo_eq { c with world := w } _ fd timeout env now notQueued starts.isIo.2.2] at eq
  dsimp only at eq
  split at eq
  · subst eq
    have notHeap : EvId.call n ∉ c.loop.base.timeheap := fun mem => notQueued (Or.inr (Or.inl mem))
    have notActive : EvId.call n ∉ c.loop.base.activequeue := fun mem =>
      notQueued (Or.inr (Or.inr mem))
    cases timeout with
    | none =>
        constructor <;>
          simp [record, withBase, addedBase, eventBase, Base.withTimeout, notHeap, notActive, quiet]
    | some d =>
        constructor <;>
          simp [record, withBase, addedBase, eventBase, Base.withTimeout, notActive, quiet]
  · subst eq
    have queued : c.loop.base.Queued (.call n) := queued
    exact absurd queued notQueued

/-- **Every timer stays where it should be.** -/
theorem due_step (sound : c.loop.Sound)
    (h : ∀ n, c.loop.base.Queued (.call n) → (c.loop.call n).kind.isIo = true → c.Due n)
    (hs : c.step a = some c') (n : Nat) (queued : c'.loop.base.Queued (.call n))
    (io : (c'.loop.call n).kind.isIo = true) : c'.Due n := by
  by_cases made : n ∈ c.loop.made
  · have kind := (Life.kind_follows ((step_follows sound hs).2 n) made).1
    have io : (c.loop.call n).kind.isIo = true := by
      rw [← show (c'.loop.call n).kind = (c.loop.call n).kind from kind]
      exact io
    have signal : (c.loop.call n).kind.isSignal = false := by
      by_contra yes
      rw [Kind.not_io_of_signal (by simpa using yes)] at io
      cases io
    by_cases pass : ∃ ready now order, a = .dispatch ready now order
    · obtain ⟨ready, now, order, rfl⟩ := pass
      cases step_cases hs with
      | dispatch _ _ _ b alive reports later quiet hb =>
          exact (h n ((Base.queued_dispatchPass hb).mp queued) io).dispatchPass later hb
      | start _ drives => cases drives
    · have due := h n (queued_back sound hs made queued signal) io
      exact due.kept (kept_step sound hs (fun _ _ _ eq => pass ⟨_, _, _, eq⟩) made queued signal
        due.signal)
  · obtain ⟨kind, o, fd, events, w, timeout, env, now, starts, -, eq⟩ :=
      starts_of_new sound hs made queued io
    exact due_start sound made starts eq queued

theorem due_run {endian : Endian} {pipeFd : Fd} {as : List Act}
    (run : StepSystem.run step (init endian pipeFd) as = some c) :
    ∀ n, c.loop.base.Queued (.call n) → (c.loop.call n).kind.isIo = true → c.Due n := by
  refine (StepSystem.invariant_run (P := fun c : Core => c.loop.Sound ∧
    ∀ n, c.loop.base.Queued (.call n) → (c.loop.call n).kind.isIo = true → c.Due n)
    (fun d a d' h hs => ⟨(step_follows h.1 hs).1, due_step h.1 h.2 hs⟩)
    ⟨sound_new 0 0 pipeFd, fun n queued => ?_⟩ run).2
  simp [init, Loop.new, Base.new, Base.Queued] at queued

end SwiftEvent.Core
