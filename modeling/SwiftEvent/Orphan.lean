import SwiftEvent.Drive
import SwiftEvent.Frame

/-!
# Waiters and drivers

Each call that waits drives the loop itself, with one `runOnce()`.  `runOnce()`
returns after the first pass that ran *some* callback, not after the caller's, so
a call can be left registered with nobody in `event_base_loop` to run it: another
event on the loop is enough, and so is `stop()`, or a second task that enters
while the first one is leaving.

`Undisturbed` is the discipline that excludes exactly these: a pass of a
`runOnce()` that wakes anything wakes everyone who waits; nobody starts to wait
while such a pass is being drained or a `stop()` is pending; nobody calls
`stop()` while a call waits; and the multiplexer does not fail.  Under it no
waiter is ever orphaned (`no_orphan`).
-/

namespace SwiftEvent

/-- The call has suspended its task, its event is queued, and it has not been
resumed. -/
def Loop.Waits (l : Loop) (n : Nat) : Prop :=
  (l.call n).kind.suspends = true ∧ l.base.Queued (.call n) ∧ (l.call n).outcomes = []

instance (l : Loop) (n : Nat) : Decidable (l.Waits n) := inferInstanceAs (Decidable (_ ∧ _ ∧ _))

theorem Kind.isSignal_of_suspends {kind : Kind} (h : kind.suspends = true) :
    kind.isSignal = false := by
  cases kind <;> simp_all [Kind.suspends, Kind.isSignal]

namespace Core

variable {c c' : Core} {a : Act} {n : Nat}

/-! ## What a step does to those who wait -/

/-- A step that makes a call which waits ends with `runOnce()`. -/
theorem drives_of_new_waiter (sound : c.loop.Sound) (h : c.step a = some c')
    (old : n ∉ c.loop.made) (new : n ∈ c'.loop.made) (waits : c'.loop.Waits n) :
    a.drives = true := by
  rcases made_step sound h old new (Kind.isSignal_of_suspends waits.1) with
    ⟨address, r, timeout, env, now, call, w, -, ans, rfl⟩ | ⟨_, _, _, _, _, _, _, _, drives, -⟩ |
    ⟨sleeps, duration, nomem, env, now, rfl, rfl⟩
  · -- it was resumed already
    have resumed := waits.2.2
    simp only [record, Function.update_self] at resumed
    cases ans <;> cases resumed
  · exact drives
  · cases sleeps with
    | true => rfl
    | false =>
        exfalso
        have kind : ((c.schedule n .schedule duration nomem env now).loop.call n).kind.suspends
            = true := waits.1
        rcases schedule_cases c .schedule duration nomem env now (sound.not_queued old) with
          ⟨b, hb, eq⟩ | ⟨-, eq⟩ | ⟨-, eq⟩
        all_goals
          rw [eq] at kind
          simp [record, Kind.suspends] at kind

/-- A call that waits is at the waiting stage. -/
theorem at_waiting {l : Loop} (sound : l.Sound) (waits : l.Waits n) :
    (l.life n).At .waiting := by
  obtain ⟨s, hs⟩ := sound.life n
  obtain rfl := hs.waiting waits.2.1 (Kind.isSignal_of_suspends waits.1)
  exact hs

/-- A call that waits after a step was made by it or waited before. -/
theorem waits_of_waits (sound : c.loop.Sound) (h : c.step a = some c')
    (waits : c'.loop.Waits n) (made : n ∈ c.loop.made) : c.loop.Waits n := by
  have kind : (c'.loop.call n).kind = (c.loop.call n).kind :=
    (Life.kind_follows ((step_follows sound h).2 n) made).1
  have suspends : (c.loop.call n).kind.suspends = true := kind ▸ waits.1
  have signal := Kind.isSignal_of_suspends suspends
  have queued := queued_back sound h made waits.2.1 signal
  obtain ⟨s, hs⟩ := sound.life n
  obtain rfl := hs.waiting queued signal
  exact ⟨suspends, queued, List.length_eq_zero_iff.mp hs.2.2.2.2.2.1.resumed⟩

/-- Nobody starts to wait but by a call that ends with `runOnce()`. -/
theorem waits_step (sound : c.loop.Sound) (h : c.step a = some c') (waits : c'.loop.Waits n)
    (quiet : a.drives = false) : c.loop.Waits n := by
  by_cases made : n ∈ c.loop.made
  · exact waits_of_waits sound h waits made
  · have made' : n ∈ c'.loop.made :=
      (at_waiting (step_follows sound h).1 waits).1
    rw [drives_of_new_waiter sound h made made' waits] at quiet
    cases quiet

/-- **Outside a pass, a waiting call that is active stays active** until its
callback runs. -/
theorem active_step (sound : c.loop.Sound) (h : c.step a = some c')
    (task : ∀ ready now order, a ≠ .dispatch ready now order) (before : c.loop.Waits n)
    (after : c'.loop.Waits n) (active : .call n ∈ c.loop.base.activequeue) :
    .call n ∈ c'.loop.base.activequeue := by
  have signal := Kind.isSignal_of_suspends before.1
  cases step_cases h with
  | answer m address r timeout env now call w alive fresh ans => exact active
  | start _ drives m kind o fd events w timeout env now alive fresh starts accept opens target =>
      rw [startIo_eq { c with world := w } _ fd timeout env now (sound.not_queued fresh)
        starts.isIo.2.2]
      dsimp only
      split
      · simpa [record, withBase, addedBase, eventBase] using active
      · exact active
  | schedule m sleeps duration nomem env now alive fresh =>
      rcases schedule_cases c (if sleeps then .sleep else .schedule) duration nomem env now
        (sound.not_queued fresh) with ⟨b, hb, eq⟩ | ⟨-, eq⟩ | ⟨-, eq⟩
      · rw [eq]
        rcases hb with rfl | rfl <;> exact active
      · rw [eq]
        simpa [record, withBase, eventBase] using active
      · rw [eq]
        exact (Base.mem_eventActiveNolock _ _).mpr (Or.inl active)
  | signalStream args c' alive hc =>
      rw [(signalStream_queues sound alive hc).1]
      exact active
  | tearDown r alive opened =>
      rw [tearDown]
      split
      · exact active
      · refine (torn_foldl c (sound.regs.nodup r)).active n active fun mem => ?_
        exact (at_waiting sound before).2.2.1 ⟨r, mem⟩
  | free w alive torn hw => simp [Loop.Waits, freed, Base.Queued] at after
  | dispatch ready now order => exact absurd rfl (task ready now order)
  | pipe r rest alive quiet queue =>
      have act := Base.activates_evsigCb { c.loop.base with activequeue := rest }
      refine act.keeps ?_
      simpa [queue] using active
  | skip r m rest alive quiet queue sig =>
      have ne : n ≠ m := by
        rintro rfl
        rw [signal] at sig
        cases sig
      simpa [queue, ne, withBase] using active
  | yield r m left rest alive quiet queue sig =>
      have ne : n ≠ m := by
        rintro rfl
        rw [signal] at sig
        cases sig
      simpa [queue, ne, withBase, Core.yield, withCall] using active
  | again r m left alive rep => exact active
  | fire r m rest fx alive quiet queue sig body =>
      have ne : n ≠ m := by
        rintro rfl
        exact ((Base.queued_eventDelNolock c.loop.base c.opened (.call n)).mp after.2.1).2 rfl
      simpa [fired, withCall, withBase, ne] using active
  | _ => exact active

end Core

namespace System

/-- **The discipline.** -/
def Undisturbed (s : System) : Act → Prop
  | .task a => a.drives = true →
      match s.drive with
      | .idle => True
      | .looping _ => s.eventBreak = false
      | .draining once _ _ => once = false ∧ s.eventBreak = false
  | .stop | .pollFails => ∀ n, ¬ s.core.loop.Waits n
  | .iterate ready _ | .woken ready _ => s.drive = .looping true →
      (∃ e, s.core.loop.base.Wakes ready s.clock e) →
        ∀ n, s.core.loop.Waits n → s.core.loop.base.Wakes ready s.clock (.call n)
  | _ => True

/-- What the discipline keeps: a driven loop whose waiters will be run. -/
structure Attended (s : System) : Prop where
  sound : s.core.loop.Sound
  driven : ∀ n, s.core.loop.Waits n → s.drive ≠ .idle
  unbroken : ∀ n, s.core.loop.Waits n → s.eventBreak = false
  drained : ∀ count ran, s.drive = .draining true count ran →
    ∀ n, s.core.loop.Waits n → .call n ∈ s.core.loop.base.activequeue

variable {s s' : System}

/-- Nobody waits on an exhausted loop. -/
theorem not_exhausted {n : Nat} (waits : s.core.loop.Waits n) : s.exhausted = false := by
  have queued := waits.2.1
  simp only [exhausted, Base.eventHaveevents, Bool.and_eq_false_iff, Bool.not_eq_false',
    List.any_eq_true]
  refine Or.inl ⟨.call n, ?_, by simp⟩
  simp only [List.mem_append]
  simp only [Base.Queued] at queued
  tauto

/-- A step of the core under the same drive, by which nobody starts to wait. -/
theorem Attended.quiet {b : Core.Act} {c : Core} (h : s.Attended) (hc : s.core.step b = some c)
    (drives : b.drives = false) (notPass : ∀ ready now order, b ≠ .dispatch ready now order)
    (count : Nat) (ran : Bool) (drive : s'.drive = s.drive ∨
      ∃ once count' ran', s.drive = .draining once count' ran' ∧
        s'.drive = .draining once count ran)
    (core : s'.core = c) (eventBreak : s'.eventBreak = s.eventBreak) : s'.Attended := by
  have back : ∀ n, s'.core.loop.Waits n → s.core.loop.Waits n := by
    rw [core]
    exact fun n waits => Core.waits_step h.sound hc waits drives
  refine ⟨by rw [core]; exact (Core.step_follows h.sound hc).1, fun n waits => ?_,
    fun n waits => eventBreak.trans (h.unbroken n (back n waits)),
    fun count' ran' draining n waits => ?_⟩
  · rcases drive with same | ⟨once, _, _, -, now⟩
    · rw [same]; exact h.driven n (back n waits)
    · rw [now]; exact fun h => (by cases h)
  · have active : .call n ∈ s.core.loop.base.activequeue := by
      rcases drive with same | ⟨once, count, ran, was, now⟩
      · exact h.drained count' ran' (same ▸ draining) n (back n waits)
      · rw [now] at draining
        cases draining
        exact h.drained count ran was n (back n waits)
    rw [core] at waits ⊢
    exact Core.active_step h.sound hc notPass (back n (core ▸ waits)) waits active

theorem attended_task {a : Core.Act} (h : s.Attended) (ok : s.Undisturbed (.task a))
    (hs : s.task a = some s') : s'.Attended := by
  rw [task] at hs
  split at hs
  · next may =>
      obtain ⟨c, hc, rfl⟩ := Option.map_eq_some_iff.mp hs
      by_cases drives : a.drives = true
      · rw [if_pos drives]
        have sound := (Core.step_follows h.sound hc).1
        have ok := ok drives
        rw [enter]
        cases drive : s.drive with
        | idle => exact ⟨sound, fun _ _ h => (by cases h), fun _ _ => rfl, fun _ _ h => (by cases h)⟩
        | looping once =>
            rw [drive] at ok
            exact ⟨sound, fun _ _ h => (by simp at h), fun _ _ => ok,
              fun _ _ h => (by simp at h)⟩
        | draining once count ran =>
            rw [drive] at ok
            refine ⟨sound, fun _ _ h => (by simp at h), fun _ _ => ok.2, fun _ _ h => ?_⟩
            simp [ok.1] at h
      · rw [if_neg drives]
        have notPass : ∀ ready now order, a.at s.gettime ≠ .dispatch ready now order := by
          intro ready now order eq
          cases a with
          | dispatch => simp [Core.Act.isTask] at may
          | _ => cases eq
        exact h.quiet hc (by simpa using drives) notPass 0 false (Or.inl rfl) rfl rfl
  · cases hs

theorem attended_woken {once : Bool} {ready : List (Fd × Base.EpollReport)} {order : List EvId}
    (h : s.Attended) (drive : s.drive = .looping once) (ok : s.Undisturbed (.woken ready order))
    (hs : s.woken once ready order = some s') : s'.Attended := by
  obtain ⟨c, hc, rfl⟩ := woken_eq_some hs
  have back : ∀ n, c.loop.Waits n → s.core.loop.Waits n := fun n waits =>
    Core.waits_step h.sound hc waits rfl
  refine ⟨(Core.step_follows h.sound hc).1, fun n _ idle => ?_,
    fun n waits => h.unbroken n (back n waits), fun count ran draining n waits => ?_⟩
  · dsimp only at idle
    split at idle <;> cases idle
  · dsimp only at draining
    split at draining
    · cases draining
    · next some =>
        cases draining
        cases Core.step_cases hc with
        | start _ drives => cases drives
        | dispatch _ _ _ b alive reports later quiet hb =>
            obtain ⟨e, mem⟩ := List.exists_mem_of_ne_nil _ some
            have wakes := ok drive ⟨e, (Base.mem_dispatchPass hb).mp mem⟩ n (back n waits)
            exact (Base.mem_dispatchPass hb).mpr wakes

theorem attended_iterate {once : Bool} {ready : List (Fd × Base.EpollReport)}
    {order : List EvId} (h : s.Attended) (drive : s.drive = .looping once)
    (ok : s.Undisturbed (.iterate ready order)) (hs : s.iterate once ready order = some s') :
    s'.Attended := by
  rw [iterate] at hs
  split at hs
  · next stops =>
      cases hs
      -- neither a break nor an empty loop leaves anyone behind
      have none : ∀ n, ¬ s.core.loop.Waits n := by
        intro n waits
        rw [h.unbroken n waits, not_exhausted waits] at stops
        simp at stops
      exact ⟨h.sound, fun n waits => absurd waits (none n), fun n waits => absurd waits (none n),
        fun _ _ h => (by cases h)⟩
  · exact attended_woken h drive ok hs

theorem attended_next {once : Bool} {count : Nat} {ran : Bool} {r : Core.SysResult}
    (h : s.Attended) (drive : s.drive = .draining once count ran)
    (hs : s.next once count ran r = some s') : s'.Attended := by
  have broken : s.eventBreak = true → ∀ n, ¬ s.core.loop.Waits n := by
    intro brk n waits
    rw [h.unbroken n waits] at brk
    cases brk
  simp only [next] at hs
  split at hs
  · next brk =>
      have none := broken (by simp_all)
      split at hs
      · obtain ⟨c, hc, rfl⟩ := Option.map_eq_some_iff.mp hs
        have none : ∀ n, ¬ c.loop.Waits n := fun n waits =>
          none n (Core.waits_step h.sound hc waits rfl)
        exact ⟨(Core.step_follows h.sound hc).1, fun n waits => absurd waits (none n),
          fun n waits => absurd waits (none n), fun _ _ h => (by cases h)⟩
      · cases hs
        exact ⟨h.sound, fun n waits => absurd waits (none n),
          fun n waits => absurd waits (none n), fun _ _ h => (by cases h)⟩
  · split at hs
    · next done =>
        cases hs
        refine ⟨h.sound, fun n waits idle => ?_, h.unbroken, fun _ _ draining => ?_⟩
        · -- a `runOnce()` that leaves has run everyone who waited
          cases once with
          | true =>
              have := h.drained count ran drive n waits
              rw [done.2] at this
              cases this
          | false => simp at idle
        · dsimp only at draining
          split at draining <;> cases draining
    · obtain ⟨c, hc, rfl⟩ := Option.map_eq_some_iff.mp hs
      exact h.quiet hc rfl (fun _ _ _ h => (by cases h)) _ _
        (Or.inr ⟨once, count, ran, drive, rfl⟩) rfl rfl

/-- **The discipline keeps every waiter attended.** -/
theorem attended_step {a : Act} (h : s.Attended) (ok : s.Undisturbed a)
    (hs : s.step a = some s') : s'.Attended := by
  have enters : ∀ once, (s.enter once).Attended := by
    intro once
    rw [enter]
    cases drive : s.drive with
    | idle =>
        refine ⟨h.sound, fun n waits => absurd drive (h.driven n waits), fun _ _ => rfl,
          fun _ _ h => (by cases h)⟩
    | _ => exact h
  cases a with
  | task a => exact attended_task h ok hs
  | runOnce =>
      obtain ⟨-, eq⟩ := Option.ite_none_right_eq_some.mp hs
      cases eq
      exact enters true
  | run =>
      obtain ⟨-, eq⟩ := Option.ite_none_right_eq_some.mp hs
      cases eq
      exact enters false
  | stop =>
      obtain ⟨-, eq⟩ := Option.ite_none_right_eq_some.mp hs
      cases eq
      exact ⟨h.sound, h.driven, fun n waits => absurd waits (ok n), h.drained⟩
  | tick clock =>
      obtain ⟨-, eq⟩ := Option.ite_none_right_eq_some.mp hs
      cases eq
      exact ⟨h.sound, h.driven, h.unbroken, h.drained⟩
  | iterate ready order =>
      obtain ⟨once, drive, hs⟩ := iterate_iff.mp hs
      exact attended_iterate h drive ok hs
  | woken ready order =>
      obtain ⟨once, drive, hs⟩ := woken_iff.mp hs
      exact attended_woken h drive ok hs
  | pollFails =>
      obtain ⟨once, -, rfl⟩ := pollFails_iff.mp hs
      exact ⟨h.sound, fun n waits => absurd waits (ok n), h.unbroken, fun _ _ h => (by cases h)⟩
  | next r =>
      obtain ⟨once, count, ran, drive, hs⟩ := next_iff.mp hs
      exact attended_next h drive hs

theorem attended_init (endian : Endian) (pipeFd : Fd) (clock : Timeval) :
    (init endian pipeFd clock).Attended := by
  have none : ∀ n, ¬ (init endian pipeFd clock).core.loop.Waits n := by
    intro n waits
    simp [init, Core.init, Loop.new, Loop.Waits, Base.new, Base.Queued] at waits
  exact ⟨Core.sound_new 0 0 pipeFd, fun n waits => absurd waits (none n),
    fun n waits => absurd waits (none n), fun _ _ h => (by cases h)⟩

/-- **No orphaned waiter.**  In every run whose steps keep the discipline, whenever
a `connect`, `read`, `write`, `accept` or `sleep` waits for its event, some task is
inside `event_base_loop`. -/
theorem no_orphan {endian : Endian} {pipeFd : Fd} {clock : Timeval} {as : List Act} {s : System}
    (undisturbed : StepSystem.Meets step Undisturbed (init endian pipeFd clock) as)
    (run : StepSystem.run step (init endian pipeFd clock) as = some s) {n : Nat}
    (waits : s.core.loop.Waits n) : s.drive ≠ .idle :=
  (StepSystem.invariant_run_of_meets (fun _ _ _ h ok hs => attended_step h ok hs)
    (attended_init endian pipeFd clock) undisturbed run).driven n waits

/-- The discipline for calls and passes, looked up in the list of the calls that were made. -/
def Orderly (s : System) : Act → Prop
  | .task _ => (s.drive = .idle ∨ s.drive = .looping true) ∧ s.eventBreak = false
  | .iterate ready _ => ∀ n ∈ s.core.loop.made, s.core.loop.Waits n →
      s.core.loop.base.Wakes ready s.clock (.call n)
  | .next _ => True
  | _ => False

instance (s : System) : ∀ a, Decidable (s.Orderly a)
  | .task _ => inferInstanceAs (Decidable (_ ∧ _))
  | .iterate ready _ => inferInstanceAs (Decidable (∀ n ∈ s.core.loop.made, s.core.loop.Waits n →
      s.core.loop.base.Wakes ready s.clock (.call n)))
  | .next _ => isTrue trivial
  | .runOnce | .run | .stop | .tick _ | .woken .. | .pollFails => isFalse id

theorem undisturbed_of_orderly {a : Act} (sound : s.core.loop.Sound) (h : s.Orderly a) :
    s.Undisturbed a := by
  cases a with
  | task a =>
      intro _
      obtain ⟨idle | looping, unbroken⟩ := h
      · rw [idle]
        trivial
      · rw [looping]
        exact unbroken
  | iterate ready order => exact fun _ _ n waits => h n (Core.at_waiting sound waits).1 waits
  | next r => trivial
  | _ => exact h.elim

/-- An `accept`, and a read of a client that was accepted before; one pass wakes both, and the
callback of the one has run. -/
def acceptAndRead : List Act :=
  [ .task (.listen (.ok 4)), .task (.kernel (.incoming 1)), .task (.accept 0 1 {} ⟨0, 0⟩),
    .iterate [(4, { epollin := true })] [], .next (.fd 5), .next .nothing,
    .task (.accept 1 1 {} ⟨0, 0⟩), .task (.read 2 2 none {} ⟨0, 0⟩),
    .task (.kernel (.incoming 1)), .task (.kernel (.arrive 2 [6])),
    .iterate [(4, { epollin := true }), (5, { epollin := true })] [], .next (.fd 6) ]

theorem no_orphan_acceptAndRead :
    ∃ s, StepSystem.run step (init .little 3 ⟨1, 0⟩) acceptAndRead = some s ∧
      (s.core.loop.call 1).ran = 1 ∧ s.core.loop.Waits 2 ∧ s.drive ≠ .idle := by
  have facts : (StepSystem.run step (init .little 3 ⟨1, 0⟩) acceptAndRead).map
      (fun s => ((s.core.loop.call 1).ran, decide (s.core.loop.Waits 2))) = some (1, true) := by
    decide
  have orderly : StepSystem.Meets step Orderly (init .little 3 ⟨1, 0⟩) acceptAndRead := by decide
  obtain ⟨s, run, facts⟩ := Option.map_eq_some_iff.mp facts
  simp only [Prod.mk.injEq, decide_eq_true_eq] at facts
  obtain ⟨ran, waits⟩ := facts
  have undisturbed : StepSystem.Meets step Undisturbed (init .little 3 ⟨1, 0⟩) acceptAndRead :=
    orderly.imp_of_invariant (P := fun s : System => s.core.loop.Sound)
      (fun _ _ _ sound hs => sound_step sound hs)
      (fun _ _ sound ok => undisturbed_of_orderly sound ok) (Core.sound_new 0 0 3)
  exact ⟨s, run, ran, waits, no_orphan undisturbed run waits⟩

/-- One task schedules a closure for the next iteration, then accepts. -/
def scheduleThenAccept : List Act :=
  [ .task (.listen (.ok 4)), .task (.schedule 0 false ⟨0⟩ false {} ⟨0, 0⟩),
    .task (.accept 1 1 {} ⟨0, 0⟩), .iterate [] [], .next .nothing, .next .nothing ]

/-- **A pending timer orphans an `accept`.**  The closure runs, `runOnce()` has run
a callback and returns, and the `accept` is left registered with nobody in
`event_base_loop`. -/
theorem orphan_scheduleThenAccept :
    ∃ s, StepSystem.run step (init .little 3 ⟨1, 0⟩) scheduleThenAccept = some s ∧
      (s.core.loop.call 0).ran = 1 ∧ s.core.loop.Waits 1 ∧ s.drive = .idle := by
  have facts : (StepSystem.run step (init .little 3 ⟨1, 0⟩) scheduleThenAccept).map
      (fun s => ((s.core.loop.call 0).ran, decide (s.core.loop.Waits 1), s.drive)) =
      some (1, true, .idle) := by decide
  obtain ⟨s, run, facts⟩ := Option.map_eq_some_iff.mp facts
  simp only [Prod.mk.injEq, decide_eq_true_eq] at facts
  exact ⟨s, run, facts⟩

end System

end SwiftEvent
