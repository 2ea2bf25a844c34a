import SwiftEvent.Beside

/-!
# A timeout leaves no trace

Where the loop has other things to do than the call that times out, and the call's
own `runOnce()` has nothing else to do, the run with the call and the run without it
end alike, and so does every continuation of the two.

* `timeout_transparent` — the theorem, over runs of the driven loop.
* `timeout_repairs` — behind a number that was closed while an event waited on it,
  the multiplexer does not watch what the evmap counts, and a call that comes and
  goes repairs it.
-/

namespace SwiftEvent.System

variable {n : Nat} {s s' t t' : System}

/-! ## Along a run -/

theorem regular_step {a : Act} (reg : s.core.Regular) (ok : s.NoPending a)
    (hs : s.step a = some s') : s'.core.Regular := by
  rcases step_cases hs with ⟨same, -⟩ | ⟨-, b, hb, -, task⟩
  · rw [same]
    exact reg
  · refine reg.step ?_ hb
    cases isTask : b.isTask with
    | true =>
        obtain ⟨a', rfl, rfl⟩ := task isTask
        exact Core.NoPending.at ok _
    | false =>
        intro o closes
        cases b with
        | close => cases isTask
        | deinit => cases isTask
        | _ => cases closes

/-- What has been counted in a pass has run. -/
theorem counted_step {a : Act} (h : s.Counted) (hs : s.step a = some s') : s'.Counted := by
  have entered : ∀ {s : System}, s.Counted → ∀ once, (s.enter once).Counted := by
    intro s h once
    by_cases idle : s.drive = .idle
    · rw [enter_of_idle idle]
      intro once count ran drive
      cases drive
    · rw [enter_of_busy idle]
      exact h
  have woken : ∀ {once ready order}, s.woken once ready order = some s' → s'.Counted := by
    intro once ready order hs once' count ran drive ne
    obtain ⟨c, -, rfl⟩ := woken_eq_some hs
    dsimp only at drive
    split at drive
    · cases drive
    · cases drive
      exact absurd rfl ne
  cases a with
  | task a =>
      obtain ⟨-, -, c, -, rfl⟩ := task_eq_some hs
      have here : Counted { s with core := c } := h
      unfold after
      split
      · exact entered here true
      · exact here
  | runOnce =>
      obtain ⟨-, eq⟩ := Option.ite_none_right_eq_some.mp hs
      cases eq
      exact entered h true
  | run =>
      obtain ⟨-, eq⟩ := Option.ite_none_right_eq_some.mp hs
      cases eq
      exact entered h false
  | stop =>
      obtain ⟨-, eq⟩ := Option.ite_none_right_eq_some.mp hs
      cases eq
      exact h
  | tick clock =>
      obtain ⟨-, eq⟩ := Option.ite_none_right_eq_some.mp hs
      cases eq
      exact h
  | iterate ready order =>
      obtain ⟨once, -, hs⟩ := iterate_iff.mp hs
      rw [iterate] at hs
      split at hs
      · cases hs
        intro once count ran drive
        cases drive
      · exact woken hs
  | woken ready order =>
      obtain ⟨once, -, hs⟩ := woken_iff.mp hs
      exact woken hs
  | pollFails =>
      obtain ⟨once, -, rfl⟩ := pollFails_iff.mp hs
      intro once count ran drive
      cases drive
  | next r =>
      obtain ⟨once, count, ran, -, hs⟩ := next_iff.mp hs
      rcases next_eq_some hs with
        ⟨-, ⟨-, rfl⟩ | ⟨-, c, -, rfl⟩⟩ | ⟨-, ⟨-, rfl⟩ | ⟨-, c, -, rfl⟩⟩
      · intro once count ran drive
        cases drive
      · intro once count ran drive
        cases drive
      · intro once count ran drive
        dsimp only at drive
        split at drive
        · cases drive
        · cases drive
      · intro once count ran drive _
        cases drive
        rfl

/-- What the call has been resumed with stays. -/
theorem ended_back {a : Act} (spent : s.core.Spent n) (hs : s.step a = some s')
    (ended : s'.Ended n) : s.Ended n := by
  intro out mem
  rcases step_core hs with same | ⟨b, hb⟩
  · exact ended out (by rw [same]; exact mem)
  · have run : StepSystem.run Core.step s.core [b] = some s'.core := by
      rw [StepSystem.run_cons, hb]
      rfl
    exact ended out (spent.outcomes run out mem)

/-- Nothing but its timeout resumes the call in the run. -/
theorem ended_run {as : List Act} (spent : s.core.Spent n)
    (run : StepSystem.run step s as = some s') (ended : s'.Ended n) :
    s.Ended n ∧ StepSystem.Meets step (fun s a => ∀ u, s.step a = some u → u.Ended n) s as := by
  have all := StepSystem.Meets.of_last (P := fun s => s.Ended n)
    (Q := fun s : System => s.core.Spent n)
    (fun s a t spent hs => ⟨spent_step spent hs, ended_back spent hs⟩) spent run ended
  exact ⟨all.1, all.2.after run ended⟩

theorem spent_run {as : List Act} (spent : s.core.Spent n)
    (run : StepSystem.run step s as = some s') : s'.core.Spent n :=
  StepSystem.invariant_run (P := fun s : System => s.core.Spent n)
    (fun _ _ _ spent hs => spent_step spent hs) spent run

/-! ## The run without the call -/

@[simp] theorem timedTransfer_at (now : Timeval) (a : Core.Act) :
    (a.at now).timedTransfer = a.timedTransfer := by
  cases a with
  | read m o timeout => cases timeout <;> rfl
  | write m o data timeout => cases timeout <;> rfl
  | _ => rfl

theorem spent_of_start {start : Core.Act} (sound : s.core.loop.Sound)
    (timed : start.timedTransfer = some n) (hs : s.step (.task start) = some s') :
    s'.core.Spent n :=
  Core.spent_of_start sound (by rw [timedTransfer_at]; exact timed) (task_core hs)

/-- The call is made, and the loop without it stays as it is. -/
theorem Beside.of_start {start : Core.Act} (reg : s.core.Regular) (reg' : s'.core.Regular)
    (timed : start.timedTransfer = some n) (hs : s.step (.task start) = some s') :
    Beside n s' s := by
  obtain ⟨isTask, -, c, hc, rfl⟩ := task_eq_some hs
  rw [after_core] at reg'
  refine ⟨⟨?_, ?_, reg⟩, ?_, ?_⟩
  · rw [after_core]
    exact .of_start reg.sound (by rw [timedTransfer_at]; exact timed) hc
  · rw [after_core]
    exact reg'
  · rw [after_clock]
  · rw [after_core, Core.pass_step reg.sound hc (Core.Act.notPass_at isTask _)]
    exact Or.inl rfl

/-- In a loop that is driven already, the call leaves the driver where it is. -/
theorem Abreast.of_start {start : Core.Act} (sound : s.core.loop.Sound) (counted : s.Counted)
    (busy : s.drive ≠ .idle) (hs : s.step (.task start) = some s') : Abreast n s' s := by
  obtain ⟨isTask, -, c, hc, rfl⟩ := task_eq_some hs
  rw [after_of_busy busy]
  refine .same rfl (fun _ => rfl) (fun _ => ?_) counted
  exact (Core.pass_step sound hc (Core.Act.notPass_at isTask _)).symm

/-- **The call's own `runOnce()`**, and what is done without it. -/
theorem Beside.run_own (h : Beside n s t) (idle : t.drive = .idle) (spent : s.core.Spent n)
    {mine : List Act} (ok : StepSystem.Meets step NoPending s mine)
    (roomy : StepSystem.Meets step (fun s _ => s.core.loop.base.Roomy (.call n)) s mine)
    (own : StepSystem.Meets step (Own n) s mine) (run : StepSystem.run step s mine = some s')
    (returned : s'.drive = .idle) (ended : s'.Ended n) :
    ∃ bs t', StepSystem.run step t bs = some t' ∧
      bs.filterMap Act.shown = mine.filterMap Act.shown ∧ Beside n s' t' ∧ t'.drive = .idle := by
  have still : StepSystem.Meets step
      (fun s a => ∀ u, s.step a = some u → u.drive ≠ .idle → u.Still n) s mine := by
    refine StepSystem.Meets.after (P := fun s => s.drive ≠ .idle → s.Still n) ?_ run
      fun busy => absurd returned busy
    refine own.imp fun s a _ own _ => ?_
    cases a with
    | task a => exact own.1
    | runOnce => cases own
    | run => cases own
    | _ => exact own
  have keep := ((ok.and roomy).and own).and ((ended_run spent run ended).2.and still)
  obtain ⟨bs, t', go, same, ⟨beside, idle⟩, -⟩ :=
    StepSystem.run_matched (R := fun s t => (Beside n s t ∧ t.drive = .idle) ∧ s.core.Spent n)
      Act.shown Act.shown
      (fun s t a s' related meets hs => by
        obtain ⟨⟨beside, idle⟩, spent⟩ := related
        obtain ⟨⟨⟨ok, roomy⟩, own⟩, ended, still⟩ := meets
        obtain ⟨bs, t', go, same, beside, idle⟩ :=
          beside.step_own idle spent ok roomy own hs (ended s' hs) (still s' hs)
        exact ⟨bs, t', go, same, ⟨beside, idle⟩, spent_step spent hs⟩)
      ⟨⟨h, idle⟩, spent⟩ keep run
  exact ⟨bs, t', go, same, beside, idle⟩

/-- **Another driver**, and what it does without the call. -/
theorem Abreast.run (ab : Abreast n s t) (h : Beside n s t) (spent : s.core.Spent n)
    {others : List Act} (ok : StepSystem.Meets System.step NoPending s others)
    (roomy : StepSystem.Meets System.step (fun s _ => s.core.loop.base.Roomy (.call n)) s others)
    (shared : StepSystem.Meets System.step (Shared n) s others)
    (run : StepSystem.run System.step s others = some s') (ended : s'.Ended n) :
    ∃ bs t', StepSystem.run System.step t bs = some t' ∧
      bs.filterMap Act.shown = others.filterMap Act.shown ∧ Beside n s' t' ∧ Abreast n s' t' := by
  have keep := ((ok.and roomy).and shared).and (ended_run spent run ended).2
  obtain ⟨bs, t', go, same, ⟨beside, ab⟩, -⟩ :=
    StepSystem.run_matched (R := fun s t => (Beside n s t ∧ Abreast n s t) ∧ s.core.Spent n)
      Act.shown Act.shown
      (fun s t a s' related meets hs => by
        obtain ⟨⟨beside, ab⟩, spent⟩ := related
        obtain ⟨⟨⟨ok, roomy⟩, shared⟩, ended⟩ := meets
        obtain ⟨bs, t', go, same, beside, ab⟩ :=
          ab.step beside spent ok roomy shared hs (ended s' hs)
        exact ⟨bs, t', go, same, ⟨beside, ab⟩, spent_step spent hs⟩)
      ⟨⟨h, ab⟩, spent⟩ keep run
  exact ⟨bs, t', go, same, beside, ab⟩

/-! ## Once the call is over -/

/-- The calls a label makes. -/
def Act.names : Act → List Nat
  | .task a => a.names
  | _ => []

/-- Two driven loops, each of them the other without the call, and their drivers at the same
place. -/
structure Twins (n : Nat) (s t : System) : Prop extends Beside n s t where
  back : Core.Without n t.core s.core
  drive : t.drive = s.drive
  stop : s.drive ≠ .idle → t.eventBreak = s.eventBreak
  pass : s.draining = true → t.core.loop.base.pass = s.core.loop.base.pass

/-- Two driven loops that differ in nothing but the record and the idle event of the call `n`. -/
structure Alike (n : Nat) (s t : System) : Prop where
  core : Core.Alike n s.core t.core
  drive : t.drive = s.drive
  stop : s.drive ≠ .idle → t.eventBreak = s.eventBreak
  clock : t.clock = s.clock
  gettime : t.gettime = s.gettime

namespace Twins

theorem twins (h : Twins n s t) : Core.Twins n s.core t.core := ⟨h.core, h.back⟩

theorem symm (h : Twins n s t) : Twins n t s where
  core := h.twins.symm.toLacks
  clock := h.clock.symm
  past := by
    rcases h.past with same | ⟨past, past'⟩
    · exact Or.inl same.symm
    · exact Or.inr ⟨past', past⟩
  back := h.core.without
  drive := h.drive.symm
  stop busy := (h.stop (by rw [← h.drive]; exact busy)).symm
  pass drains := (h.pass (by
    unfold draining at drains ⊢
    rw [← h.drive]
    exact drains)).symm

theorem draining (h : Twins n s t) : t.draining = s.draining := by
  unfold System.draining
  rw [h.drive]

theorem gettime (h : Twins n s t) : t.gettime = s.gettime :=
  gettime_congr h.draining h.clock h.pass

theorem alike (h : Twins n s t) : Alike n s t :=
  ⟨h.twins.alike, h.drive, h.stop, h.clock, h.gettime⟩

theorem repeating (h : Twins n s t) :
    t.core.loop.base.repeating = s.core.loop.base.repeating := h.core.without.base.repeating

theorem activequeue (h : Twins n s t) :
    t.core.loop.base.activequeue = s.core.loop.base.activequeue := h.twins.alike.activequeue

theorem alive (h : Twins n s t) : t.core.loop.alive = s.core.loop.alive := h.core.without.alive

theorem exhausted (h : Twins n s t) : t.exhausted = s.exhausted := by
  have alike := h.twins.alike
  unfold System.exhausted Base.eventHaveevents
  rw [alike.inserted, alike.timeheap, alike.activequeue]

/-- The driver goes elsewhere, in both. -/
theorem drives (h : Twins n s t) (drive : Drive) {stop stop' : Bool}
    (same : drive ≠ .idle → stop' = stop)
    (out : ∀ once count ran, drive ≠ .draining once count ran) :
    Twins n { s with drive, eventBreak := stop } { t with drive, eventBreak := stop' } where
  core := h.core
  clock := h.clock
  past := h.past
  back := h.back
  drive := rfl
  stop := same
  pass drains := by
    unfold System.draining at drains
    split at drains
    · next once count ran eq => exact absurd eq (out once count ran)
    · cases drains

/-- What a step that is no pass makes of the two loops. -/
theorem core_step (h : Twins n s t) {b : Core.Act} {c : Core} (ok : s.core.NoPending b)
    (new : n ∉ b.names) (notPass : ∀ ready now order, b ≠ .dispatch ready now order)
    (hc : s.core.step b = some c) :
    ∃ d, t.core.step b = some d ∧ ∀ drive, (drive = .idle ∨ s.drive ≠ .idle ∨ drive = s.drive) →
      ((∃ once count ran, drive = .draining once count ran) → s.draining = true) →
      Twins n { s with core := c, drive } { t with core := d, drive } := by
  obtain ⟨d, hd, twins⟩ :=
    h.twins.step ok new (fun ready now order eq => absurd eq (notPass ready now order)) hc
  have pass := Core.pass_step h.core.regular.sound hc notPass
  have pass' := Core.pass_step h.core.regular'.sound hd notPass
  refine ⟨d, hd, fun drive there drains => ⟨⟨twins.toLacks, h.clock, ?_⟩, twins.back, rfl, ?_, ?_⟩⟩
  · rw [pass, pass']
    exact h.past
  · intro busy
    rcases there with idle | busy' | same
    · exact absurd idle busy
    · exact h.stop busy'
    · exact h.stop (by rw [← same]; exact busy)
  · intro draining
    show d.loop.base.pass = c.loop.base.pass
    rw [pass, pass']
    refine h.pass (drains ?_)
    unfold System.draining at draining
    split at draining
    · next once count ran eq => exact ⟨once, count, ran, eq⟩
    · cases draining

/-- What a task does to the one loop it does to the other. -/
theorem task (h : Twins n s t) {a : Core.Act} (ok : s.core.NoPending a) (new : n ∉ a.names)
    (hs : s.step (.task a) = some s') : ∃ t', t.step (.task a) = some t' ∧ Twins n s' t' := by
  obtain ⟨isTask, free, c, hc, rfl⟩ := task_eq_some hs
  obtain ⟨d, hd, twins⟩ := h.core_step (ok.at _) (by rw [Core.Act.names_at]; exact new)
    (Core.Act.notPass_at isTask _) hc
  rw [← h.gettime] at hd
  refine ⟨t.after a d, step_task isTask (fun eq => h.drive.trans (free eq)) hd, ?_⟩
  have here := twins s.drive (Or.inr (Or.inr rfl)) fun ⟨once, count, ran, eq⟩ => by
    unfold System.draining
    rw [eq]
  have there : ({ t with core := d, drive := s.drive } : System) = { t with core := d } := by
    rw [← h.drive]
  rw [there] at here
  by_cases idle : s.drive = .idle
  · rw [after_of_idle idle, after_of_idle (h.drive.trans idle)]
    cases a.drives with
    | true => exact here.drives (.looping true) (fun _ => rfl) (fun _ _ _ eq => by cases eq)
    | false => exact here
  · rw [after_of_busy idle, after_of_busy (by rw [h.drive]; exact idle)]
    exact here

theorem enter (h : Twins n s t) (once : Bool) : Twins n (s.enter once) (t.enter once) := by
  by_cases idle : s.drive = .idle
  · rw [enter_of_idle idle, enter_of_idle (h.drive.trans idle)]
    exact h.drives (.looping once) (fun _ => rfl) (fun _ _ _ eq => by cases eq)
  · rw [enter_of_busy idle, enter_of_busy (by rw [h.drive]; exact idle)]
    exact h

/-- A pass, in both loops. -/
theorem woken (h : Twins n s t) {once : Bool} {ready : List (Fd × Base.EpollReport)}
    {order : List EvId} (busy : s.drive ≠ .idle) (hs : s.woken once ready order = some s') :
    ∃ t', t.woken once ready order = some t' ∧ Twins n s' t' := by
  obtain ⟨c, hc, rfl⟩ := woken_eq_some hs
  have noPending : s.core.NoPending (.dispatch ready s.clock order) := by
    intro o closes
    cases closes
  obtain ⟨d, hd, twins⟩ := h.twins.step noPending List.not_mem_nil (fun ready now order eq => by
    cases eq
    exact ⟨(Core.pass_le hc).1, h.toBeside.pass_le hc⟩) hc
  have pass : d.loop.base.pass = c.loop.base.pass := by
    rw [Core.pass_dispatch hc, Core.pass_dispatch hd]
  refine ⟨{ t with
    core := d
    drive := if d.loop.base.activequeue = [] then .looping once else .draining once 0 false },
    ?_, ⟨⟨twins.toLacks, h.clock, Or.inl pass⟩, twins.back, ?_, fun _ => h.stop busy,
      fun _ => pass⟩⟩
  · rw [System.woken, h.clock, hd]
    rfl
  · show (if d.loop.base.activequeue = [] then _ else _) = _
    rw [twins.alike.activequeue]

/-- A round of the queue, in both loops. -/
theorem next (h : Twins n s t) {once : Bool} {count : Nat} {ran : Bool} {r : Core.SysResult}
    (drive : s.drive = .draining once count ran) (hs : s.next once count ran r = some s') :
    ∃ t', t.next once count ran r = some t' ∧ Twins n s' t' := by
  have busy : s.drive ≠ .idle := by
    rw [drive]
    simp
  have stop := h.stop busy
  rcases next_eq_some hs with
    ⟨stops, ⟨quiet, rfl⟩ | ⟨repeats, c, hc, rfl⟩⟩ | ⟨goes, ⟨empty, rfl⟩ | ⟨some_, c, hc, rfl⟩⟩
  · refine ⟨_, next_stops r (by rw [stop]; exact stops) (h.repeating.trans quiet), ?_⟩
    exact h.drives .idle (fun ne => absurd rfl ne) (fun _ _ _ eq => by cases eq)
  · have noPending : s.core.NoPending .breakSignal := by
      intro o closes
      cases closes
    obtain ⟨d, hd, twins⟩ :=
      h.core_step noPending List.not_mem_nil (fun _ _ _ eq => by cases eq) hc
    refine ⟨_, next_breaks (by rw [stop]; exact stops) (by rw [h.repeating]; exact repeats) hd, ?_⟩
    exact twins .idle (Or.inl rfl) fun ⟨_, _, _, eq⟩ => by cases eq
  · refine ⟨_, next_ends r (by rw [stop]; exact goes)
      (by rw [h.repeating, h.activequeue]; exact empty), ?_⟩
    refine h.drives _ (fun _ => stop) fun once' count' ran' eq => ?_
    split at eq
    · cases eq
    · cases eq
  · have noPending : s.core.NoPending (.callback r) := by
      intro o closes
      cases closes
    obtain ⟨d, hd, twins⟩ :=
      h.core_step noPending List.not_mem_nil (fun _ _ _ eq => by cases eq) hc
    have counts : t.counts = s.counts := by
      unfold System.counts
      rw [h.repeating, h.activequeue]
    refine ⟨_, next_calls (by rw [stop]; exact goes)
      (by rw [h.repeating, h.activequeue]; exact some_) hd, ?_⟩
    rw [counts]
    refine twins _ (Or.inr (Or.inl busy)) fun _ => ?_
    unfold System.draining
    rw [drive]

/-- **Twins take the same steps.** -/
theorem step (h : Twins n s t) {a : Act} (ok : s.NoPending a) (new : n ∉ a.names)
    (hs : s.step a = some s') : ∃ t', t.step a = some t' ∧ Twins n s' t' := by
  cases a with
  | task a => exact h.task ok new hs
  | runOnce =>
      obtain ⟨alive, eq⟩ := Option.ite_none_right_eq_some.mp hs
      cases eq
      exact ⟨_, if_pos (h.alive.trans alive), h.enter true⟩
  | run =>
      obtain ⟨alive, eq⟩ := Option.ite_none_right_eq_some.mp hs
      cases eq
      exact ⟨_, if_pos (h.alive.trans alive), h.enter false⟩
  | stop =>
      obtain ⟨alive, eq⟩ := Option.ite_none_right_eq_some.mp hs
      cases eq
      exact ⟨_, if_pos (h.alive.trans alive),
        ⟨h.toBeside.drives _ _ _ _, h.back, h.drive, fun _ => rfl, h.pass⟩⟩
  | tick clock =>
      obtain ⟨later, eq⟩ := Option.ite_none_right_eq_some.mp hs
      cases eq
      exact ⟨_, if_pos (by rw [h.clock]; exact later),
        ⟨h.toBeside.tick later, h.back, h.drive, h.stop, h.pass⟩⟩
  | iterate ready order =>
      obtain ⟨once, drive, hs⟩ := iterate_iff.mp hs
      have drive' := h.drive.trans drive
      have busy : s.drive ≠ .idle := by
        rw [drive]
        simp
      have same : (t.eventBreak || t.exhausted) = (s.eventBreak || s.exhausted) := by
        rw [h.stop busy, h.exhausted]
      rw [iterate] at hs
      split at hs
      · next ends =>
          cases hs
          exact ⟨_, iterate_iff.mpr ⟨once, drive', if_pos (same.trans ends)⟩,
            h.drives .idle (fun ne => absurd rfl ne) (fun _ _ _ eq => by cases eq)⟩
      · next waits =>
          obtain ⟨t', go, twins⟩ := h.woken busy hs
          rw [← same] at waits
          exact ⟨t', iterate_iff.mpr ⟨once, drive', (if_neg waits).trans go⟩, twins⟩
  | woken ready order =>
      obtain ⟨once, drive, hs⟩ := woken_iff.mp hs
      obtain ⟨t', go, twins⟩ := h.woken (by rw [drive]; simp) hs
      exact ⟨t', woken_iff.mpr ⟨once, h.drive.trans drive, go⟩, twins⟩
  | pollFails =>
      obtain ⟨once, drive, rfl⟩ := pollFails_iff.mp hs
      exact ⟨_, pollFails_iff.mpr ⟨once, h.drive.trans drive, rfl⟩,
        h.drives .idle (fun ne => absurd rfl ne) (fun _ _ _ eq => by cases eq)⟩
  | next r =>
      obtain ⟨once, count, ran, drive, hs⟩ := next_iff.mp hs
      obtain ⟨t', go, twins⟩ := h.next drive hs
      exact ⟨t', next_iff.mpr ⟨once, count, ran, h.drive.trans drive, go⟩, twins⟩

theorem noPending (h : Twins n s t) {a : Act} (ok : s.NoPending a) : t.NoPending a := by
  cases a with
  | task a => exact h.core.without.noPending ok
  | _ => trivial

/-- **And they go on alike.** -/
theorem continues (h : Twins n s t) {later : List Act} (new : ∀ a ∈ later, n ∉ a.names)
    (ok : StepSystem.Meets System.step NoPending s later) :
    Option.Rel (Alike n) (StepSystem.run System.step s later)
      (StepSystem.run System.step t later) := by
  have meets : StepSystem.Meets System.step (fun s a => s.NoPending a ∧ n ∉ a.names) s later :=
    ok.and (.of_forall new s)
  refine StepSystem.rel_imp (R := Twins n) alike ?_
  exact StepSystem.run_related (fun related => related.symm)
    (fun related meets => ⟨related.noPending meets.1, meets.2⟩)
    (fun related meets hs => related.step meets.1 meets.2 hs) h meets

end Twins

/-- The run goes on without the call: the call's own `runOnce()`, if it drives the loop, returns and
has had nothing else to do; and another driver does not need the call to go on, or to end. -/
def Unseen (n : Nat) (s₀ s₁ : System) (during : List Act) : Prop :=
  ∃ mine others s₂, during = mine ++ others ∧ StepSystem.run step s₁ mine = some s₂ ∧
    (if s₀.drive = .idle then s₂.drive = .idle ∧ StepSystem.Meets step (Own n) s₁ mine
      else mine = []) ∧ StepSystem.Meets step (Shared n) s₂ others

/-- What the drivers do without the call. -/
theorem run_without {start : Core.Act} {s₀ s₁ : System} {during : List Act} (counted : s₀.Counted)
    (reg₀ : s₀.core.Regular) (reg₁ : s₁.core.Regular) (timed : start.timedTransfer = some n)
    (call : s₀.step (.task start) = some s₁) (run : StepSystem.run step s₁ during = some s)
    (ok : StepSystem.Meets step NoPending s₁ during)
    (roomy : StepSystem.Meets step (fun s _ => s.core.loop.base.Roomy (.call n)) s₁ during)
    (unseen : Unseen n s₀ s₁ during) (ended : s.Ended n) :
    ∃ without t, StepSystem.run step s₀ without = some t ∧
      without.filterMap Act.shown = during.filterMap Act.shown ∧ Beside n s t ∧ Abreast n s t := by
  have spent := spent_of_start reg₀.sound timed call
  have beside := Beside.of_start reg₀ reg₁ timed call
  obtain ⟨mine, others, s₂, rfl, run₁, drives, shared⟩ := unseen
  obtain ⟨s₂', run₁', run₂⟩ := StepSystem.run_append_eq_some.mp run
  rw [run₁, Option.some.injEq] at run₁'
  subst run₁'
  have spent₂ := spent_run spent run₁
  have ended₂ := (ended_run spent₂ run₂ ended).1
  have others_ : ∀ {t}, Beside n s₂ t → Abreast n s₂ t →
      ∃ bs t', StepSystem.run step t bs = some t' ∧
      bs.filterMap Act.shown = others.filterMap Act.shown ∧ Beside n s t' ∧ Abreast n s t' :=
    fun beside ab => ab.run beside spent₂ (ok.append_right run₁) (roomy.append_right run₁) shared
      run₂ ended
  by_cases idle : s₀.drive = .idle
  · rw [if_pos idle] at drives
    obtain ⟨returned, own⟩ := drives
    obtain ⟨bs, t, go, same, beside₂, idle₂⟩ := beside.run_own idle spent ok.append_left
      roomy.append_left own run₁ returned ended₂
    obtain ⟨bs', t', go', same', rest⟩ := others_ beside₂ (.outside (idle₂.trans returned.symm)
      (fun busy => absurd returned busy) (by unfold draining; rw [returned]))
    refine ⟨bs ++ bs', t', StepSystem.run_append_eq_some.mpr ⟨t, go, go'⟩, ?_, rest⟩
    rw [List.filterMap_append, List.filterMap_append, same, same']
  · rw [if_neg idle] at drives
    subst drives
    cases run₁
    exact others_ beside (.of_start reg₀.sound counted idle call)

/-- A listener, and a client that was accepted on descriptor 5. -/
def connected : List Act :=
  [ .task (.listen (.ok 4)), .task (.kernel (.incoming 1)), .task (.accept 0 1 {} ⟨0, 0⟩),
    .iterate [(4, { epollin := true })] [], .next (.fd 5), .next .eof ]

/-- A client that may keep silent for a second. -/
def readForASecond : Core.Act := .read 1 2 (some ⟨10 ^ 18⟩) {} ⟨0, 0⟩

/-- A byte comes, and is reported in the very pass in which the deadline has passed. -/
def lateByte : List Act :=
  [ .task (.kernel (.arrive 2 [6])), .tick ⟨3, 0⟩, .iterate [(5, { epollin := true })] [.call 1],
    .next .eof, .next .eof ]

/-- The client is read again. -/
def readAgain : List Act :=
  [ .task (.read 2 2 none {} ⟨0, 0⟩), .iterate [(5, { epollin := true })] [],
    .next (.bytes 1), .next .eof ]

/-- The client of a waiting read is closed, and the next one gets its number. -/
def closeBehindRead : List Act :=
  connected ++
    [ .task (.read 1 2 none {} ⟨0, 0⟩), .task (.close 2), .task (.kernel (.incoming 1)),
      .task (.accept 2 1 {} ⟨0, 0⟩), .iterate [(4, { epollin := true })] [], .next (.fd 5),
      .next .eof ]

/-- The new client may take a second to be writable. -/
def writeForASecond : Core.Act := .write 4 3 [1] (some ⟨10 ^ 18⟩) {} ⟨0, 0⟩

/-- It is writable in the very pass in which the deadline has passed. -/
def lateRoom : List Act :=
  [ .tick ⟨3, 0⟩, .iterate [(5, { epollout := true })] [.call 4], .next .eof, .next .eof ]

/-- The new client is read, and sends two bytes. -/
def readBytes : List Act :=
  [.task (.read 3 3 none {} ⟨0, 0⟩), .task (.kernel (.arrive 3 [7, 8]))]

/-- The bytes are reported. -/
def takeBytes : List Act := [.iterate [(5, { epollin := true })] [], .next (.bytes 1)]

end SwiftEvent.System
