import SwiftEvent.Refine
import Mathlib.Data.List.Perm.Basic
import Mathlib.Algebra.BigOperators.Group.List.Basic

/-!
# What is handed out and what comes back

Two resources go to libevent and have to come back: the event structures of
`event_new`, and the retained boxes.

* **Events.**  Signal registrations give theirs to `event_free`.  The calls that
  wait for a descriptor never do: the structure is left behind when the callback
  runs.  So the ledger balances exactly as long as none of these callbacks has
  run (`ledger_iff`).
* **Boxes.**  A callback takes its box, `schedule` takes it back when libevent
  refuses, `tearDown` releases those of signals.  `event_base_free` releases
  none: what is queued when the loop is deallocated leaks, timers included, and
  so does the box of a call that libevent refused (`retain_iff`).
-/

namespace SwiftEvent

namespace Loop

variable (l : Loop)

/-- Event structures obtained from `event_new`. -/
def allocated : Nat := (l.made.map fun n => (l.call n).allocs).sum

/-- Event structures given to `event_free`. -/
def released : Nat := (l.made.map fun n => (l.call n).frees).sum

/-- A call that waits, or has waited, for a descriptor. -/
def waitsIo (n : Nat) : Bool := (l.call n).kind.isIo && (l.call n).boxed

/-- The operations on descriptors whose callback has not run. -/
def outstanding : Nat := l.made.countP fun n => l.waitsIo n && (l.call n).ran == 0

/-- The events held by signal registrations that are not torn down. -/
def registered : Nat :=
  ((List.range l.nextReg).map fun r =>
    if (l.reg r).torndown then 0 else (l.reg r).events.length).sum

/-- **The ledger balances.** -/
def Balanced : Prop := l.allocated = l.released + (l.outstanding + l.registered)

instance : Decidable l.Balanced := inferInstanceAs (Decidable (_ = _))

/-- All events held by registrations. -/
def heldEvents : List Nat := (List.range l.nextReg).flatMap fun r => (l.reg r).events

variable {l}

theorem mem_heldEvents (regs : l.Regs) {n : Nat} :
    n ∈ l.heldEvents ↔ ∃ r, n ∈ (l.reg r).events := by
  simp only [heldEvents, List.mem_flatMap, List.mem_range]
  constructor
  · rintro ⟨r, -, mem⟩
    exact ⟨r, mem⟩
  · rintro ⟨r, mem⟩
    refine ⟨r, ?_, mem⟩
    by_contra ge
    rw [(regs.fresh r (by omega)).1] at mem
    simp at mem

theorem nodup_heldEvents (regs : l.Regs) : l.heldEvents.Nodup := by
  rw [heldEvents, List.nodup_flatMap]
  refine ⟨fun r _ => regs.nodup r, ?_⟩
  refine List.Pairwise.imp_of_mem ?_ List.nodup_range
  intro r r' _ _ ne n h h'
  exact ne (regs.disjoint r r' n h h')

theorem registered_eq (regs : l.Regs) : l.registered = l.heldEvents.length := by
  rw [registered, heldEvents, List.length_flatMap]
  congr 1
  refine List.map_congr_left fun r _ => ?_
  split
  · next torn => rw [regs.torndown r torn]; rfl
  · rfl

/-- The held events, counted among the calls. -/
theorem countP_heldEvents (sound : l.Sound) (nodup : l.made.Nodup) :
    l.made.countP (fun n => decide (n ∈ l.heldEvents)) = l.registered := by
  rw [registered_eq sound.regs, List.countP_eq_length_filter]
  refine List.Perm.length_eq ?_
  rw [List.perm_ext_iff_of_nodup (nodup.filter _) (nodup_heldEvents sound.regs)]
  intro n
  simp only [List.mem_filter, decide_eq_true_eq, and_iff_right_iff_imp]
  intro held
  obtain ⟨s, hs⟩ := sound.life n
  obtain rfl := hs.listening_of_held ((mem_heldEvents sound.regs).mp held)
  exact hs.1

/-- **One call's share of the ledger**: what it took and did not give back is one
event if it waits, or waited, for a descriptor, and one if a registration holds
it. -/
theorem allocs_eq (sound : l.Sound) {n : Nat} (made : n ∈ l.made) :
    (l.call n).allocs = (l.call n).frees +
      ((if l.waitsIo n then 1 else 0) + if n ∈ l.heldEvents then 1 else 0) := by
  have held := mem_heldEvents (n := n) sound.regs
  obtain ⟨s, hs⟩ := sound.life n
  have apart : (l.call n).kind.isSignal = true → (l.call n).kind.isIo = false := by
    cases (l.call n).kind <;> simp [Kind.isSignal, Kind.isIo]
  -- outside a registration, a box that was handed over took `news` events
  have plain : ∀ {released ran resumed}, ¬ (l.life n).held →
      (l.call n).Boxed (l.call n).news 0 released ran resumed →
      (l.call n).allocs = (l.call n).frees +
        ((if l.waitsIo n then 1 else 0) + if n ∈ l.heldEvents then 1 else 0) := by
    intro _ _ _ out boxed
    rw [boxed.allocs, boxed.frees, if_neg (fun h => out (held.mp h)), waitsIo, boxed.boxed]
    simp [Call.news]
  cases s with
  | unmade => exact absurd made hs.1
  | answered =>
      obtain ⟨-, idle, (hc : (l.call n).Answered)⟩ := hs
      rw [hc.allocs, hc.frees, if_neg (fun h => idle.held (held.mp h)), waitsIo, hc.boxed]
      simp
  | waiting => exact plain hs.2.2.1 hs.2.2.2.2.2.1.toBoxed
  | refused => exact plain hs.2.1.held hs.2.2.1.toBoxed
  | done => exact plain hs.2.1.held hs.2.2.1.toBoxed
  | dropped => exact plain hs.2.1.held hs.2.2.2.1.toBoxed
  | refunded =>
      obtain ⟨-, idle, (hc : (l.call n).Refunded)⟩ := hs
      rw [hc.allocs, hc.frees, if_neg (fun h => idle.held (held.mp h)), waitsIo, hc.io]
      simp
  | listening =>
      obtain ⟨-, inReg, -, (hc : (l.call n).Listening)⟩ := hs
      rw [hc.allocs, hc.frees, if_pos (held.mpr inReg), waitsIo, apart hc.signal]
      simp
  | closed =>
      obtain ⟨-, idle, (hc : (l.call n).Closed)⟩ := hs
      rw [hc.allocs, hc.frees, if_neg (fun h => idle.held (held.mp h)), waitsIo, apart hc.signal]
      simp

/-- A sum of indicators is a count. -/
theorem sum_map_ite (p : Nat → Bool) (ns : List Nat) :
    (ns.map fun n => if p n then 1 else 0).sum = ns.countP p := by
  induction ns with
  | nil => rfl
  | cons n ns ih =>
      rw [List.map_cons, List.sum_cons, ih, List.countP_cons]
      omega

/-- **What is really out**: an event for every operation on a descriptor ever
handed over, and one for every event a registration holds. -/
theorem allocated_eq (sound : l.Sound) (nodup : l.made.Nodup) :
    l.allocated = l.released + (l.made.countP l.waitsIo + l.registered) := by
  have shares : l.made.map (fun n => (l.call n).allocs) = l.made.map fun n =>
      (l.call n).frees + ((if l.waitsIo n then 1 else 0) +
        if decide (n ∈ l.heldEvents) then 1 else 0) := by
    refine List.map_congr_left fun n made => ?_
    rw [allocs_eq sound made]
    simp
  rw [allocated, shares, List.sum_map_add, List.sum_map_add, sum_map_ite, sum_map_ite,
    countP_heldEvents sound nodup]
  rfl

/-- The operations whose callback has not run, and those whose callback has. -/
theorem countP_waitsIo : l.made.countP l.waitsIo =
    l.outstanding + l.made.countP fun n => l.waitsIo n && (l.call n).ran != 0 := by
  rw [outstanding]
  generalize l.made = ns
  induction ns with
  | nil => rfl
  | cons n ns ih =>
      simp only [List.countP_cons, ih]
      cases l.waitsIo n <;> by_cases zero : (l.call n).ran = 0 <;> simp [zero] <;> omega

end Loop

namespace Core

/-- **The ledger balances exactly as long as no `connect`, `read`, `write` or
`accept` callback has run.** -/
theorem ledger_iff {endian : Endian} {pipeFd : Fd} {as : List Act} {c : Core}
    (run : StepSystem.run step (init endian pipeFd) as = some c) :
    c.loop.Balanced ↔
      ∀ n ∈ c.loop.made, (c.loop.call n).kind.isIo = true → (c.loop.call n).boxed = true →
        (c.loop.call n).ran = 0 := by
  rw [Loop.Balanced, Loop.allocated_eq (sound_run run) (nodup_made_run run),
    Loop.countP_waitsIo]
  constructor
  · intro balanced n made io boxed
    have none : c.loop.made.countP (fun n => c.loop.waitsIo n && (c.loop.call n).ran != 0) = 0 := by
      omega
    have := List.countP_eq_zero.mp none n made
    simpa [Loop.waitsIo, io, boxed] using this
  · intro quiet
    have none : c.loop.made.countP (fun n => c.loop.waitsIo n && (c.loop.call n).ran != 0) = 0 := by
      refine List.countP_eq_zero.mpr fun n made => ?_
      simp only [Loop.waitsIo, Bool.and_eq_true, bne_iff_ne, ne_eq, not_and, not_not, and_imp]
      exact quiet n made
    omega

/-- A listener with one `accept` pending. -/
def acceptPending : List Act := [.listen (.ok 4), .accept 0 1 {} ⟨0, 0⟩]

/-- The same, with its callback run: nothing is pending any more. -/
def acceptDone : List Act :=
  acceptPending ++ [.kernel (.incoming 1), .dispatch [(4, { epollin := true })] ⟨1, 0⟩ [],
    .callback (.fd 5)]

/-- Two signals besides, one of which has been delivered. -/
def acceptAndStream : List Act :=
  acceptPending ++
    [ .signalStream [{ n := 1, signum := 10 }, { n := 2, signum := 12 }], .raise 10,
      .dispatch [(3, { epollin := true })] ⟨1, 0⟩ [], .callback .nothing, .callback .nothing ]

theorem ledger_iff_acceptAndStream :
    ∃ c, StepSystem.run step (init .little 3) acceptAndStream = some c ∧
      c.loop.outstanding = 1 ∧ c.loop.registered = 2 ∧ (c.loop.call 1).ran = 1 ∧
      c.loop.Balanced := by
  have facts : (StepSystem.run step (init .little 3) acceptAndStream).map (fun c =>
      (c.loop.outstanding, c.loop.registered, (c.loop.call 1).ran,
        decide (∀ n ∈ c.loop.made, (c.loop.call n).kind.isIo = true →
          (c.loop.call n).boxed = true → (c.loop.call n).ran = 0))) = some (1, 2, 1, true) := by
    decide
  obtain ⟨c, run, facts⟩ := Option.map_eq_some_iff.mp facts
  simp only [Prod.mk.injEq, decide_eq_true_eq] at facts
  obtain ⟨outstanding, registered, ran, quiet⟩ := facts
  exact ⟨c, run, outstanding, registered, ran, (ledger_iff run).mpr quiet⟩

/-- **One event is lost for each completed operation.**  Nothing is pending, no
registration exists, and an event structure is still out. -/
theorem ledger_acceptDone :
    ∃ c, StepSystem.run step (init .little 3) acceptDone = some c ∧
      c.loop.outstanding = 0 ∧ c.loop.registered = 0 ∧ c.loop.base.inserted = [] ∧
      c.loop.allocated - c.loop.released = 1 ∧ ¬ c.loop.Balanced := by
  have facts : (StepSystem.run step (init .little 3) acceptDone).map (fun c =>
      (c.loop.outstanding, c.loop.registered, c.loop.base.inserted,
        c.loop.allocated - c.loop.released, decide c.loop.Balanced)) =
      some (0, 0, [], 1, false) := by decide
  obtain ⟨c, run, facts⟩ := Option.map_eq_some_iff.mp facts
  simp only [Prod.mk.injEq, decide_eq_false_iff_not] at facts
  exact ⟨c, run, facts⟩

/-! ## Boxes -/

/-- The records of the calls survive the loop. -/
theorem free_calls {c d : Core} (h : c.step .free = some d) :
    d.loop.made = c.loop.made ∧ d.loop.call = c.loop.call ∧
      ∀ r < c.loop.nextReg, (c.loop.reg r).torndown = true := by
  cases step_cases h with
  | free w alive torn hw => exact ⟨rfl, rfl, torn⟩
  | start _ drives => cases drives

/-- **What became of one box** when every registration is torn down. -/
theorem released_iff {l : Loop} (sound : l.Sound)
    (torn : ∀ r < l.nextReg, (l.reg r).torndown = true) {n : Nat} (made : n ∈ l.made)
    (boxed : (l.call n).boxed = true) (alive : l.alive = true) :
    (l.call n).released = 1 ↔
      ¬ l.base.Queued (.call n) ∧ ((l.call n).kind.isIo = true → (l.call n).added = true) := by
  obtain ⟨s, hs⟩ := sound.life n
  cases s with
  | unmade => exact absurd made hs.1
  | answered =>
      have : (l.call n).boxed = false := hs.2.2.boxed
      rw [boxed] at this
      cases this
  | waiting =>
      have : (l.call n).released = 0 := hs.2.2.2.2.2.1.released
      exact iff_of_false (by omega) fun h => h.1 hs.2.1
  | refused =>
      obtain ⟨-, -, (hc : (l.call n).Started), (added : (l.call n).added = false),
        (io : (l.call n).kind.isIo = true)⟩ := hs
      refine iff_of_false (by rw [hc.released]; omega) fun h => ?_
      have := h.2 io
      rw [added] at this
      cases this
  | done =>
      obtain ⟨-, idle, (hc : (l.call n).Done), (added : (l.call n).added = true)⟩ := hs
      exact iff_of_true hc.released ⟨idle.queued, fun _ => added⟩
  | refunded =>
      obtain ⟨-, idle, (hc : (l.call n).Refunded)⟩ := hs
      refine iff_of_true hc.released ⟨idle.queued, fun io => ?_⟩
      rw [hc.io] at io
      cases io
  | listening =>
      -- a registration holds it, so one is not torn down
      obtain ⟨-, ⟨r, mem⟩, -⟩ := hs
      have empty : (l.reg r).events = [] := by
        by_cases lt : r < l.nextReg
        · exact sound.regs.torndown r (torn r lt)
        · exact (sound.regs.fresh r (by omega)).1
      rw [empty] at mem
      simp at mem
  | closed =>
      obtain ⟨-, idle, (hc : (l.call n).Closed)⟩ := hs
      refine iff_of_true hc.released ⟨idle.queued, fun io => ?_⟩
      have := hc.signal
      revert this io
      cases (l.call n).kind <;> simp [Kind.isIo, Kind.isSignal]
  | dropped => exact absurd alive hs.2.2.1

/-- **Every box was released exactly once, if and only if nothing was queued when
the loop was deallocated and libevent had refused no call on a descriptor.** -/
theorem retain_iff {endian : Endian} {pipeFd : Fd} {as : List Act} {c d : Core}
    (run : StepSystem.run step (init endian pipeFd) as = some c) (free : c.step .free = some d) :
    (∀ n ∈ d.loop.made, (d.loop.call n).boxed = true → (d.loop.call n).released = 1) ↔
      (∀ n ∈ c.loop.made, ¬ c.loop.base.Queued (.call n)) ∧
      ∀ n ∈ c.loop.made, (c.loop.call n).kind.isIo = true → (c.loop.call n).boxed = true →
        (c.loop.call n).added = true := by
  obtain ⟨made, call, torn⟩ := free_calls free
  have sound := sound_run run
  have alive : c.loop.alive = true := (whenAlive_eq_some free).1
  rw [made, call]
  constructor
  · intro all
    refine ⟨fun n mem queued => ?_, fun n mem io boxed => ?_⟩
    · have boxed := sound.boxed_of_queued queued
      exact ((released_iff sound torn mem boxed alive).mp (all n mem boxed)).1 queued
    · exact ((released_iff sound torn mem boxed alive).mp (all n mem boxed)).2 io
  · intro ⟨quiet, accepted⟩ n mem boxed
    exact (released_iff sound torn mem boxed alive).mpr
      ⟨quiet n mem, fun io => accepted n mem io boxed⟩

theorem retain_iff_acceptDone :
    ∃ c d, StepSystem.run step (init .little 3) acceptDone = some c ∧ c.step .free = some d ∧
      ∀ n ∈ d.loop.made, (d.loop.call n).boxed = true → (d.loop.call n).released = 1 := by
  have facts : (StepSystem.run step (init .little 3) acceptDone).bind (fun c =>
      (c.step .free).map fun _ =>
        (decide (∀ n ∈ c.loop.made, ¬ c.loop.base.Queued (.call n)),
          decide (∀ n ∈ c.loop.made, (c.loop.call n).kind.isIo = true →
            (c.loop.call n).boxed = true → (c.loop.call n).added = true))) =
      some (true, true) := by decide
  obtain ⟨c, run, facts⟩ := Option.bind_eq_some_iff.mp facts
  obtain ⟨d, free, facts⟩ := Option.map_eq_some_iff.mp facts
  simp only [Prod.mk.injEq, decide_eq_true_eq] at facts
  exact ⟨c, d, run, free, (retain_iff run free).mpr facts⟩

/-- **A timer that is pending when the loop is deallocated leaks its box.** -/
theorem retain_pending_timer :
    ∃ c d, StepSystem.run step (init .little 3)
        [.schedule 0 false ⟨10 ^ 18⟩ false {} ⟨0, 0⟩] = some c ∧ c.step .free = some d ∧
      0 ∈ d.loop.made ∧ (d.loop.call 0).boxed = true ∧ (d.loop.call 0).released = 0 := by
  have facts : (StepSystem.run step (init .little 3)
      [.schedule 0 false ⟨10 ^ 18⟩ false {} ⟨0, 0⟩]).bind (fun c => (c.step .free).map fun d =>
        (decide (0 ∈ d.loop.made), (d.loop.call 0).boxed, (d.loop.call 0).released)) =
      some (true, true, 0) := by decide
  obtain ⟨c, run, facts⟩ := Option.bind_eq_some_iff.mp facts
  obtain ⟨d, free, facts⟩ := Option.map_eq_some_iff.mp facts
  simp only [Prod.mk.injEq, decide_eq_true_eq] at facts
  exact ⟨c, d, run, free, facts⟩

end Core

end SwiftEvent
