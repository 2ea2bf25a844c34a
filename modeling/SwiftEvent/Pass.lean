import SwiftEvent.Frame
import SwiftEvent.Drive
import Mathlib.Data.Prod.Lex

/-!
# One pass over the active queue

`event_process_active_single_queue` takes the first event of the queue until the
queue is empty, and callbacks may append to the queue while it does.  What they
can append are closures for `schedule` whose timeout is zero, which
`event_base_once` makes active on the spot, and signal events, which the callback
of the signal pipe makes active.

* Without a zero timeout, a pass invokes what was active when it began, and what
  the signal pipe reports if the pipe was active then; and it ends
  (`pass_bounded`).
* A closure scheduled with a zero timeout joins the running pass
  (`zero_delay_joins_pass`), not the next iteration.

The end of a pass is shown with a rank that tasks never raise and callbacks lower:
the entries that are not signals, then the signal entries, then what is left of a
repetition.
-/

namespace SwiftEvent

namespace Core

variable {c c' : Core} {a : Act} {n : Nat}

/-- Only signals have signal events. -/
structure Quiet (c : Core) : Prop where
  pipe : (c.loop.base.ev .signalPipe).evEvents.signal = false
  calls : ∀ n, c.loop.base.Queued (.call n) → (c.loop.call n).kind.isSignal = false →
    (c.loop.base.ev (.call n)).evEvents.signal = false

theorem quiet_step (sound : c.loop.Sound) (quiet : c.Quiet) (hs : c.step a = some c') :
    c'.Quiet := by
  refine ⟨?_, fun n queued signal => ?_⟩
  · have known : c.Known .signalPipe := trivial
    rw [(Event.shape_eq (shape_step sound hs known)).2.1]
    exact quiet.pipe
  · by_cases made : n ∈ c.loop.made
    · have kind : (c'.loop.call n).kind = (c.loop.call n).kind :=
        (Life.kind_follows ((step_follows sound hs).2 n) made).1
      have known : c.Known (.call n) := made
      rw [kind] at signal
      rw [(Event.shape_eq (shape_step sound hs known)).2.1]
      exact quiet.calls n (queued_back sound hs made queued signal) signal
    · rcases shape_of_new sound hs made queued signal with ⟨_, _, _, _, _, starts, shape⟩ | shape
      · rw [(Event.shape_eq shape).2.1]
        cases starts <;> rfl
      · rw [(Event.shape_eq shape).2.1]

/-- The entry of the queue is not one of a signal. -/
def plain (c : Core) : EvId → Bool
  | .signalPipe => true
  | .call n => !(c.loop.call n).kind.isSignal

/-- How often the callback of a signal is still to be repeated. -/
def left (c : Core) : Nat := (c.loop.base.repeating.map Prod.snd).getD 0

/-- The rank of a pass. -/
def rank (c : Core) : ℕ ×ₗ (ℕ ×ₗ ℕ) :=
  toLex (c.loop.base.activequeue.countP c.plain,
    toLex (c.loop.base.activequeue.countP fun e => !c.plain e, c.left))

/-- The timeout of a `schedule` in the label is not zero, or there is no memory for it. -/
def Act.Delays : Act → Prop
  | .schedule _ _ duration nomem _ _ => nomem = true ∨ evutilTimerisset (timevalFor duration) = true
  | _ => True

instance (a : Act) : Decidable a.Delays :=
  match a with
  | .schedule _ _ duration nomem _ _ =>
      inferInstanceAs (Decidable (nomem = true ∨ evutilTimerisset (timevalFor duration) = true))
  | .listen _ | .connect .. | .read .. | .write .. | .accept .. | .signalStream _ | .tearDown _
  | .close _ | .deinit _ | .free | .dispatch .. | .callback _ | .breakSignal | .raise _
  | .kernel _ => isTrue trivial

/-- **What tasks do to a pass**: they take events off its queue, and end repetitions. -/
theorem active_task (sound : c.loop.Sound) (hs : c.step a = some c') (task : a.isTask = true)
    (delays : a.Delays) : c'.loop.base.activequeue.Sublist c.loop.base.activequeue ∧
      (c'.loop.base.repeating = c.loop.base.repeating ∨ c'.loop.base.repeating = none) := by
  cases step_cases hs with
  | start _ drives m kind o fd events w timeout env now alive fresh starts accept opens target =>
      rw [startIo_eq { c with world := w } _ fd timeout env now (sound.not_queued fresh)
        starts.isIo.2.2]
      dsimp only
      split
      · simp [record, withBase, addedBase, eventBase]
      · exact ⟨List.Sublist.refl _, Or.inl rfl⟩
  | schedule m sleeps duration nomem env now alive fresh =>
      rcases schedule_cases c (if sleeps then .sleep else .schedule) duration nomem env now
        (sound.not_queued fresh) with ⟨b, hb, eq⟩ | ⟨-, eq⟩ | ⟨zero, eq⟩
      · rw [eq]
        rcases hb with rfl | rfl <;> exact ⟨List.Sublist.refl _, Or.inl rfl⟩
      · rw [eq]
        simp [record, withBase, eventBase]
      · rcases delays with rfl | set
        · exact ⟨List.Sublist.refl _, Or.inl rfl⟩
        · rw [set] at zero
          cases zero
  | signalStream args c' alive hc =>
      obtain ⟨active, -, repeating⟩ := signalStream_queues sound alive hc
      rw [active, repeating]
      exact ⟨List.Sublist.refl _, Or.inl rfl⟩
  | tearDown r alive opened =>
      refine tearDown_induct (P := fun d =>
        d.loop.base.activequeue.Sublist c.loop.base.activequeue ∧
          (d.loop.base.repeating = c.loop.base.repeating ∨ d.loop.base.repeating = none))
        ⟨List.Sublist.refl _, Or.inl rfl⟩ (fun d m hd _ => ⟨?_, ?_⟩) (fun d reg hd => hd)
      · simp only [tearDownOne, withCall, withBase, Base.eventDelNolock_activequeue]
        exact List.filter_sublist.trans hd.1
      · simp only [tearDownOne, withCall, withBase, Base.eventDelNolock_repeating]
        split
        · exact Or.inr rfl
        · exact hd.2
  | free w alive torn hw => exact ⟨List.nil_sublist _, Or.inr rfl⟩
  | dispatch => cases task
  | pipe => cases task
  | skip => cases task
  | yield => cases task
  | again => cases task
  | fire => cases task
  | breakSignal => cases task
  | _ => exact ⟨List.Sublist.refl _, Or.inl rfl⟩

/-- Entries are what they were. -/
theorem plain_step (sound : c.loop.Sound) (hs : c.step a = some c') {e : EvId} (known : c.Known e) :
    c'.plain e = c.plain e := by
  cases e with
  | signalPipe => rfl
  | call n =>
      have kind : (c'.loop.call n).kind = (c.loop.call n).kind :=
        (Life.kind_follows ((step_follows sound hs).2 n) known).1
      simp only [plain, kind]

theorem rank_le {x y : ℕ ×ₗ (ℕ ×ₗ ℕ)} (first : (ofLex x).1 ≤ (ofLex y).1)
    (second : (ofLex (ofLex x).2).1 ≤ (ofLex (ofLex y).2).1)
    (third : (ofLex (ofLex x).2).2 ≤ (ofLex (ofLex y).2).2) : x ≤ y := by
  rw [Prod.Lex.le_iff]
  rcases Nat.lt_or_eq_of_le first with lt | eq
  · exact Or.inl lt
  · refine Or.inr ⟨eq, ?_⟩
    rw [Prod.Lex.le_iff]
    rcases Nat.lt_or_eq_of_le second with lt | eq
    · exact Or.inl lt
    · exact Or.inr ⟨eq, third⟩

/-- A task does not raise the rank. -/
theorem rank_task (sound : c.loop.Sound) (hs : c.step a = some c') (task : a.isTask = true)
    (delays : a.Delays) : c'.rank ≤ c.rank := by
  obtain ⟨queue, repeating⟩ := active_task sound hs task delays
  have counts : ∀ (p p' : EvId → Bool), (∀ e ∈ c.loop.base.activequeue, p' e = p e) →
      c'.loop.base.activequeue.countP p' ≤ c.loop.base.activequeue.countP p := by
    intro p p' same
    have eq : c.loop.base.activequeue.countP p' = c.loop.base.activequeue.countP p :=
      List.countP_congr (fun e mem => by rw [same e mem])
    exact eq ▸ queue.countP_le
  have plain : ∀ e ∈ c.loop.base.activequeue, c'.plain e = c.plain e := fun e mem =>
    plain_step sound hs (known_of_queued sound (Or.inr (Or.inr mem)))
  refine rank_le (counts _ _ plain) (counts _ _ fun e mem => by rw [plain e mem]) ?_
  show c'.left ≤ c.left
  rcases repeating with same | none
  · exact Nat.le_of_eq (by rw [left, left, same])
  · rw [left, none]
    exact Nat.zero_le _

/-- The callback of the signal pipe makes signals active, and nothing else. -/
theorem evsigCb_appends (quiet : c.Quiet) {rest : List EvId}
    (queue : c.loop.base.activequeue = .signalPipe :: rest) :
    ∃ extra, { c.loop.base with activequeue := rest }.evsigCb.activequeue = rest ++ extra ∧
      ∀ e ∈ extra, c.plain e = false := by
  have act := Base.activates_evsigCb { c.loop.base with activequeue := rest }
  obtain ⟨extra, eq, -, fresh⟩ := act.appends
  refine ⟨extra, eq, fun e mem => ?_⟩
  have active : e ∈ { c.loop.base with activequeue := rest }.evsigCb.activequeue := by
    rw [eq]
    exact List.mem_append_right _ mem
  have isSignal : (c.loop.base.ev e).evEvents.signal = true := by
    by_contra not
    have frame := Base.evsigCb_of_not_signal (b := { c.loop.base with activequeue := rest })
      (e := e) (by simpa using not)
    exact fresh e mem (frame.2.mp active)
  cases e with
  | signalPipe =>
      rw [quiet.pipe] at isSignal
      cases isSignal
  | call n =>
      by_contra plain
      have queued : c.loop.base.Queued (.call n) := by
        rcases act.active _ active with was | inserted
        · exact Or.inr (Or.inr (by rw [queue]; exact List.mem_cons_of_mem _ was))
        · exact Or.inl inserted
      rw [quiet.calls n queued (by simpa [Core.plain] using plain)] at isSignal
      cases isSignal

theorem plain_withCall {call : Call} (kind : call.kind = (c.loop.call n).kind) :
    (c.withCall n call).plain = c.plain := by
  funext e
  cases e with
  | signalPipe => rfl
  | call m =>
      by_cases eq : m = n
      · subst eq
        simp [Core.plain, withCall, kind]
      · simp [Core.plain, withCall, eq]

theorem plain_callback {r : SysResult} (hs : c.step (.callback r) = some c') :
    c'.plain = c.plain := by
  cases step_cases hs with
  | start _ drives => cases drives
  | pipe => rfl
  | skip => rfl
  | yield => exact plain_withCall (c := c) rfl
  | again => exact plain_withCall (c := c) rfl
  | fire => exact plain_withCall (c := c) rfl

/-- **A callback lowers the rank.** -/
theorem rank_callback (quiet : c.Quiet) {r : SysResult} (hs : c.step (.callback r) = some c') :
    c'.rank < c.rank := by
  have same := plain_callback hs
  cases step_cases hs with
  | start _ drives => cases drives
  | pipe _ rest alive _ queue =>
      obtain ⟨extra, eq, signals⟩ := evsigCb_appends quiet queue
      have none : extra.countP c.plain = 0 := by
        rw [List.countP_eq_zero]
        intro e mem
        rw [signals e mem]
        exact Bool.false_ne_true
      refine Prod.Lex.lt_iff.mpr (Or.inl ?_)
      show ({ c.loop.base with activequeue := rest }.evsigCb.activequeue).countP c.plain <
        c.loop.base.activequeue.countP c.plain
      rw [eq, queue, List.countP_append, none, List.countP_cons_of_pos rfl]
      omega
  | skip _ m rest alive _ queue sig =>
      have notPlain : c.plain (.call m) = false := by simp [Core.plain, sig]
      refine Prod.Lex.lt_iff.mpr (Or.inr ⟨?_, Prod.Lex.lt_iff.mpr (Or.inl ?_)⟩)
      · show rest.countP c.plain = c.loop.base.activequeue.countP c.plain
        rw [queue, List.countP_cons_of_neg (by rw [notPlain]; exact Bool.false_ne_true)]
      · show (rest.countP fun e => !c.plain e) < c.loop.base.activequeue.countP fun e => !c.plain e
        rw [queue, List.countP_cons_of_pos (by rw [notPlain]; rfl)]
        exact Nat.lt_succ_self _
  | yield _ m left rest alive _ queue sig =>
      have notPlain : c.plain (.call m) = false := by simp [Core.plain, sig]
      refine Prod.Lex.lt_iff.mpr (Or.inr ⟨?_, Prod.Lex.lt_iff.mpr (Or.inl ?_)⟩)
      · show rest.countP (Core.plain _) = c.loop.base.activequeue.countP c.plain
        rw [same, queue, List.countP_cons_of_neg (by rw [notPlain]; exact Bool.false_ne_true)]
      · show (rest.countP fun e => !Core.plain _ e) <
          c.loop.base.activequeue.countP fun e => !c.plain e
        rw [same, queue, List.countP_cons_of_pos (by rw [notPlain]; rfl)]
        exact Nat.lt_succ_self _
  | again _ m left alive rep =>
      refine Prod.Lex.lt_iff.mpr (Or.inr ⟨?_, Prod.Lex.lt_iff.mpr (Or.inr ⟨?_, ?_⟩)⟩)
      · show c.loop.base.activequeue.countP (Core.plain _) = _
        rw [same]
        rfl
      · show (c.loop.base.activequeue.countP fun e => !Core.plain _ e) = _
        rw [same]
        rfl
      · show (c.yield m left).left < c.left
        simp only [Core.left, rep, Core.yield, withCall, withBase]
        split
        · next zero => simp [zero]
        · exact Nat.lt_succ_self _
  | fire _ m rest fx alive _ queue sig body =>
      have plain : c.plain (.call m) = true := by simp [Core.plain, sig]
      refine Prod.Lex.lt_iff.mpr (Or.inl ?_)
      show ((c.loop.base.eventDelNolock c.opened (.call m)).activequeue).countP (Core.plain _) <
        c.loop.base.activequeue.countP c.plain
      rw [same, Base.eventDelNolock_activequeue, queue, unlink_cons_self,
        List.countP_cons_of_pos plain]
      exact Nat.lt_succ_of_le List.filter_sublist.countP_le

/-- **What is active after a callback** was active before, or is a signal that the pipe has
reported; what is repeated is a call that was active or repeated before. -/
theorem active_callback (quiet : c.Quiet) {r : SysResult}
    (hs : c.step (.callback r) = some c') :
    (∀ e ∈ c'.loop.base.activequeue, e ∈ c.loop.base.activequeue ∨
      .signalPipe ∈ c.loop.base.activequeue ∧ c'.plain e = false) ∧
    ∀ e ∈ c'.loop.base.repeating.map Prod.fst, (∃ n, e = .call n) ∧
      (e ∈ c.loop.base.activequeue ∨ e ∈ c.loop.base.repeating.map Prod.fst) := by
  cases step_cases hs with
  | start _ drives => cases drives
  | pipe _ rest alive quiet' queue =>
      obtain ⟨extra, eq, signals⟩ := evsigCb_appends quiet queue
      have act := Base.activates_evsigCb { c.loop.base with activequeue := rest }
      refine ⟨fun e mem => ?_, fun e rep => ?_⟩
      · have mem : e ∈ rest ++ extra := eq ▸ mem
        rw [queue]
        rcases List.mem_append.mp mem with was | new
        · exact Or.inl (List.mem_cons_of_mem _ was)
        · exact Or.inr ⟨List.mem_cons_self, signals e new⟩
      · have none : { c.loop.base with activequeue := rest }.evsigCb.repeating = none :=
          act.repeating.trans quiet'
        simp only [withBase, none] at rep
        cases rep
  | skip _ m rest alive quiet' queue sig =>
      refine ⟨fun e mem => Or.inl ?_, fun e rep => ?_⟩
      · rw [queue]
        exact List.mem_cons_of_mem _ mem
      · simp only [withBase, quiet'] at rep
        cases rep
  | yield _ m left rest alive _ queue sig =>
      refine ⟨fun e mem => Or.inl ?_, fun e rep => ?_⟩
      · rw [queue]
        exact List.mem_cons_of_mem _ mem
      · simp only [Core.yield, withCall, withBase] at rep
        split at rep
        · cases rep
        · cases rep
          rw [queue]
          exact ⟨⟨m, rfl⟩, Or.inl List.mem_cons_self⟩
  | again _ m left alive rep =>
      refine ⟨fun e mem => Or.inl mem, fun e rep' => ?_⟩
      simp only [Core.yield, withCall, withBase] at rep'
      split at rep'
      · cases rep'
      · cases rep'
        rw [rep]
        exact ⟨⟨m, rfl⟩, Or.inr rfl⟩
  | fire _ m rest fx alive quiet' queue sig body =>
      refine ⟨fun e mem => Or.inl ?_, fun e rep => ?_⟩
      · simp only [fired, withCall, withBase, Base.eventDelNolock_activequeue, mem_unlink] at mem
        exact mem.1
      · simp only [fired, withCall, withBase, Base.eventDelNolock_repeating, quiet'] at rep
        simp at rep

theorem active_breakSignal (hs : c.step .breakSignal = some c') :
    c'.loop.base.activequeue = c.loop.base.activequeue ∧ c'.loop.base.repeating = none ∧
      c'.plain = c.plain := by
  cases step_cases hs with
  | start _ drives => cases drives
  | breakSignal => exact ⟨rfl, rfl, rfl⟩

@[simp] theorem Act.isTask_at (now : Timeval) (a : Act) : (a.at now).isTask = a.isTask := by
  cases a <;> rfl

theorem Act.Delays.at (h : a.Delays) (now : Timeval) : (a.at now).Delays := by
  cases a <;> exact h

end Core

namespace System

variable {s s' t t' : System}

/-- A pass is going on. -/
def draining (s : System) : Bool :=
  match s.drive with
  | .draining .. => true
  | _ => false

/-- The event whose callback a pass invokes next. -/
def Invokes (s : System) (e : EvId) : Prop :=
  match s.core.loop.base.repeating with
  | some (x, _) => x = e
  | none => s.core.loop.base.activequeue.head? = some e

/-- The step is one of a pass, and schedules nothing for at once. -/
def InPass (s : System) (a : Act) : Prop :=
  s.draining = true ∧ ∀ b, a = .task b → b.Delays

/-- **What a step of a pass can be**: work of a task, a callback, or the end of the pass, which
may cut a signal's repetition short. -/
theorem step_draining {a : Act} (pass : s.draining = true) (h : s.step a = some s') :
    s'.core = s.core ∧ ((∃ r, a = .next r) → s'.draining = false) ∨
    (∃ b, a = .task b ∧ b.isTask = true ∧ s.core.step (b.at s.gettime) = some s'.core) ∨
    (∃ r, a = .next r ∧ s.core.step (.callback r) = some s'.core) ∨
    (∃ r, a = .next r ∧ s.core.step .breakSignal = some s'.core ∧ s'.draining = false) := by
  cases a with
  | task b =>
      simp only [step, task] at h
      split at h
      · next may =>
          obtain ⟨c, hc, rfl⟩ := Option.map_eq_some_iff.mp h
          refine Or.inr (Or.inl ⟨b, rfl, may.1, hc.trans ?_⟩)
          split <;> simp
      · cases h
  | next r =>
      simp only [step] at h
      split at h
      · simp only [next] at h
        split at h
        · split at h
          · obtain ⟨c, hc, rfl⟩ := Option.map_eq_some_iff.mp h
            exact Or.inr (Or.inr (Or.inr ⟨r, rfl, hc, rfl⟩))
          · cases h
            exact Or.inl ⟨rfl, fun _ => rfl⟩
        · split at h
          · cases h
            refine Or.inl ⟨rfl, fun _ => ?_⟩
            next once count ran drive _ _ _ => cases once && count != 0 <;> rfl
          · obtain ⟨c, hc, rfl⟩ := Option.map_eq_some_iff.mp h
            exact Or.inr (Or.inr (Or.inl ⟨r, rfl, hc⟩))
      · cases h
  | runOnce =>
      simp only [step] at h
      split at h
      · cases h
        exact Or.inl ⟨enter_core true, by rintro ⟨_, eq⟩; cases eq⟩
      · cases h
  | run =>
      simp only [step] at h
      split at h
      · cases h
        exact Or.inl ⟨enter_core false, by rintro ⟨_, eq⟩; cases eq⟩
      · cases h
  | stop =>
      simp only [step] at h
      split at h
      · cases h
        exact Or.inl ⟨rfl, by rintro ⟨_, eq⟩; cases eq⟩
      · cases h
  | tick clock =>
      simp only [step] at h
      split at h
      · cases h
        exact Or.inl ⟨rfl, by rintro ⟨_, eq⟩; cases eq⟩
      · cases h
  | iterate ready order =>
      simp only [step] at h
      split at h
      · next drive => simp [draining, drive] at pass
      · cases h
  | woken ready order =>
      simp only [step] at h
      split at h
      · next drive => simp [draining, drive] at pass
      · cases h
  | pollFails =>
      simp only [step] at h
      split at h
      · next drive => simp [draining, drive] at pass
      · cases h

/-- What has become of a pass that began in `s`. -/
structure Within (s t : System) : Prop where
  sound : t.core.loop.Sound
  quiet : t.core.Quiet
  active : ∀ e ∈ t.core.loop.base.activequeue, e ∈ s.core.loop.base.activequeue ∨
    .signalPipe ∈ s.core.loop.base.activequeue ∧ t.core.plain e = false
  repeating : ∀ e ∈ t.core.loop.base.repeating.map Prod.fst, (∃ n, e = .call n) ∧
    (e ∈ s.core.loop.base.activequeue ∨ .signalPipe ∈ s.core.loop.base.activequeue)

/-- The pipe is active only if it was when the pass began. -/
theorem Within.pipe (h : Within s t) (mem : .signalPipe ∈ t.core.loop.base.activequeue) :
    .signalPipe ∈ s.core.loop.base.activequeue := by
  rcases h.active _ mem with was | ⟨was, -⟩
  · exact was
  · exact was

theorem Within.step {a : Act} (h : Within s t) (ok : t.InPass a) (hs : t.step a = some t') :
    Within s t' := by
  rcases step_draining ok.1 hs with ⟨same, -⟩ | ⟨b, rfl, task, hb⟩ | ⟨r, rfl, hb⟩ |
    ⟨r, rfl, hb, -⟩
  · exact ⟨same ▸ h.sound, same ▸ h.quiet, same ▸ h.active, same ▸ h.repeating⟩
  · obtain ⟨queue, rep⟩ := Core.active_task h.sound hb (by simpa using task)
      ((ok.2 b rfl).at t.gettime)
    refine ⟨(Core.step_follows h.sound hb).1, Core.quiet_step h.sound h.quiet hb,
      fun e mem => ?_, fun e mem => ?_⟩
    · rw [Core.plain_step h.sound hb (Core.known_of_queued h.sound
        (Or.inr (Or.inr (queue.subset mem))))]
      exact h.active e (queue.subset mem)
    · rcases rep with same | none
      · rw [same] at mem
        exact h.repeating e mem
      · rw [none] at mem
        cases mem
  · obtain ⟨queue, rep⟩ := Core.active_callback h.quiet hb
    refine ⟨(Core.step_follows h.sound hb).1, Core.quiet_step h.sound h.quiet hb,
      fun e mem => ?_, fun e mem => ?_⟩
    · rcases queue e mem with was | ⟨pipe, signal⟩
      · rw [Core.plain_step h.sound hb (Core.known_of_queued h.sound (Or.inr (Or.inr was)))]
        exact h.active e was
      · exact Or.inr ⟨h.pipe pipe, signal⟩
    · obtain ⟨call, was | was⟩ := rep e mem
      · exact ⟨call, (h.active e was).imp_right And.left⟩
      · exact h.repeating e was
  · obtain ⟨queue, none, plain⟩ := Core.active_breakSignal hb
    refine ⟨(Core.step_follows h.sound hb).1, Core.quiet_step h.sound h.quiet hb, ?_, ?_⟩
    · rw [queue, plain]
      exact h.active
    · rw [none]
      exact fun e mem => nomatch mem

theorem within_run {as : List Act} (h : Within s t) (meets : StepSystem.Meets step InPass t as)
    (run : StepSystem.run step t as = some t') : Within s t' :=
  StepSystem.invariant_run_of_meets (P := Within s) (fun _ _ _ h ok hs => h.step ok hs) h meets run

/-- What a pass invokes was active when it began, or is a signal's. -/
theorem Within.invokes (h : Within s t) {e : EvId} (invokes : t.Invokes e) :
    e ∈ s.core.loop.base.activequeue ∨ .signalPipe ∈ s.core.loop.base.activequeue ∧
      ∃ n, e = .call n ∧ (t.core.loop.call n).kind.isSignal = true := by
  unfold Invokes at invokes
  split at invokes
  · next x k rep =>
      subst invokes
      obtain ⟨⟨n, rfl⟩, was⟩ := h.repeating x (by rw [rep]; rfl)
      exact was.imp_right fun pipe =>
        ⟨pipe, n, rfl, h.sound.signal_of_repeating (by rw [rep]; rfl)⟩
  · rcases h.active e (List.mem_of_mem_head? invokes) with was | ⟨pipe, signal⟩
    · exact Or.inl was
    · refine Or.inr ⟨pipe, ?_⟩
      cases e with
      | signalPipe => cases signal
      | call n => exact ⟨n, rfl, by simpa [Core.plain] using signal⟩

/-- The core of a driven loop is reached by steps of its own. -/
theorem reachable_core {endian : Endian} {pipeFd : Fd} {clock : Timeval} {as : List Act}
    (run : StepSystem.run step (init endian pipeFd clock) as = some s) :
    StepSystem.Reachable Core.step (Core.init endian pipeFd) s.core :=
  StepSystem.run_project (fun s : System => s.core) (fun _ _ _ h => step_core h) run

theorem quiet_run {endian : Endian} {pipeFd : Fd} {clock : Timeval} {as : List Act}
    (run : StepSystem.run step (init endian pipeFd clock) as = some s) :
    s.core.loop.Sound ∧ s.core.Quiet := by
  have start : (Core.init endian pipeFd).loop.Sound ∧ (Core.init endian pipeFd).Quiet := by
    refine ⟨Core.sound_new 0 0 pipeFd, rfl, fun n queued => ?_⟩
    simp [Core.init, Loop.new, Base.new, Base.Queued] at queued
  exact (reachable_core run).invariant (P := fun c => c.loop.Sound ∧ c.Quiet)
    (fun _ _ _ h hs => ⟨(Core.step_follows h.1 hs).1, Core.quiet_step h.1 h.2 hs⟩) start

/-- A pass begins without a repetition. -/
theorem within_woken {once : Bool} {ready : List (Fd × Base.EpollReport)} {order : List EvId}
    (sound : s.core.loop.Sound) (quiet : s.core.Quiet) (begins : s.woken once ready order = some t) :
    Within t t := by
  obtain ⟨c, hc, rfl⟩ := woken_eq_some begins
  have none : c.loop.base.repeating = none := by
    cases Core.step_cases hc with
    | start _ drives => cases drives
    | dispatch _ _ _ b alive reports later quiet' hb =>
        exact Base.repeating_dispatchPass hb quiet'
  refine ⟨(Core.step_follows sound hc).1, Core.quiet_step sound quiet hc,
    fun e mem => Or.inl mem, fun e mem => ?_⟩
  rw [none] at mem
  cases mem

/-- A pass begins with an iteration, or when the loop is woken. -/
theorem within_begins {ready : List (Fd × Base.EpollReport)} {order : List EvId}
    (sound : s.core.loop.Sound) (quiet : s.core.Quiet)
    (begins : s.step (.iterate ready order) = some t ∨ s.step (.woken ready order) = some t)
    (pass : t.draining = true) : Within t t := by
  rcases begins with begins | begins
  · simp only [step] at begins
    split at begins
    · rw [iterate] at begins
      split at begins
      · cases begins
        cases pass
      · exact within_woken sound quiet begins
    · cases begins
  · simp only [step] at begins
    split at begins
    · exact within_woken sound quiet begins
    · cases begins

/-- **The rank over a step of a pass** that goes on. -/
theorem rank_step {a : Act} (h : Within s t) (ok : t.InPass a) (hs : t.step a = some t')
    (on : t'.draining = true) :
    t'.core.rank ≤ t.core.rank ∧ ((∃ r, a = .next r) → t'.core.rank < t.core.rank) := by
  rcases step_draining ok.1 hs with ⟨same, ends⟩ | ⟨b, rfl, task, hb⟩ | ⟨r, rfl, hb⟩ |
    ⟨r, rfl, -, ends⟩
  · refine ⟨Eq.le (by rw [same]), fun isNext => ?_⟩
    rw [ends isNext] at on
    cases on
  · exact ⟨Core.rank_task h.sound hb (by simpa using task) ((ok.2 b rfl).at t.gettime),
      by rintro ⟨_, eq⟩; cases eq⟩
  · have lower := Core.rank_callback h.quiet hb
    exact ⟨lower.le, fun _ => lower⟩
  · rw [ends] at on
    cases on

/-- **A pass is bounded**, when nothing is scheduled during it with a zero timeout: it invokes
what was active when it began and the signals that the pipe reports, if the pipe was active then,
and nothing that was scheduled since; and among the steps of a pass that never ends finitely
many are callbacks. -/
theorem pass_bounded {endian : Endian} {pipeFd : Fd} {clock : Timeval} {as : List Act}
    {ready : List (Fd × Base.EpollReport)} {order : List EvId}
    (before : StepSystem.run step (init endian pipeFd clock) as = some s)
    (begins : s.step (.iterate ready order) = some t ∨ s.step (.woken ready order) = some t)
    (pass : t.draining = true) :
    (∀ bs u, StepSystem.Meets step InPass t bs → StepSystem.run step t bs = some u →
      (∀ e, u.Invokes e → e ∈ t.core.loop.base.activequeue ∨
        .signalPipe ∈ t.core.loop.base.activequeue ∧
          ∃ n, e = .call n ∧ (u.core.loop.call n).kind.isSignal = true) ∧
      ∀ n, n ∉ t.core.loop.made → (u.core.loop.call n).kind.isSignal = false →
        ¬ u.Invokes (.call n)) ∧
    ∀ (states : ℕ → System) (labels : ℕ → Act), states 0 = t →
      (∀ i, (states i).step (labels i) = some (states (i + 1)) ∧
        (states i).InPass (labels i)) →
      ∃ N, ∀ i, N ≤ i → ∀ r, labels i ≠ .next r := by
  obtain ⟨sound, quiet⟩ := quiet_run before
  have start := within_begins sound quiet begins pass
  refine ⟨fun bs u meets run => ?_, fun states labels first steps => ?_⟩
  · have within := within_run start meets run
    refine ⟨fun e invokes => within.invokes invokes, fun n new plain invokes => ?_⟩
    rcases within.invokes invokes with active | ⟨-, m, eq, signal⟩
    · exact start.sound.not_queued new (Or.inr (Or.inr active))
    · cases eq
      rw [plain] at signal
      cases signal
  · have within : ∀ i, Within t (states i) := by
      intro i
      induction i with
      | zero => rw [first]; exact start
      | succ i ih => exact ih.step (steps i).2 (steps i).1
    have ranks := fun i => rank_step (within i) (steps i).2 (steps i).1 (steps (i + 1)).2.1
    obtain ⟨N, late⟩ := StepSystem.finitely_many_of_rank (fun s : System => s.core.rank)
      (K := fun a : Act => ∃ r, a = .next r) (fun i => (ranks i).1) (fun i => (ranks i).2)
    exact ⟨N, fun i le r eq => late i le ⟨r, eq⟩⟩

/-- A closure for at once, and a driver. -/
def oneClosure : List Act := [.task (.schedule 0 false ⟨0⟩ false {} ⟨0, 0⟩), .run]

/-- The closure runs, and schedules another one. -/
def reschedules (duration : Duration) : List Act :=
  [.next .nothing, .task (.schedule 1 false duration false {} ⟨0, 0⟩)]

theorem pass_bounded_millisecond :
    ∃ s t u, StepSystem.run step (init .little 3 ⟨100, 0⟩) oneClosure = some s ∧
      s.step (.iterate [] []) = some t ∧ t.draining = true ∧
      StepSystem.run step t (reschedules ⟨10 ^ 15⟩) = some u ∧ ¬ u.Invokes (.call 1) := by
  have facts : (StepSystem.run step (init .little 3 ⟨100, 0⟩) oneClosure).bind (fun s =>
      (s.step (.iterate [] [])).bind fun t =>
      (StepSystem.run step t (reschedules ⟨10 ^ 15⟩)).map fun u =>
        decide (t.draining = true ∧ 1 ∉ t.core.loop.made ∧
          (u.core.loop.call 1).kind.isSignal = false ∧
          (t.step (.next .nothing)).any System.draining = true)) = some true := by
    decide +kernel
  obtain ⟨s, before, facts⟩ := Option.bind_eq_some_iff.mp facts
  obtain ⟨t, begins, facts⟩ := Option.bind_eq_some_iff.mp facts
  obtain ⟨u, run, facts⟩ := Option.map_eq_some_iff.mp facts
  obtain ⟨pass, new, plain, on⟩ := of_decide_eq_true facts
  have meets : StepSystem.Meets step InPass t (reschedules ⟨10 ^ 15⟩) := by
    refine ⟨⟨pass, fun b eq => nomatch eq⟩, fun t' ht' => ⟨⟨?_, fun b eq => ?_⟩, fun _ _ => trivial⟩⟩
    · rw [ht'] at on
      exact on
    · cases eq
      exact Or.inr (by decide)
  exact ⟨s, t, u, before, begins, pass, run,
    ((pass_bounded before (Or.inl begins) pass).1 _ u meets run).2 1 new plain⟩

/-- **A closure scheduled for at once joins the running pass**: it is invoked before the
multiplexer and the timers are looked at again. -/
theorem zero_delay_joins_pass :
    ∃ s t u u', StepSystem.run step (init .little 3 ⟨100, 0⟩) oneClosure = some s ∧
      s.step (.iterate [] []) = some t ∧ t.draining = true ∧ 1 ∉ t.core.loop.made ∧
      StepSystem.run step t (reschedules ⟨0⟩) = some u ∧ u.draining = true ∧
      u.step (.next .nothing) = some u' ∧ u'.draining = true ∧
      (u.core.loop.call 1).ran = 0 ∧ (u'.core.loop.call 1).ran = 1 := by
  have facts : (StepSystem.run step (init .little 3 ⟨100, 0⟩) oneClosure).bind (fun s =>
      (s.step (.iterate [] [])).bind fun t =>
      (StepSystem.run step t (reschedules ⟨0⟩)).bind fun u =>
      (u.step (.next .nothing)).map fun u' =>
        decide (t.draining = true ∧ 1 ∉ t.core.loop.made ∧ u.draining = true ∧
          u'.draining = true ∧ (u.core.loop.call 1).ran = 0 ∧
          (u'.core.loop.call 1).ran = 1)) = some true := by
    decide +kernel
  obtain ⟨s, before, facts⟩ := Option.bind_eq_some_iff.mp facts
  obtain ⟨t, begins, facts⟩ := Option.bind_eq_some_iff.mp facts
  obtain ⟨u, run, facts⟩ := Option.bind_eq_some_iff.mp facts
  obtain ⟨u', last, facts⟩ := Option.map_eq_some_iff.mp facts
  obtain ⟨pass, new, on, on', ran, ran'⟩ := of_decide_eq_true facts
  exact ⟨s, t, u, u', before, begins, pass, new, run, on, last, on', ran, ran'⟩

end System

end SwiftEvent
