import SwiftEvent.Transparent

/-!
# A read or a write that times out

A read or a write that times out has not touched its socket: no system call was
made for it, and its event is on no queue (`Spent`).  Beside the loop that has
made the call is the one that has not (`Lacks`): every step of the one is a step
of the other, or none.  Once the call is over each of the two is the other without
it (`Twins`), and they take the same steps.

`SwiftEvent.NoTrace` has the runs of the driven loop.
-/

namespace SwiftEvent.Core

variable {c c' d d' : Core} {n : Nat} {a : Act}

/-- A read or a write that is given a timeout. -/
def Act.timedTransfer : Act → Option Nat
  | .read n _ (some _) .. | .write n _ _ (some _) .. => some n
  | _ => none

/-- Two loops that differ in nothing but the record and the idle event of the call `n`. -/
structure Alike (n : Nat) (c d : Core) : Prop where
  world : d.world = c.world
  call : ∀ m, m ≠ n → d.loop.call m = c.loop.call m
  inserted : d.loop.base.inserted = c.loop.base.inserted
  timeheap : d.loop.base.timeheap = c.loop.base.timeheap
  activequeue : d.loop.base.activequeue = c.loop.base.activequeue
  nread : ∀ fd, d.loop.base.nread fd = c.loop.base.nread fd
  nwrite : ∀ fd, d.loop.base.nwrite fd = c.loop.base.nwrite fd
  epoll : d.loop.base.epoll = c.loop.base.epoll

/-! ## The call -/

/-- What a read or a write with a timeout starts. -/
theorem timed_start (timed : a.timedTransfer = some n) (hs : c.step a = some c') :
    n ∉ c.loop.made ∧ ∃ (call : Call) (fd : Fd) (events : Evs) (timeout : Option Duration)
      (env : Base.AddEnv) (now : Timeval), events.isIo = true ∧ events.signal = false ∧
      call.kind.isSignal = false ∧ call.outcomes = [] ∧
      c' = c.startIo n call fd events timeout env now := by
  cases a with
  | read m o timeout env now =>
      obtain ⟨-, fresh, hc⟩ := whenNew_eq_some hs
      obtain ⟨x, -, rfl⟩ := Option.map_eq_some_iff.mp hc
      cases timeout with
      | none => cases timed
      | some t =>
          cases timed
          exact ⟨fresh, _, _, _, _, _, _, rfl, rfl, rfl, rfl, rfl⟩
  | write m o data timeout env now =>
      obtain ⟨-, fresh, hc⟩ := whenNew_eq_some hs
      obtain ⟨x, -, rfl⟩ := Option.map_eq_some_iff.mp hc
      cases timeout with
      | none => cases timed
      | some t =>
          cases timed
          exact ⟨fresh, _, _, _, _, _, _, rfl, rfl, rfl, rfl, rfl⟩
  | _ => cases timed

/-- A call that resumes at most once; if with the timeout, without a system call. -/
structure Spent (c : Core) (n : Nat) : Prop where
  sound : c.loop.Sound
  made : n ∈ c.loop.made
  signal : (c.loop.call n).kind.isSignal = false
  quiet : (c.loop.call n).outcomes = [.threw .timeout] → (c.loop.call n).syscalls = []

/-- A callback that throws the timeout has made no system call. -/
theorem quiet_callbackBody {w : World} {loop : Nat} {call : Call} {fd : Fd} {res : Evs}
    {r : SysResult} {fx : Effect} (h : callbackBody w loop call fd res r = some fx)
    (timedOut : fx.outcome = .threw .timeout) : fx.syscalls = [] := by
  cases callbackBody_cases h with
  | timedOut => rfl
  | timer => rfl
  | connected => rfl
  | _ => cases timedOut

theorem spent_of_start (sound : c.loop.Sound) (timed : a.timedTransfer = some n)
    (hs : c.step a = some c') : c'.Spent n := by
  have sound' := (step_follows sound hs).1
  obtain ⟨-, call, fd, events, timeout, env, now, -, -, signal, waiting, rfl⟩ :=
    timed_start timed hs
  refine ⟨sound', ?_, ?_, ?_⟩
  · simp [startIo, record]
  · simpa [startIo, record] using signal
  · simp [startIo, record, waiting]

theorem Spent.step (h : c.Spent n) (hs : c.step a = some c') : c'.Spent n := by
  have follows := step_follows h.sound hs
  obtain ⟨kind, made⟩ := Life.kind_follows (follows.2 n) h.made
  refine ⟨follows.1, made, ?_, ?_⟩
  · show ((c'.loop.life n).call.kind).isSignal = false
    rw [kind]
    exact h.signal
  · intro timedOut
    rcases call_step h.sound hs h.made h.signal with same | ⟨r, fx, -, next, body, rfl⟩
    · rw [same] at timedOut ⊢
      exact h.quiet timedOut
    · have started := started_of_queued h.sound (queued_of_nextCall next) h.signal
      have waiting := List.length_eq_zero_iff.mp started.resumed
      simp only [fired, withCall, Effect.settle, Function.update_self, waiting, List.nil_append,
        List.cons.injEq, and_true, started.quiet.1] at timedOut ⊢
      exact quiet_callbackBody body timedOut

theorem spent_run {as : List Act} (h : c.Spent n) (run : StepSystem.run step c as = some c') :
    c'.Spent n :=
  StepSystem.invariant_run (P := fun c => c.Spent n) (fun _ _ _ h hs => h.step hs) h run

/-- What a call has been resumed with stays. -/
theorem Spent.outcomes {as : List Act} (h : c.Spent n)
    (run : StepSystem.run Core.step c as = some c') :
    ∀ out ∈ (c.loop.call n).outcomes, out ∈ (c'.loop.call n).outcomes := by
  intro out mem
  have kept : (c'.Spent n) ∧ c'.loop.call n = c.loop.call n :=
    StepSystem.invariant_run (P := fun e => e.Spent n ∧ e.loop.call n = c.loop.call n)
      (fun e b e' kept hs => by
        obtain ⟨spent, same⟩ := kept
        refine ⟨spent.step hs, ?_⟩
        have resumed : (e.loop.call n).outcomes ≠ [] := by
          rw [same]
          exact List.ne_nil_of_mem mem
        rw [(resumed_step spent.sound hs spent.made spent.signal resumed).2, same])
      ⟨h, rfl⟩ run
  rw [kept.2]
  exact mem

/-- A call that has been resumed is on no queue. -/
theorem Spent.not_queued (h : c.Spent n) (resumed : (c.loop.call n).outcomes ≠ []) :
    ¬ c.loop.base.Queued (.call n) := by
  intro queued
  have started := started_of_queued h.sound queued h.signal
  exact resumed (List.length_eq_zero_iff.mp started.resumed)

/-! ## The loop without the call -/

theorem made_signalOne {r : Nat} {arg : SignalArg} (hs : c.signalOne r arg = some c') :
    arg.n ∉ c.loop.made ∧ c'.loop.made = c.loop.made ++ [arg.n] := by
  rw [signalOne] at hs
  split at hs
  · cases hs
  · next fresh =>
      refine ⟨fresh, ?_⟩
      dsimp only at hs
      split at hs
      · cases hs
        rfl
      · cases hs
        rfl

theorem unmade_signalAll {r : Nat} {args : List SignalArg} (hs : signalAll r c args = some c') :
    ∀ arg ∈ args, arg.n ∉ c.loop.made := by
  induction args generalizing c with
  | nil =>
      intro arg mem
      cases mem
  | cons arg args ih =>
      obtain ⟨c₁, one, rest⟩ := Option.bind_eq_some_iff.mp hs
      obtain ⟨fresh, made⟩ := made_signalOne one
      intro arg' mem
      rcases List.mem_cons.mp mem with rfl | mem
      · exact fresh
      · intro old
        apply ih rest arg' mem
        rw [made]
        exact List.mem_append_left _ old

/-- An enabled step makes new calls only. -/
theorem names_unmade (hs : c.step a = some c') (made : n ∈ c.loop.made) : n ∉ a.names := by
  intro mem
  have once : ∀ {m next}, c.whenNew m next = some c' → n ∈ [m] → False := by
    intro m next hs mem
    rw [List.mem_singleton] at mem
    subst mem
    exact (whenNew_eq_some hs).2.1 made
  cases a with
  | connect => exact once hs mem
  | read => exact once hs mem
  | write => exact once hs mem
  | accept => exact once hs mem
  | schedule => exact once hs mem
  | signalStream args =>
      obtain ⟨-, hc⟩ := whenAlive_eq_some hs
      obtain ⟨arg, there, rfl⟩ := List.mem_map.mp mem
      exact unmade_signalAll hc arg there made
  | _ => exact List.not_mem_nil mem

namespace Without

/-- The call is made. -/
theorem of_start (sound : c.loop.Sound) (timed : a.timedTransfer = some n) (hs : c.step a = some c') :
    Without n c' c := by
  obtain ⟨new, call, fd, events, timeout, env, now, io, signal, -, -, rfl⟩ := timed_start timed hs
  have idle := sound.not_queued new
  have alone : Base.Without (.call n) c.loop.base c.loop.base :=
    Base.Without.of_not_queued idle (sound.not_repeating new)
  have base : Base.Without (.call n)
      (c.startIo n call fd events timeout env now).loop.base c.loop.base := by
    have fresh : Base.Without (.call n) (c.eventBase n { evFd := fd, evEvents := events })
        c.loop.base := alone.assign_self (fun mem => idle (Or.inl mem)) _
    rw [c.startIo_eq call fd timeout env now idle io]
    dsimp only
    split
    · refine Base.Without.withTimeout_self ?_ now _
      exact fresh.insert_self (by simpa using io) (by simpa using signal) _
    · exact fresh
  exact
    { world := rfl
      self := rfl
      pipe := rfl
      reg := rfl
      nextReg := rfl
      alive := rfl
      made := by
        intro m ne
        show m ∈ c.loop.made ↔ m ∈ c.loop.made ++ [n]
        rw [List.mem_append, List.mem_singleton, or_iff_left ne]
      call := by
        intro m ne
        show c.loop.call m = Function.update c.loop.call n _ m
        rw [Function.update_of_ne ne]
      settled := fun made => absurd made new
      free := by
        intro r held
        exact new (made_of_held sound held).1
      base }

/-- Once the call is over, each loop is the other without it. -/
theorem symm (h : Without n c d) (idle : ¬ c.loop.base.Queued (.call n))
    (resumed : n ∈ c.loop.made → (c.loop.call n).outcomes ≠ []) : Without n d c where
  world := h.world.symm
  self := h.self.symm
  pipe := h.pipe.symm
  reg := h.reg.symm
  nextReg := h.nextReg.symm
  alive := h.alive.symm
  made m ne := (h.made m ne).symm
  call m ne := (h.call m ne).symm
  settled := resumed
  free r := by
    rw [h.reg]
    exact h.free r
  base := h.base.symm idle

/-- A number that is free of events with the call is free of them without it. -/
theorem noPending (h : Without n c d) (ok : c.NoPending a) : d.NoPending a := by
  intro o closes x own
  rw [h.base.evmapIo]
  rw [h.world] at own
  rw [ok o closes x own]
  rfl

theorem noPending_without (ok : d.NoPending a) {a' : Act} (eq : a.without n c = some a') :
    d.NoPending a' := by
  cases a with
  | callback r =>
      rw [Act.without] at eq
      split at eq
      · cases eq
      · cases eq
        exact ok
  | _ =>
      cases eq
      exact ok

end Without

/-! ## Once the call is over -/

/-- The multiplexer reports what the evmap counts. -/
theorem reportWithout_of_reports {r : Fd × Base.EpollReport} (wired : c.Wired)
    (idle : .call n ∉ c.loop.base.inserted) (possible : c.reports r = true) :
    c.loop.base.reportWithout (.call n) r = some r := by
  rw [Core.reports, Option.any_eq_true] at possible
  obtain ⟨m, watched, possible⟩ := possible
  rw [wired.watches r.1, EpollEvents.registration] at watched
  split at watched
  · next isSet =>
      cases watched
      rw [Option.any_eq_true] at possible
      obtain ⟨k, -, possible⟩ := possible
      simp only [Bool.and_eq_true, Bool.or_eq_true, Bool.not_eq_true'] at possible
      apply Base.Without.reportWithout_self idle isSet
      · intro asked
        exact possible.1.1.resolve_left fun not => by
          rw [asked] at not
          cases not
      · intro asked
        exact possible.1.2.resolve_left fun not => by
          rw [asked] at not
          cases not
  · cases watched

/-- What is taken without a call that waits for nothing is what is taken with it. -/
theorem without_self (reg : c.Regular) (idle : ¬ c.loop.base.Queued (.call n))
    (hs : c.step a = some c') : a.without n c = some a := by
  have inserted : .call n ∉ c.loop.base.inserted := fun mem => idle (Or.inl mem)
  have granted : ∀ (m : Nat) (a : Act) (env : Base.AddEnv), c.granted n m a env = env :=
    fun m a env => if_neg fun both => inserted both.1
  cases a with
  | connect => simp only [Act.without, granted]
  | read => simp only [Act.without, granted]
  | write => simp only [Act.without, granted]
  | accept => simp only [Act.without, granted]
  | dispatch ready now order =>
      obtain ⟨-, hc⟩ := whenAlive_eq_some hs
      rw [Core.dispatch] at hc
      split at hc
      · next may =>
          obtain ⟨b, pass, -⟩ := Option.map_eq_some_iff.mp hc
          have reports : ready.filterMap (c.loop.base.reportWithout (.call n)) = ready := by
            have all : ∀ r ∈ ready, c.loop.base.reportWithout (.call n) r = some r :=
              fun r mem => reportWithout_of_reports reg.wired inserted
                (List.all_eq_true.mp may.1 r mem)
            rw [List.filterMap_congr all, List.filterMap_some]
          have order : unlink order (.call n) = order := by
            apply unlink_of_notMem
            intro mem
            have due : .call n ∈ (c.loop.base.epollDispatch ready).timeheap :=
              Base.Without.mem_of_timeoutProcess pass _ mem
            rw [(Base.activates_epollDispatch c.loop.base ready).timeheap] at due
            exact idle (Or.inr (Or.inl due))
          rw [Act.without, reports, order]
      · cases hc
  | callback r =>
      rw [Act.without, if_neg]
      intro next
      exact idle (queued_of_nextCall next)
  | _ => rfl

/-- `d` is `c` without the call `n`, and both have closed no number on which an event waits. -/
structure Lacks (n : Nat) (c d : Core) : Prop where
  without : Without n c d
  regular : c.Regular
  regular' : d.Regular

namespace Lacks

/-- **One step**, with the call and without it. -/
theorem step (h : Lacks n c d) (ok : c.NoPending a) (roomy : c.loop.base.Roomy (.call n))
    (new : n ∉ a.names)
    (past : ∀ ready now order, a = .dispatch ready now order → d.loop.base.pass ≤ now)
    (hs : c.step a = some c')
    (ended : c.nextCall = some n → ∀ out ∈ (c'.loop.call n).outcomes, out = .threw .timeout) :
    (a.without n c).elim (Lacks n c' d) fun a' => ∃ d', d.step a' = some d' ∧ Lacks n c' d' := by
  have stepped := h.without.step h.regular h.regular'.wired.watches roomy new past hs ended
  have regular := h.regular.step ok hs
  cases eq : a.without n c with
  | none =>
      rw [eq] at stepped
      exact ⟨stepped, regular, h.regular'⟩
  | some a' =>
      rw [eq] at stepped
      obtain ⟨d', one, without⟩ := stepped
      have ok' := Without.noPending_without (h.without.noPending ok) eq
      exact ⟨d', one, without, regular, h.regular'.step ok' one⟩

/-- A step while the call waits for nothing is the same step. -/
theorem same (h : Lacks n c d) (idle : ¬ c.loop.base.Queued (.call n)) (ok : c.NoPending a)
    (new : n ∉ a.names)
    (past : ∀ ready now order, a = .dispatch ready now order → d.loop.base.pass ≤ now)
    (hs : c.step a = some c') : ∃ d', d.step a = some d' ∧ Lacks n c' d' := by
  have stepped := h.step ok (fun mem => absurd (Or.inl mem) idle) new past hs
    (fun next => absurd (queued_of_nextCall next) idle)
  rw [without_self h.regular idle hs] at stepped
  exact stepped

/-- A pass that activates nothing but the call need not be made without it. -/
theorem skip {ready : List (Fd × Base.EpollReport)} {now : Timeval} {order : List EvId}
    (h : Lacks n c d) (past : d.loop.base.pass ≤ now)
    (hs : c.step (.dispatch ready now order) = some c')
    (alone : ∀ e ∈ c'.loop.base.activequeue, e = .call n) : Lacks n c' d := by
  have noPending : c.NoPending (.dispatch ready now order) := by
    intro o closes
    cases closes
  obtain ⟨-, hc⟩ := whenAlive_eq_some hs
  exact ⟨h.without.skip h.regular'.wired.watches past hc alone, h.regular.step noPending hs,
    h.regular'⟩

end Lacks

/-- Two loops, each of them the other without the call. -/
structure Twins (n : Nat) (c d : Core) : Prop extends Lacks n c d where
  back : Without n d c

namespace Twins

theorem symm (h : Twins n c d) : Twins n d c := ⟨⟨h.back, h.regular', h.regular⟩, h.without⟩

theorem idle (h : Twins n c d) : ¬ c.loop.base.Queued (.call n) := h.back.base.not_queued

theorem alike (h : Twins n c d) : Alike n c d := by
  have idle := h.idle
  simp only [Base.Queued, not_or] at idle
  have inserted : d.loop.base.inserted = c.loop.base.inserted := by
    rw [h.without.base.inserted, unlink_of_notMem idle.1]
  have shape : ∀ e ∈ c.loop.base.inserted,
      (d.loop.base.ev e).shape = (c.loop.base.ev e).shape := by
    intro e mem
    rw [h.without.base.ev e]
    rintro rfl
    exact idle.1 mem
  exact
    { world := h.without.world
      call := h.without.call
      inserted
      timeheap := by rw [h.without.base.timeheap, unlink_of_notMem idle.2.1]
      activequeue := by rw [h.without.base.activequeue, unlink_of_notMem idle.2.2]
      nread := Base.nread_congr inserted shape
      nwrite := Base.nwrite_congr inserted shape
      epoll := by
        funext fd
        rw [h.regular.wired.watches fd, h.regular'.wired.watches fd,
          Base.oldEvents_congr inserted shape] }

/-- **Twins take the same steps.** -/
theorem step (h : Twins n c d) (ok : c.NoPending a) (new : n ∉ a.names)
    (past : ∀ ready now order, a = .dispatch ready now order →
      c.loop.base.pass ≤ now ∧ d.loop.base.pass ≤ now)
    (hs : c.step a = some c') : ∃ d', d.step a = some d' ∧ Twins n c' d' := by
  obtain ⟨d', one, lacks⟩ := h.same h.idle ok new (fun r t o eq => (past r t o eq).2) hs
  -- steps are functions, so that the way back ends where it began
  obtain ⟨c₂, one', back⟩ := h.symm.same h.symm.idle (h.without.noPending ok) new
    (fun r t o eq => (past r t o eq).1) one
  rw [hs, Option.some.injEq] at one'
  subst one'
  exact ⟨d', one, lacks, back.without⟩

end Twins

end SwiftEvent.Core
