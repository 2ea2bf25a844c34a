import SwiftEvent.Handlers
import SwiftEvent.Pass
import SwiftEvent.Process

/-!
# Signal registrations

`signalStream` may list a signal twice, and several streams may list it;
`tearDown` deletes their events in any order, also while one of them is being
repeated.

* Each event is freed once and its box released once, when its stream is torn
  down and not before, and no callback sees a released box; a box whose event
  could not be made is released on the spot.
* When no live stream lists a signal, its disposition is the one the process
  started with (`signal_lifecycle`).

The multiplexer is assumed not to refuse the signal pipe.  That the pipe is open
and has its number to itself is shown.
-/

namespace SwiftEvent

/-! ## The number of the signal pipe -/

namespace World

variable {w w' : World} {o o' : Nat} {fd : Fd}

/-- The pipe object `o` has the number to itself. -/
structure Reserved (w : World) (o : Nat) (fd : Fd) : Prop where
  known : o < w.nextObj
  mine : ∃ x, w.obj o = some x ∧ x.role = .pipe ∧ x.fd = fd
  used : w.opened fd = true
  alone : ∀ o' x, w.obj o' = some x → x.fd = fd → o' = o

theorem Reserved.ne_of_free (h : w.Reserved o fd) {fd' : Fd} (free : w.Free fd') : fd' ≠ fd := by
  rintro rfl
  have used := h.used
  simp [World.opened, free.2] at used

theorem Reserved.opens {loop : Nat} {opens : Option Fd} (h : w.Reserved o fd)
    (moves : Opens loop w w' opens) : w'.Reserved o fd := by
  obtain ⟨known, ⟨x, hx, role, own⟩, used, alone⟩ := h
  cases moves with
  | same _ same =>
      exact ⟨same.nextObj ▸ known, ⟨x, same.obj ▸ hx, role, own⟩,
        by rw [World.opened, same.table]; exact used, by rw [same.obj]; exact alone⟩
  | opened role' fd' k free unused same =>
      have ne : fd' ≠ fd := Reserved.ne_of_free ⟨known, ⟨x, hx, role, own⟩, used, alone⟩ free
      refine ⟨?_, ⟨x, ?_, role, own⟩, ?_, ?_⟩
      · rw [same.nextObj]
        exact Nat.lt_succ_of_lt known
      · rw [same.obj]
        simpa [install, Nat.ne_of_lt known] using hx
      · rw [World.opened, same.table]
        simpa [World.opened, install, ne.symm] using used
      · intro o' y hy eq
        rw [same.obj] at hy
        simp only [install] at hy
        by_cases new : o' = w.nextObj
        · subst new
          rw [Function.update_self, Option.some.injEq] at hy
          rw [← hy] at eq
          exact absurd eq ne
        · rw [Function.update_of_ne new] at hy
          exact alone o' y hy eq
  | flash k table obj nextObj closes =>
      exact ⟨nextObj ▸ known, ⟨x, obj ▸ hx, role, own⟩, by rw [World.opened, table]; exact used,
        by rw [obj]; exact alone⟩

/-- The number of another object is closed. -/
theorem Reserved.closeFd (h : w.Reserved o fd) (ne : o' ≠ o) {y : Obj} (hy : w.obj o' = some y)
    {left : Option Obj} (same : ∀ z ∈ left, z.fd = y.fd) :
    Reserved { w.closeFd y.sock y.fd with obj := Function.update w.obj o' left } o fd := by
  obtain ⟨known, ⟨x, hx, role, own⟩, used, alone⟩ := h
  have apart : y.fd ≠ fd := fun eq => ne (alone o' y hy eq)
  refine ⟨known, ⟨x, ?_, role, own⟩, ?_, ?_⟩
  · simpa [ne.symm] using hx
  · simpa [World.opened, World.closeFd, apart.symm] using used
  · intro o'' z hz eq
    replace hz : Function.update w.obj o' left o'' = some z := hz
    by_cases here : o'' = o'
    · subst here
      rw [Function.update_self] at hz
      exact absurd ((same z hz).symm.trans eq) apart
    · rw [Function.update_of_ne here] at hz
      exact alone o'' z hz eq

theorem Reserved.close (h : w.Reserved o fd) (hw : w.close o' = some w') : w'.Reserved o fd := by
  unfold World.close at hw
  split at hw
  · next y hy =>
      split at hw
      · cases hw
      · next notPipe =>
          have ne : o' ≠ o := by
            rintro rfl
            obtain ⟨x, hx, role, -⟩ := h.mine
            rw [hy, Option.some.injEq] at hx
            exact notPipe (hx ▸ role)
          cases hw
          apply h.closeFd ne hy
          intro z closed
          cases closed
          rfl
  · cases hw

theorem Reserved.deinit (h : w.Reserved o fd) (ne : o' ≠ o) (hw : w.deinit o' = some w') :
    w'.Reserved o fd := by
  unfold World.deinit at hw
  split at hw
  · next y hy =>
      cases hw
      apply h.closeFd ne hy
      intro z gone
      cases gone
  · cases hw

end World

namespace Core

variable {c c' : Core} {a : Act} {n r : Nat}

/-- A step of a live loop leaves the pipe its number. -/
theorem reserved_step {fd : Fd} (h : c.world.Reserved c.loop.pipe fd) (hs : c.step a = some c')
    (alive : c'.loop.alive = true) : c'.world.Reserved c'.loop.pipe fd := by
  rw [(ident_step hs).2.1]
  rcases step_opens hs with opens | ⟨o, rfl, hw⟩ | ⟨o, rfl, may, hw⟩ | ⟨rfl, hw⟩
  · exact h.opens opens
  · exact h.close hw
  · refine h.deinit ?_ hw
    rintro rfl
    obtain ⟨x, hx, role, -⟩ := h.mine
    have other := may.2
    simp [hx, role] at other
  · cases step_cases hs with
    | free w living torn hw => cases alive
    | start _ drives => cases drives

/-! ## Registrations -/

/-- A call that a registration holds was made. -/
theorem made_of_held (sound : c.loop.Sound) (held : n ∈ (c.loop.reg r).events) :
    n ∈ c.loop.made ∧ (c.loop.life n).At .listening := by
  obtain ⟨s, hs⟩ := sound.life n
  obtain rfl := hs.listening_of_held ⟨r, held⟩
  exact ⟨hs.1, hs⟩

/-- Only `signalStream` and `tearDown` change registrations. -/
theorem reg_step (sound : c.loop.Sound) (hs : c.step a = some c')
    (notStream : ∀ args, a ≠ .signalStream args) (r : Nat) :
    c'.loop.reg r = c.loop.reg r ∨ c'.loop.reg r = { events := [], torndown := true } := by
  cases step_cases hs with
  | schedule m sleeps duration nomem env now alive new =>
      refine Or.inl ?_
      rcases schedule_cases c (if sleeps then .sleep else .schedule) duration nomem env now
        (sound.not_queued new) with ⟨b, -, eq⟩ | ⟨-, eq⟩ | ⟨-, eq⟩
      all_goals
        rw [eq]
        rfl
  | signalStream args => exact absurd rfl (notStream args)
  | tearDown r' alive opened =>
      rw [tearDown]
      split
      · exact Or.inl rfl
      · have torn := torn_foldl c (sound.regs.nodup r')
        by_cases eq : r = r'
        · subst eq
          exact Or.inr (by simp)
        · exact Or.inl (by simp [eq, torn.reg])
  | _ => exact Or.inl rfl

/-- `signalStream` leaves the registrations of earlier streams alone. -/
theorem reg_signalStream {args : List SignalArg} (hs : c.signalStream args = some c')
    (old : r < c.loop.nextReg) : c'.loop.reg r = c.loop.reg r := by
  refine signalStream_induct (P := fun d => d.loop.reg r = c.loop.reg r) hs rfl ?_
  intro d arg d' _ same hd
  rw [signalOne] at hd
  split at hd
  · cases hd
  · dsimp only at hd
    split at hd
    · cases hd
      exact same
    · cases hd
      have ne : r ≠ c.loop.nextReg := Nat.ne_of_lt old
      simpa [append, record, withBase, eventNew, ne] using same

/-- A registration that exists stays as it is until it is torn down. -/
theorem reg_old (sound : c.loop.Sound) (hs : c.step a = some c') (old : r < c.loop.nextReg) :
    c'.loop.reg r = c.loop.reg r ∨ c'.loop.reg r = { events := [], torndown := true } := by
  by_cases stream : ∃ args, a = .signalStream args
  · obtain ⟨args, rfl⟩ := stream
    obtain ⟨-, hc⟩ := whenAlive_eq_some hs
    exact Or.inl (reg_signalStream hc old)
  · exact reg_step sound hs (fun args eq => stream ⟨args, eq⟩) r

theorem opened_of_held (sound : c.loop.Sound) (held : n ∈ (c.loop.reg r).events) :
    r < c.loop.nextReg := by
  by_contra le
  rw [(sound.regs.fresh r (Nat.le_of_not_lt le)).1] at held
  cases held

/-- **The events of registrations are those of their signals.** -/
def Listed (c : Core) : Prop :=
  ∀ r n, n ∈ (c.loop.reg r).events → ∃ s, (c.loop.call n).kind = .signal s ∧
    (c.loop.base.ev (.call n)).shape = (signalEvent s).shape

theorem listed_signalOne {arg : SignalArg} (streaming : c.Streaming r) (listed : c.Listed)
    (hs : c.signalOne r arg = some c') : c'.Listed := by
  obtain ⟨new, eq⟩ := signalOne_cases hs streaming.sound.not_queued
  have other : ∀ {r' m}, m ∈ (c.loop.reg r').events → m ≠ arg.n := by
    rintro r' m held rfl
    exact new (made_of_held streaming.sound held).1
  rcases eq with rfl | ⟨added, b, add, rfl⟩
  · intro r' m held
    have ne := other held
    obtain ⟨s, kind, shape⟩ := listed r' m held
    exact ⟨s, by simpa [record, ne] using kind, shape⟩
  · have ev : b.ev = (c.eventBase arg.n (signalEvent arg.signum)).ev := by
      obtain ⟨_, _, rfl | ⟨-, -, -, rfl⟩⟩ := Base.evmapSignalAdd_cases add <;> rfl
    intro r' m held
    rw [mem_append_events] at held
    rcases held with held | ⟨rfl, rfl⟩
    · have ne := other held
      obtain ⟨s, kind, shape⟩ := listed r' m held
      refine ⟨s, ?_, ?_⟩
      · simpa [append, record, withBase, ne] using kind
      · simpa [append, record, withBase, ev, eventBase, ne] using shape
    · refine ⟨arg.signum, ?_, ?_⟩
      · simp [append, record]
      · simp [append, record, withBase, ev]

theorem listed_step (sound : c.loop.Sound) (listed : c.Listed) (hs : c.step a = some c') :
    c'.Listed := by
  by_cases stream : ∃ args, a = .signalStream args
  · obtain ⟨args, rfl⟩ := stream
    obtain ⟨alive, hc⟩ := whenAlive_eq_some hs
    exact (signalStream_rounds (P := Listed) sound alive hc listed
      (fun d arg d' _ streaming listed hd => listed_signalOne streaming listed hd)).2.2
  · intro r n held
    rcases reg_step sound hs (fun args eq => stream ⟨args, eq⟩) r with same | torn
    · rw [same] at held
      obtain ⟨made, -⟩ := made_of_held sound held
      obtain ⟨s, kind, shape⟩ := listed r n held
      have known : c.Known (.call n) := made
      refine ⟨s, ?_, (shape_step sound hs known).trans shape⟩
      exact (Life.kind_follows ((step_follows sound hs).2 n) made).1.trans kind
    · rw [torn] at held
      cases held

/-- A queued signal event is held by a registration. -/
theorem held_of_signal (sound : c.loop.Sound) (queued : c.loop.base.Queued (.call n))
    (signal : (c.loop.call n).kind.isSignal = true) : ∃ r, n ∈ (c.loop.reg r).events := by
  obtain ⟨s, hs⟩ := sound.life n
  obtain rfl := hs.listening (Or.inl queued) signal
  exact hs.2.1

/-- A queued event waits for a descriptor or for a signal, not for both. -/
theorem not_signal_of_isIo (sound : c.loop.Sound) (quiet : c.Quiet) (listed : c.Listed) {e : EvId}
    (queued : c.loop.base.Queued e) (io : (c.loop.base.ev e).evEvents.isIo = true) :
    (c.loop.base.ev e).evEvents.signal = false := by
  cases e with
  | signalPipe => exact quiet.pipe
  | call n =>
      cases signal : (c.loop.call n).kind.isSignal with
      | false => exact quiet.calls n queued signal
      | true =>
          obtain ⟨r, held⟩ := held_of_signal sound queued signal
          obtain ⟨s, -, shape⟩ := listed r n held
          rw [(Event.shape_eq shape).2.1] at io
          cases io

/-- **The list of a signal holds events of live streams that list it.** -/
theorem mem_slot (sound : c.loop.Sound) (quiet : c.Quiet) (listed : c.Listed) {e : EvId} {s : Int}
    (mem : e ∈ c.loop.base.evmapSignal s) :
    ∃ r n, e = .call n ∧ n ∈ (c.loop.reg r).events ∧ (c.loop.call n).kind = .signal s := by
  obtain ⟨inserted, isSignal, fd⟩ := Base.mem_evmapSignal.mp mem
  cases e with
  | signalPipe =>
      rw [quiet.pipe] at isSignal
      cases isSignal
  | call n =>
      have queued : c.loop.base.Queued (.call n) := Or.inl inserted
      have signal : (c.loop.call n).kind.isSignal = true := by
        by_contra other
        rw [quiet.calls n queued (by simpa using other)] at isSignal
        cases isSignal
      obtain ⟨r, held⟩ := held_of_signal sound queued signal
      obtain ⟨s', kind, shape⟩ := listed r n held
      have same : s' = s := (Event.shape_eq shape).1.symm.trans fd
      exact ⟨r, n, rfl, held, same ▸ kind⟩

/-! ## The pipe and the handlers -/

/-- The signal pipe is watched on a number that nothing else waits on. -/
structure PipeAlone (c : Core) : Prop where
  events : (c.loop.base.ev .signalPipe).evEvents = { read := true }
  added : .signalPipe ∈ c.loop.base.inserted → c.loop.base.evSignalAdded = true
  reserved : c.loop.alive = true →
    c.world.Reserved c.loop.pipe (c.loop.base.ev .signalPipe).evFd
  apart : c.loop.alive = true → ∀ n, c.loop.base.Queued (.call n) →
    (c.loop.base.ev (.call n)).evEvents.isIo = true →
    (c.loop.base.ev (.call n)).evFd ≠ (c.loop.base.ev .signalPipe).evFd

/-- The multiplexer takes the pipe, unless it refuses it outright. -/
theorem PipeAlone.admits (h : c.PipeAlone) (alive : c.loop.alive = true)
    (notAdded : c.loop.base.evSignalAdded = false) :
    c.loop.base.Admits c.opened none .signalPipe := by
  have out : EvId.signalPipe ∉ c.loop.base.inserted := by
    intro mem
    rw [h.added mem] at notAdded
    cases notAdded
  have none : ∀ e ∈ c.loop.base.inserted, (c.loop.base.ev e).evEvents.isIo = true →
      (c.loop.base.ev e).evFd ≠ (c.loop.base.ev .signalPipe).evFd := by
    intro e mem io
    cases e with
    | signalPipe => exact absurd mem out
    | call n => exact h.apart alive n (Or.inl mem) io
  have nread : c.loop.base.nread (c.loop.base.ev .signalPipe).evFd = 0 := by
    rw [Base.nread, List.countP_eq_zero]
    intro e mem reads
    simp only [Bool.and_eq_true, beq_iff_eq] at reads
    exact none e mem (by simp [Evs.isIo, reads.1]) reads.2
  have nwrite : c.loop.base.nwrite (c.loop.base.ev .signalPipe).evFd = 0 := by
    rw [Base.nwrite, List.countP_eq_zero]
    intro e mem writes
    simp only [Bool.and_eq_true, beq_iff_eq] at writes
    exact none e mem (by simp [Evs.isIo, writes.1]) writes.2
  refine ⟨?_, ?_, fun _ => ⟨(h.reserved alive).used, rfl⟩⟩
  · rw [nread]
    split <;> omega
  · rw [nwrite]
    split <;> omega

/-- A round of `signalStream` leaves the pipe alone. -/
theorem PipeAlone.signalOne {arg : SignalArg} (h : c.PipeAlone) (streaming : c.Streaming r)
    (hs : c.signalOne r arg = some c') : c'.PipeAlone := by
  obtain ⟨new, rfl | ⟨added, b, add, rfl⟩⟩ := signalOne_cases hs streaming.sound.not_queued
  · exact ⟨h.events, h.added, h.reserved, h.apart⟩
  · have ev : b.ev = (c.eventBase arg.n (signalEvent arg.signum)).ev := by
      obtain ⟨_, _, rfl | ⟨-, -, -, rfl⟩⟩ := Base.evmapSignalAdd_cases add <;> rfl
    have pipe : b.ev .signalPipe = c.loop.base.ev .signalPipe := by
      rw [ev]
      simp [eventBase]
    refine ⟨?_, ?_, ?_, ?_⟩
    · simp only [append, record, withBase, pipe]
      exact h.events
    · obtain ⟨_, _, rfl | ⟨-, -, -, rfl⟩⟩ := Base.evmapSignalAdd_cases add
      · intro mem
        refine h.added ?_
        cases added <;> simpa [append, record, withBase, eventBase] using mem
      · intro _
        rfl
    · simp only [append, record, withBase, pipe]
      exact h.reserved
    · simp only [append, record, withBase, pipe]
      intro alive m queued io
      rw [queued_evmapSignalAdd add, queued_eventBase] at queued
      by_cases eq : m = arg.n
      · subst eq
        rw [ev, eventBase_ev_self] at io
        cases io
      · have same : b.ev (.call m) = c.loop.base.ev (.call m) := by
          rw [ev]
          simp [eventBase, eq]
        rw [same] at io ⊢
        exact h.apart alive m (by simpa [eq] using queued) io

/-- Only `signalStream` lets the pipe join the evmap. -/
theorem pipe_added_step (sound : c.loop.Sound) (hs : c.step a = some c')
    (notStream : ∀ args, a ≠ .signalStream args)
    (added : .signalPipe ∈ c.loop.base.inserted → c.loop.base.evSignalAdded = true) :
    .signalPipe ∈ c'.loop.base.inserted → c'.loop.base.evSignalAdded = true := by
  cases step_cases hs with
  | start _ drives m kind o fd events w timeout env now alive new starts accept opens target =>
      rw [startIo_eq { c with world := w } _ fd timeout env now (sound.not_queued new)
        starts.isIo.2.2]
      dsimp only
      split
      · simpa [record, withBase, addedBase, eventBase] using added
      · exact added
  | schedule m sleeps duration nomem env now alive new =>
      rcases schedule_cases c (if sleeps then .sleep else .schedule) duration nomem env now
        (sound.not_queued new) with ⟨b, rfl | rfl, eq⟩ | ⟨-, eq⟩ | ⟨-, eq⟩
      · rw [eq]
        exact added
      · rw [eq]
        exact added
      · rw [eq]
        simpa [record, withBase, eventBase] using added
      · rw [eq]
        simp only [record, withBase, Base.eventActiveNolock]
        split <;> exact added
  | signalStream args => exact absurd rfl (notStream args)
  | tearDown r alive opened =>
      refine tearDown_induct (P := fun d => .signalPipe ∈ d.loop.base.inserted →
        d.loop.base.evSignalAdded = true) added (fun d m ih _ => ?_) (fun d reg ih => ih)
      simpa [tearDownOne, withCall, withBase] using ih
  | free w alive torn hw => exact fun mem => absurd mem List.not_mem_nil
  | dispatch ready now order b alive reports later quiet hb =>
      obtain ⟨d, act, exp, -⟩ := Base.dispatchPass_eq_some hb
      intro mem
      show b.evSignalAdded = true
      rw [exp.signalAdded, act.signalAdded]
      exact added (act.inserted ▸ exp.inserted.subset mem)
  | pipe r rest alive quiet queue =>
      have act := Base.activates_evsigCb { c.loop.base with activequeue := rest }
      intro mem
      show (Base.evsigCb _).evSignalAdded = true
      rw [act.signalAdded]
      exact added (act.inserted ▸ mem)
  | fire r m rest fx alive quiet queue sig body =>
      simpa [fired, withCall, withBase] using added
  | _ => exact added

/-- The number a call waits on is not the pipe's. -/
theorem Starts.ne_pipe {kind : Kind} {o : Nat} {fd : Fd} {events : Evs} {w : World} {pipeFd : Fd}
    (h : c.Starts kind o fd events w) (reserved : c.world.Reserved c.loop.pipe pipeFd) :
    fd ≠ pipeFd := by
  obtain ⟨x, hx, role, -⟩ := reserved.mine
  have live : ∀ {role' y}, c.object role' o = some y → role' ≠ .pipe → y.fd ≠ pipeFd := by
    intro role' y hy ne eq
    obtain ⟨hy, own⟩ := Option.filter_eq_some_iff.mp hy
    obtain rfl := reserved.alone o y hy eq
    rw [hx, Option.some.injEq] at hy
    subst hy
    simp only [decide_eq_true_eq] at own
    exact ne (own.1.symm.trans role)
  cases h with
  | connect address fd free inet => exact reserved.ne_of_free free
  | read o y hy => exact live hy (by simp)
  | write o y data hy => exact live hy (by simp)
  | accept o y hy => exact live hy (by simp)

theorem PipeAlone.step (h : c.PipeAlone) (sound : c.loop.Sound) (listed : c.Listed)
    (hs : c.step a = some c') : c'.PipeAlone := by
  by_cases stream : ∃ args, a = .signalStream args
  · obtain ⟨args, rfl⟩ := stream
    obtain ⟨alive, hc⟩ := whenAlive_eq_some hs
    exact (signalStream_rounds (P := PipeAlone) sound alive hc
      ⟨h.events, h.added, h.reserved, h.apart⟩
      (fun d arg d' _ streaming h hd => h.signalOne streaming hd)).2.2
  · have notStream : ∀ args, a ≠ .signalStream args := fun args eq => stream ⟨args, eq⟩
    have known : c.Known .signalPipe := trivial
    obtain ⟨pipeFd, pipeEvents, -⟩ := Event.shape_eq (shape_step sound hs known)
    have living := (ident_step hs).2.2
    have sound' := (step_follows sound hs).1
    refine ⟨pipeEvents.trans h.events, pipe_added_step sound hs notStream h.added, ?_, ?_⟩
    · intro alive
      rw [pipeFd]
      exact reserved_step (h.reserved (living alive)) hs alive
    · intro alive n queued io
      rw [pipeFd]
      cases signal : (c'.loop.call n).kind.isSignal with
      | true =>
          obtain ⟨r, held⟩ := held_of_signal sound' queued signal
          obtain ⟨s, -, shape⟩ := listed_step sound listed hs r n held
          rw [(Event.shape_eq shape).2.1] at io
          cases io
      | false =>
          by_cases made : n ∈ c.loop.made
          · have kind : (c'.loop.call n).kind = (c.loop.call n).kind :=
              (Life.kind_follows ((step_follows sound hs).2 n) made).1
            have known : c.Known (.call n) := made
            obtain ⟨fd, events, -⟩ := Event.shape_eq (shape_step sound hs known)
            rw [events] at io
            rw [fd]
            rw [kind] at signal
            exact h.apart (living alive) n (queued_back sound hs made queued signal) io
          · rcases shape_of_new sound hs made queued signal with
              ⟨_, _, _, _, _, starts, shape⟩ | shape
            · rw [(Event.shape_eq shape).1]
              exact starts.ne_pipe (h.reserved (living alive))
            · rw [(Event.shape_eq shape).2.1] at io
              cases io

/-- The multiplexer does not refuse the signal pipe. -/
def PipeAccepted (_ : Core) : Act → Prop
  | .signalStream args => ∀ arg ∈ args, arg.env.pipeReject = none
  | _ => True

instance (c : Core) : ∀ a, Decidable (c.PipeAccepted a)
  | .signalStream args => inferInstanceAs (Decidable (∀ arg ∈ args, _))
  | .listen .. | .connect .. | .read .. | .write .. | .accept .. | .schedule .. | .callback ..
  | .tearDown .. | .close .. | .deinit .. | .free | .dispatch .. | .breakSignal | .raise ..
  | .kernel .. => isTrue trivial

/-- **Registrations, the pipe and the handlers agree**, in a process that had the dispositions
`d`. -/
structure Signalling (d : Int → Handler) (c : Core) : Prop where
  sound : c.loop.Sound
  quiet : c.Quiet
  listed : c.Listed
  pipe : c.PipeAlone
  handled : c.loop.base.Handled d

variable {d : Int → Handler}

theorem handled_eventBase (h : c.loop.base.Handled d) (new : ¬ c.loop.base.Queued (.call n))
    (v : Event) : (c.eventBase n v).Handled d :=
  h.congr (Base.evmapSignal_congr rfl (c.shape_eventBase new v)) rfl rfl

theorem handled_signalOne {arg : SignalArg} (h : c.loop.base.Handled d) (pipe : c.PipeAlone)
    (streaming : c.Streaming r) (accepted : arg.env.pipeReject = none)
    (hs : c.signalOne r arg = some c') : c'.loop.base.Handled d := by
  obtain ⟨new, rfl | ⟨added, b, add, rfl⟩⟩ := signalOne_cases hs streaming.sound.not_queued
  · exact h
  · have notQueued := streaming.sound.not_queued new
    have same := c.shape_eventBase notQueued (signalEvent arg.signum)
    have quiet : (c.loop.base.ev .signalPipe).evEvents.signal = false := by rw [pipe.events]
    have isPipe : (c.eventBase arg.n (signalEvent arg.signum)).ev .signalPipe =
        c.loop.base.ev .signalPipe := by
      simp [eventBase]
    refine (handled_eventBase h notQueued (signalEvent arg.signum)).evmapSignalAdd ?_ ?_ ?_ add
    · simp [signalEvent]
    · rw [isPipe]
      exact quiet
    · intro notAdded
      have admits := pipe.admits streaming.alive notAdded
      rw [accepted]
      have nread : ∀ fd, (c.eventBase arg.n (signalEvent arg.signum)).nread fd =
          c.loop.base.nread fd := by
        intro fd
        apply Base.nread_congr
        · rfl
        · exact same
      have nwrite : ∀ fd, (c.eventBase arg.n (signalEvent arg.signum)).nwrite fd =
          c.loop.base.nwrite fd := by
        intro fd
        apply Base.nwrite_congr
        · rfl
        · exact same
      simpa only [Base.Admits, Base.newEvents, isPipe, nread, nwrite] using admits

theorem handled_start {m : Nat} {kind : Kind} {o : Nat} {fd : Fd} {events : Evs} {w : World}
    (h : c.loop.base.Handled d) (new : ¬ c.loop.base.Queued (.call m))
    (starts : c.Starts kind o fd events w) (timeout : Option Duration) (env : Base.AddEnv)
    (now : Timeval) :
    (startIo { c with world := w } m { kind, obj := some o } fd events timeout env
      now).loop.base.Handled d := by
  have quiet : events.signal = false := by cases starts <;> rfl
  have fresh := handled_eventBase (c := { c with world := w }) h new
    { evFd := fd, evEvents := events }
  rw [startIo_eq { c with world := w } _ fd timeout env now new starts.isIo.2.2]
  dsimp only
  split
  · simp only [record, withBase, addedBase]
    apply Base.Handled.withTimeout
    refine fresh.congr (fun s => ?_) rfl rfl
    refine (Base.evmapSignal_cons _ _ s).trans (if_neg ?_)
    rw [eventBase_ev_self, quiet]
    exact fun own => absurd own.1 (by simp)
  · exact fresh

/-- **Every step keeps the handlers in order**, if the multiplexer takes the pipe. -/
theorem handled_step (h : Signalling d c) (accepted : c.PipeAccepted a)
    (hs : c.step a = some c') : c'.loop.base.Handled d := by
  have sound := h.sound
  have handled := h.handled
  have same : ∀ {b : Base}, b.inserted = c.loop.base.inserted → b.ev = c.loop.base.ev →
      b.disposition = c.loop.base.disposition → b.shOld = c.loop.base.shOld → b.Handled d := by
    intro b inserted ev disposition shOld
    refine handled.congr (Base.evmapSignal_congr inserted fun e _ => ?_) disposition shOld
    rw [ev]
  have apart : ∀ e ∈ c.loop.base.inserted, (c.loop.base.ev e).evEvents.isIo = true →
      (c.loop.base.ev e).evEvents.signal = false := fun e mem =>
    not_signal_of_isIo sound h.quiet h.listed (Or.inl mem)
  cases step_cases hs with
  | close o w hw => exact same rfl rfl rfl rfl
  | deinit o w may hw => exact same rfl rfl rfl rfl
  | start _ drives m kind o fd events w timeout env now alive new starts accept opens target =>
      exact handled_start handled (sound.not_queued new) starts timeout env now
  | schedule m sleeps duration nomem env now alive new =>
      have fresh := handled_eventBase handled (sound.not_queued new) {}
      rcases schedule_cases c (if sleeps then .sleep else .schedule) duration nomem env now
        (sound.not_queued new) with ⟨b, rfl | rfl, eq⟩ | ⟨-, eq⟩ | ⟨-, eq⟩
      · rw [eq]
        exact handled
      · rw [eq]
        exact fresh
      · rw [eq]
        exact fresh.withTimeout now (.call m) (some (timevalFor duration))
      · rw [eq]
        exact fresh.eventActiveNolock (.call m) { timeout := true } 1
  | signalStream args c' alive hc =>
      refine (signalStream_rounds (P := fun e => e.loop.base.Handled d ∧ e.PipeAlone) sound alive
        hc ⟨handled, h.pipe.events, h.pipe.added, h.pipe.reserved, h.pipe.apart⟩ ?_).2.2.1
      intro e arg e' mem streaming ih he
      exact ⟨handled_signalOne ih.1 ih.2 streaming (accepted arg mem) he,
        ih.2.signalOne streaming he⟩
  | tearDown r alive opened =>
      have shape : ∀ (e : Core), e.loop.base.inserted ⊆ c.loop.base.inserted →
          e.loop.base.ev = c.loop.base.ev → ∀ x ∈ e.loop.base.inserted,
          (e.loop.base.ev x).evEvents.isIo = true →
          (e.loop.base.ev x).evEvents.signal = false := by
        intro e sub ev x mem
        rw [ev]
        exact apart x (sub mem)
      refine (tearDown_induct (P := fun e => e.loop.base.inserted ⊆ c.loop.base.inserted ∧
        e.loop.base.ev = c.loop.base.ev ∧ e.loop.base.Handled d)
        ⟨List.Subset.refl _, rfl, handled⟩ (fun e m ih _ => ⟨?_, ?_, ?_⟩) (fun e reg ih => ih)).2.2
      · intro x mem
        simp only [tearDownOne, withCall, withBase, Base.eventDelNolock_inserted,
          mem_unlink] at mem
        exact ih.1 mem.1
      · simpa [tearDownOne, withCall, withBase] using ih.2.1
      · exact ih.2.2.eventDelNolock (shape e ih.1 ih.2.1 _)
  | free w alive torn hw =>
      -- every registration is torn down, so the lists are empty already
      have empty : ∀ s, c.loop.base.evmapSignal s = [] := by
        intro s
        rw [List.eq_nil_iff_forall_not_mem]
        intro e mem
        obtain ⟨r, n, -, held, -⟩ := mem_slot sound h.quiet h.listed mem
        rw [sound.regs.torndown r (torn r (opened_of_held sound held))] at held
        cases held
      refine handled.congr (fun s => ?_) rfl rfl
      rw [empty]
      rfl
  | dispatch ready now order b alive reports later quiet hb =>
      have act := Base.activates_epollDispatch c.loop.base ready
      have passed : Base.Handled d { c.loop.base.epollDispatch ready with pass := now } :=
        (act.handled handled).congr (fun _ => rfl) rfl rfl
      refine passed.timeoutProcess ?_ hb
      intro e mem io
      obtain ⟨-, events, -⟩ := Event.shape_eq (act.shape e)
      rw [events] at io ⊢
      exact apart e (act.inserted ▸ mem) io
  | pipe r rest alive quiet queue =>
      exact (Base.activates_evsigCb { c.loop.base with activequeue := rest }).handled
        (same rfl rfl rfl rfl)
  | skip r m rest alive quiet queue sig => exact same rfl rfl rfl rfl
  | yield r m left rest alive quiet queue sig => exact same rfl rfl rfl rfl
  | again r m left alive rep => exact same rfl rfl rfl rfl
  | fire r m rest fx alive quiet queue sig body =>
      simp only [fired, withCall, withBase]
      exact handled.eventDelNolock (apart _)
  | breakSignal => exact same rfl rfl rfl rfl
  | raise sig alive => exact same rfl rfl rfl rfl
  | _ => exact handled

theorem Signalling.step (h : Signalling d c) (accepted : c.PipeAccepted a)
    (hs : c.step a = some c') : Signalling d c' where
  sound := (step_follows h.sound hs).1
  quiet := quiet_step h.sound h.quiet hs
  listed := listed_step h.sound h.listed hs
  pipe := h.pipe.step h.sound h.listed hs
  handled := handled_step h accepted hs

/-! ## Whole runs -/

/-- A process that had the dispositions `d` when it created its loop. -/
def initWith (endian : Endian) (pipeFd : Fd) (d : Int → Handler) : Core :=
  (init endian pipeFd).withBase { Base.new pipeFd with disposition := d }

theorem signalling_init (endian : Endian) (pipeFd : Fd) (d : Int → Handler) :
    Signalling d (initWith endian pipeFd d) where
  sound := ⟨(sound_new 0 0 pipeFd).life, (sound_new 0 0 pipeFd).regs.congr rfl rfl⟩
  quiet := ⟨rfl, fun n queued => by simp [initWith, withBase, Base.new, Base.Queued] at queued⟩
  listed r n held := absurd held List.not_mem_nil
  pipe := by
    refine .mk rfl (fun mem => absurd mem List.not_mem_nil) (fun _ => ?_) (fun _ n queued => ?_)
    · refine ⟨Nat.zero_lt_one, ⟨_, rfl, rfl, rfl⟩, ?_, ?_⟩
      · simp [World.opened, initWith, withBase, init, World.openObj, World.install, Base.new]
      · intro o x hx _
        by_contra ne
        have none : (initWith endian pipeFd d).world.obj o = none := Function.update_of_ne ne _ _
        rw [none] at hx
        cases hx
    · simp [initWith, withBase, Base.new, Base.Queued] at queued
  handled := ⟨fun s _ => ⟨rfl, rfl⟩, fun s taken => absurd rfl taken⟩

theorem signalling_run (h : Signalling d c) {as : List Act}
    (accepted : StepSystem.Meets Core.step PipeAccepted c as)
    (run : StepSystem.run Core.step c as = some c') : Signalling d c' :=
  StepSystem.invariant_run_of_meets (P := Signalling d)
    (fun _ _ _ h accepted hs => h.step accepted hs) h accepted run

/-- What has become of an event that the registration `r` was handed: it is held, or the
registration is torn down and the event freed. -/
def Kempt (c : Core) (r n : Nat) : Prop :=
  n ∈ (c.loop.reg r).events ∨ (c.loop.reg r).torndown = true ∧ (c.loop.life n).At .closed

theorem Kempt.step (h : c.Kempt r n) (sound : c.loop.Sound) (hs : c.step a = some c') :
    c'.Kempt r n := by
  obtain ⟨sound', follows⟩ := step_follows sound hs
  rcases h with held | ⟨torn, closed⟩
  · obtain ⟨-, listening⟩ := made_of_held sound held
    by_cases stream : ∃ args, a = .signalStream args
    · obtain ⟨args, rfl⟩ := stream
      obtain ⟨-, hc⟩ := whenAlive_eq_some hs
      refine Or.inl ?_
      rwa [reg_signalStream hc (opened_of_held sound held)]
    have regs := reg_step sound hs (fun args eq => stream ⟨args, eq⟩)
    rcases regs r with same | empty
    · exact Or.inl (by rwa [same])
    · obtain ⟨t, ht, leads⟩ := Life.at_follows listening (follows n)
      rcases leads.of_listening with rfl | rfl
      · -- it was in no other registration, and is in none now
        exfalso
        obtain ⟨r', held'⟩ := ht.2.1
        rcases regs r' with same' | empty'
        · rw [same'] at held'
          obtain rfl := sound.regs.disjoint r' r n held' held
          rw [← same', empty] at held
          cases held
        · rw [empty'] at held'
          cases held'
      · exact Or.inr ⟨by rw [empty], ht⟩
  · have old : r < c.loop.nextReg := by
      by_contra le
      rw [(sound.regs.fresh r (Nat.le_of_not_lt le)).2] at torn
      cases torn
    obtain ⟨t, ht, leads⟩ := Life.at_follows closed (follows n)
    obtain rfl := leads.of_closed
    refine Or.inr ⟨?_, ht⟩
    rcases reg_old sound hs old with same | empty
    · rwa [same]
    · rw [empty]

theorem kempt_run {as : List Act} (h : c.Kempt r n) (sound : c.loop.Sound)
    (run : StepSystem.run Core.step c as = some c') : c'.Kempt r n := by
  have keep : ∀ (d : Core) a d', d.loop.Sound ∧ d.Kempt r n → d.step a = some d' →
      d'.loop.Sound ∧ d'.Kempt r n := by
    intro d a d' hd hs
    exact ⟨(step_follows hd.1 hs).1, hd.2.step hd.1 hs⟩
  exact (StepSystem.invariant_run (P := fun d => d.loop.Sound ∧ d.Kempt r n) keep ⟨sound, h⟩ run).2

/-- A signal's box that no registration was handed is released by `signalStream` itself. -/
theorem refunded_of_unallocated (sound : c.loop.Sound) (made : n ∈ c.loop.made)
    (signal : (c.loop.call n).kind.isSignal = true) (none : (c.loop.call n).allocs = 0) :
    (c.loop.call n).Refunded := by
  obtain ⟨s, hs⟩ := sound.life n
  have started : (c.loop.call n).Started → (c.loop.call n).Refunded := by
    intro h
    rw [h.signal] at signal
    cases signal
  cases s with
  | unmade => exact absurd made hs.1
  | answered =>
      obtain ⟨address, kind⟩ := hs.2.2.connect
      have kind : (c.loop.call n).kind = .connect address := kind
      rw [kind] at signal
      cases signal
  | waiting => exact started hs.2.2.2.2.2.1
  | refused => exact started hs.2.2.1
  | dropped => exact started hs.2.2.2.1
  | done =>
      have plain : (c.loop.call n).kind.isSignal = false := hs.2.2.1.signal
      rw [plain] at signal
      cases signal
  | refunded => exact hs.2.2
  | listening =>
      have one : (c.loop.call n).allocs = 1 := hs.2.2.2.allocs
      rw [none] at one
      cases one
  | closed =>
      have one : (c.loop.call n).allocs = 1 := hs.2.2.allocs
      rw [none] at one
      cases one

/-- **The life of signal registrations.**  Let the registration `r` hold the event `n` after some
steps.  After any more steps the event was freed once and its box released once if `r` has been
torn down, and neither if it has not; no callback of a signal has seen a released box; and a
signal that no live stream lists has the disposition it had when the loop was created. -/
theorem signal_lifecycle {endian : Endian} {pipeFd : Fd} {d : Int → Handler} {as bs : List Act}
    {c e : Core} (before : StepSystem.run Core.step (initWith endian pipeFd d) as = some c)
    (after : StepSystem.run Core.step c bs = some e)
    (accepted : StepSystem.Meets Core.step PipeAccepted (initWith endian pipeFd d) (as ++ bs)) :
    (∀ r n, n ∈ (c.loop.reg r).events →
      (e.loop.call n).allocs = 1 ∧
      if (e.loop.reg r).torndown = true then
        (e.loop.call n).frees = 1 ∧ (e.loop.call n).released = 1
      else (e.loop.call n).frees = 0 ∧ (e.loop.call n).released = 0) ∧
    (∀ n ∈ e.loop.made, (e.loop.call n).kind.isSignal = true → (e.loop.call n).stale = 0 ∧
      ((e.loop.call n).allocs = 0 → (e.loop.call n).frees = 0 ∧ (e.loop.call n).released = 1)) ∧
    ∀ s, (∀ r n, n ∈ (e.loop.reg r).events → (e.loop.call n).kind ≠ .signal s) →
      e.loop.base.disposition s = d s := by
  have mid := signalling_run (signalling_init endian pipeFd d) accepted.append_left before
  have last := signalling_run mid (accepted.append_right before) after
  refine ⟨?_, ?_, ?_⟩
  · intro r n held
    rcases kempt_run (Or.inl held) mid.sound after with held | ⟨torn, closed⟩
    · obtain ⟨-, listening⟩ := made_of_held last.sound held
      have live : ¬ (e.loop.reg r).torndown = true := by
        intro torn
        rw [last.sound.regs.torndown r torn] at held
        cases held
      rw [if_neg live]
      exact ⟨listening.2.2.2.allocs, listening.2.2.2.frees, listening.2.2.2.released⟩
    · rw [if_pos torn]
      exact ⟨closed.2.2.allocs, closed.2.2.frees, closed.2.2.released⟩
  · intro n made signal
    refine ⟨((last.sound.life n).once made).2.2, ?_⟩
    intro none
    have refunded := refunded_of_unallocated last.sound made signal none
    exact ⟨refunded.frees, refunded.released⟩
  · intro s unlisted
    apply And.right
    apply last.handled.free
    rw [List.eq_nil_iff_forall_not_mem]
    intro x mem
    obtain ⟨r, n, -, held, kind⟩ := mem_slot last.sound last.quiet last.listed mem
    exact unlisted r n held kind

/-- Two streams list signal 10, the first of them twice; it is caught three times, and the
callback of one event is being repeated. -/
def overlapping : List Act :=
  [ .signalStream [{ n := 0, signum := 10 }, { n := 1, signum := 10 }, { n := 2, signum := -1 }],
    .signalStream [{ n := 3, signum := 10 },
      { n := 4, signum := 9, env := { sigactionFails := true } }],
    .raise 10, .raise 10, .raise 10, .dispatch [(3, { epollin := true })] ⟨1, 0⟩ [],
    .callback .nothing, .callback .nothing ]

theorem signal_lifecycle_overlapping :
    ∃ c e, StepSystem.run Core.step (initWith .little 3 fun _ => .other 7) overlapping = some c ∧
      c.loop.base.repeating = some (.call 3, 2) ∧ c.loop.base.disposition 10 = .evsigHandler ∧
      StepSystem.run Core.step c [.tearDown 1, .tearDown 0, .tearDown 1] = some e ∧
      (e.loop.call 3).frees = 1 ∧ (e.loop.call 3).released = 1 ∧ (e.loop.call 3).stale = 0 ∧
      e.loop.base.disposition 10 = .other 7 := by
  have facts : (StepSystem.run Core.step (initWith .little 3 fun _ => .other 7) overlapping).bind
      (fun c => (StepSystem.run Core.step c [.tearDown 1, .tearDown 0, .tearDown 1]).map fun e =>
        decide (c.loop.base.repeating = some (.call 3, 2) ∧
          c.loop.base.disposition 10 = .evsigHandler ∧ 3 ∈ (c.loop.reg 1).events ∧
          3 ∈ e.loop.made ∧ (e.loop.call 3).kind.isSignal = true ∧
          (e.loop.reg 1).torndown = true ∧ e.loop.nextReg = 2 ∧
          ∀ r ∈ List.range 2, (e.loop.reg r).events = [])) = some true := by
    decide +kernel
  have accepted : StepSystem.Meets Core.step PipeAccepted (initWith .little 3 fun _ => .other 7)
      (overlapping ++ [.tearDown 1, .tearDown 0, .tearDown 1]) := by
    decide +kernel
  obtain ⟨c, before, facts⟩ := Option.bind_eq_some_iff.mp facts
  obtain ⟨e, after, facts⟩ := Option.map_eq_some_iff.mp facts
  obtain ⟨repeating, taken, held, made, signal, torn, two, empty⟩ := of_decide_eq_true facts
  obtain ⟨freed, unstale, restored⟩ := signal_lifecycle before after accepted
  have once := (freed 1 3 held).2
  rw [if_pos torn] at once
  refine ⟨c, e, before, repeating, taken, after, once.1, once.2, (unstale 3 made signal).1, ?_⟩
  apply restored
  intro r n held
  have sound := (signalling_run (signalling_init .little 3 fun _ => .other 7) accepted
    (StepSystem.run_append_eq_some.mpr ⟨c, before, after⟩)).sound
  have opened := opened_of_held sound held
  rw [empty r (List.mem_range.mpr (two ▸ opened))] at held
  cases held

end Core

end SwiftEvent
