import SwiftEvent.Queues

/-!
# Signal handlers

libevent keeps the events of each signal in a list.  The first event of a list
installs libevent's handler and saves the one in force; the last one to leave
restores it.  `Handled` is what that amounts to, and everything the base does to
its events keeps it, whichever event is added, deleted, activated or expired.

The one exception is an `event_add` that fails because the multiplexer refuses the
signal pipe: it leaves the handler installed with no event to remove it.
-/

namespace SwiftEvent

namespace Base

variable {b b' : Base} {d : Int → Handler} {opened : Fd → Bool} {env : AddEnv} {e : EvId} {s : Int}

/-- **The handlers of the base**, in a process that had `d`: libevent's own for the signals
somebody listens for, with the original saved. -/
structure Handled (d : Int → Handler) (b : Base) : Prop where
  free : ∀ s, b.evmapSignal s = [] → b.shOld s = none ∧ b.disposition s = d s
  taken : ∀ s, b.evmapSignal s ≠ [] → b.shOld s = some (d s) ∧ b.disposition s = .evsigHandler

theorem mem_evmapSignal :
    e ∈ b.evmapSignal s ↔
      e ∈ b.inserted ∧ (b.ev e).evEvents.signal = true ∧ (b.ev e).evFd = s := by
  simp [evmapSignal]

theorem evmapSignal_congr (inserted : b'.inserted = b.inserted)
    (shape : ∀ e ∈ b.inserted, (b'.ev e).shape = (b.ev e).shape) (s : Int) :
    b'.evmapSignal s = b.evmapSignal s := by
  rw [evmapSignal, evmapSignal, inserted]
  apply List.filter_congr
  intro e mem
  obtain ⟨fd, events, -⟩ := Event.shape_eq (shape e mem)
  rw [fd, events]

theorem evmapSignal_cons (b : Base) (e : EvId) (s : Int) :
    evmapSignal { b with inserted := e :: b.inserted } s =
      if (b.ev e).evEvents.signal = true ∧ (b.ev e).evFd = s then e :: b.evmapSignal s
      else b.evmapSignal s := by
  rw [evmapSignal, evmapSignal, List.filter_cons]
  simp

theorem evmapSignal_unlink (b : Base) (e : EvId) (s : Int) :
    evmapSignal { b with inserted := unlink b.inserted e } s = unlink (b.evmapSignal s) e := by
  rw [evmapSignal, evmapSignal, unlink, unlink, List.filter_comm]

theorem Handled.congr (h : b.Handled d) (slots : ∀ s, b'.evmapSignal s = b.evmapSignal s)
    (disposition : b'.disposition = b.disposition) (shOld : b'.shOld = b.shOld) :
    b'.Handled d := by
  constructor
  · intro s empty
    rw [disposition, shOld]
    apply h.free
    rwa [slots] at empty
  · intro s taken
    rw [disposition, shOld]
    apply h.taken
    rwa [slots] at taken

theorem Activates.handled (act : Activates b b') (h : b.Handled d) : b'.Handled d :=
  h.congr (evmapSignal_congr act.inserted fun e _ => act.shape e) act.handlers.1 act.handlers.2

/-- The last event of a signal to go gives its disposition back. -/
theorem Handled.evmapSignalDel (h : b.Handled d) (e : EvId) : (b.evmapSignalDel e).Handled d := by
  have slots : ∀ s, evmapSignal { b with inserted := unlink b.inserted e } s =
      unlink (b.evmapSignal s) e := evmapSignal_unlink b e
  have other : ∀ s, s ≠ (b.ev e).evFd → unlink (b.evmapSignal s) e = b.evmapSignal s := by
    intro s ne
    apply unlink_of_notMem
    intro mem
    exact ne (mem_evmapSignal.mp mem).2.2.symm
  unfold Base.evmapSignalDel evsigDel
  dsimp only
  split
  · next empty =>
      rw [slots] at empty
      cases saved : b.shOld (b.ev e).evFd with
      | none =>
          dsimp only
          have none : b.evmapSignal (b.ev e).evFd = [] := by
            by_contra taken
            rw [(h.taken _ taken).1] at saved
            cases saved
          refine h.congr (fun s => ?_) rfl rfl
          rw [slots]
          by_cases eq : s = (b.ev e).evFd
          · rw [eq, none]
            rfl
          · exact other s eq
      | some handler =>
          dsimp only
          have taken : b.evmapSignal (b.ev e).evFd ≠ [] := by
            intro none
            rw [(h.free _ none).1] at saved
            cases saved
          have original : handler = d (b.ev e).evFd := by
            rw [(h.taken _ taken).1, Option.some.injEq] at saved
            exact saved.symm
          constructor
          · intro s
            show evmapSignal { b with inserted := unlink b.inserted e } s = [] → _
            rw [slots]
            intro none
            by_cases eq : s = (b.ev e).evFd
            · simp [eq, original]
            · rw [other s eq] at none
              simpa [eq] using h.free s none
          · intro s
            show evmapSignal { b with inserted := unlink b.inserted e } s ≠ [] → _
            rw [slots]
            intro taken'
            by_cases eq : s = (b.ev e).evFd
            · rw [eq] at taken'
              exact absurd empty taken'
            · rw [other s eq] at taken'
              simpa [eq] using h.taken s taken'
  · next remain =>
      rw [slots] at remain
      constructor
      · intro s none
        rw [slots] at none
        by_cases eq : s = (b.ev e).evFd
        · rw [eq] at none
          exact absurd none remain
        · rw [other s eq] at none
          exact h.free s none
      · intro s taken
        apply h.taken s
        intro none
        rw [slots, none] at taken
        exact taken rfl

/-- `event_del` on any event keeps the handlers in order. -/
theorem Handled.eventDelNolock (h : b.Handled d)
    (apart : e ∈ b.inserted → (b.ev e).evEvents.isIo = true → (b.ev e).evEvents.signal = false) :
    (b.eventDelNolock opened e).Handled d := by
  unfold Base.eventDelNolock
  dsimp only
  split
  · next mem =>
      split
      · next io =>
          rw [evmapIoDel_eq]
          refine h.congr (fun s => ?_) rfl rfl
          refine (evmapSignal_unlink b e s).trans ?_
          apply unlink_of_notMem
          intro mem'
          have signal := (mem_evmapSignal.mp mem').2.1
          rw [apart mem io] at signal
          cases signal
      · apply Handled.evmapSignalDel
        exact h.congr (fun s => rfl) rfl rfl
  · exact h.congr (fun s => rfl) rfl rfl

/-- `evsig_add` for a signal nobody listens for, with an event that then does. -/
theorem Handled.evsigAdd {ok : Bool} (h : b.Handled d) (none : b.evmapSignal (b.ev e).evFd = [])
    (signal : (b.ev e).evEvents.signal = true)
    (pipe : (b.ev .signalPipe).evEvents.signal = false)
    (admits : b.evSignalAdded = false → b.Admits opened env.pipeReject .signalPipe)
    (hb : b.evsigAdd opened env (b.ev e).evFd = (ok, b')) :
    ok = false ∧ b' = b ∨ ok = true ∧ Handled d { b' with inserted := e :: b'.inserted } := by
  -- whether or not the pipe joins, the lists are those of the base with the event
  have taken : ∀ inserted epoll added, (∀ s, evmapSignal { b with inserted } s = b.evmapSignal s) →
      Handled d { b with
        inserted := e :: inserted
        epoll
        evSignalAdded := added
        disposition := Function.update b.disposition (b.ev e).evFd .evsigHandler
        shOld := Function.update b.shOld (b.ev e).evFd (some (b.disposition (b.ev e).evFd)) } := by
    intro inserted epoll added same
    have slots : ∀ s, evmapSignal { b with inserted := e :: inserted } s =
        if (b.ev e).evEvents.signal = true ∧ (b.ev e).evFd = s then e :: b.evmapSignal s
        else b.evmapSignal s := by
      intro s
      refine (evmapSignal_cons { b with inserted } e s).trans ?_
      rw [same]
    constructor
    · intro s
      show evmapSignal { b with inserted := e :: inserted } s = [] → _
      rw [slots]
      intro empty
      by_cases eq : s = (b.ev e).evFd
      · simp [eq, signal] at empty
      · rw [if_neg fun own => eq own.2.symm] at empty
        simpa [eq] using h.free s empty
    · intro s
      show evmapSignal { b with inserted := e :: inserted } s ≠ [] → _
      rw [slots]
      intro full
      by_cases eq : s = (b.ev e).evFd
      · simp [eq, (h.free _ none).2]
      · rw [if_neg fun own => eq own.2.symm] at full
        simpa [eq] using h.taken s full
  rw [Base.evsigAdd] at hb
  split at hb
  · cases hb
    exact Or.inl ⟨rfl, rfl⟩
  · simp only [evmapIoAdd_eq] at hb
    split at hb
    · cases hb
      exact Or.inr ⟨rfl, taken _ _ _ fun _ => rfl⟩
    · next notAdded =>
        have admits' := admits (by simpa using notAdded)
        rw [if_pos (by exact admits')] at hb
        cases hb
        refine Or.inr ⟨rfl, taken (.signalPipe :: b.inserted) _ _ fun s => ?_⟩
        refine (evmapSignal_cons b .signalPipe s).trans (if_neg ?_)
        rw [pipe]
        exact fun own => absurd own.1 (by simp)

/-- **`event_add` on a signal event keeps the handlers in order**, if the pipe is taken. -/
theorem Handled.evmapSignalAdd {ok : Bool} (h : b.Handled d)
    (signal : (b.ev e).evEvents.signal = true)
    (pipe : (b.ev .signalPipe).evEvents.signal = false)
    (admits : b.evSignalAdded = false → b.Admits opened env.pipeReject .signalPipe)
    (hb : b.evmapSignalAdd opened env e = (ok, b')) : b'.Handled d := by
  rw [Base.evmapSignalAdd] at hb
  split at hb
  · cases hb
    exact h
  · split at hb
    · next none =>
        cases added : b.evsigAdd opened env (b.ev e).evFd with
        | mk ok' c =>
            rw [added] at hb
            rcases h.evsigAdd none signal pipe admits added with ⟨rfl, rfl⟩ | ⟨rfl, handled⟩
            · cases hb
              exact h
            · cases hb
              exact handled
    · next some =>
        cases hb
        constructor
        · intro s empty
          rw [evmapSignal_cons] at empty
          split at empty
          · cases empty
          · exact h.free s empty
        · intro s taken
          rw [evmapSignal_cons] at taken
          split at taken
          · next own =>
              rw [← own.2]
              exact h.taken _ some
          · exact h.taken s taken

theorem Handled.eventActiveNolock (h : b.Handled d) (e : EvId) (res : Evs) (ncalls : Nat) :
    (b.eventActiveNolock e res ncalls).Handled d := by
  have shape : ∀ x, ((b.eventActiveNolock e res ncalls).ev x).shape = (b.ev x).shape := by
    intro x
    by_cases eq : x = e
    · subst eq
      unfold Base.eventActiveNolock
      split <;> simp [Event.shape]
    · rw [eventActiveNolock_ev_of_ne _ eq]
  refine h.congr (evmapSignal_congr ?_ fun x _ => shape x) ?_ ?_
  all_goals
    unfold Base.eventActiveNolock
    split <;> rfl

theorem Handled.withTimeout (h : b.Handled d) (now : Timeval) (e : EvId) (tv : Option Timeval) :
    (b.withTimeout now e tv).Handled d := by
  refine h.congr (evmapSignal_congr (by simp) fun x _ => withTimeout_shape ..) ?_ ?_
  all_goals cases tv <;> rfl

theorem Handled.timeoutProcess {now : Timeval} {order : List EvId} (h : b.Handled d)
    (apart : ∀ e ∈ b.inserted, (b.ev e).evEvents.isIo = true → (b.ev e).evEvents.signal = false)
    (hb : b.timeoutProcess opened now order = some b') : b'.Handled d := by
  induction order generalizing b with
  | nil =>
      rw [Base.timeoutProcess] at hb
      split at hb
      · cases hb
        exact h
      · cases hb
  | cons e order ih =>
      rw [Base.timeoutProcess] at hb
      split at hb
      · next due =>
          have expires : Expires opened now b _ := expires_one due.1 due.2
          refine ih ((h.eventDelNolock (apart e)).eventActiveNolock _ _ _) ?_ hb
          intro x mem io
          obtain ⟨-, events, -⟩ := Event.shape_eq (expires.shape x)
          rw [events] at io ⊢
          exact apart x (expires.inserted.subset mem) io
      · cases hb

end Base

end SwiftEvent
