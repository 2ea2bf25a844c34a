import SwiftEvent.Handlers

/-!
# A base and the same base without one event

Two bases that differ in one event of a descriptor only (`Without`): it is on the
queues of the one, and on none of the other's.  Whatever is done to both, with
any other event, they still differ in that event only; what is done with the
event itself, in the one that has it, changes nothing else.  So it is with a pass
of the multiplexer and the timers, if what the kernel reports is what it would
report without the event.

The interest list is left out.  Where the multiplexer watches what the evmap
counts, it follows from the rest.  So is the time of the last pass, since a pass
that activates nothing else need not be made in the base without the event.
-/

namespace SwiftEvent

namespace Base

variable {b b' c c' : Base} {e x : EvId} {opened : Fd → Bool}

/-- `b'` is `b` without the event `e` of a descriptor. -/
structure Without (e : EvId) (b b' : Base) : Prop where
  inserted : b'.inserted = unlink b.inserted e
  timeheap : b'.timeheap = unlink b.timeheap e
  activequeue : b'.activequeue = unlink b.activequeue e
  ev : ∀ x, x ≠ e → b'.ev x = b.ev x
  evSignalAdded : b'.evSignalAdded = b.evSignalAdded
  pipe : b'.pipe = b.pipe
  disposition : b'.disposition = b.disposition
  shOld : b'.shOld = b.shOld
  repeating : b'.repeating = b.repeating
  apart : b.repeating.map Prod.fst ≠ some e
  io : e ∈ b.inserted → (b.ev e).evEvents.isIo = true ∧ (b.ev e).evEvents.signal = false

/-- The 16-bit counters of the event's descriptor have room for one more while it is inserted. -/
def Roomy (b : Base) (e : EvId) : Prop :=
  e ∈ b.inserted → b.nread (b.ev e).evFd < 0xffff ∧ b.nwrite (b.ev e).evFd < 0xffff

instance (b : Base) (e : EvId) : Decidable (b.Roomy e) :=
  inferInstanceAs (Decidable (_ → _ ∧ _))

/-- What the kernel would report without the event: nothing of a descriptor on which nothing else
waits, and only the directions that something else waits for. -/
def reportWithout (b : Base) (e : EvId) (r : Fd × EpollReport) : Option (Fd × EpollReport) :=
  let watched := oldEvents { b with inserted := unlink b.inserted e } r.1
  if watched.isSet then
    some (r.1, { r.2 with
      epollin := r.2.epollin && watched.epollin
      epollout := r.2.epollout && watched.epollout })
  else none

namespace Without

theorem mem_inserted (h : Without e b b') (ne : x ≠ e) : x ∈ b'.inserted ↔ x ∈ b.inserted := by
  rw [h.inserted, mem_unlink]
  exact and_iff_left ne

theorem mem_activequeue (h : Without e b b') (ne : x ≠ e) :
    x ∈ b'.activequeue ↔ x ∈ b.activequeue := by
  rw [h.activequeue, mem_unlink]
  exact and_iff_left ne

/-- The slots of the signals are the same. -/
theorem evmapSignal (h : Without e b b') (sig : Int) : b'.evmapSignal sig = b.evmapSignal sig := by
  rw [Base.evmapSignal, Base.evmapSignal, h.inserted, unlink, List.filter_filter]
  apply List.filter_congr
  intro x mem
  by_cases eq : x = e
  · subst eq
    simp [(h.io mem).2]
  · simp [eq, h.ev x eq]

theorem evmapIo (h : Without e b b') (fd : Fd) : b'.evmapIo fd = unlink (b.evmapIo fd) e := by
  rw [Base.evmapIo, Base.evmapIo, h.inserted, unlink, unlink, List.filter_filter,
    List.filter_filter]
  apply List.filter_congr
  intro x _
  by_cases eq : x = e
  · simp [eq]
  · simp [eq, h.ev x eq]

/-! ## One event -/

/-- What the deletion of a signal event does to the handlers. -/
theorem evmapSignalDel_handlers (b : Base) (x : EvId) :
    let sig := (b.ev x).evFd
    ((b.evmapSignalDel x).disposition, (b.evmapSignalDel x).shOld) =
      if unlink (b.evmapSignal sig) x = [] then
        (b.shOld sig).elim (b.disposition, b.shOld) fun handler =>
          (Function.update b.disposition sig handler, Function.update b.shOld sig none)
      else (b.disposition, b.shOld) := by
  simp only [evmapSignalDel, evsigDel, evmapSignal_unlink]
  split
  · cases b.shOld (b.ev x).evFd <;> rfl
  · rfl

/-- Another event is deleted. -/
theorem del (h : Without e b b') (ne : x ≠ e) :
    Without e (b.eventDelNolock opened x) (b'.eventDelNolock opened x) := by
  have handlers : ((b'.eventDelNolock opened x).disposition,
      (b'.eventDelNolock opened x).shOld) =
      ((b.eventDelNolock opened x).disposition, (b.eventDelNolock opened x).shOld) := by
    have same : (b'.disposition, b'.shOld) = (b.disposition, b.shOld) := by
      rw [h.disposition, h.shOld]
    simp only [eventDelNolock, h.mem_inserted ne, h.ev x ne]
    split
    · split
      · rw [evmapIoDel_eq, evmapIoDel_eq]
        exact same
      · rw [evmapSignalDel_handlers, evmapSignalDel_handlers]
        show (if unlink (b'.evmapSignal (b'.ev x).evFd) x = [] then
            (b'.shOld (b'.ev x).evFd).elim _ _ else _) =
          if unlink (b.evmapSignal (b.ev x).evFd) x = [] then (b.shOld (b.ev x).evFd).elim _ _
          else _
        rw [h.ev x ne, h.evmapSignal, h.shOld, h.disposition]
    · exact same
  constructor
  case disposition => exact congrArg Prod.fst handlers
  case shOld => exact congrArg Prod.snd handlers
  case repeating => rw [eventDelNolock_repeating, eventDelNolock_repeating, h.repeating]
  case apart =>
    rw [eventDelNolock_repeating]
    split
    · simp
    · exact h.apart
  case io =>
    rw [eventDelNolock_ev, eventDelNolock_inserted]
    exact fun mem => h.io (mem_unlink.mp mem).1
  all_goals simp [h.inserted, h.timeheap, h.activequeue, h.evSignalAdded, h.pipe,
    unlink_comm _ x e]
  exact h.ev

/-- The event itself is deleted. -/
theorem del_self (h : Without e b b') : Without e (b.eventDelNolock opened e) b' := by
  have handlers : (b.eventDelNolock opened e).disposition = b.disposition ∧
      (b.eventDelNolock opened e).shOld = b.shOld := by
    simp only [eventDelNolock]
    split
    · next mem =>
        rw [if_pos (h.io mem).1, evmapIoDel_eq]
        exact ⟨rfl, rfl⟩
    · exact ⟨rfl, rfl⟩
  constructor
  case disposition => rw [handlers.1, h.disposition]
  case shOld => rw [handlers.2, h.shOld]
  case repeating => rw [eventDelNolock_repeating, if_neg h.apart, h.repeating]
  case apart =>
    rw [eventDelNolock_repeating, if_neg h.apart]
    exact h.apart
  case io =>
    rw [eventDelNolock_inserted]
    exact fun mem => absurd rfl (mem_unlink.mp mem).2
  all_goals simp [h.inserted, h.timeheap, h.activequeue, h.evSignalAdded, h.pipe,
    unlink_unlink]
  exact h.ev

theorem update_ev (ev : ∀ y, y ≠ e → b'.ev y = b.ev y) (x : EvId) (v : Event) :
    ∀ y, y ≠ e → Function.update b'.ev x v y = Function.update b.ev x v y := by
  intro y other
  by_cases eq : y = x
  · rw [eq, Function.update_self, Function.update_self]
  · rw [Function.update_of_ne eq, Function.update_of_ne eq]
    exact ev y other

/-- An event that is nowhere. -/
theorem of_not_queued (idle : ¬ b.Queued e) (apart : b.repeating.map Prod.fst ≠ some e) :
    Without e b b := by
  have gone : ∀ {l : List EvId}, e ∉ l → l = unlink l e := fun out => (unlink_of_notMem out).symm
  simp only [Queued, not_or] at idle
  exact ⟨gone idle.1, gone idle.2.1, gone idle.2.2, fun _ _ => rfl, rfl, rfl, rfl, rfl, rfl,
    apart, fun mem => absurd mem idle.1⟩

/-- Where the event is nowhere, each base is the other without it. -/
theorem symm (h : Without e b b') (idle : ¬ b.Queued e) : Without e b' b := by
  have same : ∀ {l l' : List EvId}, e ∉ l → l' = unlink l e → l = unlink l' e := by
    intro l l' out eq
    rw [eq, unlink_unlink, unlink_of_notMem out]
  simp only [Queued, not_or] at idle
  exact
    { inserted := same idle.1 h.inserted
      timeheap := same idle.2.1 h.timeheap
      activequeue := same idle.2.2 h.activequeue
      ev := fun x ne => (h.ev x ne).symm
      evSignalAdded := h.evSignalAdded.symm
      pipe := h.pipe.symm
      disposition := h.disposition.symm
      shOld := h.shOld.symm
      repeating := h.repeating.symm
      apart := h.repeating ▸ h.apart
      io := by
        intro mem
        rw [h.inserted, mem_unlink] at mem
        exact absurd rfl mem.2 }

/-- The event is nowhere in the base without it. -/
theorem not_queued (h : Without e b b') : ¬ b'.Queued e := by
  rw [Queued, h.inserted, h.timeheap, h.activequeue]
  simp only [mem_unlink, ne_eq, not_true_eq_false, and_false, or_self, not_false_eq_true]

/-- The event itself is made. -/
theorem assign_self (h : Without e b b') (idle : e ∉ b.inserted) (v : Event) :
    Without e { b with ev := Function.update b.ev e v } b' :=
  { h with
    ev := by
      intro y ne
      show b'.ev y = Function.update b.ev e v y
      rw [Function.update_of_ne ne]
      exact h.ev y ne
    io := fun mem => absurd mem idle }

/-- The event itself joins the evmap. -/
theorem insert_self (h : Without e b b') (io : (b.ev e).evEvents.isIo = true)
    (signal : (b.ev e).evEvents.signal = false) (epoll : Fd → Option EpollEvents) :
    Without e { b with inserted := e :: b.inserted, epoll } b' :=
  { h with
    inserted := by
      rw [unlink_cons_self]
      exact h.inserted
    io := fun _ => ⟨io, signal⟩ }

/-- The timeout of the event itself is armed. -/
theorem withTimeout_self (h : Without e b b') (now : Timeval) (tv : Option Timeval) :
    Without e (b.withTimeout now e tv) b' := by
  cases tv with
  | none => exact h
  | some tv =>
      simp only [Base.withTimeout]
      exact
        { h with
          timeheap := by
            rw [unlink_cons_self]
            exact h.timeheap
          ev := by
            intro y ne
            show b'.ev y = Function.update b.ev e _ y
            rw [Function.update_of_ne ne]
            exact h.ev y ne
          io := by simpa using h.io }

/-- Another event becomes active. -/
theorem active (h : Without e b b') (ne : x ≠ e) (res : Evs) (ncalls : Nat) :
    Without e (b.eventActiveNolock x res ncalls) (b'.eventActiveNolock x res ncalls) := by
  have own : e ≠ x := Ne.symm ne
  by_cases mem : x ∈ b.activequeue
  · have mem' := (h.mem_activequeue ne).mpr mem
    simp only [eventActiveNolock, mem, mem', if_true, h.ev x ne]
    refine ⟨h.inserted, h.timeheap, h.activequeue, fun y other => ?_, h.evSignalAdded, h.pipe,
      h.disposition, h.shOld, h.repeating, h.apart, ?_⟩
    · exact update_ev h.ev x _ y other
    · simpa [own] using h.io
  · have mem' : x ∉ b'.activequeue := fun active => mem ((h.mem_activequeue ne).mp active)
    simp only [eventActiveNolock, mem, mem', if_false, h.ev x ne]
    refine ⟨h.inserted, h.timeheap, ?_, fun y other => ?_, h.evSignalAdded, h.pipe,
      h.disposition, h.shOld, h.repeating, h.apart, ?_⟩
    · rw [h.activequeue, unlink_append, unlink_cons_of_ne ne]
      rfl
    · exact update_ev h.ev x _ y other
    · simpa [own] using h.io

/-- The event itself becomes active. -/
theorem active_self (h : Without e b b') (res : Evs) (ncalls : Nat) :
    Without e (b.eventActiveNolock e res ncalls) b' := by
  by_cases mem : e ∈ b.activequeue
  · simp only [eventActiveNolock, mem, if_true]
    refine ⟨h.inserted, h.timeheap, h.activequeue, fun y other => ?_, h.evSignalAdded, h.pipe,
      h.disposition, h.shOld, h.repeating, h.apart, ?_⟩
    · simpa [other] using h.ev y other
    · simpa using h.io
  · simp only [eventActiveNolock, mem, if_false]
    refine ⟨h.inserted, h.timeheap, ?_, fun y other => ?_, h.evSignalAdded, h.pipe,
      h.disposition, h.shOld, h.repeating, h.apart, ?_⟩
    · rw [h.activequeue, unlink_append, unlink_cons_self]
      simp [unlink]
    · simpa [other] using h.ev y other
    · simpa using h.io

/-- Another event is made. -/
theorem assign (h : Without e b b') (ne : x ≠ e) (v : Event) :
    Without e { b with ev := Function.update b.ev x v } { b' with ev := Function.update b'.ev x v } :=
  { h with
    ev := update_ev h.ev x v
    io := by simpa [Ne.symm ne] using h.io }

/-- Another event joins the evmap. -/
theorem insert (h : Without e b b') (ne : x ≠ e) (epoll epoll' : Fd → Option EpollEvents) :
    Without e { b with inserted := x :: b.inserted, epoll }
      { b' with inserted := x :: b'.inserted, epoll := epoll' } :=
  { h with
    inserted := by
      rw [unlink_cons_of_ne ne, ← h.inserted]
    io := fun mem => h.io ((List.mem_cons.mp mem).resolve_left (Ne.symm ne)) }

/-- The timeout of another event is armed. -/
theorem withTimeout (h : Without e b b') (ne : x ≠ e) (now : Timeval) (tv : Option Timeval) :
    Without e (b.withTimeout now x tv) (b'.withTimeout now x tv) := by
  cases tv with
  | none => exact h
  | some tv =>
      simp only [Base.withTimeout, h.ev x ne]
      exact
        { h with
          timeheap := by
            rw [unlink_cons_of_ne ne, ← h.timeheap]
          ev := update_ev h.ev x _
          io := by simpa [Ne.symm ne] using h.io }

/-! ## Signals -/

/-- A report of a signal. -/
theorem evmapSignalActive (h : Without e b b') (sig : Int) (ncalls : Nat) :
    Without e (b.evmapSignalActive sig ncalls) (b'.evmapSignalActive sig ncalls) := by
  have others : ∀ x ∈ b.evmapSignal sig, x ≠ e := by
    rintro x mem rfl
    obtain ⟨inserted, signal, -⟩ := mem_evmapSignal.mp mem
    rw [(h.io inserted).2] at signal
    cases signal
  have go : ∀ (l : List EvId) (b b' : Base), (∀ x ∈ l, x ≠ e) → Without e b b' →
      Without e (l.foldl (fun b x => b.eventActiveNolock x { signal := true } ncalls) b)
        (l.foldl (fun b x => b.eventActiveNolock x { signal := true } ncalls) b') := by
    intro l
    induction l with
    | nil => intro b b' _ h; exact h
    | cons x l ih =>
        intro b b' others h
        refine ih _ _ (fun y mem => others y (List.mem_cons_of_mem _ mem)) ?_
        exact h.active (others x List.mem_cons_self) _ _
  rw [Base.evmapSignalActive, Base.evmapSignalActive, h.evmapSignal]
  exact go _ b b' others h

theorem evsigCb (h : Without e b b') : Without e b.evsigCb b'.evsigCb := by
  have go : ∀ (l : List Nat) (c c' : Base), Without e c c' →
      Without e
        (l.foldl (fun c (sig : Nat) =>
          if b.pipe.count sig = 0 then c else c.evmapSignalActive sig (b.pipe.count sig)) c)
        (l.foldl (fun c (sig : Nat) =>
          if b.pipe.count sig = 0 then c else c.evmapSignalActive sig (b.pipe.count sig)) c') := by
    intro l
    induction l with
    | nil => intro c c' h; exact h
    | cons sig l ih =>
        intro c c' h
        refine ih _ _ ?_
        dsimp only
        split
        · exact h
        · exact h.evmapSignalActive sig _
  rw [Base.evsigCb, Base.evsigCb, h.pipe]
  exact go _ _ _ { h with pipe := rfl }

/-! ## Counters -/

theorem nread_le (h : Without e b b') (fd : Fd) : b'.nread fd ≤ b.nread fd := by
  rw [nread, nread, h.inserted, unlink, List.countP_filter]
  apply List.countP_mono_left
  intro x _
  by_cases eq : x = e
  · simp [eq]
  · simp [eq, h.ev x eq]

theorem nwrite_le (h : Without e b b') (fd : Fd) : b'.nwrite fd ≤ b.nwrite fd := by
  rw [nwrite, nwrite, h.inserted, unlink, List.countP_filter]
  apply List.countP_mono_left
  intro x _
  by_cases eq : x = e
  · simp [eq]
  · simp [eq, h.ev x eq]

/-- The event is counted on its own descriptor only, and only while it is inserted. -/
theorem counts (h : Without e b b') (fd : Fd) (other : e ∈ b.inserted → (b.ev e).evFd ≠ fd) :
    b'.nread fd = b.nread fd ∧ b'.nwrite fd = b.nwrite fd := by
  rw [nread, nread, nwrite, nwrite, h.inserted, unlink, List.countP_filter, List.countP_filter]
  refine ⟨List.countP_congr fun x mem => ?_, List.countP_congr fun x mem => ?_⟩
  all_goals
    by_cases eq : x = e
    · subst eq
      simp [other mem]
    · simp [eq, h.ev x eq]

/-- **What `evmap_io_add_` takes with the event it takes without it**, and the other way round, if
the multiplexer grants what the event had made it grant before. -/
theorem admits (h : Without e b b') (ne : x ≠ e) (roomy : b.Roomy e) {reject : Option Errno}
    (isOpen : b.Admits opened reject x → opened (b.ev x).evFd = true) :
    b'.Admits opened (if e ∈ b.inserted ∧ b.Admits opened reject x then none else reject) x ↔
      b.Admits opened reject x := by
  have ev := h.ev x ne
  have rd := h.nread_le (b.ev x).evFd
  have wr := h.nwrite_le (b.ev x).evFd
  constructor
  · rintro ⟨room, room', told⟩
    by_contra refused
    rw [if_neg (fun both => refused both.2)] at told
    rw [ev] at room room' told
    apply refused
    -- the event adds at most one to each counter, and nothing but on its own descriptor
    by_cases shares : e ∈ b.inserted ∧ (b.ev e).evFd = (b.ev x).evFd
    · obtain ⟨rd', wr'⟩ := roomy shares.1
      rw [shares.2] at rd' wr'
      refine ⟨?_, ?_, fun new => told ?_⟩
      · split <;> omega
      · split <;> omega
      · simp only [newEvents, EpollEvents.isSet, Bool.or_eq_true, Bool.and_eq_true,
          beq_iff_eq, ev] at new ⊢
        exact new.imp (fun rd => ⟨rd.1, by omega⟩) (fun wr => ⟨wr.1, by omega⟩)
    · obtain ⟨sameRd, sameWr⟩ := h.counts (b.ev x).evFd
        (fun inside eq => shares ⟨inside, eq⟩)
      rw [sameRd] at room
      rw [sameWr] at room'
      rw [newEvents, ev, sameRd, sameWr] at told
      exact ⟨room, room', told⟩
  · intro accepted
    obtain ⟨room, room', told⟩ := accepted
    refine ⟨?_, ?_, ?_⟩
    · rw [ev]
      omega
    · rw [ev]
      omega
    · intro new
      rw [ev]
      refine ⟨isOpen ⟨room, room', told⟩, ?_⟩
      by_cases mem : e ∈ b.inserted
      · rw [if_pos ⟨mem, room, room', told⟩]
      · rw [if_neg (fun both => mem both.1)]
        obtain ⟨sameRd, sameWr⟩ := h.counts (b.ev x).evFd (fun inside => absurd inside mem)
        refine (told ?_).2
        rwa [newEvents, ev, sameRd, sameWr] at new

/-- What is admitted where the event does not wait is admitted without it. -/
theorem admits_elsewhere (h : Without e b b') (ne : x ≠ e) {reject : Option Errno}
    (other : e ∈ b.inserted → (b.ev e).evFd ≠ (b.ev x).evFd) :
    b'.Admits opened reject x ↔ b.Admits opened reject x := by
  obtain ⟨rd, wr⟩ := h.counts (b.ev x).evFd other
  rw [Admits, Admits, newEvents, newEvents, h.ev x ne, rd, wr]

/-- A signal gets libevent's handler, the pipe being on a descriptor of its own. -/
theorem evsigAdd (h : Without e b b') (pipe : .signalPipe ≠ e) (env : AddEnv) (sig : Int)
    (alone : e ∈ b.inserted → (b.ev e).evFd ≠ (b.ev .signalPipe).evFd) :
    (b'.evsigAdd opened env sig).1 = (b.evsigAdd opened env sig).1 ∧
      Without e (b.evsigAdd opened env sig).2 (b'.evsigAdd opened env sig).2 := by
  have handled : Without e
      { b with
        shOld := Function.update b.shOld sig (some (b.disposition sig))
        disposition := Function.update b.disposition sig .evsigHandler }
      { b' with
        shOld := Function.update b'.shOld sig (some (b'.disposition sig))
        disposition := Function.update b'.disposition sig .evsigHandler } :=
    { h with
      shOld := by rw [h.shOld, h.disposition]
      disposition := by rw [h.disposition] }
  have taken : Base.Admits { b' with
        shOld := Function.update b'.shOld sig (some (b'.disposition sig))
        disposition := Function.update b'.disposition sig .evsigHandler }
      opened env.pipeReject .signalPipe ↔ _ := handled.admits_elsewhere pipe alone
  rw [Base.evsigAdd, Base.evsigAdd]
  by_cases fails : env.sigactionFails = true
  · rw [if_pos fails, if_pos fails]
    exact ⟨rfl, h⟩
  · rw [if_neg fails, if_neg fails]
    dsimp only
    rw [evmapIoAdd_eq, evmapIoAdd_eq]
    by_cases added : b.evSignalAdded = true
    · rw [if_pos added, if_pos (h.evSignalAdded.trans added)]
      exact ⟨rfl, handled⟩
    · have added' : ¬ b'.evSignalAdded = true := by
        rw [h.evSignalAdded]
        exact added
      rw [if_neg added, if_neg added']
      by_cases admits : Base.Admits
          { b with
            shOld := Function.update b.shOld sig (some (b.disposition sig))
            disposition := Function.update b.disposition sig .evsigHandler }
          opened env.pipeReject .signalPipe
      · rw [if_pos admits, if_pos (taken.mpr admits)]
        exact ⟨rfl, { handled.insert pipe b.epoll b'.epoll with evSignalAdded := rfl }⟩
      · rw [if_neg admits, if_neg (fun may => admits (taken.mp may))]
        exact ⟨rfl, handled⟩

/-- A signal event is added. -/
theorem evmapSignalAdd (h : Without e b b') (ne : x ≠ e) (pipe : .signalPipe ≠ e) (env : AddEnv)
    (alone : e ∈ b.inserted → (b.ev e).evFd ≠ (b.ev .signalPipe).evFd) :
    (b'.evmapSignalAdd opened env x).1 = (b.evmapSignalAdd opened env x).1 ∧
      Without e (b.evmapSignalAdd opened env x).2 (b'.evmapSignalAdd opened env x).2 := by
  have caught : _ ∧ Without e (b.evsigAdd opened env (b.ev x).evFd).2 _ :=
    h.evsigAdd pipe env (b.ev x).evFd alone
  obtain ⟨same, caught⟩ := caught
  rw [Base.evmapSignalAdd, Base.evmapSignalAdd, h.ev x ne, h.evmapSignal]
  split
  · exact ⟨rfl, h⟩
  · split
    · generalize b.evsigAdd opened env (b.ev x).evFd = r at same caught
      generalize b'.evsigAdd opened env (b.ev x).evFd = r' at same caught
      obtain ⟨ok, c⟩ := r
      obtain ⟨ok', c'⟩ := r'
      cases same
      cases ok with
      | true => exact ⟨rfl, caught.insert ne c.epoll c'.epoll⟩
      | false => exact ⟨rfl, caught⟩
    · exact ⟨rfl, h.insert ne b.epoll b'.epoll⟩

/-! ## A pass -/

theorem oldEvents (h : Without e b b') (fd : Fd) :
    b'.oldEvents fd = Base.oldEvents { b with inserted := unlink b.inserted e } fd := by
  apply oldEvents_congr h.inserted
  intro x mem
  rw [h.ev x (mem_unlink.mp mem).2]

/-- Becoming active changes no event's flags. -/
theorem eventActiveNolock_evEvents (b : Base) (x : EvId) (res : Evs) (ncalls : Nat) (y : EvId) :
    ((b.eventActiveNolock x res ncalls).ev y).evEvents = (b.ev y).evEvents := by
  by_cases eq : y = x
  · subst eq
    unfold eventActiveNolock
    split <;> simp
  · rw [eventActiveNolock_ev_of_ne b eq]

/-- One report to the events of a descriptor, if it says the same to every other event. -/
theorem evmapIoActive (h : Without e b b') (fd : Fd) {events events' : Evs}
    (same : ∀ x ∈ b'.evmapIo fd,
      (b.ev x).evEvents.inter events' = (b.ev x).evEvents.inter events) :
    Without e (b.evmapIoActive fd events) (b'.evmapIoActive fd events') := by
  -- along the list, the flags of the events stay what they were in `b`
  have go : ∀ (l : List EvId) (c c' : Base), Without e c c' →
      (∀ x, (c.ev x).evEvents = (b.ev x).evEvents) →
      (∀ x ∈ unlink l e, (b.ev x).evEvents.inter events' = (b.ev x).evEvents.inter events) →
      Without e
        (l.foldl (fun b x => if ((b.ev x).evEvents.inter events).isSet then
          b.eventActiveNolock x ((b.ev x).evEvents.inter events) 1 else b) c)
        ((unlink l e).foldl (fun b x => if ((b.ev x).evEvents.inter events').isSet then
          b.eventActiveNolock x ((b.ev x).evEvents.inter events') 1 else b) c') := by
    intro l
    induction l with
    | nil => intro c c' h _ _; exact h
    | cons x l ih =>
        intro c c' h shape same
        have kept : ∀ y, ((if ((c.ev x).evEvents.inter events).isSet then
            c.eventActiveNolock x ((c.ev x).evEvents.inter events) 1 else c).ev y).evEvents =
            (b.ev y).evEvents := by
          intro y
          rw [← shape y]
          split
          · exact eventActiveNolock_evEvents c x _ _ y
          · rfl
        by_cases eq : x = e
        · subst eq
          rw [unlink_cons_self] at same ⊢
          rw [List.foldl_cons]
          refine ih _ _ ?_ kept same
          split
          · exact h.active_self _ _
          · exact h
        · rw [unlink_cons_of_ne eq] at same ⊢
          rw [List.foldl_cons, List.foldl_cons]
          refine ih _ _ ?_ kept (fun y mem => same y (List.mem_cons_of_mem _ mem))
          have own : (c'.ev x).evEvents.inter events' = (c.ev x).evEvents.inter events := by
            rw [h.ev x eq, shape x]
            exact same x List.mem_cons_self
          rw [own]
          split
          · exact h.active eq _ _
          · exact h
  rw [Base.evmapIoActive, Base.evmapIoActive, h.evmapIo]
  apply go _ b b' h (fun _ => rfl)
  rw [← h.evmapIo]
  exact same

/-- What would be reported without the event, told from the base that does not have it. -/
theorem reportWithout_eq (h : Without e b b') (r : Fd × EpollReport) :
    b.reportWithout e r =
      if (b'.oldEvents r.1).isSet then
        some (r.1, { r.2 with
          epollin := r.2.epollin && (b'.oldEvents r.1).epollin
          epollout := r.2.epollout && (b'.oldEvents r.1).epollout })
      else none := by
  rw [reportWithout, h.oldEvents]

/-- A report says the same to every event that is left, cut down to what they wait for. -/
theorem inter_toEvs {fd : Fd} (mem : x ∈ b.evmapIo fd) (what : EpollReport) :
    (b.ev x).evEvents.inter
        { what with
          epollin := what.epollin && (b.oldEvents fd).epollin
          epollout := what.epollout && (b.oldEvents fd).epollout : EpollReport }.toEvs =
      (b.ev x).evEvents.inter what.toEvs := by
  obtain ⟨inserted, -, own⟩ := mem_evmapIo.mp mem
  have rd : (b.ev x).evEvents.read = true → (b.oldEvents fd).epollin = true := by
    intro reads
    simp only [Base.oldEvents, decide_eq_true_eq]
    exact List.countP_pos_iff.mpr ⟨x, inserted, by simp [reads, own]⟩
  have wr : (b.ev x).evEvents.write = true → (b.oldEvents fd).epollout = true := by
    intro writes
    simp only [Base.oldEvents, decide_eq_true_eq]
    exact List.countP_pos_iff.mpr ⟨x, inserted, by simp [writes, own]⟩
  simp only [EpollReport.toEvs]
  split
  · rfl
  · split
    · rfl
    · simp only [Evs.inter, Evs.mk.injEq, true_and, and_true]
      constructor
      · cases reads : (b.ev x).evEvents.read with
        | false => rfl
        | true => rw [rd reads, Bool.and_true]
      · cases writes : (b.ev x).evEvents.write with
        | false => rfl
        | true => rw [wr writes, Bool.and_true]

/-- One report of the multiplexer. -/
theorem report (h : Without e b b') (r : Fd × EpollReport) :
    Without e (b.evmapIoActive r.1 r.2.toEvs) (b'.epollDispatch (b.reportWithout e r).toList) := by
  rw [h.reportWithout_eq]
  split
  · refine h.evmapIoActive r.1 fun x mem => ?_
    rw [← h.ev x ?_]
    · exact inter_toEvs mem r.2
    · rintro rfl
      have gone := (mem_evmapIo.mp mem).1
      rw [h.inserted] at gone
      exact (mem_unlink.mp gone).2 rfl
  · next idle =>
      -- only the event itself waits there
      have empty : b'.evmapIo r.1 = [] := by
        apply List.eq_nil_iff_forall_not_mem.mpr
        intro x mem
        exact idle (oldEvents_isSet mem)
      have same : b'.evmapIoActive r.1 r.2.toEvs = b' := by
        rw [Base.evmapIoActive, empty]
        rfl
      show Without e _ b'
      rw [← same]
      exact h.evmapIoActive r.1 fun _ _ => rfl

/-- What may be reported without an event that waits for nothing is all of it, if only what the
evmap counts is reported. -/
theorem reportWithout_self (idle : e ∉ b.inserted) {r : Fd × EpollReport}
    (isSet : (b.oldEvents r.1).isSet = true)
    (epollin : r.2.epollin = true → (b.oldEvents r.1).epollin = true)
    (epollout : r.2.epollout = true → (b.oldEvents r.1).epollout = true) :
    b.reportWithout e r = some r := by
  have watched : Base.oldEvents { b with inserted := unlink b.inserted e } r.1 =
      b.oldEvents r.1 := by
    rw [unlink_of_notMem idle]
  rw [reportWithout, watched, if_pos isSet, Bool.and_eq_left_iff_imp.mpr epollin,
    Bool.and_eq_left_iff_imp.mpr epollout]

/-- What one report leaves would be reported as before. -/
theorem reportWithout_activates (act : Activates b c) (r : Fd × EpollReport) :
    c.reportWithout e r = b.reportWithout e r := by
  have same : Base.oldEvents { c with inserted := unlink c.inserted e } r.1 =
      Base.oldEvents { b with inserted := unlink b.inserted e } r.1 := by
    apply oldEvents_congr
    · show unlink c.inserted e = unlink b.inserted e
      rw [act.inserted]
    · intro x _
      exact act.shape x
  rw [reportWithout, reportWithout, same]

/-- **The reports of a pass.** -/
theorem epollDispatch (h : Without e b b') (ready : List (Fd × EpollReport)) :
    Without e (b.epollDispatch ready)
      (b'.epollDispatch (ready.filterMap (b.reportWithout e))) := by
  induction ready generalizing b b' with
  | nil => exact h
  | cons r ready ih =>
      have act : Activates b (b.evmapIoActive r.1 r.2.toEvs) :=
        activates_evmapIoActive b r.1 r.2.timeout_toEvs
      have rest := ih (h.report r)
      have split : b'.epollDispatch ((r :: ready).filterMap (b.reportWithout e)) =
          (b'.epollDispatch (b.reportWithout e r).toList).epollDispatch
            (ready.filterMap (b.reportWithout e)) := by
        rw [List.filterMap_cons]
        cases b.reportWithout e r <;> rfl
      rw [split]
      rw [funext (reportWithout_activates act)] at rest
      exact rest

/-- What expires was on the heap. -/
theorem mem_of_timeoutProcess {now : Timeval} {order : List EvId}
    (expires : b.timeoutProcess opened now order = some c) : ∀ x ∈ order, x ∈ b.timeheap := by
  induction order generalizing b with
  | nil =>
      intro x mem
      cases mem
  | cons x order ih =>
      rw [Base.timeoutProcess] at expires
      split at expires
      · next due =>
          intro y mem
          rcases List.mem_cons.mp mem with rfl | mem
          · exact due.1.1
          · have left := ih expires y mem
            simp only [eventActiveNolock_fields, eventDelNolock_timeheap, mem_unlink] at left
            exact left.1
      · cases expires

/-- **The timers of a pass.** -/
theorem timeoutProcess (h : Without e b b') {now : Timeval} {order : List EvId}
    (expires : b.timeoutProcess opened now order = some c) :
    ∃ c', b'.timeoutProcess opened now (unlink order e) = some c' ∧ Without e c c' := by
  induction order generalizing b b' with
  | nil =>
      rw [Base.timeoutProcess] at expires
      split at expires
      · next later =>
          cases expires
          refine ⟨b', ?_, h⟩
          show (if _ then _ else _) = _
          rw [if_pos]
          intro x mem
          rw [h.timeheap, mem_unlink] at mem
          rw [h.ev x mem.2]
          exact later x mem.1
      · cases expires
  | cons x order ih =>
      rw [Base.timeoutProcess] at expires
      split at expires
      · next due =>
          obtain ⟨⟨mem, least⟩, due⟩ := due
          by_cases eq : x = e
          · -- its own deadline: deleted and active in the one base, nothing in the other
            subst eq
            rw [unlink_cons_self]
            exact ih (h.del_self.active_self _ _) expires
          · rw [unlink_cons_of_ne eq, Base.timeoutProcess, if_pos]
            · exact ih ((h.del eq).active eq _ _) expires
            · rw [IsTop, h.ev x eq, h.timeheap]
              refine ⟨⟨mem_unlink.mpr ⟨mem, eq⟩, fun y there => ?_⟩, due⟩
              rw [mem_unlink] at there
              rw [h.ev y there.2]
              exact least y there.1
      · cases expires

/-- **A pass.** -/
theorem dispatchPass (h : Without e b b') {ready : List (Fd × EpollReport)} {now : Timeval}
    {order : List EvId} (pass : b.dispatchPass opened ready now order = some c) :
    ∃ c', b'.dispatchPass opened (ready.filterMap (b.reportWithout e)) now (unlink order e) =
      some c' ∧ Without e c c' := by
  have reported : Without e { b.epollDispatch ready with pass := now }
      { b'.epollDispatch (ready.filterMap (b.reportWithout e)) with pass := now } :=
    { h.epollDispatch ready with }
  exact reported.timeoutProcess pass

end Without

/-! ## Passes that activate nothing -/

/-- Nothing has become active, or something is. -/
def Swells (b c : Base) : Prop := c = b ∨ c.activequeue ≠ []

theorem Swells.trans {d : Base} (h : Swells b c) (h' : Swells c d) : Swells b d := by
  rcases h' with rfl | active
  · exact h
  · exact Or.inr active

theorem active_ne_nil (b : Base) (x : EvId) (res : Evs) (ncalls : Nat) :
    (b.eventActiveNolock x res ncalls).activequeue ≠ [] := by
  unfold eventActiveNolock
  split
  · next mem => exact List.ne_nil_of_mem mem
  · simp

theorem swells_evmapIoActive (b : Base) (fd : Fd) (events : Evs) :
    Swells b (b.evmapIoActive fd events) := by
  have go : ∀ (l : List EvId) (c : Base), Swells c (l.foldl (fun b x =>
      if ((b.ev x).evEvents.inter events).isSet then
        b.eventActiveNolock x ((b.ev x).evEvents.inter events) 1 else b) c) := by
    intro l
    induction l with
    | nil =>
        intro c
        exact Or.inl rfl
    | cons x l ih =>
        intro c
        refine Swells.trans ?_ (ih _)
        dsimp only
        split
        · exact Or.inr (active_ne_nil c x _ 1)
        · exact Or.inl rfl
  exact go _ b

theorem swells_epollDispatch (b : Base) (ready : List (Fd × EpollReport)) :
    Swells b (b.epollDispatch ready) := by
  induction ready generalizing b with
  | nil => exact Or.inl rfl
  | cons r ready ih => exact (swells_evmapIoActive b r.1 r.2.toEvs).trans (ih _)

theorem swells_timeoutProcess {now : Timeval} {order : List EvId}
    (h : b.timeoutProcess opened now order = some c) : Swells b c := by
  induction order generalizing b with
  | nil =>
      obtain ⟨-, eq⟩ := Option.ite_none_right_eq_some.mp h
      exact Or.inl (Option.some.inj eq).symm
  | cons x order ih =>
      obtain ⟨-, eq⟩ := Option.ite_none_right_eq_some.mp h
      exact Swells.trans (Or.inr (active_ne_nil _ x _ 1)) (ih eq)

/-- **A pass after which nothing is active** has set the time and nothing else. -/
theorem dispatchPass_idle {ready : List (Fd × EpollReport)} {now : Timeval} {order : List EvId}
    (h : b.dispatchPass opened ready now order = some c) (idle : c.activequeue = []) :
    c = { b with pass := now } := by
  have expired : c = { b.epollDispatch ready with pass := now } :=
    (swells_timeoutProcess h).resolve_right fun active => active idle
  have reported : b.epollDispatch ready = b := by
    refine (swells_epollDispatch b ready).resolve_right fun active => active ?_
    rw [expired] at idle
    exact idle
  rw [expired, reported]

end Base

end SwiftEvent
