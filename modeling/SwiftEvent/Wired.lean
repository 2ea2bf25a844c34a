import SwiftEvent.Refine
import SwiftEvent.Process

/-!
# Events and the sockets they wait for

libevent keeps its books per descriptor *number*: an event waits for whatever
socket is behind the number, and the multiplexer is told something only when the
books say that it does not know it yet.  The books are right as long as no number
is closed while an event waits on it (`NoPending`): then behind the number of
every inserted event is the socket its call was made for, and the multiplexer
watches exactly what the evmap counts (`Wired`).

`close()` does not check that.  `SwiftEvent.Reuse` shows what follows.
-/

namespace SwiftEvent

namespace Base

variable {b : Base} {opened : Fd → Bool} {reject : Option Errno} {e : EvId}

/-- An admitted event waits on an open number: the multiplexer was asked, or
another event waits there already. -/
theorem Admits.isOpen (h : b.Admits opened reject e) (io : (b.ev e).evEvents.isIo = true)
    (others : ∀ x ∈ b.inserted, (b.ev x).evEvents.isIo = true → opened (b.ev x).evFd = true) :
    opened (b.ev e).evFd = true := by
  by_cases told : (b.newEvents e).isSet = true
  · exact (h.2.2 told).1
  · simp only [newEvents, EpollEvents.isSet, Bool.or_eq_true, Bool.and_eq_true, beq_iff_eq,
      not_or, not_and] at told
    rw [Evs.isIo, Bool.or_eq_true] at io
    rcases io with rd | wr
    · obtain ⟨x, mem, counts⟩ := List.countP_pos_iff.mp (Nat.pos_of_ne_zero (told.1 rd))
      simp only [Bool.and_eq_true, beq_iff_eq] at counts
      have := others x mem (by simp [Evs.isIo, counts.1])
      rwa [counts.2] at this
    · obtain ⟨x, mem, counts⟩ := List.countP_pos_iff.mp (Nat.pos_of_ne_zero (told.2 wr))
      simp only [Bool.and_eq_true, beq_iff_eq] at counts
      have := others x mem (by simp [Evs.isIo, counts.1])
      rwa [counts.2] at this

/-- What a watched slot says about each of its events. -/
theorem Watches.of_mem (h : b.Watches (b.ev e).evFd) (mem : e ∈ b.inserted)
    (io : (b.ev e).evEvents.isIo = true) :
    ∃ m, b.epoll (b.ev e).evFd = some m ∧ ((b.ev e).evEvents.read = true → m.epollin = true) ∧
      ((b.ev e).evEvents.write = true → m.epollout = true) := by
  refine ⟨b.oldEvents (b.ev e).evFd, ?_, fun rd => ?_, fun wr => ?_⟩
  · rw [h, EpollEvents.registration, if_pos]
    exact oldEvents_isSet (mem_evmapIo.mpr ⟨mem, io, rfl⟩)
  · simp only [oldEvents, decide_eq_true_eq]
    exact List.countP_pos_iff.mpr ⟨e, mem, by simp [rd]⟩
  · simp only [oldEvents, decide_eq_true_eq]
    exact List.countP_pos_iff.mpr ⟨e, mem, by simp [wr]⟩

end Base

namespace Core

/-- The object whose number the step closes. -/
def Act.closes : Act → Option Nat
  | .close o | .deinit o => some o
  | _ => none

/-- No event waits on the number that a `close()` or a `deinit` closes. -/
def NoPending (c : Core) (a : Act) : Prop :=
  ∀ o ∈ a.closes, ∀ x ∈ c.world.obj o, c.loop.base.evmapIo x.fd = []

instance (c : Core) (a : Act) : Decidable (c.NoPending a) :=
  inferInstanceAs (Decidable (∀ o ∈ a.closes, ∀ x ∈ c.world.obj o, _))

/-- **The books are right.** -/
structure Wired (c : Core) : Prop where
  nodup : c.loop.base.inserted.Nodup
  watches : ∀ fd, c.loop.base.Watches fd
  pipe : .signalPipe ∈ c.loop.base.inserted → c.loop.base.evSignalAdded = true
  /-- A queued call that waits for a descriptor has an event that does. -/
  io : ∀ n, c.loop.base.Queued (.call n) → (c.loop.call n).kind.isIo = true →
    (c.loop.base.ev (.call n)).evEvents.isIo = true
  /-- Behind the number of an inserted event is the socket of its call. -/
  behind : ∀ e ∈ c.loop.base.inserted, (c.loop.base.ev e).evEvents.isIo = true →
    ∃ k, c.world.table (c.loop.base.ev e).evFd = some k ∧
      ∀ n, e = .call n → (c.loop.call n).sock = some k
  /-- An active call is still inserted, or it will not touch its descriptor. -/
  active : ∀ n, .call n ∈ c.loop.base.activequeue → (c.loop.call n).kind.isIo = true →
    .call n ∈ c.loop.base.inserted ∨
      (c.loop.call n).kind ≠ .accept ∧ (c.loop.base.ev (.call n)).evRes.timeout = true
  /-- `accept` has no timeout. -/
  untimed : ∀ n, .call n ∈ c.loop.base.timeheap → (c.loop.call n).kind ≠ .accept
  syscalls : ∀ n, ∀ s ∈ (c.loop.call n).syscalls, s = (c.loop.call n).sock ∧ s.isSome = true

namespace Wired

variable {c c' : Core} {n : Nat}

theorem opened (h : c.Wired) {e : EvId} (mem : e ∈ c.loop.base.inserted)
    (io : (c.loop.base.ev e).evEvents.isIo = true) :
    c.opened (c.loop.base.ev e).evFd = true := by
  obtain ⟨k, open_, -⟩ := h.behind e mem io
  simp [Core.opened, World.opened, open_]

/-- A process in which no number has lost its socket. -/
theorem world (h : c.Wired) {w : World}
    (grows : ∀ {fd k}, c.world.table fd = some k → w.table fd = some k) :
    Wired { c with world := w } where
  nodup := h.nodup
  watches := h.watches
  pipe := h.pipe
  io := h.io
  behind e mem io := by
    obtain ⟨k, open_, own⟩ := h.behind e mem io
    exact ⟨k, grows open_, own⟩
  active := h.active
  untimed := h.untimed
  syscalls := h.syscalls

/-- A step that touches neither the evmap nor any call but to take events off the
active queue. -/
theorem idle (h : c.Wired) {b : Base} (inserted : b.inserted = c.loop.base.inserted)
    (timeheap : b.timeheap = c.loop.base.timeheap) (ev : b.ev = c.loop.base.ev)
    (epoll : b.epoll = c.loop.base.epoll) (added : b.evSignalAdded = c.loop.base.evSignalAdded)
    (active : ∀ e ∈ b.activequeue, e ∈ c.loop.base.activequeue) : (c.withBase b).Wired where
  nodup := by simp only [withBase, inserted]; exact h.nodup
  watches fd := (h.watches fd).congr inserted (fun e _ => by simp only [withBase, ev])
    (by simp only [withBase, epoll])
  pipe := by simp only [withBase, inserted, added]; exact h.pipe
  io m queued := by
    simp only [withBase, ev]
    refine h.io m ?_
    simp only [withBase, Base.Queued, inserted, timeheap] at queued ⊢
    exact queued.imp_right (Or.imp_right (active _))
  behind := by simp only [withBase, inserted, ev]; exact h.behind
  active m mem := by
    simp only [withBase, inserted, ev]
    exact h.active m (active _ mem)
  untimed := by simp only [withBase, timeheap]; exact h.untimed
  syscalls := h.syscalls

/-- A call is made that has put nothing into the evmap. -/
theorem made (h : c.Wired) (sound : c.loop.Sound) (new : n ∉ c.loop.made) {b : Base} {call : Call}
    (inserted : b.inserted = c.loop.base.inserted)
    (timeheap : ∀ e ∈ b.timeheap, e ∈ c.loop.base.timeheap ∨ e = .call n)
    (active : ∀ e ∈ b.activequeue, e ∈ c.loop.base.activequeue ∨ e = .call n)
    (ev : ∀ e, e ≠ .call n → b.ev e = c.loop.base.ev e) (epoll : b.epoll = c.loop.base.epoll)
    (added : b.evSignalAdded = c.loop.base.evSignalAdded)
    (io : b.Queued (.call n) → call.kind.isIo = false) (quiet : call.syscalls = []) :
    ((c.withBase b).record n call).Wired := by
  have ne : ∀ {e}, c.loop.base.Queued e → e ≠ .call n := by
    rintro e queued rfl
    exact sound.not_queued new queued
  -- what the queues hold besides the new call was there before
  have back : ∀ {m}, b.Queued (.call m) → m ≠ n → c.loop.base.Queued (.call m) := by
    intro m queued other
    have other : EvId.call m ≠ .call n := by simpa using other
    rw [Base.Queued, inserted] at queued
    exact queued.imp_right (Or.imp (fun mem => (timeheap _ mem).resolve_right other)
      fun mem => (active _ mem).resolve_right other)
  have own : ∀ {m}, b.Queued (.call m) → (Function.update c.loop.call n call m).kind.isIo = true →
      m ≠ n := by
    rintro m queued isIo rfl
    rw [Function.update_self, io queued] at isIo
    cases isIo
  refine ⟨?_, fun fd => ?_, ?_, fun m queued isIo => ?_, fun e mem isIo => ?_, fun m mem isIo => ?_,
    fun m mem => ?_, fun m s mem => ?_⟩
  · simp only [record, withBase, inserted]; exact h.nodup
  · refine (h.watches fd).congr inserted (fun e mem => ?_) (by simp only [record, withBase, epoll])
    simp only [record, withBase, ev e (ne (Or.inl mem))]
  · simp only [record, withBase, inserted, added]; exact h.pipe
  · have other := own queued isIo
    simp only [record, withBase, Function.update_of_ne other,
      ev (.call m) (by simpa using other)] at isIo ⊢
    exact h.io m (back queued other) isIo
  · have mem : e ∈ c.loop.base.inserted := inserted ▸ mem
    simp only [record, withBase, ev e (ne (Or.inl mem))] at isIo ⊢
    obtain ⟨k, used, socks⟩ := h.behind e mem isIo
    refine ⟨k, used, ?_⟩
    rintro m rfl
    rw [Function.update_of_ne (by simpa using ne (Or.inl mem))]
    exact socks m rfl
  · have other := own (Or.inr (Or.inr mem)) isIo
    simp only [record, withBase, Function.update_of_ne other, inserted,
      ev (.call m) (by simpa using other)] at isIo ⊢
    exact h.active m ((active _ mem).resolve_right (by simpa using other)) isIo
  · by_cases eq : m = n
    · subst eq
      simp only [record, Function.update_self]
      intro accept
      have := io (Or.inr (Or.inl mem))
      rw [accept] at this
      cases this
    · simp only [record, withBase, Function.update_of_ne eq]
      exact h.untimed m ((timeheap _ mem).resolve_right (by simpa using eq))
  · by_cases eq : m = n
    · subst eq
      simp [record, quiet] at mem
    · simp only [record, withBase, Function.update_of_ne eq] at mem ⊢
      exact h.syscalls m s mem

/-- An event joins the evmap. -/
theorem insert (h : c.Wired) {b : Base} {e : EvId}
    (inserted : b.inserted = e :: c.loop.base.inserted)
    (timeheap : b.timeheap = c.loop.base.timeheap)
    (active : b.activequeue = c.loop.base.activequeue) (ev : b.ev = c.loop.base.ev)
    (epoll : b.epoll = c.loop.base.epollAfterAdd e)
    (added : b.evSignalAdded = true ∨
      e ≠ .signalPipe ∧ b.evSignalAdded = c.loop.base.evSignalAdded)
    (notMem : e ∉ c.loop.base.inserted)
    (io : ∀ n, e = .call n → (c.loop.call n).kind.isIo = true →
      (c.loop.base.ev (.call n)).evEvents.isIo = true)
    (behind : (c.loop.base.ev e).evEvents.isIo = true →
      ∃ k, c.world.table (c.loop.base.ev e).evFd = some k ∧
        ∀ n, e = .call n → (c.loop.call n).sock = some k) :
    (c.withBase b).Wired := by
  refine ⟨?_, fun fd => ?_, fun mem => ?_, fun m queued => ?_, fun x mem isIo => ?_,
    fun m mem isIo => ?_, ?_, h.syscalls⟩
  · simp only [withBase, inserted]
    exact List.nodup_cons.mpr ⟨notMem, h.nodup⟩
  · exact (h.watches fd).evmapIoAdd inserted ev epoll
  · rcases added with yes | ⟨ne, same⟩
    · exact yes
    · simp only [withBase, inserted, List.mem_cons, Ne.symm ne, false_or, same] at mem ⊢
      exact h.pipe mem
  · simp only [withBase, Base.Queued, inserted, timeheap, active, List.mem_cons] at queued
    simp only [withBase, ev]
    rcases queued with (eq | mem) | rest
    · exact io m eq.symm
    · exact h.io m (Or.inl mem)
    · exact h.io m (Or.inr rest)
  · simp only [withBase, inserted, ev, List.mem_cons] at mem isIo ⊢
    rcases mem with rfl | mem
    · exact behind isIo
    · exact h.behind x mem isIo
  · simp only [withBase, active, inserted, ev] at mem ⊢
    exact (h.active m mem isIo).imp_left (List.mem_cons_of_mem _)
  · simp only [withBase, timeheap]; exact h.untimed

/-- The timeout of an inserted call is armed. -/
theorem timed (h : c.Wired) (mem : .call n ∈ c.loop.base.inserted) (now : Timeval)
    {tv : Option Timeval} (accept : (c.loop.call n).kind = .accept → tv = none) :
    (c.withBase (c.loop.base.withTimeout now (.call n) tv)).Wired := by
  have fields := c.loop.base.withTimeout_fields now (.call n) tv
  have shape := c.loop.base.withTimeout_shape now (.call n) tv
  have events : ∀ e, ((c.loop.base.withTimeout now (.call n) tv).ev e).evFd =
      (c.loop.base.ev e).evFd ∧ ((c.loop.base.withTimeout now (.call n) tv).ev e).evEvents =
      (c.loop.base.ev e).evEvents := fun e =>
    ⟨(Event.shape_eq (shape e)).1, (Event.shape_eq (shape e)).2.1⟩
  refine ⟨?_, fun fd => ?_, ?_, fun m queued => ?_, fun e => ?_, fun m mem => ?_, fun m mem => ?_,
    h.syscalls⟩
  · simp only [withBase, fields]; exact h.nodup
  · exact (h.watches fd).congr fields.1 (fun e _ => shape e) (by simp only [withBase, fields])
  · simp only [withBase, fields]; exact h.pipe
  · simp only [withBase, events]
    refine h.io m ?_
    simp only [withBase, Base.Queued, fields, Base.mem_withTimeout_timeheap] at queued ⊢
    rcases queued with ins | (heap | ⟨eq, -⟩) | act
    · exact Or.inl ins
    · exact Or.inr (Or.inl heap)
    · rw [eq]; exact Or.inl mem
    · exact Or.inr (Or.inr act)
  · simp only [withBase, fields, events]
    exact h.behind e
  · have res : ((c.loop.base.withTimeout now (.call n) tv).ev (.call m)).evRes =
        (c.loop.base.ev (.call m)).evRes := by
      cases tv with
      | none => rfl
      | some tv =>
          by_cases eq : m = n
          · subst eq; simp [Base.withTimeout]
          · simp [Base.withTimeout, eq]
    simp only [withBase, fields, res] at mem ⊢
    exact h.active m mem
  · simp only [withBase, Base.mem_withTimeout_timeheap, EvId.call.injEq] at mem
    rcases mem with mem | ⟨rfl, some⟩
    · exact h.untimed m mem
    · intro kind
      rw [accept kind] at some
      cases some

/-- The record of a yield. -/
theorem yielded (h : c.Wired) (n : Nat) : (c.withCall n (c.loop.call n).yielded).Wired := by
  have same : ∀ m, (Function.update c.loop.call n (c.loop.call n).yielded m).kind =
        (c.loop.call m).kind ∧
      (Function.update c.loop.call n (c.loop.call n).yielded m).sock = (c.loop.call m).sock ∧
      (Function.update c.loop.call n (c.loop.call n).yielded m).syscalls =
        (c.loop.call m).syscalls := by
    intro m
    by_cases eq : m = n
    · subst eq; simp [Call.yielded]
    · simp [eq]
  refine ⟨h.nodup, h.watches, h.pipe, ?_, ?_, ?_, ?_, ?_⟩
  · simp only [withCall, same]; exact h.io
  · simp only [withCall, same]; exact h.behind
  · simp only [withCall, same]; exact h.active
  · simp only [withCall, same]; exact h.untimed
  · simp only [withCall, same]; exact h.syscalls

/-- An event is deleted and the record of its call changed. -/
theorem del (h : c.Wired) (n : Nat) {call : Call} (kind : call.kind = (c.loop.call n).kind)
    (sock : call.sock = (c.loop.call n).sock)
    (syscalls : ∀ s ∈ call.syscalls, s = call.sock ∧ s.isSome = true) :
    ((c.withBase (c.loop.base.eventDelNolock c.opened (.call n))).withCall n call).Wired := by
  have same : ∀ m, (Function.update c.loop.call n call m).kind = (c.loop.call m).kind ∧
      (Function.update c.loop.call n call m).sock = (c.loop.call m).sock := by
    intro m
    by_cases eq : m = n
    · subst eq; simp [kind, sock]
    · simp [eq]
  refine ⟨?_, fun fd => ?_, fun mem => ?_, fun m queued => ?_, fun e mem => ?_, fun m mem isIo => ?_,
    fun m mem => ?_, fun m s mem => ?_⟩
  · simp only [withCall, withBase, Base.eventDelNolock_inserted, unlink]
    exact h.nodup.filter _
  · refine (h.watches fd).eventDelNolock h.nodup fun mem => ?_
    obtain ⟨ins, io, -⟩ := Base.mem_evmapIo.mp mem
    exact h.opened ins io
  · simp only [withCall, withBase, Base.eventDelNolock_inserted, mem_unlink] at mem
    simp only [withCall, withBase, Base.eventDelNolock_evSignalAdded]
    exact h.pipe mem.1
  · simp only [withCall, withBase, same, Base.eventDelNolock_ev]
    exact h.io m ((Base.queued_eventDelNolock _ _ _).mp queued).1
  · simp only [withCall, withBase, Base.eventDelNolock_inserted, mem_unlink] at mem
    simp only [withCall, withBase, same, Base.eventDelNolock_ev]
    exact h.behind e mem.1
  · simp only [withCall, withBase, same, Base.eventDelNolock_ev, Base.eventDelNolock_inserted,
      Base.eventDelNolock_activequeue, mem_unlink] at mem isIo ⊢
    exact (h.active m mem.1 isIo).imp_left fun ins => ⟨ins, mem.2⟩
  · simp only [withCall, withBase, same, Base.eventDelNolock_timeheap, mem_unlink] at mem ⊢
    exact h.untimed m mem.1
  · simp only [withCall] at mem ⊢
    by_cases eq : m = n
    · subst eq
      rw [Function.update_self] at mem ⊢
      exact syscalls s mem
    · rw [Function.update_of_ne eq] at mem ⊢
      exact h.syscalls m s mem

/-! ## Steps -/

theorem start (h : c.Wired) (sound : c.loop.Sound) (new : n ∉ c.loop.made) {call : Call} {fd : Fd}
    {events : Evs} (io : events.isIo = true)
    (timeout : Option Duration) (env : Base.AddEnv) (now : Timeval)
    (accept : call.kind = .accept → timeout = none) (quiet : call.syscalls = []) :
    (c.startIo n call fd events timeout env now).Wired := by
  have notQueued := sound.not_queued new
  rw [startIo_eq c call fd timeout env now notQueued io]
  dsimp only
  split
  · next accepts =>
      -- the call is recorded, its event joins the evmap, its timeout is armed
      let call' : Call := { call with
        sock := c.world.table fd, timeout := timeout.map timevalFor, boxed := true, allocs := 1
        added := true }
      let c₁ : Core := (c.withBase (c.eventBase n { evFd := fd, evEvents := events })).record n call'
      have recorded : c₁.Wired := by
        refine h.made sound new rfl (fun _ mem => Or.inl mem) (fun _ mem => Or.inl mem)
          (fun e ne => Function.update_of_ne ne _ _) rfl rfl (fun queued => ?_) quiet
        exact absurd queued notQueued
      have open_ : c.opened fd = true := by
        have := accepts.2.isOpen (by simpa using io) fun x mem => recorded.opened mem
        simpa using this
      have inserted : (c₁.withBase { c.eventBase n { evFd := fd, evEvents := events } with
          inserted := .call n :: c.loop.base.inserted
          epoll := (c.eventBase n { evFd := fd, evEvents := events }).epollAfterAdd
            (.call n) }).Wired := by
        refine recorded.insert rfl rfl rfl rfl rfl (Or.inr ⟨by simp, rfl⟩)
          (fun mem => notQueued (Or.inl mem)) ?_ fun _ => ?_
        · rintro m eq -
          cases eq
          simpa [c₁, Core.record, withBase] using io
        · obtain ⟨k, hk⟩ := Option.isSome_iff_exists.mp open_
          refine ⟨k, by simpa [c₁, Core.record, withBase] using hk, ?_⟩
          rintro m eq
          cases eq
          simpa [c₁, Core.record, call'] using hk
      refine inserted.timed (n := n) (by simp [withBase]) now ?_
      intro kind
      have kind : call.kind = .accept := by
        simpa [c₁, withBase, Core.record, call'] using kind
      rw [accept kind]
      rfl
  · exact h.made sound new rfl (fun _ mem => Or.inl mem) (fun _ mem => Or.inl mem)
      (fun e ne => Function.update_of_ne ne _ _) rfl rfl
      (fun queued => absurd queued notQueued) quiet

theorem schedule (h : c.Wired) (sound : c.loop.Sound) (new : n ∉ c.loop.made) (sleeps : Bool)
    (duration : Duration) (nomem : Bool) (env : Base.AddEnv) (now : Timeval) :
    (c.schedule n (if sleeps then .sleep else .schedule) duration nomem env now).Wired := by
  have kind : (if sleeps then Kind.sleep else Kind.schedule).isIo = false := by
    cases sleeps <;> rfl
  rcases schedule_cases c (if sleeps then .sleep else .schedule) duration nomem env now
    (sound.not_queued new) with ⟨b, rfl | rfl, eq⟩ | ⟨-, eq⟩ | ⟨-, eq⟩
  · rw [eq]
    exact h.made sound new rfl (fun _ mem => Or.inl mem) (fun _ mem => Or.inl mem)
      (fun _ _ => rfl) rfl rfl (fun _ => kind) rfl
  · rw [eq]
    exact h.made sound new rfl (fun _ mem => Or.inl mem) (fun _ mem => Or.inl mem)
      (fun e ne => Function.update_of_ne ne _ _) rfl rfl (fun _ => kind) rfl
  · rw [eq]
    refine h.made sound new rfl (fun e mem => ?_) (fun _ mem => Or.inl mem) (fun e ne => ?_) rfl rfl
      (fun _ => kind) rfl
    · exact (List.mem_cons.mp mem).symm
    · simp [Base.withTimeout, Core.eventBase, Function.update_of_ne ne]
  · rw [eq]
    have fields := (c.eventBase n {}).eventActiveNolock_fields (.call n) { timeout := true } 1
    refine h.made sound new fields.1 (fun e mem => Or.inl (by rwa [fields.2.1] at mem))
      (fun e mem => (Base.mem_eventActiveNolock (b := c.eventBase n {}) _ _).mp mem)
      (fun e ne => ?_) fields.2.2.1 fields.2.2.2.1 (fun _ => kind) rfl
    rw [Base.eventActiveNolock_ev_of_ne _ ne]
    exact Function.update_of_ne ne _ _

/-- A signal event tells the multiplexer nothing. -/
theorem epollAfterAdd_signal {b : Base} {e : EvId} (signal : (b.ev e).evEvents.isIo = false) :
    b.epollAfterAdd e = b.epoll := by
  simp only [Evs.isIo, Bool.or_eq_false_iff] at signal
  simp [Base.epollAfterAdd, Base.newEvents, EpollEvents.isSet, signal.1, signal.2]

theorem signalOne (h : c.Wired) (sound : c.loop.Sound) {r : Nat} {arg : SignalArg}
    (hs : c.signalOne r arg = some c') : c'.Wired := by
  obtain ⟨new, rfl | ⟨added, b, add, rfl⟩⟩ := signalOne_cases hs sound.not_queued
  · exact h.made (b := c.loop.base) sound new rfl (fun _ mem => Or.inl mem)
      (fun _ mem => Or.inl mem) (fun _ _ => rfl) rfl rfl (fun _ => rfl) rfl
  · have notQueued := sound.not_queued new
    let call : Call := { kind := .signal arg.signum, boxed := true, added, allocs := 1 }
    -- the registration that is handed the event plays no part here
    suffices ((c.withBase b).record arg.n call).Wired from
      ⟨this.nodup, this.watches, this.pipe, this.io, this.behind, this.active, this.untimed,
        this.syscalls⟩
    let c₁ : Core := (c.withBase (c.eventBase arg.n (signalEvent arg.signum))).record arg.n call
    have recorded : c₁.Wired :=
      h.made sound new rfl (fun _ mem => Or.inl mem) (fun _ mem => Or.inl mem)
        (fun e ne => Function.update_of_ne ne _ _) rfl rfl (fun _ => rfl) rfl
    have notIo : ((c.eventBase arg.n (signalEvent arg.signum)).ev (.call arg.n)).evEvents.isIo =
        false := by
      simp [signalEvent, Evs.isIo]
    -- the event itself joins last, with the handlers in whatever state
    have join : ∀ {d : Core} (disposition : Int → Handler) (shOld : Int → Option Handler), d.Wired →
        d.loop.base.ev = c₁.loop.base.ev → d.loop.call = c₁.loop.call →
        .call arg.n ∉ d.loop.base.inserted →
        (d.withBase { d.loop.base with
          inserted := .call arg.n :: d.loop.base.inserted, disposition, shOld }).Wired := by
      intro d disposition shOld wired ev calls notMem
      have quiet : (d.loop.base.ev (.call arg.n)).evEvents.isIo = false := by
        rw [ev]; exact notIo
      refine wired.insert (e := .call arg.n) rfl rfl rfl rfl (epollAfterAdd_signal quiet).symm
        (Or.inr ⟨by simp, rfl⟩) notMem ?_ fun io => ?_
      · rintro m eq io
        cases eq
        rw [calls] at io
        simp [c₁, record, call, Kind.isIo] at io
      · rw [quiet] at io
        cases io
    obtain ⟨disposition, shOld, rfl | ⟨notAdded, rfl, admits, rfl⟩⟩ := Base.evmapSignalAdd_cases add
    · cases added with
      | true =>
          exact join (d := c₁) disposition shOld recorded rfl rfl
            (fun mem => notQueued (Or.inl mem))
      | false =>
          exact recorded.idle rfl rfl rfl rfl rfl (fun _ mem => mem)
    · have pipeOut : EvId.signalPipe ∉ c.loop.base.inserted := fun mem => by
        have := h.pipe mem
        rw [show c.loop.base.evSignalAdded = false from notAdded] at this
        cases this
      have piped : (c₁.withBase { c.eventBase arg.n (signalEvent arg.signum) with
          inserted := .signalPipe :: c.loop.base.inserted
          epoll := (c.eventBase arg.n (signalEvent arg.signum)).epollAfterAdd .signalPipe
          evSignalAdded := true }).Wired := by
        refine recorded.insert (e := .signalPipe) rfl rfl rfl rfl rfl (Or.inl rfl) pipeOut
          (fun _ eq => by cases eq) fun io => ?_
        have open_ := admits.isOpen io fun x mem => recorded.opened mem
        obtain ⟨k, hk⟩ := Option.isSome_iff_exists.mp open_
        exact ⟨k, hk, fun _ eq => by cases eq⟩
      exact join disposition shOld piped rfl rfl (by
        simp only [withBase, List.mem_cons, reduceCtorEq, false_or]
        exact fun mem => notQueued (Or.inl mem))

theorem tearDown (h : c.Wired) (r : Nat) : (c.tearDown r).Wired := by
  have rounds : ∀ (ns : List Nat) (d : Core), d.Wired → (ns.foldl tearDownOne d).Wired := by
    intro ns
    induction ns with
    | nil => intro d hd; exact hd
    | cons n ns ih => intro d hd; exact ih _ (hd.del n rfl rfl (hd.syscalls n))
  rw [Core.tearDown]
  split
  · exact h
  · have torn := rounds (c.loop.reg r).events c h
    exact ⟨torn.nodup, torn.watches, torn.pipe, torn.io, torn.behind, torn.active, torn.untimed,
      torn.syscalls⟩

/-- A report, after events were taken off the active queue. -/
theorem activates (h : c.Wired) {b : Base} (act : Base.Activates c.loop.base b) :
    (c.withBase b).Wired := by
  have events : ∀ e, (b.ev e).evFd = (c.loop.base.ev e).evFd ∧
      (b.ev e).evEvents = (c.loop.base.ev e).evEvents := fun e =>
    ⟨(Event.shape_eq (act.shape e)).1, (Event.shape_eq (act.shape e)).2.1⟩
  refine ⟨?_, fun fd => act.watches (h.watches fd), ?_, fun m queued => ?_, fun e => ?_,
    fun m mem isIo => ?_, ?_, h.syscalls⟩
  · simp only [withBase, act.inserted]; exact h.nodup
  · simp only [withBase, act.inserted, act.signalAdded]; exact h.pipe
  · simp only [withBase, events]
    exact h.io m (act.queued.mp queued)
  · simp only [withBase, act.inserted, events]
    exact h.behind e
  · simp only [withBase, act.inserted]
    rcases act.active _ mem with was | ins
    · exact (h.active m was isIo).imp_right fun res => ⟨res.1, act.expired _ was res.2⟩
    · exact Or.inl ins
  · simp only [withBase, act.timeheap]; exact h.untimed

theorem expires (h : c.Wired) {b : Base} {now : Timeval}
    (exp : Base.Expires c.opened now c.loop.base b) : (c.withBase b).Wired := by
  have events : ∀ e, (b.ev e).evFd = (c.loop.base.ev e).evFd ∧
      (b.ev e).evEvents = (c.loop.base.ev e).evEvents := fun e =>
    ⟨(Event.shape_eq (exp.shape e)).1, (Event.shape_eq (exp.shape e)).2.1⟩
  refine ⟨exp.inserted.nodup h.nodup,
    fun fd => exp.watches (fun e mem io => h.opened mem io) h.nodup fd (h.watches fd),
    fun mem => ?_, fun m queued => ?_, fun e mem => ?_, fun m mem isIo => ?_, fun m mem => ?_,
    h.syscalls⟩
  · simp only [withBase, exp.signalAdded]
    exact h.pipe (exp.inserted.subset mem)
  · simp only [withBase, events]
    exact h.io m (exp.queued.mp queued)
  · simp only [withBase, events]
    exact h.behind e (exp.inserted.subset mem)
  · rcases exp.moved (.call m) with ⟨ins, -, act, ev⟩ | ⟨heap, -, -, -, -, res⟩
    · simp only [withBase, ins, ev]
      exact h.active m (act.mp mem) isIo
    · exact Or.inr ⟨h.untimed m heap, by simp [withBase, res]⟩
  · exact h.untimed m (exp.timeheap.subset mem)

/-- `close()` and `deinit` on a number on which nothing waits. -/
theorem dropped (h : c.Wired) {fd : Fd} (empty : c.loop.base.evmapIo fd = []) {w : World}
    (table : w.table = Function.update c.world.table fd none) : (c.dropped w).Wired := by
  refine ⟨h.nodup, fun fd' => ?_, h.pipe, h.io, fun e mem io => ?_, h.active, h.untimed,
    h.syscalls⟩
  · by_cases same : w.table fd' = c.world.table fd'
    · exact (h.watches fd').congr rfl (fun _ _ => rfl) (by simp [Core.dropped, same])
    · have eq : fd' = fd := by
        by_contra ne
        rw [table, Function.update_of_ne ne] at same
        exact same rfl
      subst eq
      have none : (c.dropped w).loop.base.epoll fd' = none := by simp [Core.dropped, same]
      rw [Base.Watches, none, show (c.dropped w).loop.base.oldEvents fd' =
        c.loop.base.oldEvents fd' from rfl, Base.oldEvents_of_evmapIo_eq_nil empty]
      rfl
  · have ne : (c.loop.base.ev e).evFd ≠ fd := by
      intro eq
      have : e ∈ c.loop.base.evmapIo fd := Base.mem_evmapIo.mpr ⟨mem, io, eq⟩
      rw [empty] at this
      cases this
    obtain ⟨k, used, own⟩ := h.behind e mem io
    refine ⟨k, ?_, own⟩
    rw [Core.dropped, table, Function.update_of_ne ne]
    exact used

end Wired

/-- On which descriptor a callback makes its system call. -/
theorem syscalls_callbackBody {w : World} {loop : Nat} {call : Call} {fd : Fd} {res : Evs}
    {r : SysResult} {fx : Effect} (h : callbackBody w loop call fd res r = some fx) :
    fx.syscalls = [] ∨ fx.syscalls = [w.table fd] ∧ call.kind.isIo = true ∧
      (call.kind = .accept ∨ res.timeout = false) := by
  cases callbackBody_cases h with
  | timedOut => exact Or.inl rfl
  | connected => exact Or.inl rfl
  | timer => exact Or.inl rfl
  | bytes k n kind notDue used some_ fits there =>
      exact Or.inr ⟨by rw [used], by rw [kind]; rfl, Or.inr notDue⟩
  | eof k kind notDue used empty ended =>
      exact Or.inr ⟨by rw [used], by rw [kind]; rfl, Or.inr notDue⟩
  | readFails errno kind notDue => exact Or.inr ⟨rfl, by rw [kind]; rfl, Or.inr notDue⟩
  | wrote k n data kind notDue used part established =>
      exact Or.inr ⟨by rw [used], by rw [kind]; rfl, Or.inr notDue⟩
  | writeFails errno data kind notDue => exact Or.inr ⟨rfl, by rw [kind]; rfl, Or.inr notDue⟩
  | accepts k clientFd client rest kind used backlog free listening =>
      exact Or.inr ⟨by rw [used], by rw [kind]; rfl, Or.inl kind⟩
  | acceptFails errno kind empty => exact Or.inr ⟨rfl, by rw [kind]; rfl, Or.inl kind⟩

variable {c c' : Core}

theorem Wired.fire (h : c.Wired) {n : Nat} {fx : Effect} {r : SysResult}
    (mem : .call n ∈ c.loop.base.activequeue)
    (body : callbackBody c.world c.loop.self (c.loop.call n)
      (c.loop.base.ev (.call n)).evFd (c.loop.base.ev (.call n)).evRes r = some fx) :
    (c.fired n fx).Wired := by
  have own : ∀ s ∈ fx.syscalls, s = (c.loop.call n).sock ∧ s.isSome = true := by
    rcases syscalls_callbackBody body with none | ⟨one, isIo, touches⟩
    · simp [none]
    · -- only a call whose event is still inserted gets as far as a system call
      have inserted : .call n ∈ c.loop.base.inserted := by
        rcases h.active n mem isIo with ins | ⟨notAccept, due⟩
        · exact ins
        · rcases touches with accept | notDue
          · exact absurd accept notAccept
          · rw [due] at notDue
            cases notDue
      obtain ⟨k, used, sock⟩ := h.behind _ inserted (h.io n (Or.inl inserted) isIo)
      simp [one, used, sock n rfl]
  have settled : ∀ s ∈ (fx.settle (c.loop.call n)).syscalls,
      s = (fx.settle (c.loop.call n)).sock ∧ s.isSome = true := by
    intro s mem
    rcases List.mem_append.mp mem with mem | mem
    · exact h.syscalls n s mem
    · exact own s mem
  have deleted : ((c.withBase (c.loop.base.eventDelNolock c.opened (.call n))).withCall n
      (fx.settle (c.loop.call n))).Wired := by
    refine h.del n ?_ ?_ settled
    · rfl
    · rfl
  exact deleted.world fun used => (opens_callbackBody body).grows used

/-- **The books stay right**, as long as no number is closed on which an event
waits. -/
theorem Wired.step {a : Act} (h : c.Wired) (sound : c.loop.Sound) (ok : c.NoPending a)
    (hs : c.step a = some c') : c'.Wired := by
  cases step_cases hs with
  | listen r w hw => exact h.world fun used => (World.opens_listen hw).grows used
  | kernel act w hw => exact h.world fun used => by rw [(World.same_kernel hw).table]; exact used
  | close o w hw =>
      unfold World.close at hw
      split at hw
      · next x hx =>
          split at hw
          · cases hw
          · cases hw; exact h.dropped (ok o rfl x hx) rfl
      · cases hw
  | deinit o w may hw =>
      unfold World.deinit at hw
      split at hw
      · next x hx => cases hw; exact h.dropped (ok o rfl x hx) rfl
      · cases hw
  | answer n address r timeout env now call w alive new ans =>
      have opens : World.Opens c.loop.self c.world w
          (Act.opens (.connect n address r timeout env now)) := ans.opens
      have grown := h.world (w := w) fun used => opens.grows used
      have quiet : call.syscalls = [] := by cases ans <;> rfl
      have notQueued := sound.not_queued new
      exact grown.made (b := c.loop.base) sound new rfl (fun _ mem => Or.inl mem)
        (fun _ mem => Or.inl mem) (fun _ _ => rfl) rfl rfl
        (fun queued => absurd queued notQueued) quiet
  | start _ drives n kind o fd events w timeout env now alive new starts accept opens target =>
      have grown := h.world (w := w) fun used => (starts.opens opens).grows used
      exact grown.start sound new starts.isIo.2.2 timeout env now accept rfl
  | schedule n sleeps duration nomem env now alive new =>
      exact h.schedule sound new sleeps duration nomem env now
  | signalStream args c' alive hc =>
      exact (signalStream_rounds (P := Wired) sound alive hc
        ⟨h.nodup, h.watches, h.pipe, h.io, h.behind, h.active, h.untimed, h.syscalls⟩
        (fun d arg d' _ streaming wired hs => wired.signalOne streaming.sound hs)).2.2
  | tearDown r alive opened => exact h.tearDown r
  | free w alive torn hw =>
      refine ⟨List.nodup_nil, fun fd => ?_, fun mem => ?_, fun m queued => ?_, fun e mem => ?_,
        fun m mem => ?_, fun m mem => ?_, h.syscalls⟩
      · rfl
      · simp [freed] at mem
      · simp [freed, Base.Queued] at queued
      · simp [freed] at mem
      · simp [freed] at mem
      · simp [freed] at mem
  | dispatch ready now order b alive reports later quiet hb =>
      obtain ⟨d, act, exp, -⟩ := Base.dispatchPass_eq_some hb
      have reported := h.activates act
      have passed : (c.withBase { d with pass := now }).Wired :=
        reported.idle (b := { d with pass := now }) rfl rfl rfl rfl rfl (fun _ mem => mem)
      exact passed.expires exp
  | pipe r rest alive quiet queue =>
      have taken : (c.withBase { c.loop.base with activequeue := rest, pipe := [] }).Wired :=
        h.idle rfl rfl rfl rfl rfl (fun e mem => by rw [queue]; exact List.mem_cons_of_mem _ mem)
      exact taken.activates (Base.activates_evsigCb { c.loop.base with activequeue := rest })
  | skip r n rest alive quiet queue signal =>
      exact h.idle rfl rfl rfl rfl rfl
        (fun e mem => by rw [queue]; exact List.mem_cons_of_mem _ mem)
  | yield r n left rest alive quiet queue signal =>
      have taken : (c.withBase { c.loop.base with
          activequeue := rest
          repeating := if left = 0 then none else some (.call n, left) }).Wired :=
        h.idle rfl rfl rfl rfl rfl (fun e mem => by rw [queue]; exact List.mem_cons_of_mem _ mem)
      exact taken.yielded n
  | again r n left alive rep =>
      have same : (c.withBase { c.loop.base with
          repeating := if left = 0 then none else some (.call n, left) }).Wired :=
        h.idle rfl rfl rfl rfl rfl (fun e mem => mem)
      exact same.yielded n
  | fire r n rest fx alive quiet queue signal body => exact h.fire (by simp [queue]) body
  | breakSignal => exact h.idle rfl rfl rfl rfl rfl (fun _ mem => mem)
  | raise sig alive => exact h.idle rfl rfl rfl rfl rfl (fun _ mem => mem)

end Core

end SwiftEvent
