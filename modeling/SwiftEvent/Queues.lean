import SwiftEvent.Base
import Mathlib.Tactic.Push
import Mathlib.Tactic.ByContra

/-!
# What the base's functions do to its queues

One specification per function of `SwiftEvent.Base`, so that nothing downstream
unfolds them: where an event is afterwards, what the evmap counters become, and
which entry of the epoll interest list changes.

* `Queued` is the coarse view: an event is somewhere on the base, or nowhere.
  Adding puts one event there, `eventDelNolock` takes one away, and a whole pass
  of readiness and timers neither adds nor removes any (`queued_dispatchPass`).
* `Watches fd` is the fine one: the interest list asks for exactly the
  directions the evmap counts.  Adding and deleting keep it
  (`Watches.evmapIoAdd`, `Watches.evmapIoDel`), which is the reason for the
  counters.
* `Activates` collects what every readiness or signal report has in common: it
  only marks inserted events active.
-/

namespace SwiftEvent

/-- What `event_assign` fixes of an event and nothing later changes. -/
def Event.shape (v : Event) : Int × Evs × Bool := (v.evFd, v.evEvents, v.evPersist)

theorem Event.shape_eq {v v' : Event} (h : v.shape = v'.shape) :
    v.evFd = v'.evFd ∧ v.evEvents = v'.evEvents ∧ v.evPersist = v'.evPersist := by
  simpa [Event.shape] using h

theorem countP_unlink {l : List EvId} {e : EvId} (nodup : l.Nodup) (mem : e ∈ l)
    (p : EvId → Bool) :
    (unlink l e).countP p + (if p e then 1 else 0) = l.countP p := by
  induction l with
  | nil => simp at mem
  | cons x l ih =>
      obtain ⟨notMem, nodup⟩ := List.nodup_cons.mp nodup
      by_cases eq : x = e
      · subst eq
        rw [unlink_cons_self, unlink_of_notMem notMem, List.countP_cons]
      · have mem : e ∈ l := by simpa [Ne.symm eq] using mem
        rw [unlink_cons_of_ne eq, List.countP_cons, List.countP_cons, ← ih nodup mem]
        omega

namespace Base

/-! ## The evmap counters -/

section Counters

variable {b b' : Base} {e : EvId} {fd : Fd}

/-- Whether the event counts as a reader of the descriptor. -/
def reads (b : Base) (e : EvId) (fd : Fd) : Bool :=
  (b.ev e).evEvents.read && (b.ev e).evFd == fd

/-- Whether the event counts as a writer of the descriptor. -/
def writes (b : Base) (e : EvId) (fd : Fd) : Bool :=
  (b.ev e).evEvents.write && (b.ev e).evFd == fd

theorem nread_congr (inserted : b'.inserted = b.inserted)
    (shape : ∀ e ∈ b.inserted, (b'.ev e).shape = (b.ev e).shape) (fd : Fd) :
    b'.nread fd = b.nread fd := by
  rw [nread, nread, inserted]
  refine List.countP_congr fun e mem => ?_
  obtain ⟨fd, events, -⟩ := Event.shape_eq (shape e mem)
  rw [fd, events]

theorem nwrite_congr (inserted : b'.inserted = b.inserted)
    (shape : ∀ e ∈ b.inserted, (b'.ev e).shape = (b.ev e).shape) (fd : Fd) :
    b'.nwrite fd = b.nwrite fd := by
  rw [nwrite, nwrite, inserted]
  refine List.countP_congr fun e mem => ?_
  obtain ⟨fd, events, -⟩ := Event.shape_eq (shape e mem)
  rw [fd, events]

theorem oldEvents_congr (inserted : b'.inserted = b.inserted)
    (shape : ∀ e ∈ b.inserted, (b'.ev e).shape = (b.ev e).shape) (fd : Fd) :
    b'.oldEvents fd = b.oldEvents fd := by
  rw [oldEvents, oldEvents, nread_congr inserted shape, nwrite_congr inserted shape]

/-- `++nread` of `evmap_io_add_`. -/
theorem nread_cons (inserted : b'.inserted = e :: b.inserted) (ev : b'.ev = b.ev) (fd : Fd) :
    b'.nread fd = b.nread fd + if b.reads e fd then 1 else 0 := by
  rw [nread, nread, inserted, ev, List.countP_cons]
  rfl

theorem nwrite_cons (inserted : b'.inserted = e :: b.inserted) (ev : b'.ev = b.ev) (fd : Fd) :
    b'.nwrite fd = b.nwrite fd + if b.writes e fd then 1 else 0 := by
  rw [nwrite, nwrite, inserted, ev, List.countP_cons]
  rfl

/-- `--nread` of `evmap_io_del_`. -/
theorem nread_unlink (inserted : b'.inserted = unlink b.inserted e) (ev : b'.ev = b.ev)
    (nodup : b.inserted.Nodup) (mem : e ∈ b.inserted) (fd : Fd) :
    b'.nread fd + (if b.reads e fd then 1 else 0) = b.nread fd := by
  simp only [nread, inserted, ev]
  exact countP_unlink nodup mem _

theorem nwrite_unlink (inserted : b'.inserted = unlink b.inserted e) (ev : b'.ev = b.ev)
    (nodup : b.inserted.Nodup) (mem : e ∈ b.inserted) (fd : Fd) :
    b'.nwrite fd + (if b.writes e fd then 1 else 0) = b.nwrite fd := by
  simp only [nwrite, inserted, ev]
  exact countP_unlink nodup mem _

theorem mem_evmapIo : e ∈ b.evmapIo fd ↔
    e ∈ b.inserted ∧ (b.ev e).evEvents.isIo = true ∧ (b.ev e).evFd = fd := by
  simp [evmapIo]

/-- A slot with an event in it counts something. -/
theorem oldEvents_isSet (mem : e ∈ b.evmapIo fd) : (b.oldEvents fd).isSet = true := by
  obtain ⟨inserted, io, rfl⟩ := mem_evmapIo.mp mem
  rw [Evs.isIo, Bool.or_eq_true] at io
  simp only [oldEvents, EpollEvents.isSet, Bool.or_eq_true, decide_eq_true_eq]
  rcases io with rd | wr
  · exact Or.inl (List.countP_pos_iff.mpr ⟨e, inserted, by simp [rd]⟩)
  · exact Or.inr (List.countP_pos_iff.mpr ⟨e, inserted, by simp [wr]⟩)

/-- An empty slot counts nothing. -/
theorem oldEvents_of_evmapIo_eq_nil (empty : b.evmapIo fd = []) :
    b.oldEvents fd = ⟨false, false⟩ := by
  have none : ∀ e ∈ b.inserted, (b.ev e).evEvents.isIo = true → (b.ev e).evFd ≠ fd := by
    intro e mem io eq
    have : e ∈ b.evmapIo fd := mem_evmapIo.mpr ⟨mem, io, eq⟩
    rw [empty] at this
    simp at this
  have readers : b.nread fd = 0 := by
    rw [nread, List.countP_eq_zero]
    intro e mem
    have := none e mem
    simp only [Evs.isIo, Bool.or_eq_true] at this
    simp only [Bool.and_eq_true, beq_iff_eq, not_and]
    exact fun rd => this (Or.inl rd)
  have writers : b.nwrite fd = 0 := by
    rw [nwrite, List.countP_eq_zero]
    intro e mem
    have := none e mem
    simp only [Evs.isIo, Bool.or_eq_true] at this
    simp only [Bool.and_eq_true, beq_iff_eq, not_and]
    exact fun wr => this (Or.inr wr)
  simp [oldEvents, readers, writers]

end Counters

/-! ## Adding to and deleting from the evmap -/

section Evmap

variable {b b' : Base} {opened : Fd → Bool} {reject : Option Errno} {e : EvId}

/-- The directions in which the event would be the first of its slot; only for
these is the multiplexer told anything. -/
def newEvents (b : Base) (e : EvId) : EpollEvents :=
  ⟨(b.ev e).evEvents.read && b.nread (b.ev e).evFd == 0,
   (b.ev e).evEvents.write && b.nwrite (b.ev e).evFd == 0⟩

/-- **When `evmap_io_add_` succeeds**: the 16-bit counters have room, and either
the multiplexer need not be told or it accepts an open descriptor. -/
def Admits (b : Base) (opened : Fd → Bool) (reject : Option Errno) (e : EvId) : Prop :=
  (b.nread (b.ev e).evFd + if (b.ev e).evEvents.read then 1 else 0) ≤ 0xffff ∧
  (b.nwrite (b.ev e).evFd + if (b.ev e).evEvents.write then 1 else 0) ≤ 0xffff ∧
  ((b.newEvents e).isSet = true → opened (b.ev e).evFd = true ∧ reject = none)

instance : Decidable (b.Admits opened reject e) :=
  inferInstanceAs (Decidable (_ ∧ _ ∧ (_ → _)))

/-- The interest list after an accepted addition. -/
def epollAfterAdd (b : Base) (e : EvId) : Fd → Option EpollEvents :=
  if (b.newEvents e).isSet then
    Function.update b.epoll (b.ev e).evFd
      (some ((b.oldEvents (b.ev e).evFd).union (b.newEvents e)))
  else b.epoll

/-- **`evmap_io_add_` in closed form.** -/
theorem evmapIoAdd_eq (b : Base) (opened : Fd → Bool) (reject : Option Errno) (e : EvId) :
    b.evmapIoAdd opened reject e =
      if b.Admits opened reject e then
        some { b with inserted := e :: b.inserted, epoll := b.epollAfterAdd e }
      else none := by
  have new : (⟨(b.ev e).evEvents.read &&
        (b.nread (b.ev e).evFd + if (b.ev e).evEvents.read then 1 else 0) == 1,
      (b.ev e).evEvents.write &&
        (b.nwrite (b.ev e).evFd + if (b.ev e).evEvents.write then 1 else 0) == 1⟩ :
        EpollEvents) = b.newEvents e := by
    cases hr : (b.ev e).evEvents.read <;> cases hw : (b.ev e).evEvents.write <;>
      simp [newEvents, hr, hw]
  simp only [evmapIoAdd, new]
  by_cases room : 0xffff < (b.nread (b.ev e).evFd + if (b.ev e).evEvents.read then 1 else 0) ∨
      0xffff < (b.nwrite (b.ev e).evFd + if (b.ev e).evEvents.write then 1 else 0)
  · rw [if_pos room, if_neg]
    rintro ⟨hr, hw, -⟩
    omega
  · rw [if_neg room]
    by_cases told : (b.newEvents e).isSet = true
    · rw [if_pos told, epollNochangelistAdd_eq _ _ _ _ _ told]
      by_cases accept : opened (b.ev e).evFd = true ∧ reject = none
      · rw [if_pos accept, if_pos ⟨by omega, by omega, fun _ => accept⟩]
        simp only [epollAfterAdd, told, if_true]
      · rw [if_neg accept, if_neg]
        rintro ⟨-, -, h⟩
        exact accept (h told)
    · rw [if_neg told, if_pos ⟨by omega, by omega, fun h => absurd h told⟩]
      simp only [epollAfterAdd, told, Bool.false_eq_true, if_false]

/-- The directions in which the event is the last of its slot. -/
def lastEvents (b : Base) (e : EvId) : EpollEvents :=
  ⟨(b.ev e).evEvents.read && decide (b.nread (b.ev e).evFd ≤ 1),
   (b.ev e).evEvents.write && decide (b.nwrite (b.ev e).evFd ≤ 1)⟩

/-- The interest list after a deletion; nothing can be changed on a descriptor
that is not open. -/
def epollAfterDel (b : Base) (opened : Fd → Bool) (e : EvId) : Fd → Option EpollEvents :=
  if (b.lastEvents e).isSet ∧ opened (b.ev e).evFd = true then
    Function.update b.epoll (b.ev e).evFd
      ((b.oldEvents (b.ev e).evFd).diff (b.lastEvents e)).registration
  else b.epoll

/-- **`evmap_io_del_` in closed form.** -/
theorem evmapIoDel_eq (b : Base) (opened : Fd → Bool) (e : EvId) :
    b.evmapIoDel opened e =
      { b with inserted := unlink b.inserted e, epoll := b.epollAfterDel opened e } := by
  have last : (⟨(b.ev e).evEvents.read &&
        (b.nread (b.ev e).evFd - if (b.ev e).evEvents.read then 1 else 0) == 0,
      (b.ev e).evEvents.write &&
        (b.nwrite (b.ev e).evFd - if (b.ev e).evEvents.write then 1 else 0) == 0⟩ :
        EpollEvents) = b.lastEvents e := by
    have last : ∀ n : Nat, (n - 1 == 0) = decide (n ≤ 1) := by
      intro n
      rw [Bool.eq_iff_iff, beq_iff_eq, decide_eq_true_eq, Nat.sub_eq_zero_iff_le]
    cases hr : (b.ev e).evEvents.read <;> cases hw : (b.ev e).evEvents.write <;>
      simp [lastEvents, hr, hw, last]
  simp only [evmapIoDel, last]
  by_cases told : (b.lastEvents e).isSet = true
  · rw [if_pos told, epollNochangelistDel_eq _ _ _ _ told]
    by_cases op : opened (b.ev e).evFd = true
    · simp only [epollAfterDel, told, op, if_true, and_self]
    · simp only [epollAfterDel, op, Bool.false_eq_true, if_false, and_false,
        Function.update_eq_self]
  · rw [if_neg told]
    simp only [epollAfterDel, told, Bool.false_eq_true, if_false, false_and]

end Evmap

/-! ## The multiplexer watches what the evmap counts -/

section Watches

variable {b b' : Base} {opened : Fd → Bool} {reject : Option Errno} {e : EvId} {fd : Fd}

/-- The interest list has exactly the directions the evmap slot counts. -/
def Watches (b : Base) (fd : Fd) : Prop := b.epoll fd = (b.oldEvents fd).registration

/-- Both sides of `Watches` are read off the counters, the shapes and the
interest list. -/
theorem Watches.congr (h : b.Watches fd) (inserted : b'.inserted = b.inserted)
    (shape : ∀ e ∈ b.inserted, (b'.ev e).shape = (b.ev e).shape)
    (epoll : b'.epoll fd = b.epoll fd) : b'.Watches fd := by
  rw [Watches, epoll, oldEvents_congr inserted shape]
  exact h

private theorem union_newEvents (inserted : b'.inserted = e :: b.inserted)
    (ev : b'.ev = b.ev) :
    (b.oldEvents (b.ev e).evFd).union (b.newEvents e) = b'.oldEvents (b.ev e).evFd := by
  rw [oldEvents, oldEvents, nread_cons inserted ev, nwrite_cons inserted ev]
  cases hr : (b.ev e).evEvents.read <;> cases hw : (b.ev e).evEvents.write <;>
    rcases Nat.eq_zero_or_pos (b.nread (b.ev e).evFd) with hr0 | hr0 <;>
    rcases Nat.eq_zero_or_pos (b.nwrite (b.ev e).evFd) with hw0 | hw0 <;>
    simp [EpollEvents.union, newEvents, reads, writes, hr, hw, hr0, hw0]

/-- A direction that is not new was counted before. -/
private theorem oldEvents_eq_of_not_new (inserted : b'.inserted = e :: b.inserted)
    (ev : b'.ev = b.ev) (told : ¬ (b.newEvents e).isSet = true) :
    b'.oldEvents (b.ev e).evFd = b.oldEvents (b.ev e).evFd := by
  rw [← union_newEvents inserted ev]
  cases h : b.newEvents e with
  | mk newIn newOut =>
      rw [h] at told
      simp only [EpollEvents.isSet, Bool.or_eq_true, not_or, Bool.not_eq_true] at told
      simp [EpollEvents.union, told.1, told.2]

/-- **Adding keeps the interest list in step with the counters.** -/
theorem Watches.evmapIoAdd (h : b.Watches fd) (inserted : b'.inserted = e :: b.inserted)
    (ev : b'.ev = b.ev) (epoll : b'.epoll = b.epollAfterAdd e) :
    b'.Watches fd := by
  by_cases same : fd = (b.ev e).evFd
  · subst same
    rw [Watches, epoll, epollAfterAdd]
    by_cases told : (b.newEvents e).isSet = true
    · rw [if_pos told, Function.update_self, union_newEvents inserted ev,
        EpollEvents.registration, if_pos]
      rw [← union_newEvents inserted ev]
      simp only [EpollEvents.isSet, EpollEvents.union, Bool.or_eq_true] at told ⊢
      tauto
    · rw [if_neg told, oldEvents_eq_of_not_new inserted ev told]
      exact h
  · have reads : b.reads e fd = false := by simp [Base.reads, Ne.symm same]
    have writes : b.writes e fd = false := by simp [Base.writes, Ne.symm same]
    have old : b'.oldEvents fd = b.oldEvents fd := by
      rw [oldEvents, oldEvents, nread_cons inserted ev, nwrite_cons inserted ev, reads, writes]
      simp
    rw [Watches, old, epoll, epollAfterAdd]
    split
    · rw [Function.update_of_ne same]; exact h
    · exact h

/-- **Deleting keeps the interest list in step with the counters**, on an open
descriptor. -/
theorem Watches.evmapIoDel (h : b.Watches fd) (nodup : b.inserted.Nodup)
    (mem : e ∈ b.inserted) (op : opened (b.ev e).evFd = true)
    (inserted : b'.inserted = unlink b.inserted e) (ev : b'.ev = b.ev)
    (epoll : b'.epoll = b.epollAfterDel opened e) : b'.Watches fd := by
  have rd := nread_unlink inserted ev nodup mem
  have wr := nwrite_unlink inserted ev nodup mem
  by_cases same : fd = (b.ev e).evFd
  · subst same
    have diff : (b.oldEvents (b.ev e).evFd).diff (b.lastEvents e)
        = b'.oldEvents (b.ev e).evFd := by
      specialize rd (b.ev e).evFd
      specialize wr (b.ev e).evFd
      simp only [reads, writes, beq_self_eq_true, Bool.and_true] at rd wr
      rw [oldEvents, oldEvents, ← rd, ← wr]
      cases hr : (b.ev e).evEvents.read <;> cases hw : (b.ev e).evEvents.write <;>
        simp [EpollEvents.diff, lastEvents, hr, hw, ← rd, ← wr, Nat.pos_iff_ne_zero]
    rw [Watches, epoll, epollAfterDel]
    by_cases told : (b.lastEvents e).isSet = true
    · rw [if_pos ⟨told, op⟩, Function.update_self, diff]
    · rw [if_neg (fun h => told h.1), ← diff]
      have : (b.oldEvents (b.ev e).evFd).diff (b.lastEvents e) = b.oldEvents (b.ev e).evFd := by
        cases hl : b.lastEvents e with
        | mk lastIn lastOut =>
            rw [hl] at told
            simp only [EpollEvents.isSet, Bool.or_eq_true, not_or, Bool.not_eq_true] at told
            simp [EpollEvents.diff, told.1, told.2]
      rw [this]
      exact h
  · have reads : b.reads e fd = false := by simp [Base.reads, Ne.symm same]
    have writes : b.writes e fd = false := by simp [Base.writes, Ne.symm same]
    have old : b'.oldEvents fd = b.oldEvents fd := by
      rw [oldEvents, oldEvents, ← rd fd, ← wr fd, reads, writes]
      simp
    rw [Watches, old, epoll, epollAfterDel]
    split
    · rw [Function.update_of_ne same]; exact h
    · exact h

end Watches

/-! ## Deleting -/

section Del

variable (b : Base) (opened : Fd → Bool) (e : EvId)

/-- Deleting a signal event changes, besides the slot, only the handlers. -/
theorem evmapSignalDel_eq :
    ∃ disposition shOld, b.evmapSignalDel e =
      { b with inserted := unlink b.inserted e, disposition, shOld } := by
  unfold evmapSignalDel evsigDel
  dsimp only
  split
  · split
    · exact ⟨_, _, rfl⟩
    · exact ⟨_, _, rfl⟩
  · exact ⟨_, _, rfl⟩

/-- **`event_del_nolock_` in closed form**: the event leaves every queue, its
repetition ends, and the interest list changes only for an inserted event of a
descriptor. -/
theorem eventDelNolock_eq :
    ∃ disposition shOld, b.eventDelNolock opened e =
      { b with
        repeating := if b.repeating.map Prod.fst = some e then none else b.repeating
        inserted := unlink b.inserted e
        timeheap := unlink b.timeheap e
        activequeue := unlink b.activequeue e
        epoll :=
          if e ∈ b.inserted ∧ (b.ev e).evEvents.isIo = true then b.epollAfterDel opened e
          else b.epoll
        disposition, shOld } := by
  by_cases mem : e ∈ b.inserted
  · by_cases io : (b.ev e).evEvents.isIo = true
    · refine ⟨b.disposition, b.shOld, ?_⟩
      simp only [eventDelNolock, mem, io, if_true, and_self, evmapIoDel_eq]
      rfl
    · simp only [eventDelNolock, mem, io, if_true]
      exact evmapSignalDel_eq _ e
  · refine ⟨b.disposition, b.shOld, ?_⟩
    simp only [eventDelNolock, mem, if_false, false_and, unlink_of_notMem mem]

@[simp] theorem eventDelNolock_ev : (b.eventDelNolock opened e).ev = b.ev := by
  obtain ⟨_, _, h⟩ := b.eventDelNolock_eq opened e
  rw [h]

@[simp] theorem eventDelNolock_inserted :
    (b.eventDelNolock opened e).inserted = unlink b.inserted e := by
  obtain ⟨_, _, h⟩ := b.eventDelNolock_eq opened e
  rw [h]

@[simp] theorem eventDelNolock_timeheap :
    (b.eventDelNolock opened e).timeheap = unlink b.timeheap e := by
  obtain ⟨_, _, h⟩ := b.eventDelNolock_eq opened e
  rw [h]

@[simp] theorem eventDelNolock_activequeue :
    (b.eventDelNolock opened e).activequeue = unlink b.activequeue e := by
  obtain ⟨_, _, h⟩ := b.eventDelNolock_eq opened e
  rw [h]

theorem eventDelNolock_repeating :
    (b.eventDelNolock opened e).repeating =
      if b.repeating.map Prod.fst = some e then none else b.repeating := by
  obtain ⟨_, _, h⟩ := b.eventDelNolock_eq opened e
  rw [h]

@[simp] theorem eventDelNolock_pass : (b.eventDelNolock opened e).pass = b.pass := by
  obtain ⟨_, _, h⟩ := b.eventDelNolock_eq opened e
  rw [h]

@[simp] theorem eventDelNolock_evSignalAdded :
    (b.eventDelNolock opened e).evSignalAdded = b.evSignalAdded := by
  obtain ⟨_, _, h⟩ := b.eventDelNolock_eq opened e
  rw [h]

@[simp] theorem eventDelNolock_pipe : (b.eventDelNolock opened e).pipe = b.pipe := by
  obtain ⟨_, _, h⟩ := b.eventDelNolock_eq opened e
  rw [h]

theorem eventDelNolock_epoll :
    (b.eventDelNolock opened e).epoll =
      if e ∈ b.inserted ∧ (b.ev e).evEvents.isIo = true then b.epollAfterDel opened e
      else b.epoll := by
  obtain ⟨_, _, h⟩ := b.eventDelNolock_eq opened e
  rw [h]

/-- **Deletion, coarsely**: exactly this event is no longer anywhere. -/
theorem queued_eventDelNolock {x : EvId} :
    (b.eventDelNolock opened e).Queued x ↔ b.Queued x ∧ x ≠ e := by
  simp only [Queued, eventDelNolock_inserted, eventDelNolock_timeheap,
    eventDelNolock_activequeue, mem_unlink]
  tauto

variable {b opened e} in
/-- Deleting on an open descriptor keeps the interest list in step. -/
theorem Watches.eventDelNolock {fd : Fd} (h : b.Watches fd) (nodup : b.inserted.Nodup)
    (op : e ∈ b.evmapIo (b.ev e).evFd → opened (b.ev e).evFd = true) :
    (b.eventDelNolock opened e).Watches fd := by
  by_cases io : e ∈ b.inserted ∧ (b.ev e).evEvents.isIo = true
  · have epoll : (b.eventDelNolock opened e).epoll = b.epollAfterDel opened e := by
      rw [eventDelNolock_epoll, if_pos io]
    exact h.evmapIoDel nodup io.1 (op (mem_evmapIo.mpr ⟨io.1, io.2, rfl⟩)) (by simp) (by simp)
      epoll
  · -- neither a reader nor a writer of any descriptor: the counters stand still
    have epoll : (b.eventDelNolock opened e).epoll = b.epoll := by
      rw [eventDelNolock_epoll, if_neg io]
    by_cases mem : e ∈ b.inserted
    · have notIo : ¬ (b.ev e).evEvents.isIo = true := fun h => io ⟨mem, h⟩
      simp only [Evs.isIo, Bool.or_eq_true, not_or, Bool.not_eq_true] at notIo
      have rd : (b.eventDelNolock opened e).nread fd + (if b.reads e fd then 1 else 0) =
          b.nread fd := nread_unlink (by simp) (by simp) nodup mem fd
      have wr : (b.eventDelNolock opened e).nwrite fd + (if b.writes e fd then 1 else 0) =
          b.nwrite fd := nwrite_unlink (by simp) (by simp) nodup mem fd
      rw [show b.reads e fd = false by simp [Base.reads, notIo.1]] at rd
      rw [show b.writes e fd = false by simp [Base.writes, notIo.2]] at wr
      simp only [Bool.false_eq_true, if_false, Nat.add_zero] at rd wr
      rw [Watches, epoll, oldEvents, rd, wr]
      exact h
    · exact h.congr (by simp [unlink_of_notMem mem]) (by simp) (by rw [epoll])

end Del

/-! ## Activating -/

section Activate

variable {b b' b'' : Base} {e : EvId}

/-- Activation changes the queue and the event's own result fields only. -/
@[simp] theorem eventActiveNolock_fields (b : Base) (e : EvId) (res : Evs) (ncalls : Nat) :
    (b.eventActiveNolock e res ncalls).inserted = b.inserted ∧
      (b.eventActiveNolock e res ncalls).timeheap = b.timeheap ∧
      (b.eventActiveNolock e res ncalls).epoll = b.epoll ∧
      (b.eventActiveNolock e res ncalls).evSignalAdded = b.evSignalAdded ∧
      (b.eventActiveNolock e res ncalls).repeating = b.repeating ∧
      (b.eventActiveNolock e res ncalls).pass = b.pass := by
  unfold eventActiveNolock
  split <;> exact ⟨rfl, rfl, rfl, rfl, rfl, rfl⟩

theorem eventActiveNolock_ev_of_ne (b : Base) {e x : EvId} (ne : x ≠ e) (res : Evs)
    (ncalls : Nat) : (b.eventActiveNolock e res ncalls).ev x = b.ev x := by
  unfold eventActiveNolock
  split <;> simp [Function.update_of_ne ne]

theorem mem_eventActiveNolock {e x : EvId} (res : Evs) (ncalls : Nat) :
    x ∈ (b.eventActiveNolock e res ncalls).activequeue ↔ x ∈ b.activequeue ∨ x = e := by
  unfold eventActiveNolock
  split
  · next active =>
      constructor
      · exact Or.inl
      · rintro (mem | rfl)
        · exact mem
        · exact active
  · simp

/-- What a report of readiness or of caught signals does: it marks inserted
events active, and changes nothing else but their result fields. -/
structure Activates (b b' : Base) : Prop where
  inserted : b'.inserted = b.inserted
  timeheap : b'.timeheap = b.timeheap
  epoll : b'.epoll = b.epoll
  shape : ∀ e, (b'.ev e).shape = (b.ev e).shape
  deadline : ∀ e, (b'.ev e).evTimeout = (b.ev e).evTimeout
  repeating : b'.repeating = b.repeating
  pass : b'.pass = b.pass
  signalAdded : b'.evSignalAdded = b.evSignalAdded
  pipe : b'.pipe = b.pipe
  handlers : b'.disposition = b.disposition ∧ b'.shOld = b.shOld
  active : ∀ e ∈ b'.activequeue, e ∈ b.activequeue ∨ e ∈ b.inserted
  /-- What becomes active goes to the end of the queue. -/
  appends : ∃ extra, b'.activequeue = b.activequeue ++ extra ∧ extra.Nodup ∧
    ∀ e ∈ extra, e ∉ b.activequeue
  /-- An event that is active by its timeout stays so. -/
  expired : ∀ e ∈ b.activequeue, (b.ev e).evRes.timeout = true → (b'.ev e).evRes.timeout = true
  /-- No other becomes so. -/
  unexpired : ∀ e ∈ b'.activequeue, (b'.ev e).evRes.timeout = true →
    e ∈ b.activequeue ∧ (b.ev e).evRes.timeout = true

theorem Activates.refl (b : Base) : Activates b b :=
  ⟨rfl, rfl, rfl, fun _ => rfl, fun _ => rfl, rfl, rfl, rfl, rfl, ⟨rfl, rfl⟩, fun _ h => Or.inl h,
    ⟨[], (List.append_nil _).symm, List.nodup_nil, by simp⟩, fun _ _ h => h,
    fun _ mem res => ⟨mem, res⟩⟩

theorem Activates.keeps (h : Activates b b') (mem : e ∈ b.activequeue) : e ∈ b'.activequeue := by
  obtain ⟨extra, eq, -⟩ := h.appends
  rw [eq]
  exact List.mem_append_left _ mem

theorem Activates.nodup (h : Activates b b') (nodup : b.activequeue.Nodup) :
    b'.activequeue.Nodup := by
  obtain ⟨extra, eq, nodup', fresh⟩ := h.appends
  rw [eq]
  exact List.nodup_append'.mpr ⟨nodup, nodup', fun e mem mem' => fresh e mem' mem⟩

theorem Activates.trans (h : Activates b b') (h' : Activates b' b'') : Activates b b'' where
  inserted := h'.inserted.trans h.inserted
  timeheap := h'.timeheap.trans h.timeheap
  epoll := h'.epoll.trans h.epoll
  shape e := (h'.shape e).trans (h.shape e)
  deadline e := (h'.deadline e).trans (h.deadline e)
  repeating := h'.repeating.trans h.repeating
  pass := h'.pass.trans h.pass
  signalAdded := h'.signalAdded.trans h.signalAdded
  pipe := h'.pipe.trans h.pipe
  handlers := ⟨h'.handlers.1.trans h.handlers.1, h'.handlers.2.trans h.handlers.2⟩
  active e mem := by
    rcases h'.active e mem with mem | mem
    · exact h.active e mem
    · exact Or.inr (h.inserted ▸ mem)
  appends := by
    obtain ⟨extra, eq, nodup, fresh⟩ := h.appends
    obtain ⟨extra', eq', nodup', fresh'⟩ := h'.appends
    rw [eq] at eq' fresh'
    simp only [List.mem_append, not_or] at fresh'
    refine ⟨extra ++ extra', by rw [eq', List.append_assoc], ?_, fun e mem => ?_⟩
    · exact List.nodup_append'.mpr ⟨nodup, nodup', fun e mem mem' => (fresh' e mem').2 mem⟩
    · rcases List.mem_append.mp mem with mem | mem
      · exact fresh e mem
      · exact (fresh' e mem).1
  expired e mem res := h'.expired e (h.keeps mem) (h.expired e mem res)
  unexpired e mem res := by
    obtain ⟨mem, res⟩ := h'.unexpired e mem res
    exact h.unexpired e mem res

/-- A field that a new record of an event leaves alone. -/
theorem field_update {β : Type*} (field : Event → β) {ev : EvId → Event} {v : Event}
    (same : field v = field (ev e)) (x : EvId) :
    field (Function.update ev e v x) = field (ev x) := by
  by_cases eq : x = e
  · rw [eq, Function.update_self, same]
  · rw [Function.update_of_ne eq]

/-- Activating an inserted event is such a report. -/
theorem activates_eventActiveNolock (mem : e ∈ b.inserted) {res : Evs}
    (notDue : res.timeout = false) (ncalls : Nat) :
    Activates b (b.eventActiveNolock e res ncalls) := by
  unfold eventActiveNolock
  split
  · next active =>
      refine ⟨rfl, rfl, rfl, fun x => ?_, fun x => ?_, rfl, rfl, rfl, rfl, ⟨rfl, rfl⟩,
        fun _ h => Or.inl h,
        ⟨[], (List.append_nil _).symm, List.nodup_nil, by simp⟩, fun x _ res => ?_,
        fun x was res => ⟨was, ?_⟩⟩
      · refine field_update Event.shape ?_ x
        rfl
      · refine field_update Event.evTimeout ?_ x
        rfl
      · by_cases eq : x = e
        · subst eq; simp [Evs.union, res]
        · simpa [Function.update_of_ne eq] using res
      · by_cases eq : x = e
        · subst eq; simpa [Evs.union, notDue] using res
        · simpa [Function.update_of_ne eq] using res
  · next inactive =>
      refine ⟨rfl, rfl, rfl, fun x => ?_, fun x => ?_, rfl, rfl, rfl, rfl, ⟨rfl, rfl⟩, fun x h => ?_,
        ⟨[e], rfl, List.nodup_singleton e, by simpa using inactive⟩, fun x was res => ?_,
        fun x now res => ?_⟩
      · refine field_update Event.shape ?_ x
        rfl
      · refine field_update Event.evTimeout ?_ x
        rfl
      · rcases List.mem_append.mp h with h | h
        · exact Or.inl h
        · rw [List.mem_singleton.mp h]; exact Or.inr mem
      · have ne : x ≠ e := by
          rintro rfl
          exact inactive was
        simpa [Function.update_of_ne ne] using res
      · have ne : x ≠ e := by
          rintro rfl
          simp [notDue] at res
        simp only [Function.update_of_ne ne] at res
        exact ⟨by simpa [ne] using now, res⟩

/-- Folding reports over events that stay inserted. -/
theorem activates_foldl {α : Type*} (f : Base → α → Base) (l : List α)
    (step : ∀ c, Activates b c → ∀ x ∈ l, Activates c (f c x)) :
    Activates b (l.foldl f b) := by
  -- generalised over the base reached so far, which the fold is relative to
  have go : ∀ (m : List α), (∀ x ∈ m, x ∈ l) → ∀ c, Activates b c →
      Activates b (m.foldl f c) := by
    intro m
    induction m with
    | nil => intro _ c hc; exact hc
    | cons x m ih =>
        intro sub c hc
        exact ih (fun y hy => sub y (List.mem_cons_of_mem _ hy)) _
          (hc.trans (step c hc x (sub x List.mem_cons_self)))
  exact go l (fun _ h => h) b (Activates.refl b)

theorem activates_evmapIoActive (b : Base) (fd : Fd) {events : Evs}
    (notDue : events.timeout = false) : Activates b (b.evmapIoActive fd events) := by
  refine activates_foldl _ _ fun c hc e mem => ?_
  split
  · exact activates_eventActiveNolock (hc.inserted ▸ (mem_evmapIo.mp mem).1)
      (by simp [Evs.inter, notDue]) _
  · exact Activates.refl c

/-- epoll reports no timeouts. -/
theorem EpollReport.timeout_toEvs (what : EpollReport) : what.toEvs.timeout = false := by
  unfold EpollReport.toEvs
  split
  · rfl
  · split <;> rfl

theorem activates_evmapSignalActive (b : Base) (sig : Int) (ncalls : Nat) :
    Activates b (b.evmapSignalActive sig ncalls) := by
  refine activates_foldl _ _ fun c hc e mem => ?_
  exact activates_eventActiveNolock (hc.inserted ▸ (List.mem_filter.mp mem).1) rfl _

theorem activates_epollDispatch (b : Base) (ready : List (Fd × EpollReport)) :
    Activates b (b.epollDispatch ready) :=
  activates_foldl _ _ fun c _ r _ => activates_evmapIoActive c r.1 r.2.timeout_toEvs

/-- `evsig_cb` reports the signals it found, after emptying the pipe. -/
theorem activates_evsigCb (b : Base) : Activates { b with pipe := [] } b.evsigCb := by
  refine activates_foldl _ _ fun c _ sig _ => ?_
  split
  · exact Activates.refl c
  · exact activates_evmapSignalActive c sig _

/-- A report of a signal leaves the events of others alone. -/
theorem evmapSignalActive_of_notMem {sig : Int} (out : e ∉ b.evmapSignal sig) (ncalls : Nat) :
    (b.evmapSignalActive sig ncalls).ev e = b.ev e ∧
      (e ∈ (b.evmapSignalActive sig ncalls).activequeue ↔ e ∈ b.activequeue) := by
  have go : ∀ (l : List EvId) (c : Base), e ∉ l →
      (l.foldl (fun b x => b.eventActiveNolock x { signal := true } ncalls) c).ev e = c.ev e ∧
        (e ∈ (l.foldl (fun b x => b.eventActiveNolock x { signal := true } ncalls) c).activequeue ↔
          e ∈ c.activequeue) := by
    intro l
    induction l with
    | nil => intro c _; exact ⟨rfl, Iff.rfl⟩
    | cons x l ih =>
        intro c out
        simp only [List.mem_cons, not_or] at out
        rw [List.foldl_cons]
        obtain ⟨ev, active⟩ := ih (c.eventActiveNolock x { signal := true } ncalls) out.2
        refine ⟨ev.trans (eventActiveNolock_ev_of_ne _ out.1 _ _), active.trans ?_⟩
        rw [mem_eventActiveNolock]
        exact or_iff_left out.1
  exact go _ b out

/-- `evsig_cb` leaves alone what is not a signal event. -/
theorem evsigCb_of_not_signal (quiet : (b.ev e).evEvents.signal = false) :
    b.evsigCb.ev e = b.ev e ∧ (e ∈ b.evsigCb.activequeue ↔ e ∈ b.activequeue) := by
  have all : ∀ (l : List Nat) (c : Base), c.ev e = b.ev e →
      (l.foldl (fun c (sig : Nat) =>
          if b.pipe.count sig = 0 then c else c.evmapSignalActive sig (b.pipe.count sig)) c).ev e =
          c.ev e ∧
        (e ∈ (l.foldl (fun c (sig : Nat) =>
          if b.pipe.count sig = 0 then c
          else c.evmapSignalActive sig (b.pipe.count sig)) c).activequeue ↔
          e ∈ c.activequeue) := by
    intro l
    induction l with
    | nil => intro c _; exact ⟨rfl, Iff.rfl⟩
    | cons sig l ih =>
        intro c same
        rw [List.foldl_cons]
        split
        · exact ih c same
        · have out : e ∉ c.evmapSignal sig := by
            intro mem
            have := (List.mem_filter.mp mem).2
            rw [same, quiet] at this
            simp at this
          obtain ⟨ev, active⟩ := evmapSignalActive_of_notMem out (b.pipe.count sig)
          obtain ⟨ev', active'⟩ := ih (c.evmapSignalActive sig (b.pipe.count sig)) (ev.trans same)
          exact ⟨ev'.trans ev, active'.trans active⟩
  exact all _ { b with pipe := [] } rfl

theorem Activates.queued (h : Activates b b') {x : EvId} : b'.Queued x ↔ b.Queued x := by
  rw [Queued, Queued, h.inserted, h.timeheap]
  have := h.active x
  have := h.keeps (e := x)
  tauto

theorem Activates.watches (h : Activates b b') {fd : Fd} (w : b.Watches fd) : b'.Watches fd :=
  w.congr h.inserted (fun e _ => h.shape e) (by rw [h.epoll])

end Activate

/-! ## Expiring timers, and a whole pass -/

section Expire

variable {b b' : Base} {opened : Fd → Bool} {now : Timeval} {order : List EvId}

/-- What `timeout_process` does: events that are due leave the evmap and the
heap and become active by their timeout; nothing else moves. -/
structure Expires (opened : Fd → Bool) (now : Timeval) (b b' : Base) : Prop where
  inserted : b'.inserted.Sublist b.inserted
  timeheap : b'.timeheap.Sublist b.timeheap
  shape : ∀ e, (b'.ev e).shape = (b.ev e).shape
  deadline : ∀ e, (b'.ev e).evTimeout = (b.ev e).evTimeout
  repeating : b.repeating = none → b'.repeating = none
  pass : b'.pass = b.pass
  signalAdded : b'.evSignalAdded = b.evSignalAdded
  pipe : b'.pipe = b.pipe
  /-- Each event stays where it is, or was due and is active by its timeout only. -/
  moved : ∀ e, (e ∈ b'.inserted ↔ e ∈ b.inserted) ∧ (e ∈ b'.timeheap ↔ e ∈ b.timeheap) ∧
        (e ∈ b'.activequeue ↔ e ∈ b.activequeue) ∧ b'.ev e = b.ev e ∨
      e ∈ b.timeheap ∧ (b.ev e).evTimeout ≤ now ∧ e ∉ b'.inserted ∧ e ∉ b'.timeheap ∧
        e ∈ b'.activequeue ∧ (b'.ev e).evRes = { timeout := true }
  nodup : b.activequeue.Nodup → b'.activequeue.Nodup
  watches : (∀ e ∈ b.inserted, (b.ev e).evEvents.isIo = true → opened (b.ev e).evFd = true) →
    b.inserted.Nodup → ∀ fd, b.Watches fd → b'.Watches fd

theorem Expires.refl (opened : Fd → Bool) (now : Timeval) (b : Base) : Expires opened now b b :=
  ⟨List.Sublist.refl _, List.Sublist.refl _, fun _ => rfl, fun _ => rfl, fun h => h, rfl, rfl, rfl,
    fun _ => Or.inl ⟨Iff.rfl, Iff.rfl, Iff.rfl, rfl⟩, fun h => h, fun _ _ _ h => h⟩

theorem Expires.trans {b'' : Base} (h : Expires opened now b b') (h' : Expires opened now b' b'') :
    Expires opened now b b'' where
  inserted := h'.inserted.trans h.inserted
  timeheap := h'.timeheap.trans h.timeheap
  shape e := (h'.shape e).trans (h.shape e)
  deadline e := (h'.deadline e).trans (h.deadline e)
  repeating none := h'.repeating (h.repeating none)
  pass := h'.pass.trans h.pass
  signalAdded := h'.signalAdded.trans h.signalAdded
  pipe := h'.pipe.trans h.pipe
  moved e := by
    rcases h.moved e with ⟨ins, heap, act, ev⟩ | ⟨mem, due, ins, heap, act, res⟩
    · rcases h'.moved e with ⟨ins', heap', act', ev'⟩ | ⟨mem', due', ins', heap', act', res'⟩
      · exact Or.inl ⟨ins'.trans ins, heap'.trans heap, act'.trans act, ev'.trans ev⟩
      · exact Or.inr ⟨heap.mp mem', ev ▸ due', ins', heap', act', res'⟩
    · rcases h'.moved e with ⟨ins', heap', act', ev'⟩ | ⟨mem', -⟩
      · exact Or.inr ⟨mem, due, fun h => ins (ins'.mp h), fun h => heap (heap'.mp h),
          act'.mpr act, ev' ▸ res⟩
      · exact absurd mem' heap
  nodup nd := h'.nodup (h.nodup nd)
  watches op nd fd w := by
    refine h'.watches (fun e mem io => ?_) (h.inserted.nodup nd) fd (h.watches op nd fd w)
    obtain ⟨hfd, hev, -⟩ := Event.shape_eq (h.shape e)
    rw [hfd]
    exact op e (h.inserted.subset mem) (hev ▸ io)

/-- One round of the loop of `timeout_process`. -/
theorem expires_one {e : EvId} (top : b.IsTop e) (due : (b.ev e).evTimeout ≤ now) :
    Expires opened now b
      ((b.eventDelNolock opened e).eventActiveNolock e { timeout := true } 1) := by
  have gone : e ∉ (b.eventDelNolock opened e).activequeue := by simp
  simp only [eventActiveNolock, gone, if_false]
  refine ⟨?_, ?_, fun x => ?_, fun x => ?_, fun none => ?_, by simp, by simp, by simp, fun x => ?_,
    fun nd => ?_, fun op nd fd w => ?_⟩
  · simp only [eventDelNolock_inserted, unlink]
    exact List.filter_sublist
  · simp only [eventDelNolock_timeheap, unlink]
    exact List.filter_sublist
  · rw [eventDelNolock_ev]
    refine field_update Event.shape ?_ x
    rfl
  · rw [eventDelNolock_ev]
    refine field_update Event.evTimeout ?_ x
    rfl
  · simp [eventDelNolock_repeating, none]
  · by_cases eq : x = e
    · subst eq
      exact Or.inr ⟨top.1, due, by simp, by simp, by simp, by simp⟩
    · exact Or.inl ⟨by simp [eq], by simp [eq], by simp [eq], by simp [Function.update_of_ne eq]⟩
  · simp only [eventDelNolock_activequeue]
    exact List.nodup_append'.mpr ⟨nd.filter _, List.nodup_singleton e,
      List.disjoint_singleton.mpr (by simp)⟩
  · have deleted : (b.eventDelNolock opened e).Watches fd := by
      refine w.eventDelNolock nd fun mem => ?_
      obtain ⟨ins, io, -⟩ := mem_evmapIo.mp mem
      exact op e ins io
    refine deleted.congr rfl (fun x => ?_) rfl
    · intro _
      by_cases eq : x = e
      · subst eq; simp [Event.shape]
      · simp [Function.update_of_ne eq]

/-- **`timeout_process` expires timers**, and leaves none that is due. -/
theorem expires_timeoutProcess (h : b.timeoutProcess opened now order = some b') :
    Expires opened now b b' ∧ ∀ e ∈ b'.timeheap, now < (b'.ev e).evTimeout := by
  induction order generalizing b with
  | nil =>
      rw [timeoutProcess] at h
      split at h
      · next rest =>
          cases h
          exact ⟨Expires.refl _ _ _, rest⟩
      · cases h
  | cons e order ih =>
      rw [timeoutProcess] at h
      split at h
      · next due =>
          obtain ⟨tail, rest⟩ := ih h
          exact ⟨(expires_one due.1 due.2).trans tail, rest⟩
      · cases h

theorem Expires.queued (h : Expires opened now b b') {x : EvId} :
    b'.Queued x ↔ b.Queued x := by
  rw [Queued, Queued]
  rcases h.moved x with ⟨ins, heap, act, -⟩ | ⟨mem, -, -, -, act, -⟩ <;> tauto

/-- A pass is a report of readiness followed by the expiry of timers. -/
theorem dispatchPass_eq_some {ready : List (Fd × EpollReport)}
    (h : b.dispatchPass opened ready now order = some b') :
    ∃ c, Activates b c ∧ Expires opened now { c with pass := now } b' ∧
      ∀ e ∈ b'.timeheap, now < (b'.ev e).evTimeout :=
  ⟨_, activates_epollDispatch b ready, expires_timeoutProcess h⟩

/-- **A pass neither adds nor loses an event.** -/
theorem queued_dispatchPass {ready : List (Fd × EpollReport)}
    (h : b.dispatchPass opened ready now order = some b') {x : EvId} :
    b'.Queued x ↔ b.Queued x := by
  obtain ⟨c, act, exp, -⟩ := dispatchPass_eq_some h
  exact exp.queued.trans act.queued

theorem repeating_dispatchPass {ready : List (Fd × EpollReport)}
    (h : b.dispatchPass opened ready now order = some b') (quiet : b.repeating = none) :
    b'.repeating = none := by
  obtain ⟨c, act, exp, -⟩ := dispatchPass_eq_some h
  exact exp.repeating (act.repeating.trans quiet)

theorem shape_dispatchPass {ready : List (Fd × EpollReport)}
    (h : b.dispatchPass opened ready now order = some b') (x : EvId) :
    (b'.ev x).shape = (b.ev x).shape := by
  obtain ⟨c, act, exp, -⟩ := dispatchPass_eq_some h
  exact (exp.shape x).trans (act.shape x)

/-! ### Who is active after a pass -/

/-- The event is active already, epoll reports what it waits for, or its deadline
has come. -/
def Wakes (b : Base) (ready : List (Fd × EpollReport)) (now : Timeval) (e : EvId) : Prop :=
  e ∈ b.activequeue ∨
  (∃ r ∈ ready, e ∈ b.evmapIo r.1 ∧ ((b.ev e).evEvents.inter r.2.toEvs).isSet = true) ∨
  (e ∈ b.timeheap ∧ (b.ev e).evTimeout ≤ now)

instance {ready : List (Fd × EpollReport)} {e : EvId} : Decidable (b.Wakes ready now e) :=
  inferInstanceAs (Decidable (_ ∨ (∃ r ∈ ready, _) ∨ (_ ∧ _)))

/-- The slot of a descriptor is not changed by reports. -/
theorem Activates.evmapIo {b' : Base} (h : Activates b b') (fd : Fd) :
    b'.evmapIo fd = b.evmapIo fd := by
  have same : ∀ e, (b'.ev e).evFd = (b.ev e).evFd ∧ (b'.ev e).evEvents = (b.ev e).evEvents :=
    fun e => ⟨(Event.shape_eq (h.shape e)).1, (Event.shape_eq (h.shape e)).2.1⟩
  simp only [Base.evmapIo, h.inserted, same]

theorem mem_evmapIoActive {e : EvId} (fd : Fd) {events : Evs} (notDue : events.timeout = false) :
    e ∈ (b.evmapIoActive fd events).activequeue ↔
      e ∈ b.activequeue ∨ e ∈ b.evmapIo fd ∧ ((b.ev e).evEvents.inter events).isSet = true := by
  -- over any part of the slot, from any base that reports have led to
  have go : ∀ (l : List EvId), (∀ x ∈ l, x ∈ b.inserted) → ∀ c, Activates b c →
      (e ∈ (l.foldl (fun b e =>
          if ((b.ev e).evEvents.inter events).isSet then
            b.eventActiveNolock e ((b.ev e).evEvents.inter events) 1
          else b) c).activequeue ↔
        e ∈ c.activequeue ∨ e ∈ l ∧ ((b.ev e).evEvents.inter events).isSet = true) := by
    intro l
    induction l with
    | nil => intro _ c _; simp
    | cons x l ih =>
        intro sub c hc
        have same : (c.ev x).evEvents = (b.ev x).evEvents := (Event.shape_eq (hc.shape x)).2.1
        have inserted : x ∈ c.inserted := hc.inserted ▸ sub x List.mem_cons_self
        rw [List.foldl_cons]
        by_cases fits : ((c.ev x).evEvents.inter events).isSet = true
        · rw [if_pos fits, ih (fun y hy => sub y (List.mem_cons_of_mem _ hy)) _
            (hc.trans (activates_eventActiveNolock inserted (by simp [Evs.inter, notDue]) _)),
            mem_eventActiveNolock]
          rw [same] at fits
          constructor
          · rintro ((mem | rfl) | mem)
            · exact Or.inl mem
            · exact Or.inr ⟨List.mem_cons_self, fits⟩
            · exact Or.inr ⟨List.mem_cons_of_mem _ mem.1, mem.2⟩
          · rintro (mem | ⟨mem, fit⟩)
            · exact Or.inl (Or.inl mem)
            · rcases List.mem_cons.mp mem with rfl | mem
              · exact Or.inl (Or.inr rfl)
              · exact Or.inr ⟨mem, fit⟩
        · rw [if_neg fits, ih (fun y hy => sub y (List.mem_cons_of_mem _ hy)) c hc]
          rw [same] at fits
          constructor
          · rintro (mem | mem)
            · exact Or.inl mem
            · exact Or.inr ⟨List.mem_cons_of_mem _ mem.1, mem.2⟩
          · rintro (mem | ⟨mem, fit⟩)
            · exact Or.inl mem
            · rcases List.mem_cons.mp mem with rfl | mem
              · exact absurd fit fits
              · exact Or.inr ⟨mem, fit⟩
  exact go _ (fun x hx => (mem_evmapIo.mp hx).1) b (Activates.refl b)

theorem mem_epollDispatch {e : EvId} (ready : List (Fd × EpollReport)) :
    e ∈ (b.epollDispatch ready).activequeue ↔
      e ∈ b.activequeue ∨
      ∃ r ∈ ready, e ∈ b.evmapIo r.1 ∧ ((b.ev e).evEvents.inter r.2.toEvs).isSet = true := by
  induction ready generalizing b with
  | nil => simp [epollDispatch]
  | cons r ready ih =>
      have act := activates_evmapIoActive b r.1 r.2.timeout_toEvs
      have same : ((b.evmapIoActive r.1 r.2.toEvs).ev e).evEvents = (b.ev e).evEvents :=
        (Event.shape_eq (act.shape e)).2.1
      rw [epollDispatch, List.foldl_cons]
      rw [show List.foldl (fun b (r : Fd × EpollReport) => b.evmapIoActive r.1 r.2.toEvs)
        (b.evmapIoActive r.1 r.2.toEvs) ready
          = (b.evmapIoActive r.1 r.2.toEvs).epollDispatch ready from rfl, ih,
        mem_evmapIoActive r.1 r.2.timeout_toEvs]
      simp only [act.evmapIo, same, List.mem_cons]
      constructor
      · rintro ((mem | mem) | ⟨r', mem', mem⟩)
        · exact Or.inl mem
        · exact Or.inr ⟨r, Or.inl rfl, mem⟩
        · exact Or.inr ⟨r', Or.inr mem', mem⟩
      · rintro (mem | ⟨r', rfl | mem', mem⟩)
        · exact Or.inl (Or.inl mem)
        · exact Or.inl (Or.inr mem)
        · exact Or.inr ⟨r', mem', mem⟩

/-- **A pass makes active exactly the events it wakes.** -/
theorem mem_dispatchPass {e : EvId} {ready : List (Fd × EpollReport)}
    (h : b.dispatchPass opened ready now order = some b') :
    e ∈ b'.activequeue ↔ b.Wakes ready now e := by
  obtain ⟨exp, rest⟩ := expires_timeoutProcess h
  have act := activates_epollDispatch b ready
  have active := mem_epollDispatch (b := b) (e := e) ready
  have deadline := act.deadline e
  rw [Wakes, ← or_assoc, ← active]
  rcases exp.moved e with ⟨-, heap, queue, ev⟩ | ⟨heap, due, -, -, queue, -⟩
  · rw [queue]
    constructor
    · exact Or.inl
    · rintro (mem | ⟨mem, due⟩)
      · exact mem
      · -- an event that is due does not stay on the heap
        have mem : e ∈ b'.timeheap := heap.mpr (act.timeheap ▸ mem)
        have late := rest e mem
        rw [ev] at late
        simp only at late
        rw [deadline] at late
        exact absurd due (Timeval.not_le.mpr late)
  · simp only at heap due
    rw [act.timeheap] at heap
    rw [deadline] at due
    exact ⟨fun _ => Or.inr ⟨heap, due⟩, fun _ => queue⟩

end Expire

/-! ## Adding -/

section Add

variable {b b' : Base} {opened : Fd → Bool} {env : AddEnv} {now : Timeval} {e : EvId}

/-- The base with the event put on the timer heap, if there is a timeout. -/
def withTimeout (b : Base) (now : Timeval) (e : EvId) : Option Timeval → Base
  | none => b
  | some tv =>
      { b with
        ev := Function.update b.ev e { b.ev e with evTimeout := evutilTimeradd now tv }
        timeheap := e :: b.timeheap }

@[simp] theorem withTimeout_fields (b : Base) (now : Timeval) (e : EvId) (tv : Option Timeval) :
    (b.withTimeout now e tv).inserted = b.inserted ∧
      (b.withTimeout now e tv).activequeue = b.activequeue ∧
      (b.withTimeout now e tv).epoll = b.epoll ∧
      (b.withTimeout now e tv).repeating = b.repeating ∧
      (b.withTimeout now e tv).pass = b.pass ∧
      (b.withTimeout now e tv).evSignalAdded = b.evSignalAdded := by
  cases tv <;> simp [withTimeout]

theorem withTimeout_shape (b : Base) (now : Timeval) (e : EvId) (tv : Option Timeval) (x : EvId) :
    ((b.withTimeout now e tv).ev x).shape = (b.ev x).shape := by
  cases tv with
  | none => rfl
  | some tv =>
      by_cases eq : x = e
      · subst eq; simp [withTimeout, Event.shape]
      · simp [withTimeout, Function.update_of_ne eq]

theorem mem_withTimeout_timeheap (b : Base) (now : Timeval) (e x : EvId) (tv : Option Timeval) :
    x ∈ (b.withTimeout now e tv).timeheap ↔ x ∈ b.timeheap ∨ x = e ∧ tv.isSome := by
  cases tv with
  | none => simp [withTimeout]
  | some tv => simp [withTimeout, or_comm]

/-- **When `event_add` succeeds** for a new event of a descriptor. -/
def Accepts (b : Base) (opened : Fd → Bool) (env : AddEnv) (e : EvId) (tv : Option Timeval) :
    Prop :=
  ¬ (tv.isSome = true ∧ env.heapFull = true) ∧ b.Admits opened env.reject e

instance {tv : Option Timeval} : Decidable (b.Accepts opened env e tv) :=
  inferInstanceAs (Decidable (¬ _ ∧ _))

/-- **`event_add_nolock_` in closed form**, for a new event of a descriptor. -/
theorem eventAddNolock_io (io : (b.ev e).evEvents.isIo = true) (new : ¬ b.Queued e)
    (tv : Option Timeval) :
    b.eventAddNolock opened env now e tv =
      if b.Accepts opened env e tv then
        (true, withTimeout { b with inserted := e :: b.inserted, epoll := b.epollAfterAdd e }
          now e tv)
      else (false, b) := by
  have notIns : e ∉ b.inserted := fun h => new (Or.inl h)
  have notHeap : e ∉ b.timeheap := fun h => new (Or.inr (Or.inl h))
  have notAct : e ∉ b.activequeue := fun h => new (Or.inr (Or.inr h))
  rw [eventAddNolock]
  simp only [notIns, notHeap, notAct, io, or_self, if_false, if_true, decide_false, Bool.not_false,
    Bool.and_true, evmapIoAdd_eq]
  by_cases full : tv.isSome = true ∧ env.heapFull = true
  · rw [if_pos (by simpa using full), if_neg (fun h => h.1 full)]
  · rw [if_neg (by simpa using full)]
    by_cases adm : b.Admits opened env.reject e
    · rw [if_pos adm, if_pos ⟨full, adm⟩]
      cases tv with
      | none => rfl
      | some tv => simp [withTimeout, unlink_of_notMem notHeap, unlink_of_notMem notAct]
    · rw [if_neg adm, if_neg (fun h => adm h.2)]

/-- **`event_add_nolock_` in closed form**, for a new timer. -/
theorem eventAddNolock_timer (timer : (b.ev e).evEvents = {}) (new : ¬ b.Queued e)
    (tv : Timeval) :
    b.eventAddNolock opened env now e (some tv) =
      if env.heapFull then (false, b) else (true, b.withTimeout now e (some tv)) := by
  have notIns : e ∉ b.inserted := fun h => new (Or.inl h)
  have notHeap : e ∉ b.timeheap := fun h => new (Or.inr (Or.inl h))
  have notAct : e ∉ b.activequeue := fun h => new (Or.inr (Or.inr h))
  rw [eventAddNolock]
  simp only [notIns, notHeap, notAct, timer, Evs.isIo, or_self, if_false, decide_false,
    Bool.not_false, Bool.and_true, Option.isSome_some, Bool.true_and, Bool.false_eq_true]
  split
  · rfl
  · simp [withTimeout, unlink_of_notMem notHeap, unlink_of_notMem notAct]

/-- **`evsig_add` in closed form**: the signal pipe joins the evmap with the
first signal of the base; apart from that, only the handlers change. -/
theorem evsigAdd_cases {ok : Bool} {sig : Int} (h : b.evsigAdd opened env sig = (ok, b')) :
    ∃ disposition shOld,
      b' = { b with disposition, shOld } ∨
      b.evSignalAdded = false ∧ ok = true ∧ b.Admits opened env.pipeReject .signalPipe ∧
        b' = { b with
          inserted := .signalPipe :: b.inserted
          epoll := b.epollAfterAdd .signalPipe
          evSignalAdded := true
          disposition, shOld } := by
  rw [evsigAdd] at h
  split at h
  · cases h
    exact ⟨b.disposition, b.shOld, Or.inl rfl⟩
  · simp only [evmapIoAdd_eq] at h
    split at h
    · cases h
      exact ⟨_, _, Or.inl rfl⟩
    · next notAdded =>
        refine ⟨Function.update b.disposition sig .evsigHandler,
          Function.update b.shOld sig (some (b.disposition sig)), ?_⟩
        split at h
        · next added =>
            split at added
            · next admits =>
                cases added
                cases h
                exact Or.inr ⟨by simpa using notAdded, rfl, admits, rfl⟩
            · cases added
        · cases h
          exact Or.inl rfl

/-- **`evmap_signal_add_` in closed form.**  On failure the event is not
inserted, and the pipe has not joined either. -/
theorem evmapSignalAdd_cases {ok : Bool} (h : b.evmapSignalAdd opened env e = (ok, b')) :
    ∃ disposition shOld,
      b' = { b with
        inserted := if ok then e :: b.inserted else b.inserted
        disposition, shOld } ∨
      b.evSignalAdded = false ∧ ok = true ∧ b.Admits opened env.pipeReject .signalPipe ∧
        b' = { b with
          inserted := e :: .signalPipe :: b.inserted
          epoll := b.epollAfterAdd .signalPipe
          evSignalAdded := true
          disposition, shOld } := by
  rw [evmapSignalAdd] at h
  split at h
  · cases h
    exact ⟨b.disposition, b.shOld, Or.inl rfl⟩
  · split at h
    · cases added : b.evsigAdd opened env (b.ev e).evFd with
      | mk ok' c =>
          rw [added] at h
          obtain ⟨disposition, shOld, eq | ⟨notAdded, rfl, admits, eq⟩⟩ := evsigAdd_cases added
          · cases ok' <;> cases h <;> subst eq <;> exact ⟨disposition, shOld, Or.inl rfl⟩
          · cases h
            subst eq
            exact ⟨disposition, shOld, Or.inr ⟨notAdded, rfl, admits, rfl⟩⟩
    · cases h
      exact ⟨b.disposition, b.shOld, Or.inl rfl⟩

/-- `event_add_nolock_` on a new signal event, which has no timeout, is
`evmap_signal_add_`. -/
theorem eventAddNolock_signal (signal : (b.ev e).evEvents = { signal := true })
    (new : ¬ b.Queued e) :
    b.eventAddNolock opened env now e none = b.evmapSignalAdd opened env e := by
  have notIns : e ∉ b.inserted := fun h => new (Or.inl h)
  have notAct : e ∉ b.activequeue := fun h => new (Or.inr (Or.inr h))
  rw [eventAddNolock]
  simp [notIns, notAct, signal, Evs.isIo]

end Add

end Base

end SwiftEvent
