import SwiftEvent.Core
import SwiftEvent.Queues
import SwiftEvent.Evmap

/-!
# The base with its map of descriptors

`SwiftEvent.Base` keeps the events with `EVLIST_INSERTED` in one list, and reads
the slot of a descriptor and its counters off the list.  Here the slots and the
counters are kept where `evmap.c` keeps them, over the backend of `epoll.c`, and
the flag is all that is left of the list.

* `Maps` — the slots hold what the base lists, and count what it counts.
* `base_evmap_refines` — every run of the base with its map is a run of `Base`,
  and it never gets stuck.  Where the allocator finds no memory for the array or
  for a slot, `Base` has the addition refused.
-/

namespace SwiftEvent

/-- What `event_assign` fixes of an event structure, as far as it is about a
descriptor. -/
def Event.ioDesc (v : Event) : IoDesc where
  evFd := v.evFd
  evEvents := ⟨v.evEvents.read, v.evEvents.write, false⟩

/-- The events of a backend call as the bits of epoll. -/
def IoEvents.toEpoll (a : IoEvents) : EpollEvents := ⟨a.read, a.write⟩

/-- `epollops`, on the interest list: `epoll_nochangelist_add` and
`epoll_nochangelist_del`. -/
def epollOps (opened : Fd → Bool) (reject : Option Errno) :
    Eventop (Fd → Option EpollEvents) where
  add epoll fd old events _ :=
    let r := epollNochangelistAdd (opened fd) reject (epoll fd) old.toEpoll events.toEpoll
    (r.1, Function.update epoll fd r.2)
  del epoll fd old events _ :=
    let r := epollNochangelistDel (opened fd) (epoll fd) old.toEpoll events.toEpoll
    (r.1, Function.update epoll fd r.2)

/-- `struct event_base` with `base->io`.  The events with `EVLIST_INSERTED` are
listed in `base`. -/
structure MapBase where
  base : Base
  io : EventIoMap EvId

/-- The listed events of descriptors. -/
def Base.ioInserted (b : Base) : List EvId := b.inserted.filter fun e => (b.ev e).evEvents.isIo

namespace MapBase

variable (mb : MapBase)

/-- The base as the map sees it. -/
def view : IoBase EvId (Fd → Option EpollEvents) where
  desc e := (mb.base.ev e).ioDesc
  inserted e := decide (e ∈ mb.base.inserted) && (mb.base.ev e).evEvents.isIo
  io := mb.io
  backend := mb.base.epoll

/-- The part of `event_add_nolock_` about an event of a descriptor. -/
def add (opened : Fd → Bool) (reject : Option Errno) (memory : Memory) (e : EvId) :
    Option MapBase :=
  if (mb.base.ev e).evEvents.isIo && !decide (e ∈ mb.base.inserted) then do
    let (res, io, epoll) ←
      evmapIoAdd (epollOps opened reject) memory (mb.base.ev e).ioDesc e mb.io mb.base.epoll
    return ⟨{ mb.base with
      epoll, inserted := if res ≠ -1 then e :: mb.base.inserted else mb.base.inserted }, io⟩
  else some mb

/-- The part of `event_del_nolock_` about an event of a descriptor. -/
def del (opened : Fd → Bool) (e : EvId) : Option MapBase :=
  if (mb.base.ev e).evEvents.isIo && decide (e ∈ mb.base.inserted) then do
    let (_, io, epoll) ←
      evmapIoDel (epollOps opened none) (mb.base.ev e).ioDesc e mb.io mb.base.epoll
    return ⟨{ mb.base with epoll, inserted := unlink mb.base.inserted e }, io⟩
  else some mb

/-- `evmap_io_active_` on the events of the slot. -/
def evmapIoActive (fd : Fd) (events : Evs) : Base :=
  (evmapIoEvents mb.io fd).foldl
    (fun b e =>
      if ((b.ev e).evEvents.inter events).isSet then
        b.eventActiveNolock e ((b.ev e).evEvents.inter events) 1
      else b) mb.base

/-- `epoll_dispatch`. -/
def epollDispatch (ready : List (Fd × Base.EpollReport)) : MapBase :=
  ready.foldl (fun mb r => ⟨mb.evmapIoActive r.1 r.2.toEvs, mb.io⟩) mb

end MapBase

/-- What can be done to a base: the functions that touch its map, and anything
else, as long as it leaves the events of descriptors listed as they are. -/
inductive MapCall
  | assign (e : EvId) (v : Event)
  | add (opened : Fd → Bool) (reject : Option Errno) (memory : Memory) (e : EvId)
  | del (opened : Fd → Bool) (e : EvId)
  | dispatch (ready : List (Fd × Base.EpollReport))
  | other (f : Base → Base)
      (apart : ∀ b, (∀ e, ((f b).ev e).ioDesc = (b.ev e).ioDesc) ∧
        (f b).ioInserted = b.ioInserted)

namespace MapCall

/-- The call on the base with its map. -/
def step (mb : MapBase) : MapCall → Option MapBase
  | .assign e v => some { mb with base := { mb.base with ev := Function.update mb.base.ev e v } }
  | .add opened reject memory e => mb.add opened reject memory e
  | .del opened e => mb.del opened e
  | .dispatch ready => some (mb.epollDispatch ready)
  | .other f _ => some { mb with base := f mb.base }

/-- The call on the base that only lists its events. -/
def act (c : MapCall) (b : Base) : Base :=
  match c with
  | .assign e v => { b with ev := Function.update b.ev e v }
  | .add opened reject _ e =>
      if (b.ev e).evEvents.isIo && !decide (e ∈ b.inserted) then
        (b.evmapIoAdd opened reject e).getD b
      else b
  | .del opened e =>
      if (b.ev e).evEvents.isIo && decide (e ∈ b.inserted) then b.evmapIoDel opened e else b
  | .dispatch ready => b.epollDispatch ready
  | .other f _ => f b

/-- The call with the addition refused. -/
def refused : MapCall → MapCall
  | .add opened _ memory e => .add opened (some 12) memory e
  | c => c

/-- Memory is asked for, for a descriptor on which nothing waits, and not found. -/
def Starved (b : Base) : MapCall → Prop
  | .add _ _ memory e => memory ≠ {} ∧ b.evmapIo (b.ev e).evFd = []
  | _ => False

/-- What a call is on the base that only lists its events. -/
def Means (b : Base) (c : MapCall) (b' : Base) : Prop :=
  b' = c.act b ∨ c.Starved b ∧ b' = c.refused.act b

/-- What is assigned is not added, and the array can be made large enough for its
descriptor. -/
def Allowed (mb : MapBase) : MapCall → Prop
  | .assign e v => e ∉ mb.base.inserted ∧
      (v.evEvents.isIo = true → 0 ≤ v.evFd ∧ v.evFd < 2 ^ 27)
  | _ => True

instance (mb : MapBase) : DecidablePred (Allowed mb)
  | .assign e v => inferInstanceAs (Decidable (e ∉ mb.base.inserted ∧
      (v.evEvents.isIo = true → 0 ≤ v.evFd ∧ v.evFd < 2 ^ 27)))
  | .add .. => isTrue trivial
  | .del .. => isTrue trivial
  | .dispatch _ => isTrue trivial
  | .other .. => isTrue trivial

end MapCall

/-! ### The slots hold what is listed -/

section Maps

variable {mb : MapBase} {b : Base} {opened : Fd → Bool} {e : EvId}

theorem Event.ioDesc_isSet (v : Event) : v.ioDesc.evEvents.isSet = v.evEvents.isIo := by
  show (v.evEvents.read || v.evEvents.write || false) = _
  rw [Bool.or_false]
  rfl

/-- A slot of the list is read off the events of descriptors. -/
theorem Base.evmapIo_eq (b : Base) (fd : Fd) :
    b.evmapIo fd = b.ioInserted.filter fun e => (b.ev e).evFd == fd := by
  unfold Base.evmapIo Base.ioInserted
  rw [List.filter_filter]
  refine List.filter_congr ?_
  intro e _
  exact Bool.and_comm _ _

/-- The slots hold the events the base lists. -/
structure MapBase.Maps (mb : MapBase) : Prop where
  ok : Integrity mb.view
  slots : ∀ fd : Nat, (mb.io.slotAt fd).events = mb.base.evmapIo fd
  range : ∀ e, (mb.base.ev e).evEvents.isIo = true →
    0 ≤ (mb.base.ev e).evFd ∧ (mb.base.ev e).evFd < 2 ^ 27

namespace MapBase.Maps

/-- Without close events the backend is told in the bits of epoll. -/
theorem isSet_toEpoll {a : IoEvents} (open_ : a.closed = false) :
    a.isSet = a.toEpoll.isSet := by
  unfold IoEvents.isSet
  rw [open_, Bool.or_false]
  rfl

theorem ioDesc_evFd (v : Event) : v.ioDesc.evFd = v.evFd := rfl

theorem isSet_of_io {v : Event} (io : v.evEvents.isIo = true) : v.ioDesc.evEvents.isSet = true := by
  rw [Event.ioDesc_isSet]
  exact io

/-- The counters of a slot are the numbers the base counts. -/
theorem counts (h : mb.Maps) (fd : Nat) :
    (mb.io.slotAt fd).nread = mb.base.nread fd ∧ (mb.io.slotAt fd).nwrite = mb.base.nwrite fd ∧
      (mb.io.slotAt fd).nclose = 0 := by
  have ok := h.ok.slots fd
  have read := ok.nread
  have write := ok.nwrite
  have close := ok.nclose
  show _ ∧ _ ∧ (mb.view.io.slotAt fd).nclose = 0
  rw [show (mb.view.io.slotAt fd).events = mb.base.evmapIo fd from h.slots fd] at read write close
  refine ⟨read.symm.trans ?_, write.symm.trans ?_, close.symm.trans ?_⟩
  · unfold Base.evmapIo Base.nread
    rw [List.countP_filter]
    refine List.countP_congr ?_
    intro e _
    show ((mb.base.ev e).evEvents.read && ((mb.base.ev e).evEvents.isIo && _)) = true ↔ _
    unfold Evs.isIo
    cases (mb.base.ev e).evEvents.read <;> simp
  · unfold Base.evmapIo Base.nwrite
    rw [List.countP_filter]
    refine List.countP_congr ?_
    intro e _
    show ((mb.base.ev e).evEvents.write && ((mb.base.ev e).evEvents.isIo && _)) = true ↔ _
    unfold Evs.isIo
    cases (mb.base.ev e).evEvents.write <;> simp
  · exact congrFun List.countP_false _

theorem old (h : mb.Maps) (fd : Nat) :
    (mb.io.slotAt fd).old.toEpoll = mb.base.oldEvents fd := by
  obtain ⟨read, write, -⟩ := h.counts fd
  unfold EvmapIo.old IoEvents.toEpoll Base.oldEvents
  rw [read, write]
  congr 1 <;> exact decide_eq_decide.mpr Nat.pos_iff_ne_zero.symm

/-- The slot of an event's descriptor, as a number. -/
theorem slot (h : mb.Maps) (io : (mb.base.ev e).evEvents.isIo = true) :
    (((mb.base.ev e).evFd.toNat : Nat) : Int) = (mb.base.ev e).evFd :=
  Int.toNat_of_nonneg (h.range e io).1

theorem first (h : mb.Maps) (io : (mb.base.ev e).evEvents.isIo = true) :
    ((mb.io.slotAt (mb.base.ev e).evFd.toNat).first (mb.base.ev e).ioDesc).toEpoll =
      mb.base.newEvents e := by
  obtain ⟨read, write, -⟩ := h.counts (mb.base.ev e).evFd.toNat
  rw [h.slot io] at read write
  unfold EvmapIo.first IoEvents.toEpoll Base.newEvents
  rw [read, write]
  rfl

theorem last (h : mb.Maps) (io : (mb.base.ev e).evEvents.isIo = true) :
    ((mb.io.slotAt (mb.base.ev e).evFd.toNat).last (mb.base.ev e).ioDesc).toEpoll =
      mb.base.lastEvents e := by
  obtain ⟨read, write, -⟩ := h.counts (mb.base.ev e).evFd.toNat
  rw [h.slot io] at read write
  unfold EvmapIo.last IoEvents.toEpoll Base.lastEvents
  rw [read, write]
  rfl

/-- There is room in the slot when there is room in the counts of the base. -/
theorem room (h : mb.Maps) (io : (mb.base.ev e).evEvents.isIo = true) :
    (mb.io.slotAt (mb.base.ev e).evFd.toNat).Room (mb.base.ev e).ioDesc ↔
      (mb.base.nread (mb.base.ev e).evFd + if (mb.base.ev e).evEvents.read then 1 else 0) ≤
          0xffff ∧
        (mb.base.nwrite (mb.base.ev e).evFd + if (mb.base.ev e).evEvents.write then 1 else 0) ≤
          0xffff := by
  obtain ⟨read, write, close⟩ := h.counts (mb.base.ev e).evFd.toNat
  rw [h.slot io] at read write
  have toNat (flag : Bool) : flag.toNat = if flag then 1 else 0 := by cases flag <;> rfl
  unfold EvmapIo.Room
  rw [read, write, close]
  show (_ + (mb.base.ev e).evEvents.read.toNat ≤ _ ∧ _ + (mb.base.ev e).evEvents.write.toNat ≤ _ ∧
    0 + 0 ≤ 0xffff) ↔ _
  rw [toNat, toNat]
  constructor
  · rintro ⟨r, w, -⟩
    exact ⟨r, w⟩
  · rintro ⟨r, w⟩
    exact ⟨r, w, by omega⟩

end MapBase.Maps

/-- What the backend of the package answers when it is told of new events. -/
theorem epollOps_add {opened : Fd → Bool} {reject : Option Errno} {old events : IoEvents}
    (epoll : Fd → Option EpollEvents) (fd : Fd) (et : Bool)
    (told : events.toEpoll.isSet = true) :
    (epollOps opened reject).add epoll fd old events et =
      if opened fd = true ∧ reject = none then
        (true, Function.update epoll fd (some (old.toEpoll.union events.toEpoll)))
      else (false, epoll) := by
  show (((epollNochangelistAdd _ _ _ _ _).1, Function.update epoll fd _) : Bool × _) = _
  rw [epollNochangelistAdd_eq _ _ _ _ _ told]
  by_cases accept : opened fd = true ∧ reject = none
  · rw [if_pos accept, if_pos accept]
  · rw [if_neg accept, if_neg accept, Function.update_eq_self]

namespace MapBase.Maps

/-- The flag of an event more, or of one less. -/
theorem view_inserted (l : List EvId) (on : Bool) (io : (mb.base.ev e).evEvents.isIo = true)
    (mem : ∀ x, x ∈ l ↔ if x = e then on = true else x ∈ mb.base.inserted) :
    (fun x => decide (x ∈ l) && (mb.base.ev x).evEvents.isIo) =
      Function.update mb.view.inserted e on := by
  funext x
  by_cases eq : x = e
  · have flag := mem x
    rw [if_pos eq] at flag
    have listed : decide (x ∈ l) = on := by
      rw [Bool.eq_iff_iff, decide_eq_true_eq]
      exact flag
    rw [listed, eq, Function.update_self, io, Bool.and_true]
  · have same := mem x
    rw [if_neg eq] at same
    rw [Function.update_of_ne eq, decide_eq_decide.mpr same]
    rfl

/-- The slots of a base with an event more on its list. -/
theorem evmapIo_cons (b : Base) (epoll : Fd → Option EpollEvents)
    (io : (b.ev e).evEvents.isIo = true) (fd : Fd) :
    ({ b with inserted := e :: b.inserted, epoll := epoll } : Base).evmapIo fd =
      if (b.ev e).evFd = fd then e :: b.evmapIo fd else b.evmapIo fd := by
  unfold Base.evmapIo
  rw [List.filter_cons, io, Bool.true_and]
  simp only [beq_iff_eq]

/-- Only the room in the array has changed. -/
theorem sameSlots (h : mb.Maps) {m : EventIoMap EvId} (view : m.slotAt = mb.io.slotAt) :
    MapBase.Maps ⟨mb.base, m⟩ := by
  refine ⟨⟨?_, ?_⟩, ?_, h.range⟩
  · intro fd
    show SlotOk mb.view.desc mb.view.inserted fd (m.slotAt fd)
    rw [view]
    exact h.ok.slots fd
  · intro x on nonneg
    show x ∈ (m.slotAt (mb.view.desc x).evFd.toNat).events
    rw [view]
    exact h.ok.has x on nonneg
  · intro fd
    show (m.slotAt fd).events = _
    rw [view]
    exact h.slots fd

/-- The event has entered its slot and the list. -/
theorem entered (h : mb.Maps) (io : (mb.base.ev e).evEvents.isIo = true)
    (out : e ∉ mb.base.inserted)
    (room : (mb.io.slotAt (mb.base.ev e).evFd.toNat).Room (mb.base.ev e).ioDesc)
    {m : EventIoMap EvId} (epoll : Fd → Option EpollEvents)
    (view : m.slotAt = Function.update mb.io.slotAt (mb.base.ev e).evFd.toNat
      ((mb.io.slotAt (mb.base.ev e).evFd.toNat).push (mb.base.ev e).ioDesc e)) :
    MapBase.Maps ⟨{ mb.base with inserted := e :: mb.base.inserted, epoll := epoll }, m⟩ := by
  have off : mb.view.inserted e = false := by
    show (decide _ && _) = false
    rw [decide_eq_false out, Bool.false_and]
  refine ⟨?_, ?_, h.range⟩
  · have flags := view_inserted (e :: mb.base.inserted) true io (by
      intro x
      by_cases eq : x = e <;> simp [eq])
    have ok := h.ok.entered off (isSet_of_io io) (h.range e io).1 room (b := epoll) view
    rw [← flags] at ok
    exact ok
  · intro fd
    show (m.slotAt fd).events = _
    rw [view]
    refine Eq.trans ?_ (evmapIo_cons mb.base epoll io fd).symm
    by_cases eq : fd = (mb.base.ev e).evFd.toNat
    · rw [if_pos (by rw [eq, h.slot io]), eq, Function.update_self, ← h.slots]
      rfl
    · rw [if_neg, Function.update_of_ne eq, h.slots]
      intro same
      exact eq (by rw [same, Int.toNat_natCast])

/-- In a slot that nothing waits in, an event is the first of its kind. -/
theorem newEvents_of_empty (h : mb.Maps) (io : (mb.base.ev e).evEvents.isIo = true)
    (empty : mb.io.slotAt (mb.base.ev e).evFd.toNat = {}) : (mb.base.newEvents e).isSet = true := by
  obtain ⟨read, write, -⟩ := h.counts (mb.base.ev e).evFd.toNat
  rw [h.slot io, empty] at read write
  unfold Base.newEvents
  rw [← read, ← write]
  show (_ && true || _ && true) = true
  rw [Bool.and_true, Bool.and_true]
  exact io

/-- A first event the multiplexer refuses is not added. -/
theorem act_refused (h : mb.Maps) (opened : Fd → Bool) (reject : Option Errno) (memory : Memory)
    (io : (mb.base.ev e).evEvents.isIo = true)
    (empty : mb.io.slotAt (mb.base.ev e).evFd.toNat = {}) :
    (MapCall.add opened reject memory e).refused.act mb.base = mb.base := by
  have admits : ¬ mb.base.Admits opened (some 12) e := by
    rintro ⟨-, -, accept⟩
    cases (accept (h.newEvents_of_empty io empty)).2
  show (if _ then (mb.base.evmapIoAdd opened (some 12) e).getD mb.base else mb.base) = _
  rw [Base.evmapIoAdd_eq, if_neg admits]
  exact ite_self _

/-- **`evmap_io_add_` on the map is the one of `Base`**, or finds no memory. -/
theorem add (h : mb.Maps) (opened : Fd → Bool) (reject : Option Errno) (memory : Memory)
    (e : EvId) :
    ∃ mb', mb.add opened reject memory e = some mb' ∧
      (MapCall.add opened reject memory e).Means mb.base mb'.base ∧ mb'.Maps := by
  unfold MapBase.add
  by_cases new : ((mb.base.ev e).evEvents.isIo && !decide (e ∈ mb.base.inserted)) = true
  swap
  · rw [if_neg new]
    exact ⟨mb, rfl, Or.inl (if_neg new).symm, h⟩
  rw [if_pos new]
  obtain ⟨io, out⟩ := Bool.and_eq_true_iff.mp new
  rw [Bool.not_eq_true', decide_eq_false_iff_not] at out
  have range := h.range e io
  obtain ⟨r, entered, m, epoll, run, added, view⟩ :=
    evmapIoAdd_spec (d := (mb.base.ev e).ioDesc) (epollOps opened reject) memory e mb.io
      mb.base.epoll range.1
  simp only [ioDesc_evFd] at added view
  simp only [run, Option.bind_eq_bind, Option.bind_some, Option.pure_def]
  refine ⟨_, rfl, ?_⟩
  have listed {b' : Base} (eq : b' = (mb.base.evmapIoAdd opened reject e).getD mb.base) :
      (MapCall.add opened reject memory e).Means mb.base b' :=
    Or.inl (eq.trans (if_pos new).symm)
  rw [Base.evmapIoAdd_eq] at listed
  have old := h.old (mb.base.ev e).evFd.toNat
  rw [h.slot io] at old
  have first := h.first io
  have answers (told : ((mb.io.slotAt (mb.base.ev e).evFd.toNat).first
      (mb.base.ev e).ioDesc).isSet = true) :
      (mb.base.newEvents e).isSet = true ∧
        (epollOps opened reject).add mb.base.epoll (mb.base.ev e).evFd
            (mb.io.slotAt (mb.base.ev e).evFd.toNat).old
            ((mb.io.slotAt (mb.base.ev e).evFd.toNat).first (mb.base.ev e).ioDesc) false =
          if opened (mb.base.ev e).evFd = true ∧ reject = none then
            (true, Function.update mb.base.epoll (mb.base.ev e).evFd
              (some ((mb.base.oldEvents (mb.base.ev e).evFd).union (mb.base.newEvents e))))
          else (false, mb.base.epoll) := by
    rw [isSet_toEpoll rfl, first] at told
    refine ⟨told, ?_⟩
    rw [epollOps_add _ _ _ (by rw [first]; exact told), old, first]
  cases added with
  | noMemory full empty =>
      have small : (mb.base.ev e).evFd.toNat < 2 ^ 27 := by omega
      have short : memory ≠ {} := by
        rintro rfl
        exact full ⟨rfl, rfl, small⟩
      have slot : mb.base.evmapIo (mb.base.ev e).evFd = [] := by
        rw [← h.slot io, ← h.slots, empty]
      exact ⟨Or.inr ⟨⟨short, slot⟩, (h.act_refused opened reject memory io empty).symm⟩,
        h.sameSlots view⟩
  | noRoom full =>
      have admits : ¬ mb.base.Admits opened reject e := by
        intro admits
        exact full ((h.room io).mpr ⟨admits.1, admits.2.1⟩)
      rw [if_neg admits] at listed
      exact ⟨listed rfl, h.sameSlots view⟩
  | refused told room answer =>
      obtain ⟨set, eq⟩ := answers told
      replace eq := eq.symm.trans answer
      by_cases accept : opened (mb.base.ev e).evFd = true ∧ reject = none
      · rw [if_pos accept] at eq
        cases (Prod.mk.inj eq).1
      · rw [if_neg accept] at eq
        obtain ⟨-, rfl⟩ := Prod.mk.inj eq
        have admits : ¬ mb.base.Admits opened reject e := fun admits => accept (admits.2.2 set)
        rw [if_neg admits] at listed
        exact ⟨listed rfl, h.sameSlots view⟩
  | counted quiet room =>
      rw [isSet_toEpoll rfl, first] at quiet
      obtain ⟨read, write⟩ := (h.room io).mp room
      have quiet' : ¬ (mb.base.newEvents e).isSet = true := by rw [quiet]; exact Bool.false_ne_true
      have admits : mb.base.Admits opened reject e :=
        ⟨read, write, fun set => absurd set quiet'⟩
      rw [if_pos admits] at listed
      unfold Base.epollAfterAdd at listed
      rw [if_neg quiet'] at listed
      exact ⟨listed rfl, h.entered io out room _ view⟩
  | told told room answer =>
      obtain ⟨set, eq⟩ := answers told
      replace eq := eq.symm.trans answer
      by_cases accept : opened (mb.base.ev e).evFd = true ∧ reject = none
      · rw [if_pos accept] at eq
        obtain ⟨-, rfl⟩ := Prod.mk.inj eq
        obtain ⟨read, write⟩ := (h.room io).mp room
        have admits : mb.base.Admits opened reject e := ⟨read, write, fun _ => accept⟩
        rw [if_pos admits] at listed
        unfold Base.epollAfterAdd at listed
        rw [if_pos set] at listed
        exact ⟨listed rfl, h.entered io out room _ view⟩
      · rw [if_neg accept] at eq
        cases (Prod.mk.inj eq).1

theorem erase_eq_unlink {l : List EvId} (nodup : l.Nodup) (e : EvId) :
    l.erase e = unlink l e := by
  rw [nodup.erase_eq_filter]
  unfold unlink
  refine List.filter_congr ?_
  intro x _
  show (!decide (x = e)) = decide ¬ x = e
  rw [decide_not]

/-- The slots of a base with an event less on its list. -/
theorem evmapIo_unlink (b : Base) (epoll : Fd → Option EpollEvents) (e : EvId) (fd : Fd) :
    ({ b with inserted := unlink b.inserted e, epoll := epoll } : Base).evmapIo fd =
      unlink (b.evmapIo fd) e := by
  unfold Base.evmapIo unlink
  rw [List.filter_filter, List.filter_filter]
  refine List.filter_congr ?_
  intro x _
  exact Bool.and_comm _ _

/-- **`evmap_io_del_` on the map is the one of `Base`.** -/
theorem del (h : mb.Maps) (opened : Fd → Bool) (e : EvId) :
    ∃ mb', mb.del opened e = some mb' ∧
      mb'.base = (MapCall.del opened e).act mb.base ∧ mb'.Maps := by
  unfold MapBase.del MapCall.act
  by_cases listed : ((mb.base.ev e).evEvents.isIo && decide (e ∈ mb.base.inserted)) = true
  swap
  · rw [if_neg listed]
    simp only [if_neg listed]
    exact ⟨mb, rfl, rfl, h⟩
  rw [if_pos listed]
  simp only [if_pos listed]
  obtain ⟨io, mem⟩ := Bool.and_eq_true_iff.mp listed
  rw [decide_eq_true_eq] at mem
  have on : mb.view.inserted e = true := by
    show (decide _ && _) = true
    rw [decide_eq_true mem, Bool.true_and, io]
  have range := h.range e io
  have nonneg : 0 ≤ (mb.view.desc e).evFd := range.1
  obtain ⟨r, m, run, view⟩ :=
    evmapIoDel_spec (epollOps opened none) mb.base.epoll nonneg
      (h.ok.slots _) (h.ok.has e on range.1)
  have run' : SwiftEvent.evmapIoDel (epollOps opened none) (mb.base.ev e).ioDesc e mb.io
      mb.base.epoll = some (r, m, mb.base.epollAfterDel opened e) := by
    refine run.trans ?_
    have old := h.old (mb.base.ev e).evFd.toNat
    rw [h.slot io] at old
    have last := h.last io
    congr 3
    show (if ((mb.io.slotAt (mb.base.ev e).evFd.toNat).last (mb.base.ev e).ioDesc).isSet then
        Function.update mb.base.epoll (mb.base.ev e).evFd (epollNochangelistDel
          (opened (mb.base.ev e).evFd) (mb.base.epoll (mb.base.ev e).evFd)
          (mb.io.slotAt (mb.base.ev e).evFd.toNat).old.toEpoll
          ((mb.io.slotAt (mb.base.ev e).evFd.toNat).last (mb.base.ev e).ioDesc).toEpoll).2
      else mb.base.epoll) = _
    rw [isSet_toEpoll rfl, last, old]
    unfold Base.epollAfterDel
    by_cases told : (mb.base.lastEvents e).isSet = true
    · rw [if_pos told, epollNochangelistDel_eq _ _ _ _ told]
      by_cases op : opened (mb.base.ev e).evFd = true
      · rw [if_pos op, if_pos ⟨told, op⟩]
      · rw [if_neg op, if_neg fun both => op both.2, Function.update_eq_self]
    · rw [if_neg told, if_neg fun both => told both.1]
  simp only [run', Option.bind_eq_bind, Option.bind_some, Option.pure_def]
  refine ⟨_, rfl, (Base.evmapIoDel_eq _ _ _).symm, ?_, ?_, h.range⟩
  · have flags := view_inserted (unlink mb.base.inserted e) false io (by
      intro x
      by_cases eq : x = e <;> simp [eq])
    have ok := h.ok.left on range.1 (b := mb.base.epollAfterDel opened e) view
    rw [← flags] at ok
    exact ok
  · intro fd
    refine Eq.trans ?_ (evmapIo_unlink mb.base _ e fd).symm
    show (m.slotAt fd).events = _
    rw [view]
    by_cases eq : fd = (mb.view.desc e).evFd.toNat
    · rw [eq, Function.update_self, ← eq, ← h.slots]
      exact erase_eq_unlink (h.ok.slots fd).nodup e
    · rw [Function.update_of_ne eq, ← h.slots, unlink_of_notMem]
      · rfl
      · intro here
        have onFd := (h.ok.slots fd).onFd e here
        exact eq (by rw [onFd, Int.toNat_natCast])

/-- What leaves the listed events of descriptors alone. -/
theorem other (h : mb.Maps) {b : Base} (desc : ∀ e, (b.ev e).ioDesc = (mb.base.ev e).ioDesc)
    (listed : b.ioInserted = mb.base.ioInserted) : MapBase.Maps ⟨b, mb.io⟩ := by
  have isIo (e : EvId) : (b.ev e).evEvents.isIo = (mb.base.ev e).evEvents.isIo := by
    rw [← Event.ioDesc_isSet, ← Event.ioDesc_isSet, desc]
  have evFd (e : EvId) : (b.ev e).evFd = (mb.base.ev e).evFd := congrArg IoDesc.evFd (desc e)
  have flags (e : EvId) : (decide (e ∈ b.inserted) && (b.ev e).evEvents.isIo) =
      (decide (e ∈ mb.base.inserted) && (mb.base.ev e).evEvents.isIo) := by
    have mem : e ∈ b.ioInserted ↔ e ∈ mb.base.ioInserted := by rw [listed]
    unfold Base.ioInserted at mem
    rw [List.mem_filter, List.mem_filter] at mem
    rw [Bool.eq_iff_iff, Bool.and_eq_true, Bool.and_eq_true, decide_eq_true_eq,
      decide_eq_true_eq]
    exact mem
  refine ⟨⟨?_, ?_⟩, ?_, ?_⟩
  · intro fd
    exact (h.ok.slots fd).congr fun e _ => ⟨desc e, flags e⟩
  · intro e on nonneg
    show e ∈ (mb.io.slotAt (b.ev e).evFd.toNat).events
    rw [evFd]
    refine h.ok.has e ((flags e).symm.trans on) ?_
    show 0 ≤ (mb.base.ev e).evFd
    rw [← evFd]
    exact nonneg
  · intro fd
    rw [h.slots, Base.evmapIo_eq, Base.evmapIo_eq, listed]
    refine List.filter_congr ?_
    intro e _
    rw [evFd]
  · intro e io
    rw [evFd]
    exact h.range e ((isIo e).symm.trans io)

/-- `event_assign` on an event that is not listed. -/
theorem assign (h : mb.Maps) (e : EvId) (v : Event)
    (range : v.evEvents.isIo = true → 0 ≤ v.evFd ∧ v.evFd < 2 ^ 27) (out : e ∉ mb.base.inserted) :
    MapBase.Maps { mb with base := { mb.base with ev := Function.update mb.base.ev e v } } := by
  have same {x : EvId} (mem : x ∈ mb.base.inserted) :
      Function.update mb.base.ev e v x = mb.base.ev x := by
    refine Function.update_of_ne ?_ _ _
    intro eq
    rw [eq] at mem
    exact out mem
  have flags (x : EvId) :
      (decide (x ∈ mb.base.inserted) && (Function.update mb.base.ev e v x).evEvents.isIo) =
        (decide (x ∈ mb.base.inserted) && (mb.base.ev x).evEvents.isIo) := by
    by_cases mem : x ∈ mb.base.inserted
    · rw [same mem]
    · rw [decide_eq_false mem, Bool.false_and, Bool.false_and]
  have listed {x : EvId} {fd : Nat} (here : x ∈ (mb.io.slotAt fd).events) :
      x ∈ mb.base.inserted := by
    rw [h.slots] at here
    exact (Base.mem_evmapIo.mp here).1
  refine ⟨⟨?_, ?_⟩, ?_, ?_⟩
  · intro fd
    refine (h.ok.slots fd).congr ?_
    intro x here
    exact ⟨congrArg Event.ioDesc (same (listed here)), flags x⟩
  · intro x on nonneg
    have on' : mb.view.inserted x = true := (flags x).symm.trans on
    have mem : x ∈ mb.base.inserted := of_decide_eq_true (Bool.and_eq_true_iff.mp on').1
    show x ∈ (mb.io.slotAt (Function.update mb.base.ev e v x).evFd.toNat).events
    have nonneg' : 0 ≤ (Function.update mb.base.ev e v x).evFd := nonneg
    rw [same mem] at nonneg' ⊢
    exact h.ok.has x on' nonneg'
  · intro fd
    rw [h.slots]
    unfold Base.evmapIo
    refine List.filter_congr ?_
    intro x mem
    show _ = ((Function.update mb.base.ev e v x).evEvents.isIo &&
      (Function.update mb.base.ev e v x).evFd == _)
    rw [same mem]
  · intro x io
    have io' : (Function.update mb.base.ev e v x).evEvents.isIo = true := io
    show 0 ≤ (Function.update mb.base.ev e v x).evFd ∧ (Function.update mb.base.ev e v x).evFd < _
    by_cases eq : x = e
    · rw [eq, Function.update_self] at io' ⊢
      exact range io'
    · rw [Function.update_of_ne eq] at io' ⊢
      exact h.range x io'

/-- The events `evmap_io_active_` finds are those of the list. -/
theorem evmapIoEvents_eq (h : mb.Maps) (fd : Fd) : evmapIoEvents mb.io fd = mb.base.evmapIo fd := by
  have none_of (no : ∀ e, e ∉ mb.base.evmapIo fd) : [] = mb.base.evmapIo fd :=
    (List.eq_nil_iff_forall_not_mem.mpr no).symm
  unfold evmapIoEvents
  by_cases neg : fd < 0
  · rw [if_pos (Or.inl neg)]
    refine none_of ?_
    intro e mem
    obtain ⟨-, io, here⟩ := Base.mem_evmapIo.mp mem
    rw [← here] at neg
    exact absurd (h.range e io).1 (not_le.mpr neg)
  obtain ⟨n, rfl⟩ := Int.eq_ofNat_of_zero_le (not_lt.mp neg)
  by_cases out : (mb.io.nentries : Int) ≤ n
  · rw [if_pos (Or.inr out), ← h.slots]
    unfold EventIoMap.slotAt
    rw [if_neg (by omega)]
  · have bounds : ¬ ((n : Int) < 0 ∨ (mb.io.nentries : Int) ≤ n) := not_or.mpr ⟨neg, out⟩
    rw [if_neg bounds, ← h.slots, Int.toNat_natCast]
    unfold EventIoMap.slotAt
    rw [if_pos (by omega)]
    cases mb.io.entries n with
    | none => rfl
    | some ctx => rfl

/-- **`epoll_dispatch` on the map is the one of `Base`.** -/
theorem dispatch (ready : List (Fd × Base.EpollReport)) : ∀ {mb : MapBase}, mb.Maps →
    (mb.epollDispatch ready).base = mb.base.epollDispatch ready ∧
      (mb.epollDispatch ready).Maps := by
  induction ready with
  | nil =>
      intro mb h
      exact ⟨rfl, h⟩
  | cons r ready ih =>
      intro mb h
      have eq : mb.evmapIoActive r.1 r.2.toEvs = mb.base.evmapIoActive r.1 r.2.toEvs := by
        unfold MapBase.evmapIoActive Base.evmapIoActive
        rw [h.evmapIoEvents_eq]
      have h' : MapBase.Maps ⟨mb.base.evmapIoActive r.1 r.2.toEvs, mb.io⟩ := by
        have act := Base.activates_evmapIoActive mb.base r.1 r.2.timeout_toEvs
        refine h.other ?_ ?_
        · intro e
          obtain ⟨fd, events, -⟩ := Event.shape_eq (act.shape e)
          unfold Event.ioDesc
          rw [fd, events]
        · unfold Base.ioInserted
          rw [act.inserted]
          refine List.filter_congr ?_
          intro e _
          rw [(Event.shape_eq (act.shape e)).2.1]
      show (MapBase.epollDispatch ⟨mb.evmapIoActive r.1 r.2.toEvs, mb.io⟩ ready).base =
          (mb.base.evmapIoActive r.1 r.2.toEvs).epollDispatch ready ∧
        (MapBase.epollDispatch ⟨mb.evmapIoActive r.1 r.2.toEvs, mb.io⟩ ready).Maps
      rw [eq]
      exact ih h'

/-- One call on the base with its map is the call on the base. -/
theorem step (h : mb.Maps) (c : MapCall) (allowed : c.Allowed mb) :
    ∃ mb', MapCall.step mb c = some mb' ∧ mb'.Maps ∧ c.Means mb.base mb'.base := by
  cases c with
  | assign e v => exact ⟨_, rfl, h.assign e v allowed.2 allowed.1, Or.inl rfl⟩
  | add opened reject memory e =>
      obtain ⟨mb', run, means, maps⟩ := h.add opened reject memory e
      exact ⟨mb', run, maps, means⟩
  | del opened e =>
      obtain ⟨mb', run, base, maps⟩ := h.del opened e
      exact ⟨mb', run, maps, Or.inl base⟩
  | dispatch ready => exact ⟨_, rfl, (h.dispatch ready).2, Or.inl (h.dispatch ready).1⟩
  | other f apart => exact ⟨_, rfl, h.other (apart mb.base).1 (apart mb.base).2, Or.inl rfl⟩

end MapBase.Maps

/-- A new base with an empty map. -/
theorem maps_new {pipeFd : Fd} (pipe : 0 ≤ pipeFd ∧ pipeFd < 2 ^ 27) :
    MapBase.Maps ⟨Base.new pipeFd, .init⟩ := by
  refine ⟨⟨?_, ?_⟩, ?_, ?_⟩
  · intro fd
    exact slotOk_empty fd
  · intro e on
    exact absurd on Bool.false_ne_true
  · intro fd
    rfl
  · intro e io
    cases e with
    | signalPipe => exact pipe
    | call n => exact absurd io Bool.false_ne_true

/-- **The base with its map refines `Base`.**  Whatever is done to a new base, no
access leaves the array and no assertion fails, and the base changes as the one
does that only lists its events: the slots hold what it lists, and the
multiplexer is told what it tells it.  An addition for which there is no memory
is one that the multiplexer refuses. -/
theorem base_evmap_refines {pipeFd : Fd} (pipe : 0 ≤ pipeFd ∧ pipeFd < 2 ^ 27)
    (cs : List MapCall)
    (allowed : StepSystem.Meets MapCall.step MapCall.Allowed ⟨Base.new pipeFd, .init⟩ cs) :
    ∃ mb, StepSystem.run MapCall.step ⟨Base.new pipeFd, .init⟩ cs = some mb ∧ mb.Maps ∧
      StepSystem.Runs MapCall.Means (Base.new pipeFd) cs mb.base := by
  have keep : ∀ (mb : MapBase) (c : MapCall), mb.Maps → c.Allowed mb →
      ∃ mb', MapCall.step mb c = some mb' ∧ mb'.Maps ∧ c.Means mb.base mb'.base := by
    intro mb c h ok
    exact h.step c ok
  exact StepSystem.run_simulates MapBase.base keep (maps_new pipe) cs allowed

/-- Two events on one descriptor, of which the first is deleted, after an
addition for which there was no memory. -/
theorem base_evmap_two_events :
    ∃ mb, StepSystem.run MapCall.step ⟨Base.new 3, .init⟩
        [.assign (.call 0) { evFd := 40, evEvents := { read := true } },
          .assign (.call 1) { evFd := 40, evEvents := { read := true, write := true } },
          .add (fun _ => true) none { calloc := false } (.call 0),
          .add (fun _ => true) none {} (.call 0), .add (fun _ => true) none {} (.call 1),
          .del (fun _ => true) (.call 0)] = some mb ∧ mb.Maps ∧
      StepSystem.Runs MapCall.Means (Base.new 3)
        [.assign (.call 0) { evFd := 40, evEvents := { read := true } },
          .assign (.call 1) { evFd := 40, evEvents := { read := true, write := true } },
          .add (fun _ => true) none { calloc := false } (.call 0),
          .add (fun _ => true) none {} (.call 0), .add (fun _ => true) none {} (.call 1),
          .del (fun _ => true) (.call 0)] mb.base := by
  refine base_evmap_refines ⟨by decide, by decide⟩ _ ?_
  refine ⟨⟨List.not_mem_nil, fun _ => ⟨by decide, by decide⟩⟩, ?_⟩
  rintro _ ⟨⟩
  refine ⟨⟨List.not_mem_nil, fun _ => ⟨by decide, by decide⟩⟩, ?_⟩
  rintro _ ⟨⟩
  refine ⟨trivial, ?_⟩
  intro _ _
  refine ⟨trivial, ?_⟩
  intro _ _
  refine ⟨trivial, ?_⟩
  intro _ _
  refine ⟨trivial, ?_⟩
  intro _ _
  trivial

end Maps

end SwiftEvent
