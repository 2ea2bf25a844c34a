import SwiftEvent.Evmap

/-!
# The changelist

With `EVENT_BASE_FLAG_EPOLL_USE_CHANGELIST` the backend of `epoll.c` is not told
of an addition or a deletion when it happens: `event_changelist_add_` and
`event_changelist_del_` of `evmap.c` note it in a list with one entry for each
descriptor, and `epoll_dispatch` applies the list before it waits.  An entry is
found by an index kept behind the slot of its descriptor.

A failed `EVUTIL_ASSERT` and an access past the end of the list are `none`.

* `Indexed` — what `event_changelist_assert_ok` asserts.
* `Pends` — how the list, the interest list and the slots fit together: applying
  what pends leaves the kernel watching what the slots want.
* `changelist_agrees` — whatever is done, the slots are those of a base that
  tells the kernel at once, and at every `epoll_dispatch` so is the interest list.
-/

namespace SwiftEvent

/-- The kernel's side: the descriptors that are open, the `errno` with which it
refuses to watch one for more, and the interest list. -/
structure Interest where
  opened : Fd → Bool
  reject : Fd → Option Errno := fun _ => none
  epoll : Fd → Option EpollMask

namespace Interest

variable (k : Interest)

/-- `epoll_apply_one_change`. -/
def apply (ch : EventChange) : Bool × Interest :=
  let r := epollApplyChange (k.opened ch.fd) (k.reject ch.fd) (k.epoll ch.fd) ch
  (r.1, { k with epoll := Function.update k.epoll ch.fd r.2 })

/-- `close(2)` of a descriptor no other refers to the same file as. -/
def close (fd : Fd) : Interest :=
  { k with
    opened := Function.update k.opened fd false
    epoll := Function.update k.epoll fd none }

/-- A call that makes the descriptor. -/
def create (fd : Fd) : Interest := { k with opened := Function.update k.opened fd true }

/-- From now on the kernel refuses the descriptor, or does so no longer. -/
def refuse (fd : Fd) (errno : Option Errno) : Interest :=
  { k with reject := Function.update k.reject fd errno }

end Interest

/-- `EV_CHANGE_ADD` or `EV_CHANGE_DEL`, with `events & EV_ET`, if the event is
among those that change. -/
def ChangeField.told (kind : Change) (et told : Bool) : ChangeField :=
  if told then ⟨kind, et⟩ else {}

/-- The `struct event_change` of `epoll_nochangelist_add` and `epoll_nochangelist_del`. -/
def nochangelistChange (kind : Change) (fd : Fd) (old events : IoEvents) (et : Bool) :
    EventChange where
  fd := fd
  oldEvents := old
  readChange := .told kind et events.read
  writeChange := .told kind et events.write
  closeChange := .told kind et events.closed

/-- `epollops`. -/
def epollopsNochangelist : Eventop Interest where
  add k fd old events et := k.apply (nochangelistChange .add fd old events et)
  del k fd old events et := k.apply (nochangelistChange .del fd old events et)

/-- `struct event_changelist` with `changes_size`, the `idxplus1` behind each slot
and the kernel. -/
structure EventChangelist where
  changes : List EventChange := []
  changesSize : Nat := 0
  idxplus1 : Fd → Nat := fun _ => 0
  kernel : Interest

namespace EventChange

variable (ch : EventChange)

/-- What `event_changelist_add_` writes into the entry. -/
def added (events : IoEvents) (et : Bool) : EventChange :=
  { ch with
    readChange := if events.read then ⟨.add, et⟩ else ch.readChange
    writeChange := if events.write then ⟨.add, et⟩ else ch.writeChange
    closeChange := if events.closed then ⟨.add, et⟩ else ch.closeChange }

/-- What `event_changelist_del_` writes into the entry: what was not registered
before needs no deletion. -/
def deleted (events : IoEvents) (et : Bool) : EventChange :=
  { ch with
    readChange :=
      if events.read then if !ch.oldEvents.read then {} else ⟨.del, et⟩ else ch.readChange
    writeChange :=
      if events.write then if !ch.oldEvents.write then {} else ⟨.del, et⟩ else ch.writeChange
    closeChange :=
      if events.closed then if !ch.oldEvents.closed then {} else ⟨.del, et⟩
      else ch.closeChange }

end EventChange

namespace EventChangelist

variable (c : EventChangelist)

/-- `event_changelist_grow`. -/
def grow (realloc : Bool) : Option EventChangelist :=
  if realloc then
    some { c with changesSize := if c.changesSize < 64 then 64 else c.changesSize * 2 }
  else none

/-- The list with room for one change more. -/
def withRoom (realloc : Bool) : Option EventChangelist :=
  if c.changes.length = c.changesSize then c.grow realloc else some c

/-- `event_changelist_get_or_construct`: the index of the entry; the inner `none`
is the null pointer. -/
def getOrConstruct (realloc : Bool) (fd : Fd) (old : IoEvents) :
    Option (Option (EventChangelist × Nat)) :=
  if c.idxplus1 fd = 0 then
    if c.changesSize < c.changes.length then none
    else
      match c.withRoom realloc with
      | none => some none
      | some c =>
          some (some ({ c with
            changes := c.changes ++ [{ fd, oldEvents := old }]
            idxplus1 := Function.update c.idxplus1 fd (c.changes.length + 1) },
            c.changes.length))
  else
    match c.changes[c.idxplus1 fd - 1]? with
    | none => none
    | some ch => if ch.fd = fd then some (some (c, c.idxplus1 fd - 1)) else none

/-- `event_changelist_add_` and `event_changelist_del_`, by what they write into
the entry. -/
def change (realloc : Bool) (fd : Fd) (old : IoEvents) (write : EventChange → EventChange) :
    Option (Bool × EventChangelist) := do
  match ← c.getOrConstruct realloc fd old with
  | none => return (false, c)
  | some (c, i) => return (true, { c with changes := c.changes.modify i write })

/-- `event_changelist_add_`. -/
def add (realloc : Bool) (fd : Fd) (old events : IoEvents) (et : Bool) :
    Option (Bool × EventChangelist) :=
  c.change realloc fd old fun ch => ch.added events et

/-- `event_changelist_del_`. -/
def del (realloc : Bool) (fd : Fd) (old events : IoEvents) (et : Bool) :
    Option (Bool × EventChangelist) :=
  c.change realloc fd old fun ch => ch.deleted events et

/-- The loop of `event_changelist_remove_all_` from the index on. -/
def clearIndices : Nat → List EventChange → (Fd → Nat) → Option (Fd → Nat)
  | _, [], idxplus1 => some idxplus1
  | i, ch :: changes, idxplus1 =>
      if idxplus1 ch.fd = i + 1 then
        clearIndices (i + 1) changes (Function.update idxplus1 ch.fd 0)
      else none

/-- `event_changelist_remove_all_`. -/
def removeAll : Option EventChangelist := do
  let idxplus1 ← clearIndices 0 c.changes c.idxplus1
  return { c with changes := [], idxplus1 }

/-- `epoll_apply_changes`. -/
def applyChanges : Bool × Interest :=
  c.changes.foldl (fun r ch => (r.1 && (r.2.apply ch).1, (r.2.apply ch).2)) (true, c.kernel)

/-- `epoll_dispatch` up to `epoll_wait(2)`. -/
def dispatch : Option EventChangelist :=
  removeAll { c with kernel := c.applyChanges.2 }

/-- `event_changelist_assert_ok`, over the slots of a map with `nentries` entries. -/
def assertOk (nentries : Nat) : Bool :=
  decide (c.changes.length ≤ c.changesSize) &&
    (List.range c.changes.length).all (fun i =>
      match c.changes[i]? with
      | none => false
      | some ch => decide (0 ≤ ch.fd) && c.idxplus1 ch.fd == i + 1) &&
    (List.range nentries).all fun fd =>
      c.idxplus1 fd == 0 ||
        match c.changes[c.idxplus1 fd - 1]? with
        | none => false
        | some ch => ch.fd == fd

end EventChangelist

/-- `epollops_changelist`; `none` is a failed assertion. -/
def epollopsChangelist (realloc : Bool) : Eventop (Option EventChangelist) where
  add c fd old events et :=
    match c.bind fun c => c.add realloc fd old events et with
    | none => (false, none)
    | some (ok, c) => (ok, some c)
  del c fd old events et :=
    match c.bind fun c => c.del realloc fd old events et with
    | none => (false, none)
    | some (ok, c) => (ok, some c)

/-! ## What the program does -/

/-- What is done to a base, its descriptors included; `grow` is whether
`event_changelist_grow` finds memory.  No descriptor is a duplicate of another. -/
inductive FdCall (α : Type)
  | assign (ev : α) (d : IoDesc)
  | add (memory : Memory) (grow : Bool) (ev : α)
  | del (grow : Bool) (ev : α)
  | create (fd : Fd)
  | close (fd : Fd)
  | refuse (fd : Fd) (errno : Option Errno)
  | dispatch

section Steps

variable {α : Type} [DecidableEq α]

/-- The call on a base that tells the kernel at once. -/
def nochangelistStep (s : IoBase α Interest) : FdCall α → Option (IoBase α Interest)
  | .assign ev d => some (s.assign ev d)
  | .add memory _ ev => s.add epollopsNochangelist memory ev
  | .del _ ev => s.del epollopsNochangelist ev
  | .create fd => some { s with backend := s.backend.create fd }
  | .close fd => some { s with backend := s.backend.close fd }
  | .refuse fd errno => some { s with backend := s.backend.refuse fd errno }
  | .dispatch => some s

/-- What the kernel does under a changelist. -/
def EventChangelist.inKernel (f : Interest → Interest) (c : EventChangelist) : EventChangelist :=
  { c with kernel := f c.kernel }

/-- The call on a base with a changelist. -/
def changelistStep (s : IoBase α (Option EventChangelist)) :
    FdCall α → Option (IoBase α (Option EventChangelist))
  | .assign ev d => some (s.assign ev d)
  | .add memory grow ev => s.add (epollopsChangelist grow) memory ev
  | .del grow ev => s.del (epollopsChangelist grow) ev
  | .create fd =>
      some { s with backend := s.backend.map (EventChangelist.inKernel (·.create fd)) }
  | .close fd =>
      some { s with backend := s.backend.map (EventChangelist.inKernel (·.close fd)) }
  | .refuse fd errno =>
      some { s with backend := s.backend.map (EventChangelist.inKernel (·.refuse fd errno)) }
  | .dispatch => some { s with backend := s.backend.bind EventChangelist.dispatch }

end Steps

/-! ## One entry -/

/-- The field leaves the event as it is wanted, and carries `EV_ET` as every
change on the descriptor does. -/
structure ChangeField.Fits (f : ChangeField) (et old want : Bool) : Prop where
  leaves : f.kind.leaves old = want
  edge : f.et = (f.kind != .none && et)

theorem Change.leaves_none (old : Bool) : Change.none.leaves old = old := by
  cases old <;> rfl

namespace ChangeField.Fits

variable {f : ChangeField} {et old want : Bool}

theorem unchanged (et old : Bool) : ({} : ChangeField).Fits et old old :=
  ⟨Change.leaves_none old, rfl⟩

theorem added (h : f.Fits et old want) (told : Bool) :
    (if told then (⟨.add, et⟩ : ChangeField) else f).Fits et old (want || told) := by
  cases told with
  | true =>
      rw [if_pos rfl, Bool.or_true]
      exact ⟨rfl, rfl⟩
  | false =>
      rw [if_neg Bool.false_ne_true, Bool.or_false]
      exact h

theorem deleted (h : f.Fits et old want) (told : Bool) :
    (if told then if !old then ({} : ChangeField) else ⟨.del, et⟩ else f).Fits et old
      (want && !told) := by
  cases told with
  | true =>
      rw [if_pos rfl, Bool.not_true, Bool.and_false]
      cases old with
      | true => exact ⟨rfl, rfl⟩
      | false => exact ⟨rfl, rfl⟩
  | false =>
      rw [if_neg Bool.false_ne_true, Bool.not_false, Bool.and_true]
      exact h

/-- The change of a backend that is told at once. -/
theorem told_add (et old told : Bool) : (ChangeField.told .add et told).Fits et old (old || told) :=
  (unchanged et old).added told

theorem told_del (et old told : Bool) :
    (ChangeField.told .del et told).Fits et old (old && !told) := by
  unfold ChangeField.told
  cases told with
  | true =>
      rw [if_pos rfl, Bool.not_true, Bool.and_false]
      exact ⟨rfl, rfl⟩
  | false =>
      rw [if_neg Bool.false_ne_true, Bool.not_false, Bool.and_true]
      exact unchanged et old

end ChangeField.Fits

/-- The entry makes what is wanted out of what the kernel watches: that is what
was registered when the entry was made, or nothing, once the descriptor has been
closed, and then the entry says something about all that was registered. -/
structure Awaits (et : Bool) (registered : Option EpollMask) (want : IoEvents)
    (ch : EventChange) : Prop where
  read : ch.readChange.Fits et ch.oldEvents.read want.read
  write : ch.writeChange.Fits et ch.oldEvents.write want.write
  close : ch.closeChange.Fits et ch.oldEvents.closed want.closed
  kernel : registered = ch.oldEvents.watched et ∨ registered = none ∧
    (ch.oldEvents.read = true → ch.readChange.kind ≠ .none) ∧
    (ch.oldEvents.write = true → ch.writeChange.kind ≠ .none) ∧
    (ch.oldEvents.closed = true → ch.closeChange.kind ≠ .none)

namespace Awaits

variable {et : Bool} {registered : Option EpollMask} {want old : IoEvents} {ch : EventChange}

theorem wanted (h : Awaits et registered want ch) : ch.wanted = want := by
  unfold EventChange.wanted IoEvents.changed
  rw [h.read.leaves, h.write.leaves, h.close.leaves]

/-- A new entry. -/
theorem fresh (et : Bool) (fd : Fd) (old : IoEvents) :
    Awaits et (old.watched et) old { fd, oldEvents := old } :=
  ⟨.unchanged _ _, .unchanged _ _, .unchanged _ _, Or.inl rfl⟩

theorem nochangelist_add (et : Bool) (fd : Fd) (old events : IoEvents) :
    Awaits et (old.watched et) (old.union events) (nochangelistChange .add fd old events et) :=
  ⟨.told_add _ _ _, .told_add _ _ _, .told_add _ _ _, Or.inl rfl⟩

theorem nochangelist_del (et : Bool) (fd : Fd) (old events : IoEvents) :
    Awaits et (old.watched et) (old.diff events) (nochangelistChange .del fd old events et) :=
  ⟨.told_del _ _ _, .told_del _ _ _, .told_del _ _ _, Or.inl rfl⟩

/-- A field that has been written says something. -/
theorem kind_added {f : ChangeField} {o : Bool} (told : Bool) (speaks : o = true → f.kind ≠ .none) :
    o = true → (if told then (⟨.add, et⟩ : ChangeField) else f).kind ≠ .none := by
  cases told with
  | true => exact fun _ => by simp
  | false => exact speaks

theorem kind_deleted {f : ChangeField} {o : Bool} (told : Bool)
    (speaks : o = true → f.kind ≠ .none) :
    o = true →
      (if told then if !o then ({} : ChangeField) else ⟨.del, et⟩ else f).kind ≠ .none := by
  cases told with
  | true =>
      intro on
      rw [on]
      simp
  | false => exact speaks

/-- `event_changelist_add_` on the entry. -/
theorem added (h : Awaits et registered want ch) (events : IoEvents) :
    Awaits et registered (want.union events) (ch.added events et) := by
  refine ⟨h.read.added _, h.write.added _, h.close.added _, ?_⟩
  rcases h.kernel with here | ⟨gone, read, write, close⟩
  · exact Or.inl here
  · exact Or.inr ⟨gone, kind_added _ read, kind_added _ write, kind_added _ close⟩

/-- `event_changelist_del_` on the entry. -/
theorem deleted (h : Awaits et registered want ch) (events : IoEvents) :
    Awaits et registered (want.diff events) (ch.deleted events et) := by
  refine ⟨h.read.deleted _, h.write.deleted _, h.close.deleted _, ?_⟩
  rcases h.kernel with here | ⟨gone, read, write, close⟩
  · exact Or.inl here
  · exact Or.inr ⟨gone, kind_deleted _ read, kind_deleted _ write, kind_deleted _ close⟩

/-- The descriptor is closed when nothing is wanted of it. -/
theorem closed (h : Awaits et registered want ch) (idle : want.isSet = false) :
    Awaits et none want ch := by
  refine ⟨h.read, h.write, h.close, Or.inr ⟨rfl, ?_⟩⟩
  have off := idle
  unfold IoEvents.isSet at off
  rw [Bool.or_eq_false_iff, Bool.or_eq_false_iff] at off
  obtain ⟨⟨read, write⟩, close⟩ := off
  have speaks {f : ChangeField} {o w : Bool} (fits : f.Fits et o w) (off : w = false) :
      o = true → f.kind ≠ .none := by
    intro on kind
    have leaves := fits.leaves
    rw [kind, on, off] at leaves
    cases leaves
  exact ⟨speaks h.read read, speaks h.write write, speaks h.close close⟩

/-- Some field carries `EV_ET` if they are to and one says something. -/
theorem edge (h : Awaits et registered want ch) (changes : ch.Changes) : ch.edge = et := by
  unfold EventChange.edge
  rw [h.read.edge, h.write.edge, h.close.edge]
  have all : ∀ (read write close : Change) (et : Bool),
      ¬ (read = .none ∧ write = .none ∧ close = .none) →
      (read != .none && et || write != .none && et || close != .none && et) = et := by decide
  exact all _ _ _ _ changes

/-- **Applying the entry** leaves the kernel watching what is wanted. -/
theorem apply (h : Awaits et registered want ch) {reject : Option Errno}
    (accept : want.isSet = true → reject = none) :
    epollApplyChange true reject registered ch = (true, want.watched et) := by
  by_cases changes : ch.Changes
  · rw [← h.wanted] at accept
    rw [epollApplyChange_eq registered changes accept, h.wanted, h.edge changes]
  rw [epollApplyChange_of_not_changes true reject registered changes]
  obtain ⟨read, write, close⟩ := not_not.mp changes
  -- the entry is a no-op, so what was registered is what is wanted
  have same : want = ch.oldEvents := by
    rw [← h.wanted]
    unfold EventChange.wanted IoEvents.changed
    rw [read, write, close, Change.leaves_none, Change.leaves_none, Change.leaves_none]
  rcases h.kernel with here | ⟨gone, hr, hw, hc⟩
  · rw [here, same]
  · have none_set : ch.oldEvents.isSet = false := by
      unfold IoEvents.isSet
      rw [Bool.or_eq_false_iff, Bool.or_eq_false_iff]
      refine ⟨⟨?_, ?_⟩, ?_⟩
      · exact Bool.eq_false_iff.mpr fun on => hr on read
      · exact Bool.eq_false_iff.mpr fun on => hw on write
      · exact Bool.eq_false_iff.mpr fun on => hc on close
    rw [gone, same]
    unfold IoEvents.watched
    rw [if_neg (by rw [none_set]; exact Bool.false_ne_true)]

end Awaits

/-! ## The list and its indices -/

namespace EventChangelist

variable {c : EventChangelist} {fd : Fd}

/-- The entry of a descriptor, if there is one. -/
def pending (c : EventChangelist) (fd : Fd) : Option EventChange :=
  if c.idxplus1 fd = 0 then none else c.changes[c.idxplus1 fd - 1]?

/-- Every entry is where the index of its descriptor says, and every index leads
to an entry. -/
structure Indexed (c : EventChangelist) : Prop where
  room : c.changes.length ≤ c.changesSize
  entry : ∀ {i ch}, c.changes[i]? = some ch → 0 ≤ ch.fd ∧ c.idxplus1 ch.fd = i + 1
  index : ∀ fd, c.idxplus1 fd ≠ 0 →
    ∃ ch, c.changes[c.idxplus1 fd - 1]? = some ch ∧ ch.fd = fd

theorem indexed_new (kernel : Interest) : Indexed { kernel } where
  room := le_refl _
  entry := by
    intro i ch here
    cases here
  index := by
    intro fd ne
    exact absurd rfl ne

/-- Then `event_changelist_assert_ok` finds nothing wrong. -/
theorem Indexed.assertOk (h : c.Indexed) (nentries : Nat) : c.assertOk nentries = true := by
  unfold EventChangelist.assertOk
  rw [Bool.and_eq_true, Bool.and_eq_true, decide_eq_true_eq, List.all_eq_true,
    List.all_eq_true]
  refine ⟨⟨h.room, ?_⟩, ?_⟩
  · intro i mem
    have lt := List.mem_range.mp mem
    have here : c.changes[i]? = some c.changes[i] := List.getElem?_eq_getElem lt
    obtain ⟨nonneg, idx⟩ := h.entry here
    rw [here]
    simp only [idx, beq_self_eq_true, Bool.and_true]
    exact decide_eq_true nonneg
  · intro fd _
    by_cases zero : c.idxplus1 fd = 0
    · rw [zero]
      rfl
    · obtain ⟨ch, here, eq⟩ := h.index fd zero
      rw [here]
      simp only [eq, beq_self_eq_true, Bool.or_true]

theorem Indexed.pending_eq (h : c.Indexed) {ch : EventChange} :
    c.pending fd = some ch ↔ ch ∈ c.changes ∧ ch.fd = fd := by
  unfold pending
  constructor
  · intro eq
    by_cases zero : c.idxplus1 fd = 0
    · rw [if_pos zero] at eq
      cases eq
    · rw [if_neg zero] at eq
      obtain ⟨ch', here, same⟩ := h.index fd zero
      rw [here] at eq
      cases eq
      exact ⟨List.mem_of_getElem? here, same⟩
  · rintro ⟨mem, rfl⟩
    obtain ⟨i, here⟩ := List.mem_iff_getElem?.mp mem
    rw [(h.entry here).2, if_neg (Nat.succ_ne_zero i), Nat.add_sub_cancel, here]

/-- No descriptor has two entries. -/
theorem Indexed.nodup (h : c.Indexed) : (c.changes.map EventChange.fd).Nodup := by
  rw [List.nodup_iff_getElem?_ne_getElem?]
  intro i j lt bound same
  rw [List.length_map] at bound
  have hi : c.changes[i]? = some c.changes[i] := List.getElem?_eq_getElem (lt.trans bound)
  have hj : c.changes[j]? = some c.changes[j] := List.getElem?_eq_getElem bound
  rw [List.getElem?_map, List.getElem?_map, hi, hj] at same
  have fd : c.changes[i].fd = c.changes[j].fd := Option.some.inj same
  have idx := (h.entry hi).2
  rw [fd, (h.entry hj).2] at idx
  omega

/-- `event_changelist_get_or_construct` with memory: the entry of the descriptor,
or a new one. -/
theorem Indexed.getOrConstruct (h : c.Indexed) (nonneg : 0 ≤ fd) (old : IoEvents) :
    ∃ c' i, c.getOrConstruct true fd old = some (some (c', i)) ∧ c'.Indexed ∧
      c'.changes[i]? = some ((c.pending fd).getD { fd, oldEvents := old }) ∧
      c'.kernel = c.kernel ∧ ∀ x ≠ fd, c'.pending x = c.pending x := by
  unfold EventChangelist.getOrConstruct
  by_cases zero : c.idxplus1 fd = 0
  swap
  · -- the entry is found
    obtain ⟨ch, here, eq⟩ := h.index fd zero
    have pend : c.pending fd = some ch := by
      unfold pending
      rw [if_neg zero, here]
    rw [if_neg zero, here]
    simp only [if_pos eq]
    exact ⟨c, _, rfl, h, by rw [pend, here, Option.getD_some], rfl, fun x _ => rfl⟩
  have pend : c.pending fd = none := if_pos zero
  rw [if_pos zero, if_neg (not_lt.mpr h.room), pend, Option.getD_none]
  obtain ⟨size, room, grown⟩ : ∃ size, c.changes.length < size ∧
      c.withRoom true = some { c with changesSize := size } := by
    unfold withRoom grow
    by_cases full : c.changes.length = c.changesSize
    · rw [if_pos full, if_pos rfl]
      refine ⟨_, ?_, rfl⟩
      split_ifs <;> omega
    · rw [if_neg full]
      have := h.room
      exact ⟨c.changesSize, by omega, rfl⟩
  rw [grown]
  refine ⟨_, _, rfl, ⟨?_, ?_, ?_⟩, ?_, rfl, ?_⟩
  · show (c.changes ++ [_]).length ≤ size
    rw [List.length_append, List.length_singleton]
    exact room
  · intro i ch here
    have cases : c.changes[i]? = some ch ∨
        i = c.changes.length ∧ ch = { fd, oldEvents := old } := by
      rcases lt_trichotomy i c.changes.length with lt | eq | gt
      · left
        rw [← here]
        exact (List.getElem?_append_left lt).symm
      · right
        rw [eq] at here
        have last := here.symm.trans (List.getElem?_concat_length ..)
        exact ⟨eq, Option.some.inj last⟩
      · have none := List.getElem?_eq_none
          (show (c.changes ++ [({ fd, oldEvents := old } : EventChange)]).length ≤ i by
            rw [List.length_append, List.length_singleton]
            exact gt)
        exact absurd (here.symm.trans none) (by simp)
    rcases cases with here | ⟨rfl, rfl⟩
    · obtain ⟨nonneg', idx⟩ := h.entry here
      refine ⟨nonneg', ?_⟩
      show Function.update c.idxplus1 fd _ ch.fd = _
      rw [Function.update_of_ne, idx]
      intro eq
      rw [eq, zero] at idx
      omega
    · exact ⟨nonneg, Function.update_self ..⟩
  · intro x ne
    by_cases eq : x = fd
    · refine ⟨{ fd, oldEvents := old }, ?_, eq.symm⟩
      show (c.changes ++ [_])[Function.update c.idxplus1 fd _ x - 1]? = _
      rw [eq, Function.update_self, Nat.add_sub_cancel]
      exact List.getElem?_concat_length ..
    · have ne' : Function.update c.idxplus1 fd (c.changes.length + 1) x ≠ 0 := ne
      rw [Function.update_of_ne eq] at ne'
      obtain ⟨ch, here, same⟩ := h.index x ne'
      refine ⟨ch, ?_, same⟩
      show (c.changes ++ [_])[Function.update c.idxplus1 fd _ x - 1]? = _
      rw [Function.update_of_ne eq, ← here]
      exact List.getElem?_append_left (List.getElem?_eq_some_iff.mp here).1
  · exact List.getElem?_concat_length ..
  · intro x ne
    unfold pending
    show (if Function.update c.idxplus1 fd _ x = 0 then none
      else (c.changes ++ [_])[Function.update c.idxplus1 fd _ x - 1]?) = _
    rw [Function.update_of_ne ne]
    by_cases none : c.idxplus1 x = 0
    · rw [if_pos none, if_pos none]
    · obtain ⟨ch, here, -⟩ := h.index x none
      rw [if_neg none, if_neg none]
      exact List.getElem?_append_left (List.getElem?_eq_some_iff.mp here).1

/-- **`event_changelist_add_` and `event_changelist_del_`**, with memory: the
entry of the descriptor is written, and no other. -/
theorem Indexed.change (h : c.Indexed) (nonneg : 0 ≤ fd) (old : IoEvents)
    (write : EventChange → EventChange) (keeps : ∀ ch, (write ch).fd = ch.fd) :
    ∃ c', c.change true fd old write = some (true, c') ∧ c'.Indexed ∧ c'.kernel = c.kernel ∧
      c'.pending = Function.update c.pending fd
        (some (write ((c.pending fd).getD { fd, oldEvents := old }))) := by
  obtain ⟨c₁, i, run, h₁, here, kernel, others⟩ := h.getOrConstruct nonneg old
  unfold EventChangelist.change
  simp only [run, Option.bind_eq_bind, Option.bind_some, Option.pure_def]
  have modified (j : Nat) : (c₁.changes.modify i write)[j]? =
      (c₁.changes[j]?).map fun ch => if i = j then write ch else ch :=
    List.getElem?_modify write i c₁.changes j
  have fd_eq : ((c.pending fd).getD { fd, oldEvents := old }).fd = fd := by
    cases pend : c.pending fd with
    | none => rfl
    | some ch => exact (h.pending_eq.mp pend).2
  have idx : c₁.idxplus1 fd = i + 1 := by
    have := (h₁.entry here).2
    rw [fd_eq] at this
    exact this
  have origin {j : Nat} {ch : EventChange} (at_ : (c₁.changes.modify i write)[j]? = some ch) :
      ∃ ch₁, c₁.changes[j]? = some ch₁ ∧ ch.fd = ch₁.fd := by
    rw [modified] at at_
    obtain ⟨ch₁, before, eq⟩ := Option.map_eq_some_iff.mp at_
    refine ⟨ch₁, before, ?_⟩
    rw [← eq]
    split_ifs
    · exact keeps ch₁
    · rfl
  refine ⟨_, rfl, ⟨?_, ?_, ?_⟩, kernel, ?_⟩
  · show (c₁.changes.modify i write).length ≤ _
    rw [List.length_modify]
    exact h₁.room
  · intro j ch at_
    obtain ⟨ch₁, before, eq⟩ := origin at_
    show 0 ≤ ch.fd ∧ c₁.idxplus1 ch.fd = j + 1
    rw [eq]
    exact h₁.entry before
  · intro x ne
    obtain ⟨ch, before, eq⟩ := h₁.index x ne
    refine ⟨if i = c₁.idxplus1 x - 1 then write ch else ch, ?_, ?_⟩
    · show (c₁.changes.modify i write)[_]? = _
      rw [modified, before]
      rfl
    · split_ifs
      · rw [keeps, eq]
      · exact eq
  · funext x
    show (if c₁.idxplus1 x = 0 then none else (c₁.changes.modify i write)[c₁.idxplus1 x - 1]?) = _
    by_cases eq : x = fd
    · rw [eq, Function.update_self, idx, if_neg (Nat.succ_ne_zero i), Nat.add_sub_cancel, modified,
        here, Option.map_some, if_pos rfl]
    · rw [Function.update_of_ne eq, ← others x eq, modified]
      unfold pending
      by_cases zero : c₁.idxplus1 x = 0
      · rw [if_pos zero, if_pos zero]
      · obtain ⟨ch, before, fd_x⟩ := h₁.index x zero
        rw [if_neg zero, if_neg zero, before, Option.map_some, if_neg]
        intro same
        rw [← same, here] at before
        cases before
        exact eq (fd_x.symm.trans fd_eq)

/-- **`event_changelist_remove_all_`** leaves no entry and no index. -/
theorem Indexed.removeAll (h : c.Indexed) :
    c.removeAll = some { c with changes := [], idxplus1 := fun _ => 0 } := by
  -- the indices of the entries up to here are cleared, the others as they were
  have go : ∀ (changes : List EventChange) (i : Nat) (idxplus1 : Fd → Nat),
      (changes.map EventChange.fd).Nodup →
      (∀ j ch, changes[j]? = some ch → idxplus1 ch.fd = i + j + 1) →
      (∀ fd, idxplus1 fd ≠ 0 → fd ∈ changes.map EventChange.fd) →
      clearIndices i changes idxplus1 = some fun _ => 0 := by
    intro changes
    induction changes with
    | nil =>
        intro i idxplus1 _ _ all
        have zero : idxplus1 = fun _ => 0 := by
          funext fd
          by_contra ne
          exact absurd (all fd ne) List.not_mem_nil
        rw [zero]
        rfl
    | cons ch changes ih =>
        intro i idxplus1 nodup entry all
        rw [List.map_cons, List.nodup_cons] at nodup
        have first : idxplus1 ch.fd = i + 1 := entry 0 ch rfl
        unfold clearIndices
        rw [if_pos first]
        refine ih (i + 1) _ nodup.2 ?_ ?_
        · intro j ch' here
          have ne : ch'.fd ≠ ch.fd := by
            intro eq
            exact nodup.1 (eq ▸ List.mem_map_of_mem (List.mem_of_getElem? here))
          rw [Function.update_of_ne ne, entry (j + 1) ch' here]
          omega
        · intro fd ne
          by_cases eq : fd = ch.fd
          · rw [eq, Function.update_self] at ne
            exact absurd rfl ne
          · rw [Function.update_of_ne eq] at ne
            rcases List.mem_cons.mp (all fd ne) with same | mem
            · exact absurd same eq
            · exact mem
  have cleared := go c.changes 0 c.idxplus1 h.nodup
    (by
      intro j ch here
      rw [(h.entry here).2, Nat.zero_add])
    (by
      intro fd ne
      obtain ⟨ch, here, eq⟩ := h.index fd ne
      exact List.mem_map.mpr ⟨ch, List.mem_of_getElem? here, eq⟩)
  unfold EventChangelist.removeAll
  rw [cleared]
  rfl

end EventChangelist

/-- Changes of different descriptors do not meet. -/
theorem foldl_apply (changes : List EventChange) (nodup : (changes.map EventChange.fd).Nodup) :
    ∀ r : Bool × Interest,
      let k := (changes.foldl (fun r ch => (r.1 && (r.2.apply ch).1, (r.2.apply ch).2)) r).2
      k.opened = r.2.opened ∧ k.reject = r.2.reject ∧
        (∀ fd ∉ changes.map EventChange.fd, k.epoll fd = r.2.epoll fd) ∧
        ∀ ch ∈ changes, k.epoll ch.fd =
          (epollApplyChange (r.2.opened ch.fd) (r.2.reject ch.fd) (r.2.epoll ch.fd) ch).2 := by
  induction changes with
  | nil =>
      intro r
      exact ⟨rfl, rfl, fun _ _ => rfl, fun ch mem => absurd mem List.not_mem_nil⟩
  | cons ch changes ih =>
      intro r
      rw [List.map_cons, List.nodup_cons] at nodup
      obtain ⟨opened, reject, others, entries⟩ :=
        ih nodup.2 (r.1 && (r.2.apply ch).1, (r.2.apply ch).2)
      refine ⟨opened, reject, ?_, ?_⟩
      · intro fd out
        rw [List.map_cons, List.mem_cons, not_or] at out
        exact (others fd out.2).trans (Function.update_of_ne out.1 _ _)
      · intro ch' mem
        rcases List.mem_cons.mp mem with rfl | mem
        · exact (others _ nodup.1).trans (Function.update_self ..)
        · have ne : ch'.fd ≠ ch.fd := by
            intro eq
            exact nodup.1 (eq ▸ List.mem_map_of_mem mem)
          refine (entries ch' mem).trans ?_
          rw [show (r.2.apply ch).2.epoll ch'.fd = r.2.epoll ch'.fd from
            Function.update_of_ne ne _ _]
          rfl

/-! ## The two bases side by side -/

section Agree

variable {α : Type} [DecidableEq α] {et : Fd → Bool} {s s' : IoBase α Interest}
  {c c' : EventChangelist} {fd : Fd}

/-- The base with a changelist in the place of the kernel. -/
def IoBase.withList (s : IoBase α Interest) (c : EventChangelist) :
    IoBase α (Option EventChangelist) := ⟨s.desc, s.inserted, s.io, some c⟩

/-- The events a descriptor is waited for with. -/
def EventIoMap.want (m : EventIoMap α) (fd : Fd) : IoEvents :=
  if fd < 0 then {} else (m.slotAt fd.toNat).old

/-- What pends for a descriptor makes what is wanted out of what the kernel
watches. -/
def Pends (et : Bool) (registered : Option EpollMask) (want : IoEvents) :
    Option EventChange → Prop
  | none => registered = want.watched et
  | some ch => Awaits et registered want ch

/-- A base that tells the kernel at once, and the changelist of one that has seen
the same calls. -/
structure Agree (et : Fd → Bool) (s : IoBase α Interest) (c : EventChangelist) : Prop where
  ok : Integrity s
  /-- All events of a descriptor are edge-triggered, or none is. -/
  edge : ∀ ev, (s.desc ev).evEt = et (s.desc ev).evFd
  indexed : c.Indexed
  opened : c.kernel.opened = s.backend.opened
  reject : c.kernel.reject = s.backend.reject
  watched : ∀ fd, s.backend.epoll fd = (s.io.want fd).watched (et fd)
  pends : ∀ fd, Pends (et fd) (c.kernel.epoll fd) (s.io.want fd) (c.pending fd)
  /-- A descriptor that is not open is not waited for, and not registered. -/
  closed : ∀ fd, s.backend.opened fd = false →
    (s.io.want fd).isSet = false ∧ c.kernel.epoll fd = none
  /-- A descriptor that is waited for is not refused. -/
  accepts : ∀ fd, (s.io.want fd).isSet = true → s.backend.reject fd = none

/-- What may not happen: edge-triggered events and others on one descriptor, an
event of a descriptor that is not open or that the kernel refuses, a list that
cannot grow, and a close or a refusal of a descriptor that has an event. -/
def Proper (et : Fd → Bool) (s : IoBase α Interest) : FdCall α → Prop
  | .assign _ d => d.evEt = et d.evFd
  | .add _ grow ev => s.backend.opened (s.desc ev).evFd = true ∧
      s.backend.reject (s.desc ev).evFd = none ∧ grow = true
  | .del grow _ => grow = true
  | .close fd => ∀ ev, s.inserted ev = true → (s.desc ev).evFd ≠ fd
  | .refuse fd errno => errno = none ∨ ∀ ev, s.inserted ev = true → (s.desc ev).evFd ≠ fd
  | _ => True

omit [DecidableEq α] in
theorem want_update {m m' : EventIoMap α} {i : Nat} {ctx : EvmapIo α}
    (view : m'.slotAt = Function.update m.slotAt i ctx) :
    m'.want = Function.update m.want i ctx.old := by
  funext x
  unfold EventIoMap.want
  rw [view]
  by_cases neg : x < 0
  · have ne : x ≠ (i : Int) := by
      intro eq
      rw [eq] at neg
      exact absurd (Int.natCast_nonneg i) (not_le.mpr neg)
    rw [if_pos neg, Function.update_of_ne ne, if_pos neg]
  · obtain ⟨n, rfl⟩ := Int.eq_ofNat_of_zero_le (not_lt.mp neg)
    rw [if_neg neg, Int.toNat_natCast]
    by_cases eq : n = i
    · rw [eq, Function.update_self, Function.update_self]
    · have ne : (n : Int) ≠ i := by omega
      rw [Function.update_of_ne eq, Function.update_of_ne ne, if_neg neg, Int.toNat_natCast]

omit [DecidableEq α] in
theorem want_at (m : EventIoMap α) {fd : Fd} (nonneg : 0 ≤ fd) :
    m.want fd = (m.slotAt fd.toNat).old := by
  unfold EventIoMap.want
  rw [if_neg (not_lt.mpr nonneg)]

omit [DecidableEq α] in
theorem union_idle {old events : IoEvents} (idle : events.isSet = false) :
    old.union events = old := by
  unfold IoEvents.isSet at idle
  rw [Bool.or_eq_false_iff, Bool.or_eq_false_iff] at idle
  unfold IoEvents.union
  rw [idle.1.1, idle.1.2, idle.2, Bool.or_false, Bool.or_false, Bool.or_false]

omit [DecidableEq α] in
theorem diff_idle {old events : IoEvents} (idle : events.isSet = false) :
    old.diff events = old := by
  unfold IoEvents.isSet at idle
  rw [Bool.or_eq_false_iff, Bool.or_eq_false_iff] at idle
  unfold IoEvents.diff
  rw [idle.1.1, idle.1.2, idle.2, Bool.not_false, Bool.and_true, Bool.and_true, Bool.and_true]

omit [DecidableEq α] in
theorem watched_idle {want : IoEvents} (idle : want.isSet = false) (et : Bool) :
    want.watched et = none := by
  unfold IoEvents.watched
  rw [idle]
  rfl

namespace Agree

omit [DecidableEq α] in
/-- Only what is waited for by nobody has changed. -/
theorem quiet (h : Agree et s c) (ok : Integrity s')
    (edge : ∀ ev, (s'.desc ev).evEt = et (s'.desc ev).evFd) (backend : s'.backend = s.backend)
    (want : s'.io.want = s.io.want) : Agree et s' c := by
  refine ⟨ok, edge, h.indexed, ?_, ?_, ?_, ?_, ?_, ?_⟩
  · rw [backend]
    exact h.opened
  · rw [backend]
    exact h.reject
  · rw [backend, want]
    exact h.watched
  · rw [want]
    exact h.pends
  · rw [backend, want]
    exact h.closed
  · rw [backend, want]
    exact h.accepts

omit [DecidableEq α] in
/-- Both backends have been told of a change on an open descriptor. -/
theorem told (h : Agree et s c) (ok : Integrity s') (desc : s'.desc = s.desc)
    (op : s.backend.opened fd = true) (accept : s.backend.reject fd = none) {want : IoEvents}
    (wants : s'.io.want = Function.update s.io.want fd want) (ch : EventChange) (chFd : ch.fd = fd)
    (plain : Awaits (et fd) ((s.io.want fd).watched (et fd)) want ch)
    (backend : s'.backend = (s.backend.apply ch).2) (indexed : c'.Indexed)
    (kernel : c'.kernel = c.kernel) (write : EventChange → EventChange)
    (pending : c'.pending = Function.update c.pending fd
      (some (write ((c.pending fd).getD { fd, oldEvents := s.io.want fd }))))
    (writes : ∀ {registered ch}, Awaits (et fd) registered (s.io.want fd) ch →
      Awaits (et fd) registered want (write ch)) : Agree et s' c' := by
  have opened : s'.backend.opened = s.backend.opened := by
    rw [backend]
    rfl
  have reject : s'.backend.reject = s.backend.reject := by
    rw [backend]
    rfl
  refine ⟨ok, ?_, indexed, ?_, ?_, ?_, ?_, ?_, ?_⟩
  · rw [desc]
    exact h.edge
  · rw [kernel, opened]
    exact h.opened
  · rw [kernel, reject]
    exact h.reject
  · intro x
    rw [backend, wants]
    unfold Interest.apply
    rw [chFd]
    show Function.update s.backend.epoll fd _ x = _
    by_cases eq : x = fd
    · rw [eq, Function.update_self, Function.update_self, op, h.watched fd,
        plain.apply fun _ => accept]
    · rw [Function.update_of_ne eq, Function.update_of_ne eq]
      exact h.watched x
  · intro x
    rw [kernel, wants, pending]
    by_cases eq : x = fd
    · rw [eq, Function.update_self, Function.update_self]
      refine writes ?_
      have here := h.pends fd
      cases pend : c.pending fd with
      | none =>
          rw [pend] at here
          rw [Option.getD_none, show c.kernel.epoll fd = _ from here]
          exact Awaits.fresh _ _ _
      | some ch =>
          rw [pend] at here
          exact here
    · rw [Function.update_of_ne eq, Function.update_of_ne eq]
      exact h.pends x
  · intro x off
    rw [opened] at off
    have ne : x ≠ fd := by
      intro eq
      rw [eq, op] at off
      cases off
    rw [wants, kernel, Function.update_of_ne ne]
    exact h.closed x off
  · intro x set
    rw [reject]
    by_cases eq : x = fd
    · rw [eq]
      exact accept
    · rw [wants, Function.update_of_ne eq] at set
      exact h.accepts x set

omit [DecidableEq α] in
/-- The backend that is told at once accepts every event of an open descriptor. -/
theorem accepted (op : s.backend.opened fd = true) (accept : s.backend.reject fd = none)
    (old : IoEvents) {events : IoEvents}
    (set : events.isSet = true) (edge : Bool) :
    (epollopsNochangelist.add s.backend fd old events edge).1 = true := by
  have changes : (nochangelistChange .add fd old events edge).Changes := by
    have off {b : Bool} (kind : (ChangeField.told .add edge b).kind = .none) : b = false := by
      cases b with
      | true => cases kind
      | false => rfl
    rintro ⟨read, write, close⟩
    unfold IoEvents.isSet at set
    rw [off read, off write, off close] at set
    cases set
  show (epollApplyChange (s.backend.opened fd) (s.backend.reject fd) (s.backend.epoll fd) _).1 =
    true
  rw [op, epollApplyChange_eq _ changes fun _ => accept]

/-- So does the changelist, when it has memory. -/
theorem notes (h : c.Indexed) (nonneg : 0 ≤ fd) (old events : IoEvents) (edge : Bool) :
    ∃ c', (epollopsChangelist true).add (some c) fd old events edge = (true, some c') ∧
      c'.Indexed ∧ c'.kernel = c.kernel ∧ c'.pending = Function.update c.pending fd
        (some (((c.pending fd).getD { fd, oldEvents := old }).added events edge)) := by
  obtain ⟨c', run, rest⟩ :=
    h.change nonneg old (fun ch => ch.added events edge) fun _ => rfl
  refine ⟨c', ?_, rest⟩
  show (match (some c).bind fun c => c.add true fd old events edge with
    | none => (false, none)
    | some (ok, c) => (ok, some c) : Bool × Option EventChangelist) = _
  rw [Option.bind_some, show c.add true fd old events edge = _ from run]

theorem notesDel (h : c.Indexed) (nonneg : 0 ≤ fd) (old events : IoEvents) (edge : Bool) :
    ∃ c', (epollopsChangelist true).del (some c) fd old events edge = (true, some c') ∧
      c'.Indexed ∧ c'.kernel = c.kernel ∧ c'.pending = Function.update c.pending fd
        (some (((c.pending fd).getD { fd, oldEvents := old }).deleted events edge)) := by
  obtain ⟨c', run, rest⟩ :=
    h.change nonneg old (fun ch => ch.deleted events edge) fun _ => rfl
  refine ⟨c', ?_, rest⟩
  show (match (some c).bind fun c => c.del true fd old events edge with
    | none => (false, none)
    | some (ok, c) => (ok, some c) : Bool × Option EventChangelist) = _
  rw [Option.bind_some, show c.del true fd old events edge = _ from run]

/-- **An addition on both sides.** -/
theorem add (h : Agree et s c) (memory : Memory) (ev : α)
    (op : s.backend.opened (s.desc ev).evFd = true)
    (accept : s.backend.reject (s.desc ev).evFd = none) :
    ∃ s' c', s.add epollopsNochangelist memory ev = some s' ∧
      (s.withList c).add (epollopsChangelist true) memory ev = some (s'.withList c') ∧
      Agree et s' c' := by
  obtain ⟨s', step, ok⟩ := h.ok.add epollopsNochangelist memory ev
  unfold IoBase.add at step ⊢
  show ∃ s' c', _ ∧ (if ((s.desc ev).evEvents.isSet && !s.inserted ev) = true then do
      let (res, io, backend) ←
        evmapIoAdd (epollopsChangelist true) memory (s.desc ev) ev s.io (some c)
      return (⟨s.desc, if res ≠ -1 then Function.update s.inserted ev true else s.inserted, io,
        backend⟩ : IoBase α (Option EventChangelist))
    else some (s.withList c)) = _ ∧ _
  by_cases new : ((s.desc ev).evEvents.isSet && !s.inserted ev) = true
  swap
  · rw [if_neg new, if_neg new]
    exact ⟨s, c, rfl, rfl, h⟩
  rw [if_pos new] at step ⊢
  rw [if_pos new]
  by_cases neg : (s.desc ev).evFd < 0
  · -- nobody is told of a negative descriptor
    have run : evmapIoAdd epollopsNochangelist memory (s.desc ev) ev s.io s.backend =
      some (0, s.io, s.backend) := if_pos neg
    have run' : evmapIoAdd (epollopsChangelist true) memory (s.desc ev) ev s.io (some c) =
      some (0, s.io, some c) := if_pos neg
    rw [run] at step ⊢
    rw [run']
    cases step
    exact ⟨_, c, rfl, rfl, h.quiet ok h.edge rfl rfl⟩
  have fd := not_lt.mp neg
  obtain ⟨r, entered, io, b, run, added, view⟩ :=
    evmapIoAdd_spec epollopsNochangelist memory ev s.io s.backend fd
  obtain ⟨r', entered', io', b', run', added', view'⟩ :=
    evmapIoAdd_spec (epollopsChangelist true) memory ev s.io (some c) fd
  have yes (old res : IoEvents) (set : res.isSet = true) :
      (epollopsNochangelist.add s.backend (s.desc ev).evFd old res (s.desc ev).evEt).1 = true :=
    accepted op accept old set (s.desc ev).evEt
  have yes' (old res : IoEvents) (_ : res.isSet = true) :
      ((epollopsChangelist true).add (some c) (s.desc ev).evFd old res (s.desc ev).evEt).1 =
        true := by
    obtain ⟨c', answer, -⟩ := notes h.indexed fd old res (s.desc ev).evEt
    rw [answer]
  have agree := evmapIoAdd_agree memory s.io ev yes yes'
  rw [run, run'] at agree
  obtain ⟨rfl, rfl⟩ := Prod.mk.inj (Option.some.inj agree)
  rw [run] at step ⊢
  rw [run']
  cases step
  have slot : (((s.desc ev).evFd.toNat : Nat) : Int) = (s.desc ev).evFd := Int.toNat_of_nonneg fd
  have here := want_at s.io fd
  rcases added.cases_of_accepts yes with ⟨ne, rfl, first⟩ | ⟨rfl, rfl, rfl⟩
  · rcases added'.cases_of_accepts yes' with ⟨-, rfl, -⟩ | ⟨eq, -, -⟩
    swap
    · exact absurd eq ne
    refine ⟨_, c, rfl, rfl, h.quiet ok h.edge rfl ?_⟩
    cases entered with
    | false =>
        funext x
        unfold EventIoMap.want
        rw [show io.slotAt = s.io.slotAt from view]
    | true =>
        rw [want_update view, old_push, slot, ← here]
        rw [union_idle (first rfl), Function.update_eq_self]
  · rcases added'.cases_of_accepts yes' with ⟨ne, -, -⟩ | ⟨-, -, rfl⟩
    · exact absurd rfl ne
    obtain ⟨c', answer, indexed, kernel, pending⟩ := notes h.indexed fd
      (s.io.slotAt (s.desc ev).evFd.toNat).old
      ((s.io.slotAt (s.desc ev).evFd.toNat).first (s.desc ev)) (s.desc ev).evEt
    rw [answer]
    have wants := want_update view
    rw [old_push, slot, ← here] at wants
    rw [← here, h.edge] at pending
    let ch := nochangelistChange .add (s.desc ev).evFd (s.io.want (s.desc ev).evFd)
      ((s.io.slotAt (s.desc ev).evFd.toNat).first (s.desc ev)) (et (s.desc ev).evFd)
    have told : (epollopsNochangelist.add s.backend (s.desc ev).evFd
          (s.io.slotAt (s.desc ev).evFd.toNat).old
          ((s.io.slotAt (s.desc ev).evFd.toNat).first (s.desc ev)) (s.desc ev).evEt).2 =
        (s.backend.apply ch).2 := by
      rw [← here, h.edge]
      rfl
    refine ⟨_, c', rfl, rfl, h.told ok rfl op accept wants ch rfl
      (Awaits.nochangelist_add _ _ _ _) told indexed kernel (fun ch => ch.added _ _) pending ?_⟩
    intro registered ch awaits
    exact awaits.added _

/-- **A deletion on both sides.** -/
theorem del (h : Agree et s c) (ev : α) :
    ∃ s' c', s.del epollopsNochangelist ev = some s' ∧
      (s.withList c).del (epollopsChangelist true) ev = some (s'.withList c') ∧
      Agree et s' c' := by
  obtain ⟨s', step, ok⟩ := h.ok.del epollopsNochangelist ev
  unfold IoBase.del at step ⊢
  show ∃ s' c', _ ∧ (if s.inserted ev = true then do
      let (_, io, backend) ← evmapIoDel (epollopsChangelist true) (s.desc ev) ev s.io (some c)
      return (⟨s.desc, Function.update s.inserted ev false, io, backend⟩ :
        IoBase α (Option EventChangelist))
    else some (s.withList c)) = _ ∧ _
  by_cases on : s.inserted ev = true
  swap
  · rw [if_neg on, if_neg on]
    exact ⟨s, c, rfl, rfl, h⟩
  rw [if_pos on] at step ⊢
  rw [if_pos on]
  by_cases neg : (s.desc ev).evFd < 0
  · have run : evmapIoDel epollopsNochangelist (s.desc ev) ev s.io s.backend =
      some (0, s.io, s.backend) := if_pos neg
    have run' : evmapIoDel (epollopsChangelist true) (s.desc ev) ev s.io (some c) =
      some (0, s.io, some c) := if_pos neg
    rw [run] at step ⊢
    rw [run']
    cases step
    exact ⟨_, c, rfl, rfl, h.quiet ok h.edge rfl rfl⟩
  have fd := not_lt.mp neg
  have slotOk := h.ok.slots (s.desc ev).evFd.toNat
  have mem := h.ok.has ev on fd
  obtain ⟨r, io, run, view⟩ := evmapIoDel_spec epollopsNochangelist s.backend fd slotOk mem
  obtain ⟨r', io', run', -⟩ := evmapIoDel_spec (epollopsChangelist true) (some c) fd slotOk mem
  have agree := evmapIoDel_agree epollopsNochangelist (epollopsChangelist true) (s.desc ev) ev
    s.io s.backend (some c)
  rw [run, run'] at agree
  obtain rfl : io = io' := Option.some.inj agree
  rw [run] at step ⊢
  rw [run']
  cases step
  have slot : (((s.desc ev).evFd.toNat : Nat) : Int) = (s.desc ev).evFd := Int.toNat_of_nonneg fd
  have here := want_at s.io fd
  have wants := want_update view
  rw [old_drop, slot, ← here] at wants
  by_cases last : ((s.io.slotAt (s.desc ev).evFd.toNat).last (s.desc ev)).isSet = true
  swap
  · rw [diff_idle (Bool.not_eq_true _ ▸ last), Function.update_eq_self] at wants
    refine ⟨_, c, rfl, ?_, h.quiet ok h.edge (if_neg last) wants⟩
    simp only [if_neg last, Option.bind_eq_bind, Option.bind_some, Option.pure_def]
    rfl
  -- somebody waits on the descriptor, so it is open
  have op : s.backend.opened (s.desc ev).evFd = true := by
    by_contra off
    obtain ⟨idle, -⟩ := h.closed _ (Bool.not_eq_true _ ▸ off)
    rw [here, slotOk.old_isSet mem] at idle
    cases idle
  have accept : s.backend.reject (s.desc ev).evFd = none := by
    refine h.accepts _ ?_
    rw [here, slotOk.old_isSet mem]
  obtain ⟨c', answer, indexed, kernel, pending⟩ := notesDel h.indexed fd
    (s.io.slotAt (s.desc ev).evFd.toNat).old
    ((s.io.slotAt (s.desc ev).evFd.toNat).last (s.desc ev)) (s.desc ev).evEt
  rw [← here, h.edge] at pending
  let ch := nochangelistChange .del (s.desc ev).evFd (s.io.want (s.desc ev).evFd)
    ((s.io.slotAt (s.desc ev).evFd.toNat).last (s.desc ev)) (et (s.desc ev).evFd)
  have told : (epollopsNochangelist.del s.backend (s.desc ev).evFd
        (s.io.slotAt (s.desc ev).evFd.toNat).old
        ((s.io.slotAt (s.desc ev).evFd.toNat).last (s.desc ev)) (s.desc ev).evEt).2 =
      (s.backend.apply ch).2 := by
    rw [← here, h.edge]
    rfl
  rw [answer]
  refine ⟨_, c', rfl, ?_, h.told ok rfl op accept wants ch rfl
    (Awaits.nochangelist_del _ _ _ _) ((if_pos last).trans told) indexed kernel
    (fun ch => ch.deleted _ _) pending ?_⟩
  · simp only [if_pos last, Option.bind_eq_bind, Option.bind_some, Option.pure_def]
    rfl
  · intro registered ch awaits
    exact awaits.deleted _

omit [DecidableEq α] in
/-- A descriptor without events is not waited for. -/
theorem idle (h : Agree et s c) (unused : ∀ ev, s.inserted ev = true → (s.desc ev).evFd ≠ fd) :
    (s.io.want fd).isSet = false := by
  by_cases neg : fd < 0
  · unfold EventIoMap.want
    rw [if_pos neg]
    rfl
  · have nonneg := not_lt.mp neg
    rw [want_at s.io nonneg]
    refine (h.ok.slots fd.toNat).old_idle (List.eq_nil_iff_forall_not_mem.mpr ?_)
    intro ev mem
    refine unused ev ((h.ok.slots _).flagged ev mem) ?_
    rw [(h.ok.slots _).onFd ev mem]
    exact Int.toNat_of_nonneg nonneg

omit [DecidableEq α] in
/-- A descriptor nobody waits for may be closed. -/
theorem close (h : Agree et s c) (fd : Fd)
    (unused : ∀ ev, s.inserted ev = true → (s.desc ev).evFd ≠ fd) :
    Agree et { s with backend := s.backend.close fd } (c.inKernel (·.close fd)) := by
  have idle := h.idle unused
  refine ⟨⟨h.ok.slots, h.ok.has⟩, h.edge, ⟨h.indexed.room, h.indexed.entry, h.indexed.index⟩,
    ?_, h.reject, ?_, ?_, ?_, h.accepts⟩
  · show Function.update c.kernel.opened fd false = Function.update s.backend.opened fd false
    rw [h.opened]
  · intro x
    show Function.update s.backend.epoll fd none x = _
    by_cases eq : x = fd
    · rw [eq, Function.update_self, watched_idle idle]
    · rw [Function.update_of_ne eq]
      exact h.watched x
  · intro x
    show Pends (et x) (Function.update c.kernel.epoll fd none x) (s.io.want x) (c.pending x)
    have here := h.pends x
    by_cases eq : x = fd
    · rw [eq] at here ⊢
      rw [Function.update_self]
      cases pend : c.pending fd with
      | none => exact (watched_idle idle _).symm
      | some ch =>
          rw [pend] at here
          exact here.closed idle
    · rw [Function.update_of_ne eq]
      exact here
  · intro x off
    show (s.io.want x).isSet = false ∧ Function.update c.kernel.epoll fd none x = none
    by_cases eq : x = fd
    · rw [eq, Function.update_self]
      exact ⟨idle, rfl⟩
    · have off' : Function.update s.backend.opened fd false x = false := off
      rw [Function.update_of_ne eq] at off' ⊢
      exact h.closed x off'

omit [DecidableEq α] in
theorem create (h : Agree et s c) (fd : Fd) :
    Agree et { s with backend := s.backend.create fd } (c.inKernel (·.create fd)) := by
  refine ⟨⟨h.ok.slots, h.ok.has⟩, h.edge, ⟨h.indexed.room, h.indexed.entry, h.indexed.index⟩,
    ?_, h.reject, h.watched, h.pends, ?_, h.accepts⟩
  · show Function.update c.kernel.opened fd true = Function.update s.backend.opened fd true
    rw [h.opened]
  · intro x off
    have off' : Function.update s.backend.opened fd true x = false := off
    refine h.closed x ?_
    by_cases eq : x = fd
    · rw [eq, Function.update_self] at off'
      cases off'
    · rw [Function.update_of_ne eq] at off'
      exact off'

omit [DecidableEq α] in
/-- A descriptor nobody waits for may be refused. -/
theorem refuse (h : Agree et s c) {fd : Fd} {errno : Option Errno}
    (unused : errno = none ∨ ∀ ev, s.inserted ev = true → (s.desc ev).evFd ≠ fd) :
    Agree et { s with backend := s.backend.refuse fd errno } (c.inKernel (·.refuse fd errno)) := by
  refine ⟨⟨h.ok.slots, h.ok.has⟩, h.edge, ⟨h.indexed.room, h.indexed.entry, h.indexed.index⟩,
    h.opened, ?_, h.watched, h.pends, h.closed, ?_⟩
  · show Function.update c.kernel.reject fd errno = Function.update s.backend.reject fd errno
    rw [h.reject]
  · intro x set
    show Function.update s.backend.reject fd errno x = none
    by_cases eq : x = fd
    · rw [eq, Function.update_self]
      rcases unused with accepts | unused
      · exact accepts
      · have wanted : (s.io.want x).isSet = true := set
        rw [eq, h.idle unused] at wanted
        cases wanted
    · rw [Function.update_of_ne eq]
      exact h.accepts x set

omit [DecidableEq α] in
/-- Applying the list leaves the kernel as the other side has it. -/
theorem applied (h : Agree et s c) : c.applyChanges.2 = s.backend := by
  obtain ⟨opened, reject, others, entries⟩ :=
    foldl_apply c.changes h.indexed.nodup (true, c.kernel)
  have epoll : c.applyChanges.2.epoll = s.backend.epoll := by
    funext fd
    rw [h.watched fd]
    have here := h.pends fd
    cases pend : c.pending fd with
    | none =>
        have out : fd ∉ c.changes.map EventChange.fd := by
          intro mem
          obtain ⟨ch, mem, eq⟩ := List.mem_map.mp mem
          rw [h.indexed.pending_eq.mpr ⟨mem, eq⟩] at pend
          cases pend
        rw [pend] at here
        exact (others fd out).trans here
    | some ch =>
        obtain ⟨mem, eq⟩ := h.indexed.pending_eq.mp pend
        rw [pend] at here
        have after := entries ch mem
        rw [eq] at after
        refine after.trans ?_
        have same : c.kernel.opened fd = s.backend.opened fd := congrFun h.opened fd
        cases op : s.backend.opened fd with
        | true =>
            rw [show (true, c.kernel).2.opened fd = true from same.trans op]
            refine congrArg Prod.snd (Awaits.apply here ?_)
            intro set
            exact (congrFun h.reject fd).trans (h.accepts fd set)
        | false =>
            obtain ⟨idle, gone⟩ := h.closed fd op
            have rest : ch.wanted.isSet = false := by
              rw [Awaits.wanted here]
              exact idle
            rw [show (true, c.kernel).2.opened fd = false from same.trans op,
              show (true, c.kernel).2.epoll fd = none from gone, epollApplyChange_closed _ rest,
              watched_idle idle]
  have opened' : c.applyChanges.2.opened = s.backend.opened := opened.trans h.opened
  have reject' : c.applyChanges.2.reject = s.backend.reject := reject.trans h.reject
  calc c.applyChanges.2
      = ⟨c.applyChanges.2.opened, c.applyChanges.2.reject, c.applyChanges.2.epoll⟩ := rfl
    _ = ⟨s.backend.opened, s.backend.reject, s.backend.epoll⟩ := by rw [opened', reject', epoll]
    _ = s.backend := rfl

omit [DecidableEq α] in
/-- **`epoll_dispatch`** leaves no entry, and the kernel as the other side has it. -/
theorem dispatch (h : Agree et s c) :
    ∃ c', c.dispatch = some c' ∧ c'.changes = [] ∧ c'.kernel = s.backend ∧ Agree et s c' := by
  have indexed : EventChangelist.Indexed { c with kernel := c.applyChanges.2 } :=
    ⟨h.indexed.room, h.indexed.entry, h.indexed.index⟩
  have applied := h.applied
  refine ⟨_, indexed.removeAll, rfl, applied, h.ok, h.edge, ?_, ?_, ?_, h.watched, ?_, ?_,
    h.accepts⟩
  · refine ⟨Nat.zero_le _, ?_, ?_⟩
    · intro i ch here
      cases here
    · intro fd ne
      exact absurd rfl ne
  · show c.applyChanges.2.opened = _
    rw [applied]
  · show c.applyChanges.2.reject = _
    rw [applied]
  · intro fd
    show c.applyChanges.2.epoll fd = _
    rw [applied]
    exact h.watched fd
  · intro fd off
    obtain ⟨idle, -⟩ := h.closed fd off
    show _ ∧ c.applyChanges.2.epoll fd = none
    rw [applied, h.watched fd, watched_idle idle]
    exact ⟨idle, rfl⟩

/-- An event that is not added gets a new description. -/
theorem assign (h : Agree et s c) (ev : α) {d : IoDesc} (edge : d.evEt = et d.evFd) :
    Agree et (s.assign ev d) c ∧ (s.withList c).assign ev d = (s.assign ev d).withList c := by
  have ok := h.ok.assign ev d
  by_cases on : s.inserted ev = true
  · have same : s.assign ev d = s := if_pos on
    have same' : (s.withList c).assign ev d = s.withList c := if_pos on
    rw [same, same']
    exact ⟨h, rfl⟩
  · have eq : s.assign ev d = { s with desc := Function.update s.desc ev d } := if_neg on
    have eq' : (s.withList c).assign ev d =
      { s.withList c with desc := Function.update s.desc ev d } := if_neg on
    rw [eq] at ok ⊢
    rw [eq']
    refine ⟨h.quiet ok ?_ rfl rfl, rfl⟩
    intro x
    show (Function.update s.desc ev d x).evEt = et (Function.update s.desc ev d x).evFd
    by_cases eq : x = ev
    · rw [eq, Function.update_self]
      exact edge
    · rw [Function.update_of_ne eq]
      exact h.edge x

/-- One call on both sides. -/
theorem step (h : Agree et s c) {call : FdCall α} (proper : Proper et s call) :
    ∃ s' c', nochangelistStep s call = some s' ∧
      changelistStep (s.withList c) call = some (s'.withList c') ∧ Agree et s' c' := by
  cases call with
  | assign ev d =>
      obtain ⟨agree, eq⟩ := h.assign ev proper
      exact ⟨_, c, rfl, congrArg some eq, agree⟩
  | add memory grow ev =>
      obtain ⟨op, accept, rfl⟩ := proper
      exact h.add memory ev op accept
  | del grow ev =>
      obtain rfl : grow = true := proper
      exact h.del ev
  | create fd => exact ⟨_, _, rfl, rfl, h.create fd⟩
  | close fd => exact ⟨_, _, rfl, rfl, h.close fd proper⟩
  | refuse fd errno => exact ⟨_, _, rfl, rfl, h.refuse proper⟩
  | dispatch =>
      obtain ⟨c', run, -, -, agree⟩ := h.dispatch
      refine ⟨s, c', rfl, ?_, agree⟩
      show some (⟨s.desc, s.inserted, s.io, (some c).bind EventChangelist.dispatch⟩ :
        IoBase α (Option EventChangelist)) = _
      rw [Option.bind_some, run]
      rfl

end Agree

omit [DecidableEq α] in
/-- A base no event has been added to. -/
theorem agree_new {desc : α → IoDesc} (edge : ∀ ev, (desc ev).evEt = et (desc ev).evFd)
    (opened : Fd → Bool) (reject : Fd → Option Errno) :
    Agree et (IoBase.new desc ⟨opened, reject, fun _ => none⟩)
      { kernel := ⟨opened, reject, fun _ => none⟩ } where
  ok := integrity_new desc _
  edge := edge
  indexed := EventChangelist.indexed_new _
  opened := rfl
  reject := rfl
  watched fd := by
    unfold EventIoMap.want
    split_ifs <;> rfl
  pends fd := by
    show none = _
    unfold EventIoMap.want
    split_ifs <;> rfl
  closed fd _ := by
    unfold EventIoMap.want
    refine ⟨?_, rfl⟩
    split_ifs <;> rfl
  accepts fd set := by
    unfold EventIoMap.want at set
    split_ifs at set <;> cases set

/-- **The changelist is not seen.**  Over any sequence of proper calls, a base
with a changelist and one that tells the kernel at once have the same map and the
same events with `EVLIST_INSERTED`; no assertion fails, and
`event_changelist_assert_ok` finds nothing wrong; and once `epoll_dispatch` has
applied the list, the descriptors are watched for the same events.  An event that
the kernel refuses, or for which the list cannot grow, is not a proper one: only
one of the two would hear of it when it is added. -/
theorem changelist_agrees (et : Fd → Bool) (desc : α → IoDesc)
    (edge : ∀ ev, (desc ev).evEt = et (desc ev).evFd) (opened : Fd → Bool)
    (reject : Fd → Option Errno) (calls : List (FdCall α))
    (proper : StepSystem.Meets nochangelistStep (Proper et)
      (IoBase.new desc ⟨opened, reject, fun _ => none⟩) calls) :
    ∃ s c, StepSystem.run nochangelistStep
        (IoBase.new desc ⟨opened, reject, fun _ => none⟩) calls = some s ∧
      StepSystem.run changelistStep
        (IoBase.new desc (some { kernel := ⟨opened, reject, fun _ => none⟩ })) calls =
        some (s.withList c) ∧
      c.assertOk s.io.nentries = true ∧
      ∃ c', c.dispatch = some c' ∧ c'.kernel = s.backend := by
  have keep : ∀ (s : IoBase α Interest) (t : IoBase α (Option EventChangelist)) (call : FdCall α),
      (∃ c, t = s.withList c ∧ Agree et s c) → Proper et s call →
      ∃ s' t', nochangelistStep s call = some s' ∧ changelistStep t call = some t' ∧
        ∃ c, t' = s'.withList c ∧ Agree et s' c := by
    rintro s t call ⟨c, rfl, h⟩ ok
    obtain ⟨s', c', step, step', h'⟩ := h.step ok
    exact ⟨s', _, step, step', c', rfl, h'⟩
  obtain ⟨s, t, run, run', c, rfl, h⟩ :=
    StepSystem.run_lockstep nochangelistStep changelistStep
      (fun s t => ∃ c, t = s.withList c ∧ Agree et s c) keep
      ⟨_, rfl, agree_new edge opened reject⟩ calls proper
  obtain ⟨c', dispatch, -, kernel, -⟩ := h.dispatch
  exact ⟨s, c, run, run', h.indexed.assertOk _, c', dispatch, kernel⟩

instance [Fintype α] (et : Fd → Bool) (s : IoBase α Interest) :
    ∀ call, Decidable (Proper et s call)
  | .assign _ d => inferInstanceAs (Decidable (d.evEt = et d.evFd))
  | .add _ grow ev => inferInstanceAs (Decidable (s.backend.opened (s.desc ev).evFd = true ∧
      s.backend.reject (s.desc ev).evFd = none ∧ grow = true))
  | .del grow _ => inferInstanceAs (Decidable (grow = true))
  | .create _ => inferInstanceAs (Decidable True)
  | .close fd => inferInstanceAs (Decidable (∀ ev, s.inserted ev = true → (s.desc ev).evFd ≠ fd))
  | .refuse fd errno => inferInstanceAs (Decidable
      (errno = none ∨ ∀ ev, s.inserted ev = true → (s.desc ev).evFd ≠ fd))
  | .dispatch => inferInstanceAs (Decidable True)

/-- A descriptor that is closed, and opened again, while a deletion pends. -/
theorem changelist_agrees_reopened :
    ∃ s c, StepSystem.run nochangelistStep
        (IoBase.new (fun ev : Bool => ⟨5, ⟨ev, !ev, false⟩, false⟩)
          ⟨fun _ => true, fun _ => none, fun _ => none⟩)
        [.add {} true false, .dispatch, .del true false, .close 5, .refuse 5 (some 1),
          .refuse 5 none, .create 5, .add {} true true] = some s ∧
      StepSystem.run changelistStep
        (IoBase.new (fun ev : Bool => ⟨5, ⟨ev, !ev, false⟩, false⟩)
          (some { kernel := ⟨fun _ => true, fun _ => none, fun _ => none⟩ }))
        [.add {} true false, .dispatch, .del true false, .close 5, .refuse 5 (some 1),
          .refuse 5 none, .create 5, .add {} true true] =
        some (s.withList c) ∧
      c.assertOk s.io.nentries = true ∧
      ∃ c', c.dispatch = some c' ∧ c'.kernel = s.backend :=
  changelist_agrees (fun _ => false) _ (fun _ => rfl) _ _ _ (by decide)

/-- The condition on `EV_ET` is needed: the deletion of an edge-triggered event
that pends makes the next event of its descriptor edge-triggered too. -/
example :
    (((StepSystem.run changelistStep
        (IoBase.new (fun ev : Bool => ⟨5, ⟨!ev, ev, false⟩, !ev⟩)
          (some { kernel := ⟨fun _ => true, fun _ => none, fun _ => none⟩ }))
        [.add {} true false, .dispatch, .del true false, .add {} true true]).bind
        IoBase.backend).bind EventChangelist.dispatch).map (fun c => c.kernel.epoll 5) =
      some (some ⟨false, true, false, true⟩) := by decide

end Agree

end SwiftEvent
