import SwiftEvent.Kernel
import Mathlib.Data.Fintype.Basic

/-!
# `epolltable-internal.h`: one change of an interest

A change of what a descriptor is watched for, a `struct event_change`, is turned
into one call of `epoll_ctl(2)` by a table of 512 rows.  The table is given here
row by row, and `epollTable_row` says what it was generated from.

* `IoEvents.changed` — the events that are wanted after the change.
* `epollApplyChange_eq` — whatever the kernel watched before, `epoll_apply_one_change`
  leaves it watching what is wanted, as long as the descriptor is open and the
  kernel does not refuse it.
* `epollApplyChange_plain` — without close events and edge triggering this is
  `epollApplyOneChange` of `SwiftEvent.Kernel`, so that the closed form of the
  table given there is the table.
-/

namespace SwiftEvent

/-- The flags `EV_READ`, `EV_WRITE` and `EV_CLOSED` of a backend call. -/
structure IoEvents where
  read : Bool := false
  write : Bool := false
  closed : Bool := false
deriving DecidableEq, Repr

namespace IoEvents

/-- `a != 0`. -/
def isSet (a : IoEvents) : Bool := a.read || a.write || a.closed

/-- `a | b`. -/
def union (a b : IoEvents) : IoEvents :=
  ⟨a.read || b.read, a.write || b.write, a.closed || b.closed⟩

/-- `a & ~b`. -/
def diff (a b : IoEvents) : IoEvents :=
  ⟨a.read && !b.read, a.write && !b.write, a.closed && !b.closed⟩

end IoEvents

/-- The bits of `struct epoll_event` the backend sets. -/
structure EpollMask where
  epollin : Bool := false
  epollout : Bool := false
  epollrdhup : Bool := false
  epollet : Bool := false
deriving DecidableEq, Repr

/-- The registration that watches exactly the events: none at all for none. -/
def IoEvents.watched (a : IoEvents) (et : Bool) : Option EpollMask :=
  if a.isSet then some ⟨a.read, a.write, a.closed, et⟩ else none

instance : Fintype Change where
  elems := {.none, .add, .del}
  complete c := by cases c <;> decide

/-- A field `read_change` of `struct event_change`: an addition, a deletion or
neither, with `EV_CHANGE_ET`. -/
structure ChangeField where
  kind : Change := .none
  et : Bool := false
deriving DecidableEq, Repr

/-- `struct event_change`. -/
structure EventChange where
  fd : Fd
  oldEvents : IoEvents
  readChange : ChangeField := {}
  writeChange : ChangeField := {}
  closeChange : ChangeField := {}
deriving DecidableEq, Repr

/-- `change & (EV_CHANGE_ADD|EV_CHANGE_DEL)`. -/
def Change.bits : Change → Nat
  | .none => 0
  | .add => 1
  | .del => 2

/-- `EPOLL_OP_TABLE_INDEX`; the fields have bits of their own. -/
def epollOpTableIndex (old : IoEvents) (read write close : Change) : Nat :=
  close.bits + 4 * read.bits + 16 * write.bits +
    64 * old.read.toNat + 128 * old.write.toNat + 256 * old.closed.toNat

/-- `epoll_op_table`: the events and the operation of each row.  `EPOLLIN` is
`1`, `EPOLLOUT` is `4` and `EPOLLRDHUP` is `8192`; `EPOLL_CTL_ADD`, `_DEL` and
`_MOD` are `1`, `2` and `3`, and `255` marks the rows with a change that is both
an addition and a deletion.  Each line runs through the changes of the close
event, and four lines through those of the read event. -/
def epollTable : List (Nat × Nat) := [
  -- old=0, write:0; read: 0, add, del, xxx
  (0, 0), (8192, 1), (8192, 2), (0, 255),
  (1, 1), (8193, 1), (1, 1), (0, 255),
  (1, 2), (8192, 1), (8193, 2), (0, 255),
  (0, 255), (0, 255), (0, 255), (0, 255),
  -- old=0, write:add; read: 0, add, del, xxx
  (4, 1), (8196, 1), (4, 1), (0, 255),
  (5, 1), (8197, 1), (5, 1), (0, 255),
  (4, 1), (8196, 1), (4, 1), (0, 255),
  (0, 255), (0, 255), (0, 255), (0, 255),
  -- old=0, write:del; read: 0, add, del, xxx
  (4, 2), (8192, 1), (8196, 2), (0, 255),
  (1, 1), (8193, 1), (1, 1), (0, 255),
  (5, 2), (8192, 1), (8197, 2), (0, 255),
  (0, 255), (0, 255), (0, 255), (0, 255),
  -- old=0, write:xxx; read: 0, add, del, xxx
  (0, 255), (0, 255), (0, 255), (0, 255),
  (0, 255), (0, 255), (0, 255), (0, 255),
  (0, 255), (0, 255), (0, 255), (0, 255),
  (0, 255), (0, 255), (0, 255), (0, 255),
  -- old=r, write:0; read: 0, add, del, xxx
  (0, 0), (8193, 3), (1, 3), (0, 255),
  (1, 3), (8193, 3), (1, 3), (0, 255),
  (1, 2), (8192, 3), (8193, 2), (0, 255),
  (0, 255), (0, 255), (0, 255), (0, 255),
  -- old=r, write:add; read: 0, add, del, xxx
  (5, 3), (8197, 3), (5, 3), (0, 255),
  (5, 3), (8197, 3), (5, 3), (0, 255),
  (4, 3), (8196, 3), (4, 3), (0, 255),
  (0, 255), (0, 255), (0, 255), (0, 255),
  -- old=r, write:del; read: 0, add, del, xxx
  (1, 3), (8193, 3), (1, 3), (0, 255),
  (1, 3), (8193, 3), (1, 3), (0, 255),
  (5, 2), (8192, 3), (8197, 2), (0, 255),
  (0, 255), (0, 255), (0, 255), (0, 255),
  -- old=r, write:xxx; read: 0, add, del, xxx
  (0, 255), (0, 255), (0, 255), (0, 255),
  (0, 255), (0, 255), (0, 255), (0, 255),
  (0, 255), (0, 255), (0, 255), (0, 255),
  (0, 255), (0, 255), (0, 255), (0, 255),
  -- old=w, write:0; read: 0, add, del, xxx
  (0, 0), (8196, 3), (4, 3), (0, 255),
  (5, 3), (8197, 3), (5, 3), (0, 255),
  (4, 3), (8196, 3), (4, 3), (0, 255),
  (0, 255), (0, 255), (0, 255), (0, 255),
  -- old=w, write:add; read: 0, add, del, xxx
  (4, 3), (8196, 3), (4, 3), (0, 255),
  (5, 3), (8197, 3), (5, 3), (0, 255),
  (4, 3), (8196, 3), (4, 3), (0, 255),
  (0, 255), (0, 255), (0, 255), (0, 255),
  -- old=w, write:del; read: 0, add, del, xxx
  (4, 2), (8192, 3), (8196, 2), (0, 255),
  (1, 3), (8193, 3), (1, 3), (0, 255),
  (5, 2), (8192, 3), (8197, 2), (0, 255),
  (0, 255), (0, 255), (0, 255), (0, 255),
  -- old=w, write:xxx; read: 0, add, del, xxx
  (0, 255), (0, 255), (0, 255), (0, 255),
  (0, 255), (0, 255), (0, 255), (0, 255),
  (0, 255), (0, 255), (0, 255), (0, 255),
  (0, 255), (0, 255), (0, 255), (0, 255),
  -- old=rw, write:0; read: 0, add, del, xxx
  (0, 0), (8197, 3), (5, 3), (0, 255),
  (5, 3), (8197, 3), (5, 3), (0, 255),
  (4, 3), (8196, 3), (4, 3), (0, 255),
  (0, 255), (0, 255), (0, 255), (0, 255),
  -- old=rw, write:add; read: 0, add, del, xxx
  (5, 3), (8197, 3), (5, 3), (0, 255),
  (5, 3), (8197, 3), (5, 3), (0, 255),
  (4, 3), (8196, 3), (4, 3), (0, 255),
  (0, 255), (0, 255), (0, 255), (0, 255),
  -- old=rw, write:del; read: 0, add, del, xxx
  (1, 3), (8193, 3), (1, 3), (0, 255),
  (1, 3), (8193, 3), (1, 3), (0, 255),
  (5, 2), (8192, 3), (8197, 2), (0, 255),
  (0, 255), (0, 255), (0, 255), (0, 255),
  -- old=rw, write:xxx; read: 0, add, del, xxx
  (0, 255), (0, 255), (0, 255), (0, 255),
  (0, 255), (0, 255), (0, 255), (0, 255),
  (0, 255), (0, 255), (0, 255), (0, 255),
  (0, 255), (0, 255), (0, 255), (0, 255),
  -- old=c, write:0; read: 0, add, del, xxx
  (0, 0), (8192, 3), (8192, 2), (0, 255),
  (8193, 3), (8193, 3), (1, 3), (0, 255),
  (8192, 3), (8192, 3), (8193, 2), (0, 255),
  (0, 255), (0, 255), (0, 255), (0, 255),
  -- old=c, write:add; read: 0, add, del, xxx
  (8196, 3), (8196, 3), (4, 3), (0, 255),
  (8197, 3), (8197, 3), (5, 3), (0, 255),
  (8196, 3), (8196, 3), (4, 3), (0, 255),
  (0, 255), (0, 255), (0, 255), (0, 255),
  -- old=c, write:del; read: 0, add, del, xxx
  (8192, 3), (8192, 3), (8196, 2), (0, 255),
  (8193, 3), (8193, 3), (1, 3), (0, 255),
  (8192, 3), (8192, 3), (8197, 2), (0, 255),
  (0, 255), (0, 255), (0, 255), (0, 255),
  -- old=c, write:xxx; read: 0, add, del, xxx
  (0, 255), (0, 255), (0, 255), (0, 255),
  (0, 255), (0, 255), (0, 255), (0, 255),
  (0, 255), (0, 255), (0, 255), (0, 255),
  (0, 255), (0, 255), (0, 255), (0, 255),
  -- old=rc, write:0; read: 0, add, del, xxx
  (0, 0), (8193, 3), (1, 3), (0, 255),
  (8193, 3), (8193, 3), (1, 3), (0, 255),
  (8192, 3), (8192, 3), (8193, 2), (0, 255),
  (0, 255), (0, 255), (0, 255), (0, 255),
  -- old=rc, write:add; read: 0, add, del, xxx
  (8197, 3), (8197, 3), (5, 3), (0, 255),
  (8197, 3), (8197, 3), (5, 3), (0, 255),
  (8196, 3), (8196, 3), (4, 3), (0, 255),
  (0, 255), (0, 255), (0, 255), (0, 255),
  -- old=rc, write:del; read: 0, add, del, xxx
  (8193, 3), (8193, 3), (1, 3), (0, 255),
  (8193, 3), (8193, 3), (1, 3), (0, 255),
  (8192, 3), (8192, 3), (8197, 2), (0, 255),
  (0, 255), (0, 255), (0, 255), (0, 255),
  -- old=rc, write:xxx; read: 0, add, del, xxx
  (0, 255), (0, 255), (0, 255), (0, 255),
  (0, 255), (0, 255), (0, 255), (0, 255),
  (0, 255), (0, 255), (0, 255), (0, 255),
  (0, 255), (0, 255), (0, 255), (0, 255),
  -- old=wc, write:0; read: 0, add, del, xxx
  (0, 0), (8196, 3), (4, 3), (0, 255),
  (8197, 3), (8197, 3), (5, 3), (0, 255),
  (8196, 3), (8196, 3), (4, 3), (0, 255),
  (0, 255), (0, 255), (0, 255), (0, 255),
  -- old=wc, write:add; read: 0, add, del, xxx
  (8196, 3), (8196, 3), (4, 3), (0, 255),
  (8197, 3), (8197, 3), (5, 3), (0, 255),
  (8196, 3), (8196, 3), (4, 3), (0, 255),
  (0, 255), (0, 255), (0, 255), (0, 255),
  -- old=wc, write:del; read: 0, add, del, xxx
  (8192, 3), (8192, 3), (8196, 2), (0, 255),
  (8193, 3), (8193, 3), (1, 3), (0, 255),
  (8192, 3), (8192, 3), (8197, 2), (0, 255),
  (0, 255), (0, 255), (0, 255), (0, 255),
  -- old=wc, write:xxx; read: 0, add, del, xxx
  (0, 255), (0, 255), (0, 255), (0, 255),
  (0, 255), (0, 255), (0, 255), (0, 255),
  (0, 255), (0, 255), (0, 255), (0, 255),
  (0, 255), (0, 255), (0, 255), (0, 255),
  -- old=rwc, write:0; read: 0, add, del, xxx
  (0, 0), (8197, 3), (5, 3), (0, 255),
  (8197, 3), (8197, 3), (5, 3), (0, 255),
  (8196, 3), (8196, 3), (4, 3), (0, 255),
  (0, 255), (0, 255), (0, 255), (0, 255),
  -- old=rwc, write:add; read: 0, add, del, xxx
  (8197, 3), (8197, 3), (5, 3), (0, 255),
  (8197, 3), (8197, 3), (5, 3), (0, 255),
  (8196, 3), (8196, 3), (4, 3), (0, 255),
  (0, 255), (0, 255), (0, 255), (0, 255),
  -- old=rwc, write:del; read: 0, add, del, xxx
  (8193, 3), (8193, 3), (1, 3), (0, 255),
  (8193, 3), (8193, 3), (1, 3), (0, 255),
  (8192, 3), (8192, 3), (8197, 2), (0, 255),
  (0, 255), (0, 255), (0, 255), (0, 255),
  -- old=rwc, write:xxx; read: 0, add, del, xxx
  (0, 255), (0, 255), (0, 255), (0, 255),
  (0, 255), (0, 255), (0, 255), (0, 255),
  (0, 255), (0, 255), (0, 255), (0, 255),
  (0, 255), (0, 255), (0, 255), (0, 255)]

/-- `EPOLLIN`, `EPOLLOUT` and `EPOLLRDHUP` for the events. -/
def IoEvents.bits (a : IoEvents) : Nat :=
  a.read.toNat + 4 * a.write.toNat + 8192 * a.closed.toNat

/-- What one field of a change makes of one event. -/
def Change.leaves (c : Change) (old : Bool) : Bool := c == .add || (c != .del && old)

/-- The events that are wanted after the change. -/
def IoEvents.changed (old : IoEvents) (read write close : Change) : IoEvents :=
  ⟨read.leaves old.read, write.leaves old.write, close.leaves old.closed⟩

/-- **What the table was generated from.**  An addition registers all that is
wanted, and is a modification when something was registered before; a deletion
that leaves something is a modification too; a deletion that leaves nothing names
what is deleted; and no change is the row of zeros. -/
theorem epollTable_row (old : IoEvents) (read write close : Change) :
    epollTable.getD (epollOpTableIndex old read write close) (0, 255) =
      if read = .none ∧ write = .none ∧ close = .none then (0, 0)
      else if read = .add ∨ write = .add ∨ close = .add then
        ((old.changed read write close).bits, if old.isSet then 3 else 1)
      else if (old.changed read write close).isSet then
        ((old.changed read write close).bits, 3)
      else ((⟨read == .del, write == .del, close == .del⟩ : IoEvents).bits, 2) := by
  obtain ⟨r, w, c⟩ := old
  revert r w c read write close
  decide +kernel

/-! ## Applying a change -/

/-- `epoll_ctl(2)` on one descriptor, for masks of any kind; see `epollCtl`. -/
def epollCtlOn {M : Type} (opened : Bool) (reject : Option Errno) (registered : Option M)
    (op : EpollOp) (events : M) : Except Errno (Option M) :=
  if !opened then .error ebadf
  else
    match op, registered with
    | .add, some _ => .error eexist
    | .mod, none => .error enoent
    | .del, none => .error enoent
    | .del, some _ => .ok none
    | .add, none | .mod, some _ =>
        match reject with
        | some errno => .error errno
        | none => .ok (some events)

namespace EventChange

variable (ch : EventChange)

/-- The row of the table. -/
def row : Nat × Nat :=
  epollTable.getD
    (epollOpTableIndex ch.oldEvents ch.readChange.kind ch.writeChange.kind ch.closeChange.kind)
    (0, 255)

/-- `(read_change|write_change|close_change) & EV_CHANGE_ET`. -/
def edge : Bool := ch.readChange.et || ch.writeChange.et || ch.closeChange.et

/-- Some field of the change adds or deletes. -/
def Changes : Prop :=
  ¬ (ch.readChange.kind = .none ∧ ch.writeChange.kind = .none ∧ ch.closeChange.kind = .none)

instance : Decidable ch.Changes := inferInstanceAs (Decidable (¬ _))

/-- The events that are wanted after the change. -/
def wanted : IoEvents :=
  ch.oldEvents.changed ch.readChange.kind ch.writeChange.kind ch.closeChange.kind

end EventChange

/-- The mask of a row, with `EPOLLET` if the change asks for it. -/
def EpollMask.ofBits (events : Nat) (et : Bool) : EpollMask :=
  ⟨events.testBit 0, events.testBit 2, events.testBit 13, et⟩

/-- `epoll_apply_one_change`: whether it returns `0`, and the entry of the
interest list it leaves. -/
def epollApplyChange (opened : Bool) (reject : Option Errno) (registered : Option EpollMask)
    (ch : EventChange) : Bool × Option EpollMask :=
  if ch.row.1 = 0 then (true, registered)
  else
    let epev := EpollMask.ofBits ch.row.1 ch.edge
    match ch.row.2 with
    | 3 =>
        match epollCtlOn opened reject registered .mod epev with
        | .ok entry => (true, entry)
        | .error errno =>
            if errno = enoent then
              match epollCtlOn opened reject registered .add epev with
              | .ok entry => (true, entry)
              | .error _ => (false, registered)
            else (false, registered)
    | 1 =>
        match epollCtlOn opened reject registered .add epev with
        | .ok entry => (true, entry)
        | .error errno =>
            if errno = eexist then
              match epollCtlOn opened reject registered .mod epev with
              | .ok entry => (true, entry)
              | .error _ => (false, registered)
            else (false, registered)
    | 2 =>
        match epollCtlOn opened reject registered .del epev with
        | .ok entry => (true, entry)
        | .error errno => (errno = enoent || errno = ebadf || errno = eperm, registered)
    | _ => (false, registered)

theorem EpollMask.ofBits_bits (a : IoEvents) (et : Bool) :
    EpollMask.ofBits a.bits et = ⟨a.read, a.write, a.closed, et⟩ := by
  obtain ⟨r, w, c⟩ := a
  revert r w c et
  decide

theorem IoEvents.bits_eq_zero {a : IoEvents} : a.bits = 0 ↔ a.isSet = false := by
  obtain ⟨r, w, c⟩ := a
  revert r w c
  decide

/-- The change whose row is of zeros does nothing. -/
theorem epollApplyChange_of_not_changes (opened : Bool) (reject : Option Errno)
    (registered : Option EpollMask) {ch : EventChange} (same : ¬ ch.Changes) :
    epollApplyChange opened reject registered ch = (true, registered) := by
  have row : ch.row = (0, 0) := by
    unfold EventChange.row
    rw [epollTable_row, if_pos (not_not.mp same)]
  unfold epollApplyChange
  rw [row]
  rfl

namespace EventChange

variable {ch : EventChange}

/-- What is added is wanted. -/
theorem isSet_wanted_of_add
    (add : ch.readChange.kind = .add ∨ ch.writeChange.kind = .add ∨ ch.closeChange.kind = .add) :
    ch.wanted.isSet = true := by
  unfold wanted IoEvents.changed IoEvents.isSet Change.leaves
  rcases add with eq | eq | eq <;> simp [eq]

/-- A change that adds nothing deletes something. -/
theorem del_of_changes (changes : ch.Changes)
    (add : ¬ (ch.readChange.kind = .add ∨ ch.writeChange.kind = .add ∨
      ch.closeChange.kind = .add)) :
    (⟨ch.readChange.kind == .del, ch.writeChange.kind == .del, ch.closeChange.kind == .del⟩ :
      IoEvents).bits ≠ 0 := by
  rw [Ne, IoEvents.bits_eq_zero]
  unfold Changes at changes
  revert changes add
  generalize ch.readChange.kind = read, ch.writeChange.kind = write, ch.closeChange.kind = close
  revert read write close
  decide

/-- The three kinds of rows a change can have. -/
theorem row_cases (changes : ch.Changes) :
    (ch.wanted.isSet = true ∧ ∃ op, (op = 3 ∨ op = 1) ∧ ch.row = (ch.wanted.bits, op)) ∨
      ch.wanted.isSet = false ∧ ∃ events, events ≠ 0 ∧ ch.row = (events, 2) := by
  unfold row
  rw [epollTable_row, if_neg changes]
  by_cases add : ch.readChange.kind = .add ∨ ch.writeChange.kind = .add ∨
      ch.closeChange.kind = .add
  · left
    rw [if_pos add]
    refine ⟨isSet_wanted_of_add add, _, ?_, rfl⟩
    split_ifs <;> simp
  rw [if_neg add]
  cases rest : ch.wanted.isSet with
  | true =>
      left
      refine ⟨rfl, 3, Or.inl rfl, ?_⟩
      rw [if_pos (show (ch.oldEvents.changed _ _ _).isSet = true from rest)]
      rfl
  | false =>
      right
      refine ⟨rfl, _, del_of_changes changes add, ?_⟩
      rw [if_neg]
      show ¬ ch.wanted.isSet = true
      simp [rest]

end EventChange

/-- **What a change amounts to**, on an open descriptor whose events the kernel
does not refuse, if there are any left: whatever it watched before, it watches what
is wanted now. -/
theorem epollApplyChange_eq {reject : Option Errno} (registered : Option EpollMask)
    {ch : EventChange} (changes : ch.Changes)
    (accept : ch.wanted.isSet = true → reject = none) :
    epollApplyChange true reject registered ch = (true, ch.wanted.watched ch.edge) := by
  unfold epollApplyChange
  rcases EventChange.row_cases changes with ⟨rest, op, kind, row⟩ | ⟨rest, events, ne, row⟩
  · have nonzero : ch.wanted.bits ≠ 0 := by
      rw [Ne, IoEvents.bits_eq_zero, rest]
      decide
    have watched : ch.wanted.watched ch.edge =
        some ⟨ch.wanted.read, ch.wanted.write, ch.wanted.closed, ch.edge⟩ := if_pos rest
    rw [row, watched, accept rest]
    simp only [if_neg nonzero, EpollMask.ofBits_bits]
    -- a wrong guess between the two operations is made good
    rcases kind with rfl | rfl <;> cases registered <;> rfl
  · have watched : ch.wanted.watched ch.edge = none := by
      unfold IoEvents.watched
      rw [if_neg]
      simp [rest]
    rw [row, watched]
    simp only [if_neg ne]
    cases registered <;> rfl

/-- A deletion of the last event on a descriptor that is not open is as good as
done: closing it has ended the registration. -/
theorem epollApplyChange_closed (reject : Option Errno) {ch : EventChange}
    (rest : ch.wanted.isSet = false) : epollApplyChange false reject none ch = (true, none) := by
  by_cases changes : ch.Changes
  · unfold epollApplyChange
    rcases EventChange.row_cases changes with ⟨set, -⟩ | ⟨-, events, ne, row⟩
    · rw [rest] at set
      cases set
    · rw [row]
      simp only [if_neg ne]
      rfl
  · exact epollApplyChange_of_not_changes false reject none changes

/-! ## The two-event backend -/

/-- The mask of a backend that never asks for close events or edges. -/
def EpollEvents.mask (m : EpollEvents) : EpollMask := ⟨m.epollin, m.epollout, false, false⟩

/-- A change of the read and write events only. -/
def plainChange (fd : Fd) (old : EpollEvents) (read write : Change) : EventChange :=
  { fd, oldEvents := ⟨old.epollin, old.epollout, false⟩
    readChange := { kind := read }, writeChange := { kind := write } }

/-- The number of an operation. -/
def EpollOp.number : EpollOp → Nat
  | .add => 1
  | .del => 2
  | .mod => 3

/-- The rows without a change of the close event are the closed form. -/
theorem epollTable_plain (old : EpollEvents) (read write : Change) :
    epollTable.getD (epollOpTableIndex ⟨old.epollin, old.epollout, false⟩ read write .none)
        (0, 255) =
      match epollOpTable old read write with
      | none => (0, 0)
      | some (op, events) =>
          ((⟨events.epollin, events.epollout, false⟩ : IoEvents).bits, op.number) := by
  obtain ⟨oldIn, oldOut⟩ := old
  revert oldIn oldOut read write
  decide +kernel

/-- `epoll_ctl(2)` does not look into the masks. -/
theorem epollCtlOn_map (opened : Bool) (reject : Option Errno) (registered : Option EpollEvents)
    (op : EpollOp) (events : EpollEvents) :
    epollCtlOn opened reject (registered.map EpollEvents.mask) op events.mask =
      (epollCtl opened reject registered op events).map (Option.map EpollEvents.mask) := by
  unfold epollCtlOn epollCtl
  cases opened <;> cases op <;> cases registered <;> cases reject <;> rfl

/-- Every operation names some event. -/
theorem epollOpTable_isSet {old events : EpollEvents} {read write : Change} {op : EpollOp}
    (h : epollOpTable old read write = some (op, events)) : events.isSet = true := by
  unfold epollOpTable at h
  by_cases add : read = .add ∨ write = .add
  · rw [if_pos add] at h
    cases h
    unfold EpollEvents.isSet
    rcases add with rfl | rfl <;> simp
  · rw [if_neg add] at h
    split_ifs at h
    all_goals
      cases h
      rfl

/-- **The closed form of the table is the table**: without close events and edges
`epoll_apply_one_change` is the function of the two-event backend. -/
theorem epollApplyChange_plain (opened : Bool) (reject : Option Errno)
    (registered : Option EpollEvents) (fd : Fd) (old : EpollEvents) (read write : Change) :
    epollApplyChange opened reject (registered.map EpollEvents.mask)
        (plainChange fd old read write) =
      ((epollApplyOneChange opened reject registered old read write).1,
        (epollApplyOneChange opened reject registered old read write).2.map
          EpollEvents.mask) := by
  have row : (plainChange fd old read write).row = _ := epollTable_plain old read write
  have edge : (plainChange fd old read write).edge = false := rfl
  unfold epollApplyChange epollApplyOneChange
  rw [row, edge]
  cases found : epollOpTable old read write with
  | none => rfl
  | some entry =>
      obtain ⟨op, events⟩ := entry
      have nonzero : (⟨events.epollin, events.epollout, false⟩ : IoEvents).bits ≠ 0 := by
        rw [Ne, IoEvents.bits_eq_zero]
        have set := epollOpTable_isSet found
        unfold EpollEvents.isSet at set
        simp [IoEvents.isSet, set]
      have mask : EpollMask.ofBits (⟨events.epollin, events.epollout, false⟩ : IoEvents).bits
          false = events.mask := EpollMask.ofBits_bits _ _
      simp only [if_neg nonzero, mask, epollCtlOn_map]
      cases op with
      | add =>
          simp only [EpollOp.number]
          cases epollCtl opened reject registered .add events with
          | ok entry => rfl
          | error errno =>
              simp only [Except.map]
              by_cases again : errno = eexist
              · rw [if_pos again, if_pos again]
                cases epollCtl opened reject registered .mod events <;> rfl
              · rw [if_neg again, if_neg again]
      | mod =>
          simp only [EpollOp.number]
          cases epollCtl opened reject registered .mod events with
          | ok entry => rfl
          | error errno =>
              simp only [Except.map]
              by_cases again : errno = enoent
              · rw [if_pos again, if_pos again]
                cases epollCtl opened reject registered .add events <;> rfl
              · rw [if_neg again, if_neg again]
      | del =>
          simp only [EpollOp.number]
          cases epollCtl opened reject registered .del events <;> rfl

end SwiftEvent
