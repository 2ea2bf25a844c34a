import SwiftEvent.OpTable
import SwiftEvent.Library.Run
import Mathlib.Data.List.Nodup
import Mathlib.Data.List.Perm.Basic

/-!
# `evmap.c`: the slots of the descriptors

The map from descriptors to events is an array that grows by doubling; a slot
holds the list of the events on its descriptor, newest first, and three 16-bit
counters.  The multiplexer is told only of the first event of a kind and of the
last.  As in the source, the functions are written against a backend, a
`struct eventop`, of which nothing is assumed here.

A read of the array past its end, a read through a null slot and a failed
`EVUTIL_ASSERT` are the result `none`.

* `Integrity` — what `evmap_check_integrity_` asserts of every slot, and that an
  event with `EVLIST_INSERTED` is in the slot of its descriptor.
* `evmap_integrity` — it holds after any sequence of additions and deletions
  over any backend, and no assertion fails on the way.
-/

namespace SwiftEvent

/-- What `event_assign` fixes of an event of a descriptor. -/
structure IoDesc where
  evFd : Fd
  evEvents : IoEvents
  evEt : Bool := false
deriving DecidableEq, Repr

/-- The functions `add` and `del` of a `struct eventop`: the descriptor, the
events it is watched for, and those that change, with `EV_ET`. -/
structure Eventop (β : Type) where
  add : β → Fd → IoEvents → IoEvents → Bool → Bool × β
  del : β → Fd → IoEvents → IoEvents → Bool → Bool × β

/-- Whether the allocator finds memory for the array, and for a slot. -/
structure Memory where
  realloc : Bool := true
  calloc : Bool := true
deriving DecidableEq, Repr

/-- `INT_MAX`. -/
def intMax : Nat := 2147483647

/-- `struct evmap_io`. -/
structure EvmapIo (α : Type) where
  events : List α := []
  nread : Nat := 0
  nwrite : Nat := 0
  nclose : Nat := 0

/-- `struct event_io_map`.  Only the first `nentries` entries are memory. -/
structure EventIoMap (α : Type) where
  nentries : Nat
  entries : Nat → Option (EvmapIo α)

namespace EventIoMap

variable {α β : Type} (m : EventIoMap α)

/-- `evmap_io_initmap_`. -/
def init : EventIoMap α := ⟨0, fun _ => none⟩

/-- `map->entries[slot]`; `none` is an access past the end. -/
def entry (slot : Nat) : Option (Option (EvmapIo α)) :=
  if slot < m.nentries then some (m.entries slot) else none

/-- `map->entries[slot] = ctx`. -/
def setEntry (slot : Nat) (ctx : EvmapIo α) : Option (EventIoMap α) :=
  if slot < m.nentries then
    some { m with entries := Function.update m.entries slot (some ctx) }
  else none

/-- `while (nentries <= slot) nentries <<= 1`. -/
def doubleUntil (slot : Nat) : Nat → Nat → Option Nat
  | 0, _ => none
  | fuel + 1, nentries =>
      if nentries ≤ slot then doubleUntil slot fuel (nentries * 2) else some nentries

/-- `evmap_make_space` on entries of `msize` bytes; the outer `none` is a loop
that does not end, the inner one the result `-1`. -/
def makeSpace (realloc : Bool) (slot msize : Nat) : Option (Option (EventIoMap α)) :=
  if m.nentries ≤ slot then
    if intMax / 2 < slot then some none
    else do
      let nentries ← doubleUntil slot 32 (if m.nentries ≠ 0 then m.nentries else 32)
      if intMax / msize < nentries then some none
      else if realloc then
        -- the new entries are cleared
        some (some ⟨nentries, fun i => if i < m.nentries then m.entries i else none⟩)
      else some none
  else some (some m)

end EventIoMap

namespace EvmapIo

variable {α : Type} (ctx : EvmapIo α)

/-- `old`: the events the slot has somebody waiting for. -/
def old : IoEvents := ⟨ctx.nread ≠ 0, ctx.nwrite ≠ 0, ctx.nclose ≠ 0⟩

/-- The slot with an event more, and the counters one up for each of its flags. -/
def push (d : IoDesc) (ev : α) : EvmapIo α where
  events := ev :: ctx.events
  nread := ctx.nread + d.evEvents.read.toNat
  nwrite := ctx.nwrite + d.evEvents.write.toNat
  nclose := ctx.nclose + d.evEvents.closed.toNat

/-- The slot without the event. -/
def drop [DecidableEq α] (d : IoDesc) (ev : α) : EvmapIo α where
  events := ctx.events.erase ev
  nread := ctx.nread - d.evEvents.read.toNat
  nwrite := ctx.nwrite - d.evEvents.write.toNat
  nclose := ctx.nclose - d.evEvents.closed.toNat

end EvmapIo

/-- The rest of `evmap_io_add_`, once it has the slot. -/
def evmapIoFill {α β : Type} (ops : Eventop β) (d : IoDesc) (ev : α) (m : EventIoMap α)
    (slot : Nat) (ctx : EvmapIo α) (b : β) : Option (Int × EventIoMap α × β) :=
  let ctx' := ctx.push d ev
  let res : IoEvents :=
    ⟨d.evEvents.read && ctx'.nread == 1, d.evEvents.write && ctx'.nwrite == 1,
      d.evEvents.closed && ctx'.nclose == 1⟩
  if 0xffff < ctx'.nread ∨ 0xffff < ctx'.nwrite ∨ 0xffff < ctx'.nclose then some (-1, m, b)
  else if res.isSet then
    match ops.add b d.evFd ctx.old res d.evEt with
    | (false, b) => some (-1, m, b)
    | (true, b) => do
        let m ← m.setEntry slot ctx'
        return (1, m, b)
  else do
    let m ← m.setEntry slot ctx'
    return (0, m, b)

/-- `evmap_io_add_`: the result `-1`, `0` or `1`, with the map and the backend. -/
def evmapIoAdd {α β : Type} (ops : Eventop β) (memory : Memory) (d : IoDesc) (ev : α)
    (m : EventIoMap α) (b : β) : Option (Int × EventIoMap α × β) :=
  if d.evFd < 0 then some (0, m, b)
  else do
    let slot := d.evFd.toNat
    match ← m.makeSpace memory.realloc slot 8 with
    | none => some (-1, m, b)
    | some m =>
        match ← m.entry slot with
        | none =>
            -- `GET_IO_SLOT_AND_CTOR`
            if memory.calloc then do
              let m ← m.setEntry slot {}
              evmapIoFill ops d ev m slot {} b
            else some (-1, m, b)
        | some ctx => evmapIoFill ops d ev m slot ctx b

/-- `evmap_io_del_`.  The counters may not go below zero. -/
def evmapIoDel {α β : Type} [DecidableEq α] (ops : Eventop β) (d : IoDesc) (ev : α)
    (m : EventIoMap α) (b : β) : Option (Int × EventIoMap α × β) :=
  if d.evFd < 0 then some (0, m, b)
  else
    let slot := d.evFd.toNat
    if m.nentries ≤ slot then some (-1, m, b)
    else
      match m.entries slot with
      | none => none
      | some ctx =>
          if d.evEvents.read && ctx.nread == 0 || d.evEvents.write && ctx.nwrite == 0 ||
              d.evEvents.closed && ctx.nclose == 0 then none
          else
            let ctx' := ctx.drop d ev
            let res : IoEvents :=
              ⟨d.evEvents.read && ctx'.nread == 0, d.evEvents.write && ctx'.nwrite == 0,
                d.evEvents.closed && ctx'.nclose == 0⟩
            if res.isSet then do
              let r := ops.del b d.evFd ctx.old res d.evEt
              let m ← m.setEntry slot ctx'
              return (if r.1 then 1 else -1, m, r.2)
            else do
              let m ← m.setEntry slot ctx'
              return (0, m, b)

/-- The events `evmap_io_active_` goes through. -/
def evmapIoEvents {α : Type} (m : EventIoMap α) (fd : Fd) : List α :=
  if fd < 0 ∨ (m.nentries : Int) ≤ fd then []
  else
    match m.entries fd.toNat with
    | none => []
    | some ctx => ctx.events

/-- `evmap_io_check_integrity_fn` on one slot; `inserted` is the flag
`EVLIST_INSERTED`. -/
def evmapIoCheckIntegrity {α : Type} (desc : α → IoDesc) (inserted : α → Bool) (fd : Nat)
    (ctx : EvmapIo α) : Bool :=
  ctx.events.all (fun ev =>
      inserted ev && (desc ev).evFd == fd && (desc ev).evEvents.isSet) &&
    ctx.events.countP (fun ev => (desc ev).evEvents.read) == ctx.nread &&
    ctx.events.countP (fun ev => (desc ev).evEvents.write) == ctx.nwrite &&
    ctx.events.countP (fun ev => (desc ev).evEvents.closed) == ctx.nclose

/-- `evmap_check_integrity_`, on the descriptors. -/
def evmapCheckIntegrity {α : Type} (desc : α → IoDesc) (inserted : α → Bool)
    (m : EventIoMap α) : Bool :=
  (List.range m.nentries).all fun fd =>
    match m.entries fd with
    | none => true
    | some ctx => evmapIoCheckIntegrity desc inserted fd ctx

/-! ## A base with the map -/

/-- What the map is used by: the events with `EVLIST_INSERTED`, and the backend. -/
structure IoBase (α β : Type) where
  desc : α → IoDesc
  inserted : α → Bool
  io : EventIoMap α
  backend : β

/-- What happens to a base, as far as its descriptors are concerned. -/
inductive IoCall (α β : Type)
  | assign (ev : α) (d : IoDesc)
  | add (ops : Eventop β) (memory : Memory) (ev : α)
  | del (ops : Eventop β) (ev : α)
  | outside (f : β → β)

namespace IoBase

variable {α β : Type} [DecidableEq α] (s : IoBase α β)

/-- A new base. -/
def new (desc : α → IoDesc) (backend : β) : IoBase α β :=
  ⟨desc, fun _ => false, .init, backend⟩

/-- The part of `event_add_nolock_` about an event of a descriptor. -/
def add (ops : Eventop β) (memory : Memory) (ev : α) : Option (IoBase α β) :=
  if (s.desc ev).evEvents.isSet && !s.inserted ev then do
    let (res, io, backend) ← evmapIoAdd ops memory (s.desc ev) ev s.io s.backend
    return { s with
      io, backend
      inserted := if res ≠ -1 then Function.update s.inserted ev true else s.inserted }
  else some s

/-- The part of `event_del_nolock_` about an event of a descriptor. -/
def del (ops : Eventop β) (ev : α) : Option (IoBase α β) :=
  if s.inserted ev then do
    let (_, io, backend) ← evmapIoDel ops (s.desc ev) ev s.io s.backend
    return { s with io, backend, inserted := Function.update s.inserted ev false }
  else some s

/-- `event_assign`.  An event that is added may not be assigned: such a call is
against the documentation of `event.h`, and stands here for no call. -/
def assign (ev : α) (d : IoDesc) : IoBase α β :=
  if s.inserted ev then s else { s with desc := Function.update s.desc ev d }

end IoBase

/-- The call on a base. -/
def IoBase.step {α β : Type} [DecidableEq α] (s : IoBase α β) : IoCall α β → Option (IoBase α β)
  | .assign ev d => some (s.assign ev d)
  | .add ops memory ev => s.add ops memory ev
  | .del ops ev => s.del ops ev
  | .outside f => some { s with backend := f s.backend }

/-! ## Integrity -/

section Integrity

variable {α β : Type} {desc : α → IoDesc} {inserted : α → Bool}

/-- What is asserted of a slot. -/
structure SlotOk (desc : α → IoDesc) (inserted : α → Bool) (fd : Nat) (ctx : EvmapIo α) :
    Prop where
  nodup : ctx.events.Nodup
  flagged : ∀ ev ∈ ctx.events, inserted ev = true
  onFd : ∀ ev ∈ ctx.events, (desc ev).evFd = fd
  waits : ∀ ev ∈ ctx.events, (desc ev).evEvents.isSet = true
  nread : ctx.events.countP (fun ev => (desc ev).evEvents.read) = ctx.nread
  nwrite : ctx.events.countP (fun ev => (desc ev).evEvents.write) = ctx.nwrite
  nclose : ctx.events.countP (fun ev => (desc ev).evEvents.closed) = ctx.nclose
  fits : ctx.nread ≤ 0xffff ∧ ctx.nwrite ≤ 0xffff ∧ ctx.nclose ≤ 0xffff

theorem slotOk_empty (fd : Nat) : SlotOk desc inserted fd ({} : EvmapIo α) :=
  ⟨List.nodup_nil, by simp, by simp, by simp, rfl, rfl, rfl, by simp⟩

/-- A slot does not depend on the events outside it. -/
theorem SlotOk.congr {fd : Nat} {ctx : EvmapIo α} (h : SlotOk desc inserted fd ctx)
    {desc' : α → IoDesc} {inserted' : α → Bool}
    (same : ∀ ev ∈ ctx.events, desc' ev = desc ev ∧ inserted' ev = inserted ev) :
    SlotOk desc' inserted' fd ctx := by
  have count (p : IoDesc → Bool) :
      ctx.events.countP (fun ev => p (desc' ev)) = ctx.events.countP (fun ev => p (desc ev)) := by
    refine List.countP_congr ?_
    intro ev mem
    rw [(same ev mem).1]
  refine ⟨h.nodup, ?_, ?_, ?_, ?_, ?_, ?_, h.fits⟩
  · intro ev mem
    rw [(same ev mem).2, h.flagged ev mem]
  · intro ev mem
    rw [(same ev mem).1, h.onFd ev mem]
  · intro ev mem
    rw [(same ev mem).1, h.waits ev mem]
  · exact (count fun d => d.evEvents.read).trans h.nread
  · exact (count fun d => d.evEvents.write).trans h.nwrite
  · exact (count fun d => d.evEvents.closed).trans h.nclose

/-- An event with the flag enters its slot. -/
theorem SlotOk.push {fd : Nat} {ctx : EvmapIo α} {ev : α} (h : SlotOk desc inserted fd ctx)
    (out : ev ∉ ctx.events) (flag : inserted ev = true) (onFd : (desc ev).evFd = fd)
    (waits : (desc ev).evEvents.isSet = true)
    (room : ¬ (0xffff < (ctx.push (desc ev) ev).nread ∨ 0xffff < (ctx.push (desc ev) ev).nwrite ∨
      0xffff < (ctx.push (desc ev) ev).nclose)) :
    SlotOk desc inserted fd (ctx.push (desc ev) ev) := by
  have count {p : IoDesc → Bool} {n : Nat}
      (eq : ctx.events.countP (fun ev => p (desc ev)) = n) :
      (ev :: ctx.events).countP (fun ev => p (desc ev)) = n + (p (desc ev)).toNat := by
    rw [List.countP_cons, eq]
    cases p (desc ev) <;> rfl
  refine ⟨List.nodup_cons.mpr ⟨out, h.nodup⟩, ?_, ?_, ?_, ?_, ?_, ?_, ?_⟩
  · intro x mem
    rcases List.mem_cons.mp mem with rfl | mem
    · exact flag
    · exact h.flagged x mem
  · intro x mem
    rcases List.mem_cons.mp mem with rfl | mem
    · exact onFd
    · exact h.onFd x mem
  · intro x mem
    rcases List.mem_cons.mp mem with rfl | mem
    · exact waits
    · exact h.waits x mem
  · exact count (p := fun d => d.evEvents.read) h.nread
  · exact count (p := fun d => d.evEvents.write) h.nwrite
  · exact count (p := fun d => d.evEvents.closed) h.nclose
  · omega

/-- An event leaves its slot; no counter goes below zero. -/
theorem SlotOk.drop [DecidableEq α] {fd : Nat} {ctx : EvmapIo α} {ev : α}
    (h : SlotOk desc inserted fd ctx) (mem : ev ∈ ctx.events) :
    SlotOk desc inserted fd (ctx.drop (desc ev) ev) ∧
      (desc ev).evEvents.read.toNat ≤ ctx.nread ∧
      (desc ev).evEvents.write.toNat ≤ ctx.nwrite ∧
      (desc ev).evEvents.closed.toNat ≤ ctx.nclose := by
  have count {p : IoDesc → Bool} {n : Nat}
      (eq : ctx.events.countP (fun ev => p (desc ev)) = n) :
      (ctx.events.erase ev).countP (fun ev => p (desc ev)) = n - (p (desc ev)).toNat ∧
        (p (desc ev)).toNat ≤ n := by
    rw [(List.perm_cons_erase mem).countP_eq, List.countP_cons] at eq
    cases flag : p (desc ev) with
    | true =>
        rw [flag, if_pos rfl] at eq
        show _ = n - 1 ∧ 1 ≤ n
        omega
    | false =>
        rw [flag, if_neg Bool.false_ne_true] at eq
        show _ = n - 0 ∧ 0 ≤ n
        omega
  have read := count (p := fun d => d.evEvents.read) h.nread
  have write := count (p := fun d => d.evEvents.write) h.nwrite
  have close := count (p := fun d => d.evEvents.closed) h.nclose
  have sub {x : α} (mem : x ∈ ctx.events.erase ev) : x ∈ ctx.events := List.mem_of_mem_erase mem
  have fits := h.fits
  refine ⟨⟨h.nodup.erase ev, fun x mem => h.flagged x (sub mem), fun x mem => h.onFd x (sub mem),
    fun x mem => h.waits x (sub mem), read.1, write.1, close.1, ?_⟩, read.2, write.2, close.2⟩
  show ctx.nread - _ ≤ 0xffff ∧ ctx.nwrite - _ ≤ 0xffff ∧ ctx.nclose - _ ≤ 0xffff
  omega

/-- `evmap_io_check_integrity_fn` finds nothing wrong with such a slot. -/
theorem SlotOk.check {fd : Nat} {ctx : EvmapIo α} (h : SlotOk desc inserted fd ctx) :
    evmapIoCheckIntegrity desc inserted fd ctx = true := by
  unfold evmapIoCheckIntegrity
  simp only [Bool.and_eq_true, List.all_eq_true, beq_iff_eq]
  refine ⟨⟨⟨?_, h.nread⟩, h.nwrite⟩, h.nclose⟩
  intro ev mem
  exact ⟨⟨h.flagged ev mem, h.onFd ev mem⟩, h.waits ev mem⟩

end Integrity

/-! ## What the functions do to the slots -/

namespace EventIoMap

variable {α : Type} {m : EventIoMap α}

/-- The slot of a descriptor; one that was never made is empty. -/
def slotAt (m : EventIoMap α) (fd : Nat) : EvmapIo α :=
  if fd < m.nentries then (m.entries fd).getD {} else {}

theorem slotAt_of_entry {fd : Nat} {ctx : EvmapIo α} (lt : fd < m.nentries)
    (entry : m.entries fd = some ctx) : m.slotAt fd = ctx := by
  unfold slotAt
  rw [if_pos lt, entry]
  rfl

/-- A slot with something in it was made. -/
theorem entry_of_ne {fd : Nat} (ne : (m.slotAt fd).events ≠ []) :
    fd < m.nentries ∧ m.entries fd = some (m.slotAt fd) := by
  unfold slotAt at ne ⊢
  by_cases lt : fd < m.nentries
  · rw [if_pos lt] at ne ⊢
    refine ⟨lt, ?_⟩
    cases entry : m.entries fd with
    | none =>
        rw [entry] at ne
        exact absurd rfl ne
    | some ctx => rfl
  · rw [if_neg lt] at ne
    exact absurd rfl ne

theorem setEntry_spec {fd : Nat} (lt : fd < m.nentries) (ctx : EvmapIo α) :
    ∃ m', m.setEntry fd ctx = some m' ∧ m'.nentries = m.nentries ∧
      m'.entries fd = some ctx ∧ m'.slotAt = Function.update m.slotAt fd ctx := by
  refine ⟨_, if_pos lt, rfl, Function.update_self .., ?_⟩
  funext i
  unfold slotAt
  show (if i < m.nentries then (Function.update m.entries fd (some ctx) i).getD {} else {}) = _
  by_cases eq : i = fd
  · rw [eq, Function.update_self, Function.update_self, if_pos lt]
    rfl
  · rw [Function.update_of_ne eq, Function.update_of_ne eq]

/-- The loop ends, with a number that is not more than twice the slot unless it
was so from the start. -/
theorem doubleUntil_spec (slot fuel : Nat) : ∀ n, 0 < n → slot < n * 2 ^ fuel →
    ∃ r, doubleUntil slot (fuel + 1) n = some r ∧ slot < r ∧ n ≤ r ∧ (r = n ∨ r ≤ 2 * slot) := by
  induction fuel with
  | zero =>
      intro n _ lt
      unfold doubleUntil
      rw [if_neg (by omega)]
      exact ⟨n, rfl, by omega, le_refl n, Or.inl rfl⟩
  | succ fuel ih =>
      intro n pos lt
      unfold doubleUntil
      by_cases le : n ≤ slot
      · rw [if_pos le]
        obtain ⟨r, run, big, up, small⟩ := ih (n * 2) (by omega)
          (by rw [Nat.mul_assoc, ← pow_succ']; exact lt)
        exact ⟨r, run, big, by omega, Or.inr (by omega)⟩
      · rw [if_neg le]
        exact ⟨n, rfl, by omega, le_refl n, Or.inl rfl⟩

/-- `evmap_make_space` makes the entry and changes no slot, or fails. -/
theorem makeSpace_spec (m : EventIoMap α) (realloc : Bool) (slot : Nat) :
    (∃ m', m.makeSpace realloc slot 8 = some (some m') ∧ slot < m'.nentries ∧
        m'.slotAt = m.slotAt) ∨
      m.makeSpace realloc slot 8 = some none ∧ m.nentries ≤ slot ∧
        (realloc = true → 2 ^ 27 ≤ slot) := by
  unfold makeSpace
  by_cases le : m.nentries ≤ slot
  swap
  · rw [if_neg le]
    exact Or.inl ⟨m, rfl, by omega, rfl⟩
  rw [if_pos le]
  by_cases large : intMax / 2 < slot
  · rw [if_pos large]
    refine Or.inr ⟨rfl, le, fun _ => ?_⟩
    unfold intMax at large
    omega
  rw [if_neg large]
  have start : 0 < (if m.nentries ≠ 0 then m.nentries else 32) := by split_ifs <;> omega
  obtain ⟨r, run, big, up, small⟩ := doubleUntil_spec slot 31 _ start (by
    unfold intMax at large
    have : 1 * 2 ^ 31 ≤ (if m.nentries ≠ 0 then m.nentries else 32) * 2 ^ 31 :=
      Nat.mul_le_mul_right _ start
    omega)
  rw [run]
  simp only [Option.bind_eq_bind, Option.bind_some]
  by_cases wide : intMax / 8 < r
  · rw [if_pos wide]
    refine Or.inr ⟨rfl, le, fun _ => ?_⟩
    unfold intMax at wide
    split_ifs at small <;> omega
  rw [if_neg wide]
  cases realloc with
  | false => exact Or.inr ⟨rfl, le, fun h => absurd h Bool.false_ne_true⟩
  | true =>
      refine Or.inl ⟨_, rfl, big, ?_⟩
      funext i
      unfold slotAt
      show (if i < r then (if i < m.nentries then m.entries i else none).getD {} else {}) = _
      by_cases lt : i < m.nentries
      · rw [if_pos lt, if_pos lt, if_pos (by split_ifs at up <;> omega)]
      · rw [if_neg lt, if_neg lt]
        split_ifs <;> rfl

end EventIoMap

/-- The kinds of which the event is the first in the slot. -/
def EvmapIo.first {α : Type} (ctx : EvmapIo α) (d : IoDesc) : IoEvents :=
  ⟨d.evEvents.read && ctx.nread == 0, d.evEvents.write && ctx.nwrite == 0,
    d.evEvents.closed && ctx.nclose == 0⟩

/-- The kinds of which the event is the last in the slot. -/
def EvmapIo.last {α : Type} (ctx : EvmapIo α) (d : IoDesc) : IoEvents :=
  ⟨d.evEvents.read && decide (ctx.nread ≤ 1), d.evEvents.write && decide (ctx.nwrite ≤ 1),
    d.evEvents.closed && decide (ctx.nclose ≤ 1)⟩

/-- The counters have room for the event. -/
def EvmapIo.Room {α : Type} (ctx : EvmapIo α) (d : IoDesc) : Prop :=
  ctx.nread + d.evEvents.read.toNat ≤ 0xffff ∧ ctx.nwrite + d.evEvents.write.toNat ≤ 0xffff ∧
    ctx.nclose + d.evEvents.closed.toNat ≤ 0xffff

/-- How `evmap_io_add_` can end on a slot: its result, whether the event has
entered the slot, and the backend. -/
inductive Added {α β : Type} (ops : Eventop β) (memory : Memory) (d : IoDesc) (ctx : EvmapIo α)
    (b : β) : Int → Bool → β → Prop
  | noMemory (full : ¬ (memory.realloc = true ∧ memory.calloc = true ∧ d.evFd.toNat < 2 ^ 27))
      (empty : ctx = {}) : Added ops memory d ctx b (-1) false b
  | noRoom (full : ¬ ctx.Room d) : Added ops memory d ctx b (-1) false b
  | refused {b' : β} (told : (ctx.first d).isSet = true) (room : ctx.Room d)
      (answer : ops.add b d.evFd ctx.old (ctx.first d) d.evEt = (false, b')) :
      Added ops memory d ctx b (-1) false b'
  | counted (quiet : (ctx.first d).isSet = false) (room : ctx.Room d) :
      Added ops memory d ctx b 0 true b
  | told {b' : β} (told : (ctx.first d).isSet = true) (room : ctx.Room d)
      (answer : ops.add b d.evFd ctx.old (ctx.first d) d.evEt = (true, b')) :
      Added ops memory d ctx b 1 true b'

section Functions

variable {α β : Type} {d : IoDesc} {ev : α} {m : EventIoMap α}

/-- With a backend that accepts every event it is told of the first of a kind, or
nothing happens to it. -/
theorem Added.cases_of_accepts {ops : Eventop β} {memory : Memory} {ctx : EvmapIo α} {b b' : β}
    {r : Int} {entered : Bool} (added : Added ops memory d ctx b r entered b')
    (yes : ∀ old res, res.isSet = true → (ops.add b d.evFd old res d.evEt).1 = true) :
    (r ≠ 1 ∧ b' = b ∧ (entered = true → (ctx.first d).isSet = false)) ∨
      r = 1 ∧ entered = true ∧ b' = (ops.add b d.evFd ctx.old (ctx.first d) d.evEt).2 := by
  cases added with
  | noMemory => exact Or.inl ⟨by decide, rfl, fun h => absurd h Bool.false_ne_true⟩
  | noRoom => exact Or.inl ⟨by decide, rfl, fun h => absurd h Bool.false_ne_true⟩
  | refused told room answer =>
      have accepted := yes ctx.old _ told
      rw [answer] at accepted
      cases accepted
  | counted quiet room => exact Or.inl ⟨by decide, rfl, fun _ => quiet⟩
  | told told room answer => exact Or.inr ⟨rfl, rfl, by rw [answer]⟩

/-- A counter that has just become one was zero. -/
theorem first_eq (ctx : EvmapIo α) (d : IoDesc) (ev : α) :
    (⟨d.evEvents.read && (ctx.push d ev).nread == 1, d.evEvents.write && (ctx.push d ev).nwrite == 1,
      d.evEvents.closed && (ctx.push d ev).nclose == 1⟩ : IoEvents) = ctx.first d := by
  have one (flag : Bool) (n : Nat) : (flag && n + flag.toNat == 1) = (flag && n == 0) := by
    cases flag <;> simp
  unfold EvmapIo.first EvmapIo.push
  rw [one, one, one]

/-- `evmap_io_add_` from its slot on. -/
theorem evmapIoFill_spec (ops : Eventop β) (memory : Memory) (d : IoDesc) (ev : α) (b : β)
    {slot : Nat} (lt : slot < m.nentries) (ctx : EvmapIo α) :
    ∃ r entered m' b', evmapIoFill ops d ev m slot ctx b = some (r, m', b') ∧
      Added ops memory d ctx b r entered b' ∧
      m'.slotAt = if entered then Function.update m.slotAt slot (ctx.push d ev) else m.slotAt := by
  obtain ⟨m', set, -, -, view⟩ := EventIoMap.setEntry_spec lt (ctx.push d ev)
  unfold evmapIoFill
  simp only [first_eq, set]
  by_cases full : 0xffff < (ctx.push d ev).nread ∨ 0xffff < (ctx.push d ev).nwrite ∨
      0xffff < (ctx.push d ev).nclose
  · rw [if_pos full]
    refine ⟨_, false, _, _, rfl, .noRoom ?_, rfl⟩
    unfold EvmapIo.Room
    unfold EvmapIo.push at full
    simp only at full
    omega
  rw [if_neg full]
  have room : ctx.Room d := by
    unfold EvmapIo.Room
    unfold EvmapIo.push at full
    simp only at full
    omega
  cases told : (ctx.first d).isSet with
  | false =>
      simp only [Bool.false_eq_true, if_false]
      exact ⟨_, true, _, _, rfl, .counted told room, view⟩
  | true =>
      simp only [if_true]
      cases answer : ops.add b d.evFd ctx.old (ctx.first d) d.evEt with
      | mk ok b' =>
          cases ok with
          | false => exact ⟨_, false, _, _, rfl, .refused told room answer, rfl⟩
          | true => exact ⟨_, true, _, _, rfl, .told told room answer, view⟩

/-- **`evmap_io_add_`**, on a descriptor. -/
theorem evmapIoAdd_spec (ops : Eventop β) (memory : Memory) (ev : α) (m : EventIoMap α) (b : β)
    (fd : 0 ≤ d.evFd) :
    ∃ r entered m' b', evmapIoAdd ops memory d ev m b = some (r, m', b') ∧
      Added ops memory d (m.slotAt d.evFd.toNat) b r entered b' ∧
      m'.slotAt = if entered then
          Function.update m.slotAt d.evFd.toNat ((m.slotAt d.evFd.toNat).push d ev)
        else m.slotAt := by
  unfold evmapIoAdd
  rw [if_neg (not_lt.mpr fd)]
  rcases EventIoMap.makeSpace_spec m memory.realloc d.evFd.toNat with
    ⟨m₁, space, lt, view⟩ | ⟨space, out, why⟩
  swap
  · simp only [space, Option.bind_eq_bind, Option.bind_some]
    refine ⟨_, false, _, _, rfl, .noMemory ?_ ?_, rfl⟩
    · rintro ⟨realloc, -, small⟩
      exact absurd (why realloc) (not_le.mpr small)
    · unfold EventIoMap.slotAt
      rw [if_neg (not_lt.mpr out)]
  rw [← view]
  have entry : m₁.entry d.evFd.toNat = some (m₁.entries d.evFd.toNat) := if_pos lt
  simp only [space, entry, Option.bind_eq_bind, Option.bind_some]
  cases made : m₁.entries d.evFd.toNat with
  | some ctx =>
      have here := EventIoMap.slotAt_of_entry lt made
      rw [here]
      exact evmapIoFill_spec ops memory d ev b lt ctx
  | none =>
      -- the slot is made
      have here : m₁.slotAt d.evFd.toNat = {} := by
        unfold EventIoMap.slotAt
        rw [if_pos lt, made]
        rfl
      cases calloc : memory.calloc with
      | false =>
          simp only [Bool.false_eq_true, if_false]
          refine ⟨_, false, _, _, rfl, .noMemory ?_ here, rfl⟩
          rintro ⟨-, found, -⟩
          rw [calloc] at found
          cases found
      | true =>
          obtain ⟨m₂, set, size, -, view₂⟩ := EventIoMap.setEntry_spec lt {}
          have same : m₂.slotAt = m₁.slotAt := by
            rw [view₂, ← here, Function.update_eq_self]
          simp only [if_true, set, Option.bind_some]
          obtain ⟨r, entered, m', b', run, added, view'⟩ :=
            evmapIoFill_spec ops memory d ev b (show d.evFd.toNat < m₂.nentries by omega) {}
          rw [here]
          refine ⟨r, entered, m', b', run, added, ?_⟩
          rw [view', same]

/-- A counter that becomes zero was at most one. -/
theorem last_eq [DecidableEq α] (ctx : EvmapIo α) (d : IoDesc) (ev : α) :
    (⟨d.evEvents.read && (ctx.drop d ev).nread == 0, d.evEvents.write && (ctx.drop d ev).nwrite == 0,
      d.evEvents.closed && (ctx.drop d ev).nclose == 0⟩ : IoEvents) = ctx.last d := by
  have zero (flag : Bool) (n : Nat) :
      (flag && n - flag.toNat == 0) = (flag && decide (n ≤ 1)) := by
    cases flag with
    | false => rfl
    | true =>
        rw [Bool.true_and, Bool.true_and, Bool.eq_iff_iff, beq_iff_eq, decide_eq_true_eq]
        exact Nat.sub_eq_zero_iff_le
  unfold EvmapIo.last EvmapIo.drop
  rw [zero, zero, zero]

/-- **`evmap_io_del_`**, for an event of the slot: it leaves, and the backend is
told of the kinds of which it was the last. -/
theorem evmapIoDel_spec [DecidableEq α] {desc : α → IoDesc} {inserted : α → Bool}
    (ops : Eventop β) (b : β) (fd : 0 ≤ (desc ev).evFd)
    (ok : SlotOk desc inserted (desc ev).evFd.toNat (m.slotAt (desc ev).evFd.toNat))
    (mem : ev ∈ (m.slotAt (desc ev).evFd.toNat).events) :
    ∃ r m', evmapIoDel ops (desc ev) ev m b = some (r, m',
        if ((m.slotAt (desc ev).evFd.toNat).last (desc ev)).isSet then
          (ops.del b (desc ev).evFd (m.slotAt (desc ev).evFd.toNat).old
            ((m.slotAt (desc ev).evFd.toNat).last (desc ev)) (desc ev).evEt).2
        else b) ∧
      m'.slotAt = Function.update m.slotAt (desc ev).evFd.toNat
        ((m.slotAt (desc ev).evFd.toNat).drop (desc ev) ev) := by
  obtain ⟨lt, made⟩ := EventIoMap.entry_of_ne (List.ne_nil_of_mem mem)
  obtain ⟨-, read, write, close⟩ := ok.drop mem
  generalize m.slotAt (desc ev).evFd.toNat = ctx at *
  obtain ⟨m', set, -, -, view⟩ := EventIoMap.setEntry_spec lt (ctx.drop (desc ev) ev)
  have above (flag : Bool) (n : Nat) (le : flag.toNat ≤ n) : (flag && n == 0) = false := by
    cases flag with
    | false => rfl
    | true =>
        rw [Bool.toNat_true] at le
        rw [Bool.true_and, beq_eq_false_iff_ne]
        omega
  unfold evmapIoDel
  rw [if_neg (not_lt.mpr fd), if_neg (not_le.mpr lt), made]
  simp only [above _ _ read, above _ _ write, above _ _ close, Bool.or_self, Bool.false_eq_true,
    if_false, last_eq, set]
  cases told : (ctx.last (desc ev)).isSet with
  | false =>
      simp only [Bool.false_eq_true, if_false]
      exact ⟨_, _, rfl, view⟩
  | true =>
      simp only [if_true]
      exact ⟨_, _, rfl, view⟩

/-- What an event adds to the events its slot waits for. -/
theorem old_push (ctx : EvmapIo α) (d : IoDesc) (ev : α) :
    (ctx.push d ev).old = ctx.old.union (ctx.first d) := by
  have each (flag : Bool) (n : Nat) :
      decide (n + flag.toNat ≠ 0) = (decide (n ≠ 0) || (flag && n == 0)) := by
    cases flag <;> cases n <;> simp
  unfold EvmapIo.old EvmapIo.push EvmapIo.first IoEvents.union
  rw [each, each, each]

/-- What it takes away when it leaves. -/
theorem old_drop [DecidableEq α] (ctx : EvmapIo α) (d : IoDesc) (ev : α) :
    (ctx.drop d ev).old = ctx.old.diff (ctx.last d) := by
  have each (flag : Bool) (n : Nat) :
      decide (n - flag.toNat ≠ 0) = (decide (n ≠ 0) && !(flag && decide (n ≤ 1))) := by
    cases flag with
    | false => simp
    | true =>
        rw [Bool.eq_iff_iff]
        simp only [Bool.toNat_true, decide_eq_true_eq, Bool.true_and, Bool.and_eq_true,
          Bool.not_eq_true', decide_eq_false_iff_not]
        omega
  unfold EvmapIo.old EvmapIo.drop EvmapIo.last IoEvents.diff
  rw [each, each, each]

/-- The slot of an event has somebody waiting for it. -/
theorem SlotOk.old_isSet [DecidableEq α] {desc : α → IoDesc} {inserted : α → Bool} {fd : Nat}
    {ctx : EvmapIo α} (h : SlotOk desc inserted fd ctx) (mem : ev ∈ ctx.events) :
    ctx.old.isSet = true := by
  obtain ⟨-, read, write, close⟩ := h.drop mem
  have waits := h.waits ev mem
  have above {flag : Bool} {n : Nat} (le : flag.toNat ≤ n) (on : flag = true) :
      decide (n ≠ 0) = true := by
    rw [on, Bool.toNat_true] at le
    exact decide_eq_true (by omega)
  unfold IoEvents.isSet at waits ⊢
  rw [Bool.or_eq_true, Bool.or_eq_true] at waits ⊢
  rcases waits with (on | on) | on
  · exact Or.inl (Or.inl (above read on))
  · exact Or.inl (Or.inr (above write on))
  · exact Or.inr (above close on)

/-- Nobody waits in an empty slot. -/
theorem SlotOk.old_idle {desc : α → IoDesc} {inserted : α → Bool} {fd : Nat} {ctx : EvmapIo α}
    (h : SlotOk desc inserted fd ctx) (empty : ctx.events = []) : ctx.old.isSet = false := by
  have read := h.nread
  have write := h.nwrite
  have close := h.nclose
  rw [empty] at read write close
  unfold EvmapIo.old
  rw [← read, ← write, ← close]
  rfl

section TwoBackends

variable {γ : Type} {ops : Eventop β} {ops' : Eventop γ} {b : β} {b' : γ}

/-- Two backends that accept every event make the same of the map. -/
theorem evmapIoFill_agree (m : EventIoMap α) (slot : Nat) (ctx : EvmapIo α) (ev : α)
    (yes : ∀ old res, res.isSet = true → (ops.add b d.evFd old res d.evEt).1 = true)
    (yes' : ∀ old res, res.isSet = true → (ops'.add b' d.evFd old res d.evEt).1 = true) :
    (evmapIoFill ops d ev m slot ctx b).map (fun r => (r.1, r.2.1)) =
      (evmapIoFill ops' d ev m slot ctx b').map fun r => (r.1, r.2.1) := by
  unfold evmapIoFill
  simp only [first_eq]
  split_ifs with full told
  · rfl
  · have accepted := yes ctx.old _ told
    have accepted' := yes' ctx.old _ told
    cases answer : ops.add b d.evFd ctx.old (ctx.first d) d.evEt with
    | mk ok b₁ =>
        cases answer' : ops'.add b' d.evFd ctx.old (ctx.first d) d.evEt with
        | mk ok' b₂ =>
            rw [answer] at accepted
            rw [answer'] at accepted'
            cases accepted
            cases accepted'
            cases m.setEntry slot (ctx.push d ev) <;> rfl
  · cases m.setEntry slot (ctx.push d ev) <;> rfl

theorem evmapIoAdd_agree (memory : Memory) (m : EventIoMap α) (ev : α)
    (yes : ∀ old res, res.isSet = true → (ops.add b d.evFd old res d.evEt).1 = true)
    (yes' : ∀ old res, res.isSet = true → (ops'.add b' d.evFd old res d.evEt).1 = true) :
    (evmapIoAdd ops memory d ev m b).map (fun r => (r.1, r.2.1)) =
      (evmapIoAdd ops' memory d ev m b').map fun r => (r.1, r.2.1) := by
  unfold evmapIoAdd
  by_cases neg : d.evFd < 0
  · rw [if_pos neg, if_pos neg]
    rfl
  rw [if_neg neg, if_neg neg]
  simp only [Option.bind_eq_bind]
  cases space : m.makeSpace memory.realloc d.evFd.toNat 8 with
  | none => rfl
  | some made =>
      cases made with
      | none => rfl
      | some m₁ =>
          simp only [Option.bind_some]
          cases m₁.entry d.evFd.toNat with
          | none => rfl
          | some slot =>
              cases slot with
              | some ctx => exact evmapIoFill_agree m₁ _ ctx ev yes yes'
              | none =>
                  simp only [Option.bind_some]
                  cases memory.calloc with
                  | false => rfl
                  | true =>
                      simp only [if_true]
                      cases m₁.setEntry d.evFd.toNat {} with
                      | none => rfl
                      | some m₂ => exact evmapIoFill_agree m₂ _ {} ev yes yes'

/-- Deleting makes the same of the map over all backends. -/
theorem evmapIoDel_agree [DecidableEq α] (ops : Eventop β) (ops' : Eventop γ) (d : IoDesc)
    (ev : α) (m : EventIoMap α) (b : β) (b' : γ) :
    (evmapIoDel ops d ev m b).map (fun r => r.2.1) =
      (evmapIoDel ops' d ev m b').map fun r => r.2.1 := by
  unfold evmapIoDel
  by_cases neg : d.evFd < 0
  · rw [if_pos neg, if_pos neg]
    rfl
  rw [if_neg neg, if_neg neg]
  simp only
  by_cases past : m.nentries ≤ d.evFd.toNat
  · rw [if_pos past, if_pos past]
    rfl
  rw [if_neg past, if_neg past]
  cases m.entries d.evFd.toNat with
  | none => rfl
  | some ctx =>
      simp only
      -- what the backend answers only goes into the result
      cases m.setEntry d.evFd.toNat (ctx.drop d ev) <;> split_ifs <;> rfl

end TwoBackends

end Functions

/-! ## The integrity of the map -/

section Integrity

variable {α β : Type} [DecidableEq α] {s : IoBase α β}

/-- Every slot is in order, and every event with the flag is in the slot of its
descriptor. -/
structure Integrity (s : IoBase α β) : Prop where
  slots : ∀ fd, SlotOk s.desc s.inserted fd (s.io.slotAt fd)
  has : ∀ ev, s.inserted ev = true → 0 ≤ (s.desc ev).evFd →
    ev ∈ (s.io.slotAt (s.desc ev).evFd.toNat).events

omit [DecidableEq α] in
/-- Then `evmap_check_integrity_` finds nothing wrong. -/
theorem Integrity.check (h : Integrity s) :
    evmapCheckIntegrity s.desc s.inserted s.io = true := by
  unfold evmapCheckIntegrity
  rw [List.all_eq_true]
  intro fd mem
  have lt := List.mem_range.mp mem
  cases entry : s.io.entries fd with
  | none => rfl
  | some ctx =>
      have ok := h.slots fd
      rw [EventIoMap.slotAt_of_entry lt entry] at ok
      exact ok.check

omit [DecidableEq α] in
theorem integrity_new (desc : α → IoDesc) (b : β) : Integrity (IoBase.new desc b) where
  slots fd := slotOk_empty fd
  has _ flag := absurd flag Bool.false_ne_true

omit [DecidableEq α] in
/-- An event without the flag is in no slot. -/
theorem Integrity.notMem (h : Integrity s) {ev : α} (off : s.inserted ev = false) (fd : Nat) :
    ev ∉ (s.io.slotAt fd).events := by
  intro mem
  rw [(h.slots fd).flagged ev mem] at off
  cases off

/-- An event that is not added may be assigned. -/
theorem Integrity.assign (h : Integrity s) (ev : α) (d : IoDesc) : Integrity (s.assign ev d) := by
  unfold IoBase.assign
  cases flag : s.inserted ev with
  | true => exact h
  | false =>
      have other {x : α} (on : s.inserted x = true) : Function.update s.desc ev d x = s.desc x := by
        refine Function.update_of_ne ?_ _ _
        rintro rfl
        rw [flag] at on
        cases on
      refine ⟨?_, ?_⟩
      · intro fd
        refine (h.slots fd).congr ?_
        intro x mem
        exact ⟨other ((h.slots fd).flagged x mem), rfl⟩
      · intro x on nonneg
        show x ∈ (s.io.slotAt (Function.update s.desc ev d x).evFd.toNat).events
        rw [other on]
        refine h.has x on ?_
        rw [← other on]
        exact nonneg

/-- Setting the flag of an event that is in no slot changes no slot. -/
theorem Integrity.flag (h : Integrity s) {ev : α} (off : s.inserted ev = false) (on : Bool)
    (fd : Nat) :
    SlotOk s.desc (Function.update s.inserted ev on) fd (s.io.slotAt fd) := by
  refine (h.slots fd).congr ?_
  intro x mem
  refine ⟨rfl, Function.update_of_ne ?_ _ _⟩
  rintro rfl
  exact h.notMem off fd mem

/-- An event that has entered its slot, with its flag set. -/
theorem Integrity.entered (h : Integrity s) {ev : α} (off : s.inserted ev = false)
    (waits : (s.desc ev).evEvents.isSet = true) (fd : 0 ≤ (s.desc ev).evFd)
    (room : (s.io.slotAt (s.desc ev).evFd.toNat).Room (s.desc ev)) {io : EventIoMap α} {b : β}
    (view : io.slotAt = Function.update s.io.slotAt (s.desc ev).evFd.toNat
      ((s.io.slotAt (s.desc ev).evFd.toNat).push (s.desc ev) ev)) :
    Integrity { s with
      io := io, backend := b, inserted := Function.update s.inserted ev true } := by
  refine ⟨?_, ?_⟩
  · intro i
    show SlotOk s.desc (Function.update s.inserted ev true) i (io.slotAt i)
    rw [view]
    by_cases eq : i = (s.desc ev).evFd.toNat
    · rw [eq, Function.update_self]
      refine (h.flag off true _).push (h.notMem off _) (Function.update_self ..)
        (Int.toNat_of_nonneg fd).symm waits ?_
      unfold EvmapIo.Room at room
      unfold EvmapIo.push
      simp only
      omega
    · rw [Function.update_of_ne eq]
      exact h.flag off true i
  · intro x on nonneg
    show x ∈ (io.slotAt (s.desc x).evFd.toNat).events
    rw [view]
    by_cases eq : x = ev
    · rw [eq, Function.update_self]
      exact List.mem_cons_self
    · have mem := h.has x ((Function.update_of_ne eq _ _).symm.trans on) nonneg
      by_cases same : (s.desc x).evFd.toNat = (s.desc ev).evFd.toNat
      · rw [same, Function.update_self]
        rw [same] at mem
        exact List.mem_cons_of_mem ev mem
      · rw [Function.update_of_ne same]
        exact mem

/-- **Adding keeps the map in order**, whatever the backend answers. -/
theorem Integrity.add (h : Integrity s) (ops : Eventop β) (memory : Memory) (ev : α) :
    ∃ s', s.add ops memory ev = some s' ∧ Integrity s' := by
  unfold IoBase.add
  by_cases new : ((s.desc ev).evEvents.isSet && !s.inserted ev) = true
  swap
  · rw [if_neg new]
    exact ⟨s, rfl, h⟩
  rw [if_pos new]
  obtain ⟨waits, off⟩ := Bool.and_eq_true_iff.mp new
  rw [Bool.not_eq_true'] at off
  by_cases neg : (s.desc ev).evFd < 0
  · -- no slot is kept for a negative descriptor
    have run : evmapIoAdd ops memory (s.desc ev) ev s.io s.backend = some (0, s.io, s.backend) :=
      if_pos neg
    simp only [run, Option.bind_eq_bind, Option.bind_some, Option.pure_def]
    refine ⟨_, rfl, h.flag off true, ?_⟩
    intro x on nonneg
    have ne : x ≠ ev := by
      rintro rfl
      exact absurd nonneg (not_le.mpr neg)
    exact h.has x ((Function.update_of_ne ne _ _).symm.trans on) nonneg
  obtain ⟨r, entered, io, b, run, added, view⟩ :=
    evmapIoAdd_spec ops memory ev s.io s.backend (not_lt.mp neg)
  simp only [run, Option.bind_eq_bind, Option.bind_some, Option.pure_def]
  refine ⟨_, rfl, ?_⟩
  have failed (no : entered = false) : Integrity { s with io := io, backend := b } := by
    rw [no, if_neg Bool.false_ne_true] at view
    refine ⟨?_, ?_⟩
    · intro fd
      show SlotOk s.desc s.inserted fd (io.slotAt fd)
      rw [view]
      exact h.slots fd
    · intro x on nonneg
      show x ∈ (io.slotAt (s.desc x).evFd.toNat).events
      rw [view]
      exact h.has x on nonneg
  cases added with
  | noMemory => exact failed rfl
  | noRoom => exact failed rfl
  | refused => exact failed rfl
  | counted quiet room => exact h.entered off waits (not_lt.mp neg) room view
  | told told room => exact h.entered off waits (not_lt.mp neg) room view

/-- An event that has left its slot, with its flag cleared. -/
theorem Integrity.left (h : Integrity s) {ev : α} (on : s.inserted ev = true)
    (fd : 0 ≤ (s.desc ev).evFd) {io : EventIoMap α} {b : β}
    (view : io.slotAt = Function.update s.io.slotAt (s.desc ev).evFd.toNat
      ((s.io.slotAt (s.desc ev).evFd.toNat).drop (s.desc ev) ev)) :
    Integrity { s with
      io := io, backend := b, inserted := Function.update s.inserted ev false } := by
  have mem := h.has ev on fd
  refine ⟨?_, ?_⟩
  · intro i
    show SlotOk s.desc (Function.update s.inserted ev false) i (io.slotAt i)
    rw [view]
    by_cases eq : i = (s.desc ev).evFd.toNat
    · rw [eq, Function.update_self]
      refine ((h.slots _).drop mem).1.congr ?_
      intro x left
      refine ⟨rfl, Function.update_of_ne ?_ _ _⟩
      exact ((h.slots _).nodup.mem_erase_iff.mp left).1
    · rw [Function.update_of_ne eq]
      refine (h.slots i).congr ?_
      intro x left
      have here := (h.slots i).onFd x left
      refine ⟨rfl, Function.update_of_ne ?_ _ _⟩
      intro same
      rw [same] at here
      exact eq (by rw [here, Int.toNat_natCast])
  · intro x flag nonneg
    have ne : x ≠ ev := by
      intro eq
      have off : Function.update s.inserted ev false x = true := flag
      rw [eq, Function.update_self] at off
      cases off
    have left := h.has x ((Function.update_of_ne ne _ _).symm.trans flag) nonneg
    show x ∈ (io.slotAt (s.desc x).evFd.toNat).events
    rw [view]
    by_cases same : (s.desc x).evFd.toNat = (s.desc ev).evFd.toNat
    · rw [same, Function.update_self]
      rw [same] at left
      exact (List.mem_erase_of_ne ne).mpr left
    · rw [Function.update_of_ne same]
      exact left

/-- **Deleting keeps the map in order**, and no assertion fails. -/
theorem Integrity.del (h : Integrity s) (ops : Eventop β) (ev : α) :
    ∃ s', s.del ops ev = some s' ∧ Integrity s' := by
  unfold IoBase.del
  by_cases on : s.inserted ev = true
  swap
  · rw [if_neg on]
    exact ⟨s, rfl, h⟩
  rw [if_pos on]
  by_cases neg : (s.desc ev).evFd < 0
  · have run : evmapIoDel ops (s.desc ev) ev s.io s.backend = some (0, s.io, s.backend) :=
      if_pos neg
    simp only [run, Option.bind_eq_bind, Option.bind_some, Option.pure_def]
    refine ⟨_, rfl, ?_, ?_⟩
    · intro fd
      refine (h.slots fd).congr ?_
      intro x mem
      have here := (h.slots fd).onFd x mem
      refine ⟨rfl, Function.update_of_ne ?_ _ _⟩
      intro eq
      rw [eq] at here
      exact absurd (Int.natCast_nonneg fd) (not_le.mpr (here ▸ neg))
    · intro x flag nonneg
      have ne : x ≠ ev := by
        rintro rfl
        exact absurd nonneg (not_le.mpr neg)
      exact h.has x ((Function.update_of_ne ne _ _).symm.trans flag) nonneg
  have fd := not_lt.mp neg
  obtain ⟨r, io, run, view⟩ := evmapIoDel_spec ops s.backend fd (h.slots _) (h.has ev on fd)
  simp only [run, Option.bind_eq_bind, Option.bind_some, Option.pure_def]
  exact ⟨_, rfl, h.left on fd view⟩

theorem Integrity.step (h : Integrity s) (c : IoCall α β) :
    ∃ s', s.step c = some s' ∧ Integrity s' := by
  cases c with
  | assign ev d => exact ⟨_, rfl, h.assign ev d⟩
  | add ops memory ev => exact h.add ops memory ev
  | del ops ev => exact h.del ops ev
  | outside f => exact ⟨_, rfl, h.slots, h.has⟩

/-- **The map of the descriptors keeps its integrity.**  After any sequence of
assignments (of events that are not added), additions and deletions, over any
backends and whatever they and the allocator answer, no access has left the
array, no assertion has failed, and `evmap_check_integrity_` finds every slot as
it should be. -/
theorem evmap_integrity (desc : α → IoDesc) (b : β) (cs : List (IoCall α β)) :
    ∃ s, StepSystem.run IoBase.step (IoBase.new desc b) cs = some s ∧ Integrity s ∧
      evmapCheckIntegrity s.desc s.inserted s.io = true := by
  have keep : ∀ (s : IoBase α β) (c : IoCall α β), Integrity s → True →
      ∃ s', s.step c = some s' ∧ Integrity s' := fun s c h _ => h.step c
  obtain ⟨s, run, h⟩ := StepSystem.run_total keep (integrity_new desc b) cs
    (StepSystem.Meets.of_forall (fun _ _ => trivial) _)
  exact ⟨s, run, h, h.check⟩

end Integrity

end SwiftEvent
