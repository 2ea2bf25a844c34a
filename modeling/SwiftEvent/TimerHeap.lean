import SwiftEvent.Core
import SwiftEvent.Queues
import SwiftEvent.Durations
import SwiftEvent.MinHeap

/-!
# The base with its heap of timers

`SwiftEvent.Base` lists the events that carry `EVLIST_TIMEOUT` and lets
`timeout_process` be handed the order in which they expire.  Here the timers are
kept where `event.c` keeps them, in the array of `minheap-internal.h`, and the
flag is all that is left of the list.  The functions are those of `event.c` that
touch the heap.

* `Agrees` — the heap holds exactly the flagged events.
* `timeout_process_order`, `heap_base_refines` — every run of the base with its
  heap is a run of `Base`, with an order `Base` allows; and it never gets stuck,
  so `Base` always has one.
* `timeout_next`, and what `epoll_dispatch` makes of it, on the heap and on the
  list (`timeoutNext_spec`): the wait ends with the earliest timer, and no more
  than a millisecond after it.
-/

namespace SwiftEvent

/-- `struct event_base` with `base->timeheap`.  In `base` the list of timers
records the flags `EVLIST_TIMEOUT`. -/
structure HeapBase where
  base : Base
  heap : MinHeap EvId

/-- `ev->ev_timeout` of every event. -/
def Base.deadlines (b : Base) : EvId → Timeval := fun e => (b.ev e).evTimeout

namespace HeapBase

variable (hb : HeapBase)

/-- `event_queue_remove_timeout`, in a base without common timeouts. -/
def eventQueueRemoveTimeout (e : EvId) : Option HeapBase := do
  let (_, heap) ← hb.heap.minHeapErase hb.base.deadlines e
  return ⟨{ hb.base with timeheap := unlink hb.base.timeheap e }, heap⟩

/-- `if (ev->ev_flags & EVLIST_TIMEOUT) event_queue_remove_timeout(base, ev)`. -/
def removeFlagged (e : EvId) : Option HeapBase :=
  if e ∈ hb.base.timeheap then hb.eventQueueRemoveTimeout e else some hb

/-- `event_queue_insert_timeout`, in a base without common timeouts.  The result
of the push is not looked at. -/
def eventQueueInsertTimeout (realloc : Bool) (e : EvId) : Option HeapBase := do
  let (_, heap) ← hb.heap.minHeapPush hb.base.deadlines realloc e
  return ⟨{ hb.base with timeheap := e :: hb.base.timeheap }, heap⟩

/-- The part of `event_add_nolock_` that only acts with a timeout. -/
def reschedule (realloc : Bool) (now : Timeval) (e : EvId) (tv : Timeval) :
    Option HeapBase := do
  let hb ← hb.removeFlagged e
  let b := hb.base
  let activequeue :=
    if (b.ev e).evRes.timeout then unlink b.activequeue e else b.activequeue
  let b := { b with
    ev := Function.update b.ev e { b.ev e with evTimeout := evutilTimeradd now tv }
    activequeue }
  eventQueueInsertTimeout ⟨b, hb.heap⟩ realloc e

/-- `event_add_nolock_` with a relative timeout; `realloc` says whether the heap
finds memory. -/
def eventAddNolock (opened : Fd → Bool) (env : Base.AddEnv) (realloc : Bool) (now : Timeval)
    (e : EvId) (tv : Option Timeval) : Option (Bool × HeapBase) :=
  let (room, heap) :=
    if tv.isSome && !decide (e ∈ hb.base.timeheap) then
      hb.heap.minHeapReserve realloc (1 + hb.heap.n)
    else (true, hb.heap)
  if !room then some (false, ⟨hb.base, heap⟩)
  else
    let (ok, b) := hb.base.eventAddNolock opened env now e none
    match tv with
    | some tv =>
        if ok then do
          let hb ← reschedule ⟨b, heap⟩ realloc now e tv
          return (true, hb)
        else some (false, ⟨b, heap⟩)
    | none => some (ok, ⟨b, heap⟩)

/-- `event_del_nolock_`; clearing the flag is the part of the base. -/
def eventDelNolock (opened : Fd → Bool) (e : EvId) : Option HeapBase := do
  let hb' ← hb.removeFlagged e
  return { hb' with base := hb.base.eventDelNolock opened e }

/-- The loop of `timeout_process`. -/
def timeoutLoop (opened : Fd → Bool) (now : Timeval) : Nat → HeapBase → Option HeapBase
  | 0, _ => none
  | fuel + 1, hb =>
      match hb.heap.minHeapTop with
      | none => some hb
      | some e =>
          if now < (hb.base.ev e).evTimeout then some hb
          else do
            let hb ← hb.eventDelNolock opened e
            timeoutLoop opened now fuel
              { hb with base := hb.base.eventActiveNolock e { timeout := true } 1 }

/-- `timeout_process`. -/
def timeoutProcess (opened : Fd → Bool) (now : Timeval) : Option HeapBase :=
  if hb.heap.minHeapEmpty then some hb
  else hb.timeoutLoop opened now (hb.heap.n + 1)

/-! ## The heap and the flags -/

/-- The heap holds exactly the events with the flag, by their deadlines. -/
def Agrees : Prop := hb.heap.Holds hb.base.deadlines {e | e ∈ hb.base.timeheap}

variable {hb} {opened : Fd → Bool} {now : Timeval} {e : EvId}

/-- What does not touch the timers does not touch the agreement. -/
theorem Agrees.frame (h : hb.Agrees) {b : Base} (timeheap : b.timeheap = hb.base.timeheap)
    (deadlines : ∀ x ∈ hb.base.timeheap, b.deadlines x = hb.base.deadlines x) :
    Agrees ⟨b, hb.heap⟩ := by
  have same : {e | e ∈ b.timeheap} = {e | e ∈ hb.base.timeheap} := by rw [timeheap]
  show hb.heap.Holds b.deadlines {e | e ∈ b.timeheap}
  rw [same]
  exact MinHeap.Holds.congr h deadlines

/-- The set of the flagged events once one of them is unlinked. -/
theorem flagged_unlink (l : List EvId) (e : EvId) :
    {x | x ∈ unlink l e} = {x | x ∈ l} \ {e} := by
  ext x
  simp

/-- A flagged event leaves the heap with its flag. -/
theorem Agrees.eventQueueRemoveTimeout (h : hb.Agrees) (flagged : e ∈ hb.base.timeheap) :
    ∃ heap, hb.eventQueueRemoveTimeout e =
        some ⟨{ hb.base with timeheap := unlink hb.base.timeheap e }, heap⟩ ∧
      Agrees ⟨{ hb.base with timeheap := unlink hb.base.timeheap e }, heap⟩ ∧
      heap.n + 1 = hb.heap.n ∧ heap.a = hb.heap.a := by
  rcases MinHeap.minHeapErase_spec h e with ⟨out, -⟩ | ⟨-, heap, run, holds, alloc⟩
  · exact absurd flagged out
  refine ⟨heap, ?_, ?_, ?_, alloc⟩
  · unfold HeapBase.eventQueueRemoveTimeout
    rw [run]
    rfl
  · show heap.Holds hb.base.deadlines {x | x ∈ unlink hb.base.timeheap e}
    rw [flagged_unlink]
    exact holds
  · have card := Set.ncard_sdiff_singleton_add_one (show e ∈ {x | x ∈ hb.base.timeheap} from flagged)
      (MinHeap.Holds.size h).2
    rw [holds.size.1, (MinHeap.Holds.size h).1] at card
    exact card

theorem Agrees.removeFlagged (h : hb.Agrees) (e : EvId) :
    ∃ heap, hb.removeFlagged e =
        some ⟨{ hb.base with timeheap := unlink hb.base.timeheap e }, heap⟩ ∧
      Agrees ⟨{ hb.base with timeheap := unlink hb.base.timeheap e }, heap⟩ ∧
      heap.n + (if e ∈ hb.base.timeheap then 1 else 0) = hb.heap.n ∧ heap.a = hb.heap.a := by
  unfold HeapBase.removeFlagged
  by_cases flagged : e ∈ hb.base.timeheap
  · obtain ⟨heap, run, agrees, n, a⟩ := h.eventQueueRemoveTimeout flagged
    rw [if_pos flagged, if_pos flagged]
    exact ⟨heap, run, agrees, n, a⟩
  · rw [if_neg flagged, if_neg flagged, unlink_of_notMem flagged]
    exact ⟨hb.heap, rfl, h, rfl, rfl⟩

/-- With room reserved, an event enters the heap with its flag. -/
theorem Agrees.eventQueueInsertTimeout (h : hb.Agrees) (off : e ∉ hb.base.timeheap)
    (small : hb.heap.n + 1 < 2147483648) (room : hb.heap.n + 1 ≤ hb.heap.a) (realloc : Bool) :
    ∃ heap, hb.eventQueueInsertTimeout realloc e =
        some ⟨{ hb.base with timeheap := e :: hb.base.timeheap }, heap⟩ ∧
      Agrees ⟨{ hb.base with timeheap := e :: hb.base.timeheap }, heap⟩ := by
  obtain ⟨ok, heap, run, after⟩ := MinHeap.minHeapPush_spec h off small realloc
  have eq : hb.eventQueueInsertTimeout realloc e =
      some ⟨{ hb.base with timeheap := e :: hb.base.timeheap }, heap⟩ := by
    unfold HeapBase.eventQueueInsertTimeout
    rw [run]
    rfl
  refine ⟨heap, eq, ?_⟩
  cases ok with
  | false => exact absurd after.2.2 (by omega)
  | true =>
      show heap.Holds hb.base.deadlines {x | x ∈ e :: hb.base.timeheap}
      have set : {x | x ∈ e :: hb.base.timeheap} = insert e {x | x ∈ hb.base.timeheap} := by
        ext x
        simp
      rw [set]
      exact after

/-- The base after the part of `event_add_nolock_` that acts with a timeout. -/
def rescheduled (b : Base) (now : Timeval) (e : EvId) (tv : Timeval) : Base :=
  { b with
    ev := Function.update b.ev e { b.ev e with evTimeout := evutilTimeradd now tv }
    activequeue := if (b.ev e).evRes.timeout then unlink b.activequeue e else b.activequeue
    timeheap := e :: unlink b.timeheap e }

/-- The event leaves the heap, gets its deadline and enters the heap again. -/
theorem Agrees.reschedule (h : hb.Agrees) (now : Timeval) (small : hb.heap.n + 1 < 2147483648)
    (room : e ∉ hb.base.timeheap → hb.heap.n + 1 ≤ hb.heap.a) (realloc : Bool) (tv : Timeval) :
    ∃ heap, hb.reschedule realloc now e tv = some ⟨rescheduled hb.base now e tv, heap⟩ ∧
      Agrees ⟨rescheduled hb.base now e tv, heap⟩ := by
  obtain ⟨heap, run, agrees, n, a⟩ := h.removeFlagged e
  have fits := MinHeap.Holds.fits h
  have small' : heap.n + 1 < 2147483648 := by split_ifs at n <;> omega
  have room' : heap.n + 1 ≤ heap.a := by
    by_cases flagged : e ∈ hb.base.timeheap
    · rw [if_pos flagged] at n
      omega
    · rw [if_neg flagged] at n
      have := room flagged
      omega
  let b : Base := { hb.base with
    timeheap := unlink hb.base.timeheap e
    ev := Function.update hb.base.ev e { hb.base.ev e with evTimeout := evutilTimeradd now tv }
    activequeue :=
      if (hb.base.ev e).evRes.timeout then unlink hb.base.activequeue e
      else hb.base.activequeue }
  have agrees' : Agrees ⟨b, heap⟩ := by
    refine agrees.frame rfl ?_
    intro x hx
    have ne : x ≠ e := (mem_unlink.mp hx).2
    show (b.ev x).evTimeout = (hb.base.ev x).evTimeout
    rw [show b.ev x = hb.base.ev x from Function.update_of_ne ne _ _]
  obtain ⟨heap', run', agrees''⟩ :=
    agrees'.eventQueueInsertTimeout (fun mem => (mem_unlink.mp mem).2 rfl) small' room' realloc
  refine ⟨heap', ?_, agrees''⟩
  unfold HeapBase.reschedule
  rw [run]
  exact run'

/-- `event_add_nolock_` without a timeout leaves the timers alone. -/
theorem eventAddNolock_timers (opened : Fd → Bool) (now : Timeval) (e : EvId) (b : Base)
    (env : Base.AddEnv) :
    (b.eventAddNolock opened env now e none).2.timeheap = b.timeheap ∧
      (b.eventAddNolock opened env now e none).2.ev = b.ev := by
  unfold Base.eventAddNolock
  simp only [Option.isSome_none, Bool.false_and, Bool.false_eq_true, if_false]
  by_cases listed : e ∈ b.inserted ∨ e ∈ b.activequeue
  · rw [if_pos listed]
    exact ⟨rfl, rfl⟩
  rw [if_neg listed]
  by_cases io : (b.ev e).evEvents.isIo = true
  · rw [if_pos io, Base.evmapIoAdd_eq]
    split_ifs <;> exact ⟨rfl, rfl⟩
  rw [if_neg io]
  by_cases signal : (b.ev e).evEvents.signal = true
  · rw [if_pos signal]
    cases added : b.evmapSignalAdd opened env e with
    | mk ok b' =>
        obtain ⟨disposition, shOld, eq | ⟨-, -, -, eq⟩⟩ := Base.evmapSignalAdd_cases added
        · subst eq
          cases ok <;> exact ⟨rfl, rfl⟩
        · subst eq
          cases ok <;> exact ⟨rfl, rfl⟩
  · rw [if_neg signal]
    exact ⟨rfl, rfl⟩

/-- `event_add_nolock_` with a timeout is the addition without one, followed by
the timer. -/
theorem eventAddNolock_some (b : Base) (env : Base.AddEnv) (tv : Timeval) :
    b.eventAddNolock opened env now e (some tv) =
      if env.heapFull = true ∧ e ∉ b.timeheap then (false, b)
      else if (b.eventAddNolock opened env now e none).1 = true then
        (true, rescheduled (b.eventAddNolock opened env now e none).2 now e tv)
      else (false, (b.eventAddNolock opened env now e none).2) := by
  unfold Base.eventAddNolock
  simp only [Option.isSome_none, Option.isSome_some, Bool.false_and, Bool.false_eq_true, if_false,
    Bool.true_and, Bool.and_eq_true, Bool.not_eq_true', decide_eq_false_iff_not]
  congr 1
  -- whatever the multiplexer and the evmap answered
  generalize (if e ∈ b.inserted ∨ e ∈ b.activequeue then _ else _ : Bool × Base) = added
  rcases added with ⟨ok, b'⟩
  cases ok <;> rfl

/-- The heap is full when `min_heap_reserve_` finds no memory for one event more. -/
def full (hb : HeapBase) (realloc : Bool) : Bool :=
  !(hb.heap.minHeapReserve realloc (1 + hb.heap.n)).1

/-- Without a timeout the heap is not asked for room. -/
theorem eventAddNolock_none_env (b : Base) (env : Base.AddEnv) (heapFull : Bool) :
    b.eventAddNolock opened { env with heapFull := heapFull } now e none =
      b.eventAddNolock opened env now e none := rfl

/-- **`event_add_nolock_` on the heap is the one of `Base`.** -/
theorem Agrees.eventAddNolock (h : hb.Agrees) (opened : Fd → Bool) (now : Timeval) (e : EvId)
    (small : hb.heap.n + 1 < 2147483648) (env : Base.AddEnv) (realloc : Bool)
    (tv : Option Timeval) :
    ∃ ok hb', hb.eventAddNolock opened env realloc now e tv = some (ok, hb') ∧
      hb.base.eventAddNolock opened { env with heapFull := hb.full realloc } now e tv =
        (ok, hb'.base) ∧ hb'.Agrees := by
  have timers := eventAddNolock_timers opened now e hb.base env
  have kept {heap : MinHeap EvId} (agrees : Agrees ⟨hb.base, heap⟩) :
      Agrees ⟨(hb.base.eventAddNolock opened env now e none).2, heap⟩ := by
    refine agrees.frame timers.1 ?_
    intro x _
    show (_ : Event).evTimeout = _
    exact congrArg Event.evTimeout (congrFun timers.2 x)
  cases tv with
  | none => exact ⟨_, _, rfl, rfl, kept h⟩
  | some tv =>
      rw [eventAddNolock_some, eventAddNolock_none_env]
      unfold HeapBase.eventAddNolock full
      -- once there is room, the result of the addition decides
      have finish {heap : MinHeap EvId} (agrees : Agrees ⟨hb.base, heap⟩)
          (n : heap.n = hb.heap.n) (room : e ∉ hb.base.timeheap → heap.n + 1 ≤ heap.a) :
          ∃ ok hb',
            (if (hb.base.eventAddNolock opened env now e none).1 then do
                let hb ← HeapBase.reschedule
                  ⟨(hb.base.eventAddNolock opened env now e none).2, heap⟩ realloc now e tv
                return (true, hb)
              else some (false, ⟨(hb.base.eventAddNolock opened env now e none).2, heap⟩)) =
              some (ok, hb') ∧
            (if (hb.base.eventAddNolock opened env now e none).1 = true then
                (true, rescheduled (hb.base.eventAddNolock opened env now e none).2 now e tv)
              else (false, (hb.base.eventAddNolock opened env now e none).2)) =
              (ok, hb'.base) ∧ hb'.Agrees := by
        by_cases accepted : (hb.base.eventAddNolock opened env now e none).1 = true
        · rw [if_pos accepted, if_pos accepted]
          rw [← timers.1] at room
          obtain ⟨heap', run, agrees'⟩ := (kept agrees).reschedule now
            (show heap.n + 1 < 2147483648 by omega) room realloc tv
          refine ⟨_, _, ?_, rfl, agrees'⟩
          rw [run]
          rfl
        · rw [if_neg accepted, if_neg accepted]
          exact ⟨_, _, rfl, rfl, kept agrees⟩
      by_cases flagged : e ∈ hb.base.timeheap
      · simp only [flagged, decide_true, Bool.not_true, Bool.and_false, Bool.false_eq_true,
          if_false, not_true_eq_false, and_false]
        exact finish h rfl fun off => absurd flagged off
      simp only [flagged, decide_false, Bool.not_false, Option.isSome_some, Bool.and_self,
        if_true, not_false_eq_true, and_true]
      rcases MinHeap.minHeapReserve_cases hb.heap realloc (1 + hb.heap.n) with
        ⟨a, eq, grows, enough⟩ | ⟨eq, -, -⟩
      · simp only [eq, Bool.not_true, Bool.false_eq_true, if_false]
        exact finish (MinHeap.Holds.reserve h grows) rfl fun _ => (by omega : hb.heap.n + 1 ≤ a)
      · simp only [eq, Bool.not_false, if_true]
        exact ⟨_, _, rfl, rfl, h⟩

/-- **`event_del_nolock_` on the heap is the one of `Base`.** -/
theorem Agrees.eventDelNolock (h : hb.Agrees) (opened : Fd → Bool) (e : EvId) :
    ∃ heap, hb.eventDelNolock opened e = some ⟨hb.base.eventDelNolock opened e, heap⟩ ∧
      Agrees ⟨hb.base.eventDelNolock opened e, heap⟩ ∧
      heap.n + (if e ∈ hb.base.timeheap then 1 else 0) = hb.heap.n := by
  obtain ⟨heap, run, agrees, n, -⟩ := h.removeFlagged e
  refine ⟨heap, ?_, ?_, n⟩
  · unfold HeapBase.eventDelNolock
    rw [run]
    rfl
  · refine agrees.frame (by simp) ?_
    intro x _
    show ((hb.base.eventDelNolock opened e).ev x).evTimeout = _
    rw [Base.eventDelNolock_ev]
    rfl

theorem Agrees.eventActiveNolock (h : hb.Agrees) (res : Evs) (ncalls : Nat) :
    Agrees ⟨hb.base.eventActiveNolock e res ncalls, hb.heap⟩ := by
  refine h.frame (Base.eventActiveNolock_fields hb.base e res ncalls).2.1 ?_
  intro x _
  show ((hb.base.eventActiveNolock e res ncalls).ev x).evTimeout = (hb.base.ev x).evTimeout
  by_cases eq : x = e
  · subst eq
    unfold Base.eventActiveNolock
    split_ifs <;> simp
  · rw [Base.eventActiveNolock_ev_of_ne hb.base eq]

/-- The top of the heap is one `Base` allows to expire next. -/
theorem Agrees.isTop (h : hb.Agrees) (top : hb.heap.minHeapTop = some e) : hb.base.IsTop e := by
  have least := MinHeap.Holds.top h
  rw [top] at least
  exact least

theorem Agrees.no_timers (h : hb.Agrees) (top : hb.heap.minHeapTop = none) :
    ∀ e, e ∉ hb.base.timeheap := by
  have empty := MinHeap.Holds.top h
  rw [top] at empty
  intro e mem
  have : e ∈ ({e | e ∈ hb.base.timeheap} : Set EvId) := mem
  rw [show {e | e ∈ hb.base.timeheap} = (∅ : Set EvId) from empty] at this
  exact this.elim

/-- The loop of `timeout_process` ends within as many rounds as there are
timers, and expires them in an order `Base` allows. -/
theorem timeoutLoop_order (fuel : Nat) : ∀ {hb : HeapBase}, hb.Agrees → hb.heap.n < fuel →
    ∃ hb' order, hb.timeoutLoop opened now fuel = some hb' ∧
      hb.base.timeoutProcess opened now order = some hb'.base ∧ hb'.Agrees := by
  induction fuel with
  | zero =>
      intro hb _ lt
      omega
  | succ fuel ih =>
      intro hb h lt
      cases top : hb.heap.minHeapTop with
      | none =>
          refine ⟨hb, [], ?_, ?_, h⟩
          · simp only [timeoutLoop, top]
          · rw [Base.timeoutProcess, if_pos]
            intro e mem
            exact absurd mem (h.no_timers top e)
      | some e =>
          have isTop := h.isTop top
          by_cases later : now < (hb.base.ev e).evTimeout
          · refine ⟨hb, [], ?_, ?_, h⟩
            · simp only [timeoutLoop, top, if_pos later]
            · rw [Base.timeoutProcess, if_pos]
              intro x mem
              exact lt_of_lt_of_le later (isTop.2 x mem)
          · -- the top is due: it is deleted and made active
            obtain ⟨heap, run, agrees, n⟩ := h.eventDelNolock opened e
            rw [if_pos isTop.1] at n
            obtain ⟨hb', order, loop, process, agrees'⟩ :=
              ih (agrees.eventActiveNolock (e := e) { timeout := true } 1)
                (show heap.n < fuel by omega)
            refine ⟨hb', e :: order, ?_, ?_, agrees'⟩
            · simp only [timeoutLoop, top, if_neg later]
              show (hb.eventDelNolock opened e).bind _ = _
              rw [run]
              exact loop
            · rw [Base.timeoutProcess, if_pos ⟨isTop, not_lt.mp later⟩]
              exact process

/-- **`timeout_process` on the heap is the one of `Base`**, in one of the orders
`Base` allows. -/
theorem Agrees.timeoutProcess (h : hb.Agrees) (opened : Fd → Bool) (now : Timeval) :
    ∃ hb' order, hb.timeoutProcess opened now = some hb' ∧
      hb.base.timeoutProcess opened now order = some hb'.base ∧ hb'.Agrees := by
  unfold HeapBase.timeoutProcess
  by_cases empty : hb.heap.minHeapEmpty = true
  · refine ⟨hb, [], if_pos empty, ?_, h⟩
    have top : hb.heap.minHeapTop = none := by
      unfold MinHeap.minHeapEmpty at empty
      unfold MinHeap.minHeapTop
      rw [if_neg]
      simpa using empty
    rw [Base.timeoutProcess, if_pos]
    intro e mem
    exact absurd mem (h.no_timers top e)
  · rw [if_neg empty]
    exact timeoutLoop_order _ h (Nat.lt_succ_self _)

/-! ## Runs -/

/-- What can be done to a base: the functions that touch its timers, and
anything else, as long as it leaves the timers and their deadlines alone. -/
inductive Call
  | add (opened : Fd → Bool) (env : Base.AddEnv) (realloc : Bool) (now : Timeval) (e : EvId)
      (tv : Option Timeval)
  | del (opened : Fd → Bool) (e : EvId)
  | active (e : EvId) (res : Evs) (ncalls : Nat)
  | dispatch (opened : Fd → Bool) (ready : List (Fd × Base.EpollReport)) (now : Timeval)
  | other (f : Base → Base)
      (apart : ∀ b, (f b).timeheap = b.timeheap ∧
        ∀ x ∈ b.timeheap, (f b).deadlines x = b.deadlines x)

/-- The call on the base with its heap. -/
def Call.step : Call → HeapBase → Option HeapBase
  | .add opened env realloc now e tv, hb =>
      (hb.eventAddNolock opened env realloc now e tv).map Prod.snd
  | .del opened e, hb => hb.eventDelNolock opened e
  | .active e res ncalls, hb => some { hb with base := hb.base.eventActiveNolock e res ncalls }
  | .dispatch opened ready now, hb =>
      timeoutProcess { hb with base := { hb.base.epollDispatch ready with pass := now } }
        opened now
  | .other f _, hb => some { hb with base := f hb.base }

/-- The calls one after the other. -/
def calls : HeapBase → List Call → Option HeapBase
  | hb, [] => some hb
  | hb, c :: cs => do
      let hb ← c.step hb
      calls hb cs

/-- What `Base` allows the call to do. -/
def Call.Allows : Call → Base → Base → Prop
  | .add opened env _ now e tv, b, b' =>
      ∃ heapFull, b' = (b.eventAddNolock opened { env with heapFull := heapFull } now e tv).2
  | .del opened e, b, b' => b' = b.eventDelNolock opened e
  | .active e res ncalls, b, b' => b' = b.eventActiveNolock e res ncalls
  | .dispatch opened ready now, b, b' =>
      ∃ order, b.dispatchPass opened ready now order = some b'
  | .other f _, b, b' => b' = f b

/-- What `Base` allows a sequence of calls to do. -/
def Allow : List Call → Base → Base → Prop
  | [], b, b' => b' = b
  | c :: cs, b, b' => ∃ d, c.Allows b d ∧ Allow cs d b'

/-- One event more with the flag is one more in the heap. -/
theorem Agrees.size_le {hb' : HeapBase} (h : hb.Agrees) (h' : hb'.Agrees) (e : EvId)
    (sub : ∀ x ∈ hb'.base.timeheap, x ∈ hb.base.timeheap ∨ x = e) :
    hb'.heap.n ≤ hb.heap.n + 1 := by
  obtain ⟨size, finite⟩ := MinHeap.Holds.size h
  calc hb'.heap.n = {x | x ∈ hb'.base.timeheap}.ncard := (MinHeap.Holds.size h').1.symm
    _ ≤ (insert e {x | x ∈ hb.base.timeheap}).ncard := by
        refine Set.ncard_le_ncard ?_ (finite.insert e)
        intro x hx
        rcases sub x hx with mem | rfl
        · exact Set.mem_insert_of_mem e mem
        · exact Set.mem_insert x _
    _ ≤ {x | x ∈ hb.base.timeheap}.ncard + 1 := Set.ncard_insert_le e _
    _ = hb.heap.n + 1 := by rw [size]

/-- Adding sets the flag of no other event. -/
theorem timeheap_eventAddNolock (opened : Fd → Bool) (now : Timeval) (b : Base)
    (env : Base.AddEnv) (tv : Option Timeval) :
    ∀ x ∈ (b.eventAddNolock opened env now e tv).2.timeheap, x ∈ b.timeheap ∨ x = e := by
  intro x mem
  have timers := eventAddNolock_timers opened now e b env
  cases tv with
  | none =>
      rw [timers.1] at mem
      exact Or.inl mem
  | some tv =>
      rw [eventAddNolock_some] at mem
      split_ifs at mem with full accepted
      · exact Or.inl mem
      · rcases List.mem_cons.mp mem with eq | mem
        · exact Or.inr eq
        · rw [timers.1] at mem
          exact Or.inl (mem_unlink.mp mem).1
      · rw [timers.1] at mem
        exact Or.inl mem

/-- One call on the base with its heap is one `Base` allows. -/
theorem Call.step_allows (h : hb.Agrees) (small : hb.heap.n + 1 < 2147483648) (c : Call) :
    ∃ hb', c.step hb = some hb' ∧ c.Allows hb.base hb'.base ∧ hb'.Agrees ∧
      hb'.heap.n ≤ hb.heap.n + 1 := by
  cases c with
  | add opened env realloc now e tv =>
      obtain ⟨ok, hb', run, eq, agrees⟩ :=
        h.eventAddNolock opened now e small env realloc tv
      refine ⟨hb', ?_, ⟨hb.full realloc, ?_⟩, agrees, h.size_le agrees e ?_⟩
      · show (hb.eventAddNolock opened env realloc now e tv).map Prod.snd = some hb'
        rw [run]
        rfl
      · rw [eq]
      · intro x mem
        refine timeheap_eventAddNolock opened now hb.base
          { env with heapFull := hb.full realloc } tv x ?_
        rw [eq]
        exact mem
  | del opened e =>
      obtain ⟨heap, run, agrees, n⟩ := h.eventDelNolock opened e
      refine ⟨_, run, rfl, agrees, ?_⟩
      show heap.n ≤ hb.heap.n + 1
      split_ifs at n <;> omega
  | active e res ncalls =>
      exact ⟨_, rfl, rfl, h.eventActiveNolock res ncalls, Nat.le_succ _⟩
  | dispatch opened ready now =>
      have act := Base.activates_epollDispatch hb.base ready
      have reported : Agrees ⟨{ hb.base.epollDispatch ready with pass := now }, hb.heap⟩ := by
        refine h.frame act.timeheap ?_
        intro x _
        exact act.deadline x
      obtain ⟨hb', order, run, process, agrees⟩ := reported.timeoutProcess opened now
      refine ⟨hb', run, ⟨order, process⟩, agrees, h.size_le agrees .signalPipe ?_⟩
      intro x mem
      have sub := (Base.expires_timeoutProcess process).1.timeheap.subset mem
      left
      rw [← act.timeheap]
      exact sub
  | other f apart =>
      exact ⟨_, rfl, rfl, h.frame (apart hb.base).1 (apart hb.base).2, Nat.le_succ _⟩

theorem calls_allow (cs : List Call) : ∀ {hb : HeapBase}, hb.Agrees →
    hb.heap.n + cs.length < 2147483648 →
    ∃ hb', calls hb cs = some hb' ∧ Allow cs hb.base hb'.base ∧ hb'.Agrees := by
  induction cs with
  | nil =>
      intro hb h _
      exact ⟨hb, rfl, rfl, h⟩
  | cons c cs ih =>
      intro hb h small
      rw [List.length_cons] at small
      obtain ⟨hb', step, allows, agrees, grown⟩ := c.step_allows h (by omega)
      obtain ⟨hb'', run, allow, agrees'⟩ := ih agrees (by omega)
      refine ⟨hb'', ?_, ⟨_, allows, allow⟩, agrees'⟩
      show (c.step hb).bind _ = _
      rw [step]
      exact run

/-- A new base with an empty heap. -/
theorem agrees_new (pipeFd : Fd) (p : Nat → EvId) :
    Agrees ⟨Base.new pipeFd, MinHeap.minHeapCtor p⟩ := by
  show MinHeap.Holds _ (MinHeap.minHeapCtor p) {e | e ∈ (Base.new pipeFd).timeheap}
  have none : {e | e ∈ (Base.new pipeFd).timeheap} = (∅ : Set EvId) := by
    ext e
    simp [Base.new]
  rw [none]
  exact MinHeap.holds_ctor _ p

/-- **The base with its heap refines `Base`.**  Whatever is done to a new base,
the array is never accessed out of its bounds, every loop over it ends, and the
run is one `Base` allows: the timers expire in an order it lets them expire in,
and an addition fails for want of memory where it may. -/
theorem heap_base_refines (pipeFd : Fd) (p : Nat → EvId) (cs : List Call)
    (few : cs.length < 2147483648) :
    ∃ hb, calls ⟨Base.new pipeFd, MinHeap.minHeapCtor p⟩ cs = some hb ∧
      Allow cs (Base.new pipeFd) hb.base ∧ hb.Agrees :=
  calls_allow cs (agrees_new pipeFd p) (by show 0 + cs.length < _; omega)

/-- Two timers set, and a pass in which one of them is due. -/
theorem heap_base_two_timers :
    ∃ hb, calls ⟨Base.new 3, MinHeap.minHeapCtor fun _ => .signalPipe⟩
        [.add (fun _ => true) {} true ⟨0, 0⟩ (.call 0) (some ⟨5, 0⟩),
          .add (fun _ => true) {} true ⟨0, 0⟩ (.call 1) (some ⟨2, 0⟩),
          .dispatch (fun _ => true) [] ⟨3, 0⟩] = some hb ∧
      Allow [.add (fun _ => true) {} true ⟨0, 0⟩ (.call 0) (some ⟨5, 0⟩),
          .add (fun _ => true) {} true ⟨0, 0⟩ (.call 1) (some ⟨2, 0⟩),
          .dispatch (fun _ => true) [] ⟨3, 0⟩] (Base.new 3) hb.base ∧ hb.Agrees :=
  heap_base_refines 3 (fun _ => .signalPipe) _ (by decide)

/-! ## How long the loop waits -/

/-- `evutil_timersub(tvp, uvp, vvp)`. -/
def evutilTimersub (tvp uvp : Timeval) : Timeval :=
  let sec := wrap64 (tvp.tvSec - uvp.tvSec)
  let usec := wrap64 (tvp.tvUsec - uvp.tvUsec)
  if usec < 0 then ⟨wrap64 (sec - 1), usec + 1000000⟩ else ⟨sec, usec⟩

/-- `timeout_next`; `none` is the null pointer, with which the multiplexer waits
without a timeout. -/
def timeoutNext (hb : HeapBase) (now : Timeval) : Option Timeval :=
  match hb.heap.minHeapTop with
  | none => none
  | some e =>
      if (hb.base.ev e).evTimeout ≤ now then some ⟨0, 0⟩
      else some (evutilTimersub (hb.base.ev e).evTimeout now)

/-- `evutil_tv_to_msec_`. -/
def evutilTvToMsec (tv : Timeval) : Int :=
  if 1000000 < tv.tvUsec ∨ (9223372036854775807 - 999) / 1000 < tv.tvSec then -1
  else tv.tvSec * 1000 + (tv.tvUsec + 999).tdiv 1000

/-- `MAX_EPOLL_TIMEOUT_MSEC`. -/
def maxEpollTimeoutMsec : Int := 35 * 60 * 1000

/-- The timeout `epoll_dispatch` gives to `epoll_wait(2)`, in milliseconds. -/
def epollTimeout : Option Timeval → Int
  | none => -1
  | some tv =>
      let timeout := evutilTvToMsec tv
      if timeout < 0 ∨ maxEpollTimeoutMsec < timeout then maxEpollTimeoutMsec else timeout

/-- Seconds that fit `time_t`, since the epoch, and a fraction of a second. -/
def Clocked (t : Timeval) : Prop := 0 ≤ t.tvSec ∧ t.tvSec < 2 ^ 63 ∧ t.Normal

instance (t : Timeval) : Decidable (Clocked t) := inferInstanceAs (Decidable (_ ∧ _ ∧ _))

theorem wrap64_of_range {n : Int} (low : -2 ^ 63 ≤ n) (high : n < 2 ^ 63) : wrap64 n = n := by
  unfold wrap64
  rw [Int.bmod_eq_of_le] <;> omega

/-- The difference of two clock readings is exact and normal. -/
theorem evutilTimersub_spec {t u : Timeval} (ht : Clocked t) (hu : Clocked u) (lt : u < t) :
    (evutilTimersub t u).micros = t.micros - u.micros ∧ (evutilTimersub t u).Normal ∧
      0 ≤ (evutilTimersub t u).tvSec := by
  obtain ⟨ht₀, ht₁, htn₀, htn₁⟩ := ht
  obtain ⟨hu₀, hu₁, hun₀, hun₁⟩ := hu
  rw [Timeval.lt_def] at lt
  unfold evutilTimersub
  simp only [wrap64_of_range (show -2 ^ 63 ≤ t.tvSec - u.tvSec by omega) (by omega),
    wrap64_of_range (show -2 ^ 63 ≤ t.tvUsec - u.tvUsec by omega) (by omega)]
  by_cases borrow : t.tvUsec - u.tvUsec < 0
  · rw [if_pos borrow, wrap64_of_range (by omega) (by omega)]
    refine ⟨?_, ?_, ?_⟩
    · simp only [Timeval.micros]
      omega
    · constructor
      · show 0 ≤ t.tvUsec - u.tvUsec + 1000000
        omega
      · show t.tvUsec - u.tvUsec + 1000000 < 10 ^ 6
        omega
    · show 0 ≤ t.tvSec - u.tvSec - 1
      split_ifs at lt <;> omega
  · rw [if_neg borrow]
    refine ⟨?_, ?_, ?_⟩
    · simp only [Timeval.micros]
      omega
    · constructor
      · show 0 ≤ t.tvUsec - u.tvUsec
        omega
      · show t.tvUsec - u.tvUsec < 10 ^ 6
        omega
    · show 0 ≤ t.tvSec - u.tvSec
      split_ifs at lt <;> omega

/-- The milliseconds of a wait are rounded up, and limited. -/
theorem epollTimeout_spec {tv : Timeval} (sec : 0 ≤ tv.tvSec) (normal : tv.Normal) :
    0 ≤ epollTimeout (some tv) ∧ epollTimeout (some tv) ≤ maxEpollTimeoutMsec ∧
      (epollTimeout (some tv) < maxEpollTimeoutMsec →
        tv.micros ≤ 1000 * epollTimeout (some tv)) ∧
      (0 < epollTimeout (some tv) → 1000 * (epollTimeout (some tv) - 1) < tv.micros) := by
  obtain ⟨low, high⟩ := normal
  simp only [epollTimeout, evutilTvToMsec, maxEpollTimeoutMsec, Timeval.micros,
    Int.tdiv_eq_ediv_of_nonneg (show 0 ≤ tv.tvUsec + 999 by omega)]
  split_ifs <;> omega

end HeapBase

open HeapBase

/-- `timeout_next`, on the list of the timers. -/
def Base.timeoutNext (b : Base) (now : Timeval) : Option Timeval :=
  (b.timeheap.map b.deadlines).min?.map fun earliest =>
    if earliest ≤ now then ⟨0, 0⟩ else evutilTimersub earliest now

/-- The top of the heap is the earliest timer of the list. -/
theorem HeapBase.Agrees.timeoutNext {hb : HeapBase} (h : hb.Agrees) (now : Timeval) :
    hb.timeoutNext now = hb.base.timeoutNext now := by
  unfold HeapBase.timeoutNext Base.timeoutNext
  cases top : hb.heap.minHeapTop with
  | none =>
      rw [List.eq_nil_iff_forall_not_mem.mpr (h.no_timers top)]
      rfl
  | some e =>
      have isTop := h.isTop top
      have earliest : (hb.base.timeheap.map hb.base.deadlines).min? =
          some (hb.base.ev e).evTimeout := by
        rw [List.min?_eq_some_iff]
        refine ⟨List.mem_map.mpr ⟨e, isTop.1, rfl⟩, ?_⟩
        intro t mem
        obtain ⟨x, there, rfl⟩ := List.mem_map.mp mem
        exact isTop.2 x there
      rw [earliest, Option.map_some]
      dsimp only
      split <;> rfl

/-- The wait without timers. -/
theorem Base.timeoutNext_of_no_timers {b : Base} (none : b.timeheap = []) (now : Timeval) :
    epollTimeout (b.timeoutNext now) = -1 := by
  unfold Base.timeoutNext
  rw [none]
  rfl

/-- **What the wait is** with timers: it is of at most 35 minutes; when it is shorter than that,
a timer is due at its end; and a millisecond before the end none was. -/
theorem Base.timeoutNext_spec {b : Base} {now : Timeval} (some : b.timeheap ≠ [])
    (clock : Clocked now) (deadlines : ∀ e ∈ b.timeheap, Clocked (b.ev e).evTimeout) :
    0 ≤ epollTimeout (b.timeoutNext now) ∧
      epollTimeout (b.timeoutNext now) ≤ maxEpollTimeoutMsec ∧
      (epollTimeout (b.timeoutNext now) < maxEpollTimeoutMsec →
        ∃ e ∈ b.timeheap, (b.ev e).evTimeout.micros ≤
          now.micros + 1000 * epollTimeout (b.timeoutNext now)) ∧
      (0 < epollTimeout (b.timeoutNext now) →
        ∀ e ∈ b.timeheap,
          now.micros + 1000 * (epollTimeout (b.timeoutNext now) - 1) <
            (b.ev e).evTimeout.micros) := by
  have least : ∃ earliest, (b.timeheap.map b.deadlines).min? = Option.some earliest := by
    rw [← Option.isSome_iff_exists, List.isSome_min?_iff]
    simpa using some
  obtain ⟨earliest, least⟩ := least
  obtain ⟨mem, below⟩ := List.min?_eq_some_iff.mp least
  obtain ⟨e, timer, rfl⟩ := List.mem_map.mp mem
  have clocked := deadlines e timer
  have isTop : ∀ x ∈ b.timeheap, (b.ev e).evTimeout ≤ (b.ev x).evTimeout := fun x there =>
    below _ (List.mem_map.mpr ⟨x, there, rfl⟩)
  unfold Base.timeoutNext
  rw [least, Option.map_some, show b.deadlines e = (b.ev e).evTimeout from rfl]
  by_cases due : (b.ev e).evTimeout ≤ now
  · rw [if_pos due]
    rw [show epollTimeout (Option.some ⟨0, 0⟩) = 0 by decide]
    refine ⟨le_refl 0, by decide, ?_, ?_⟩
    · intro _
      have le := (Timeval.le_iff_micros clocked.2.2 clock.2.2).mp due
      exact ⟨e, timer, by omega⟩
    · intro pos
      exact absurd pos (lt_irrefl 0)
  · rw [if_neg due]
    obtain ⟨diff, normal, sec⟩ := evutilTimersub_spec clocked clock (not_le.mp due)
    obtain ⟨nonneg, limit, due, early⟩ := epollTimeout_spec sec normal
    rw [diff] at due early
    refine ⟨nonneg, limit, ?_, ?_⟩
    · intro lt
      have := due lt
      exact ⟨e, timer, by omega⟩
    · intro pos x there
      have := early pos
      have least := (Timeval.le_iff_micros clocked.2.2 (deadlines x there).2.2).mp
        (isTop x there)
      omega

end SwiftEvent
