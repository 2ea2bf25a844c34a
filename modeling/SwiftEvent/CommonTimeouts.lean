import SwiftEvent.MinHeap
import SwiftEvent.Durations
import SwiftEvent.Library.Run

/-!
# Common timeouts

Events that wait for the same time do not go on the heap of timers: `event.c`
keeps them in a list for each common timeout, which is sorted because each of them
comes later than those before it, and puts one event of its own on the heap for
the first of the list.  A duration that is common carries the number of its list
in the bits of `tv_usec` that microseconds do not need.

Here are the functions of `event.c` about timers with that part, over the array of
`minheap-internal.h`.  `none` is a failed `EVUTIL_ASSERT`, an `event_errx`, or an
access that is not in bounds.

* `Sound` — the heap and the lists share the events with `EVLIST_TIMEOUT` as their
  deadlines say, and each list is sorted.
* `Covered` — the event of a list is on the heap early enough for all events of it,
  or is active.
* `Sound.remove`, `Sound.insert` — the functions of the two queues.
* `Sound.schedule`, `Armed.add` — `event_add_nolock_` for the event of a list, and for
  one of the program.
-/

namespace SwiftEvent

namespace Timeval

/-- `tv_usec & MICROSECONDS_MASK` in the place of `tv_usec`. -/
def masked (tv : Timeval) : Timeval := ⟨tv.tvSec, tv.tvUsec % 1048576⟩

/-- `tv_usec & ~MICROSECONDS_MASK`. -/
def magicBits (tv : Timeval) : Int := tv.tvUsec - tv.tvUsec % 1048576

/-- `tv_usec | bits`, for bits that `tv_usec` does not have. -/
def withBits (tv : Timeval) (bits : Int) : Timeval := ⟨tv.tvSec, tv.tvUsec + bits⟩

/-- `COMMON_TIMEOUT_IDX`. -/
def commonTimeoutIdx (tv : Timeval) : Nat := (tv.tvUsec / 1048576 % 256).toNat

/-- `is_common_timeout`, in a base with `n` lists: `COMMON_TIMEOUT_MASK` and
`COMMON_TIMEOUT_MAGIC` are about four bits. -/
def isCommonTimeout (tv : Timeval) (n : Nat) : Bool :=
  tv.tvUsec / 268435456 % 16 == 5 && tv.commonTimeoutIdx < n

/-- `is_same_common_timeout`. -/
def isSameCommonTimeout (tv uv : Timeval) : Bool := tv.magicBits == uv.magicBits

end Timeval

/-- The event structures with timers: those of the program, and `timeout_event` of
each list. -/
inductive TimerId (α : Type)
  | event (e : α)
  | common (i : Nat)
deriving DecidableEq

/-- `struct common_timeout_list`; its event is the one of its number. -/
structure CommonTimeoutList (α : Type) where
  duration : Timeval
  events : List (TimerId α) := []

/-- `struct event_base` as far as it is about timers, with the fields of the events;
`expired` is that the event is active with `EV_TIMEOUT`. -/
structure TimerBase (α : Type) where
  evTimeout : TimerId α → Timeval
  evIoTimeout : TimerId α → Timeval
  timeout : TimerId α → Bool
  expired : TimerId α → Bool
  timeheap : MinHeap (TimerId α)
  commonTimeoutQueues : List (CommonTimeoutList α)

namespace TimerBase

variable {α : Type} [DecidableEq α] (b : TimerBase α)

/-- `is_common_timeout`. -/
def isCommonTimeout (tv : Timeval) : Bool := tv.isCommonTimeout b.commonTimeoutQueues.length

/-- The loop of `insert_common_timeout_inorder`, on the list from its end. -/
def insertFromEnd (evTimeout : TimerId α → Timeval) (ev : TimerId α) :
    List (TimerId α) → Option (List (TimerId α))
  | [] => some [ev]
  | e :: rest =>
      if !(evTimeout e).isSameCommonTimeout (evTimeout ev) then none
      else if evTimeout e ≤ evTimeout ev then some (ev :: e :: rest)
      else (insertFromEnd evTimeout ev rest).map (e :: ·)

/-- `insert_common_timeout_inorder`. -/
def insertCommonTimeoutInorder (events : List (TimerId α)) (ev : TimerId α) :
    Option (List (TimerId α)) :=
  (insertFromEnd b.evTimeout ev events.reverse).map List.reverse

/-- The list of a number with other events. -/
def setEvents (i : Nat) (events : List (TimerId α)) : TimerBase α :=
  { b with commonTimeoutQueues :=
      b.commonTimeoutQueues.modify i fun ctl => { ctl with events := events } }

/-- `EVLIST_TIMEOUT` of an event. -/
def setTimeout (k : TimerId α) (on : Bool) : TimerBase α :=
  { b with timeout := Function.update b.timeout k on }

/-- `event_queue_insert_timeout`; the result of the push is not looked at. -/
def eventQueueInsertTimeout (realloc : Bool) (k : TimerId α) : Option (TimerBase α) :=
  if b.timeout k then none
  else
    let b := b.setTimeout k true
    if b.isCommonTimeout (b.evTimeout k) then do
      let ctl ← b.commonTimeoutQueues[(b.evTimeout k).commonTimeoutIdx]?
      let events ← b.insertCommonTimeoutInorder ctl.events k
      return b.setEvents (b.evTimeout k).commonTimeoutIdx events
    else do
      let (_, heap) ← b.timeheap.minHeapPush b.evTimeout realloc k
      return { b with timeheap := heap }

/-- `event_queue_remove_timeout`. -/
def eventQueueRemoveTimeout (k : TimerId α) : Option (TimerBase α) :=
  if !b.timeout k then none
  else
    let b := b.setTimeout k false
    if b.isCommonTimeout (b.evTimeout k) then do
      let ctl ← b.commonTimeoutQueues[(b.evTimeout k).commonTimeoutIdx]?
      if k ∈ ctl.events then
        return b.setEvents (b.evTimeout k).commonTimeoutIdx (ctl.events.erase k)
      else none
    else do
      let (_, heap) ← b.timeheap.minHeapErase b.evTimeout k
      return { b with timeheap := heap }

/-- `if (ev->ev_flags & EVLIST_TIMEOUT) event_queue_remove_timeout(base, ev)`. -/
def removeFlagged (k : TimerId α) : Option (TimerBase α) :=
  if b.timeout k then b.eventQueueRemoveTimeout k else some b

/-- `ev->ev_timeout` as `event_add_nolock_` sets it. -/
def newTimeout (now tv : Timeval) (tvIsAbsolute : Bool) : Timeval :=
  if tvIsAbsolute then tv
  else if b.isCommonTimeout tv then (evutilTimeradd now tv.masked).withBits tv.magicBits
  else evutilTimeradd now tv

/-- The part of `event_add_nolock_` with a timeout; `reserve` says whether there is
memory for the check it begins with, and `realloc` whether there is later.  What it
does for the first event of a list is a parameter. -/
def eventAddWith (schedule : TimerBase α → Nat → TimerId α → Option (TimerBase α))
    (persist reserve realloc : Bool) (now : Timeval) (k : TimerId α) (tv : Timeval)
    (tvIsAbsolute : Bool) : Option (Bool × TimerBase α) :=
  let (ok, heap) :=
    if !b.timeout k then b.timeheap.minHeapReserve reserve (1 + b.timeheap.n)
    else (true, b.timeheap)
  if !ok then some (false, b)
  else do
    let b := { b with
      timeheap := heap
      evIoTimeout :=
        if persist && !tvIsAbsolute then Function.update b.evIoTimeout k tv
        else b.evIoTimeout }
    let b ← b.removeFlagged k
    -- when it is active with the timeout, it is taken off the active queue
    let b := { b with
      expired := Function.update b.expired k false
      evTimeout := Function.update b.evTimeout k (b.newTimeout now tv tvIsAbsolute) }
    let b ← b.eventQueueInsertTimeout realloc k
    if b.isCommonTimeout tv then do
      let i := (b.evTimeout k).commonTimeoutIdx
      let ctl ← b.commonTimeoutQueues[i]?
      if ctl.events.head? = some k then do
        let b ← schedule b i k
        return (true, b)
      else return (true, b)
    else return (true, b)

/-- `common_timeout_schedule`: the call of `event_add_nolock_` inside another one
is not for a common timeout. -/
def commonTimeoutSchedule (realloc : Bool) (now : Timeval) (b : TimerBase α) (i : Nat)
    (head : TimerId α) : Option (TimerBase α) :=
  (b.eventAddWith (fun _ _ _ => none) false realloc realloc now (.common i)
    (b.evTimeout head).masked true).map Prod.snd

/-- `event_add_nolock_`. -/
def eventAddNolock (persist reserve realloc : Bool) (now : Timeval) (k : TimerId α) (tv : Timeval)
    (tvIsAbsolute : Bool) : Option (Bool × TimerBase α) :=
  b.eventAddWith (commonTimeoutSchedule realloc now) persist reserve realloc now k tv tvIsAbsolute

/-- `event_del_nolock_`. -/
def eventDelNolock (k : TimerId α) : Option (TimerBase α) := do
  let b ← b.removeFlagged k
  return { b with expired := Function.update b.expired k false }

/-- `event_remove_timer_nolock_`. -/
def eventRemoveTimerNolock (k : TimerId α) : Option (TimerBase α) :=
  if b.timeout k then do
    let b ← b.eventQueueRemoveTimeout k
    return { b with evIoTimeout := Function.update b.evIoTimeout k ⟨0, 0⟩ }
  else some b

/-- `event_del_nolock_` and `event_active_nolock_` with `EV_TIMEOUT`. -/
def expire (k : TimerId α) : Option (TimerBase α) := do
  let b ← b.eventDelNolock k
  return { b with expired := Function.update b.expired k true }

/-- The loop of `timeout_process`. -/
def timeoutLoop (now : Timeval) : Nat → TimerBase α → Option (TimerBase α)
  | 0, _ => none
  | fuel + 1, b =>
      match b.timeheap.minHeapTop with
      | none => some b
      | some k =>
          if now < b.evTimeout k then some b
          else do
            let b ← b.expire k
            timeoutLoop now fuel b

/-- `timeout_process`. -/
def timeoutProcess (now : Timeval) : Option (TimerBase α) :=
  if b.timeheap.minHeapEmpty then some b else timeoutLoop now (b.timeheap.n + 1) b

/-- The loop of `common_timeout_callback` on the list of a number. -/
def commonTimeoutLoop (realloc : Bool) (now : Timeval) (i : Nat) :
    Nat → TimerBase α → Option (TimerBase α)
  | 0, _ => none
  | fuel + 1, b => do
      let ctl ← b.commonTimeoutQueues[i]?
      match ctl.events with
      | [] => some b
      | ev :: _ =>
          if now < (b.evTimeout ev).masked then commonTimeoutSchedule realloc now b i ev
          else do
            let b ← b.expire ev
            commonTimeoutLoop realloc now i fuel b

/-- `common_timeout_callback`. -/
def commonTimeoutCallback (realloc : Bool) (now : Timeval) (i : Nat) : Option (TimerBase α) := do
  let ctl ← b.commonTimeoutQueues[i]?
  commonTimeoutLoop realloc now i (ctl.events.length + 1) b

/-- What `event_persist_closure` does before it calls the callback; `byTimeout` is
`ev->ev_res & EV_TIMEOUT`. -/
def eventPersistClosure (reserve realloc : Bool) (now : Timeval) (k : TimerId α)
    (byTimeout : Bool) : Option (TimerBase α) :=
  if !evutilTimerisset (b.evIoTimeout k) then some b
  else if !(b.evTimeout k).isSameCommonTimeout (b.evIoTimeout k) then none
  else
    let common := b.isCommonTimeout (b.evTimeout k)
    let delay := if common then (b.evIoTimeout k).masked else b.evIoTimeout k
    let usecMask := if common then (b.evIoTimeout k).magicBits else 0
    let relativeTo :=
      if !byTimeout then now
      else if common then (b.evTimeout k).masked
      else b.evTimeout k
    let runAt := evutilTimeradd relativeTo delay
    let runAt := if runAt < now then evutilTimeradd now delay else runAt
    (b.eventAddNolock true reserve realloc now k (runAt.withBits usecMask) true).map Prod.snd

/-- The callback of an active event is run, as far as the loop and the library are
concerned. -/
def runCallback (persist : α → Bool) (reserve realloc : Bool) (now : Timeval) :
    TimerId α → Option (TimerBase α)
  | .event e =>
      if persist e then
        eventPersistClosure { b with expired := Function.update b.expired (.event e) false }
          reserve realloc now (.event e) (b.expired (.event e))
      else b.eventDelNolock (.event e)
  | .common i =>
      if b.expired (.common i) then do
        let b ← b.eventDelNolock (.common i)
        b.commonTimeoutCallback realloc now i
      else some b

/-- `MAX_COMMON_TIMEOUTS`. -/
def maxCommonTimeouts : Nat := 256

/-- The normalization at the start of `event_base_init_common_timeout`. -/
def normalized (duration : Timeval) : Timeval :=
  if 1000000 < duration.tvUsec then
    let tv := if b.isCommonTimeout duration then duration.masked else duration
    ⟨tv.tvSec + tv.tvUsec / 1000000, tv.tvUsec % 1000000⟩
  else duration

/-- `event_base_init_common_timeout`: the common timeout, or the null pointer. -/
def eventBaseInitCommonTimeout (memory : Bool) (duration : Timeval) :
    Option (Option Timeval × TimerBase α) :=
  let duration := b.normalized duration
  match b.commonTimeoutQueues.find? fun ctl => ctl.duration.masked == duration with
  | some ctl =>
      if b.isCommonTimeout ctl.duration then some (some ctl.duration, b) else none
  | none =>
      if b.commonTimeoutQueues.length = maxCommonTimeouts then some (none, b)
      else if !memory then some (none, b)
      else
        let tv := duration.withBits
          (1342177280 + b.commonTimeoutQueues.length * 1048576)
        let b := { b with commonTimeoutQueues := b.commonTimeoutQueues ++ [{ duration := tv }] }
        if b.isCommonTimeout tv then some (some tv, b) else none

end TimerBase

/-! ## The bits of a common timeout -/

namespace Timeval

/-- The bits of the list `i`. -/
def listBits (i : Nat) : Int := 1342177280 + i * 1048576

/-- A duration or a deadline without bits, or with those of one of `n` lists. -/
def Marked (tv : Timeval) (n : Nat) : Prop :=
  tv.magicBits = 0 ∨ ∃ i < n, tv.magicBits = listBits i

/-- The list that a deadline belongs to. -/
def place (tv : Timeval) (n : Nat) : Option Nat :=
  if tv.isCommonTimeout n then some tv.commonTimeoutIdx else none

variable {tv uv : Timeval} {n i : Nat}

theorem masked_usec (tv : Timeval) : 0 ≤ tv.masked.tvUsec ∧ tv.masked.tvUsec < 1048576 := by
  unfold masked
  constructor <;> dsimp only <;> omega

theorem place_of_none (bits : tv.magicBits = 0) (n : Nat) : tv.place n = none := by
  unfold magicBits at bits
  unfold place isCommonTimeout
  rw [if_neg]
  simp only [Bool.and_eq_true, beq_iff_eq, not_and]
  omega

theorem place_of_bits (bits : tv.magicBits = listBits i) (lt : i < n) (few : n ≤ 256) :
    tv.place n = some i := by
  unfold magicBits listBits at bits
  have idx : tv.commonTimeoutIdx = i := by
    unfold commonTimeoutIdx
    omega
  unfold place isCommonTimeout
  rw [idx, if_pos]
  simp only [Bool.and_eq_true, beq_iff_eq, decide_eq_true_eq]
  exact ⟨by omega, lt⟩

theorem common_of_place (at_ : tv.place n = some i) :
    tv.isCommonTimeout n = true ∧ tv.commonTimeoutIdx = i := by
  unfold place at at_
  split_ifs at at_ with common
  exact ⟨common, Option.some.inj at_⟩

theorem not_common_of_place (at_ : tv.place n = none) : ¬ tv.isCommonTimeout n = true := by
  unfold place at at_
  split_ifs at at_ with common
  exact common

theorem place_of_not_common (plain : ¬ tv.isCommonTimeout n = true) : tv.place n = none :=
  if_neg plain

theorem place_lt (at_ : tv.place n = some i) : i < n := by
  obtain ⟨common, idx⟩ := common_of_place at_
  unfold isCommonTimeout at common
  simp only [Bool.and_eq_true, decide_eq_true_eq] at common
  rw [← idx]
  exact common.2

theorem Marked.bits_of_place (h : tv.Marked n) (few : n ≤ 256) (at_ : tv.place n = some i) :
    tv.magicBits = listBits i := by
  rcases h with none | ⟨j, lt, bits⟩
  · rw [place_of_none none] at at_
    cases at_
  · rw [place_of_bits bits lt few] at at_
    rw [bits, Option.some.inj at_]

theorem Marked.bits_of_place_none (h : tv.Marked n) (few : n ≤ 256) (at_ : tv.place n = none) :
    tv.magicBits = 0 := by
  rcases h with none | ⟨j, lt, bits⟩
  · exact none
  · rw [place_of_bits bits lt few] at at_
    cases at_

/-- More lists change nothing for a deadline that is marked. -/
theorem Marked.place_succ (h : tv.Marked n) (few : n + 1 ≤ 256) :
    tv.place (n + 1) = tv.place n := by
  rcases h with none | ⟨j, lt, bits⟩
  · rw [place_of_none none, place_of_none none]
  · rw [place_of_bits bits (by omega) few, place_of_bits bits lt (by omega)]

theorem Marked.mono (h : tv.Marked n) {m : Nat} (le : n ≤ m) : tv.Marked m :=
  h.imp id fun ⟨i, lt, bits⟩ => ⟨i, lt.trans_le le, bits⟩

/-- Only the bits say which list a deadline belongs to. -/
theorem Marked.place_eq (h : tv.Marked n) (few : n ≤ 256) (bits : tv.magicBits = uv.magicBits) :
    tv.place n = uv.place n := by
  rcases h with none | ⟨j, lt, at_⟩
  · rw [place_of_none none, place_of_none (bits ▸ none)]
  · rw [place_of_bits at_ lt few, place_of_bits (bits ▸ at_) lt few]

/-- With the same bits, deadlines compare as they do without. -/
theorem le_iff_masked (bits : tv.magicBits = uv.magicBits) : tv ≤ uv ↔ tv.masked ≤ uv.masked := by
  unfold magicBits at bits
  rw [le_def, le_def]
  unfold masked
  dsimp only
  split_ifs <;> omega

theorem masked_eq_self (bits : tv.magicBits = 0) : tv.masked = tv := by
  unfold magicBits at bits
  unfold masked
  rw [show tv.tvUsec % 1048576 = tv.tvUsec by omega]

theorem masked_withBits (low : 0 ≤ tv.tvUsec) (high : tv.tvUsec < 1048576) (uv : Timeval) :
    (tv.withBits uv.magicBits).masked = tv := by
  unfold masked withBits magicBits
  rw [show (tv.tvUsec + (uv.tvUsec - uv.tvUsec % 1048576)) % 1048576 = tv.tvUsec by omega]

theorem magicBits_withBits (low : 0 ≤ tv.tvUsec) (high : tv.tvUsec < 1048576) (uv : Timeval) :
    (tv.withBits uv.magicBits).magicBits = uv.magicBits := by
  unfold withBits magicBits
  dsimp only
  omega

/-- The sum of a fraction of a second and at most a second. -/
theorem evutilTimeradd_usec (low : 0 ≤ tv.tvUsec) (high : tv.tvUsec < 1000000)
    (low' : 0 ≤ uv.tvUsec) (high' : uv.tvUsec ≤ 1000000) :
    0 ≤ (evutilTimeradd tv uv).tvUsec ∧ (evutilTimeradd tv uv).tvUsec < 1000000 := by
  have sum : wrap64 (tv.tvUsec + uv.tvUsec) = tv.tvUsec + uv.tvUsec := by
    unfold wrap64
    rw [Int.bmod_eq_of_le] <;> omega
  unfold evutilTimeradd
  rw [sum]
  dsimp only
  split_ifs <;> dsimp only <;> omega

end Timeval

/-! ## The heap and the lists -/

namespace TimerBase

variable {α : Type}

/-- `n_common_timeouts`. -/
def nCommonTimeouts (b : TimerBase α) : Nat := b.commonTimeoutQueues.length

/-- The events of a list. -/
def list (b : TimerBase α) (i : Nat) : List (TimerId α) :=
  (b.commonTimeoutQueues[i]?.map CommonTimeoutList.events).getD []

/-- The list that an event belongs to by its deadline. -/
def place (b : TimerBase α) (k : TimerId α) : Option Nat :=
  (b.evTimeout k).place b.nCommonTimeouts

/-- **The heap and the lists share the events with a timer**, as their deadlines say,
and each list is sorted. -/
structure Sound (b : TimerBase α) : Prop where
  few : b.nCommonTimeouts ≤ 256
  marked : ∀ k, b.timeout k = true → (b.evTimeout k).Marked b.nCommonTimeouts
  own : ∀ i, b.timeout (.common i) = true →
    i < b.nCommonTimeouts ∧ (b.evTimeout (.common i)).magicBits = 0
  heap : b.timeheap.Holds b.evTimeout {k | b.timeout k = true ∧ b.place k = none}
  nodup : ∀ i, (b.list i).Nodup
  sorted : ∀ i, (b.list i).Pairwise fun x y => b.evTimeout x ≤ b.evTimeout y
  mem : ∀ i k, k ∈ b.list i ↔ b.timeout k = true ∧ b.place k = some i

/-- **The event of a list comes early enough**: it is active, or on the heap no later
than any event of the list. -/
def Covered (b : TimerBase α) (i : Nat) : Prop :=
  ∀ k, b.timeout k = true → b.place k = some i → b.expired (.common i) = true ∨
    b.timeout (.common i) = true ∧ b.evTimeout (.common i) ≤ (b.evTimeout k).masked

/-- A base between two calls. -/
structure Armed (b : TimerBase α) : Prop where
  sound : b.Sound
  covered : ∀ i, b.Covered i
  active : ∀ i, b.expired (.common i) = true → i < b.nCommonTimeouts

/-- What the functions of the queues leave alone. -/
structure Moved (b b' : TimerBase α) : Prop where
  evTimeout : b'.evTimeout = b.evTimeout
  evIoTimeout : b'.evIoTimeout = b.evIoTimeout
  expired : b'.expired = b.expired
  durations : b'.commonTimeoutQueues.map CommonTimeoutList.duration =
    b.commonTimeoutQueues.map CommonTimeoutList.duration

section Lists

variable [DecidableEq α] {b b' : TimerBase α} {k : TimerId α} {i : Nat}

omit [DecidableEq α] in
theorem nCommonTimeouts_of_durations
    (durations : b'.commonTimeoutQueues.map CommonTimeoutList.duration =
      b.commonTimeoutQueues.map CommonTimeoutList.duration) :
    b'.nCommonTimeouts = b.nCommonTimeouts := by
  have lengths := congrArg List.length durations
  rw [List.length_map, List.length_map] at lengths
  exact lengths

omit [DecidableEq α] in
theorem Moved.nCommonTimeouts (m : Moved b b') : b'.nCommonTimeouts = b.nCommonTimeouts :=
  nCommonTimeouts_of_durations m.durations

omit [DecidableEq α] in
theorem Moved.place (m : Moved b b') (k : TimerId α) : b'.place k = b.place k := by
  unfold TimerBase.place
  rw [m.evTimeout, m.nCommonTimeouts]

omit [DecidableEq α] in
theorem getElem_of_lt (b : TimerBase α) (lt : i < b.nCommonTimeouts) :
    ∃ ctl, b.commonTimeoutQueues[i]? = some ctl ∧ ctl.events = b.list i := by
  refine ⟨b.commonTimeoutQueues[i], List.getElem?_eq_getElem lt, ?_⟩
  unfold list
  rw [List.getElem?_eq_getElem lt]
  rfl

omit [DecidableEq α] in
theorem list_setEvents (b : TimerBase α) (lt : i < b.nCommonTimeouts)
    (events : List (TimerId α)) (j : Nat) :
    (b.setEvents i events).list j = if j = i then events else b.list j := by
  unfold list setEvents
  rw [List.getElem?_modify]
  by_cases eq : j = i
  · obtain ⟨ctl, at_, -⟩ := b.getElem_of_lt lt
    rw [if_pos eq, eq, at_]
    simp
  · rw [if_neg eq]
    simp [Ne.symm eq]

omit [DecidableEq α] in
theorem moved_setEvents (b : TimerBase α) (i : Nat) (events : List (TimerId α)) :
    Moved b (b.setEvents i events) := by
  refine ⟨rfl, rfl, rfl, ?_⟩
  unfold setEvents
  refine List.ext_getElem? fun j => ?_
  rw [List.getElem?_map, List.getElem?_map, List.getElem?_modify]
  cases b.commonTimeoutQueues[j]? with
  | none => rfl
  | some ctl =>
      by_cases eq : i = j
      · simp [eq]
      · simp [eq]

omit [DecidableEq α] in
/-- Where the loop over the list stops. -/
theorem insertFromEnd_spec (evTimeout : TimerId α → Timeval) (ev : TimerId α)
    (l : List (TimerId α))
    (same : ∀ x ∈ l, (evTimeout x).magicBits = (evTimeout ev).magicBits) :
    ∃ l₁ l₂, l = l₁ ++ l₂ ∧ insertFromEnd evTimeout ev l = some (l₁ ++ ev :: l₂) ∧
      (∀ x ∈ l₁, evTimeout ev < evTimeout x) ∧
      ∀ x, l₂.head? = some x → evTimeout x ≤ evTimeout ev := by
  induction l with
  | nil => exact ⟨[], [], rfl, rfl, by simp, by simp⟩
  | cons e rest ih =>
      have bits : (!(evTimeout e).isSameCommonTimeout (evTimeout ev)) = false := by
        unfold Timeval.isSameCommonTimeout
        rw [same e List.mem_cons_self, beq_self_eq_true, Bool.not_true]
      unfold insertFromEnd
      rw [bits, if_neg Bool.false_ne_true]
      by_cases le : evTimeout e ≤ evTimeout ev
      · rw [if_pos le]
        refine ⟨[], e :: rest, rfl, rfl, by simp, ?_⟩
        intro x first
        rw [← Option.some.inj first]
        exact le
      · rw [if_neg le]
        obtain ⟨l₁, l₂, split, run, above, below⟩ :=
          ih fun x mem => same x (List.mem_cons_of_mem e mem)
        refine ⟨e :: l₁, l₂, by rw [split, List.cons_append], by rw [run]; rfl, ?_, below⟩
        intro x mem
        rcases List.mem_cons.mp mem with rfl | mem
        · exact Timeval.not_le.mp le
        · exact above x mem

omit [DecidableEq α] in
/-- A sorted list stays sorted. -/
theorem insertCommonTimeoutInorder_spec (b : TimerBase α) (ev : TimerId α)
    (events : List (TimerId α)) (sorted : events.Pairwise fun x y => b.evTimeout x ≤ b.evTimeout y)
    (same : ∀ x ∈ events, (b.evTimeout x).magicBits = (b.evTimeout ev).magicBits) :
    ∃ l₁ l₂, events = l₁ ++ l₂ ∧ b.insertCommonTimeoutInorder events ev = some (l₁ ++ ev :: l₂) ∧
      (l₁ ++ ev :: l₂).Pairwise fun x y => b.evTimeout x ≤ b.evTimeout y := by
  obtain ⟨r₂, r₁, split, run, above, below⟩ :=
    insertFromEnd_spec b.evTimeout ev events.reverse fun x mem => same x (List.mem_reverse.mp mem)
  have eq : events = r₁.reverse ++ r₂.reverse := by
    rw [← List.reverse_append, ← split, List.reverse_reverse]
  refine ⟨r₁.reverse, r₂.reverse, eq, ?_, ?_⟩
  · unfold insertCommonTimeoutInorder
    rw [run, Option.map_some, List.reverse_append, List.reverse_cons, List.append_assoc]
    rfl
  rw [eq] at sorted
  obtain ⟨low, high, across⟩ := List.pairwise_append.mp sorted
  have before : ∀ x ∈ r₁.reverse, b.evTimeout x ≤ b.evTimeout ev := by
    intro x mem
    cases r₁ with
    | nil => cases mem
    | cons last rest =>
        have le := below last rfl
        rcases List.mem_cons.mp (List.mem_reverse.mp mem) with rfl | mem
        · exact le
        · rw [List.reverse_cons] at low
          have := (List.pairwise_append.mp low).2.2 x (List.mem_reverse.mpr mem) last
            (List.mem_singleton.mpr rfl)
          exact Timeval.le_trans this le
  have after : ∀ x ∈ r₂.reverse, b.evTimeout ev ≤ b.evTimeout x := by
    intro x mem
    have lt := above x (List.mem_reverse.mp mem)
    rw [Timeval.le_def]
    rw [Timeval.lt_def] at lt
    split_ifs at lt ⊢ <;> omega
  refine List.pairwise_append.mpr ⟨low, List.pairwise_cons.mpr ⟨after, high⟩, ?_⟩
  intro x mem y mem'
  rcases List.mem_cons.mp mem' with rfl | mem'
  · exact before x mem
  · exact across x mem y mem'

/-- What the flag of one event is after `setTimeout`. -/
theorem setTimeout_timeout (b : TimerBase α) (k x : TimerId α) (on : Bool) :
    (b.setTimeout k on).timeout x = if x = k then on else b.timeout x :=
  Function.update_apply ..

/-- A change to a list. -/
theorem Sound.of_list (h : b.Sound) {j : Nat} {on : Bool} {events : List (TimerId α)}
    (at_ : b.place k = some j)
    (fresh : on = true → (b.evTimeout k).Marked b.nCommonTimeouts ∧ ∀ i, k ≠ .common i)
    (nodup : events.Nodup) (sorted : events.Pairwise fun x y => b.evTimeout x ≤ b.evTimeout y)
    (mem : ∀ x, x ∈ events ↔ (b.setTimeout k on).timeout x = true ∧ b.place x = some j) :
    ((b.setTimeout k on).setEvents j events).Sound := by
  have list (i : Nat) : ((b.setTimeout k on).setEvents j events).list i =
      if i = j then events else b.list i :=
    (b.setTimeout k on).list_setEvents (Timeval.place_lt at_) events i
  have moved : Moved (b.setTimeout k on) ((b.setTimeout k on).setEvents j events) :=
    moved_setEvents ..
  have place (x : TimerId α) : ((b.setTimeout k on).setEvents j events).place x = b.place x :=
    moved.place x
  have few : ((b.setTimeout k on).setEvents j events).nCommonTimeouts = b.nCommonTimeouts :=
    moved.nCommonTimeouts
  have timeout (x : TimerId α) : ((b.setTimeout k on).setEvents j events).timeout x =
      if x = k then on else b.timeout x :=
    b.setTimeout_timeout k x on
  refine ⟨few ▸ h.few, ?_, ?_, ?_, ?_, ?_, ?_⟩
  · intro x yes
    rw [few]
    rw [timeout] at yes
    split_ifs at yes with eq
    · rw [eq]
      exact (fresh yes).1
    · exact h.marked x yes
  · intro i yes
    rw [few]
    rw [timeout] at yes
    split_ifs at yes with eq
    · exact absurd eq.symm ((fresh yes).2 i)
    · exact h.own i yes
  · -- the heap is as it was
    have same : {x | ((b.setTimeout k on).setEvents j events).timeout x = true ∧
        ((b.setTimeout k on).setEvents j events).place x = none} =
        {x | b.timeout x = true ∧ b.place x = none} := by
      ext x
      rw [Set.mem_ofPred_eq, Set.mem_ofPred_eq, place, timeout]
      by_cases eq : x = k
      · rw [eq, at_]
        simp
      · rw [if_neg eq]
    rw [same]
    exact h.heap
  · intro i
    rw [list]
    split_ifs
    · exact nodup
    · exact h.nodup i
  · intro i
    rw [list]
    split_ifs
    · exact sorted
    · exact h.sorted i
  · intro i x
    rw [list, place]
    by_cases here : i = j
    · rw [if_pos here, here]
      exact mem x
    · rw [if_neg here, h.mem, timeout]
      by_cases eq : x = k
      · rw [eq, at_]
        simp [Ne.symm here]
      · rw [if_neg eq]

/-- A change to the heap. -/
theorem Sound.of_heap (h : b.Sound) {on : Bool} {s : MinHeap (TimerId α)}
    (at_ : b.place k = none)
    (fresh : on = true → (b.evTimeout k).Marked b.nCommonTimeouts ∧
      ∀ i, k = .common i → i < b.nCommonTimeouts)
    (heap : s.Holds b.evTimeout
      {x | (b.setTimeout k on).timeout x = true ∧ b.place x = none}) :
    Sound { b.setTimeout k on with timeheap := s } := by
  have timeout (x : TimerId α) : (b.setTimeout k on).timeout x =
      if x = k then on else b.timeout x :=
    b.setTimeout_timeout k x on
  refine ⟨h.few, ?_, ?_, heap, h.nodup, h.sorted, ?_⟩
  · intro x yes
    show (b.evTimeout x).Marked b.nCommonTimeouts
    rw [show _ = _ from timeout x] at yes
    split_ifs at yes with eq
    · rw [eq]
      exact (fresh yes).1
    · exact h.marked x yes
  · intro i yes
    show i < b.nCommonTimeouts ∧ (b.evTimeout (.common i)).magicBits = 0
    rw [show _ = _ from timeout _] at yes
    split_ifs at yes with eq
    · rw [eq]
      exact ⟨(fresh yes).2 i eq.symm, (fresh yes).1.bits_of_place_none h.few at_⟩
    · exact h.own i yes
  · intro i x
    show x ∈ b.list i ↔ (b.setTimeout k on).timeout x = true ∧ b.place x = some i
    rw [h.mem, timeout]
    by_cases eq : x = k
    · rw [eq, at_]
      simp
    · rw [if_neg eq]

omit [DecidableEq α] in
theorem Sound.bits_of_mem (h : b.Sound) (mem : k ∈ b.list i) :
    (b.evTimeout k).magicBits = Timeval.listBits i :=
  have ⟨on, at_⟩ := (h.mem i k).mp mem
  (h.marked k on).bits_of_place h.few at_

omit [DecidableEq α] in
/-- The first of a list is due before every other of the list. -/
theorem Sound.first_le (h : b.Sound) {x y : TimerId α} (first : (b.list i).head? = some y)
    (mem : x ∈ b.list i) : (b.evTimeout y).masked ≤ (b.evTimeout x).masked := by
  have mem' : y ∈ b.list i := List.mem_of_head? first
  refine (Timeval.le_iff_masked ((h.bits_of_mem mem').trans (h.bits_of_mem mem).symm)).mp ?_
  have sorted := h.sorted i
  obtain ⟨rest, eq⟩ := List.head?_eq_some_iff.mp first
  rw [eq] at sorted mem
  rcases List.mem_cons.mp mem with rfl | mem
  · exact Timeval.le_refl _
  · exact (List.pairwise_cons.mp sorted).1 x mem

omit [DecidableEq α] in
/-- It is enough that the event of a list is early enough for the first of it. -/
theorem Sound.covered_of_first (h : b.Sound) (early : ∀ y, (b.list i).head? = some y →
    b.expired (.common i) = true ∨
      b.timeout (.common i) = true ∧ b.evTimeout (.common i) ≤ (b.evTimeout y).masked) :
    b.Covered i := by
  intro x on at_
  have mem := (h.mem i x).mpr ⟨on, at_⟩
  obtain ⟨y, rest, eq⟩ := List.exists_cons_of_ne_nil (List.ne_nil_of_mem mem)
  have first : (b.list i).head? = some y := by rw [eq, List.head?_cons]
  exact (early y first).imp id fun c => ⟨c.1, Timeval.le_trans c.2 (h.first_le first mem)⟩

omit [DecidableEq α] in
/-- The lists that are active stay lists. -/
theorem active_congr (active : ∀ j, b.expired (.common j) = true → j < b.nCommonTimeouts)
    (durations : b'.commonTimeoutQueues.map CommonTimeoutList.duration =
      b.commonTimeoutQueues.map CommonTimeoutList.duration)
    (fewer : ∀ j, b'.expired (.common j) = true → b.expired (.common j) = true) :
    ∀ j, b'.expired (.common j) = true → j < b'.nCommonTimeouts := by
  intro j yes
  rw [nCommonTimeouts_of_durations durations]
  exact active j (fewer j yes)

theorem expired_of_update {k x : TimerId α}
    (expired : b'.expired = Function.update b.expired k false) (yes : b'.expired x = true) :
    b.expired x = true := by
  rw [expired, Function.update_apply] at yes
  split_ifs at yes
  exact yes

omit [DecidableEq α] in
/-- The event of a list is in no list. -/
theorem Sound.place_common (h : b.Sound) (on : b.timeout (.common i) = true) :
    b.place (.common i) = none :=
  Timeval.place_of_none (h.own i on).2 _

/-- **`event_queue_remove_timeout`.** -/
theorem Sound.remove (h : b.Sound) (on : b.timeout k = true) :
    ∃ b', b.eventQueueRemoveTimeout k = some b' ∧ b'.Sound ∧ Moved b b' ∧
      b'.timeout = Function.update b.timeout k false := by
  unfold eventQueueRemoveTimeout
  rw [on, if_neg (by decide)]
  show ∃ b', (if b.isCommonTimeout (b.evTimeout k) then _ else _) = some b' ∧ _
  cases at_ : b.place k with
  | some j =>
      obtain ⟨common, idx⟩ := Timeval.common_of_place at_
      obtain ⟨ctl, entry, events⟩ := b.getElem_of_lt (Timeval.place_lt at_)
      have mem : k ∈ b.list j := (h.mem j k).mpr ⟨on, at_⟩
      have run : ((b.setTimeout k false).commonTimeoutQueues[
            ((b.setTimeout k false).evTimeout k).commonTimeoutIdx]?.bind fun ctl =>
          if k ∈ ctl.events then
            some ((b.setTimeout k false).setEvents
              ((b.setTimeout k false).evTimeout k).commonTimeoutIdx (ctl.events.erase k))
          else none) = some ((b.setTimeout k false).setEvents j ((b.list j).erase k)) := by
        show (b.commonTimeoutQueues[(b.evTimeout k).commonTimeoutIdx]?.bind _) = _
        rw [idx, entry, Option.bind_some, events, if_pos mem]
        show some ((b.setTimeout k false).setEvents (b.evTimeout k).commonTimeoutIdx _) = _
        rw [idx]
      rw [if_pos (show b.isCommonTimeout (b.evTimeout k) = true from common)]
      refine ⟨_, run, h.of_list at_ (by simp) ((h.nodup j).erase k)
        ((h.sorted j).sublist List.erase_sublist) ?_, ?_, rfl⟩
      · intro x
        rw [(h.nodup j).mem_erase_iff, h.mem, setTimeout_timeout]
        by_cases eq : x = k
        · simp [eq]
        · simp [eq]
      · have moved := moved_setEvents (b.setTimeout k false) j ((b.list j).erase k)
        exact ⟨moved.evTimeout, moved.evIoTimeout, moved.expired, moved.durations⟩
  | none =>
      rw [if_neg (show ¬ b.isCommonTimeout (b.evTimeout k) = true from
        Timeval.not_common_of_place at_)]
      rcases MinHeap.minHeapErase_spec h.heap k with ⟨out, -⟩ | ⟨-, s', run, heap, -⟩
      · exact absurd ⟨on, at_⟩ out
      have run' : ((b.setTimeout k false).timeheap.minHeapErase (b.setTimeout k false).evTimeout
          k).bind (fun r => some { b.setTimeout k false with timeheap := r.2 }) =
          some { b.setTimeout k false with timeheap := s' } := by
        show ((b.timeheap.minHeapErase b.evTimeout k).bind _) = _
        rw [run]
        rfl
      refine ⟨_, run', h.of_heap at_ (by simp) ?_, ⟨rfl, rfl, rfl, rfl⟩, rfl⟩
      have same : {x | (b.setTimeout k false).timeout x = true ∧ b.place x = none} =
          {x | b.timeout x = true ∧ b.place x = none} \ {k} := by
        ext x
        rw [Set.mem_ofPred_eq, setTimeout_timeout]
        by_cases eq : x = k
        · simp [eq]
        · simp [eq]
      rw [same]
      exact heap

omit [DecidableEq α] in
/-- There is room on the heap for one more. -/
theorem Sound.room [Finite α] (h : b.Sound) (small : Nat.card α + 256 < 2147483648)
    (off : b.timeout k = false) (own : ∀ i, k = .common i → i < b.nCommonTimeouts) :
    b.timeheap.n + 1 < 2147483648 := by
  let ids : Set (TimerId α) :=
    Set.range TimerId.event ∪ TimerId.common '' (Set.Iio b.nCommonTimeouts)
  have finite : ids.Finite :=
    (Set.finite_range _).union ((Set.finite_Iio _).image _)
  have subset : insert k {x | b.timeout x = true ∧ b.place x = none} ⊆ ids := by
    intro x mem
    have bound : ∀ i, x = .common i → i < b.nCommonTimeouts := by
      rintro i rfl
      rcases mem with eq | ⟨on, -⟩
      · exact own i eq.symm
      · exact (h.own i on).1
    cases x with
    | event e => exact Or.inl ⟨e, rfl⟩
    | common i => exact Or.inr ⟨i, bound i rfl, rfl⟩
  have card : ids.ncard ≤ Nat.card α + 256 := by
    refine (Set.ncard_union_le _ _).trans (Nat.add_le_add ?_ ?_)
    · rw [← Set.image_univ, ← Set.ncard_univ]
      exact Set.ncard_image_le (Set.finite_univ)
    · refine (Set.ncard_image_le (Set.finite_Iio _)).trans ?_
      rw [← Finset.coe_Iio, Set.ncard_coe_finset, Nat.card_Iio]
      exact h.few
  obtain ⟨size, finite'⟩ := h.heap.size
  have more := Set.ncard_le_ncard subset finite
  rw [Set.ncard_insert_of_notMem (by simp [off]) finite', size] at more
  omega

/-- **`event_queue_insert_timeout`.** -/
theorem Sound.insert [Finite α] (h : b.Sound) (small : Nat.card α + 256 < 2147483648)
    (off : b.timeout k = false) (marked : (b.evTimeout k).Marked b.nCommonTimeouts)
    (own : ∀ i, k = .common i → i < b.nCommonTimeouts ∧ (b.evTimeout k).magicBits = 0) :
    ∃ b', b.eventQueueInsertTimeout true k = some b' ∧ b'.Sound ∧ Moved b b' ∧
      b'.timeout = Function.update b.timeout k true := by
  unfold eventQueueInsertTimeout
  rw [off, if_neg (by decide)]
  show ∃ b', (if b.isCommonTimeout (b.evTimeout k) then _ else _) = some b' ∧ _
  cases at_ : b.place k with
  | some j =>
      obtain ⟨common, idx⟩ := Timeval.common_of_place at_
      obtain ⟨ctl, entry, events⟩ := b.getElem_of_lt (Timeval.place_lt at_)
      have bits := marked.bits_of_place h.few at_
      obtain ⟨l₁, l₂, split, run₁, sorted⟩ := b.insertCommonTimeoutInorder_spec k (b.list j)
        (h.sorted j) fun x mem => (h.bits_of_mem mem).trans bits.symm
      have run : ((b.setTimeout k true).commonTimeoutQueues[
            ((b.setTimeout k true).evTimeout k).commonTimeoutIdx]?.bind fun ctl =>
          ((b.setTimeout k true).insertCommonTimeoutInorder ctl.events k).bind fun events =>
            some ((b.setTimeout k true).setEvents
              ((b.setTimeout k true).evTimeout k).commonTimeoutIdx events)) =
          some ((b.setTimeout k true).setEvents j (l₁ ++ k :: l₂)) := by
        show (b.commonTimeoutQueues[(b.evTimeout k).commonTimeoutIdx]?.bind _) = _
        rw [idx, entry, Option.bind_some, events]
        show ((b.insertCommonTimeoutInorder (b.list j) k).bind _) = _
        rw [run₁]
        show some ((b.setTimeout k true).setEvents (b.evTimeout k).commonTimeoutIdx _) = _
        rw [idx]
      rw [if_pos (show b.isCommonTimeout (b.evTimeout k) = true from common)]
      have out : k ∉ l₁ ++ l₂ := by
        rw [← split, h.mem, off]
        simp
      have perm : (l₁ ++ k :: l₂).Perm (k :: (l₁ ++ l₂)) := List.perm_middle
      refine ⟨_, run, h.of_list at_ ?_ ?_ sorted ?_, ?_, rfl⟩
      · intro _
        refine ⟨marked, ?_⟩
        intro i eq
        rw [place, Timeval.place_of_none (own i eq).2] at at_
        cases at_
      · exact perm.nodup_iff.mpr (List.nodup_cons.mpr ⟨out, split ▸ h.nodup j⟩)
      · intro x
        rw [perm.mem_iff, List.mem_cons, ← split, h.mem, setTimeout_timeout]
        by_cases eq : x = k
        · simp [eq, at_]
        · simp [eq]
      · have moved := moved_setEvents (b.setTimeout k true) j (l₁ ++ k :: l₂)
        exact ⟨moved.evTimeout, moved.evIoTimeout, moved.expired, moved.durations⟩
  | none =>
      rw [if_neg (show ¬ b.isCommonTimeout (b.evTimeout k) = true from
        Timeval.not_common_of_place at_)]
      have out : k ∉ {x | b.timeout x = true ∧ b.place x = none} := by simp [off]
      obtain ⟨ok, s', run, heap⟩ := MinHeap.minHeapPush_spec h.heap out
        (h.room small off fun i eq => (own i eq).1) true
      have yes : ok = true := by
        cases ok with
        | true => rfl
        | false => exact absurd heap.2.1 (by decide)
      rw [if_pos yes] at heap
      have run' : ((b.setTimeout k true).timeheap.minHeapPush (b.setTimeout k true).evTimeout
          true k).bind (fun r => some { b.setTimeout k true with timeheap := r.2 }) =
          some { b.setTimeout k true with timeheap := s' } := by
        show ((b.timeheap.minHeapPush b.evTimeout true k).bind _) = _
        rw [run]
        rfl
      refine ⟨_, run', h.of_heap at_ ?_ ?_, ⟨rfl, rfl, rfl, rfl⟩, rfl⟩
      · intro _
        exact ⟨marked, fun i eq => (own i eq).1⟩
      · have same : {x | (b.setTimeout k true).timeout x = true ∧ b.place x = none} =
            Insert.insert k {x | b.timeout x = true ∧ b.place x = none} := by
          ext x
          rw [Set.mem_ofPred_eq, setTimeout_timeout, Set.mem_insert_iff]
          by_cases eq : x = k
          · simp [eq, at_]
          · simp [eq]
        rw [same]
        exact heap

theorem Sound.removeFlagged (h : b.Sound) (k : TimerId α) :
    ∃ b', b.removeFlagged k = some b' ∧ b'.Sound ∧ Moved b b' ∧
      b'.timeout = Function.update b.timeout k false := by
  unfold TimerBase.removeFlagged
  cases on : b.timeout k with
  | true => exact h.remove on
  | false =>
      refine ⟨b, rfl, h, ⟨rfl, rfl, rfl, rfl⟩, ?_⟩
      rw [← on, Function.update_eq_self]

/-- The deadline of an event that waits for none may change, and what is not about
the heap and the lists may. -/
theorem Sound.redate (h : b.Sound) (off : b.timeout k = false) (deadline : Timeval)
    (evIoTimeout : TimerId α → Timeval) (expired : TimerId α → Bool) :
    Sound { b with
      evTimeout := Function.update b.evTimeout k deadline
      evIoTimeout := evIoTimeout
      expired := expired } := by
  have same {x : TimerId α} (on : b.timeout x = true) :
      Function.update b.evTimeout k deadline x = b.evTimeout x := by
    refine Function.update_of_ne ?_ ..
    rintro rfl
    rw [off] at on
    cases on
  have place {x : TimerId α} (on : b.timeout x = true) :
      (Function.update b.evTimeout k deadline x).place b.nCommonTimeouts = b.place x := by
    rw [same on]
    rfl
  refine ⟨h.few, ?_, ?_, ?_, h.nodup, ?_, ?_⟩
  · intro x on
    show (Function.update b.evTimeout k deadline x).Marked b.nCommonTimeouts
    rw [same on]
    exact h.marked x on
  · intro i on
    show i < b.nCommonTimeouts ∧ (Function.update b.evTimeout k deadline _).magicBits = 0
    rw [same on]
    exact h.own i on
  · have eq : {x | b.timeout x = true ∧
        (Function.update b.evTimeout k deadline x).place b.nCommonTimeouts = none} =
        {x | b.timeout x = true ∧ b.place x = none} := by
      ext x
      rw [Set.mem_ofPred_eq, Set.mem_ofPred_eq]
      exact and_congr_right fun on => by rw [place on]
    show b.timeheap.Holds _ {x | b.timeout x = true ∧
        (Function.update b.evTimeout k deadline x).place b.nCommonTimeouts = none}
    rw [eq]
    exact h.heap.congr fun x mem => same mem.1
  · intro i
    refine (h.sorted i).imp_of_mem ?_
    intro x y mem mem' le
    show Function.update b.evTimeout k deadline x ≤ Function.update b.evTimeout k deadline y
    rw [same ((h.mem i x).mp mem).1, same ((h.mem i y).mp mem').1]
    exact le
  · intro i x
    show x ∈ b.list i ↔ b.timeout x = true ∧
      (Function.update b.evTimeout k deadline x).place b.nCommonTimeouts = some i
    rw [h.mem]
    exact and_congr_right fun on => by rw [place on]

omit [DecidableEq α] in
/-- What is not about the heap and the lists may change. -/
theorem Sound.other (h : b.Sound) (evIoTimeout : TimerId α → Timeval)
    (expired : TimerId α → Bool) :
    Sound { b with evIoTimeout := evIoTimeout, expired := expired } :=
  ⟨h.few, h.marked, h.own, h.heap, h.nodup, h.sorted, h.mem⟩

/-- What `event_add_nolock_` does to the fields, when it succeeds. -/
structure Added (b b' : TimerBase α) (k : TimerId α) (deadline : Timeval)
    (evIoTimeout : TimerId α → Timeval) : Prop where
  evTimeout : b'.evTimeout = Function.update b.evTimeout k deadline
  evIoTimeout : b'.evIoTimeout = evIoTimeout
  expired : b'.expired = Function.update b.expired k false
  timeout : b'.timeout = Function.update b.timeout k true
  durations : b'.commonTimeoutQueues.map CommonTimeoutList.duration =
    b.commonTimeoutQueues.map CommonTimeoutList.duration

omit [DecidableEq α] in
theorem newTimeout_congr (same : b'.nCommonTimeouts = b.nCommonTimeouts) (now tv : Timeval)
    (tvIsAbsolute : Bool) :
    b'.newTimeout now tv tvIsAbsolute = b.newTimeout now tv tvIsAbsolute := by
  unfold newTimeout TimerBase.isCommonTimeout
  rw [show b'.commonTimeoutQueues.length = _ from same]
  rfl

/-- **`event_add_nolock_`** up to what it does for the first of a list. -/
theorem Sound.addWith [Finite α] (h : b.Sound) (small : Nat.card α + 256 < 2147483648)
    (schedule : TimerBase α → Nat → TimerId α → Option (TimerBase α)) (persist reserve : Bool)
    (now tv : Timeval) (tvIsAbsolute : Bool)
    (marked : (b.newTimeout now tv tvIsAbsolute).Marked b.nCommonTimeouts)
    (own : ∀ i, k = .common i →
      i < b.nCommonTimeouts ∧ (b.newTimeout now tv tvIsAbsolute).magicBits = 0) :
    (reserve = false ∧
        b.eventAddWith schedule persist reserve true now k tv tvIsAbsolute = some (false, b)) ∨
      ∃ b', b'.Sound ∧
        Added b b' k (b.newTimeout now tv tvIsAbsolute)
          (if persist && !tvIsAbsolute then Function.update b.evIoTimeout k tv
            else b.evIoTimeout) ∧
        b.eventAddWith schedule persist reserve true now k tv tvIsAbsolute =
          if b'.isCommonTimeout tv then
            b'.commonTimeoutQueues[(b'.evTimeout k).commonTimeoutIdx]?.bind fun ctl =>
              if ctl.events.head? = some k then
                (schedule b' (b'.evTimeout k).commonTimeoutIdx k).bind fun b => some (true, b)
              else some (true, b')
          else some (true, b') := by
  obtain ⟨ok, heap, eq, result⟩ : ∃ ok heap,
      (if !b.timeout k then b.timeheap.minHeapReserve reserve (1 + b.timeheap.n)
        else (true, b.timeheap)) = (ok, heap) ∧
      ((ok = false ∧ reserve = false) ∨
        ok = true ∧ ∃ a, heap = { b.timeheap with a := a } ∧ b.timeheap.a ≤ a) := by
    split_ifs
    · rcases b.timeheap.minHeapReserve_cases reserve (1 + b.timeheap.n) with
        ⟨a, eq, le, -⟩ | ⟨eq, no, -⟩
      · exact ⟨true, _, eq, Or.inr ⟨rfl, a, rfl, le⟩⟩
      · exact ⟨false, _, eq, Or.inl ⟨rfl, no⟩⟩
    · exact ⟨true, _, rfl, Or.inr ⟨rfl, b.timeheap.a, rfl, le_rfl⟩⟩
  unfold eventAddWith
  rw [eq]
  rcases result with ⟨rfl, no⟩ | ⟨rfl, a, rfl, le⟩
  · exact Or.inl ⟨no, rfl⟩
  right
  let io := if persist && !tvIsAbsolute then Function.update b.evIoTimeout k tv else b.evIoTimeout
  let b₁ : TimerBase α := { b with timeheap := { b.timeheap with a := a }, evIoTimeout := io }
  have h₁ : b₁.Sound := ⟨h.few, h.marked, h.own, h.heap.reserve le, h.nodup, h.sorted, h.mem⟩
  obtain ⟨b₂, run₂, h₂, moved, timeout⟩ := h₁.removeFlagged k
  have n₂ : b₂.nCommonTimeouts = b.nCommonTimeouts := moved.nCommonTimeouts
  have deadline := newTimeout_congr n₂ now tv tvIsAbsolute
  have off : b₂.timeout k = false := by
    rw [timeout, Function.update_self]
  let b₃ : TimerBase α := { b₂ with
    expired := Function.update b₂.expired k false
    evTimeout := Function.update b₂.evTimeout k (b₂.newTimeout now tv tvIsAbsolute) }
  have h₃ : b₃.Sound := h₂.redate off _ _ _
  have at₃ : b₃.evTimeout k = b.newTimeout now tv tvIsAbsolute :=
    (Function.update_self ..).trans deadline
  obtain ⟨b₄, run₄, h₄, moved', timeout'⟩ := h₃.insert small off
    (show (b₃.evTimeout k).Marked b₂.nCommonTimeouts by rw [at₃, n₂]; exact marked)
    (show ∀ i, k = .common i → i < b₂.nCommonTimeouts ∧ (b₃.evTimeout k).magicBits = 0 by
      rw [at₃, n₂]; exact own)
  refine ⟨b₄, h₄, ⟨?_, ?_, ?_, ?_, ?_⟩, ?_⟩
  · rw [moved'.evTimeout, ← deadline, ← show b₂.evTimeout = b.evTimeout from moved.evTimeout]
  · exact moved'.evIoTimeout.trans moved.evIoTimeout
  · rw [moved'.expired, ← show b₂.expired = b.expired from moved.expired]
  · rw [timeout']
    show Function.update b₂.timeout k true = _
    rw [timeout, Function.update_idem]
  · exact moved'.durations.trans moved.durations
  · show (b₁.removeFlagged k).bind _ = _
    rw [run₂]
    show (b₃.eventQueueInsertTimeout true k).bind _ = _
    rw [run₄]
    rfl

omit [DecidableEq α] in
/-- An event that has not been touched is where it was. -/
theorem place_of_ne [DecidableEq α] {deadline : Timeval} {io : TimerId α → Timeval}
    (a : Added b b' k deadline io) {x : TimerId α} (ne : x ≠ k) :
    b'.timeout x = b.timeout x ∧ b'.evTimeout x = b.evTimeout x ∧ b'.place x = b.place x := by
  have deadlines : b'.evTimeout x = b.evTimeout x := by
    rw [a.evTimeout, Function.update_of_ne ne]
  refine ⟨by rw [a.timeout, Function.update_of_ne ne], deadlines, ?_⟩
  unfold TimerBase.place
  rw [deadlines, nCommonTimeouts_of_durations a.durations]

/-- What differs between two bases is about the events of the lists. -/
structure Unseen (b b' : TimerBase α) : Prop where
  evTimeout : ∀ e, b'.evTimeout (.event e) = b.evTimeout (.event e)
  evIoTimeout : ∀ e, b'.evIoTimeout (.event e) = b.evIoTimeout (.event e)
  expired : ∀ e, b'.expired (.event e) = b.expired (.event e)
  timeout : ∀ e, b'.timeout (.event e) = b.timeout (.event e)
  durations : b'.commonTimeoutQueues.map CommonTimeoutList.duration =
    b.commonTimeoutQueues.map CommonTimeoutList.duration

omit [DecidableEq α] in
theorem Unseen.refl (b : TimerBase α) : Unseen b b :=
  ⟨fun _ => rfl, fun _ => rfl, fun _ => rfl, fun _ => rfl, rfl⟩

/-- **`common_timeout_schedule`.** -/
theorem Sound.schedule [Finite α] (h : b.Sound) (small : Nat.card α + 256 < 2147483648)
    (now : Timeval) (first : (b.list i).head? = some k) :
    ∃ b', commonTimeoutSchedule true now b i k = some b' ∧ b'.Sound ∧ Unseen b b' ∧
      b'.expired = Function.update b.expired (.common i) false ∧
      b'.Covered i ∧ ∀ j, j ≠ i → b.Covered j → b'.Covered j := by
  have bits : (b.evTimeout k).masked.magicBits = 0 := by
    have := (b.evTimeout k).masked_usec
    unfold Timeval.magicBits
    omega
  have lt : i < b.nCommonTimeouts :=
    Timeval.place_lt ((h.mem i k).mp (List.mem_of_head? first)).2
  have own : ∀ j, (TimerId.common i : TimerId α) = .common j →
      j < b.nCommonTimeouts ∧ (b.newTimeout now (b.evTimeout k).masked true).magicBits = 0 := by
    intro j eq
    rw [← TimerId.common.inj eq]
    exact ⟨lt, bits⟩
  rcases h.addWith small (fun _ _ _ => none) false true now (b.evTimeout k).masked true
    (k := .common i) (Or.inl bits) own with ⟨no, -⟩ | ⟨b', h', added, run⟩
  · cases no
  have plain : ¬ b'.isCommonTimeout (b.evTimeout k).masked = true :=
    Timeval.not_common_of_place (Timeval.place_of_none bits _)
  rw [if_neg plain] at run
  have other (e : α) : (TimerId.event e : TimerId α) ≠ .common i := by simp
  refine ⟨b', ?_, h', ⟨?_, ?_, ?_, ?_, added.durations⟩, added.expired, ?_, ?_⟩
  · unfold commonTimeoutSchedule
    rw [run]
    rfl
  · intro e
    exact (place_of_ne added (other e)).2.1
  · intro e
    rw [added.evIoTimeout]
    rfl
  · intro e
    rw [added.expired, Function.update_of_ne (other e)]
  · intro e
    exact (place_of_ne added (other e)).1
  · intro x on at_
    right
    have ne : x ≠ .common i := by
      rintro rfl
      rw [h'.place_common on] at at_
      cases at_
    obtain ⟨same, deadline, here⟩ := place_of_ne added ne
    rw [deadline, added.timeout, added.evTimeout, Function.update_self, Function.update_self]
    refine ⟨rfl, h.first_le first ((h.mem i x).mpr ⟨?_, ?_⟩)⟩
    · rw [← same, on]
    · rw [← here, at_]
  · intro j ne covered x on at_
    have ne' : (TimerId.common j : TimerId α) ≠ .common i := by simp [ne]
    have nx : x ≠ .common i := by
      rintro rfl
      rw [h'.place_common on] at at_
      cases at_
    obtain ⟨same, deadline, here⟩ := place_of_ne added nx
    obtain ⟨same', deadline', -⟩ := place_of_ne added ne'
    rw [same', deadline', deadline, added.expired, Function.update_of_ne ne']
    exact covered x (same ▸ on) (here ▸ at_)

/-- For every other event, the event of its list is as early as it was. -/
theorem Added.early {e : α} {deadline : Timeval} {io : TimerId α → Timeval}
    (a : Added b b' (.event e) deadline io) (covered : b.Covered i) {x : TimerId α}
    (ne : x ≠ .event e) (on : b'.timeout x = true) (at_ : b'.place x = some i) :
    b'.expired (.common i) = true ∨
      b'.timeout (.common i) = true ∧ b'.evTimeout (.common i) ≤ (b'.evTimeout x).masked := by
  obtain ⟨same, deadline, here⟩ := place_of_ne a ne
  obtain ⟨same', deadline', -⟩ := place_of_ne (x := .common i) a (by simp)
  rw [same', deadline', deadline, a.expired, Function.update_of_ne (by simp)]
  exact covered x (same ▸ on) (here ▸ at_)

/-- **`event_add_nolock_`** for an event of the program. -/
theorem Armed.add [Finite α] (h : b.Armed) (small : Nat.card α + 256 < 2147483648)
    (persist reserve : Bool) (now tv : Timeval) (tvIsAbsolute : Bool) (e : α)
    (marked : (b.newTimeout now tv tvIsAbsolute).Marked b.nCommonTimeouts)
    (bits : (b.newTimeout now tv tvIsAbsolute).magicBits = tv.magicBits) :
    (reserve = false ∧
        b.eventAddNolock persist reserve true now (.event e) tv tvIsAbsolute = some (false, b)) ∨
      ∃ b₁ b', b.eventAddNolock persist reserve true now (.event e) tv tvIsAbsolute =
          some (true, b') ∧ b'.Armed ∧
        Added b b₁ (.event e) (b.newTimeout now tv tvIsAbsolute)
          (if persist && !tvIsAbsolute then Function.update b.evIoTimeout (.event e) tv
            else b.evIoTimeout) ∧
        Unseen b₁ b' := by
  unfold eventAddNolock
  rcases h.sound.addWith small (commonTimeoutSchedule true now) persist reserve now tv tvIsAbsolute
    (k := .event e) marked (by simp) with failed | ⟨b₁, h₁, added, run⟩
  · exact Or.inl failed
  right
  have n₁ := nCommonTimeouts_of_durations added.durations
  -- the deadline is common exactly when the time to wait is
  have place : b₁.place (.event e) = tv.place b.nCommonTimeouts := by
    unfold TimerBase.place
    rw [added.evTimeout, Function.update_self, n₁]
    exact marked.place_eq h.sound.few bits
  have elsewhere {i : Nat} (ne : b₁.place (.event e) ≠ some i) : b₁.Covered i := by
    intro x on at_
    refine added.early (h.covered i) ?_ on at_
    rintro rfl
    exact ne at_
  have active := active_congr h.active added.durations fun _ => expired_of_update added.expired
  cases at_ : tv.place b.nCommonTimeouts with
  | none =>
      have plain : ¬ b₁.isCommonTimeout tv = true := by
        apply Timeval.not_common_of_place
        rw [show b₁.commonTimeoutQueues.length = _ from n₁, at_]
      rw [if_neg plain] at run
      refine ⟨b₁, b₁, run, ⟨h₁, ?_, active⟩, added, .refl b₁⟩
      intro i
      apply elsewhere
      rw [place, at_]
      simp
  | some j =>
      rw [at_] at place
      have common : b₁.isCommonTimeout tv = true := by
        refine (Timeval.common_of_place (i := j) ?_).1
        rw [show b₁.commonTimeoutQueues.length = _ from n₁, at_]
      obtain ⟨ctl, entry, events⟩ := b₁.getElem_of_lt (Timeval.place_lt place)
      rw [if_pos common, (Timeval.common_of_place place).2, entry, Option.bind_some, events] at run
      by_cases first : (b₁.list j).head? = some (.event e)
      · obtain ⟨b', run', h', unseen, expired, here, rest⟩ := h₁.schedule small now first
        rw [if_pos first, run', Option.bind_some] at run
        have active' := active_congr active unseen.durations fun _ => expired_of_update expired
        refine ⟨b₁, b', run, ⟨h', ?_, active'⟩, added, unseen⟩
        intro i
        by_cases eq : i = j
        · rw [eq]
          exact here
        · apply rest i eq
          apply elsewhere
          rw [place]
          simp [Ne.symm eq]
      · rw [if_neg first] at run
        refine ⟨b₁, b₁, run, ⟨h₁, ?_, active⟩, added, .refl b₁⟩
        intro i
        -- the list's event is early enough for an event before this one
        refine h₁.covered_of_first fun y first' => ?_
        obtain ⟨on, at_⟩ := (h₁.mem i y).mp (List.mem_of_head? first')
        refine added.early (h.covered i) ?_ on at_
        rintro rfl
        rw [place] at at_
        rw [Option.some.inj at_] at first
        exact first first'

/-- What taking an event off does to the fields; `active` is whether it is active
afterwards. -/
structure TakenOff (b b' : TimerBase α) (k : TimerId α) (active : Bool) : Prop where
  evTimeout : b'.evTimeout = b.evTimeout
  evIoTimeout : b'.evIoTimeout = b.evIoTimeout
  expired : b'.expired = Function.update b.expired k active
  timeout : b'.timeout = Function.update b.timeout k false
  durations : b'.commonTimeoutQueues.map CommonTimeoutList.duration =
    b.commonTimeoutQueues.map CommonTimeoutList.duration

theorem TakenOff.place {active : Bool} (t : TakenOff b b' k active) (x : TimerId α) :
    b'.place x = b.place x := by
  unfold TimerBase.place
  rw [t.evTimeout, nCommonTimeouts_of_durations t.durations]

theorem TakenOff.timeout_iff {active : Bool} (t : TakenOff b b' k active) (x : TimerId α) :
    b'.timeout x = true ↔ b.timeout x = true ∧ x ≠ k := by
  rw [t.timeout, Function.update_apply]
  split_ifs with eq
  · simp [eq]
  · simp [eq]

/-- The event of a list may be taken off when it is active afterwards. -/
theorem TakenOff.covered {active : Bool} (t : TakenOff b b' k active)
    (ok : k = .common i → active = true) (covered : b.Covered i) : b'.Covered i := by
  intro x on at_
  rw [t.expired, t.timeout, t.evTimeout]
  by_cases eq : .common i = k
  · rw [eq, Function.update_self]
    exact Or.inl (ok eq.symm)
  · rw [Function.update_of_ne eq, Function.update_of_ne eq]
    exact covered x ((t.timeout_iff x).mp on).1 (t.place x ▸ at_)

/-- **`event_del_nolock_`.** -/
theorem Sound.del (h : b.Sound) (k : TimerId α) :
    ∃ b', b.eventDelNolock k = some b' ∧ b'.Sound ∧ TakenOff b b' k false := by
  obtain ⟨b₁, run, h₁, moved, timeout⟩ := h.removeFlagged k
  unfold eventDelNolock
  rw [run]
  refine ⟨_, rfl, h₁.other b₁.evIoTimeout (Function.update b₁.expired k false), moved.evTimeout,
    moved.evIoTimeout, ?_, timeout, moved.durations⟩
  show Function.update b₁.expired k false = _
  rw [moved.expired]

/-- An event fires. -/
theorem Sound.expire (h : b.Sound) (k : TimerId α) :
    ∃ b', b.expire k = some b' ∧ b'.Sound ∧ TakenOff b b' k true := by
  obtain ⟨b₁, run, h₁, off⟩ := h.del k
  unfold TimerBase.expire
  rw [run]
  refine ⟨_, rfl, h₁.other b₁.evIoTimeout (Function.update b₁.expired k true), off.evTimeout,
    off.evIoTimeout, ?_, off.timeout, off.durations⟩
  show Function.update b₁.expired k true = _
  rw [off.expired, Function.update_idem]

end Lists

end TimerBase

end SwiftEvent
