import SwiftEvent.CommonTimeouts

/-!
# Common timeouts are timers

What a program sees of its timers does not depend on the lists: every run of the
functions of `event.c` goes through, and is one of timers that each have a deadline
of their own.

* `Fired` — some events that were due have fired, and nothing else has changed.
* `timeoutLoop_spec`, `commonTimeoutLoop_spec` — the two loops that fire events.
* `PlainTimers` — timers without heap and lists.
* `common_timeouts_are_timers` — every run is one of those timers.
* `common_timeouts_fire` — a pass over the heap and the active lists fires exactly
  what is due.
* `heap_top_is_early` — no deadline is earlier than the top of the heap, which
  `timeout_next` reads.
-/

namespace SwiftEvent

namespace TimerBase

open StepSystem

variable {α : Type}

section Firing

variable [DecidableEq α] {b b' : TimerBase α} {k : TimerId α} {i : Nat}

/-! ## What fires -/

/-- Between two bases, some events of the program that were due at `now` have fired. -/
structure Fired (now : Timeval) (b b' : TimerBase α) : Prop where
  evTimeout : ∀ e, b'.evTimeout (.event e) = b.evTimeout (.event e)
  evIoTimeout : ∀ e, b'.evIoTimeout (.event e) = b.evIoTimeout (.event e)
  durations : b'.commonTimeoutQueues.map CommonTimeoutList.duration =
    b.commonTimeoutQueues.map CommonTimeoutList.duration
  settled : ∀ e,
    b'.timeout (.event e) = b.timeout (.event e) ∧ b'.expired (.event e) = b.expired (.event e) ∨
      (b.timeout (.event e) = true ∧ (b.evTimeout (.event e)).masked ≤ now) ∧
        b'.timeout (.event e) = false ∧ b'.expired (.event e) = true

variable {now : Timeval} {b'' : TimerBase α}

omit [DecidableEq α] in
theorem Fired.refl (now : Timeval) (b : TimerBase α) : Fired now b b :=
  ⟨fun _ => rfl, fun _ => rfl, rfl, fun _ => Or.inl ⟨rfl, rfl⟩⟩

omit [DecidableEq α] in
theorem Fired.trans (f : Fired now b b') (f' : Fired now b' b'') : Fired now b b'' := by
  refine ⟨?_, ?_, f'.durations.trans f.durations, ?_⟩
  · intro e
    rw [f'.evTimeout, f.evTimeout]
  · intro e
    rw [f'.evIoTimeout, f.evIoTimeout]
  intro e
  rcases f'.settled e with ⟨same, same'⟩ | ⟨⟨on, due⟩, off, fired⟩
  · rw [same, same']
    exact f.settled e
  right
  rcases f.settled e with ⟨same, -⟩ | ⟨-, off', -⟩
  · exact ⟨⟨same ▸ on, f.evTimeout e ▸ due⟩, off, fired⟩
  · rw [off'] at on
    cases on

omit [DecidableEq α] in
theorem Unseen.fired (u : Unseen b b') (now : Timeval) : Fired now b b' :=
  ⟨u.evTimeout, u.evIoTimeout, u.durations, fun e => Or.inl ⟨u.timeout e, u.expired e⟩⟩

omit [DecidableEq α] in
/-- What waits afterwards has waited before, with the same deadline. -/
theorem Fired.waited (f : Fired now b b') {e : α} (on : b'.timeout (.event e) = true) :
    b.timeout (.event e) = true ∧ b'.place (.event e) = b.place (.event e) := by
  refine ⟨?_, ?_⟩
  · rcases f.settled e with ⟨same, -⟩ | ⟨-, off, -⟩
    · rw [← same, on]
    · rw [off] at on
      cases on
  · unfold TimerBase.place
    rw [f.evTimeout, nCommonTimeouts_of_durations f.durations]

/-- The event of a list is not one of the program. -/
theorem TakenOff.fired_common {active : Bool} (t : TakenOff b b' (.common i) active)
    (now : Timeval) : Fired now b b' := by
  refine ⟨fun e => by rw [t.evTimeout], fun e => by rw [t.evIoTimeout], t.durations, ?_⟩
  intro e
  left
  rw [t.timeout, t.expired, Function.update_of_ne (by simp), Function.update_of_ne (by simp)]
  exact ⟨rfl, rfl⟩

theorem TakenOff.fired_event {e : α} (t : TakenOff b b' (.event e) true)
    (on : b.timeout (.event e) = true) (due : (b.evTimeout (.event e)).masked ≤ now) :
    Fired now b b' := by
  refine ⟨fun e => by rw [t.evTimeout], fun e => by rw [t.evIoTimeout], t.durations, ?_⟩
  intro x
  rw [t.timeout, t.expired]
  by_cases eq : x = e
  · rw [eq, Function.update_self, Function.update_self]
    exact Or.inr ⟨⟨on, due⟩, rfl, rfl⟩
  · rw [Function.update_of_ne (by simp [eq]), Function.update_of_ne (by simp [eq])]
    exact Or.inl ⟨rfl, rfl⟩

/-- The heap is smaller without an event. -/
theorem TakenOff.heap_lt {active : Bool} (t : TakenOff b b' k active) (h : b.Sound)
    (h' : b'.Sound) (on : b.timeout k = true) (at_ : b.place k = none) :
    b'.timeheap.n < b.timeheap.n := by
  obtain ⟨size, finite⟩ := h.heap.size
  obtain ⟨size', -⟩ := h'.heap.size
  rw [← size, ← size']
  refine Set.ncard_lt_ncard ⟨?_, ?_⟩ finite
  · rintro x ⟨on', at'⟩
    exact ⟨((t.timeout_iff x).mp on').1, t.place x ▸ at'⟩
  · intro all
    have still : b'.timeout k = true := (all ⟨on, at_⟩).1
    exact ((t.timeout_iff k).mp still).2 rfl

/-- A list is shorter without an event. -/
theorem TakenOff.list_lt {active : Bool} (t : TakenOff b b' k active) (h : b.Sound)
    (h' : b'.Sound) (mem : k ∈ b.list i) : (b'.list i).length < (b.list i).length := by
  have perm : (b'.list i).Perm ((b.list i).erase k) := by
    refine (List.perm_ext_iff_of_nodup (h'.nodup i) ((h.nodup i).erase _)).mpr ?_
    intro x
    rw [(h.nodup i).mem_erase_iff, h'.mem, h.mem, t.timeout_iff, t.place]
    exact ⟨fun ⟨⟨on, ne⟩, at_⟩ => ⟨ne, on, at_⟩, fun ⟨ne, on, at_⟩ => ⟨⟨on, ne⟩, at_⟩⟩
  have pos := List.length_pos_of_mem mem
  rw [perm.length_eq, List.length_erase_of_mem mem]
  omega

/-- **The loop of `timeout_process`** takes off the heap what is due, and no more. -/
theorem timeoutLoop_spec (now : Timeval) (fuel : Nat) : ∀ {b : TimerBase α}, b.Armed →
    b.timeheap.n < fuel →
    ∃ b', timeoutLoop now fuel b = some b' ∧ b'.Armed ∧ Fired now b b' ∧
      ∀ k, b'.timeout k = true → b'.place k = none → now < b'.evTimeout k := by
  induction fuel with
  | zero =>
      intro b armed lt
      omega
  | succ fuel ih =>
      intro b armed lt
      have h := armed.sound
      have top := h.heap.top
      unfold timeoutLoop
      cases first : b.timeheap.minHeapTop with
      | none =>
          rw [first] at top
          refine ⟨b, rfl, armed, Fired.refl now b, ?_⟩
          intro k on at_
          have mem : k ∈ {x | b.timeout x = true ∧ b.place x = none} := ⟨on, at_⟩
          rw [show _ = _ from top] at mem
          cases mem
      | some k =>
          rw [first] at top
          obtain ⟨⟨on, at_⟩, least⟩ := top
          by_cases early : now < b.evTimeout k
          · show ∃ b', (if now < b.evTimeout k then some b else _) = some b' ∧ _
            rw [if_pos early]
            refine ⟨b, rfl, armed, Fired.refl now b, ?_⟩
            intro x on' at'
            have le := least x ⟨on', at'⟩
            rw [← Timeval.not_le] at early ⊢
            exact fun due => early (Timeval.le_trans le due)
          · show ∃ b', (if now < b.evTimeout k then some b else _) = some b' ∧ _
            rw [if_neg early]
            obtain ⟨b₁, run₁, h₁, off⟩ := h.expire k
            have due : b.evTimeout k ≤ now := by
              by_contra late
              exact early (Timeval.not_le.mp late)
            have fewer := off.heap_lt h h₁ on at_
            have n₁ := nCommonTimeouts_of_durations off.durations
            have active₁ : ∀ i, b₁.expired (.common i) = true → i < b₁.nCommonTimeouts := by
              intro i yes
              rw [n₁]
              rw [off.expired, Function.update_apply] at yes
              split_ifs at yes with eq
              · rw [← eq] at on
                exact (h.own i on).1
              · exact armed.active i yes
            have fired : Fired now b b₁ := by
              cases k with
              | common i => exact off.fired_common now
              | event e =>
                  refine off.fired_event on ?_
                  rw [Timeval.masked_eq_self ((h.marked _ on).bits_of_place_none h.few at_)]
                  exact due
            obtain ⟨b', run, armed', fired', rest⟩ :=
              ih ⟨h₁, fun i => off.covered (fun _ => rfl) (armed.covered i), active₁⟩ (by omega)
            refine ⟨b', ?_, armed', fired.trans fired', rest⟩
            show (b.expire k).bind _ = _
            rw [run₁]
            exact run

/-- **`timeout_process`.** -/
theorem Armed.timeoutProcess (armed : b.Armed) (now : Timeval) :
    ∃ b', b.timeoutProcess now = some b' ∧ b'.Armed ∧ Fired now b b' ∧
      ∀ k, b'.timeout k = true → b'.place k = none → now < b'.evTimeout k := by
  unfold TimerBase.timeoutProcess
  by_cases empty : b.timeheap.minHeapEmpty = true
  · rw [if_pos empty]
    refine ⟨b, rfl, armed, Fired.refl now b, ?_⟩
    intro k on at_
    obtain ⟨size, finite⟩ := armed.sound.heap.size
    unfold MinHeap.minHeapEmpty at empty
    rw [beq_iff_eq.mp empty, Set.ncard_eq_zero finite] at size
    have mem : k ∈ {x | b.timeout x = true ∧ b.place x = none} := ⟨on, at_⟩
    rw [size] at mem
    cases mem
  · rw [if_neg empty]
    exact timeoutLoop_spec now (b.timeheap.n + 1) armed (Nat.lt_succ_self _)

omit [DecidableEq α] in
/-- Only events of the program are in a list. -/
theorem Sound.event_of_mem (h : b.Sound) (mem : k ∈ b.list i) : ∃ e, k = .event e := by
  obtain ⟨on, at_⟩ := (h.mem i k).mp mem
  cases k with
  | event e => exact ⟨e, rfl⟩
  | common j =>
      rw [h.place_common on] at at_
      cases at_

theorem commonTimeoutLoop_nil (realloc : Bool) (now : Timeval) (lt : i < b.nCommonTimeouts)
    (empty : b.list i = []) (fuel : Nat) :
    commonTimeoutLoop realloc now i (fuel + 1) b = some b := by
  obtain ⟨ctl, entry, events⟩ := b.getElem_of_lt lt
  rw [empty] at events
  unfold commonTimeoutLoop
  simp only [entry, events, Option.bind_eq_bind, Option.bind_some]

theorem commonTimeoutLoop_cons (realloc : Bool) (now : Timeval) (lt : i < b.nCommonTimeouts)
    {ev : TimerId α} {rest : List (TimerId α)} (first : b.list i = ev :: rest) (fuel : Nat) :
    commonTimeoutLoop realloc now i (fuel + 1) b =
      if now < (b.evTimeout ev).masked then commonTimeoutSchedule realloc now b i ev
      else (b.expire ev).bind fun b => commonTimeoutLoop realloc now i fuel b := by
  obtain ⟨ctl, entry, events⟩ := b.getElem_of_lt lt
  rw [first] at events
  rw [commonTimeoutLoop]
  simp only [entry, events, Option.bind_eq_bind, Option.bind_some]

/-- **The loop of `common_timeout_callback`** takes off its list what is due, and no
more. -/
theorem commonTimeoutLoop_spec [Finite α] (small : Nat.card α + 256 < 2147483648)
    (now : Timeval) (i fuel : Nat) : ∀ {b : TimerBase α}, b.Sound →
    (∀ j, j ≠ i → b.Covered j) → (∀ j, b.expired (.common j) = true → j < b.nCommonTimeouts) →
    i < b.nCommonTimeouts → (b.list i).length < fuel →
    ∃ b', commonTimeoutLoop true now i fuel b = some b' ∧ b'.Armed ∧ Fired now b b' ∧
      (∀ j, j ≠ i → b'.expired (.common j) = b.expired (.common j)) ∧
      ∀ e, b'.timeout (.event e) = true → b'.place (.event e) = some i →
        now < (b'.evTimeout (.event e)).masked := by
  induction fuel with
  | zero =>
      intro b h covered active lt bound
      omega
  | succ fuel ih =>
      intro b h covered active lt bound
      cases first : b.list i with
      | nil =>
          have none (k : TimerId α) : ¬ (b.timeout k = true ∧ b.place k = some i) := by
            rw [← h.mem, first]
            exact List.not_mem_nil
          refine ⟨b, commonTimeoutLoop_nil true now lt first fuel, ⟨h, ?_, active⟩,
            Fired.refl now b, fun _ _ => rfl, ?_⟩
          · intro j
            by_cases eq : j = i
            · intro k on at_
              exact absurd ⟨on, eq ▸ at_⟩ (none k)
            · exact covered j eq
          · intro e on at_
            exact absurd ⟨on, at_⟩ (none _)
      | cons ev rest =>
          have head : (b.list i).head? = some ev := by rw [first, List.head?_cons]
          rw [commonTimeoutLoop_cons true now lt first fuel]
          by_cases early : now < (b.evTimeout ev).masked
          · obtain ⟨b', run, h', unseen, expired, here, others⟩ := h.schedule small now head
            have active' := active_congr active unseen.durations fun _ => expired_of_update expired
            refine ⟨b', (if_pos early).trans run, ⟨h', ?_, active'⟩, unseen.fired now, ?_, ?_⟩
            · intro j
              by_cases eq : j = i
              · rw [eq]
                exact here
              · exact others j eq (covered j eq)
            · intro j ne
              rw [expired, Function.update_of_ne (by simp [ne])]
            · intro e on at_
              obtain ⟨on', at'⟩ := (unseen.fired now).waited on
              have le := h.first_le head ((h.mem i _).mpr ⟨on', at' ▸ at_⟩)
              rw [unseen.evTimeout]
              rw [← Timeval.not_le] at early ⊢
              exact fun due => early (Timeval.le_trans le due)
          · have mem : ev ∈ b.list i := List.mem_of_head? head
            obtain ⟨e, rfl⟩ := h.event_of_mem mem
            obtain ⟨on, at_⟩ := (h.mem i _).mp mem
            have due : (b.evTimeout (.event e)).masked ≤ now := by
              by_contra late
              exact early (Timeval.not_le.mp late)
            obtain ⟨b₁, run₁, h₁, off⟩ := h.expire (.event e)
            have n₁ := nCommonTimeouts_of_durations off.durations
            have shorter := off.list_lt h h₁ mem
            obtain ⟨b', run, armed, fired, others, left⟩ := ih h₁
              (fun j ne => off.covered (by simp) (covered j ne))
              (active_congr active off.durations fun j yes => by
                rw [off.expired, Function.update_of_ne (by simp)] at yes
                exact yes)
              (n₁ ▸ lt) (by omega)
            refine ⟨b', ?_, armed, (off.fired_event on due).trans fired, ?_, left⟩
            · refine (if_neg early).trans ?_
              rw [run₁]
              exact run
            · intro j ne
              rw [others j ne, off.expired, Function.update_of_ne (by simp)]

/-- **`common_timeout_callback`**, when the event of the list is active. -/
theorem Armed.runCommon [Finite α] (armed : b.Armed) (small : Nat.card α + 256 < 2147483648)
    (persist : α → Bool) (reserve : Bool) (now : Timeval) (i : Nat) :
    ∃ b', b.runCallback persist reserve true now (.common i) = some b' ∧ b'.Armed ∧
      Fired now b b' ∧ (∀ j, j ≠ i → b'.expired (.common j) = b.expired (.common j)) ∧
      (b.expired (.common i) = true →
        ∀ e, b'.timeout (.event e) = true → b'.place (.event e) = some i →
          now < (b'.evTimeout (.event e)).masked) := by
  show ∃ b', (if b.expired (.common i) then _ else _) = some b' ∧ _
  by_cases active : b.expired (.common i) = true
  swap
  · exact ⟨b, if_neg active, armed, Fired.refl now b, fun _ _ => rfl, fun yes => absurd yes active⟩
  obtain ⟨b₁, run₁, h₁, off⟩ := armed.sound.del (.common i)
  have n₁ := nCommonTimeouts_of_durations off.durations
  have lt : i < b₁.nCommonTimeouts := n₁ ▸ armed.active i active
  have covered : ∀ j, j ≠ i → b₁.Covered j := by
    intro j ne
    refine off.covered ?_ (armed.covered j)
    intro eq
    exact absurd (TimerId.common.inj eq).symm ne
  have active₁ := active_congr armed.active off.durations fun _ => expired_of_update off.expired
  obtain ⟨ctl, entry, events⟩ := b₁.getElem_of_lt lt
  obtain ⟨b', run, armed', fired, others, left⟩ :=
    commonTimeoutLoop_spec small now i ((b₁.list i).length + 1) h₁ covered active₁ lt
      (Nat.lt_succ_self _)
  refine ⟨b', ?_, armed', (off.fired_common now).trans fired, ?_, fun _ => left⟩
  · rw [if_pos active]
    show (b.eventDelNolock (.common i)).bind _ = _
    rw [run₁]
    show (b₁.commonTimeoutQueues[i]?).bind _ = _
    rw [entry, Option.bind_some, events]
    exact run
  · intro j ne
    rw [others j ne, off.expired, Function.update_of_ne (by simp [ne])]

end Firing

end TimerBase

/-! ## Timers without lists -/

/-- Timers that each have a deadline of their own; `interval` is what a persistent
event waits for again. -/
structure PlainTimers (α : Type) where
  deadline : α → Timeval
  interval : α → Option Timeval
  pending : α → Bool
  expired : α → Bool

namespace PlainTimers

variable {α : Type} [DecidableEq α] (t : PlainTimers α)

/-- The interval that a time to wait gives; with zero there is none, unless it is
the zero of a list. -/
def wait (tv : Timeval) : Option Timeval := if evutilTimerisset tv then some tv.masked else none

/-- A timer is set. -/
def add (persist : Bool) (now : Timeval) (e : α) (tv : Timeval) : PlainTimers α where
  deadline := Function.update t.deadline e (evutilTimeradd now tv.masked)
  interval := if persist then Function.update t.interval e (wait tv) else t.interval
  pending := Function.update t.pending e true
  expired := Function.update t.expired e false

/-- An event is deleted. -/
def del (e : α) : PlainTimers α :=
  { t with
    pending := Function.update t.pending e false
    expired := Function.update t.expired e false }

/-- A timer is removed. -/
def removeTimer (e : α) : PlainTimers α :=
  if t.pending e then
    { t with
      pending := Function.update t.pending e false
      interval := Function.update t.interval e none }
  else t

/-- An event is not active any more. -/
def ran (e : α) : PlainTimers α := { t with expired := Function.update t.expired e false }

/-- The next deadline of a persistent event: an interval after the last when that is
why it is active, but not in the past. -/
def nextRun (now deadline interval : Timeval) (byTimeout : Bool) : Timeval :=
  let runAt := evutilTimeradd (if byTimeout then deadline else now) interval
  if runAt < now then evutilTimeradd now interval else runAt

/-- A persistent event waits again. -/
def again (now : Timeval) (e : α) (interval : Timeval) : PlainTimers α :=
  { t.ran e with
    deadline := Function.update t.deadline e (nextRun now (t.deadline e) interval (t.expired e))
    pending := Function.update t.pending e true }

/-- Some of the timers that are due fire. -/
def FireSome (now : Timeval) (t t' : PlainTimers α) : Prop :=
  t'.deadline = t.deadline ∧ t'.interval = t.interval ∧
    ∀ e, t'.pending e = t.pending e ∧ t'.expired e = t.expired e ∨
      (t.pending e = true ∧ t.deadline e ≤ now) ∧ t'.pending e = false ∧ t'.expired e = true

/-- All the timers that are due fire. -/
def fire (now : Timeval) : PlainTimers α :=
  { t with
    pending := fun e => t.pending e && !decide (t.deadline e ≤ now)
    expired := fun e => t.expired e || (t.pending e && decide (t.deadline e ≤ now)) }

end PlainTimers

/-! ## What a program calls -/

/-- The calls about timers: those of the program, `timeout_process`, and the run of an
active event.  `reserve` is whether there is memory for the check a timer begins with, and
`realloc` whether there is for the pushes after it. -/
inductive TimerCall (α : Type)
  | initCommonTimeout (memory : Bool) (duration : Timeval)
  | add (reserve realloc : Bool) (now : Timeval) (e : α) (tv : Timeval)
  | del (e : α)
  | removeTimer (e : α)
  | timeoutProcess (now : Timeval)
  | callback (reserve realloc : Bool) (now : Timeval) (k : TimerId α)

namespace TimerCall

variable {α : Type} [DecidableEq α]

/-- A call in a base. -/
def call (persist : α → Bool) (b : TimerBase α) : TimerCall α → Option (TimerBase α)
  | .initCommonTimeout memory duration =>
      (b.eventBaseInitCommonTimeout memory duration).map Prod.snd
  | .add reserve realloc now e tv =>
      (b.eventAddNolock (persist e) reserve realloc now (.event e) tv false).map Prod.snd
  | .del e => b.eventDelNolock (.event e)
  | .removeTimer e => b.eventRemoveTimerNolock (.event e)
  | .timeoutProcess now => b.timeoutProcess now
  | .callback reserve realloc now k => b.runCallback persist reserve realloc now k

/-- The clock is normal, and a time to wait is too or is what
`event_base_init_common_timeout` has returned.  A push after the check finds memory: its
failure is not looked at, and the timer would be lost. -/
def Allowed (b : TimerBase α) : TimerCall α → Prop
  | .initCommonTimeout _ duration => 0 ≤ duration.tvUsec
  | .add _ realloc now _ tv =>
      realloc = true ∧ now.Normal ∧ ((0 ≤ tv.tvUsec ∧ tv.tvUsec ≤ 1000000) ∨
        tv ∈ b.commonTimeoutQueues.map CommonTimeoutList.duration)
  | .callback _ realloc now _ => realloc = true ∧ now.Normal
  | _ => True

instance (b : TimerBase α) : DecidablePred (Allowed b)
  | .initCommonTimeout _ duration => inferInstanceAs (Decidable (0 ≤ duration.tvUsec))
  | .add _ realloc now _ tv =>
      inferInstanceAs (Decidable (realloc = true ∧ now.Normal ∧
        ((0 ≤ tv.tvUsec ∧ tv.tvUsec ≤ 1000000) ∨
          tv ∈ b.commonTimeoutQueues.map CommonTimeoutList.duration)))
  | .callback _ realloc now _ => inferInstanceAs (Decidable (realloc = true ∧ now.Normal))
  | .del _ => isTrue trivial
  | .removeTimer _ => isTrue trivial
  | .timeoutProcess _ => isTrue trivial

/-- What a call is meant to do to the timers. -/
def Means (persist : α → Bool) (t : PlainTimers α) (c : TimerCall α) (t' : PlainTimers α) :
    Prop :=
  match c with
  | .initCommonTimeout _ _ => t' = t
  | .add reserve _ now e tv => t' = t.add (persist e) now e tv ∨ reserve = false ∧ t' = t
  | .del e => t' = t.del e
  | .removeTimer e => t' = t.removeTimer e
  | .timeoutProcess now => t.FireSome now t'
  | .callback reserve _ now (.event e) =>
      if persist e then
        match t.interval e with
        | none => t' = t.ran e
        | some interval => t' = t.again now e interval ∨ reserve = false ∧ t' = t.ran e
      else t' = t.del e
  | .callback _ _ now (.common _) => t.FireSome now t'

end TimerCall

namespace TimerBase

open StepSystem

variable {α : Type}

/-- A base without lists, in which no timer waits. -/
def new (evTimeout : TimerId α → Timeval) (p : Nat → TimerId α) : TimerBase α where
  evTimeout := evTimeout
  evIoTimeout := fun _ => ⟨0, 0⟩
  timeout := fun _ => false
  expired := fun _ => false
  timeheap := .minHeapCtor p
  commonTimeoutQueues := []

/-- The timers of a base, without the bits of the lists. -/
def timers (b : TimerBase α) : PlainTimers α where
  deadline := fun e => (b.evTimeout (.event e)).masked
  interval := fun e => PlainTimers.wait (b.evIoTimeout (.event e))
  pending := fun e => b.timeout (.event e)
  expired := fun e => b.expired (.event e)

/-- **The times of the lists and of persistent events**: a list has its number in its
duration, and a persistent event that waits again does so in the list of its last
deadline. -/
structure Timed (persist : α → Bool) (b : TimerBase α) : Prop where
  lists : ∀ i tv, (b.commonTimeoutQueues.map CommonTimeoutList.duration)[i]? = some tv →
    tv.magicBits = Timeval.listBits i ∧ tv.masked.tvUsec ≤ 1000000
  interval : ∀ e, persist e = true → evutilTimerisset (b.evIoTimeout (.event e)) = true →
    (b.evTimeout (.event e)).magicBits = (b.evIoTimeout (.event e)).magicBits ∧
      (b.evIoTimeout (.event e)).Marked b.nCommonTimeouts ∧
      (b.evIoTimeout (.event e)).masked.tvUsec ≤ 1000000 ∧
      (b.evTimeout (.event e)).masked.tvUsec < 1000000

section Calls

variable [DecidableEq α] {b b' : TimerBase α} {persist : α → Bool} {now tv : Timeval}

omit [DecidableEq α] in
theorem Timed.congr (h : b.Timed persist)
    (evTimeout : ∀ e, b'.evTimeout (.event e) = b.evTimeout (.event e))
    (evIoTimeout : ∀ e, b'.evIoTimeout (.event e) = b.evIoTimeout (.event e))
    (durations : b'.commonTimeoutQueues.map CommonTimeoutList.duration =
      b.commonTimeoutQueues.map CommonTimeoutList.duration) : b'.Timed persist := by
  refine ⟨durations ▸ h.lists, ?_⟩
  intro e
  rw [evTimeout, evIoTimeout, nCommonTimeouts_of_durations durations]
  exact h.interval e

omit [DecidableEq α] in
/-- The times to wait that a program may use. -/
theorem Timed.allowed (h : b.Timed persist)
    (ok : (0 ≤ tv.tvUsec ∧ tv.tvUsec ≤ 1000000) ∨
      tv ∈ b.commonTimeoutQueues.map CommonTimeoutList.duration) :
    tv.Marked b.nCommonTimeouts ∧ tv.masked.tvUsec ≤ 1000000 := by
  rcases ok with ⟨low, high⟩ | mem
  · unfold Timeval.Marked Timeval.magicBits Timeval.masked
    dsimp only
    omega
  · obtain ⟨i, at_⟩ := List.mem_iff_getElem?.mp mem
    obtain ⟨bits, high⟩ := h.lists i tv at_
    obtain ⟨lt, -⟩ := List.getElem?_eq_some_iff.mp at_
    rw [List.length_map] at lt
    exact ⟨Or.inr ⟨i, lt, bits⟩, high⟩

omit [DecidableEq α] in
/-- A deadline is the sum without the bits of the list, and has them. -/
theorem newTimeout_spec (few : b.nCommonTimeouts ≤ 256) (normal : now.Normal)
    (marked : tv.Marked b.nCommonTimeouts) (high : tv.masked.tvUsec ≤ 1000000) :
    (b.newTimeout now tv false).masked = evutilTimeradd now tv.masked ∧
      (b.newTimeout now tv false).magicBits = tv.magicBits ∧
      (evutilTimeradd now tv.masked).tvUsec < 1000000 := by
  have sum := Timeval.evutilTimeradd_usec normal.1 normal.2 tv.masked_usec.1 high
  refine ⟨?_, ?_, sum.2⟩ <;> unfold newTimeout <;> rw [if_neg (by decide)]
  · split_ifs with common
    · exact Timeval.masked_withBits sum.1 (by omega) tv
    · have bits := marked.bits_of_place_none few (Timeval.place_of_not_common common)
      rw [Timeval.masked_eq_self bits] at sum ⊢
      refine Timeval.masked_eq_self ?_
      unfold Timeval.magicBits
      omega
  · split_ifs with common
    · exact Timeval.magicBits_withBits sum.1 (by omega) tv
    · have bits := marked.bits_of_place_none few (Timeval.place_of_not_common common)
      rw [Timeval.masked_eq_self bits] at sum
      rw [bits]
      unfold Timeval.magicBits
      omega

theorem update_event {β : Type} (f : TimerId α → β) (e : α) (v : β) :
    (fun x => Function.update f (.event e) v (.event x)) =
      Function.update (fun x => f (.event x)) e v := by
  funext x
  rw [Function.update_apply, Function.update_apply]
  simp only [TimerId.event.injEq]

theorem map_update_event {β γ : Type} (g : β → γ) (f : TimerId α → β) (e : α) (v : β) :
    (fun x => g (Function.update f (.event e) v (.event x))) =
      Function.update (fun x => g (f (.event x))) e (g v) := by
  funext x
  by_cases eq : x = e
  · rw [eq, Function.update_self, Function.update_self]
  · rw [Function.update_of_ne (by simp [eq]), Function.update_of_ne eq]

omit [DecidableEq α] in
theorem Unseen.timers (u : Unseen b b') : b'.timers = b.timers := by
  unfold TimerBase.timers
  simp only [u.evTimeout, u.evIoTimeout, u.timeout, u.expired]

theorem TakenOff.timers {active : Bool} {e : α} (t : TakenOff b b' (.event e) active) :
    b'.timers = { b.timers with
      pending := Function.update b.timers.pending e false
      expired := Function.update b.timers.expired e active } := by
  unfold TimerBase.timers
  rw [t.evTimeout, t.evIoTimeout, t.timeout, t.expired, update_event, update_event]

theorem Added.timers {e : α} {deadline : Timeval} {io : TimerId α → Timeval}
    (a : Added b b' (.event e) deadline io) :
    b'.timers =
      { deadline := Function.update b.timers.deadline e deadline.masked
        interval := fun x => PlainTimers.wait (io (.event x))
        pending := Function.update b.timers.pending e true
        expired := Function.update b.timers.expired e false } := by
  unfold TimerBase.timers
  rw [a.evTimeout, a.evIoTimeout, a.timeout, a.expired, update_event, update_event,
    map_update_event]

omit [DecidableEq α] in
theorem Fired.timers (f : Fired now b b') : b.timers.FireSome now b'.timers := by
  refine ⟨?_, ?_, f.settled⟩
  · funext e
    exact congrArg Timeval.masked (f.evTimeout e)
  · funext e
    exact congrArg PlainTimers.wait (f.evIoTimeout e)

omit [DecidableEq α] in
theorem Fired.timed (f : Fired now b b') (h : b.Timed persist) : b'.Timed persist :=
  h.congr f.evTimeout f.evIoTimeout f.durations

theorem TakenOff.armed {active : Bool} {e : α} (t : TakenOff b b' (.event e) active)
    (sound : b'.Sound) (h : b.Armed) : b'.Armed := by
  refine ⟨sound, fun i => t.covered (by simp) (h.covered i), ?_⟩
  refine active_congr h.active t.durations ?_
  intro i yes
  rw [t.expired, Function.update_of_ne (by simp)] at yes
  exact yes

theorem TakenOff.timed {active : Bool} {k : TimerId α} (t : TakenOff b b' k active)
    (h : b.Timed persist) : b'.Timed persist :=
  h.congr (fun e => by rw [t.evTimeout]) (fun e => by rw [t.evIoTimeout]) t.durations

/-- The program sets a timer. -/
theorem Armed.eventAdd [Finite α] (h : b.Armed) (small : Nat.card α + 256 < 2147483648)
    (timed : b.Timed persist) (reserve : Bool) (e : α) (normal : now.Normal)
    (allowed : (0 ≤ tv.tvUsec ∧ tv.tvUsec ≤ 1000000) ∨
      tv ∈ b.commonTimeoutQueues.map CommonTimeoutList.duration) :
    ∃ b', (b.eventAddNolock (persist e) reserve true now (.event e) tv false).map Prod.snd =
        some b' ∧ b'.Armed ∧ b'.Timed persist ∧
      (b'.timers = b.timers.add (persist e) now e tv ∨
        reserve = false ∧ b'.timers = b.timers) := by
  obtain ⟨marked, high⟩ := timed.allowed allowed
  obtain ⟨masked, bits, sum⟩ := newTimeout_spec h.sound.few normal marked high
  have marked' : (b.newTimeout now tv false).Marked b.nCommonTimeouts := by
    unfold Timeval.Marked
    rw [bits]
    exact marked
  rcases h.add small (persist e) reserve now tv false e marked' bits with
    ⟨no, run⟩ | ⟨b₁, b', run, armed, added, unseen⟩
  · exact ⟨b, by rw [run]; rfl, h, timed, Or.inr ⟨no, rfl⟩⟩
  have io : b₁.evIoTimeout =
      if persist e then Function.update b.evIoTimeout (.event e) tv else b.evIoTimeout := by
    rw [added.evIoTimeout, Bool.not_false, Bool.and_true]
  refine ⟨b', by rw [run]; rfl, armed, ?_, Or.inl ?_⟩
  · refine Timed.congr ?_ unseen.evTimeout unseen.evIoTimeout unseen.durations
    refine ⟨added.durations ▸ timed.lists, ?_⟩
    intro x periodic
    rw [io, added.evTimeout, nCommonTimeouts_of_durations added.durations]
    by_cases eq : x = e
    · rw [eq] at periodic ⊢
      rw [if_pos periodic, Function.update_self, Function.update_self, masked]
      exact fun _ => ⟨bits, marked, high, sum⟩
    · have ne : (TimerId.event x : TimerId α) ≠ .event e := by simp [eq]
      rw [Function.update_of_ne ne]
      split_ifs
      · rw [Function.update_of_ne ne]
        exact timed.interval x periodic
      · exact timed.interval x periodic
  · rw [unseen.timers, added.timers, masked, Bool.not_false, Bool.and_true]
    unfold PlainTimers.add
    congr 1
    split_ifs
    · exact map_update_event PlainTimers.wait b.evIoTimeout e tv
    · rfl

/-- An event that is run is not active any more. -/
theorem Armed.ran (h : b.Armed) (e : α) :
    Armed { b with expired := Function.update b.expired (.event e) false } := by
  refine ⟨h.sound.other b.evIoTimeout _, ?_, ?_⟩
  · intro i k on at_
    show Function.update b.expired (.event e) false (.common i) = true ∨ _
    rw [Function.update_of_ne (by simp)]
    exact h.covered i k on at_
  · intro i yes
    have yes : Function.update b.expired (.event e) false (.common i) = true := yes
    rw [Function.update_of_ne (by simp)] at yes
    exact h.active i yes

theorem timers_ran (b : TimerBase α) (e : α) :
    timers { b with expired := Function.update b.expired (.event e) false } = b.timers.ran e := by
  unfold timers PlainTimers.ran
  rw [update_event]

/-- The next deadline of a persistent event, with or without a list. -/
theorem eventPersistClosure_eq (few : b.nCommonTimeouts ≤ 256) (timed : b.Timed persist) {e : α}
    (periodic : persist e = true) (isset : evutilTimerisset (b.evIoTimeout (.event e)) = true)
    (reserve : Bool) (now : Timeval) (byTimeout : Bool) :
    b.eventPersistClosure reserve true now (.event e) byTimeout =
      (b.eventAddNolock true reserve true now (.event e)
        ((PlainTimers.nextRun now (b.evTimeout (.event e)).masked
          (b.evIoTimeout (.event e)).masked byTimeout).withBits
          (b.evIoTimeout (.event e)).magicBits) true).map Prod.snd := by
  obtain ⟨bits, marked, -, -⟩ := timed.interval e periodic isset
  have same : (b.evTimeout (.event e)).isSameCommonTimeout (b.evIoTimeout (.event e)) = true := by
    unfold Timeval.isSameCommonTimeout
    rw [bits, beq_self_eq_true]
  unfold eventPersistClosure PlainTimers.nextRun
  rw [isset, same, Bool.not_true, if_neg (by decide), if_neg (by decide)]
  by_cases common : b.isCommonTimeout (b.evTimeout (.event e)) = true
  · cases byTimeout <;> simp only [common, if_true] <;> rfl
  · have none : (b.evIoTimeout (.event e)).magicBits = 0 := by
      rw [← bits]
      refine Timeval.Marked.bits_of_place_none ?_ few (Timeval.place_of_not_common common)
      unfold Timeval.Marked
      rw [bits]
      exact marked
    rw [Timeval.masked_eq_self none, Timeval.masked_eq_self (bits.trans none), none]
    cases byTimeout <;> simp only [common] <;> rfl

omit [DecidableEq α] in
theorem nextRun_usec {deadline interval : Timeval} (normal : now.Normal)
    (low : 0 ≤ deadline.tvUsec) (high : deadline.tvUsec < 1000000) (low' : 0 ≤ interval.tvUsec)
    (high' : interval.tvUsec ≤ 1000000) (byTimeout : Bool) :
    0 ≤ (PlainTimers.nextRun now deadline interval byTimeout).tvUsec ∧
      (PlainTimers.nextRun now deadline interval byTimeout).tvUsec < 1000000 := by
  unfold PlainTimers.nextRun
  dsimp only
  split_ifs
  · exact Timeval.evutilTimeradd_usec normal.1 normal.2 low' high'
  · exact Timeval.evutilTimeradd_usec low high low' high'
  · exact Timeval.evutilTimeradd_usec normal.1 normal.2 low' high'
  · exact Timeval.evutilTimeradd_usec normal.1 normal.2 low' high'

/-- **`event_persist_closure`.** -/
theorem Armed.runPersistent [Finite α] (h : b.Armed) (small : Nat.card α + 256 < 2147483648)
    (timed : b.Timed persist) (reserve : Bool) {e : α} (periodic : persist e = true)
    (normal : now.Normal) :
    ∃ b', b.runCallback persist reserve true now (.event e) = some b' ∧ b'.Armed ∧
      b'.Timed persist ∧
      match b.timers.interval e with
      | none => b'.timers = b.timers.ran e
      | some interval =>
          b'.timers = b.timers.again now e interval ∨
            reserve = false ∧ b'.timers = b.timers.ran e := by
  let b₀ : TimerBase α := { b with expired := Function.update b.expired (.event e) false }
  have h₀ : b₀.Armed := h.ran e
  have timed₀ : b₀.Timed persist := ⟨timed.lists, timed.interval⟩
  have timers₀ : b₀.timers = b.timers.ran e := timers_ran b e
  show ∃ b', (if persist e then
    b₀.eventPersistClosure reserve true now (.event e) (b.expired (.event e)) else _) = some b' ∧ _
  rw [if_pos periodic]
  by_cases isset : evutilTimerisset (b.evIoTimeout (.event e)) = true
  swap
  · have none : b.timers.interval e = none := if_neg isset
    rw [none]
    refine ⟨b₀, ?_, h₀, timed₀, timers₀⟩
    unfold eventPersistClosure
    rw [if_pos]
    rw [show evutilTimerisset (b₀.evIoTimeout (.event e)) = false from
      Bool.eq_false_iff.mpr isset, Bool.not_false]
  have some_ : b.timers.interval e = some (b.evIoTimeout (.event e)).masked := if_pos isset
  rw [some_, eventPersistClosure_eq h₀.sound.few timed₀ periodic isset]
  obtain ⟨bits, marked, high, usec⟩ := timed.interval e periodic isset
  let runAt := PlainTimers.nextRun now (b.evTimeout (.event e)).masked
    (b.evIoTimeout (.event e)).masked (b.expired (.event e))
  have run_usec : 0 ≤ runAt.tvUsec ∧ runAt.tvUsec < 1000000 :=
    nextRun_usec normal (Timeval.masked_usec _).1 usec (Timeval.masked_usec _).1 high _
  let tv := runAt.withBits (b.evIoTimeout (.event e)).magicBits
  have masked : tv.masked = runAt := Timeval.masked_withBits run_usec.1 (by omega) _
  have bits' : tv.magicBits = (b.evIoTimeout (.event e)).magicBits :=
    Timeval.magicBits_withBits run_usec.1 (by omega) _
  have marked' : (b₀.newTimeout now tv true).Marked b₀.nCommonTimeouts := by
    show tv.Marked b.nCommonTimeouts
    unfold Timeval.Marked
    rw [bits']
    exact marked
  rcases h₀.add small true reserve now tv true e marked' rfl with
    ⟨no, run⟩ | ⟨b₁, b', run, armed, added, unseen⟩
  · refine ⟨b₀, ?_, h₀, timed₀, Or.inr ⟨no, timers₀⟩⟩
    exact congrArg (Option.map Prod.snd) run
  refine ⟨b', congrArg (Option.map Prod.snd) run, armed, ?_, Or.inl ?_⟩
  · refine Timed.congr ?_ unseen.evTimeout unseen.evIoTimeout unseen.durations
    refine ⟨added.durations ▸ timed.lists, ?_⟩
    intro x periodic' isset'
    have io : b₁.evIoTimeout = b.evIoTimeout := added.evIoTimeout
    rw [io] at isset' ⊢
    rw [added.evTimeout, nCommonTimeouts_of_durations added.durations]
    by_cases eq : x = e
    · rw [eq, Function.update_self]
      show tv.magicBits = _ ∧ _ ∧ _ ∧ tv.masked.tvUsec < 1000000
      rw [masked]
      exact ⟨bits', marked, high, run_usec.2⟩
    · rw [Function.update_of_ne (by simp [eq])]
      exact timed.interval x periodic' isset'
  · rw [unseen.timers, added.timers, timers₀]
    show PlainTimers.mk (Function.update b.timers.deadline e tv.masked) _ _
      (Function.update (Function.update b.timers.expired e false) e false) = _
    rw [masked, Function.update_idem]
    rfl

/-- `event_del_nolock_` for an event of the program. -/
theorem Armed.eventDel (h : b.Armed) (timed : b.Timed persist) (e : α) :
    ∃ b', b.eventDelNolock (.event e) = some b' ∧ b'.Armed ∧ b'.Timed persist ∧
      b'.timers = b.timers.del e := by
  obtain ⟨b', run, h', off⟩ := h.sound.del (.event e)
  exact ⟨b', run, off.armed h' h, off.timed timed, off.timers⟩

/-- **`event_remove_timer_nolock_`.** -/
theorem Armed.removeTimer (h : b.Armed) (timed : b.Timed persist) (e : α) :
    ∃ b', b.eventRemoveTimerNolock (.event e) = some b' ∧ b'.Armed ∧ b'.Timed persist ∧
      b'.timers = b.timers.removeTimer e := by
  unfold eventRemoveTimerNolock PlainTimers.removeTimer
  show ∃ b', _ ∧ _ ∧ _ ∧ _ = if b.timeout (.event e) then _ else _
  by_cases on : b.timeout (.event e) = true
  swap
  · rw [if_neg on, if_neg on]
    exact ⟨b, rfl, h, timed, rfl⟩
  rw [if_pos on, if_pos on]
  obtain ⟨b₁, run, s, moved, timeout⟩ := h.sound.remove on
  have n₁ := moved.nCommonTimeouts
  have cleared : PlainTimers.wait ⟨0, 0⟩ = none := by decide
  refine ⟨{ b₁ with evIoTimeout := Function.update b₁.evIoTimeout (.event e) ⟨0, 0⟩ },
    by rw [run]; rfl, ⟨s.other _ b₁.expired, ?_, ?_⟩, ⟨?_, ?_⟩, ?_⟩
  · intro i k on' at_
    show b₁.expired (.common i) = true ∨ b₁.timeout (.common i) = true ∧ b₁.evTimeout _ ≤ _
    have on' : b₁.timeout k = true := on'
    rw [timeout, Function.update_apply] at on'
    split_ifs at on'
    rw [moved.expired, moved.evTimeout, timeout, Function.update_of_ne (by simp)]
    exact h.covered i k on' (moved.place k ▸ at_)
  · intro i yes
    show i < b₁.nCommonTimeouts
    rw [n₁]
    exact h.active i (moved.expired ▸ yes)
  · show ∀ i tv, (b₁.commonTimeoutQueues.map CommonTimeoutList.duration)[i]? = _ → _
    rw [moved.durations]
    exact timed.lists
  · intro x periodic isset
    show (b₁.evTimeout (.event x)).magicBits =
        (Function.update b₁.evIoTimeout (.event e) ⟨0, 0⟩ (.event x)).magicBits ∧
      (Function.update b₁.evIoTimeout (.event e) ⟨0, 0⟩ (.event x)).Marked b₁.nCommonTimeouts ∧
      (Function.update b₁.evIoTimeout (.event e) ⟨0, 0⟩ (.event x)).masked.tvUsec ≤ 1000000 ∧
      (b₁.evTimeout (.event x)).masked.tvUsec < 1000000
    have isset : evutilTimerisset
      (Function.update b₁.evIoTimeout (.event e) ⟨0, 0⟩ (.event x)) = true := isset
    by_cases eq : x = e
    · rw [eq, Function.update_self] at isset
      cases isset
    · rw [Function.update_of_ne (by simp [eq])] at isset ⊢
      rw [moved.evIoTimeout] at isset ⊢
      rw [moved.evTimeout, n₁]
      exact timed.interval x periodic isset
  · unfold timers
    dsimp only
    rw [moved.evTimeout, moved.evIoTimeout, moved.expired, timeout, update_event,
      map_update_event, cleared]

omit [DecidableEq α] in
theorem normalized_usec (b : TimerBase α) {duration : Timeval} (low : 0 ≤ duration.tvUsec) :
    0 ≤ (b.normalized duration).tvUsec ∧ (b.normalized duration).tvUsec ≤ 1000000 := by
  unfold normalized
  split_ifs
  · dsimp only
    omega
  · dsimp only
    omega
  · omega

omit [DecidableEq α] in
theorem withBits_listBits {tv : Timeval} (low : 0 ≤ tv.tvUsec) (high : tv.tvUsec ≤ 1000000)
    (n : Nat) : (tv.withBits (Timeval.listBits n)).magicBits = Timeval.listBits n ∧
      (tv.withBits (Timeval.listBits n)).masked = tv := by
  unfold Timeval.withBits Timeval.magicBits Timeval.masked Timeval.listBits
  constructor
  · dsimp only
    omega
  · dsimp only
    rw [show (tv.tvUsec + (1342177280 + (n : Int) * 1048576)) % 1048576 = tv.tvUsec by omega]

omit [DecidableEq α] in
/-- A list without events is added. -/
theorem Armed.addList (h : b.Armed) (room : b.nCommonTimeouts + 1 ≤ 256) (tv : Timeval) :
    Armed { b with commonTimeoutQueues := b.commonTimeoutQueues ++ [{ duration := tv }] } := by
  have s := h.sound
  let b₁ : TimerBase α :=
    { b with commonTimeoutQueues := b.commonTimeoutQueues ++ [{ duration := tv }] }
  have n₁ : b₁.nCommonTimeouts = b.nCommonTimeouts + 1 := by
    unfold nCommonTimeouts
    rw [List.length_append, List.length_singleton]
  have place {k : TimerId α} (on : b.timeout k = true) : b₁.place k = b.place k := by
    unfold TimerBase.place
    rw [n₁]
    exact (s.marked k on).place_succ room
  have list (i : Nat) : b₁.list i = b.list i := by
    unfold TimerBase.list
    rw [List.getElem?_append]
    split_ifs with lt
    · rfl
    · rw [List.getElem?_eq_none (Nat.not_lt.mp lt)]
      cases i - b.commonTimeoutQueues.length with
      | zero => rfl
      | succ j => rfl
  refine ⟨⟨n₁ ▸ room, ?_, ?_, ?_, ?_, ?_, ?_⟩, ?_, ?_⟩
  · intro k on
    show (b.evTimeout k).Marked b₁.nCommonTimeouts
    exact (s.marked k on).mono (by omega)
  · intro i on
    show i < b₁.nCommonTimeouts ∧ _
    have lt := (s.own i on).1
    exact ⟨by omega, (s.own i on).2⟩
  · have same : {k | b₁.timeout k = true ∧ b₁.place k = none} =
        {k | b.timeout k = true ∧ b.place k = none} := by
      ext k
      rw [Set.mem_ofPred_eq, Set.mem_ofPred_eq]
      exact and_congr_right fun on => by rw [place on]
    rw [same]
    exact s.heap
  · intro i
    rw [list]
    exact s.nodup i
  · intro i
    rw [list]
    exact s.sorted i
  · intro i k
    rw [list, s.mem]
    exact and_congr_right fun on => by rw [place on]
  · intro i k on at_
    exact h.covered i k on (place on ▸ at_)
  · intro i yes
    show i < b₁.nCommonTimeouts
    have lt : i < b.nCommonTimeouts := h.active i yes
    omega

omit [DecidableEq α] in
theorem Timed.addList (h : b.Timed persist)
    (bits : tv.magicBits = Timeval.listBits b.nCommonTimeouts) (high : tv.masked.tvUsec ≤ 1000000) :
    Timed persist
      { b with commonTimeoutQueues := b.commonTimeoutQueues ++ [{ duration := tv }] } := by
  refine ⟨?_, ?_⟩
  · intro i tv' at_
    dsimp only at at_
    rw [List.map_append, List.getElem?_append] at at_
    split_ifs at at_ with lt
    · exact h.lists i tv' at_
    · rw [List.length_map] at lt at_
      obtain ⟨zero, -⟩ := List.getElem?_eq_some_iff.mp at_
      rw [List.map_singleton, List.length_singleton] at zero
      have eq : i = b.nCommonTimeouts := by
        unfold nCommonTimeouts
        omega
      rw [show i - b.commonTimeoutQueues.length = 0 by omega] at at_
      rw [← Option.some.inj at_, eq]
      exact ⟨bits, high⟩
  · intro e periodic isset
    obtain ⟨same, marked, rest⟩ := h.interval e periodic isset
    refine ⟨same, marked.mono ?_, rest⟩
    unfold nCommonTimeouts
    rw [List.length_append]
    omega

omit [DecidableEq α] in
/-- **`event_base_init_common_timeout`.** -/
theorem Armed.initCommon (h : b.Armed) (timed : b.Timed persist) (memory : Bool)
    {duration : Timeval} (low : 0 ≤ duration.tvUsec) :
    ∃ b', (b.eventBaseInitCommonTimeout memory duration).map Prod.snd = some b' ∧ b'.Armed ∧
      b'.Timed persist ∧ b'.timers = b.timers := by
  obtain ⟨low, high⟩ := b.normalized_usec low
  unfold eventBaseInitCommonTimeout
  dsimp only
  split
  · next ctl found =>
      -- a list of the base has the bits of its place in the base
      obtain ⟨i, at_⟩ := List.mem_iff_getElem?.mp (List.mem_of_find?_eq_some found)
      obtain ⟨lt, -⟩ := List.getElem?_eq_some_iff.mp at_
      have bits := (timed.lists i ctl.duration (by rw [List.getElem?_map, at_]; rfl)).1
      have common : b.isCommonTimeout ctl.duration = true :=
        (Timeval.common_of_place (Timeval.place_of_bits bits lt h.sound.few)).1
      rw [if_pos common]
      exact ⟨b, rfl, h, timed, rfl⟩
  · by_cases full : b.commonTimeoutQueues.length = maxCommonTimeouts
    · rw [if_pos full]
      exact ⟨b, rfl, h, timed, rfl⟩
    rw [if_neg full]
    cases memory with
    | false => exact ⟨b, rfl, h, timed, rfl⟩
    | true =>
        have room : b.nCommonTimeouts + 1 ≤ 256 := Nat.lt_of_le_of_ne h.sound.few full
        let tv := (b.normalized duration).withBits (Timeval.listBits b.nCommonTimeouts)
        obtain ⟨bits, masked⟩ := withBits_listBits low high b.nCommonTimeouts
        let b₁ : TimerBase α :=
          { b with commonTimeoutQueues := b.commonTimeoutQueues ++ [{ duration := tv }] }
        have n₁ : b₁.nCommonTimeouts = b.nCommonTimeouts + 1 := by
          unfold nCommonTimeouts
          rw [List.length_append, List.length_singleton]
        have common : b₁.isCommonTimeout tv = true :=
          (Timeval.common_of_place (Timeval.place_of_bits bits
            (show _ < b₁.nCommonTimeouts by omega) (show b₁.nCommonTimeouts ≤ 256 by omega))).1
        refine ⟨b₁, ?_, h.addList room tv, timed.addList bits (masked ▸ high), rfl⟩
        show Option.map Prod.snd (if b₁.isCommonTimeout tv then some (some tv, b₁) else none) = _
        rw [if_pos common]
        rfl

/-- **Every call goes through**, keeps the invariants, and does what it is meant to. -/
theorem call_spec [Finite α] (small : Nat.card α + 256 < 2147483648) (b : TimerBase α)
    (c : TimerCall α) (h : b.Armed ∧ b.Timed persist) (allowed : c.Allowed b) :
    ∃ b', c.call persist b = some b' ∧ (b'.Armed ∧ b'.Timed persist) ∧
      c.Means persist b.timers b'.timers := by
  obtain ⟨armed, timed⟩ := h
  cases c with
  | initCommonTimeout memory duration =>
      obtain ⟨b', run, armed', timed', same⟩ := armed.initCommon timed memory allowed
      exact ⟨b', run, ⟨armed', timed'⟩, same⟩
  | add reserve realloc now e tv =>
      obtain ⟨rfl, normal, usable⟩ := allowed
      obtain ⟨b', run, armed', timed', means⟩ :=
        armed.eventAdd small timed reserve e normal usable
      exact ⟨b', run, ⟨armed', timed'⟩, means⟩
  | del e =>
      obtain ⟨b', run, armed', timed', means⟩ := armed.eventDel timed e
      exact ⟨b', run, ⟨armed', timed'⟩, means⟩
  | removeTimer e =>
      obtain ⟨b', run, armed', timed', means⟩ := armed.removeTimer timed e
      exact ⟨b', run, ⟨armed', timed'⟩, means⟩
  | timeoutProcess now =>
      obtain ⟨b', run, armed', fired, -⟩ := armed.timeoutProcess now
      exact ⟨b', run, ⟨armed', fired.timed timed⟩, fired.timers⟩
  | callback reserve realloc now k =>
      obtain ⟨rfl, normal⟩ := allowed
      cases k with
      | common i =>
          obtain ⟨b', run, armed', fired, -⟩ := armed.runCommon small persist reserve now i
          exact ⟨b', run, ⟨armed', fired.timed timed⟩, fired.timers⟩
      | event e =>
          by_cases periodic : persist e = true
          · obtain ⟨b', run, armed', timed', means⟩ :=
              armed.runPersistent small timed reserve periodic normal
            refine ⟨b', run, ⟨armed', timed'⟩, ?_⟩
            show if persist e then _ else _
            rw [if_pos periodic]
            exact means
          · obtain ⟨b', run, armed', timed', means⟩ := armed.eventDel timed e
            refine ⟨b', ?_, ⟨armed', timed'⟩, ?_⟩
            · show (if persist e then _ else b.eventDelNolock (.event e)) = _
              rw [if_neg periodic, run]
            · show if persist e then _ else _
              rw [if_neg periodic]
              exact means

omit [DecidableEq α] in
theorem armed_new (evTimeout : TimerId α → Timeval) (p : Nat → TimerId α) :
    (new evTimeout p).Armed := by
  have never {P : Prop} (yes : false = true) : P := by cases yes
  have empty (i : Nat) : (new evTimeout p).list i = [] := rfl
  refine ⟨⟨?_, fun _ => never, fun _ => never, ?_, ?_, ?_, ?_⟩, fun _ _ => never, fun _ => never⟩
  · exact Nat.zero_le 256
  · have same : {k | (new evTimeout p).timeout k = true ∧ (new evTimeout p).place k = none} =
        (∅ : Set (TimerId α)) := by
      ext k
      rw [Set.mem_ofPred_eq, Set.mem_empty_iff_false, iff_false]
      exact fun on => never on.1
    rw [same]
    exact MinHeap.holds_ctor evTimeout p
  · intro i
    rw [empty]
    exact List.nodup_nil
  · intro i
    rw [empty]
    exact List.Pairwise.nil
  · intro i k
    rw [empty]
    exact ⟨fun mem => absurd mem List.not_mem_nil, fun on => never on.1⟩

omit [DecidableEq α] in
theorem timed_new (persist : α → Bool) (evTimeout : TimerId α → Timeval) (p : Nat → TimerId α) :
    (new evTimeout p).Timed persist := by
  refine ⟨?_, ?_⟩
  · intro i tv at_
    cases at_
  · intro e _ isset
    cases isset

/-- **Common timeouts are timers.**  From a base without lists, every sequence of calls
goes through: no assertion fails and no access is out of bounds.  Each call does to the
timers of the program what it would without lists: an event that is set has the deadline
and the interval it was given, the event of a list that is run and a pass over the heap
fire nothing that is not due, and nothing is lost. -/
theorem common_timeouts_are_timers [Finite α] (small : Nat.card α + 256 < 2147483648)
    (persist : α → Bool) (evTimeout : TimerId α → Timeval) (p : Nat → TimerId α)
    (calls : List (TimerCall α))
    (allowed : Meets (TimerCall.call persist) TimerCall.Allowed (new evTimeout p) calls) :
    ∃ b, run (TimerCall.call persist) (new evTimeout p) calls = some b ∧
      Runs (fun t c t' => c.Means persist t t') (new evTimeout p).timers calls b.timers := by
  obtain ⟨b, go, -, runs⟩ := run_simulates timers (fun b c => call_spec small b c)
    ⟨armed_new evTimeout p, timed_new persist evTimeout p⟩ calls allowed
  exact ⟨b, go, runs⟩

/-- Two events wait five seconds in a list, one of them persistent; the other has
waited on the heap before. -/
def waits : List (TimerCall Bool) :=
  [.initCommonTimeout true ⟨5, 0⟩, .add true true ⟨100, 0⟩ false ⟨5, 1342177280⟩,
    .add true true ⟨101, 0⟩ true ⟨2, 500000⟩, .add true true ⟨102, 0⟩ true ⟨5, 1342177280⟩]

theorem waits_allowed :
    Meets (TimerCall.call not) TimerCall.Allowed (new (fun _ => ⟨0, 0⟩) fun _ => .event false)
      waits := by
  decide +kernel

theorem common_timeouts_are_timers_waits :
    Nat.card Bool + 256 < 2147483648 ∧
      Meets (TimerCall.call not) TimerCall.Allowed (new (fun _ => ⟨0, 0⟩) fun _ => .event false)
        waits ∧
      ∃ b, run (TimerCall.call not) (new (fun _ => ⟨0, 0⟩) fun _ => .event false) waits = some b ∧
        Runs (fun t c t' => c.Means not t t')
          (new (fun _ => ⟨0, 0⟩) fun _ => TimerId.event false).timers waits b.timers :=
  ⟨by simp, waits_allowed,
    common_timeouts_are_timers (by simp) not (fun _ => ⟨0, 0⟩) (fun _ => .event false) waits
      waits_allowed⟩

/-- The base after a run of calls. -/
theorem armed_run [Finite α] (small : Nat.card α + 256 < 2147483648)
    {evTimeout : TimerId α → Timeval} {p : Nat → TimerId α} {calls : List (TimerCall α)}
    (allowed : Meets (TimerCall.call persist) TimerCall.Allowed (new evTimeout p) calls)
    (go : run (TimerCall.call persist) (new evTimeout p) calls = some b) : b.Armed := by
  have keep : ∀ (b : TimerBase α) (c : TimerCall α), b.Armed ∧ b.Timed persist → c.Allowed b →
      ∃ b', c.call persist b = some b' ∧ b'.Armed ∧ b'.Timed persist := by
    intro b c h ok
    obtain ⟨b', go, kept, -⟩ := call_spec small b c h ok
    exact ⟨b', go, kept⟩
  obtain ⟨b', go', ok⟩ := run_total keep
    ⟨armed_new evTimeout p, timed_new persist evTimeout p⟩ calls allowed
  rw [go] at go'
  rw [Option.some.inj go']
  exact ok.1

/-- Once every active list has been run, nothing that was due is left. -/
theorem run_lists [Finite α] (small : Nat.card α + 256 < 2147483648) (persist : α → Bool)
    (reserve : Bool) (now : Timeval) (order : List Nat) : ∀ {b : TimerBase α}, b.Armed →
    (∀ e, b.timeout (.event e) = true → (b.evTimeout (.event e)).masked ≤ now →
      ∃ i ∈ order, b.place (.event e) = some i ∧ b.expired (.common i) = true) →
    ∃ b', run (fun b i => b.runCallback persist reserve true now (.common i)) b order = some b' ∧
      b'.Armed ∧ Fired now b b' ∧
      ∀ e, b'.timeout (.event e) = true → now < (b'.evTimeout (.event e)).masked := by
  induction order with
  | nil =>
      intro b armed left
      refine ⟨b, rfl, armed, Fired.refl now b, ?_⟩
      intro e on
      by_contra due
      obtain ⟨i, mem, -⟩ := left e on (by
        by_contra late
        exact due (Timeval.not_le.mp late))
      cases mem
  | cons i order ih =>
      intro b armed left
      obtain ⟨b₁, run₁, armed₁, fired₁, others, cleared⟩ :=
        armed.runCommon small persist reserve now i
      have left₁ : ∀ e, b₁.timeout (.event e) = true → (b₁.evTimeout (.event e)).masked ≤ now →
          ∃ j ∈ order, b₁.place (.event e) = some j ∧ b₁.expired (.common j) = true := by
        intro e on due
        obtain ⟨on', at'⟩ := fired₁.waited on
        obtain ⟨j, mem, at_, active⟩ := left e on' (fired₁.evTimeout e ▸ due)
        have ne : j ≠ i := by
          rintro rfl
          exact Timeval.not_le.mpr (cleared active e on (at'.trans at_)) due
        refine ⟨j, List.mem_of_ne_of_mem ne mem, at'.trans at_, ?_⟩
        rw [others j ne, active]
      obtain ⟨b', go, armed', fired', none⟩ := ih armed₁ left₁
      exact ⟨b', run_cons_eq_some.mpr ⟨b₁, run₁, go⟩, armed', fired₁.trans fired', none⟩

omit [DecidableEq α] in
/-- When nothing that is due is left, everything that was due has fired. -/
theorem Fired.all (f : Fired now b b')
    (none : ∀ e, b'.timeout (.event e) = true → now < (b'.evTimeout (.event e)).masked) :
    b'.timers = b.timers.fire now := by
  obtain ⟨deadline, interval, settled⟩ := f.timers
  have each (e : α) :
      b'.timers.pending e = (b.timers.fire now).pending e ∧
        b'.timers.expired e = (b.timers.fire now).expired e := by
    unfold PlainTimers.fire
    dsimp only
    rcases settled e with ⟨same, same'⟩ | ⟨⟨on, due⟩, off, fired⟩
    · have early : b.timers.pending e = true → ¬ b.timers.deadline e ≤ now := by
        intro on
        rw [Timeval.not_le, ← deadline]
        exact none e (same.trans on)
      rw [same, same']
      cases on : b.timers.pending e with
      | false => exact ⟨rfl, by simp⟩
      | true => simp [early on]
    · rw [off, fired, on]
      simp [due]
  show PlainTimers.mk b'.timers.deadline b'.timers.interval b'.timers.pending b'.timers.expired =
    PlainTimers.mk b.timers.deadline b.timers.interval (b.timers.fire now).pending
      (b.timers.fire now).expired
  rw [deadline, interval, funext fun e => (each e).1, funext fun e => (each e).2]

/-- **A pass fires exactly what is due.**  After any sequence of calls, `timeout_process`
and then the events of the lists that are active, in any order, make the timers what they
would be without lists: each that was due has fired, and no other. -/
theorem common_timeouts_fire [Finite α] (small : Nat.card α + 256 < 2147483648)
    (persist : α → Bool) (evTimeout : TimerId α → Timeval) (p : Nat → TimerId α)
    (calls : List (TimerCall α))
    (allowed : Meets (TimerCall.call persist) TimerCall.Allowed (new evTimeout p) calls)
    (b : TimerBase α) (go : run (TimerCall.call persist) (new evTimeout p) calls = some b)
    (reserve : Bool) (now : Timeval) :
    ∃ b₁, b.timeoutProcess now = some b₁ ∧
      ∀ order : List Nat, (∀ i, b₁.expired (.common i) = true → i ∈ order) →
        ∃ b', run (fun b i => b.runCallback persist reserve true now (.common i)) b₁ order =
            some b' ∧
          b'.timers = b.timers.fire now := by
  have armed := armed_run small allowed go
  obtain ⟨b₁, run₁, armed₁, fired₁, top⟩ := armed.timeoutProcess now
  refine ⟨b₁, run₁, ?_⟩
  intro order all
  obtain ⟨b', go', -, fired', none⟩ := run_lists small persist reserve now order armed₁ (by
    intro e on due
    cases at_ : b₁.place (.event e) with
    | none =>
        have bits := (armed₁.sound.marked _ on).bits_of_place_none armed₁.sound.few at_
        rw [Timeval.masked_eq_self bits] at due
        exact absurd due (Timeval.not_le.mpr (top _ on at_))
    | some i =>
        -- the event of its list is no later, so it has fired as well
        rcases armed₁.covered i _ on at_ with active | ⟨on', early⟩
        · exact ⟨i, all i active, rfl, active⟩
        · exact absurd (Timeval.le_trans early due)
            (Timeval.not_le.mpr (top _ on' (armed₁.sound.place_common on'))))
  exact ⟨b', go', (fired₁.trans fired').all none⟩

theorem common_timeouts_fire_waits :
    ∃ b, run (TimerCall.call not) (new (fun _ => ⟨0, 0⟩) fun _ => .event false) waits = some b ∧
      ∃ b₁, b.timeoutProcess ⟨106, 0⟩ = some b₁ ∧
        ∀ order : List Nat, (∀ i, b₁.expired (.common i) = true → i ∈ order) →
          ∃ b', run (fun b i => b.runCallback not true true ⟨106, 0⟩ (.common i)) b₁ order =
              some b' ∧
            b'.timers = b.timers.fire ⟨106, 0⟩ := by
  obtain ⟨b, go⟩ := Option.isSome_iff_exists.mp (show (run (TimerCall.call not)
    (new (fun _ => ⟨0, 0⟩) fun _ => .event false) waits).isSome = true by decide +kernel)
  exact ⟨b, go, common_timeouts_fire (by simp) not _ _ waits waits_allowed b go true ⟨106, 0⟩⟩

/-- **The top of the heap is early enough.**  After any sequence of allowed calls, while no list is
active, the top of the heap, which `timeout_next` reads, is no later than any deadline, also of
an event that is in a list. -/
theorem heap_top_is_early [Finite α] (small : Nat.card α + 256 < 2147483648)
    (persist : α → Bool) (evTimeout : TimerId α → Timeval) (p : Nat → TimerId α)
    (calls : List (TimerCall α))
    (allowed : Meets (TimerCall.call persist) TimerCall.Allowed (new evTimeout p) calls)
    (b : TimerBase α) (go : run (TimerCall.call persist) (new evTimeout p) calls = some b)
    (quiet : ∀ i < b.nCommonTimeouts, b.expired (.common i) = false) (e : α)
    (on : b.timers.pending e = true) :
    ∃ k, b.timeheap.minHeapTop = some k ∧ b.evTimeout k ≤ b.timers.deadline e := by
  have armed := armed_run small allowed go
  -- the event itself or the event of its list is on the heap
  obtain ⟨x, on_heap, le⟩ : ∃ x, (b.timeout x = true ∧ b.place x = none) ∧
      b.evTimeout x ≤ b.timers.deadline e := by
    cases at_ : b.place (.event e) with
    | none =>
        have bits := (armed.sound.marked _ on).bits_of_place_none armed.sound.few at_
        refine ⟨.event e, ⟨on, at_⟩, ?_⟩
        show _ ≤ (b.evTimeout (.event e)).masked
        rw [Timeval.masked_eq_self bits]
    | some i =>
        rcases armed.covered i _ on at_ with active | ⟨on', early⟩
        · rw [quiet i (armed.active i active)] at active
          cases active
        · exact ⟨.common i, ⟨on', armed.sound.place_common on'⟩, early⟩
  have top := armed.sound.heap.top
  cases first : b.timeheap.minHeapTop with
  | none =>
      rw [first] at top
      have mem : x ∈ {k | b.timeout k = true ∧ b.place k = none} := on_heap
      rw [show _ = _ from top] at mem
      cases mem
  | some k =>
      rw [first] at top
      exact ⟨k, rfl, Timeval.le_trans (top.2 x on_heap) le⟩

theorem heap_top_is_early_waits :
    ∃ b, run (TimerCall.call not) (new (fun _ => ⟨0, 0⟩) fun _ => .event false) waits = some b ∧
      ∃ k, b.timeheap.minHeapTop = some k ∧ b.evTimeout k ≤ b.timers.deadline true := by
  obtain ⟨b, go, quiet, on⟩ : ∃ b : TimerBase Bool,
      run (TimerCall.call not) (new (fun _ => ⟨0, 0⟩) fun _ => .event false) waits = some b ∧
        (∀ i < b.nCommonTimeouts, b.expired (.common i) = false) ∧
        b.timers.pending true = true :=
    ⟨(run (TimerCall.call not) (new (fun _ => ⟨0, 0⟩) fun _ => .event false) waits).get
      (by decide +kernel), (Option.some_get _).symm, by decide +kernel, by decide +kernel⟩
  exact ⟨b, go, heap_top_is_early (by simp) not _ _ waits waits_allowed b go quiet true on⟩

end Calls

end TimerBase

end SwiftEvent
