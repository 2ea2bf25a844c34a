import SwiftEvent.Evmap
import Mathlib.Logic.Relation
import Mathlib.Algebra.Ring.Nat

/-!
# The active queues

`event.c` between the activation of a callback and its run: the queues of the
priorities, the queue of what becomes active later, deferred callbacks and
finalizers.

`none` is a failed `EVUTIL_ASSERT`, an `event_errx`, or the removal of a callback
from a queue it is not on.  `event_deferred_cb_set_priority_` checks nothing: under a
callback that is on a queue it leaves queues that no later function can be said to
work on, and the model only notes that it has been called so (`misused`).

* `QueuesOk` — the flags, the queues and `event_count_active` agree.
* `Move` — what a call can change; `QueuesOk.call` says that a call is a number
  of such changes, and the lemmas after it what the changes keep.
-/

namespace SwiftEvent

/-- `struct event_callback` with `ev_res` of the event it may be part of. -/
structure EventCallback where
  /-- `EVLIST_INIT`: it is part of an event. -/
  init : Bool := true
  /-- `EVLIST_INTERNAL`. -/
  internal : Bool := false
  /-- `EVLIST_ACTIVE`. -/
  active : Bool := false
  /-- `EVLIST_ACTIVE_LATER`. -/
  activeLater : Bool := false
  /-- `EVLIST_FINALIZING`. -/
  finalizing : Bool := false
  evcbPri : Nat := 0
  evRes : Nat := 0
deriving DecidableEq, Repr

/-- `MAX_DEFERREDS_QUEUED`. -/
def maxDeferredsQueued : Nat := 32

/-- `EVENT_MAX_PRIORITIES`. -/
def eventMaxPriorities : Int := 256

/-- `EV_FINALIZE`. -/
def evFinalize : Nat := 0x40

/-- The part of `struct event_base` about active callbacks, and the callbacks. -/
structure ActiveBase (κ : Type) where
  cb : κ → EventCallback
  activequeues : List (List κ)
  activeLaterQueue : List κ := []
  eventCountActive : Nat := 0
  nDeferredsQueued : Nat := 0
  eventRunningPriority : Int := -1
  eventContinue : Bool := false
  eventBreak : Bool := false
  eventGotterm : Bool := false
  runningLoop : Bool := false
  /-- A deferred callback that was active has been given another priority, or one that
  there is no queue for: what the queues are then is left open. -/
  misused : Bool := false

namespace ActiveBase

variable {κ : Type} [DecidableEq κ] (b : ActiveBase κ)

/-- A change of one callback. -/
def setCb (k : κ) (c : EventCallback) : ActiveBase κ := { b with cb := Function.update b.cb k c }

/-! ## The queues -/

/-- `event_queue_insert_active`. -/
def eventQueueInsertActive (k : κ) : Option (ActiveBase κ) :=
  if (b.cb k).active then some b
  else if (b.cb k).evcbPri < b.activequeues.length then
    some { b.setCb k { b.cb k with active := true } with
      eventCountActive := b.eventCountActive + 1
      activequeues := b.activequeues.modify (b.cb k).evcbPri (· ++ [k]) }
  else none

/-- `event_queue_insert_active_later`. -/
def eventQueueInsertActiveLater (k : κ) : Option (ActiveBase κ) :=
  if (b.cb k).activeLater || (b.cb k).active then some b
  else if (b.cb k).evcbPri < b.activequeues.length then
    some { b.setCb k { b.cb k with activeLater := true } with
      eventCountActive := b.eventCountActive + 1
      activeLaterQueue := b.activeLaterQueue ++ [k] }
  else none

/-- `event_queue_remove_active`. -/
def eventQueueRemoveActive (k : κ) : Option (ActiveBase κ) :=
  if !(b.cb k).active then none
  else if k ∈ b.activequeues.getD (b.cb k).evcbPri [] then
    some { b.setCb k { b.cb k with active := false } with
      eventCountActive := b.eventCountActive - 1
      activequeues := b.activequeues.modify (b.cb k).evcbPri (·.erase k) }
  else none

/-- `event_queue_remove_active_later`. -/
def eventQueueRemoveActiveLater (k : κ) : Option (ActiveBase κ) :=
  if !(b.cb k).activeLater then none
  else if k ∈ b.activeLaterQueue then
    some { b.setCb k { b.cb k with activeLater := false } with
      eventCountActive := b.eventCountActive - 1
      activeLaterQueue := b.activeLaterQueue.erase k }
  else none

/-- `event_queue_make_later_events_active`, on what is left of the queue. -/
def makeLaterEventsActive : List κ → ActiveBase κ → Option (ActiveBase κ)
  | [], b => some b
  | k :: rest, b =>
      if (b.cb k).evcbPri < b.activequeues.length then
        makeLaterEventsActive rest
          { b.setCb k { b.cb k with activeLater := false, active := true } with
            activeLaterQueue := rest
            activequeues := b.activequeues.modify (b.cb k).evcbPri (· ++ [k])
            -- `evcb_closure == EV_CLOSURE_CB_SELF`
            nDeferredsQueued :=
              b.nDeferredsQueued + (!(b.cb k).init && !(b.cb k).finalizing).toNat }
      else none

/-! ## Activation and cancellation -/

/-- `event_callback_activate_nolock_`. -/
def eventCallbackActivateNolock (k : κ) : Option (Int × ActiveBase κ) :=
  if (b.cb k).finalizing then some (0, b)
  else if (b.cb k).active then
    if (b.cb k).activeLater then none else some (0, b)
  else if (b.cb k).activeLater then do
    let b ← b.eventQueueRemoveActiveLater k
    let b ← b.eventQueueInsertActive k
    return (0, b)
  else do
    let b ← b.eventQueueInsertActive k
    return (1, b)

/-- `event_callback_activate_later_nolock_`. -/
def eventCallbackActivateLaterNolock (k : κ) : Option (Int × ActiveBase κ) :=
  if (b.cb k).active || (b.cb k).activeLater then some (0, b)
  else do
    let b ← b.eventQueueInsertActiveLater k
    return (1, b)

/-- `event_active_nolock_`. -/
def eventActiveNolock (k : κ) (res : Nat) : Option (ActiveBase κ) :=
  if (b.cb k).finalizing then some b
  else if (b.cb k).active then
    if (b.cb k).activeLater then none
    else some (b.setCb k { b.cb k with evRes := (b.cb k).evRes ||| res })
  else do
    let b := b.setCb k { b.cb k with
      evRes := if (b.cb k).activeLater then (b.cb k).evRes ||| res else res }
    let b := { b with
      eventContinue :=
        if ((b.cb k).evcbPri : Int) < b.eventRunningPriority then true else b.eventContinue }
    let (_, b) ← b.eventCallbackActivateNolock k
    return b

/-- `event_active_later_nolock_`. -/
def eventActiveLaterNolock (k : κ) (res : Nat) : Option (ActiveBase κ) :=
  if (b.cb k).active || (b.cb k).activeLater then
    some (b.setCb k { b.cb k with evRes := (b.cb k).evRes ||| res })
  else do
    let b := b.setCb k { b.cb k with evRes := res }
    let (_, b) ← b.eventCallbackActivateLaterNolock k
    return b

/-- `event_deferred_cb_schedule_`. -/
def eventDeferredCbSchedule (k : κ) : Option (ActiveBase κ) :=
  if maxDeferredsQueued < b.nDeferredsQueued then do
    let (_, b) ← b.eventCallbackActivateLaterNolock k
    return b
  else do
    let (r, b) ← b.eventCallbackActivateNolock k
    return if r ≠ 0 then { b with nDeferredsQueued := b.nDeferredsQueued + 1 } else b

/-- The part of `event_del_nolock_` about the active queues. -/
def eventDelNolock (k : κ) : Option (ActiveBase κ) :=
  if (b.cb k).finalizing then some b
  else if (b.cb k).active then b.eventQueueRemoveActive k
  else if (b.cb k).activeLater then b.eventQueueRemoveActiveLater k
  else some b

/-- `event_callback_cancel_nolock_`. -/
def eventCallbackCancelNolock (k : κ) : Option (ActiveBase κ) :=
  if (b.cb k).finalizing then some b
  else if (b.cb k).init then b.eventDelNolock k
  else if (b.cb k).active then
    if (b.cb k).activeLater then none else b.eventQueueRemoveActive k
  else if (b.cb k).activeLater then b.eventQueueRemoveActiveLater k
  else some b

/-- The part of `event_add_nolock_` with a timeout about the active queues: an
event that is active because of its timeout is rescheduled. -/
def reschedule (k : κ) : Option (ActiveBase κ) :=
  if (b.cb k).finalizing then some b
  else if (b.cb k).active && (b.cb k).evRes.testBit 0 then b.eventQueueRemoveActive k
  else some b

/-- `event_priority_set`. -/
def eventPrioritySet (k : κ) (pri : Nat) : ActiveBase κ :=
  if (b.cb k).active then b
  else if b.activequeues.length ≤ pri then b
  else b.setCb k { b.cb k with evcbPri := pri }

/-- `event_deferred_cb_set_priority_`. -/
def eventDeferredCbSetPriority (k : κ) (pri : Nat) : ActiveBase κ :=
  b.setCb k { b.cb k with evcbPri := pri }

/-- `event_base_priority_init`; without memory the old queues are gone too. -/
def eventBasePriorityInit (npriorities : Int) (memory : Bool) : Int × ActiveBase κ :=
  if b.eventCountActive ≠ 0 ∨ npriorities < 1 ∨ eventMaxPriorities ≤ npriorities then (-1, b)
  else if npriorities = b.activequeues.length then (0, b)
  else if memory then (0, { b with activequeues := List.replicate npriorities.toNat [] })
  else (-1, { b with activequeues := [] })

/-- `event_finalize_nolock_`. -/
def eventFinalizeNolock (k : κ) : Option (ActiveBase κ) := do
  let b ← b.eventDelNolock k
  let b ← b.eventActiveNolock k evFinalize
  return b.setCb k { b.cb k with finalizing := true }

/-- `event_callback_finalize_nolock_`. -/
def eventCallbackFinalizeNolock (k : κ) : Option (ActiveBase κ) := do
  let b ← if (b.cb k).init then b.eventDelNolock k else b.eventCallbackCancelNolock k
  let (_, b) ← b.eventCallbackActivateNolock k
  return b.setCb k { b.cb k with finalizing := true }

end ActiveBase

/-- What a program does to the active queues. -/
inductive ActiveCall (κ : Type)
  | active (k : κ) (res : Nat)
  | activeLater (k : κ) (res : Nat)
  | activate (k : κ)
  | schedule (k : κ)
  | del (k : κ)
  | cancel (k : κ)
  | reschedule (k : κ)
  | prioritySet (k : κ) (pri : Nat)
  | deferredCbSetPriority (k : κ) (pri : Nat)
  | finalize (k : κ)
  | callbackFinalize (k : κ)
  | loopbreak
  | loopcontinue
  | loopexit

namespace ActiveBase

variable {κ : Type} [DecidableEq κ]

/-- The call on the base. -/
def call (b : ActiveBase κ) : ActiveCall κ → Option (ActiveBase κ)
  | .active k res => b.eventActiveNolock k res
  | .activeLater k res => b.eventActiveLaterNolock k res
  | .activate k => (b.eventCallbackActivateNolock k).map Prod.snd
  | .schedule k => b.eventDeferredCbSchedule k
  | .del k => b.eventDelNolock k
  | .cancel k => b.eventCallbackCancelNolock k
  | .reschedule k => b.reschedule k
  | .prioritySet k pri => some (b.eventPrioritySet k pri)
  | .deferredCbSetPriority k pri =>
      some (if (b.cb k).active = true ∨ b.activequeues.length ≤ pri then { b with misused := true }
        else b.eventDeferredCbSetPriority k pri)
  | .finalize k => b.eventFinalizeNolock k
  | .callbackFinalize k => b.eventCallbackFinalizeNolock k
  | .loopbreak => some { b with eventBreak := true }
  | .loopcontinue => some { b with eventContinue := true }
  | .loopexit => some { b with eventGotterm := true }

end ActiveBase

namespace ActiveBase

variable {κ : Type} [DecidableEq κ]

/-! ## What the queues hold -/

/-- The queue of a priority. -/
def queue (b : ActiveBase κ) (pri : Nat) : List κ := b.activequeues.getD pri []

/-- The flags, the queues and the count agree. -/
structure QueuesOk (b : ActiveBase κ) : Prop where
  nodup : ∀ i, (b.queue i).Nodup
  mem : ∀ i k, k ∈ b.queue i ↔ (b.cb k).active = true ∧ (b.cb k).evcbPri = i
  laterNodup : b.activeLaterQueue.Nodup
  later : ∀ k, k ∈ b.activeLaterQueue ↔ (b.cb k).activeLater = true
  apart : ∀ k, (b.cb k).active = true → (b.cb k).activeLater = false
  pri : ∀ k, (b.cb k).evcbPri < b.activequeues.length
  count : b.eventCountActive =
    (b.activequeues.map List.length).sum + b.activeLaterQueue.length

/-- What `event_base_assert_ok_nolock_` asserts of the active queues. -/
def assertOk (b : ActiveBase κ) : Bool :=
  (List.range b.activequeues.length).all (fun i =>
      (b.queue i).all fun k =>
        (b.cb k).active && !(b.cb k).activeLater && (b.cb k).evcbPri == i) &&
    b.activeLaterQueue.all (fun k => !(b.cb k).active && (b.cb k).activeLater) &&
    (b.activequeues.map List.length).sum + b.activeLaterQueue.length == b.eventCountActive

section Queues

variable {b : ActiveBase κ} {k : κ}

omit [DecidableEq κ] in
theorem QueuesOk.assertOk (h : b.QueuesOk) : b.assertOk = true := by
  unfold ActiveBase.assertOk
  simp only [Bool.and_eq_true, List.all_eq_true, beq_iff_eq, Bool.not_eq_true']
  refine ⟨⟨?_, ?_⟩, h.count.symm⟩
  · intro i _ k mem
    obtain ⟨active, pri⟩ := (h.mem i k).mp mem
    exact ⟨⟨active, h.apart k active⟩, pri⟩
  · intro k mem
    have later := (h.later k).mp mem
    refine ⟨?_, later⟩
    by_contra active
    rw [h.apart k (Bool.eq_true_of_not_eq_false active)] at later
    cases later

omit [DecidableEq κ] in
theorem queue_modify (l : List (List κ)) (pri i : Nat) (f : List κ → List κ)
    (lt : pri < l.length) :
    (l.modify pri f).getD i [] = if i = pri then f (l.getD i []) else l.getD i [] := by
  rw [List.getD_eq_getElem?_getD, List.getD_eq_getElem?_getD, List.getElem?_modify]
  by_cases eq : i = pri
  · rw [if_pos eq, eq, List.getElem?_eq_getElem lt]
    simp
  · rw [if_neg eq]
    cases l[i]? with
    | none => rfl
    | some q => simp [Ne.symm eq]

omit [DecidableEq κ] in
theorem sum_modify (l : List (List κ)) (pri : Nat) (f : List κ → List κ) (lt : pri < l.length) :
    ((l.modify pri f).map List.length).sum + (l.getD pri []).length =
      (l.map List.length).sum + (f (l.getD pri [])).length := by
  induction l generalizing pri with
  | nil => exact absurd lt (Nat.not_lt_zero pri)
  | cons q l ih =>
      cases pri with
      | zero =>
          simp only [List.modify_zero_cons, List.map_cons, List.sum_cons, List.getD_cons_zero]
          omega
      | succ pri =>
          have := ih pri (Nat.lt_of_succ_lt_succ lt)
          simp only [List.modify_succ_cons, List.map_cons, List.sum_cons, List.getD_cons_succ]
          omega

end Queues

/-! ## What a call can do -/

/-- The callback at the end of its queue. -/
def pushActive (b : ActiveBase κ) (k : κ) : ActiveBase κ :=
  { b.setCb k { b.cb k with active := true } with
    eventCountActive := b.eventCountActive + 1
    activequeues := b.activequeues.modify (b.cb k).evcbPri (· ++ [k]) }

/-- The same for a finalizer. -/
def pushFinal (b : ActiveBase κ) (k : κ) : ActiveBase κ :=
  (b.pushActive k).setCb k { (b.pushActive k).cb k with finalizing := true }

theorem pushFinal_cb (b : ActiveBase κ) (k : κ) : (b.pushFinal k).cb =
    Function.update b.cb k { b.cb k with active := true, finalizing := true } := by
  show Function.update (Function.update b.cb k _) k
    { (b.pushActive k).cb k with finalizing := true } = _
  rw [Function.update_idem, show (b.pushActive k).cb k = { b.cb k with active := true } from
    Function.update_self ..]

/-- The callback off its queue. -/
def dropActive (b : ActiveBase κ) (k : κ) : ActiveBase κ :=
  { b.setCb k { b.cb k with active := false } with
    eventCountActive := b.eventCountActive - 1
    activequeues := b.activequeues.modify (b.cb k).evcbPri (·.erase k) }

/-- The callback at the end of the queue of what becomes active later. -/
def pushLater (b : ActiveBase κ) (k : κ) : ActiveBase κ :=
  { b.setCb k { b.cb k with activeLater := true } with
    eventCountActive := b.eventCountActive + 1
    activeLaterQueue := b.activeLaterQueue ++ [k] }

/-- The callback off it. -/
def dropLater (b : ActiveBase κ) (k : κ) : ActiveBase κ :=
  { b.setCb k { b.cb k with activeLater := false } with
    eventCountActive := b.eventCountActive - 1
    activeLaterQueue := b.activeLaterQueue.erase k }

namespace QueuesOk

variable {b : ActiveBase κ} {k : κ}

/-- A change of what is not about the queues. -/
theorem setCb (h : b.QueuesOk) {c : EventCallback} (active : c.active = (b.cb k).active)
    (later : c.activeLater = (b.cb k).activeLater)
    (pri : c.evcbPri = (b.cb k).evcbPri ∨
      (b.cb k).active = false ∧ c.evcbPri < b.activequeues.length) :
    (b.setCb k c).QueuesOk := by
  have same {x : κ} (ne : x ≠ k) : (b.setCb k c).cb x = b.cb x := Function.update_of_ne ne _ _
  have here : (b.setCb k c).cb k = c := Function.update_self ..
  refine ⟨h.nodup, ?_, h.laterNodup, ?_, ?_, ?_, h.count⟩
  · intro i x
    show x ∈ b.queue i ↔ _
    rw [h.mem]
    by_cases eq : x = k
    · rw [eq, here, active]
      rcases pri with pri | ⟨off, -⟩
      · rw [pri]
      · rw [off]
        simp
    · rw [same eq]
  · intro x
    show x ∈ b.activeLaterQueue ↔ _
    rw [h.later]
    by_cases eq : x = k
    · rw [eq, here, later]
    · rw [same eq]
  · intro x on
    by_cases eq : x = k
    · rw [eq, here] at on ⊢
      rw [active] at on
      rw [later]
      exact h.apart k on
    · rw [same eq] at on ⊢
      exact h.apart x on
  · intro x
    by_cases eq : x = k
    · rw [eq, here]
      rcases pri with pri | ⟨-, lt⟩
      · rw [pri]
        exact h.pri k
      · exact lt
    · rw [same eq]
      exact h.pri x

theorem pushActive (h : b.QueuesOk) (off : (b.cb k).active = false)
    (now : (b.cb k).activeLater = false) : (b.pushActive k).QueuesOk := by
  have same {x : κ} (ne : x ≠ k) : (b.pushActive k).cb x = b.cb x := Function.update_of_ne ne _ _
  have here : (b.pushActive k).cb k = { b.cb k with active := true } := Function.update_self ..
  have queue (i : Nat) : (b.pushActive k).queue i =
      if i = (b.cb k).evcbPri then b.queue i ++ [k] else b.queue i :=
    queue_modify _ _ _ _ (h.pri k)
  have out (i : Nat) : k ∉ b.queue i := by
    rw [h.mem, off]
    simp
  refine ⟨?_, ?_, h.laterNodup, ?_, ?_, ?_, ?_⟩
  · intro i
    rw [queue]
    split_ifs
    · exact List.nodup_append.mpr ⟨h.nodup i, List.nodup_singleton k, by
        intro x mem y last
        rw [List.mem_singleton.mp last]
        rintro rfl
        exact out i mem⟩
    · exact h.nodup i
  · intro i x
    rw [queue]
    by_cases eq : x = k
    · rw [eq, here]
      show _ ↔ true = true ∧ (b.cb k).evcbPri = i
      by_cases at_ : i = (b.cb k).evcbPri
      · rw [if_pos at_]
        simp [at_]
      · rw [if_neg at_]
        simp [out i, Ne.symm at_]
    · rw [same eq, ← h.mem]
      split_ifs
      · simp [eq]
      · rfl
  · intro x
    show x ∈ b.activeLaterQueue ↔ _
    rw [h.later]
    by_cases eq : x = k
    · rw [eq, here]
    · rw [same eq]
  · intro x on
    by_cases eq : x = k
    · rw [eq, here]
      exact now
    · rw [same eq] at on ⊢
      exact h.apart x on
  · intro x
    show _ < (b.activequeues.modify _ _).length
    rw [List.length_modify]
    by_cases eq : x = k
    · rw [eq, here]
      exact h.pri k
    · rw [same eq]
      exact h.pri x
  · show b.eventCountActive + 1 = ((b.activequeues.modify _ _).map List.length).sum + _
    have sum := sum_modify b.activequeues (b.cb k).evcbPri (· ++ [k]) (h.pri k)
    rw [List.length_append, List.length_singleton] at sum
    rw [h.count]
    show _ = _ + b.activeLaterQueue.length
    omega

theorem dropActive (h : b.QueuesOk) (on : (b.cb k).active = true) : (b.dropActive k).QueuesOk := by
  have same {x : κ} (ne : x ≠ k) : (b.dropActive k).cb x = b.cb x := Function.update_of_ne ne _ _
  have here : (b.dropActive k).cb k = { b.cb k with active := false } := Function.update_self ..
  have queue (i : Nat) : (b.dropActive k).queue i =
      if i = (b.cb k).evcbPri then (b.queue i).erase k else b.queue i :=
    queue_modify _ _ _ _ (h.pri k)
  refine ⟨?_, ?_, h.laterNodup, ?_, ?_, ?_, ?_⟩
  · intro i
    rw [queue]
    split_ifs
    · exact (h.nodup i).erase k
    · exact h.nodup i
  · intro i x
    rw [queue]
    by_cases eq : x = k
    · rw [eq, here]
      show _ ↔ false = true ∧ _
      have gone : k ∉ (b.queue i).erase k := fun mem => (h.nodup i).not_mem_erase mem
      by_cases at_ : i = (b.cb k).evcbPri
      · rw [if_pos at_]
        simp [gone]
      · rw [if_neg at_, h.mem]
        simp [Ne.symm at_]
    · rw [same eq, ← h.mem]
      split_ifs
      · exact List.mem_erase_of_ne eq
      · rfl
  · intro x
    show x ∈ b.activeLaterQueue ↔ _
    rw [h.later]
    by_cases eq : x = k
    · rw [eq, here]
    · rw [same eq]
  · intro x active
    by_cases eq : x = k
    · rw [eq, here] at active
      cases active
    · rw [same eq] at active ⊢
      exact h.apart x active
  · intro x
    show _ < (b.activequeues.modify _ _).length
    rw [List.length_modify]
    by_cases eq : x = k
    · rw [eq, here]
      exact h.pri k
    · rw [same eq]
      exact h.pri x
  · show b.eventCountActive - 1 = ((b.activequeues.modify _ _).map List.length).sum + _
    have mem : k ∈ b.activequeues.getD (b.cb k).evcbPri [] := (h.mem _ k).mpr ⟨on, rfl⟩
    have sum := sum_modify b.activequeues (b.cb k).evcbPri (·.erase k) (h.pri k)
    have pos := List.length_pos_of_mem mem
    rw [List.length_erase_of_mem mem] at sum
    rw [h.count]
    show _ = _ + b.activeLaterQueue.length
    omega

theorem pushLater (h : b.QueuesOk) (off : (b.cb k).active = false)
    (now : (b.cb k).activeLater = false) : (b.pushLater k).QueuesOk := by
  have same {x : κ} (ne : x ≠ k) : (b.pushLater k).cb x = b.cb x := Function.update_of_ne ne _ _
  have here : (b.pushLater k).cb k = { b.cb k with activeLater := true } := Function.update_self ..
  have out : k ∉ b.activeLaterQueue := by
    rw [h.later, now]
    exact Bool.false_ne_true
  refine ⟨h.nodup, ?_, ?_, ?_, ?_, ?_, ?_⟩
  · intro i x
    show x ∈ b.queue i ↔ _
    rw [h.mem]
    by_cases eq : x = k
    · rw [eq, here]
    · rw [same eq]
  · show (b.activeLaterQueue ++ [k]).Nodup
    exact List.nodup_append.mpr ⟨h.laterNodup, List.nodup_singleton k, by
      intro x mem y last
      rw [List.mem_singleton.mp last]
      rintro rfl
      exact out mem⟩
  · intro x
    show x ∈ b.activeLaterQueue ++ [k] ↔ _
    by_cases eq : x = k
    · rw [eq, here]
      simp
    · rw [same eq, ← h.later]
      simp [eq]
  · intro x active
    by_cases eq : x = k
    · rw [eq, here] at active
      have on : (b.cb k).active = true := active
      rw [off] at on
      cases on
    · rw [same eq] at active ⊢
      exact h.apart x active
  · intro x
    by_cases eq : x = k
    · rw [eq, here]
      exact h.pri k
    · rw [same eq]
      exact h.pri x
  · show b.eventCountActive + 1 = _ + (b.activeLaterQueue ++ [k]).length
    rw [List.length_append, List.length_singleton, h.count]
    exact Nat.add_assoc _ _ _

theorem dropLater (h : b.QueuesOk) (on : (b.cb k).activeLater = true) :
    (b.dropLater k).QueuesOk := by
  have same {x : κ} (ne : x ≠ k) : (b.dropLater k).cb x = b.cb x := Function.update_of_ne ne _ _
  have here : (b.dropLater k).cb k = { b.cb k with activeLater := false } := Function.update_self ..
  have mem : k ∈ b.activeLaterQueue := (h.later k).mpr on
  refine ⟨h.nodup, ?_, h.laterNodup.erase k, ?_, ?_, ?_, ?_⟩
  · intro i x
    show x ∈ b.queue i ↔ _
    rw [h.mem]
    by_cases eq : x = k
    · rw [eq, here]
    · rw [same eq]
  · intro x
    show x ∈ b.activeLaterQueue.erase k ↔ _
    by_cases eq : x = k
    · rw [eq, here]
      have gone : k ∉ b.activeLaterQueue.erase k := h.laterNodup.not_mem_erase
      simp [gone]
    · rw [same eq, ← h.later]
      exact List.mem_erase_of_ne eq
  · intro x active
    by_cases eq : x = k
    · rw [eq, here]
    · rw [same eq] at active ⊢
      exact h.apart x active
  · intro x
    by_cases eq : x = k
    · rw [eq, here]
      exact h.pri k
    · rw [same eq]
      exact h.pri x
  · show b.eventCountActive - 1 = (b.activequeues.map List.length).sum +
      (b.activeLaterQueue.erase k).length
    have pos := List.length_pos_of_mem mem
    rw [List.length_erase_of_mem mem, h.count]
    omega

end QueuesOk

/-- It is not an event, or not more urgent than the running priority, or the loop
has been told to stop. -/
def Calm (free : Prop) (b : ActiveBase κ) (k : κ) : Prop :=
  free ∨ (b.cb k).init = false ∨ b.eventContinue = true ∨
    b.eventRunningPriority ≤ (b.cb k).evcbPri

/-- One change of the active queues.  Unless `free`, an event only becomes active
when it is not more urgent than the running priority, or the loop has been told to
stop, and events of the library keep their priority; and unless it `stops`, the
loop is only told so while a priority runs that something is more urgent than. -/
inductive Move (free stops : Prop) : ActiveBase κ → ActiveBase κ → Prop
  | mark {b : ActiveBase κ} (k : κ) (c : EventCallback) (init : c.init = (b.cb k).init)
      (internal : c.internal = (b.cb k).internal) (active : c.active = (b.cb k).active)
      (later : c.activeLater = (b.cb k).activeLater)
      (final : (b.cb k).finalizing = true → c.finalizing = true)
      (pri : c.evcbPri = (b.cb k).evcbPri ∨
        (b.cb k).active = false ∧ c.evcbPri < b.activequeues.length ∧
          (free ∨ (b.cb k).internal = false)) : Move free stops b (b.setCb k c)
  | pushActive {b : ActiveBase κ} (k : κ) (off : (b.cb k).active = false)
      (now : (b.cb k).activeLater = false) (calm : Calm free b k) :
      Move free stops b (b.pushActive k)
  | pushFinal {b : ActiveBase κ} (k : κ) (off : (b.cb k).active = false)
      (now : (b.cb k).activeLater = false) : Move free stops b (b.pushFinal k)
  | dropActive {b : ActiveBase κ} (k : κ) (on : (b.cb k).active = true) :
      Move free stops b (b.dropActive k)
  | pushLater {b : ActiveBase κ} (k : κ) (off : (b.cb k).active = false)
      (now : (b.cb k).activeLater = false) : Move free stops b (b.pushLater k)
  | dropLater {b : ActiveBase κ} (k : κ) (on : (b.cb k).activeLater = true) :
      Move free stops b (b.dropLater k)
  | flags {b : ActiveBase κ} (nDeferreds : Nat) (cont brk gotterm : Bool)
      (why : cont = b.eventContinue ∨ cont = true ∧ (stops ∨ 0 < b.eventRunningPriority)) :
      Move free stops b { b with nDeferredsQueued := nDeferreds, eventContinue := cont,
                                 eventBreak := brk, eventGotterm := gotterm }
  | misuse {b : ActiveBase κ} : Move free stops b { b with misused := true }

/-- Any number of changes. -/
abbrev Moves (free stops : Prop) : ActiveBase κ → ActiveBase κ → Prop :=
  Relation.ReflTransGen (Move free stops)

section Moves

variable {b b' : ActiveBase κ} {k : κ} {free stops : Prop}

theorem QueuesOk.move (h : b.QueuesOk) (m : Move free stops b b') : b'.QueuesOk := by
  cases m with
  | mark k c init internal active later final pri =>
      exact h.setCb active later (pri.imp id fun off => ⟨off.1, off.2.1⟩)
  | pushActive k off now => exact h.pushActive off now
  | pushFinal k off now => exact (h.pushActive off now).setCb rfl rfl (Or.inl rfl)
  | dropActive k on => exact h.dropActive on
  | pushLater k off now => exact h.pushLater off now
  | dropLater k on => exact h.dropLater on
  | flags => exact ⟨h.nodup, h.mem, h.laterNodup, h.later, h.apart, h.pri, h.count⟩
  | misuse => exact ⟨h.nodup, h.mem, h.laterNodup, h.later, h.apart, h.pri, h.count⟩

omit [DecidableEq κ] in
/-- Only four of the fields matter. -/
theorem QueuesOk.congr (h : b.QueuesOk) (cb : b'.cb = b.cb)
    (queues : b'.activequeues = b.activequeues)
    (later : b'.activeLaterQueue = b.activeLaterQueue)
    (count : b'.eventCountActive = b.eventCountActive) : b'.QueuesOk := by
  obtain ⟨cb₁, queues₁, later₁, count₁, n₁, run₁, cont₁, brk₁, got₁, loop₁, mis₁⟩ := b
  obtain ⟨cb₂, queues₂, later₂, count₂, n₂, run₂, cont₂, brk₂, got₂, loop₂, mis₂⟩ := b'
  subst cb queues later count
  exact ⟨h.nodup, h.mem, h.laterNodup, h.later, h.apart, h.pri, h.count⟩

theorem QueuesOk.moves (h : b.QueuesOk) (m : Moves free stops b b') : b'.QueuesOk := by
  induction m with
  | refl => exact h
  | tail _ step ih => exact ih.move step

theorem QueuesOk.eventQueueRemoveActive (h : b.QueuesOk) (on : (b.cb k).active = true) :
    b.eventQueueRemoveActive k = some (b.dropActive k) := by
  unfold ActiveBase.eventQueueRemoveActive
  have mem : k ∈ b.activequeues.getD (b.cb k).evcbPri [] := (h.mem _ k).mpr ⟨on, rfl⟩
  rw [on, if_neg (by decide), if_pos mem]
  rfl

theorem QueuesOk.eventQueueRemoveActiveLater (h : b.QueuesOk) (on : (b.cb k).activeLater = true) :
    b.eventQueueRemoveActiveLater k = some (b.dropLater k) := by
  unfold ActiveBase.eventQueueRemoveActiveLater
  rw [on, if_neg (by decide), if_pos ((h.later k).mpr on)]
  rfl

theorem QueuesOk.eventQueueInsertActive (h : b.QueuesOk) (off : (b.cb k).active = false) :
    b.eventQueueInsertActive k = some (b.pushActive k) := by
  unfold ActiveBase.eventQueueInsertActive
  rw [off, if_neg Bool.false_ne_true, if_pos (h.pri k)]
  rfl

/-- Deletion takes a callback off the queue that it is on. -/
theorem QueuesOk.del_cases (h : b.QueuesOk) (k : κ) :
    ((b.cb k).finalizing = true ∧ b.eventDelNolock k = some b) ∨
    ((b.cb k).finalizing = false ∧ (b.cb k).active = false ∧ (b.cb k).activeLater = false ∧
      b.eventDelNolock k = some b) ∨
    ((b.cb k).finalizing = false ∧ (b.cb k).active = true ∧
      b.eventDelNolock k = some (b.dropActive k)) ∨
    ((b.cb k).finalizing = false ∧ (b.cb k).active = false ∧ (b.cb k).activeLater = true ∧
      b.eventDelNolock k = some (b.dropLater k)) := by
  unfold ActiveBase.eventDelNolock
  by_cases finalizing : (b.cb k).finalizing = true
  · rw [if_pos finalizing]
    exact Or.inl ⟨finalizing, rfl⟩
  rw [if_neg finalizing]
  right
  have running := Bool.eq_false_of_not_eq_true finalizing
  by_cases active : (b.cb k).active = true
  · rw [if_pos active, h.eventQueueRemoveActive active]
    exact Or.inr (Or.inl ⟨running, active, rfl⟩)
  rw [if_neg active]
  have off := Bool.eq_false_of_not_eq_true active
  by_cases later : (b.cb k).activeLater = true
  · rw [if_pos later, h.eventQueueRemoveActiveLater later]
    exact Or.inr (Or.inr ⟨running, off, later, rfl⟩)
  · rw [if_neg later]
    exact Or.inl ⟨running, off, Bool.eq_false_of_not_eq_true later, rfl⟩

/-- What `event_del_nolock_` leaves is on no queue, unless it is being finalized. -/
theorem QueuesOk.eventDelNolock (h : b.QueuesOk) (free stops : Prop) (k : κ) :
    ∃ b', b.eventDelNolock k = some b' ∧ Moves free stops b b' ∧
      ((b.cb k).finalizing = true ∧ b' = b ∨
        (b'.cb k).finalizing = false ∧ (b'.cb k).active = false ∧
          (b'.cb k).activeLater = false) := by
  rcases h.del_cases k with ⟨final, run⟩ | ⟨going, off, now, run⟩ | ⟨going, on, run⟩ |
    ⟨going, off, later, run⟩
  · exact ⟨b, run, .refl, Or.inl ⟨final, rfl⟩⟩
  · exact ⟨b, run, .refl, Or.inr ⟨going, off, now⟩⟩
  · refine ⟨_, run, .single (.dropActive k on), Or.inr ?_⟩
    rw [show (b.dropActive k).cb k = { b.cb k with active := false } from Function.update_self ..]
    exact ⟨going, rfl, h.apart k on⟩
  · refine ⟨_, run, .single (.dropLater k later), Or.inr ?_⟩
    rw [show (b.dropLater k).cb k = { b.cb k with activeLater := false } from
      Function.update_self ..]
    exact ⟨going, off, rfl⟩

theorem QueuesOk.eventCallbackCancelNolock (h : b.QueuesOk) (k : κ) :
    b.eventCallbackCancelNolock k = b.eventDelNolock k := by
  unfold ActiveBase.eventCallbackCancelNolock ActiveBase.eventDelNolock
  by_cases active : (b.cb k).active = true
  · simp only [h.apart k active, Bool.false_eq_true, if_false]
    split_ifs <;> rfl
  · split_ifs <;> rfl

/-- Activation moves a callback between the queues, or puts it on one. -/
theorem QueuesOk.activate_cases (h : b.QueuesOk) (k : κ) :
    b.eventCallbackActivateNolock k = some (0, b) ∨
    ((b.cb k).active = false ∧ (b.cb k).activeLater = true ∧
      b.eventCallbackActivateNolock k = some (0, (b.dropLater k).pushActive k)) ∨
    ((b.cb k).active = false ∧ (b.cb k).activeLater = false ∧
      b.eventCallbackActivateNolock k = some (1, b.pushActive k)) := by
  unfold ActiveBase.eventCallbackActivateNolock
  by_cases finalizing : (b.cb k).finalizing = true
  · rw [if_pos finalizing]
    exact Or.inl rfl
  rw [if_neg finalizing]
  by_cases active : (b.cb k).active = true
  · rw [if_pos active, h.apart k active]
    exact Or.inl rfl
  rw [if_neg active]
  right
  have off := Bool.eq_false_of_not_eq_true active
  by_cases later : (b.cb k).activeLater = true
  · rw [if_pos later, h.eventQueueRemoveActiveLater later]
    have off' : ((b.dropLater k).cb k).active = false := by
      rw [show (b.dropLater k).cb k = { b.cb k with activeLater := false } from
        Function.update_self .., off]
    simp only [Option.bind_eq_bind, Option.bind_some,
      (h.dropLater later).eventQueueInsertActive off', Option.pure_def]
    exact Or.inl ⟨off, later, trivial⟩
  · rw [if_neg later, h.eventQueueInsertActive off]
    exact Or.inr ⟨off, Bool.eq_false_of_not_eq_true later, rfl⟩

theorem QueuesOk.eventCallbackActivateNolock (h : b.QueuesOk) (stops : Prop)
    (calm : Calm free b k) :
    ∃ r b', b.eventCallbackActivateNolock k = some (r, b') ∧ Moves free stops b b' := by
  rcases h.activate_cases k with run | ⟨off, later, run⟩ | ⟨off, now, run⟩
  · exact ⟨0, b, run, .refl⟩
  · have here : (b.dropLater k).cb k = { b.cb k with activeLater := false } :=
      Function.update_self ..
    have calm' : Calm free (b.dropLater k) k := by
      unfold Calm
      rw [here]
      exact calm
    exact ⟨0, _, run, .tail (.single (.dropLater k later))
      (.pushActive k (by rw [here, off]) (by rw [here]) calm')⟩
  · exact ⟨1, _, run, .single (.pushActive k off now calm)⟩

theorem QueuesOk.activateLater_cases (h : b.QueuesOk) (k : κ) :
    b.eventCallbackActivateLaterNolock k = some (0, b) ∨
    ((b.cb k).active = false ∧ (b.cb k).activeLater = false ∧
      b.eventCallbackActivateLaterNolock k = some (1, b.pushLater k)) := by
  unfold ActiveBase.eventCallbackActivateLaterNolock
  by_cases queued : ((b.cb k).active || (b.cb k).activeLater) = true
  · rw [if_pos queued]
    exact Or.inl rfl
  rw [if_neg queued]
  obtain ⟨off, now⟩ := Bool.or_eq_false_iff.mp (Bool.eq_false_of_not_eq_true queued)
  have insert : b.eventQueueInsertActiveLater k = some (b.pushLater k) := by
    unfold ActiveBase.eventQueueInsertActiveLater
    rw [off, now, if_neg (by decide), if_pos (h.pri k)]
    rfl
  rw [insert]
  exact Or.inr ⟨off, now, rfl⟩

theorem QueuesOk.eventCallbackActivateLaterNolock (h : b.QueuesOk) (free stops : Prop) (k : κ) :
    ∃ r b', b.eventCallbackActivateLaterNolock k = some (r, b') ∧ Moves free stops b b' := by
  rcases h.activateLater_cases k with run | ⟨off, now, run⟩
  · exact ⟨0, b, run, .refl⟩
  · exact ⟨1, _, run, .single (.pushLater k off now)⟩

/-- A change of the results. -/
theorem Move.evRes (b : ActiveBase κ) (k : κ) (res : Nat) :
    Move free stops b (b.setCb k { b.cb k with evRes := res }) :=
  .mark k _ rfl rfl rfl rfl id (Or.inl rfl)

theorem Move.finalizing (b : ActiveBase κ) (k : κ) :
    Move free stops b (b.setCb k { b.cb k with finalizing := true }) :=
  .mark k _ rfl rfl rfl rfl (fun _ => rfl) (Or.inl rfl)

/-- `event_active_nolock_` marks what it is told, and tells the loop to stop before
it makes a more urgent event active. -/
theorem QueuesOk.active_cases (h : b.QueuesOk) (k : κ) (res : Nat) :
    ∃ res', b.eventActiveNolock k res = some b ∨
      b.eventActiveNolock k res = some (b.setCb k { b.cb k with evRes := res' }) ∨
      b.eventActiveNolock k res =
        (({ b.setCb k { b.cb k with evRes := res' } with
          eventContinue := if ((b.cb k).evcbPri : Int) < b.eventRunningPriority then true
            else b.eventContinue } : ActiveBase κ).eventCallbackActivateNolock k).map
          Prod.snd := by
  unfold ActiveBase.eventActiveNolock
  by_cases finalizing : (b.cb k).finalizing = true
  · rw [if_pos finalizing]
    exact ⟨0, Or.inl rfl⟩
  rw [if_neg finalizing]
  by_cases active : (b.cb k).active = true
  · rw [if_pos active, h.apart k active]
    exact ⟨_, Or.inr (Or.inl rfl)⟩
  rw [if_neg active]
  generalize (if (b.cb k).activeLater then (b.cb k).evRes ||| res else res) = res'
  have pri : ((b.setCb k { b.cb k with evRes := res' }).cb k).evcbPri = (b.cb k).evcbPri := by
    rw [show (b.setCb k { b.cb k with evRes := res' }).cb k = _ from Function.update_self ..]
  refine ⟨res', Or.inr (Or.inr ?_)⟩
  simp only [pri, Option.bind_eq_bind, Option.pure_def]
  exact (Option.map_eq_bind ..).symm

theorem QueuesOk.eventActiveNolock (h : b.QueuesOk) (free stops : Prop) (k : κ) (res : Nat) :
    ∃ b', b.eventActiveNolock k res = some b' ∧ Moves free stops b b' := by
  obtain ⟨res', run | run | run⟩ := h.active_cases k res
  · exact ⟨b, run, .refl⟩
  · exact ⟨_, run, .single (.evRes b k _)⟩
  generalize set : (if ((b.cb k).evcbPri : Int) < b.eventRunningPriority then true
    else b.eventContinue) = cont at run
  let b₁ := b.setCb k { b.cb k with evRes := res' }
  let b₂ : ActiveBase κ := { b₁ with eventContinue := cont }
  have m₁ : Move free stops b b₁ := .evRes b k _
  have m₂ : Move free stops b₁ b₂ := by
    refine .flags b₁.nDeferredsQueued _ b₁.eventBreak b₁.eventGotterm ?_
    rw [← set]
    split_ifs with urgent
    · exact Or.inr ⟨rfl, Or.inr (lt_of_le_of_lt (Int.natCast_nonneg _) urgent)⟩
    · exact Or.inl rfl
  have here : b₂.cb k = { b.cb k with evRes := res' } := Function.update_self ..
  have calm : Calm free b₂ k := by
    unfold Calm
    rw [here]
    by_cases urgent : ((b.cb k).evcbPri : Int) < b.eventRunningPriority
    · rw [if_pos urgent] at set
      exact Or.inr (Or.inr (Or.inl set.symm))
    · exact Or.inr (Or.inr (Or.inr (not_lt.mp urgent)))
  obtain ⟨r, b', run', m₃⟩ := ((h.move m₁).move m₂).eventCallbackActivateNolock stops calm
  refine ⟨b', ?_, .head m₁ (.head m₂ m₃)⟩
  rw [run, run']
  rfl

end Moves

end ActiveBase

/-- What the kinds of callbacks are for: what is activated by itself, or deferred, is
not part of an event, what becomes active later is, and the priority is set of an
event, or of a deferred callback, that is not the library's own. -/
def ActiveCall.Usual {κ : Type} (cb : κ → EventCallback) : ActiveCall κ → Prop
  | .activate k | .schedule k => (cb k).init = false
  | .activeLater k _ => (cb k).init = true
  | .prioritySet k _ => (cb k).internal = false
  | .deferredCbSetPriority k _ => (cb k).init = false ∧ (cb k).internal = false
  | _ => True

namespace ActiveBase

variable {κ : Type} [DecidableEq κ] {b b' : ActiveBase κ} {k : κ} {free stops : Prop}

/-- **What a call can do.**  On queues in order no call fails, and each is a
number of changes. -/
theorem QueuesOk.call (h : b.QueuesOk) (free stops : Prop) (c : ActiveCall κ)
    (usual : free ∨ c.Usual b.cb)
    (stop : c = .loopcontinue → stops) : ∃ b', b.call c = some b' ∧ Moves free stops b b' := by
  have calm {k : κ} (ok : free ∨ (b.cb k).init = false) : Calm free b k := ok.imp id Or.inl
  cases c with
  | active k res => exact h.eventActiveNolock free stops k res
  | activeLater k res =>
      show ∃ b', b.eventActiveLaterNolock k res = _ ∧ _
      unfold ActiveBase.eventActiveLaterNolock
      split_ifs with queued
      · exact ⟨_, rfl, .single (.evRes b k _)⟩
      · have m : Move free stops b _ := .evRes b k res
        obtain ⟨r, b', run, ms⟩ := (h.move m).eventCallbackActivateLaterNolock free stops k
        refine ⟨b', ?_, .head m ms⟩
        show ((b.setCb k _).eventCallbackActivateLaterNolock k).bind _ = _
        rw [run]
        rfl
  | activate k =>
      obtain ⟨r, b', run, ms⟩ := h.eventCallbackActivateNolock stops (calm usual)
      refine ⟨b', ?_, ms⟩
      show (b.eventCallbackActivateNolock k).map Prod.snd = _
      rw [run]
      rfl
  | schedule k =>
      show ∃ b', b.eventDeferredCbSchedule k = _ ∧ _
      unfold ActiveBase.eventDeferredCbSchedule
      by_cases many : maxDeferredsQueued < b.nDeferredsQueued
      · rw [if_pos many]
        obtain ⟨r, b', run, ms⟩ := h.eventCallbackActivateLaterNolock free stops k
        refine ⟨b', ?_, ms⟩
        rw [run]
        rfl
      · rw [if_neg many]
        obtain ⟨r, b', run, ms⟩ := h.eventCallbackActivateNolock stops (calm usual)
        refine ⟨if r ≠ 0 then { b' with nDeferredsQueued := b'.nDeferredsQueued + 1 } else b',
          ?_, ?_⟩
        · rw [run]
          rfl
        · split_ifs
          · exact .tail ms (.flags _ _ b'.eventBreak b'.eventGotterm (Or.inl rfl))
          · exact ms
  | del k =>
      obtain ⟨b', run, ms, -⟩ := h.eventDelNolock free stops k
      exact ⟨b', run, ms⟩
  | cancel k =>
      obtain ⟨b', run, ms, -⟩ := h.eventDelNolock free stops k
      exact ⟨b', (h.eventCallbackCancelNolock k).trans run, ms⟩
  | reschedule k =>
      show ∃ b', b.reschedule k = _ ∧ _
      unfold ActiveBase.reschedule
      split_ifs with finalizing due
      · exact ⟨b, rfl, .refl⟩
      · have on := (Bool.and_eq_true_iff.mp due).1
        exact ⟨_, h.eventQueueRemoveActive on, .single (.dropActive k on)⟩
      · exact ⟨b, rfl, .refl⟩
  | prioritySet k pri =>
      refine ⟨_, rfl, ?_⟩
      unfold ActiveBase.eventPrioritySet
      split_ifs with active large
      · exact .refl
      · exact .refl
      · exact .single (.mark k _ rfl rfl rfl rfl id
          (Or.inr ⟨Bool.eq_false_of_not_eq_true active, not_le.mp large, usual⟩))
  | deferredCbSetPriority k pri =>
      refine ⟨_, rfl, ?_⟩
      split_ifs with misused
      · exact .single .misuse
      · obtain ⟨waits, there⟩ := not_or.mp misused
        exact .single (.mark k _ rfl rfl rfl rfl id
          (Or.inr ⟨Bool.eq_false_of_not_eq_true waits, not_le.mp there, usual.imp id And.right⟩))
  | finalize k =>
      obtain ⟨b₁, run, ms, -⟩ := h.eventDelNolock free stops k
      obtain ⟨b₂, run', ms'⟩ := (h.moves ms).eventActiveNolock free stops k evFinalize
      refine ⟨b₂.setCb k { b₂.cb k with finalizing := true }, ?_,
        .tail (ms.trans ms') (.finalizing b₂ k)⟩
      show (b.eventDelNolock k).bind _ = _
      rw [run, Option.bind_some]
      show (b₁.eventActiveNolock k evFinalize).bind _ = _
      rw [run']
      rfl
  | callbackFinalize k =>
      obtain ⟨b₁, run, ms, left⟩ := h.eventDelNolock free stops k
      show ∃ b', b.eventCallbackFinalizeNolock k = some b' ∧ _
      unfold ActiveBase.eventCallbackFinalizeNolock ActiveBase.eventCallbackActivateNolock
      rw [h.eventCallbackCancelNolock, ite_self, run]
      simp only [Option.bind_eq_bind, Option.bind_some]
      rcases left with ⟨finalizing, rfl⟩ | ⟨finalizing, off, now⟩
      · rw [if_pos finalizing]
        exact ⟨_, rfl, .tail ms (.finalizing b₁ k)⟩
      · simp only [finalizing, off, now, Bool.false_eq_true, if_false,
          (h.moves ms).eventQueueInsertActive off, Option.bind_some]
        exact ⟨_, rfl, .tail ms (.pushFinal k off now)⟩
  | loopbreak =>
      exact ⟨_, rfl, .single (.flags b.nDeferredsQueued _ true b.eventGotterm (Or.inl rfl))⟩
  | loopcontinue =>
      exact ⟨_, rfl, .single (.flags b.nDeferredsQueued true b.eventBreak b.eventGotterm
        (Or.inr ⟨rfl, Or.inl (stop rfl)⟩))⟩
  | loopexit =>
      exact ⟨_, rfl, .single (.flags b.nDeferredsQueued _ b.eventBreak true (Or.inl rfl))⟩

/-! ## What the changes keep -/

omit [DecidableEq κ] in
/-- What no change touches, and what it only sets. -/
structure Same (b b' : ActiveBase κ) : Prop where
  init : ∀ k, (b'.cb k).init = (b.cb k).init
  internal : ∀ k, (b'.cb k).internal = (b.cb k).internal
  final : ∀ k, (b.cb k).finalizing = true → (b'.cb k).finalizing = true
  looping : b'.runningLoop = b.runningLoop
  misused : b.misused = true → b'.misused = true

/-- A base that differs from another in one callback. -/
theorem Same.of_update {c : EventCallback} (cb : b'.cb = Function.update b.cb k c)
    (init : c.init = (b.cb k).init) (internal : c.internal = (b.cb k).internal)
    (final : (b.cb k).finalizing = true → c.finalizing = true)
    (looping : b'.runningLoop = b.runningLoop) (misused : b'.misused = b.misused) :
    Same b b' := by
  have here : b'.cb k = c := by rw [cb, Function.update_self]
  have same {x : κ} (ne : x ≠ k) : b'.cb x = b.cb x := by rw [cb, Function.update_of_ne ne]
  refine ⟨?_, ?_, ?_, looping, misused.trans⟩
  · intro x
    by_cases eq : x = k
    · rw [eq, here, init]
    · rw [same eq]
  · intro x
    by_cases eq : x = k
    · rw [eq, here, internal]
    · rw [same eq]
  · intro x on
    by_cases eq : x = k
    · rw [eq, here]
      exact final (eq ▸ on)
    · rw [same eq]
      exact on

omit [DecidableEq κ] in
theorem Same.refl (b : ActiveBase κ) : Same b b :=
  ⟨fun _ => rfl, fun _ => rfl, fun _ => id, rfl, id⟩

omit [DecidableEq κ] in
theorem Same.trans {b'' : ActiveBase κ} (s : Same b b') (s' : Same b' b'') : Same b b'' :=
  ⟨fun k => (s'.init k).trans (s.init k), fun k => (s'.internal k).trans (s.internal k),
    fun k on => s'.final k (s.final k on), s'.looping.trans s.looping,
    fun on => s'.misused (s.misused on)⟩

theorem Move.same (m : Move free stops b b') : Same b b' := by
  cases m with
  | mark k c init internal active later final pri =>
      exact .of_update rfl init internal final rfl rfl
  | pushActive k off now => exact .of_update rfl rfl rfl id rfl rfl
  | pushFinal k off now => exact .of_update (b.pushFinal_cb k) rfl rfl (fun _ => rfl) rfl rfl
  | dropActive k on => exact .of_update rfl rfl rfl id rfl rfl
  | pushLater k off now => exact .of_update rfl rfl rfl id rfl rfl
  | dropLater k on => exact .of_update rfl rfl rfl id rfl rfl
  | flags => exact ⟨fun _ => rfl, fun _ => rfl, fun _ => id, rfl, id⟩
  | misuse => exact ⟨fun _ => rfl, fun _ => rfl, fun _ => id, rfl, fun _ => rfl⟩

theorem Moves.same (m : Moves free stops b b') : Same b b' := by
  induction m with
  | refl => exact .refl b
  | tail _ step ih => exact ih.trans step.same

theorem Moves.running (m : Moves free stops b b') :
    b'.eventRunningPriority = b.eventRunningPriority := by
  induction m with
  | refl => rfl
  | tail _ step ih =>
      rw [← ih]
      cases step <;> rfl

/-- The loop is not told to stop while nothing is more urgent than what runs. -/
theorem Moves.eventContinue (m : Moves free False b b') (urgent : b.eventRunningPriority ≤ 0) :
    b'.eventContinue = b.eventContinue := by
  induction m with
  | refl => rfl
  | @tail b₁ b₂ before step ih =>
      rw [← ih]
      have running := Moves.running before
      cases step with
      | flags nDeferreds cont brk gotterm why =>
          rcases why with same | ⟨-, stop | positive⟩
          · exact same
          · exact stop.elim
          · omega
      | _ => rfl

omit [DecidableEq κ] in
/-- No event of the priority waits, only what is deferred or to be finalized. -/
def NoEvent (b : ActiveBase κ) (i : Nat) : Prop :=
  ∀ k ∈ b.queue i, (b.cb k).init = false ∨ (b.cb k).finalizing = true

omit [DecidableEq κ] in
/-- No event that is more urgent than the running priority waits, or the loop has
been told to stop. -/
def UrgentServed (b : ActiveBase κ) : Prop :=
  b.eventContinue = true ∨ ∀ i : Nat, (i : Int) < b.eventRunningPriority → b.NoEvent i

omit [DecidableEq κ] in
theorem NoEvent.of_same {i : Nat} (s : Same b b') (none : b.NoEvent i)
    (sub : ∀ k ∈ b'.queue i, k ∈ b.queue i ∨ (b'.cb k).init = false ∨
      (b'.cb k).finalizing = true) : b'.NoEvent i := by
  intro k mem
  rcases sub k mem with old | new
  · rcases none k old with init | final
    · exact Or.inl ((s.init k).trans init)
    · exact Or.inr (s.final k final)
  · exact new

theorem UrgentServed.move (h : b.QueuesOk) (served : b.UrgentServed) (m : Move False stops b b') :
    b'.UrgentServed := by
  have same := m.same
  rcases served with told | served
  · left
    cases m with
    | flags nDeferreds cont brk gotterm why =>
        rcases why with eq | ⟨on, -⟩
        · exact eq.trans told
        · exact on
    | _ => exact told
  -- what comes new to a queue that is more urgent is no event
  have new (sub : ∀ i : Nat, (i : Int) < b.eventRunningPriority → ∀ k ∈ b'.queue i,
      k ∈ b.queue i ∨ (b'.cb k).init = false ∨ (b'.cb k).finalizing = true) :
      b'.UrgentServed := by
    right
    intro i lt
    rw [Moves.running (.single m)] at lt
    exact (served i lt).of_same same (sub i lt)
  cases m with
  | mark k c init internal active later final pri => exact new fun i _ k mem => Or.inl mem
  | pushActive k off now calm =>
      rcases calm with free | deferred | told | late
      · exact free.elim
      · refine new fun i _ x mem => ?_
        rw [show (b.pushActive k).queue i = _ from queue_modify _ _ _ _ (h.pri k)] at mem
        split_ifs at mem
        · rcases List.mem_append.mp mem with old | last
          · exact Or.inl old
          · rw [List.mem_singleton.mp last]
            exact Or.inr (Or.inl ((same.init k).trans deferred))
        · exact Or.inl mem
      · exact Or.inl told
      · refine new fun i lt x mem => Or.inl ?_
        have ne : i ≠ (b.cb k).evcbPri := by omega
        rw [show (b.pushActive k).queue i = _ from queue_modify _ _ _ _ (h.pri k),
          if_neg ne] at mem
        exact mem
  | pushFinal k off now =>
      refine new fun i _ x mem => ?_
      rw [show (b.pushFinal k).queue i = _ from queue_modify _ _ _ _ (h.pri k)] at mem
      split_ifs at mem
      · rcases List.mem_append.mp mem with old | last
        · exact Or.inl old
        · rw [List.mem_singleton.mp last]
          rw [b.pushFinal_cb k, Function.update_self]
          exact Or.inr (Or.inr rfl)
      · exact Or.inl mem
  | dropActive k on =>
      refine new fun i _ x mem => Or.inl ?_
      rw [show (b.dropActive k).queue i = _ from queue_modify _ _ _ _ (h.pri k)] at mem
      split_ifs at mem
      · exact List.mem_of_mem_erase mem
      · exact mem
  | pushLater k off now => exact new fun i _ x mem => Or.inl mem
  | dropLater k on => exact new fun i _ x mem => Or.inl mem
  | flags nDeferreds cont brk gotterm why => exact new fun i _ x mem => Or.inl mem
  | misuse => exact new fun i _ x mem => Or.inl mem

theorem UrgentServed.moves (h : b.QueuesOk) (served : b.UrgentServed)
    (m : Moves False stops b b') : b'.UrgentServed := by
  induction m with
  | refl => exact served
  | tail before step ih => exact ih.move (h.moves before) step

omit [DecidableEq κ] in
/-- The library's own events have the most urgent priority. -/
def InternalFirst (b : ActiveBase κ) : Prop :=
  ∀ k, (b.cb k).internal = true → (b.cb k).evcbPri = 0

theorem InternalFirst.move (first : b.InternalFirst) (m : Move False stops b b') :
    b'.InternalFirst := by
  have update {k : κ} {c : EventCallback} (cb : b'.cb = Function.update b.cb k c)
      (ok : c.internal = true → c.evcbPri = 0) : b'.InternalFirst := by
    intro x on
    rw [cb] at on ⊢
    by_cases eq : x = k
    · rw [eq, Function.update_self] at on ⊢
      exact ok on
    · rw [Function.update_of_ne eq] at on ⊢
      exact first x on
  cases m with
  | mark k c init internal active later final pri =>
      refine update rfl fun on => ?_
      rw [internal] at on
      rcases pri with same | ⟨-, -, free | user⟩
      · rw [same]
        exact first k on
      · exact free.elim
      · rw [user] at on
        cases on
  | pushActive k off now => exact update rfl (first k)
  | pushFinal k off now => exact update (b.pushFinal_cb k) (first k)
  | dropActive k on => exact update rfl (first k)
  | pushLater k off now => exact update rfl (first k)
  | dropLater k on => exact update rfl (first k)
  | flags => exact first
  | misuse => exact first

theorem InternalFirst.moves (first : b.InternalFirst) (m : Moves False stops b b') :
    b'.InternalFirst := by
  induction m with
  | refl => exact first
  | tail _ step ih => exact ih.move step

omit [DecidableEq κ] in
/-- The callbacks are the same kinds of callbacks. -/
def Kinds (b b' : ActiveBase κ) : Prop :=
  ∀ k, (b'.cb k).init = (b.cb k).init ∧ (b'.cb k).internal = (b.cb k).internal

omit [DecidableEq κ] in
theorem Same.kinds (s : Same b b') : Kinds b b' := fun k => ⟨s.init k, s.internal k⟩

omit [DecidableEq κ] in
theorem Kinds.usual (kinds : Kinds b b') {c : ActiveCall κ} (usual : c.Usual b.cb) :
    c.Usual b'.cb := by
  cases c with
  | activate k => exact (kinds k).1.trans usual
  | schedule k => exact (kinds k).1.trans usual
  | activeLater k res => exact (kinds k).1.trans usual
  | prioritySet k pri => exact (kinds k).2.trans usual
  | deferredCbSetPriority k pri => exact usual.imp (kinds k).1.trans (kinds k).2.trans
  | _ => trivial

/-- Any calls, one after the other. -/
theorem QueuesOk.calls (h : b.QueuesOk) (free stops : Prop) (cs : List (ActiveCall κ))
    (usual : ∀ c ∈ cs, free ∨ c.Usual b.cb) (stop : .loopcontinue ∈ cs → stops) :
    ∃ b', StepSystem.run ActiveBase.call b cs = some b' ∧ Moves free stops b b' := by
  induction cs generalizing b with
  | nil => exact ⟨b, rfl, .refl⟩
  | cons c cs ih =>
      obtain ⟨b₁, run, m⟩ := h.call free stops c (usual c List.mem_cons_self)
        fun eq => stop (eq ▸ List.mem_cons_self)
      have usual' : ∀ c ∈ cs, free ∨ c.Usual b₁.cb := by
        intro c mem
        exact (usual c (List.mem_cons_of_mem _ mem)).imp id m.same.kinds.usual
      obtain ⟨b₂, rest, m'⟩ := ih (h.moves m) usual' fun mem => stop (List.mem_cons_of_mem _ mem)
      exact ⟨b₂, StepSystem.run_cons_eq_some.mpr ⟨b₁, run, rest⟩, m.trans m'⟩

end ActiveBase

end SwiftEvent
