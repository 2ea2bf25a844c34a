import SwiftEvent.Core
import Mathlib.Logic.Relation
import Mathlib.Tactic.Tauto

/-!
# The life of a call

The abstract model of what can become of one call, whatever else goes on in the
process.  A `Life` is the call's record together with the few facts about the
loop that concern it: whether its event is queued, whether a signal registration
holds it, whether its callback is being repeated.  `Moves` is everything that a
step may do to it.

The point of the model is the table of *stages*.  A call that was handed to
libevent is first `waiting` and ends as `done` when its callback runs, or
`dropped` with the loop; one that libevent did not take is `refused`, and stays
so; a box given back on the spot makes it `refunded`; signals are `listening`
until they are `closed`.  Each stage fixes the call's record (`At`), each move
leads from a stage to one of its successors (`at_moves`), and no stage is ever
entered twice.  Resumption, release and allocation counts are all read off the
stage.

`SwiftEvent.Refine` connects the model to the loop.
-/

namespace SwiftEvent

/-! ## Records -/

namespace Call

variable (call : Call)

/-- A call that was resumed before anything was handed over: a `connect` decided
by `socket(2)` or `connect(2)` itself. -/
structure Answered : Prop where
  connect : ∃ address, call.kind = .connect address
  boxed : call.boxed = false
  added : call.added = false
  allocs : call.allocs = 0
  frees : call.frees = 0
  released : call.released = 0
  ran : call.ran = 0
  stale : call.stale = 0
  resumed : call.outcomes.length = 1
  syscalls : call.syscalls = []
  accepted : call.accepted = []

/-- What is common to the records of calls that handed a box over. -/
structure Boxed (allocs frees released ran resumed : Nat) : Prop where
  boxed : call.boxed = true
  allocs : call.allocs = allocs
  frees : call.frees = frees
  released : call.released = released
  ran : call.ran = ran
  stale : call.stale = 0
  resumed : call.outcomes.length = resumed

/-- The events a call takes from `event_new`; timers use `event_base_once`. -/
def news : Nat := if call.kind.isIo then 1 else 0

/-- Handed over, and not heard of since. -/
structure Started : Prop extends call.Boxed call.news 0 0 0 0 where
  signal : call.kind.isSignal = false
  quiet : call.syscalls = [] ∧ call.accepted = []

/-- The callback ran, once. -/
structure Done : Prop extends call.Boxed call.news 0 1 1 1 where
  signal : call.kind.isSignal = false

/-- The box was given back by the call itself. -/
structure Refunded : Prop extends call.Boxed 0 0 1 0 0 where
  io : call.kind.isIo = false

/-- A signal event, for as long as its registration holds it. -/
structure Listening : Prop extends call.Boxed 1 0 0 call.ran 0 where
  signal : call.kind.isSignal = true

/-- A signal event after `tearDown`. -/
structure Closed : Prop extends call.Boxed 1 1 1 call.ran 0 where
  signal : call.kind.isSignal = true

variable {call}

/-- The callback of a started call settles it. -/
theorem Started.settle (h : call.Started) (fx : Core.Effect) :
    (fx.settle call).Done where
  boxed := h.boxed
  allocs := h.allocs
  frees := h.frees
  released := by simp [Core.Effect.settle, h.released]
  ran := by simp [Core.Effect.settle, h.ran]
  stale := by simp [Core.Effect.settle, h.stale, h.released]
  resumed := by simp [Core.Effect.settle, List.length_eq_zero_iff.mp h.resumed]
  signal := h.signal

/-- A yield leaves a held event as it is. -/
theorem Listening.yielded (h : call.Listening) : call.yielded.Listening where
  boxed := h.boxed
  allocs := h.allocs
  frees := h.frees
  released := h.released
  ran := rfl
  stale := by simp [Call.yielded, h.stale, h.released]
  resumed := h.resumed
  signal := h.signal

/-- `tearDown` closes a held event. -/
theorem Listening.torn (h : call.Listening) : call.torn.Closed where
  boxed := h.boxed
  allocs := h.allocs
  frees := by simp [Call.torn, h.frees]
  released := by simp [Call.torn, h.released]
  ran := rfl
  stale := h.stale
  resumed := h.resumed
  signal := h.signal

end Call

/-- One call, as the loop sees it. -/
structure Life where
  made : Prop
  call : Call
  /-- On the inserted, timer or active queue. -/
  queued : Prop
  /-- In a signal registration. -/
  held : Prop
  /-- The event `event_signal_closure` is repeating. -/
  repeating : Prop
  alive : Prop

/-- The stages of a call. -/
inductive Stage
  | unmade
  | answered
  | waiting
  | refused
  | done
  | refunded
  | listening
  | closed
  | dropped
deriving DecidableEq, Repr

/-- The stages that may come next. -/
def Stage.next : Stage → Stage → Bool
  | .unmade, .answered | .unmade, .waiting | .unmade, .refused | .unmade, .refunded
  | .unmade, .listening | .waiting, .done | .waiting, .dropped | .listening, .closed => true
  | s, s' => s == s'

/-- One stage after another. -/
def Stage.Leads : Stage → Stage → Prop :=
  Relation.ReflTransGen fun s s' => s.next s' = true

/-- A waiting call is resumed, or dropped with the loop, or waits on. -/
theorem Stage.Leads.of_waiting {s : Stage} (h : Stage.Leads .waiting s) :
    s = .waiting ∨ s = .done ∨ s = .dropped := by
  induction h with
  | refl => exact Or.inl rfl
  | @tail _ u _ next ih =>
      rcases ih with rfl | rfl | rfl <;> cases u <;> simp_all [Stage.next]

/-- A refused call stays refused. -/
theorem Stage.Leads.of_refused {s : Stage} (h : Stage.Leads .refused s) : s = .refused := by
  induction h with
  | refl => rfl
  | @tail _ u _ next ih =>
      subst ih
      cases u <;> simp_all [Stage.next]

/-- Only a new call, or a waiting one, comes to wait. -/
theorem Stage.Leads.to_waiting {s : Stage} (h : Stage.Leads s .waiting) :
    s = .unmade ∨ s = .waiting := by
  induction h using Relation.ReflTransGen.head_induction_on with
  | refl => exact Or.inr rfl
  | @head t _ next _ ih =>
      rcases ih with rfl | rfl <;> cases t <;> simp_all [Stage.next]

/-- A signal is listened for until its stream is torn down. -/
theorem Stage.Leads.of_listening {s : Stage} (h : Stage.Leads .listening s) :
    s = .listening ∨ s = .closed := by
  induction h with
  | refl => exact Or.inl rfl
  | @tail _ u _ next ih =>
      rcases ih with rfl | rfl <;> cases u <;> simp_all [Stage.next]

/-- A closed signal stays closed. -/
theorem Stage.Leads.of_closed {s : Stage} (h : Stage.Leads .closed s) : s = .closed := by
  induction h with
  | refl => rfl
  | @tail _ u _ next ih =>
      subst ih
      cases u <;> simp_all [Stage.next]

/-- A dropped call stays dropped. -/
theorem Stage.Leads.of_dropped {s : Stage} (h : Stage.Leads .dropped s) : s = .dropped := by
  induction h with
  | refl => rfl
  | @tail _ u _ next ih =>
      subst ih
      cases u <;> simp_all [Stage.next]

namespace Life

variable (v : Life)

/-- Nothing of the base refers to the call. -/
structure Idle : Prop where
  queued : ¬ v.queued
  held : ¬ v.held
  repeating : ¬ v.repeating

/-- What each stage fixes. -/
def At : Stage → Prop
  | .unmade => ¬ v.made ∧ v.Idle
  | .answered => v.made ∧ v.Idle ∧ v.call.Answered
  | .waiting =>
      v.made ∧ v.queued ∧ ¬ v.held ∧ ¬ v.repeating ∧ v.alive ∧ v.call.Started ∧
        v.call.added = true
  | .refused =>
      v.made ∧ v.Idle ∧ v.call.Started ∧ v.call.added = false ∧ v.call.kind.isIo = true
  | .done => v.made ∧ v.Idle ∧ v.call.Done ∧ v.call.added = true
  | .refunded => v.made ∧ v.Idle ∧ v.call.Refunded
  | .listening => v.made ∧ v.held ∧ v.alive ∧ v.call.Listening
  | .closed => v.made ∧ v.Idle ∧ v.call.Closed
  | .dropped =>
      v.made ∧ v.Idle ∧ ¬ v.alive ∧ v.call.Started ∧ v.call.added = true

/-- The call is at some stage. -/
def Sound : Prop := ∃ s, v.At s

/-- **What a step may do to a call.** -/
inductive Moves (v : Life) : Life → Prop
  /-- Nothing, except that a repetition may end, and that a signal event may
  leave the active queue for its callback. -/
  | stay (queued repeating : Prop) (hq : queued → v.queued) (hr : repeating → v.repeating)
      (same : v.held ∨ (v.queued → queued)) :
      Moves v { v with queued, repeating }
  | answer (call : Call) (new : ¬ v.made) (alive : v.alive) (h : call.Answered) :
      Moves v { v with made := True, call }
  | start (call : Call) (new : ¬ v.made) (alive : v.alive) (h : call.Started)
      (io : call.added = false → call.kind.isIo = true) :
      Moves v { v with made := True, call, queued := call.added = true }
  | refund (call : Call) (new : ¬ v.made) (alive : v.alive) (h : call.Refunded) :
      Moves v { v with made := True, call }
  | listen (call : Call) (new : ¬ v.made) (alive : v.alive) (h : call.Listening) :
      Moves v { v with made := True, call, queued := call.added = true, held := True }
  | fire (fx : Core.Effect) (queued : v.queued) (alive : v.alive)
      (signal : v.call.kind.isSignal = false) :
      Moves v { v with call := fx.settle v.call, queued := False }
  | yield (queued repeating : Prop) (hq : queued → v.queued) (use : v.queued ∨ v.repeating)
      (signal : v.call.kind.isSignal = true) (alive : v.alive) :
      Moves v { v with call := v.call.yielded, queued, repeating }
  | close (held : v.held) :
      Moves v { v with call := v.call.torn, queued := False, held := False, repeating := False }
  | drop (held : ¬ v.held) : Moves v { v with queued := False, repeating := False, alive := False }

/-! ## The table of stages is respected -/

variable {v} {v' : Life} {s : Stage}

/-- A call that is not made yet is at the first stage. -/
theorem At.unmade (h : v.At s) (new : ¬ v.made) : s = .unmade := by
  cases s with
  | unmade => rfl
  | _ => exact absurd h.1 new

/-- Only a waiting call is on a queue without being a signal. -/
theorem At.waiting (h : v.At s) (queued : v.queued) (signal : v.call.kind.isSignal = false) :
    s = .waiting := by
  cases s with
  | waiting => rfl
  | unmade => exact absurd queued h.2.queued
  | listening =>
      have := h.2.2.2.signal
      rw [signal] at this
      cases this
  | _ => exact absurd queued h.2.1.queued

/-- Only a listening call is used by a signal. -/
theorem At.listening (h : v.At s) (use : v.queued ∨ v.repeating)
    (signal : v.call.kind.isSignal = true) : s = .listening := by
  cases s with
  | listening => rfl
  | waiting =>
      have := h.2.2.2.2.2.1.signal
      rw [signal] at this
      cases this
  | unmade => exact (use.elim h.2.queued h.2.repeating).elim
  | _ => exact (use.elim h.2.1.queued h.2.1.repeating).elim

/-- Only a listening call is in a registration. -/
theorem At.listening_of_held (h : v.At s) (held : v.held) : s = .listening := by
  cases s with
  | listening => rfl
  | waiting => exact absurd held h.2.2.1
  | unmade => exact absurd held h.2.held
  | _ => exact absurd held h.2.1.held

/-- The stages of a call that was handed over and not heard of since. -/
theorem At.of_started (h : v.At s) (made : v.made) (started : v.call.Started) :
    s = .waiting ∧ v.call.added = true ∨ s = .refused ∧ v.call.added = false ∨
      s = .dropped ∧ v.call.added = true := by
  have signal := started.signal
  have released := started.released
  cases s with
  | unmade => exact absurd made h.1
  | answered =>
      have := h.2.2.boxed
      rw [started.boxed] at this
      cases this
  | waiting => exact Or.inl ⟨rfl, h.2.2.2.2.2.2⟩
  | refused => exact Or.inr (Or.inl ⟨rfl, h.2.2.2.1⟩)
  | dropped => exact Or.inr (Or.inr ⟨rfl, h.2.2.2.2⟩)
  | done =>
      have := h.2.2.1.released
      rw [released] at this
      cases this
  | refunded =>
      have := h.2.2.released
      rw [released] at this
      cases this
  | listening =>
      have := h.2.2.2.signal
      rw [signal] at this
      cases this
  | closed =>
      have := h.2.2.signal
      rw [signal] at this
      cases this

theorem Idle.weaken (h : v.Idle) {queued repeating : Prop} (hq : queued → v.queued)
    (hr : repeating → v.repeating) : Idle { v with queued, repeating } :=
  ⟨fun q => h.queued (hq q), h.held, fun r => h.repeating (hr r)⟩

/-- **Every move leads to a stage that may come next.** -/
theorem at_moves (h : v.At s) (move : v.Moves v') : ∃ s', v'.At s' ∧ s.next s' = true := by
  cases move with
  | stay queued repeating hq hr same =>
      refine ⟨s, ?_, by cases s <;> rfl⟩
      cases s with
      | listening => exact h
      | unmade => exact ⟨h.1, h.2.weaken hq hr⟩
      | waiting =>
          obtain ⟨made, q, held, rep, rest⟩ := h
          exact ⟨made, same.elim (fun x => absurd x held) (fun x => x q), held,
            fun r => rep (hr r), rest⟩
      | _ => exact ⟨h.1, h.2.1.weaken hq hr, h.2.2⟩
  | answer call new alive hc =>
      obtain rfl := h.unmade new
      exact ⟨.answered, ⟨trivial, ⟨h.2.queued, h.2.held, h.2.repeating⟩, hc⟩, rfl⟩
  | start call new alive hc io =>
      obtain rfl := h.unmade new
      cases added : call.added with
      | true =>
          exact ⟨.waiting, ⟨trivial, by simp, h.2.held, h.2.repeating, alive, hc, added⟩, rfl⟩
      | false =>
          exact ⟨.refused, ⟨trivial, ⟨by simp, h.2.held, h.2.repeating⟩, hc, added,
            io added⟩, rfl⟩
  | refund call new alive hc =>
      obtain rfl := h.unmade new
      exact ⟨.refunded, ⟨trivial, ⟨h.2.queued, h.2.held, h.2.repeating⟩, hc⟩, rfl⟩
  | listen call new alive hc =>
      obtain rfl := h.unmade new
      exact ⟨.listening, ⟨trivial, trivial, alive, hc⟩, rfl⟩
  | fire fx queued alive signal =>
      obtain rfl := h.waiting queued signal
      obtain ⟨made, -, held, rep, -, hc, added⟩ := h
      exact ⟨.done, ⟨made, ⟨fun q => q, held, rep⟩, hc.settle fx, added⟩, rfl⟩
  | yield queued repeating hq use signal alive =>
      obtain rfl := h.listening use signal
      obtain ⟨made, held, alive, hc⟩ := h
      exact ⟨.listening, ⟨made, held, alive, hc.yielded⟩, rfl⟩
  | close held =>
      obtain rfl := h.listening_of_held held
      obtain ⟨made, -, -, hc⟩ := h
      exact ⟨.closed, ⟨made, ⟨fun q => q, fun q => q, fun q => q⟩, hc.torn⟩, rfl⟩
  | drop held =>
      cases s with
      | waiting =>
          obtain ⟨made, -, -, -, -, hc, added⟩ := h
          exact ⟨.dropped, ⟨made, ⟨fun q => q, held, fun q => q⟩, fun q => q, hc, added⟩, rfl⟩
      | listening => exact absurd h.2.1 held
      | unmade => exact ⟨.unmade, ⟨h.1, ⟨fun q => q, held, fun q => q⟩⟩, rfl⟩
      | dropped =>
          obtain ⟨made, -, -, rest⟩ := h
          exact ⟨.dropped, ⟨made, ⟨fun q => q, held, fun q => q⟩, fun q => q, rest⟩, rfl⟩
      | answered => exact ⟨.answered, ⟨h.1, ⟨fun q => q, held, fun q => q⟩, h.2.2⟩, rfl⟩
      | refused => exact ⟨.refused, ⟨h.1, ⟨fun q => q, held, fun q => q⟩, h.2.2⟩, rfl⟩
      | done => exact ⟨.done, ⟨h.1, ⟨fun q => q, held, fun q => q⟩, h.2.2⟩, rfl⟩
      | refunded => exact ⟨.refunded, ⟨h.1, ⟨fun q => q, held, fun q => q⟩, h.2.2⟩, rfl⟩
      | closed => exact ⟨.closed, ⟨h.1, ⟨fun q => q, held, fun q => q⟩, h.2.2⟩, rfl⟩

/-- What a call is does not change. -/
theorem Moves.kind (move : v.Moves v') (made : v.made) :
    v'.call.kind = v.call.kind ∧ v'.made := by
  cases move with
  | answer call new => exact absurd made new
  | start call new => exact absurd made new
  | refund call new => exact absurd made new
  | listen call new => exact absurd made new
  | _ => exact ⟨rfl, made⟩

theorem kind_follows (moves : Relation.ReflTransGen Moves v v') (made : v.made) :
    v'.call.kind = v.call.kind ∧ v'.made := by
  induction moves with
  | refl => exact ⟨rfl, made⟩
  | tail _ move ih =>
      obtain ⟨kind, made⟩ := ih
      obtain ⟨kind', made'⟩ := move.kind made
      exact ⟨kind'.trans kind, made'⟩

/-- Nothing happens to a call that neither waits nor is being repeated. -/
theorem rest_follows (moves : Relation.ReflTransGen Moves v v') (made : v.made)
    (queued : ¬ v.queued) (repeating : ¬ v.repeating) :
    v'.call.ran = v.call.ran ∧ ¬ v'.queued ∧ ¬ v'.repeating := by
  induction moves with
  | refl => exact ⟨rfl, queued, repeating⟩
  | tail before move ih =>
      obtain ⟨ran, queued, repeating⟩ := ih
      have made := (kind_follows before made).2
      cases move with
      | stay queued' repeating' hq hr same =>
          exact ⟨ran, fun q => queued (hq q), fun r => repeating (hr r)⟩
      | answer call new => exact absurd made new
      | start call new => exact absurd made new
      | refund call new => exact absurd made new
      | listen call new => exact absurd made new
      | fire fx waits => exact absurd waits queued
      | yield queued' repeating' hq use => exact absurd use (not_or.mpr ⟨queued, repeating⟩)
      | close held => exact ⟨ran, fun q => q, fun r => r⟩
      | drop held => exact ⟨ran, fun q => q, fun r => r⟩

theorem Sound.moves (h : v.Sound) (move : v.Moves v') : v'.Sound := by
  obtain ⟨s, h⟩ := h
  obtain ⟨s', h', -⟩ := at_moves h move
  exact ⟨s', h'⟩

theorem at_follows (h : v.At s) (moves : Relation.ReflTransGen Moves v v') :
    ∃ s', v'.At s' ∧ s.Leads s' := by
  induction moves with
  | refl => exact ⟨s, h, .refl⟩
  | tail _ move ih =>
      obtain ⟨s', h', leads⟩ := ih
      obtain ⟨s'', h'', next⟩ := at_moves h' move
      exact ⟨s'', h'', leads.tail next⟩

/-! ## What the stages say -/

/-- **A continuation is resumed at most once, and a box is released at most once
and never used after that.** -/
theorem Sound.once (h : v.Sound) (made : v.made) :
    v.call.outcomes.length ≤ 1 ∧ v.call.released ≤ 1 ∧ v.call.stale = 0 := by
  obtain ⟨s, h⟩ := h
  cases s with
  | unmade => exact absurd made h.1
  | answered =>
      obtain ⟨-, -, hc⟩ := h
      simp [hc.resumed, hc.released, hc.stale]
  | waiting =>
      obtain ⟨-, -, -, -, -, hc, -⟩ := h
      simp [hc.resumed, hc.released, hc.stale]
  | refused =>
      obtain ⟨-, -, hc, -⟩ := h
      simp [hc.resumed, hc.released, hc.stale]
  | done =>
      obtain ⟨-, -, hc, -⟩ := h
      simp [hc.resumed, hc.released, hc.stale]
  | refunded =>
      obtain ⟨-, -, hc⟩ := h
      simp [hc.resumed, hc.released, hc.stale]
  | listening =>
      obtain ⟨-, -, -, hc⟩ := h
      simp [hc.resumed, hc.released, hc.stale]
  | closed =>
      obtain ⟨-, -, hc⟩ := h
      simp [hc.resumed, hc.released, hc.stale]
  | dropped =>
      obtain ⟨-, -, -, hc, -⟩ := h
      simp [hc.resumed, hc.released, hc.stale]

end Life

end SwiftEvent
