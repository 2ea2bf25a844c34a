import SwiftEvent.Bound
import SwiftEvent.Streams

/-!
# Byte-stream integrity

Two connected sockets of a process, on one loop or on two.  What the reads of one
end return, in call order, is the beginning of what the kernel accepted from the
writes of the other end, in call order (`stream_integrity`): a call makes at most
one system call, a call that throws moves no byte, and callbacks that run during
somebody else's drive still act on the socket of their own call.

The argument has three parts.

* `Bound` of `SwiftEvent.Bound`: the event of a waiting call carries the number of
  a live object of its loop, so its system call acts on that object's socket.
* `World.Streams` of `SwiftEvent.Streams`: the kernel keeps the streams apart and
  in order.
* `Booked`: on an object that is used by one task at a time the order of the
  callbacks is the order of the calls.
-/

namespace SwiftEvent

/-- The bytes the kernel took from a write that returned normally. -/
def Call.written (call : Call) : List UInt8 :=
  if call.outcomes = [.returned] then call.accepted else []

/-- The bytes a read returned. -/
def Call.received (call : Call) : List UInt8 :=
  match call.outcomes with
  | [.data bytes] => bytes
  | _ => []

namespace Loop

/-- The calls made on an object, in call order. -/
def callsOn (l : Loop) (o : Nat) : List Nat := l.made.filter fun n => (l.call n).obj = some o

/-- What was written to the object, in call order. -/
def written (l : Loop) (o : Nat) : List UInt8 := (l.callsOn o).flatMap fun n => (l.call n).written

/-- What was read from the object, in call order. -/
def received (l : Loop) (o : Nat) : List UInt8 := (l.callsOn o).flatMap fun n => (l.call n).received

/-- **The calls on an object and the streams of its socket agree**, and only the
last call on it may still be waiting. -/
structure Booked (l : Loop) (sent received : KSock → List UInt8) (o : Nat) (k : KSock) : Prop where
  written : l.written o = sent k
  received : l.received o = received k
  last : ∀ n ∈ l.callsOn o, (l.call n).outcomes = [] →
    ∃ before, l.callsOn o = before ++ [n] ∧ n ∉ before

theorem mem_callsOn {l : Loop} {o n : Nat} :
    n ∈ l.callsOn o ↔ n ∈ l.made ∧ (l.call n).obj = some o := by
  simp [callsOn]

/-- The books of an object are about its calls and its socket only. -/
theorem Booked.congr {l l' : Loop} {sent received sent' received' : KSock → List UInt8} {o : Nat}
    {k : KSock} (h : l.Booked sent received o k) (calls : l'.callsOn o = l.callsOn o)
    (call : ∀ n ∈ l.callsOn o, l'.call n = l.call n) (sends : sent' k = sent k)
    (receives : received' k = received k) : l'.Booked sent' received' o k := by
  refine ⟨?_, ?_, fun n mem waiting => ?_⟩
  · rw [sends, ← h.written, Loop.written, calls]
    exact List.flatMap_congr fun n mem => by rw [call n mem]
  · rw [receives, ← h.received, Loop.received, calls]
    exact List.flatMap_congr fun n mem => by rw [call n mem]
  · rw [calls] at mem ⊢
    rw [call n mem] at waiting
    exact h.last n mem waiting

end Loop

namespace Call

variable {call : Call}

theorem Untouched.written (h : call.Untouched) : call.written = [] := by
  simp [Call.written, h.accepted]

theorem Untouched.received (h : call.Untouched) : call.received = [] := by
  unfold Call.received
  split
  · next bytes eq => exact absurd (by simp [eq]) (h.outcomes bytes)
  · rfl

end Call

namespace Core

variable {c c' : Core} {a : Act} {n : Nat}

/-- Whether the step is a `close()`. -/
def Act.isClose : Act → Bool
  | .close _ => true
  | _ => false

/-! ## Callbacks and streams -/

theorem written_settle {call : Call} (h : call.Started) (fx : Effect) :
    (fx.settle call).written = if fx.outcome = .returned then fx.accepted else [] := by
  simp [Call.written, Effect.settle, List.length_eq_zero_iff.mp h.resumed, h.quiet.2]

theorem received_settle {call : Call} (h : call.Started) (fx : Effect) :
    (fx.settle call).received = match fx.outcome with | .data bytes => bytes | _ => [] := by
  simp only [Call.received, Effect.settle, List.length_eq_zero_iff.mp h.resumed, List.nil_append]
  cases fx.outcome <;> rfl

section Streams

variable {w : World} {sent received : KSock → List UInt8} {x : Obj} {o : Nat} {call : Call}
  {fx : Effect} {r : SysResult} {res : Evs}

/-- The books after a callback on a socket. -/
def Carries (sent received : KSock → List UInt8) (k : KSock) (call : Call) (fx : Effect) : Prop :=
  fx.world.Streams (Function.update sent k (sent k ++ (fx.settle call).written))
    (Function.update received k (received k ++ (fx.settle call).received))

/-- A callback that moves no byte. -/
theorem carries_nothing {k : KSock} (h : fx.world.Streams sent received) (started : call.Started)
    (returned : fx.outcome = .returned → fx.accepted = [])
    (data : ∀ bytes, fx.outcome ≠ .data bytes) : Carries sent received k call fx := by
  have written : (fx.settle call).written = [] := by
    rw [written_settle started]
    split
    · next eq => exact returned eq
    · rfl
  have received' : (fx.settle call).received = [] := by
    rw [received_settle started]
    split
    · next bytes eq => exact absurd eq (data bytes)
    · rfl
  unfold Carries
  rw [written, received', List.append_nil, List.append_nil, Function.update_eq_self,
    Function.update_eq_self]
  exact h

/-- **What a callback does to the streams**: what the kernel took from its call,
or gave to it, is booked on the socket of the call's object. -/
theorem carries_callbackBody (h : w.Streams sent received) (hx : w.obj o = some x)
    (mine : w.table x.fd = some x.sock) (started : call.Started) {loop : Nat}
    (body : callbackBody w loop call x.fd res r = some fx) :
    Carries sent received x.sock call fx := by
  have nothing : ∀ {fx : Effect}, fx.world = w → fx.outcome ≠ .returned →
      (∀ bytes, fx.outcome ≠ .data bytes) → Carries sent received x.sock call fx := by
    intro fx world returned data
    exact carries_nothing (world ▸ h) started (fun eq => absurd eq returned) data
  cases callbackBody_cases body with
  | bytes k n kind notDue used some_ fits there =>
      cases mine.symm.trans used
      unfold Carries
      rw [written_settle started, received_settle started]
      simp only [reduceCtorEq, if_false, List.append_nil, Function.update_eq_self]
      exact h.pop hx ⟨some_, there⟩
  | wrote k n data kind notDue used part established =>
      cases mine.symm.trans used
      unfold Carries
      rw [written_settle started, received_settle started]
      simp only [if_true, List.append_nil, Function.update_eq_self]
      exact h.send hx established _
  | accepts k clientFd client rest kind used backlog free listening =>
      exact carries_nothing (h.accepted backlog) started (by simp) (by simp)
  | timer r kind => exact carries_nothing h started (fun _ => rfl) (by simp)
  | _ => exact nothing rfl (by simp) (by simp)

end Streams

/-! ## Steps and streams -/

/-- The call has moved no byte in the meantime, and is not waiting again. -/
structure Still (call call' : Call) : Prop where
  written : call'.written = call.written
  received : call'.received = call.received
  resumed : call'.outcomes = [] → call.outcomes = []

theorem Still.refl (call : Call) : Still call call := ⟨rfl, rfl, fun h => h⟩

theorem still_yielded (call : Call) : Still call call.yielded := ⟨rfl, rfl, fun h => h⟩

theorem still_torn (call : Call) : Still call call.torn := ⟨rfl, rfl, fun h => h⟩

/-- The callback of a timer. -/
theorem still_timer {w : World} {call : Call} (started : call.Started) {loop : Nat} {fd : Fd}
    {res : Evs} {r : SysResult} {fx : Effect} (timer : call.kind.isIo = false)
    (body : callbackBody w loop call fd res r = some fx) :
    fx.world = w ∧ Still call (fx.settle call) := by
  have eq : fx = { world := w, outcome := .returned } := by
    cases callbackBody_cases body with
    | timer => rfl
    | _ => simp_all [Kind.isIo]
  subst eq
  refine ⟨rfl, ?_, ?_, by simp [Effect.settle]⟩
  · rw [written_settle started, started.untouched.written]
    rfl
  · rw [received_settle started, started.untouched.received]

/-- A step in which no byte moves. -/
def Rests (c c' : Core) (sent received : KSock → List UInt8) : Prop :=
  c'.world.Streams sent received ∧ ∀ n ∈ c.loop.made, Still (c.loop.call n) (c'.loop.call n)

/-- A step in which the callback of a call on an object runs. -/
structure Settles (c c' : Core) (sent received : KSock → List UInt8) (n o : Nat) (x : Obj) :
    Prop where
  waits : c.WaitsOn n o x
  made : n ∈ c.loop.made
  started : (c.loop.call n).Started
  loop : c'.loop.made = c.loop.made
  call : ∃ fx : Effect, c'.loop.call = Function.update c.loop.call n (fx.settle (c.loop.call n))
  streams : c'.world.Streams
    (Function.update sent x.sock (sent x.sock ++ (c'.loop.call n).written))
    (Function.update received x.sock (received x.sock ++ (c'.loop.call n).received))

section Streams

variable {sent received : KSock → List UInt8}

theorem streams_answers (h : c.world.Streams sent received) {address : SocketAddress}
    {r : ConnectResult} {call : Call} {w : World} (ans : c.Answers address r call w) :
    w.Streams sent received := by
  cases ans with
  | socketFails errno => exact h
  | ok fd listener w free inet hw =>
      exact (h.openObj (s := { family := .inet, conn := .connecting }) rfl rfl rfl).conclude hw
  | fails fd errno w free ne hw =>
      exact (h.openObj (s := { family := .inet, conn := .connecting }) rfl rfl rfl).conclude hw

theorem streams_starts (h : c.world.Streams sent received) {kind : Kind} {o : Nat} {fd : Fd}
    {events : Evs} {w : World} (starts : c.Starts kind o fd events w) :
    w.Streams sent received := by
  cases starts with
  | connect address fd free inet => exact h.openObj rfl rfl rfl
  | _ => exact h

/-- **What a step does to the streams**: nothing, or what one callback does. -/
theorem streams_step (bound : c.Bound) (owned : c.world.Owned)
    (unclosed : ∀ o x, c.world.obj o = some x → x.closed = false)
    (h : c.world.Streams sent received) (hs : c.step a = some c') (noClose : ∀ o, a ≠ .close o) :
    c.Rests c' sent received ∨ ∃ n o x, c.Settles c' sent received n o x := by
  have quiet : c'.world.Streams sent received → (∀ r, a ≠ .callback r) →
      c.Rests c' sent received ∨ ∃ n o x, c.Settles c' sent received n o x := by
    refine fun streams other => Or.inl ⟨streams, fun n made => ?_⟩
    rcases record_step bound.sound hs made with eq | ⟨-, eq | eq⟩ | ⟨r, fx, eq, -⟩
    · rw [eq]; exact .refl _
    · rw [eq]; exact still_yielded _
    · rw [eq]; exact still_torn _
    · exact absurd eq (other r)
  have yields : ∀ {m : Nat} (k : Nat), Still (c.loop.call k)
      (Function.update c.loop.call m (c.loop.call m).yielded k) := by
    intro m k
    by_cases eq : k = m
    · subst eq
      rw [Function.update_self]
      exact still_yielded _
    · rw [Function.update_of_ne eq]
      exact .refl _
  cases step_cases hs with
  | listen r w hw => exact quiet (h.listen hw) (by simp)
  | kernel act w hw => exact quiet (h.kernel hw) (by simp)
  | close o w hw => exact absurd rfl (noClose o)
  | deinit o w may hw => exact quiet (h.deinit hw) (by simp)
  | answer n address r timeout env now call w alive new ans =>
      exact quiet (streams_answers h ans) (by simp)
  | start _ drives n kind o fd events w timeout env now alive new starts accept opens target =>
      exact quiet (streams_starts h starts) (by rintro r rfl; cases drives)
  | schedule n sleeps duration nomem env now alive new =>
      exact quiet (by rw [world_schedule]; exact h) (by simp)
  | signalStream args c' alive hc => exact quiet (by rw [world_signalStream hc]; exact h) (by simp)
  | tearDown r alive opened => exact quiet (by rw [world_tearDown]; exact h) (by simp)
  | free w alive torn hw => exact quiet (h.deinit hw) (by simp)
  | dispatch ready now order b alive reports later quiet' hb => exact quiet h (by simp)
  | pipe r rest alive quiet' queue => exact Or.inl ⟨h, fun _ _ => .refl _⟩
  | skip r n rest alive quiet' queue sig => exact Or.inl ⟨h, fun _ _ => .refl _⟩
  | yield r n left rest alive quiet' queue sig => exact Or.inl ⟨h, fun k _ => yields k⟩
  | again r n left alive rep => exact Or.inl ⟨h, fun k _ => yields k⟩
  | breakSignal => exact quiet h (by simp)
  | raise sig alive => exact quiet h (by simp)
  | fire r n rest fx alive quiet' queue sig body =>
      have queued : c.loop.base.Queued (.call n) := Or.inr (Or.inr (by simp [queue]))
      have made := made_of_queued bound.sound queued
      have started := started_of_queued bound.sound queued sig
      cases io : (c.loop.call n).kind.isIo with
      | false =>
          obtain ⟨world, still⟩ := still_timer started io body
          refine Or.inl ⟨by rw [fired, world]; exact h, fun k _ => ?_⟩
          by_cases eq : k = n
          · subst eq
            simpa [fired, withCall] using still
          · simpa [fired, withCall, withBase, eq] using Still.refl _
      | true =>
          obtain ⟨o, x, waits⟩ := bound.waits n queued io
          rw [waits.fd] at body
          have mine := owned.mine o x waits.live (unclosed o x waits.live)
          have carried := carries_callbackBody h waits.live mine started body
          refine Or.inr ⟨n, o, x, waits, made, started, rfl, ⟨fx, rfl⟩, ?_⟩
          simpa [fired, withCall, Carries] using carried

/-! ## Call order -/

/-- The calls on an object after a step: the same, and perhaps one more. -/
theorem callsOn_step (sound : c.loop.Sound) (hs : c.step a = some c') (o : Nat) :
    c'.loop.callsOn o = c.loop.callsOn o ∨
      ∃ n, n ∉ c.loop.made ∧ (c'.loop.call n).Untouched ∧
        c'.loop.callsOn o = c.loop.callsOn o ++ [n] ∧
        (a.target = some o ∨ o = c.world.nextObj) := by
  obtain ⟨ns, made, new⟩ := new_calls sound hs
  have old : c.loop.made.filter (fun n => (c'.loop.call n).obj = some o) = c.loop.callsOn o :=
    List.filter_congr fun n mem => by rw [obj_call_step sound hs mem]
  have split : c'.loop.callsOn o =
      c.loop.callsOn o ++ ns.filter fun n => (c'.loop.call n).obj = some o := by
    rw [Loop.callsOn, made, List.filter_append, old]
  rw [split]
  by_cases none : ∀ n ∈ ns, (c'.loop.call n).obj ≠ some o
  · left
    rw [List.filter_eq_nil_iff.mpr (by simpa using none), List.append_nil]
  · right
    simp only [ne_eq, not_forall, not_not] at none
    obtain ⟨n, mem, own⟩ := none
    obtain ⟨fresh, untouched, eq | ⟨rfl, target⟩⟩ := new n mem
    · rw [own] at eq
      cases eq
    · refine ⟨n, fresh, untouched, by simp [own], ?_⟩
      rcases target with ⟨eq, -⟩ | ⟨o', x, target, eq, -⟩
      · exact Or.inr (Option.some.inj (own.symm.trans eq))
      · rw [own, Option.some.injEq] at eq
        exact Or.inl (eq ▸ target)

/-- A step in which no byte moves keeps the books, when a call is made only on an
object that nobody waits for. -/
theorem Rests.booked (h : c.Rests c' sent received) (sound : c.loop.Sound)
    (hs : c.step a = some c') {o : Nat} {k : KSock} (booked : c.loop.Booked sent received o k)
    (alone : a.target = some o ∨ o = c.world.nextObj →
      ∀ n ∈ c.loop.callsOn o, (c.loop.call n).outcomes ≠ []) :
    c'.loop.Booked sent received o k := by
  have still : ∀ n ∈ c.loop.callsOn o, Still (c.loop.call n) (c'.loop.call n) := fun n mem =>
    h.2 n (Loop.mem_callsOn.mp mem).1
  have written : (c.loop.callsOn o).flatMap (fun n => (c'.loop.call n).written) = sent k := by
    rw [← booked.written]
    exact List.flatMap_congr fun n mem => (still n mem).written
  have received' : (c.loop.callsOn o).flatMap (fun n => (c'.loop.call n).received) = received k := by
    rw [← booked.received]
    exact List.flatMap_congr fun n mem => (still n mem).received
  rcases callsOn_step sound hs o with eq | ⟨n, new, untouched, eq, free⟩
  · refine ⟨by rw [Loop.written, eq, written], by rw [Loop.received, eq, received'],
      fun m mem waiting => ?_⟩
    rw [eq] at mem ⊢
    exact booked.last m mem ((still m mem).resumed waiting)
  · refine ⟨?_, ?_, fun m mem waiting => ?_⟩
    · rw [Loop.written, eq, List.flatMap_append, written]
      simp [untouched.written]
    · rw [Loop.received, eq, List.flatMap_append, received']
      simp [untouched.received]
    · rw [eq, List.mem_append, List.mem_singleton] at mem
      rcases mem with mem | rfl
      · exact absurd ((still m mem).resumed waiting) (alone free m mem)
      · exact ⟨c.loop.callsOn o, eq, fun mem => new (Loop.mem_callsOn.mp mem).1⟩

theorem Settles.callsOn {n o : Nat} {x : Obj} (h : c.Settles c' sent received n o x) (o' : Nat) :
    c'.loop.callsOn o' = c.loop.callsOn o' := by
  obtain ⟨fx, call⟩ := h.call
  rw [Loop.callsOn, h.loop]
  refine List.filter_congr fun m _ => ?_
  rw [call]
  by_cases eq : m = n
  · subst eq
    simp [Effect.settle]
  · rw [Function.update_of_ne eq]

/-- The callback of the call that waits for an object is booked on its socket. -/
theorem Settles.booked {n o : Nat} {x : Obj} (h : c.Settles c' sent received n o x)
    (booked : c.loop.Booked sent received o x.sock) :
    c'.loop.Booked (Function.update sent x.sock (sent x.sock ++ (c'.loop.call n).written))
      (Function.update received x.sock (received x.sock ++ (c'.loop.call n).received)) o x.sock := by
  obtain ⟨fx, call⟩ := h.call
  have calls := h.callsOn o
  have mine : n ∈ c.loop.callsOn o := Loop.mem_callsOn.mpr ⟨h.made, h.waits.obj⟩
  have waiting := List.length_eq_zero_iff.mp h.started.resumed
  obtain ⟨before, split, out⟩ := booked.last n mine waiting
  have other : ∀ m ∈ before, c'.loop.call m = c.loop.call m := by
    intro m mem
    rw [call, Function.update_of_ne (by rintro rfl; exact out mem)]
  refine ⟨?_, ?_, fun m mem waiting' => ?_⟩
  · rw [Function.update_self, ← booked.written, Loop.written, Loop.written, calls, split,
      List.flatMap_append, List.flatMap_append,
      List.flatMap_congr fun m mem => by rw [other m mem]]
    simp [h.started.untouched.written]
  · rw [Function.update_self, ← booked.received, Loop.received, Loop.received, calls, split,
      List.flatMap_append, List.flatMap_append,
      List.flatMap_congr fun m mem => by rw [other m mem]]
    simp [h.started.untouched.received]
  · rw [calls] at mem ⊢
    have ne : m ≠ n := by
      rintro rfl
      rw [call, Function.update_self] at waiting'
      simp [Effect.settle] at waiting'
    rw [call, Function.update_of_ne ne] at waiting'
    exact booked.last m mem waiting'

/-- The books of the other objects are not touched. -/
theorem Settles.booked_of_ne {n o o' : Nat} {x : Obj} {k : KSock}
    (h : c.Settles c' sent received n o x) (ne : o' ≠ o) (apart : k ≠ x.sock)
    (booked : c.loop.Booked sent received o' k) :
    c'.loop.Booked (Function.update sent x.sock (sent x.sock ++ (c'.loop.call n).written))
      (Function.update received x.sock (received x.sock ++ (c'.loop.call n).received)) o' k := by
  obtain ⟨fx, call⟩ := h.call
  refine booked.congr (h.callsOn o') (fun m mem => ?_) (Function.update_of_ne apart _ _)
    (Function.update_of_ne apart _ _)
  rw [call, Function.update_of_ne]
  rintro rfl
  exact ne (Option.some.inj ((Loop.mem_callsOn.mp mem).2.symm.trans h.waits.obj))

/-- The books of an object before the step that makes it. -/
theorem booked_new (bound : c.Bound) (h : c.world.Streams sent received) {k : KSock}
    (unused : k = c.world.nextSock ∨ ∃ s, k ∈ (c.world.sock s).backlog) :
    c.loop.Booked sent received c.world.nextObj k ∧
      ∀ o x, c.world.obj o = some x → x.sock ≠ k := by
  have none : c.loop.callsOn c.world.nextObj = [] := by
    refine List.filter_eq_nil_iff.mpr fun n made => ?_
    simp only [decide_eq_true_eq]
    exact fun own => Nat.lt_irrefl _ (bound.known n made _ own)
  have silent : sent k = [] ∧ received k = [] ∧ ∀ o x, c.world.obj o = some x → x.sock ≠ k := by
    rcases unused with rfl | ⟨s, mem⟩
    · exact ⟨h.next.1, h.next.2.1, h.next.2.2.1⟩
    · exact (h.pending s k mem).2
  exact ⟨⟨by simp [Loop.written, none, silent.1], by simp [Loop.received, none, silent.2.1],
    by simp [none]⟩, silent.2.2⟩

/-- **What a step does to the books** of some objects that are used by one task at
a time: those of the loop stay right, those of other loops are not touched. -/
theorem booked_step {os : List Nat} (bound : c.Bound) (owned : c.world.Owned)
    (unclosed : ∀ o x, c.world.obj o = some x → x.closed = false)
    (h : c.world.Streams sent received)
    (booked : ∀ o ∈ os, ∀ x, c.world.obj o = some x → x.loop = c.loop.self →
      c.loop.Booked sent received o x.sock)
    (hs : c.step a = some c') (noClose : ∀ o, a ≠ .close o)
    (alone : ∀ o, a.target = some o → o ∈ os → c.Unused o) :
    ∃ sent' received', c'.world.Streams sent' received' ∧
      (∀ o ∈ os, ∀ x, c'.world.obj o = some x → x.loop = c.loop.self →
        c'.loop.Booked sent' received' o x.sock) ∧
      ∀ o x, c.world.obj o = some x → x.loop ≠ c.loop.self →
        sent' x.sock = sent x.sock ∧ received' x.sock = received x.sock := by
  -- an object that is there afterwards had right books before, and a socket of its own
  have before : ∀ o ∈ os, ∀ x, c'.world.obj o = some x → x.loop = c.loop.self →
      c.loop.Booked sent received o x.sock ∧
        ∀ o' x', c.world.obj o' = some x' → o ≠ o' → x.sock ≠ x'.sock := by
    intro o mem x hx home
    rcases obj_back hs noClose hx with old | ⟨rfl, -, -, unused⟩
    · exact ⟨booked o mem x old home, fun o' x' hx' ne eq => ne (h.apart o o' x x' old hx' eq)⟩
    · obtain ⟨books, apart⟩ := booked_new bound h unused
      exact ⟨books, fun o' x' hx' _ eq => apart o' x' hx' eq.symm⟩
  rcases streams_step bound owned unclosed h hs noClose with rests | ⟨n, o', x', settles⟩
  · refine ⟨sent, received, rests.1, fun o mem x hx home => ?_, fun _ _ _ _ => ⟨rfl, rfl⟩⟩
    refine rests.booked bound.sound hs (before o mem x hx home).1 fun free n onIt => ?_
    obtain ⟨made, own⟩ := Loop.mem_callsOn.mp onIt
    rcases free with target | rfl
    · exact alone o target mem n made own
    · exact absurd (bound.known n made _ own) (Nat.lt_irrefl _)
  · refine ⟨_, _, settles.streams, fun o mem x hx home => ?_, fun o x hx away => ?_⟩
    · obtain ⟨books, apart⟩ := before o mem x hx home
      by_cases eq : o = o'
      · subst eq
        have same : x = x' := by
          rcases obj_back hs noClose hx with old | ⟨rfl, -⟩
          · exact Option.some.inj (old.symm.trans settles.waits.live)
          · exact absurd (owned.lt_nextObj settles.waits.live) (Nat.lt_irrefl _)
        subst same
        exact settles.booked books
      · exact settles.booked_of_ne eq (apart o' x' settles.waits.live eq) books
    · have ne : x.sock ≠ x'.sock := by
        intro eq
        obtain rfl := h.apart o o' x x' hx settles.waits.live eq
        have same := Option.some.inj (hx.symm.trans settles.waits.live)
        exact away (same ▸ settles.waits.home)
      exact ⟨Function.update_of_ne ne _ _, Function.update_of_ne ne _ _⟩

end Streams

/-! ## What one call does -/

/-- What holds of the record of every call. -/
structure Tidy (call : Call) : Prop where
  once : call.syscalls.length ≤ 1
  chunk : ∀ bytes, .data bytes ∈ call.outcomes → 1 ≤ bytes.length ∧ bytes.length ≤ 4096
  thrown : ∀ error, call.outcomes = [.threw error] → call.accepted = []

theorem Tidy.untouched {call : Call} (h : call.Untouched) : Tidy call where
  once := by simp [h.syscalls]
  chunk bytes mem := absurd mem (h.outcomes bytes)
  thrown _ _ := h.accepted

/-- A callback makes at most one system call; the data it returns is a chunk of 1
to 4096 bytes; when it throws, it leaves the process as it was. -/
theorem effect_callbackBody {w : World} {loop : Nat} {call : Call} {fd : Fd} {res : Evs}
    {r : SysResult} {fx : Effect} (body : callbackBody w loop call fd res r = some fx) :
    fx.syscalls.length ≤ 1 ∧
      (∀ bytes, fx.outcome = .data bytes → 1 ≤ bytes.length ∧ bytes.length ≤ 4096) ∧
      ∀ error, fx.outcome = .threw error → fx.world = w ∧ fx.accepted = [] := by
  cases callbackBody_cases body with
  | bytes k n kind notDue used some_ fits there =>
      refine ⟨by simp, ?_, by simp⟩
      rintro bytes ⟨⟩
      rw [List.length_take]
      omega
  | _ => simp

/-- A signal has no callback of this kind. -/
theorem not_signal_of_body {w : World} {loop : Nat} {call : Call} {fd : Fd} {res : Evs}
    {r : SysResult} {fx : Effect} (body : callbackBody w loop call fd res r = some fx) :
    call.kind.isSignal = false := by
  cases callbackBody_cases body with
  | timedOut r io notAccept due => exact Kind.not_signal_of_io io
  | timer r kind => rcases kind with kind | kind <;> rw [kind] <;> rfl
  | _ => simp_all [Kind.isSignal]

theorem tidy_step (sound : c.loop.Sound) (h : ∀ n ∈ c.loop.made, Tidy (c.loop.call n))
    (hs : c.step a = some c') : ∀ n ∈ c'.loop.made, Tidy (c'.loop.call n) := by
  intro n made
  obtain ⟨ns, made', new⟩ := new_calls sound hs
  rw [made', List.mem_append] at made
  rcases made with made | mem
  · rcases record_step sound hs made with eq | ⟨-, eq | eq⟩ | ⟨r, fx, -, next, body, rfl⟩
    · rw [eq]; exact h n made
    · rw [eq]; exact ⟨(h n made).once, (h n made).chunk, (h n made).thrown⟩
    · rw [eq]; exact ⟨(h n made).once, (h n made).chunk, (h n made).thrown⟩
    · have queued := queued_of_nextCall next
      have started := started_of_queued sound queued (not_signal_of_body body)
      have waiting := List.length_eq_zero_iff.mp started.resumed
      obtain ⟨once, chunk, thrown⟩ := effect_callbackBody body
      simp only [fired, withCall, Function.update_self]
      refine ⟨?_, fun bytes mem => ?_, fun error eq => ?_⟩
      · simp [Effect.settle, started.quiet.1, once]
      · simp only [Effect.settle, waiting, List.nil_append, List.mem_singleton] at mem
        exact chunk bytes mem.symm
      · simp only [Effect.settle, waiting, List.nil_append, List.cons.injEq, and_true] at eq
        simp [Effect.settle, started.quiet.2, (thrown error eq).2]
  · exact .untouched (new n mem).2.1

/-- Neither making a call on an object nor a callback that throws changes anything
in the process. -/
theorem world_of_thrown (sound : c.loop.Sound) (hs : c.step a = some c') :
    (a.target.isSome = true → c'.world = c.world) ∧
      (n ∈ c.loop.made → (c.loop.call n).outcomes = [] → ∀ error,
        (c'.loop.call n).outcomes = [.threw error] →
          c'.world = c.world ∧ (c'.loop.call n).accepted = []) := by
  refine ⟨fun some => ?_, fun made waiting error thrown => ?_⟩
  · cases step_cases hs with
    | start _ drives m kind o fd events w timeout env now alive new starts accept opens target =>
        cases starts with
        | connect address fd free inet =>
            rw [target] at some
            cases some
        | _ => rfl
    | _ => cases some
  · rcases record_step sound hs made with eq | ⟨-, eq | eq⟩ | ⟨r, fx, -, next, body, rfl⟩
    · rw [eq, waiting] at thrown
      cases thrown
    · rw [eq, Call.yielded, waiting] at thrown
      cases thrown
    · rw [eq, Call.torn, waiting] at thrown
      cases thrown
    · have queued := queued_of_nextCall next
      have started := started_of_queued sound queued (not_signal_of_body body)
      simp only [fired, withCall, Function.update_self] at thrown ⊢
      have outcome : fx.outcome = .threw error := by
        simpa [Effect.settle, waiting] using thrown
      obtain ⟨world, accepted⟩ := (effect_callbackBody body).2.2 error outcome
      exact ⟨world, by simp [Effect.settle, started.quiet.2, accepted]⟩

/-- The step of another loop. -/
theorem Bound.other {w' : World} (h : c.Bound)
    (keeps : ∀ o x, c.world.obj o = some x → x.loop = c.loop.self → w'.obj o = some x)
    (grows : c.world.nextObj ≤ w'.nextObj) : (c.dropped w').Bound where
  sound := ⟨h.sound.life, h.sound.regs.congr rfl rfl⟩
  known n made o own := Nat.lt_of_lt_of_le (h.known n made o own) grows
  waits n queued io := by
    obtain ⟨o, x, waits⟩ := h.waits n queued io
    exact ⟨o, x, waits.obj, keeps o x waits.live waits.home, waits.role, waits.home, waits.fd,
      waits.quiet⟩
  pipe alive := by
    obtain ⟨x, hx, role, home⟩ := h.pipe alive
    exact ⟨x, keeps _ x hx home, role, home⟩

/-- A step of one loop takes no object of another. -/
theorem obj_other (bound : c.Bound) (owned : c.world.Owned) (hs : c.step a = some c')
    (noClose : ∀ o, a ≠ .close o) {o : Nat} {x : Obj} (hx : c.world.obj o = some x)
    (away : x.loop ≠ c.loop.self) : c'.world.obj o = some x := by
  rcases step_opens hs with opens | ⟨o', rfl, -⟩ | ⟨o', rfl, may, hw⟩ | ⟨rfl, hw⟩
  · exact obj_opens opens owned.fresh hx
  · exact absurd rfl (noClose o')
  · have ne : o ≠ o' := by
      rintro rfl
      have := may.2
      simp [hx, away] at this
    rw [obj_deinit hw ne]
    exact hx
  · have ne : o ≠ c.loop.pipe := by
      rintro rfl
      cases step_cases hs with
      | free w alive torn hw' =>
          obtain ⟨y, hy, -, home⟩ := bound.pipe alive
          exact away ((Option.some.inj (hx.symm.trans hy)) ▸ home)
      | start _ drives => cases drives
    rw [obj_deinit hw ne]
    exact hx

/-- A loop that has just been created. -/
theorem bound_new {w : World} {self : Nat} {fd : Fd} {s : Sock} :
    Core.Bound ⟨w.openObj .pipe self fd s, Loop.new self w.nextObj fd⟩ where
  sound := sound_new self _ fd
  known n made := by cases made
  waits n queued := by simp [Loop.new, Base.new, Base.Queued] at queued
  pipe _ := ⟨_, Function.update_self .., rfl, rfl⟩

end Core

namespace Process

variable {p p' : Process} {os : List Nat}

/-! ## Two connected sockets -/

/-- `close()` is not called, and a call is made on one of the objects only when no
call on it waits for its resumption: each of them is used by one task at a time. -/
def Alone (os : List Nat) (p : Process) : Act → Prop
  | .newLoop _ _ => True
  | .core l a => a.isClose = false ∧
      ∀ lp ∈ p.loop l, ∀ o ∈ a.target, o ∈ os → Core.Unused ⟨p.world, lp⟩ o

instance (os : List Nat) (p : Process) : ∀ a, Decidable (p.Alone os a)
  | .newLoop _ _ => isTrue trivial
  | .core l a => inferInstanceAs (Decidable (a.isClose = false ∧
      ∀ lp ∈ p.loop l, ∀ o ∈ a.target, o ∈ os → Core.Unused ⟨p.world, lp⟩ o))

/-- **The process and its books.** -/
structure Integral (os : List Nat) (p : Process) : Prop where
  owned : p.world.Owned
  unclosed : ∀ o x, p.world.obj o = some x → x.closed = false
  homes : ∀ o x, p.world.obj o = some x → (p.loop x.loop).isSome = true
  self : ∀ l lp, p.loop l = some lp → lp.self = l
  bound : ∀ l lp, p.loop l = some lp → Core.Bound ⟨p.world, lp⟩
  tidy : ∀ l lp, p.loop l = some lp → ∀ n ∈ lp.made, Core.Tidy (lp.call n)
  books : ∃ sent received, p.world.Streams sent received ∧ ∀ o ∈ os, ∀ x lp,
    p.world.obj o = some x → p.loop x.loop = some lp → lp.Booked sent received o x.sock

theorem integral_init (os : List Nat) (endian : Endian) : (init endian).Integral os where
  owned := by constructor <;> simp [init, World.init]
  unclosed := by simp [init, World.init]
  homes := by simp [init, World.init]
  self := by simp [init]
  bound := by simp [init]
  tidy := by simp [init]
  books := ⟨_, _, World.Streams.init endian, by simp [init, World.init]⟩

/-- Nothing was closed, so nothing closed is carried. -/
theorem Integral.not_carried (h : p.Integral os) (fd : Fd) : p.world.carried fd = false := by
  simp only [World.carried, List.any_eq_false, List.mem_range]
  intro o _
  cases hx : p.world.obj o with
  | none => simp
  | some x => simp [h.unclosed o x hx]

theorem Integral.core (h : p.Integral os) {l : Nat} {lp : Loop} (hl : p.loop l = some lp)
    {a : Core.Act} {c' : Core} (hs : Core.step ⟨p.world, lp⟩ a = some c')
    (noClose : ∀ o, a ≠ .close o)
    (alone : ∀ o, a.target = some o → o ∈ os → Core.Unused ⟨p.world, lp⟩ o) :
    (p.put l c').Integral os := by
  have bound := h.bound l lp hl
  have self := h.self l lp hl
  have self' : c'.loop.self = l := (Core.ident_step hs).1.trans self
  have moves := Core.step_world hs
  obtain ⟨sent, received, streams, booked⟩ := h.books
  obtain ⟨sent', received', streams', mine, theirs⟩ := Core.booked_step bound h.owned h.unclosed
    streams (fun o mem x hx home => booked o mem x lp hx (by rw [home, self]; exact hl)) hs noClose
    alone
  refine ⟨h.owned.moves moves fun fd _ => h.not_carried fd, fun o x hx => ?_, fun o x hx => ?_,
    forall_put self' fun j lq ne hq => h.self j lq hq, forall_put ?_ fun j lq ne hq => ?_,
    forall_put ?_ fun j lq ne hq => h.tidy j lq hq,
    ⟨sent', received', streams', fun o mem x lp' hx hj => ?_⟩⟩
  · rcases Core.obj_back hs noClose hx with old | ⟨-, -, closed, -⟩
    · exact h.unclosed o x old
    · exact closed
  · apply p.isSome_put
    intro ne
    rcases Core.obj_back hs noClose hx with old | ⟨-, home, -⟩
    · exact h.homes o x old
    · exact absurd (home.trans self) ne
  · exact bound.step h.owned hs noClose
  · refine (h.bound j lq hq).other (fun o x hx home => ?_) (Core.nextObj_moves moves)
    refine Core.obj_other bound h.owned hs noClose hx ?_
    rw [home, h.self j lq hq, self]
    exact ne
  · exact Core.tidy_step bound.sound (h.tidy l lp hl) hs
  · refine forall_put (P := fun j lp => j = x.loop → lp.Booked sent' received' o x.sock)
      (fun home => mine o mem x hx (home.symm.trans self.symm)) (fun j lq ne hq home => ?_)
      x.loop lp' hj rfl
    subst home
    rcases Core.obj_back hs noClose hx with old | ⟨-, home, -⟩
    · have same := theirs o x old (by rw [self]; exact ne)
      exact (booked o mem x lq old hq).congr rfl (fun _ _ => rfl) same.1 same.2
    · exact absurd (home.trans self) ne

theorem Integral.newLoop (h : p.Integral os) {l : Nat} {pipeFd : Fd} {c : Core}
    (free : p.loop l = none) (hc : SwiftEvent.newLoop p.world l pipeFd = some c) :
    (p.put l c).Integral os := by
  rw [SwiftEvent.newLoop] at hc
  split at hc
  · next number =>
      cases hc
      have opens : World.Opens l p.world (p.world.openObj .pipe l pipeFd {}) (some pipeFd) :=
        .opened .pipe pipeFd _ number (Or.inl rfl) (World.same_install_openObj ..)
      have old : ∀ {o x}, (p.world.openObj .pipe l pipeFd {}).obj o = some x → x.loop ≠ l →
          p.world.obj o = some x := by
        intro o x hx ne
        rcases opens.obj_back hx with old | ⟨-, home, -⟩
        · exact old
        · exact absurd home ne
      -- no object belonged to the loop before
      have none : ∀ {o x}, p.world.obj o = some x → x.loop ≠ l := by
        rintro o x hx rfl
        have := h.homes o x hx
        rw [free] at this
        cases this
      obtain ⟨sent, received, streams, booked⟩ := h.books
      have streams' : (p.world.openObj .pipe l pipeFd {}).Streams sent received :=
        streams.openObj rfl rfl rfl
      refine ⟨h.owned.opens opens fun fd _ => h.not_carried fd, fun o x hx => ?_, fun o x hx => ?_,
        forall_put rfl fun j lq ne hq => h.self j lq hq, forall_put Core.bound_new fun j lq ne hq => ?_,
        forall_put (fun n made => by cases made) fun j lq ne hq => h.tidy j lq hq,
        ⟨sent, received, streams', fun o mem x lp' hx hj => ?_⟩⟩
      · rcases opens.obj_back hx with old | ⟨-, -, closed, -⟩
        · exact h.unclosed o x old
        · exact closed
      · apply p.isSome_put
        exact fun ne => h.homes o x (old hx ne)
      · exact (h.bound j lq hq).other (fun o x hx _ => Core.obj_opens opens h.owned.fresh hx)
          (Nat.le_succ _)
      · refine forall_put (P := fun j lp => j = x.loop → lp.Booked sent received o x.sock)
          (fun home => ?_) (fun j lq ne hq home => ?_) x.loop lp' hj rfl
        · rcases opens.obj_back hx with old | ⟨-, -, -, unused⟩
          · exact absurd home.symm (none old)
          · have silent : sent x.sock = [] ∧ received x.sock = [] := by
              rcases unused with new | ⟨s, mem⟩
              · rw [new]
                exact ⟨streams.next.1, streams.next.2.1⟩
              · exact ⟨(streams.pending s _ mem).2.1, (streams.pending s _ mem).2.2.1⟩
            exact ⟨silent.1.symm, silent.2.symm, fun n mem => by cases mem⟩
        · subst home
          exact (booked o mem x lq (old hx ne) hq).congr rfl (fun _ _ => rfl) rfl rfl
  · cases hc

/-- **Every step keeps the books**, under the condition. -/
theorem Integral.step (h : p.Integral os) {a : Act} (alone : p.Alone os a)
    (hs : p.step a = some p') : p'.Integral os := by
  cases a with
  | newLoop l pipeFd =>
      simp only [Process.step] at hs
      split at hs
      · next free =>
          obtain ⟨c, hc, rfl⟩ := Option.map_eq_some_iff.mp hs
          exact h.newLoop (Option.isNone_iff_eq_none.mp free) hc
      · cases hs
  | core l a =>
      obtain ⟨lp, hl, hs⟩ := Option.bind_eq_some_iff.mp hs
      obtain ⟨c', hc, rfl⟩ := Option.map_eq_some_iff.mp hs
      exact h.core hl hc (by rintro o rfl; cases alone.1)
        (fun o target mem => alone.2 lp hl o target mem)

theorem integral_run {endian : Endian} {as : List Act}
    (alone : StepSystem.Meets step (Alone os) (init endian) as)
    (run : StepSystem.run step (init endian) as = some p) : p.Integral os :=
  StepSystem.invariant_run_of_meets (P := Integral os)
    (fun _ _ _ h ok hs => h.step ok hs) (integral_init os endian) alone run

/-- **Byte-stream integrity.**  In every run without `close()` in which `A` and `B`
are each used by one task at a time, with anything else going on on any loops: when
the two are connected to each other,

* what the reads of `B` returned, in call order, is a prefix of what the kernel
  accepted from the writes of `A` that were resumed normally, in call order;
* every call has made at most one system call, every `Data` returned has 1 to 4096
  bytes, and nothing was accepted from a call that threw;
* neither the start of a call nor a callback that throws changes anything in the
  process, so it adds and consumes no byte. -/
theorem stream_integrity {endian : Endian} {as : List Act} {A B : Nat} {xA xB : Obj}
    {lA lB : Loop} (alone : StepSystem.Meets step (Alone [A, B]) (init endian) as)
    (run : StepSystem.run step (init endian) as = some p) (hA : p.world.obj A = some xA)
    (hB : p.world.obj B = some xB) (loopA : p.loop xA.loop = some lA)
    (loopB : p.loop xB.loop = some lB)
    (connected : (p.world.sock xA.sock).peer = some xB.sock) :
    lB.received B <+: lA.written A ∧
      (∀ l lp, p.loop l = some lp → ∀ n ∈ lp.made, (lp.call n).syscalls.length ≤ 1 ∧
        (∀ bytes, .data bytes ∈ (lp.call n).outcomes → 1 ≤ bytes.length ∧ bytes.length ≤ 4096) ∧
        ∀ error, (lp.call n).outcomes = [.threw error] → (lp.call n).accepted = []) ∧
      ∀ l lp a p' lp', p.loop l = some lp → p.step (.core l a) = some p' →
        p'.loop l = some lp' → (a.target.isSome = true → p'.world = p.world) ∧
          ∀ n ∈ lp.made, (lp.call n).outcomes = [] → ∀ error,
            (lp'.call n).outcomes = [.threw error] → p'.world = p.world := by
  have h := integral_run alone run
  obtain ⟨sent, received, streams, booked⟩ := h.books
  refine ⟨?_, fun l lp hl n made => ?_, fun l lp a p' lp' hl hs hl' => ?_⟩
  · rw [(booked B (by simp) xB lB hB loopB).received, (booked A (by simp) xA lA hA loopA).written]
    exact streams.pipes.received_prefix connected
  · have tidy := h.tidy l lp hl n made
    exact ⟨tidy.once, tidy.chunk, tidy.thrown⟩
  · simp only [step, hl, Option.bind_some] at hs
    obtain ⟨c', hc, rfl⟩ := Option.map_eq_some_iff.mp hs
    obtain rfl : c'.loop = lp' := by simpa [put] using hl'
    have quiet := fun n => Core.world_of_thrown (n := n) (h.bound l lp hl).sound hc
    exact ⟨(quiet 0).1, fun n made waiting error thrown =>
      ((quiet n).2 made waiting error thrown).1⟩

/-- A listener and a client of one process; the client writes three bytes, of which
the kernel takes two, then times out on a second write; the server reads one. -/
def exchange : List Act :=
  [ .newLoop 0 3, .newLoop 1 4, .core 0 (.listen (.ok 5)),
    .core 1 (.connect 0 (.anyIPv4 .little 80) (.ok 6 (some 2)) none {} ⟨0, 0⟩),
    .core 0 (.accept 0 2 {} ⟨0, 0⟩), .core 0 (.dispatch [(5, { epollin := true })] ⟨1, 0⟩ []),
    .core 0 (.callback (.fd 7)), .core 1 (.write 1 3 [10, 20, 30] none {} ⟨1, 0⟩),
    .core 1 (.dispatch [(6, { epollout := true })] ⟨1, 0⟩ []), .core 1 (.callback (.bytes 2)),
    .core 0 (.read 1 4 none {} ⟨1, 0⟩), .core 0 (.dispatch [(7, { epollin := true })] ⟨2, 0⟩ []),
    .core 1 (.write 2 3 [40] (some ⟨10 ^ 18⟩) {} ⟨1, 0⟩),
    .core 1 (.dispatch [] ⟨3, 0⟩ [.call 2]), .core 0 (.callback (.bytes 1)),
    .core 1 (.callback .nothing) ]

theorem stream_integrity_exchange :
    ∃ p lA lB, StepSystem.run step (init .little) exchange = some p ∧
      StepSystem.Meets step (Alone [3, 4]) (init .little) exchange ∧
      p.loop 1 = some lA ∧ p.loop 0 = some lB ∧ lA.written 3 = [10, 20] ∧
      lB.received 4 = [10] ∧ (lA.call 2).outcomes = [.threw .timeout] ∧
      lB.received 4 <+: lA.written 3 := by
  have facts : (StepSystem.run step (init .little) exchange).bind (fun p =>
      (p.loop 1).bind fun lA => (p.loop 0).bind fun lB => (p.world.obj 3).bind fun xA =>
        (p.world.obj 4).map fun xB =>
          (decide (lA.written 3 = [10, 20] ∧ lB.received 4 = [10]),
            decide ((lA.call 2).outcomes = [.threw .timeout]), xA.loop, xB.loop,
            decide ((p.world.sock xA.sock).peer = some xB.sock))) =
      some (true, true, 1, 0, true) := by decide +kernel
  have alone : StepSystem.Meets step (Alone [3, 4]) (init .little) exchange := by decide +kernel
  obtain ⟨p, run, facts⟩ := Option.bind_eq_some_iff.mp facts
  obtain ⟨lA, loopA, facts⟩ := Option.bind_eq_some_iff.mp facts
  obtain ⟨lB, loopB, facts⟩ := Option.bind_eq_some_iff.mp facts
  obtain ⟨xA, hA, facts⟩ := Option.bind_eq_some_iff.mp facts
  obtain ⟨xB, hB, facts⟩ := Option.map_eq_some_iff.mp facts
  simp only [Prod.mk.injEq, decide_eq_true_eq] at facts
  obtain ⟨⟨written, received⟩, thrown, homeA, homeB, connected⟩ := facts
  exact ⟨p, lA, lB, run, alone, loopA, loopB, written, received, thrown,
    (stream_integrity alone run hA hB (by rw [homeA]; exact loopA) (by rw [homeB]; exact loopB)
      connected).1⟩

end Process

end SwiftEvent
