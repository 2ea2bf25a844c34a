import SwiftEvent.Without
import SwiftEvent.Accepts
import SwiftEvent.Reuse
import SwiftEvent.Signals

/-!
# A step and the same step without one call

A loop in which a call waits, and the same loop without that call (`Without`):
every step of the one is a step of the other, or none.

* `Act.without` takes one call out of a step.  Its own callback is gone; the
  multiplexer reports nothing that only this call waited for; and where the call
  had already made the multiplexer watch a direction, it has to be asked by the
  next call that waits for it, and grants it.
* Every step keeps the relation (`Without.step`), if the call does not end
  otherwise than by its timeout.

Two things are asked for.  The multiplexer watches what the evmap counts, which
it does as long as no number is closed on which an event waits (`Regular`).  And
the 16-bit counters of the call's descriptor have room for one more event.
-/

namespace SwiftEvent.Core

variable {c c' d d' : Core} {n m : Nat} {a : Act}

/-- `d` is `c` without the call `n`. -/
structure Without (n : Nat) (c d : Core) : Prop where
  world : d.world = c.world
  self : d.loop.self = c.loop.self
  pipe : d.loop.pipe = c.loop.pipe
  reg : d.loop.reg = c.loop.reg
  nextReg : d.loop.nextReg = c.loop.nextReg
  alive : d.loop.alive = c.loop.alive
  made : ∀ m, m ≠ n → (m ∈ d.loop.made ↔ m ∈ c.loop.made)
  call : ∀ m, m ≠ n → d.loop.call m = c.loop.call m
  /-- Where `d` knows the call at all, it is over. -/
  settled : n ∈ d.loop.made → (d.loop.call n).outcomes ≠ []
  free : ∀ r, n ∉ (c.loop.reg r).events
  base : Base.Without (.call n) c.loop.base d.loop.base

/-- The new calls of a step. -/
def Act.names : Act → List Nat
  | .connect n .. | .read n .. | .write n .. | .accept n .. | .schedule n .. => [n]
  | .signalStream args => args.map (·.n)
  | _ => []

/-- What the surroundings decide about the call `m` of a step, if `n` is not there: a direction
that `n` had made the multiplexer watch is granted to `m`. -/
def granted (c : Core) (n m : Nat) (a : Act) (env : Base.AddEnv) : Base.AddEnv :=
  if .call n ∈ c.loop.base.inserted ∧ (c.step a).any (fun c' => (c'.loop.call m).added) = true then
    { env with reject := none }
  else env

/-- A step, taken without the call `n`; none at all if it was the callback of `n`. -/
def Act.without (n : Nat) (c : Core) : Act → Option Act
  | .connect m address r timeout env now =>
      some (.connect m address r timeout
        (c.granted n m (.connect m address r timeout env now) env) now)
  | .read m o timeout env now =>
      some (.read m o timeout (c.granted n m (.read m o timeout env now) env) now)
  | .write m o data timeout env now =>
      some (.write m o data timeout (c.granted n m (.write m o data timeout env now) env) now)
  | .accept m o env now => some (.accept m o (c.granted n m (.accept m o env now) env) now)
  | .dispatch ready now order =>
      some (.dispatch (ready.filterMap (c.loop.base.reportWithout (.call n))) now
        (unlink order (.call n)))
  | .callback r => if c.nextCall = some n then none else some (.callback r)
  | a => some a

namespace Without

theorem opened (h : Without n c d) : d.opened = c.opened := by
  rw [Core.opened, Core.opened, h.world]

theorem object (h : Without n c d) : d.object = c.object := by
  funext role o
  rw [Core.object, Core.object, h.world, h.self]

/-- Both processes become `w`. -/
theorem withWorld (h : Without n c d) (w : World) :
    Without n { c with world := w } { d with world := w } :=
  { h with world := rfl }

theorem withBase (h : Without n c d) {b b' : Base} (base : Base.Without (.call n) b b') :
    Without n (c.withBase b) (d.withBase b') :=
  { h with base }

/-- The record of another call changes. -/
theorem withCall (h : Without n c d) (ne : m ≠ n) (call : Call) :
    Without n (c.withCall m call) (d.withCall m call) where
  world := h.world
  self := h.self
  pipe := h.pipe
  reg := h.reg
  nextReg := h.nextReg
  alive := h.alive
  made := h.made
  call k other := by
    by_cases eq : k = m
    · simp [Core.withCall, eq]
    · simpa [Core.withCall, eq] using h.call k other
  settled := by
    simpa [Core.withCall, Ne.symm ne] using h.settled
  free := h.free
  base := h.base

/-- Another call is recorded. -/
theorem record (h : Without n c d) (ne : m ≠ n) (call : Call) :
    Without n (c.record m call) (d.record m call) :=
  { h.withCall ne call with
    made := by
      intro k other
      show k ∈ d.loop.made ++ [m] ↔ k ∈ c.loop.made ++ [m]
      rw [List.mem_append, List.mem_append, h.made k other]
    settled := by
      intro mem
      have old : n ∈ d.loop.made :=
        (List.mem_append.mp mem).resolve_right fun new => ne (List.mem_singleton.mp new).symm
      exact (h.withCall ne call).settled old }

theorem queued (h : Without n c d) (ne : m ≠ n) :
    d.loop.base.Queued (.call m) ↔ c.loop.base.Queued (.call m) := by
  have other : EvId.call m ≠ .call n := fun eq => ne (EvId.call.inj eq)
  rw [Base.Queued, Base.Queued, h.base.inserted, h.base.timeheap, h.base.activequeue]
  simp only [mem_unlink, other, ne_eq, not_false_eq_true, and_true]

/-! ## Calls -/

/-- The new event of another call. -/
theorem eventBase (h : Without n c d) (ne : m ≠ n) (v : Event) :
    Base.Without (.call n) (c.eventBase m v) (d.eventBase m v) :=
  h.base.assign (fun eq => ne (EvId.call.inj eq)) v

/-- A new event takes no room. -/
theorem roomy_eventBase (new : ¬ c.loop.base.Queued (.call m)) (v : Event)
    (roomy : c.loop.base.Roomy (.call n)) : (c.eventBase m v).Roomy (.call n) := by
  intro mem
  have shape := c.shape_eventBase new v
  have own := (Event.shape_eq (shape _ mem)).1
  have rd : ∀ fd, (c.eventBase m v).nread fd = c.loop.base.nread fd := Base.nread_congr rfl shape
  have wr : ∀ fd, (c.eventBase m v).nwrite fd = c.loop.base.nwrite fd :=
    Base.nwrite_congr rfl shape
  rw [own, rd, wr]
  exact roomy mem

/-- **What is accepted with the call is accepted without it.** -/
theorem accepts (h : Without n c d) (ne : m ≠ n) (new : ¬ c.loop.base.Queued (.call m))
    (roomy : c.loop.base.Roomy (.call n))
    (opened : ∀ e ∈ c.loop.base.inserted, (c.loop.base.ev e).evEvents.isIo = true →
      c.opened (c.loop.base.ev e).evFd = true)
    {v : Event} (io : v.evEvents.isIo = true) {env env' : Base.AddEnv} {tv : Option Timeval}
    (heap : env'.heapFull = env.heapFull)
    (reject : env'.reject =
      if .call n ∈ c.loop.base.inserted ∧ (c.eventBase m v).Accepts c.opened env (.call m) tv then
        none else env.reject) :
    (d.eventBase m v).Accepts d.opened env' (.call m) tv ↔
      (c.eventBase m v).Accepts c.opened env (.call m) tv := by
  have shape := c.shape_eventBase new v
  have isOpen : (c.eventBase m v).Admits c.opened env.reject (.call m) →
      c.opened ((c.eventBase m v).ev (.call m)).evFd = true := by
    intro admits
    refine admits.isOpen (by simpa using io) fun e mem isIo => ?_
    obtain ⟨fd, events, -⟩ := Event.shape_eq (shape e mem)
    rw [events] at isIo
    rw [fd]
    exact opened e mem isIo
  have admits := (h.eventBase ne v).admits (fun eq => ne (EvId.call.inj eq))
    (roomy_eventBase new v roomy) isOpen
  rw [h.opened, Base.Accepts, heap, reject]
  by_cases full : tv.isSome = true ∧ env.heapFull = true
  · constructor
    · exact fun may => absurd full may.1
    · exact fun may => absurd full may.1
  · have same : (c.eventBase m v).Accepts c.opened env (.call m) tv ↔
        (c.eventBase m v).Admits c.opened env.reject (.call m) := and_iff_right full
    simp only [same]
    rw [and_iff_right full]
    exact admits

/-- Another call starts to wait for a descriptor. -/
theorem start (h : Without n c d) (ne : m ≠ n) (new : ¬ c.loop.base.Queued (.call m))
    (roomy : c.loop.base.Roomy (.call n))
    (opened : ∀ e ∈ c.loop.base.inserted, (c.loop.base.ev e).evEvents.isIo = true →
      c.opened (c.loop.base.ev e).evFd = true)
    (call : Call) (fd : Fd) {events : Evs} (io : events.isIo = true) (timeout : Option Duration)
    {env env' : Base.AddEnv} (now : Timeval) (heap : env'.heapFull = env.heapFull)
    (reject : env'.reject =
      if .call n ∈ c.loop.base.inserted ∧
          ((c.startIo m call fd events timeout env now).loop.call m).added = true then none
      else env.reject) :
    Without n (c.startIo m call fd events timeout env now)
      (d.startIo m call fd events timeout env' now) := by
  have other : EvId.call m ≠ .call n := fun eq => ne (EvId.call.inj eq)
  have new' : ¬ d.loop.base.Queued (.call m) := fun queued => new ((h.queued ne).mp queued)
  have fresh := h.eventBase ne { evFd := fd, evEvents := events }
  have started := c.startIo_eq call fd timeout env now new io
  have started' := d.startIo_eq call fd timeout env' now new' io
  dsimp only at started started'
  have added : ((c.startIo m call fd events timeout env now).loop.call m).added = true ↔
      (c.eventBase m { evFd := fd, evEvents := events }).Accepts c.opened env (.call m)
        (timeout.map timevalFor) := by
    rw [started]
    split
    · next may => simp [Core.record, may]
    · next may => simp [Core.record, may]
  simp only [added] at reject
  have isIo : ({ evFd := fd, evEvents := events } : Event).evEvents.isIo = true := io
  have accepts := h.accepts ne new roomy opened isIo heap reject
  rw [started, started', h.world]
  by_cases may : (c.eventBase m { evFd := fd, evEvents := events }).Accepts c.opened env (.call m)
      (timeout.map timevalFor)
  · rw [if_pos may, if_pos (accepts.mpr may)]
    refine (h.withBase ?_).record ne _
    exact (fresh.insert other _ _).withTimeout other now _
  · rw [if_neg may, if_neg (fun may' => may (accepts.mp may'))]
    exact (h.withBase fresh).record ne _

/-- Another call connects. -/
theorem connect (h : Without n c d) (ne : m ≠ n) (new : ¬ c.loop.base.Queued (.call m))
    (roomy : c.loop.base.Roomy (.call n)) (wired : c.Wired) {address : SocketAddress}
    {r : ConnectResult} {timeout : Option Duration} {env env' : Base.AddEnv} {now : Timeval}
    (heap : env'.heapFull = env.heapFull)
    (reject : env'.reject =
      if .call n ∈ c.loop.base.inserted ∧ (c'.loop.call m).added = true then none
      else env.reject)
    (hs : c.connect m address r timeout env now = some c') :
    ∃ d', d.connect m address r timeout env' now = some d' ∧ Without n c' d' := by
  cases r with
  | socketFails errno =>
      cases hs
      exact ⟨_, rfl, h.record ne _⟩
  | ok fd listener =>
      rw [Core.connect] at hs ⊢
      rw [h.world, h.self]
      dsimp only at hs ⊢
      split at hs
      · next may =>
          obtain ⟨w, established, rfl⟩ := Option.map_eq_some_iff.mp hs
          rw [if_pos may, established]
          exact ⟨_, rfl, (h.withWorld w).record ne _⟩
      · cases hs
  | fails fd errno =>
      rw [Core.connect] at hs ⊢
      rw [h.world, h.self]
      dsimp only at hs ⊢
      split at hs
      · next may =>
          obtain ⟨w, failed, rfl⟩ := Option.map_eq_some_iff.mp hs
          rw [if_pos may, failed]
          exact ⟨_, rfl, (h.withWorld w).record ne _⟩
      · cases hs
  | inProgress fd =>
      rw [Core.connect] at hs ⊢
      rw [h.world, h.self]
      dsimp only at hs ⊢
      split at hs
      · next may =>
          cases hs
          rw [if_pos may]
          have grown := h.withWorld (c.world.openObj .socket c.loop.self fd
            { family := .inet, conn := .connecting })
          have wired' := wired.world (w := c.world.openObj .socket c.loop.self fd
            { family := .inet, conn := .connecting }) fun {fd' k} used => by
              have other : fd' ≠ fd := by
                rintro rfl
                rw [may.1.2] at used
                cases used
              show Function.update c.world.table fd _ fd' = some k
              rw [Function.update_of_ne other]
              exact used
          exact ⟨_, rfl, grown.start ne new roomy (fun e mem io => wired'.opened mem io) _ fd rfl
            timeout now heap reject⟩
      · cases hs

/-- Another timer is set. -/
theorem schedule (h : Without n c d) (ne : m ≠ n) (new : ¬ c.loop.base.Queued (.call m))
    (kind : Kind) (duration : Duration) (nomem : Bool) (env : Base.AddEnv) (now : Timeval) :
    Without n (c.schedule m kind duration nomem env now)
      (d.schedule m kind duration nomem env now) := by
  have other : EvId.call m ≠ .call n := fun eq => ne (EvId.call.inj eq)
  have new' : ¬ d.loop.base.Queued (.call m) := fun queued => new ((h.queued ne).mp queued)
  have fresh := h.eventBase ne {}
  have timer : (c.eventBase m {}).eventAddNolock c.opened env now (.call m)
      (some (timevalFor duration)) = _ :=
    Base.eventAddNolock_timer (by simp) (by simpa using new) (timevalFor duration)
  have timer' : (d.eventBase m {}).eventAddNolock d.opened env now (.call m)
      (some (timevalFor duration)) = _ :=
    Base.eventAddNolock_timer (by simp) (by simpa using new') (timevalFor duration)
  dsimp only [Core.schedule]
  by_cases memory : nomem = true
  · rw [if_pos memory, if_pos memory]
    exact h.record ne _
  · rw [if_neg memory, if_neg memory]
    by_cases later : evutilTimerisset (timevalFor duration) = true
    · rw [if_pos later, if_pos later]
      rw [show (c.eventNew m {}).loop.base = c.eventBase m {} from rfl,
        show (c.eventNew m {}).opened = c.opened from rfl, timer,
        show (d.eventNew m {}).loop.base = d.eventBase m {} from rfl,
        show (d.eventNew m {}).opened = d.opened from rfl, timer']
      by_cases full : env.heapFull = true
      · rw [if_pos full, if_pos full]
        exact (h.withBase fresh).record ne _
      · rw [if_neg full, if_neg full]
        exact (h.withBase (fresh.withTimeout other now _)).record ne _
    · rw [if_neg later, if_neg later]
      exact (h.withBase (fresh.active other _ _)).record ne _

/-- A registration is handed another event. -/
theorem append (h : Without n c d) (ne : m ≠ n) (r : Nat) :
    Without n (c.append r m) (d.append r m) :=
  { h with
    reg := by
      rw [Core.append, Core.append, h.reg]
    free := by
      intro r' held
      rcases (mem_append_events c r m r' n).mp held with held | ⟨-, eq⟩
      · exact h.free r' held
      · exact ne eq.symm }

/-- The event of a stream has been added, or not. -/
theorem signalled (h : Without n c d) (ne : m ≠ n) (r : Nat) (call : Bool → Call)
    {add add' : Bool × Base} (same : add'.1 = add.1)
    (base : Base.Without (.call n) add.2 add'.2) :
    Without n (((c.withBase add.2).record m (call add.1)).append r m)
      (((d.withBase add'.2).record m (call add'.1)).append r m) := by
  rw [same]
  exact ((h.withBase base).record ne _).append ne r

/-- One round of `signalStream`. -/
theorem signalOne {r : Nat} {arg : SignalArg} (h : Without n c d) (ne : arg.n ≠ n)
    (alone : .call n ∈ c.loop.base.inserted →
      (c.loop.base.ev (.call n)).evFd ≠ (c.loop.base.ev .signalPipe).evFd)
    (new : arg.n ∉ c.loop.made → ¬ c.loop.base.Queued (.call arg.n))
    (hs : c.signalOne r arg = some c') :
    ∃ d', d.signalOne r arg = some d' ∧ Without n c' d' := by
  have other : EvId.call arg.n ≠ .call n := fun eq => ne (EvId.call.inj eq)
  have fresh := h.eventBase ne (signalEvent arg.signum)
  rw [Core.signalOne] at hs ⊢
  split at hs
  · cases hs
  · next unmade =>
      have unmade' : arg.n ∉ d.loop.made := fun mem => unmade ((h.made _ ne).mp mem)
      have notQueued := new unmade
      have notQueued' : ¬ d.loop.base.Queued (.call arg.n) := fun queued =>
        notQueued ((h.queued ne).mp queued)
      rw [if_neg unmade']
      dsimp only at hs ⊢
      by_cases memory : arg.nomem = true
      · rw [if_pos memory] at hs ⊢
        cases hs
        exact ⟨_, rfl, h.record ne _⟩
      · rw [if_neg memory] at hs ⊢
        cases hs
        refine ⟨_, rfl, ?_⟩
        have add : (c.eventBase arg.n (signalEvent arg.signum)).eventAddNolock c.opened arg.env
            ⟨0, 0⟩ (.call arg.n) none = _ :=
          Base.eventAddNolock_signal (by simp [signalEvent]) (by simpa using notQueued)
        have add' : (d.eventBase arg.n (signalEvent arg.signum)).eventAddNolock d.opened arg.env
            ⟨0, 0⟩ (.call arg.n) none = (d.eventBase arg.n (signalEvent arg.signum)).evmapSignalAdd
              c.opened arg.env (.call arg.n) := by
          rw [← h.opened]
          exact Base.eventAddNolock_signal (by simp [signalEvent]) (by simpa using notQueued')
        have apart : .call n ∈ (c.eventBase arg.n (signalEvent arg.signum)).inserted →
            ((c.eventBase arg.n (signalEvent arg.signum)).ev (.call n)).evFd ≠
              ((c.eventBase arg.n (signalEvent arg.signum)).ev .signalPipe).evFd := by
          simpa [Core.eventBase, Ne.symm ne] using alone
        have caught : _ ∧ Base.Without (.call n)
            ((c.eventBase arg.n (signalEvent arg.signum)).evmapSignalAdd c.opened arg.env
              (.call arg.n)).2 _ := fresh.evmapSignalAdd other (by simp) arg.env apart
        rw [← add, ← add'] at caught
        exact h.signalled ne r
          (fun added => { kind := .signal arg.signum, boxed := true, added, allocs := 1 })
          caught.1 caught.2

/-- The call does not wait on the descriptor of the signal pipe. -/
theorem alone (h : Without n c d) (pipe : c.PipeAlone) (alive : c.loop.alive = true)
    (mem : .call n ∈ c.loop.base.inserted) :
    (c.loop.base.ev (.call n)).evFd ≠ (c.loop.base.ev .signalPipe).evFd :=
  pipe.apart alive n (Or.inl mem) (h.base.io mem).1

/-- The rounds of `signalStream`. -/
theorem signalAll {r : Nat} {args : List SignalArg} (h : Without n c d)
    (names : ∀ arg ∈ args, arg.n ≠ n) (streaming : c.Streaming r) (pipe : c.PipeAlone)
    (hs : signalAll r c args = some c') :
    ∃ d', signalAll r d args = some d' ∧ Without n c' d' := by
  induction args generalizing c d with
  | nil =>
      cases hs
      exact ⟨d, rfl, h⟩
  | cons arg args ih =>
      obtain ⟨c₁, one, rest⟩ := Option.bind_eq_some_iff.mp hs
      obtain ⟨d₁, one', h₁⟩ := h.signalOne (names arg List.mem_cons_self)
        (h.alone pipe streaming.alive) streaming.sound.not_queued one
      obtain ⟨d', rest', h'⟩ := ih h₁ (fun arg mem => names arg (List.mem_cons_of_mem _ mem))
        (moves_signalOne streaming one).1 (pipe.signalOne streaming one) rest
      exact ⟨d', Option.bind_eq_some_iff.mpr ⟨d₁, one', rest'⟩, h'⟩

theorem signalStream {args : List SignalArg} (h : Without n c d) (sound : c.loop.Sound)
    (pipe : c.PipeAlone) (alive : c.loop.alive = true) (names : ∀ arg ∈ args, arg.n ≠ n)
    (hs : c.signalStream args = some c') :
    ∃ d', d.signalStream args = some d' ∧ Without n c' d' := by
  rw [Core.signalStream, h.nextReg]
  refine signalAll ?_ names (streaming_start sound alive).1
    ⟨pipe.events, pipe.added, pipe.reserved, pipe.apart⟩ hs
  exact { h with nextReg := rfl }

/-- A round of `tearDown`. -/
theorem tearDownOne (h : Without n c d) (ne : m ≠ n) :
    Without n (c.tearDownOne m) (d.tearDownOne m) := by
  rw [Core.tearDownOne, Core.tearDownOne, h.opened, h.call m ne]
  exact (h.withBase (h.base.del fun eq => ne (EvId.call.inj eq))).withCall ne _

theorem tearDown (h : Without n c d) (r : Nat) : Without n (c.tearDown r) (d.tearDown r) := by
  have rounds : ∀ (ns : List Nat) (c d : Core), (∀ m ∈ ns, m ≠ n) → Without n c d →
      Without n (ns.foldl Core.tearDownOne c) (ns.foldl Core.tearDownOne d) := by
    intro ns
    induction ns with
    | nil =>
        intro c d _ h
        exact h
    | cons m ns ih =>
        intro c d others h
        exact ih _ _ (fun k mem => others k (List.mem_cons_of_mem _ mem))
          (h.tearDownOne (others m List.mem_cons_self))
  have others : ∀ m ∈ (c.loop.reg r).events, m ≠ n := by
    rintro m held rfl
    exact h.free r held
  have torn := rounds _ c d others h
  rw [Core.tearDown, Core.tearDown, h.reg]
  split
  · exact h
  · exact { torn with
      reg := by
        show Function.update _ r _ = Function.update _ r _
        rw [torn.reg]
      free := by
        intro r' held
        simp only at held
        by_cases eq : r' = r
        · subst eq
          rw [Function.update_self] at held
          exact absurd held List.not_mem_nil
        · rw [Function.update_of_ne eq] at held
          exact torn.free r' held }

/-! ## The process -/

theorem whenAlive (h : Without n c d) (alive : c.loop.alive = true) (next : Option Core) :
    d.whenAlive next = next :=
  if_pos (h.alive.trans alive)

theorem whenNew (h : Without n c d) (ne : m ≠ n) (alive : c.loop.alive = true)
    (fresh : m ∉ c.loop.made) (next : Option Core) : d.whenNew m next = next :=
  if_pos ⟨h.alive.trans alive, fun made => fresh ((h.made m ne).mp made)⟩

/-- A number is closed. -/
theorem dropped (h : Without n c d) (w : World) : Without n (c.dropped w) (d.dropped w) :=
  { h with
    world := rfl
    base := { h.base with } }

/-- An object that is not in use with the call is not in use without it. -/
theorem unused (h : Without n c d) {o : Nat} (unused : c.Unused o) : d.Unused o := by
  intro m made own
  by_cases eq : m = n
  · subst eq
    exact h.settled made
  · rw [h.call m eq] at own ⊢
    exact unused m ((h.made m eq).mp made) own

/-- The loop is gone. -/
theorem freed (h : Without n c d) (w : World) : Without n (c.freed w) (d.freed w) :=
  { h with
    world := rfl
    alive := rfl
    base := { h.base with
      inserted := rfl
      timeheap := rfl
      activequeue := rfl
      repeating := rfl
      apart := by simp [Core.freed]
      io := fun mem => absurd mem List.not_mem_nil } }

/-! ## Passes and callbacks -/

/-- What the multiplexer would report it can report, if it watches what the evmap counts. -/
theorem reports (h : Without n c d) (watches : ∀ fd, d.loop.base.Watches fd)
    {ready : List (Fd × Base.EpollReport)} (reported : ready.all c.reports = true) :
    (ready.filterMap (c.loop.base.reportWithout (.call n))).all d.reports = true := by
  rw [List.all_eq_true] at reported ⊢
  intro r' mem
  obtain ⟨r, there, left⟩ := List.mem_filterMap.mp mem
  have possible := reported r there
  rw [h.base.reportWithout_eq] at left
  split at left
  · next isSet =>
      cases left
      have watched : d.loop.base.epoll r.1 = some (d.loop.base.oldEvents r.1) := by
        rw [watches r.1, EpollEvents.registration, if_pos isSet]
      rw [Core.reports, Option.any_eq_true] at possible ⊢
      obtain ⟨events, -, possible⟩ := possible
      refine ⟨_, watched, ?_⟩
      rw [h.world]
      rw [Option.any_eq_true] at possible ⊢
      obtain ⟨k, used, possible⟩ := possible
      refine ⟨k, used, ?_⟩
      simp only [Bool.and_eq_true, Bool.or_eq_true] at possible ⊢
      obtain ⟨-, decided⟩ := possible
      refine ⟨⟨?_, ?_⟩, ?_⟩
      · cases (d.loop.base.oldEvents r.1).epollin <;> simp
      · cases (d.loop.base.oldEvents r.1).epollout <;> simp
      · refine decided.imp_right fun quiet => ⟨⟨?_, quiet.1.2⟩, quiet.2⟩
        cases out : r.2.epollout with
        | false => rfl
        | true => simp [out] at quiet
  · cases left

/-- A pass. -/
theorem dispatch {ready : List (Fd × Base.EpollReport)} {now : Timeval} {order : List EvId}
    (h : Without n c d) (watches : ∀ fd, d.loop.base.Watches fd)
    (past : d.loop.base.pass ≤ now) (hs : c.dispatch ready now order = some c') :
    ∃ d', d.dispatch (ready.filterMap (c.loop.base.reportWithout (.call n))) now
      (unlink order (.call n)) = some d' ∧ Without n c' d' := by
  rw [Core.dispatch] at hs
  split at hs
  · next may =>
      obtain ⟨b, pass, rfl⟩ := Option.map_eq_some_iff.mp hs
      obtain ⟨b', pass', base⟩ := h.base.dispatchPass pass
      refine ⟨d.withBase b', ?_, h.withBase base⟩
      rw [Core.dispatch, if_pos, h.opened, pass']
      · rfl
      · rw [h.base.repeating]
        exact ⟨h.reports watches may.1, past, may.2.2⟩
  · cases hs

/-- A pass that activates nothing else need not be made without the call. -/
theorem skip {ready : List (Fd × Base.EpollReport)} {now : Timeval} {order : List EvId}
    (h : Without n c d) (watches : ∀ fd, d.loop.base.Watches fd)
    (past : d.loop.base.pass ≤ now) (hs : c.dispatch ready now order = some c')
    (alone : ∀ e ∈ c'.loop.base.activequeue, e = .call n) : Without n c' d := by
  obtain ⟨d', pass, h'⟩ := h.dispatch watches past hs
  rw [Core.dispatch] at pass
  split at pass
  · obtain ⟨b', passes, rfl⟩ := Option.map_eq_some_iff.mp pass
    have idle : b'.activequeue = [] := by
      refine List.eq_nil_iff_forall_not_mem.mpr fun e mem => ?_
      have mem' : e ∈ unlink c'.loop.base.activequeue (.call n) := by
        rw [← h'.base.activequeue]
        exact mem
      obtain ⟨mem', ne⟩ := mem_unlink.mp mem'
      exact ne (alone e mem')
    rw [Base.dispatchPass_idle passes idle] at h'
    exact { h' with base := { h'.base with } }
  · cases pass

/-- A round of a signal's callback. -/
theorem yield (h : Without n c d) (ne : m ≠ n) (left : Nat) :
    Without n (c.yield m left) (d.yield m left) := by
  rw [Core.yield, Core.yield, h.call m ne]
  refine (h.withBase ?_).withCall ne _
  exact
    { h.base with
      repeating := rfl
      apart := by
        split
        · simp
        · simpa using ne }

/-- The callback of another call. -/
theorem fired (h : Without n c d) (ne : m ≠ n) (fx : Effect) :
    Without n (c.fired m fx) (d.fired m fx) := by
  rw [Core.fired, Core.fired, h.opened, h.call m ne]
  have base : Base.Without (.call n) (c.loop.base.eventDelNolock c.opened (.call m)) _ :=
    h.base.del fun eq => ne (EvId.call.inj eq)
  exact ((h.withBase base).withCall ne _).withWorld fx.world

/-- The callback of the call itself, if it does nothing to the process. -/
theorem fired_self (h : Without n c d) {fx : Effect} (world : fx.world = c.world) :
    Without n (c.fired n fx) d :=
  { h with
    world := h.world.trans world.symm
    call := by
      intro m ne
      show d.loop.call m = Function.update c.loop.call n _ m
      rw [Function.update_of_ne ne]
      exact h.call m ne
    base := h.base.del_self }

/-- The queue without the call. -/
theorem queue (h : Without n c d) {e : EvId} {rest : List EvId} (ne : e ≠ .call n)
    (queue : c.loop.base.activequeue = e :: rest) :
    d.loop.base.activequeue = e :: unlink rest (.call n) ∧
      Base.Without (.call n) { c.loop.base with activequeue := rest }
        { d.loop.base with activequeue := unlink rest (.call n) } := by
  constructor
  · rw [h.base.activequeue, queue, unlink_cons_of_ne ne]
  · exact { h.base with activequeue := rfl }

/-- **A callback**, of the call itself or of another. -/
theorem callback {r : SysResult} (h : Without n c d) (sound : c.loop.Sound)
    (hs : c.step (.callback r) = some c')
    (ended : c.nextCall = some n → ∀ out ∈ (c'.loop.call n).outcomes, out = .threw .timeout) :
    if c.nextCall = some n then Without n c' d
    else ∃ d', d.step (.callback r) = some d' ∧ Without n c' d' := by
  have held : ∀ {k}, c.nextCall = some k → (c.loop.call k).kind.isSignal = true → k ≠ n := by
    rintro k next signal rfl
    obtain ⟨r, held⟩ := held_of_signal sound (queued_of_nextCall next) signal
    exact h.free r held
  cases step_cases hs with
  | start _ drives => cases drives
  | pipe r rest alive quiet queue =>
      have next : c.nextCall ≠ some n := by simp [nextCall, quiet, queue]
      obtain ⟨queue', base⟩ := h.queue (by simp) queue
      rw [if_neg next]
      refine ⟨_, ?_, h.withBase base.evsigCb⟩
      show d.whenAlive (d.callback r) = _
      rw [h.whenAlive alive]
      simp only [Core.callback, h.base.repeating, quiet, queue']
  | skip r k rest alive quiet queue signal ncalls =>
      have next := nextCall_of_queue quiet queue
      have ne := held next signal
      have ne' : EvId.call k ≠ .call n := fun eq => ne (EvId.call.inj eq)
      obtain ⟨queue', base⟩ := h.queue ne' queue
      rw [next, if_neg (fun eq => ne (Option.some.inj eq))]
      refine ⟨_, ?_, h.withBase base⟩
      show d.whenAlive (d.callback r) = _
      rw [h.whenAlive alive]
      simp only [Core.callback, h.base.repeating, quiet, queue', h.call k ne, signal, if_true,
        h.base.ev _ ne', ncalls]
  | yield r k left rest alive quiet queue signal ncalls =>
      have next := nextCall_of_queue quiet queue
      have ne := held next signal
      have ne' : EvId.call k ≠ .call n := fun eq => ne (EvId.call.inj eq)
      obtain ⟨queue', base⟩ := h.queue ne' queue
      rw [next, if_neg (fun eq => ne (Option.some.inj eq))]
      refine ⟨_, ?_, (h.withBase base).yield ne left⟩
      show d.whenAlive (d.callback r) = _
      rw [h.whenAlive alive]
      simp only [Core.callback, h.base.repeating, quiet, queue', h.call k ne, signal, if_true,
        h.base.ev _ ne', ncalls]
  | again r k left alive rep =>
      -- a callback that is being repeated is that of a signal
      have next : c.nextCall ≠ some n := by simp [nextCall, rep]
      have ne : k ≠ n := by
        rintro rfl
        exact h.base.apart (by rw [rep]; rfl)
      rw [if_neg next]
      refine ⟨_, ?_, h.yield ne left⟩
      show d.whenAlive (d.callback r) = _
      rw [h.whenAlive alive]
      simp only [Core.callback, h.base.repeating, rep]
  | fire r k rest fx alive quiet queue signal body =>
      rw [nextCall_of_queue quiet queue]
      by_cases eq : k = n
      · subst eq
        rw [if_pos rfl]
        have timedOut : fx.outcome = .threw .timeout := by
          apply ended (nextCall_of_queue quiet queue)
          simp [Core.fired, Core.withCall, Effect.settle]
        -- of all that a callback of a call may do, the timeout alone leaves the process as it was
        apply h.fired_self
        cases callbackBody_cases body with
        | timedOut => rfl
        | timer => rfl
        | _ => cases timedOut
      · have ne' : EvId.call k ≠ .call n := fun same => eq (EvId.call.inj same)
        obtain ⟨queue', -⟩ := h.queue ne' queue
        rw [if_neg (fun same => eq (Option.some.inj same))]
        refine ⟨_, ?_, h.fired eq fx⟩
        show d.whenAlive (d.callback r) = _
        rw [h.whenAlive alive]
        simp only [Core.callback, h.base.repeating, quiet, queue', h.call k eq, signal,
          Bool.false_eq_true, if_false]
        rw [Core.fire, h.world, h.self, h.call k eq, h.base.ev _ ne', body]
        rfl

end Without

/-! ## Steps -/

/-- What holds of a loop in every run that closes no number on which an event waits. -/
structure Regular (c : Core) : Prop where
  sound : c.loop.Sound
  wired : c.Wired
  listed : c.Listed
  pipe : c.PipeAlone

theorem Regular.step (h : c.Regular) (ok : c.NoPending a) (hs : c.step a = some c') :
    c'.Regular where
  sound := (step_follows h.sound hs).1
  wired := h.wired.step h.sound ok hs
  listed := listed_step h.sound h.listed hs
  pipe := h.pipe.step h.sound h.listed hs

theorem regular_init (endian : Endian) (pipeFd : Fd) : (init endian pipeFd).Regular := by
  have signalling := signalling_init endian pipeFd fun _ => .other 0
  exact ⟨sound_new 0 0 pipeFd, wired_init endian pipeFd, signalling.listed, signalling.pipe⟩

/-- What is granted to the call of a step. -/
theorem granted_eq (hs : c.step a = some c') (n m : Nat) (env : Base.AddEnv) :
    (c.granted n m a env).heapFull = env.heapFull ∧
      (c.granted n m a env).reject =
        if .call n ∈ c.loop.base.inserted ∧ (c'.loop.call m).added = true then none
        else env.reject := by
  rw [granted, hs, Option.any_some]
  split
  · exact ⟨rfl, rfl⟩
  · exact ⟨rfl, rfl⟩

namespace Without

/-- A server is made, or not. -/
theorem listen {r : World.ListenResult} (h : Without n c d) (hs : c.step (.listen r) = some c') :
    ∃ d', d.step (.listen r) = some d' ∧ Without n c' d' := by
  obtain ⟨alive, hc⟩ := whenAlive_eq_some hs
  obtain ⟨w, listens, rfl⟩ := Option.map_eq_some_iff.mp hc
  refine ⟨_, ?_, h.withWorld w⟩
  show d.whenAlive _ = _
  rw [h.whenAlive alive, h.world, h.self, listens]
  rfl

/-- Another call on an object starts to wait. -/
theorem waits {role : Role} {o : Nat} {call : Call} {events : Evs} {timeout : Option Duration}
    {env env' : Base.AddEnv} {now : Timeval} (h : Without n c d) (reg : c.Regular)
    (roomy : c.loop.base.Roomy (.call n)) (ne : m ≠ n) (io : events.isIo = true)
    (granted : env'.heapFull = env.heapFull ∧ env'.reject =
      if .call n ∈ c.loop.base.inserted ∧ (c'.loop.call m).added = true then none
      else env.reject)
    (hs : c.whenNew m ((c.object role o).map fun x =>
      c.startIo m call x.fd events timeout env now) = some c') :
    ∃ d', d.whenNew m ((d.object role o).map fun x =>
      d.startIo m call x.fd events timeout env' now) = some d' ∧ Without n c' d' := by
  obtain ⟨alive, fresh, hc⟩ := whenNew_eq_some hs
  obtain ⟨x, own, rfl⟩ := Option.map_eq_some_iff.mp hc
  refine ⟨_, ?_, h.start ne (reg.sound.not_queued fresh) roomy
    (fun e mem io => reg.wired.opened mem io) call x.fd io timeout now granted.1 granted.2⟩
  rw [h.whenNew ne alive fresh, h.object, own]
  rfl

/-- An object of the loop is destroyed. -/
theorem deinit {o : Nat} (h : Without n c d) (hs : c.step (.deinit o) = some c') :
    ∃ d', d.step (.deinit o) = some d' ∧ Without n c' d' := by
  rw [Core.step] at hs
  split at hs
  · next may =>
      obtain ⟨w, closes, rfl⟩ := Option.map_eq_some_iff.mp hs
      refine ⟨_, ?_, h.dropped w⟩
      show (if d.Deinits o then (d.world.deinit o).map d.dropped else none) = _
      rw [if_pos, h.world, closes]
      · rfl
      · refine ⟨h.unused may.1, ?_⟩
        rw [h.world, h.self]
        exact may.2
  · cases hs

/-- The loop is destroyed. -/
theorem destroyed (h : Without n c d) (hs : c.step .free = some c') :
    ∃ d', d.step .free = some d' ∧ Without n c' d' := by
  obtain ⟨alive, hc⟩ := whenAlive_eq_some hs
  rw [Core.free] at hc
  split at hc
  · next torn =>
      obtain ⟨w, closes, rfl⟩ := Option.map_eq_some_iff.mp hc
      refine ⟨_, ?_, h.freed w⟩
      show d.whenAlive d.free = _
      rw [h.whenAlive alive, Core.free, h.nextReg, h.reg, if_pos torn, h.world, h.pipe, closes]
      rfl
  · cases hc

/-- A signal is delivered. -/
theorem raise {sig : Nat} (h : Without n c d) (hs : c.step (.raise sig) = some c') :
    ∃ d', d.step (.raise sig) = some d' ∧ Without n c' d' := by
  obtain ⟨alive, hc⟩ := whenAlive_eq_some hs
  split at hc
  · next caught =>
      cases hc
      have pipe : d.loop.base.pipe ++ [sig] = c.loop.base.pipe ++ [sig] := by
        rw [h.base.pipe]
      refine ⟨d.withBase { d.loop.base with pipe := d.loop.base.pipe ++ [sig] }, ?_,
        h.withBase { h.base with pipe }⟩
      show d.whenAlive (if d.loop.base.disposition sig = _ then _ else _) = _
      rw [h.whenAlive alive, h.base.disposition, if_pos caught]
  · cases hc

/-- The rest of a signal's callbacks is dropped. -/
theorem breakSignal (h : Without n c d) (hs : c.step .breakSignal = some c') :
    ∃ d', d.step .breakSignal = some d' ∧ Without n c' d' := by
  rw [Core.step] at hs
  split at hs
  · next rep =>
      cases hs
      refine ⟨d.withBase { d.loop.base with repeating := none }, ?_,
        h.withBase { h.base with repeating := rfl, apart := by simp }⟩
      show (if d.loop.base.repeating.isSome then _ else _) = _
      rw [h.base.repeating, if_pos rep]
  · cases hs

/-- **One step**, with the call and without it, unless the call ends otherwise than by its
timeout. -/
theorem step (h : Without n c d) (reg : c.Regular) (watches : ∀ fd, d.loop.base.Watches fd)
    (roomy : c.loop.base.Roomy (.call n)) (new : n ∉ a.names)
    (past : ∀ ready now order, a = .dispatch ready now order → d.loop.base.pass ≤ now)
    (hs : c.step a = some c')
    (ended : c.nextCall = some n → ∀ out ∈ (c'.loop.call n).outcomes, out = .threw .timeout) :
    (a.without n c).elim (Without n c' d) fun a' =>
      ∃ d', d.step a' = some d' ∧ Without n c' d' := by
  cases a with
  | listen r => exact h.listen hs
  | connect k address r timeout env now =>
      have ne : k ≠ n := fun eq => new (by simp [Act.names, eq])
      obtain ⟨alive, fresh, hc⟩ := whenNew_eq_some hs
      obtain ⟨heap, reject⟩ := granted_eq hs n k env
      obtain ⟨d', connects, h'⟩ := h.connect ne (reg.sound.not_queued fresh) roomy reg.wired heap
        reject hc
      exact ⟨d', (h.whenNew ne alive fresh _).trans connects, h'⟩
  | read k o timeout env now =>
      have ne : k ≠ n := fun eq => new (by simp [Act.names, eq])
      exact h.waits reg roomy ne rfl (granted_eq hs n k env) hs
  | write k o data timeout env now =>
      have ne : k ≠ n := fun eq => new (by simp [Act.names, eq])
      exact h.waits reg roomy ne rfl (granted_eq hs n k env) hs
  | accept k o env now =>
      have ne : k ≠ n := fun eq => new (by simp [Act.names, eq])
      exact h.waits reg roomy ne rfl (granted_eq hs n k env) hs
  | schedule k sleeps duration nomem env now =>
      have ne : k ≠ n := fun eq => new (by simp [Act.names, eq])
      obtain ⟨alive, fresh, hc⟩ := whenNew_eq_some hs
      cases hc
      refine ⟨_, h.whenNew ne alive fresh _, ?_⟩
      exact h.schedule ne (reg.sound.not_queued fresh) _ duration nomem env now
  | signalStream args =>
      obtain ⟨alive, hc⟩ := whenAlive_eq_some hs
      have names : ∀ arg ∈ args, arg.n ≠ n := by
        rintro arg mem rfl
        exact new (List.mem_map_of_mem mem)
      obtain ⟨d', streams, h'⟩ := h.signalStream reg.sound reg.pipe alive names hc
      exact ⟨d', (h.whenAlive alive _).trans streams, h'⟩
  | tearDown r =>
      obtain ⟨alive, hc⟩ := whenAlive_eq_some hs
      split at hc
      · next opened =>
          cases hc
          refine ⟨_, ?_, h.tearDown r⟩
          show d.whenAlive _ = _
          rw [h.whenAlive alive, h.nextReg, if_pos opened]
      · cases hc
  | close o =>
      obtain ⟨w, closes, rfl⟩ := Option.map_eq_some_iff.mp hs
      refine ⟨_, ?_, h.dropped w⟩
      show (d.world.close o).map d.dropped = _
      rw [h.world, closes]
      rfl
  | deinit o => exact h.deinit hs
  | free => exact h.destroyed hs
  | dispatch ready now order =>
      obtain ⟨alive, hc⟩ := whenAlive_eq_some hs
      obtain ⟨d', pass, h'⟩ := h.dispatch watches (past ready now order rfl) hc
      exact ⟨d', (h.whenAlive alive _).trans pass, h'⟩
  | callback r =>
      have fired := h.callback reg.sound hs ended
      rw [Act.without]
      split at fired
      · next next =>
          rw [if_pos next]
          exact fired
      · next next =>
          rw [if_neg next]
          exact fired
  | breakSignal => exact h.breakSignal hs
  | raise sig => exact h.raise hs
  | kernel act =>
      obtain ⟨w, moves, rfl⟩ := Option.map_eq_some_iff.mp hs
      refine ⟨_, ?_, h.withWorld w⟩
      show (d.world.kernel act).map _ = _
      rw [h.world, moves]
      rfl

end Without

end SwiftEvent.Core
