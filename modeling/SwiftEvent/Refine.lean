import SwiftEvent.Life
import SwiftEvent.Steps
import SwiftEvent.Library.Run

/-!
# The loop keeps every call on its track

The connection of the loop to the abstract life of its calls: whatever the step,
each call moves as `Life.Moves` allows (`step_moves`), so each call is at one of
its stages in every reachable state.

The only thing to find is what `tearDown` needs: the registrations hold each
event once and none twice (`Regs`), so no event is released by two of them.
-/

namespace SwiftEvent

/-- The loop as one of its calls sees it. -/
def Loop.life (l : Loop) (n : Nat) : Life where
  made := n ∈ l.made
  call := l.call n
  queued := l.base.Queued (.call n)
  held := ∃ r, n ∈ (l.reg r).events
  repeating := l.base.repeating.map Prod.fst = some (.call n)
  alive := l.alive = true

/-- The signal registrations of a loop: each holds an event at most once, and no
event is in two of them. -/
structure Loop.Regs (l : Loop) : Prop where
  nodup : ∀ r, (l.reg r).events.Nodup
  disjoint : ∀ r r' n, n ∈ (l.reg r).events → n ∈ (l.reg r').events → r = r'
  torndown : ∀ r, (l.reg r).torndown = true → (l.reg r).events = []
  fresh : ∀ r, l.nextReg ≤ r → (l.reg r).events = [] ∧ (l.reg r).torndown = false

/-- Every call is at a stage, and the registrations are in order. -/
structure Loop.Sound (l : Loop) : Prop where
  life : ∀ n, (l.life n).Sound
  regs : l.Regs

namespace Life

variable {v v' : Life}

theorem eq_of (made : v.made ↔ v'.made) (call : v.call = v'.call)
    (queued : v.queued ↔ v'.queued) (held : v.held ↔ v'.held)
    (repeating : v.repeating ↔ v'.repeating) (alive : v.alive ↔ v'.alive) : v = v' := by
  cases v
  cases v'
  simp only [mk.injEq]
  exact ⟨propext made, call, propext queued, propext held, propext repeating, propext alive⟩

theorem Moves.congr {u : Life} (move : v.Moves u) (made : v'.made ↔ u.made)
    (call : v'.call = u.call) (queued : v'.queued ↔ u.queued) (held : v'.held ↔ u.held)
    (repeating : v'.repeating ↔ u.repeating) (alive : v'.alive ↔ u.alive) : v.Moves v' := by
  rw [eq_of made call queued held repeating alive]
  exact move

/-- A call to which nothing happens. -/
theorem moves_same (made : v'.made ↔ v.made) (call : v'.call = v.call)
    (queued : v'.queued ↔ v.queued) (held : v'.held ↔ v.held)
    (repeating : v'.repeating → v.repeating) (alive : v'.alive ↔ v.alive) : v.Moves v' := by
  exact (Moves.stay v'.queued v'.repeating queued.mp repeating (Or.inr queued.mpr)).congr made
    call Iff.rfl held Iff.rfl alive

end Life

namespace Loop

variable {l l' : Loop}

/-- An event of a call that was never made is on no queue. -/
theorem Sound.not_queued (h : l.Sound) {n : Nat} (new : n ∉ l.made) :
    ¬ l.base.Queued (.call n) := by
  obtain ⟨s, hs⟩ := h.life n
  obtain rfl := hs.unmade new
  exact hs.2.queued

theorem Sound.not_repeating (h : l.Sound) {n : Nat} (new : n ∉ l.made) :
    l.base.repeating.map Prod.fst ≠ some (.call n) := by
  obtain ⟨s, hs⟩ := h.life n
  obtain rfl := hs.unmade new
  exact hs.2.repeating

theorem Sound.not_held (h : l.Sound) {n : Nat} (new : n ∉ l.made) (r : Nat) :
    n ∉ (l.reg r).events := by
  obtain ⟨s, hs⟩ := h.life n
  obtain rfl := hs.unmade new
  exact fun mem => hs.2.held ⟨r, mem⟩

/-- An event on a queue has its box. -/
theorem Sound.boxed_of_queued (h : l.Sound) {n : Nat} (queued : l.base.Queued (.call n)) :
    (l.call n).boxed = true := by
  obtain ⟨s, hs⟩ := h.life n
  cases s with
  | waiting => exact hs.2.2.2.2.2.1.boxed
  | listening => exact hs.2.2.2.boxed
  | unmade => exact absurd queued hs.2.queued
  | _ => exact absurd queued hs.2.1.queued

/-- What is repeated is a signal. -/
theorem Sound.signal_of_repeating (h : l.Sound) {n : Nat}
    (rep : l.base.repeating.map Prod.fst = some (.call n)) :
    (l.call n).kind.isSignal = true := by
  obtain ⟨s, hs⟩ := h.life n
  cases s with
  | listening => exact hs.2.2.2.signal
  | waiting => exact absurd rep hs.2.2.2.1
  | unmade => exact absurd rep hs.2.repeating
  | _ => exact absurd rep hs.2.1.repeating

theorem Regs.congr (h : l.Regs) (reg : l'.reg = l.reg) (nextReg : l'.nextReg = l.nextReg) :
    l'.Regs := by
  constructor
  · rw [reg]; exact h.nodup
  · rw [reg]; exact h.disjoint
  · rw [reg]; exact h.torndown
  · rw [reg, nextReg]; exact h.fresh

/-- A step that only moves the base about, for all calls at once. -/
theorem life_moves_of_base (made : l'.made = l.made) (call : l'.call = l.call)
    (reg : l'.reg = l.reg) (alive : l'.alive = l.alive)
    (queued : ∀ n, l'.base.Queued (.call n) ↔ l.base.Queued (.call n))
    (repeating : l'.base.repeating = l.base.repeating ∨ l'.base.repeating = none) (n : Nat) :
    (l.life n).Moves (l'.life n) := by
  refine Life.moves_same ?_ ?_ (queued n) ?_ ?_ ?_
  · simp only [life, made]
  · simp only [life, call]
  · simp only [life, reg]
  · simp only [life]
    rcases repeating with eq | eq
    · rw [eq]; exact fun h => h
    · rw [eq]; intro h; cases h
  · simp only [life, alive]

/-- A step that makes one call, seen by the others. -/
theorem life_moves_other {n m : Nat} (ne : m ≠ n) (made : l'.made = l.made ++ [n])
    (call : ∃ x, l'.call = Function.update l.call n x)
    (reg : ∀ r, m ∈ (l'.reg r).events ↔ m ∈ (l.reg r).events) (alive : l'.alive = l.alive)
    (queued : l'.base.Queued (.call m) ↔ l.base.Queued (.call m))
    (repeating : l'.base.repeating = l.base.repeating) : (l.life m).Moves (l'.life m) := by
  obtain ⟨x, call⟩ := call
  refine Life.moves_same ?_ ?_ queued ?_ ?_ ?_
  · simp only [life, made]; simp [ne]
  · simp only [life, call, Function.update_of_ne ne]
  · simp only [life, reg]
  · simp only [life, repeating]; exact fun h => h
  · simp only [life, alive]

end Loop

namespace Core

variable {c c' : Core}

/-! ## One call is made -/

/-- A call answered at once. -/
theorem moves_record_idle {n : Nat} (new : n ∉ c.loop.made) (alive : c.loop.alive = true)
    (w : World)
    {call : Call} (ok : call.Answered ∨ call.Refunded) {b : Base}
    (queued : ∀ m, b.Queued (.call m) ↔ c.loop.base.Queued (.call m))
    (repeating : b.repeating = c.loop.base.repeating) (m : Nat) :
    (c.loop.life m).Moves ((record { c.withBase b with world := w } n call).loop.life m) := by
  by_cases eq : m = n
  · subst eq
    have move : (c.loop.life m).Moves { c.loop.life m with made := True, call := call } := by
      rcases ok with ok | ok
      · exact .answer call new alive ok
      · exact .refund call new alive ok
    refine move.congr ?_ ?_ (queued m) Iff.rfl ?_ Iff.rfl
    · simp [Loop.life, record]
    · simp [Loop.life, record]
    · simp [Loop.life, record, withBase, repeating]
  · exact Loop.life_moves_other eq rfl ⟨call, rfl⟩ (fun _ => Iff.rfl) rfl (queued m) repeating

/-- A call handed over. -/
theorem moves_record_start (h : c.loop.Sound) {n : Nat} (new : n ∉ c.loop.made)
    (alive : c.loop.alive = true) (w : World) {call : Call} (ok : call.Started)
    (io : call.added = false → call.kind.isIo = true) {b : Base}
    (queued : ∀ m, b.Queued (.call m) ↔
      c.loop.base.Queued (.call m) ∨ m = n ∧ call.added = true)
    (repeating : b.repeating = c.loop.base.repeating) (m : Nat) :
    (c.loop.life m).Moves ((record { c.withBase b with world := w } n call).loop.life m) := by
  by_cases eq : m = n
  · subst eq
    refine (Life.Moves.start (v := c.loop.life m) call new alive ok io).congr ?_ ?_ ?_ Iff.rfl ?_
      Iff.rfl
    · simp [Loop.life, record]
    · simp [Loop.life, record]
    · have := h.not_queued new
      simp only [Loop.life, record, withBase]
      rw [queued m]
      tauto
    · simp [Loop.life, record, withBase, repeating]
  · refine Loop.life_moves_other eq rfl ⟨call, rfl⟩ (fun _ => Iff.rfl) rfl ?_ repeating
    exact (queued m).trans (by simp [eq])

theorem Starts.isIo {kind : Kind} {o : Nat} {fd : Fd} {events : Evs} {w : World}
    (h : c.Starts kind o fd events w) :
    kind.isIo = true ∧ kind.isSignal = false ∧ events.isIo = true := by
  cases h <;> exact ⟨rfl, rfl, rfl⟩

theorem moves_start (h : c.loop.Sound) {n : Nat} (new : n ∉ c.loop.made)
    (alive : c.loop.alive = true) {kind : Kind} {o : Nat} {fd : Fd} {events : Evs} {w : World}
    (starts : c.Starts kind o fd events w) (timeout : Option Duration) (env : Base.AddEnv)
    (now : Timeval) (m : Nat) :
    (c.loop.life m).Moves
      ((startIo { c with world := w } n { kind, obj := some o } fd events timeout env
        now).loop.life m) := by
  obtain ⟨io, signal, evio⟩ := starts.isIo
  rw [startIo_eq { c with world := w } _ fd timeout env now (h.not_queued new) evio]
  dsimp only
  split
  · refine moves_record_start h new alive w ?_ (by simp) (fun m => ?_) ?_ m
    · constructor <;> simp [Call.news, io, signal]
      constructor <;> simp
    · rw [queued_addedBase]
      simp
    · simp [addedBase, eventBase]
  · refine moves_record_start h new alive w ?_ (by simp [io]) (fun m => ?_) rfl m
    · constructor <;> simp [Call.news, io, signal]
      constructor <;> simp
    · simp

theorem moves_schedule (h : c.loop.Sound) {n : Nat} (new : n ∉ c.loop.made)
    (alive : c.loop.alive = true) (sleeps : Bool) (duration : Duration) (nomem : Bool)
    (env : Base.AddEnv) (now : Timeval) (m : Nat) :
    (c.loop.life m).Moves ((c.schedule n (if sleeps then .sleep else .schedule) duration nomem
      env now).loop.life m) := by
  have kind : (if sleeps then Kind.sleep else Kind.schedule).isIo = false ∧
      (if sleeps then Kind.sleep else Kind.schedule).isSignal = false := by
    cases sleeps <;> exact ⟨rfl, rfl⟩
  have started : Call.Started { kind := if sleeps then .sleep else .schedule
                                timeout := some (timevalFor duration), boxed := true
                                added := true } := by
    constructor <;> simp [Call.news, kind]
    constructor <;> simp
  rcases schedule_cases c (if sleeps then .sleep else .schedule) duration nomem env now
    (h.not_queued new) with ⟨b, hb, eq⟩ | ⟨-, eq⟩ | ⟨-, eq⟩
  · rw [eq]
    refine moves_record_idle new alive c.world (Or.inr ?_) (fun m => ?_) ?_ m
    · constructor <;> simp [kind]
      constructor <;> simp
    · rcases hb with rfl | rfl <;> rfl
    · rcases hb with rfl | rfl <;> rfl
  · rw [eq]
    refine moves_record_start h new alive c.world started (by simp) (fun m => ?_) ?_ m
    · simp only [Base.Queued, Base.withTimeout_fields, Base.mem_withTimeout_timeheap, eventBase]
      simp only [EvId.call.injEq, Option.isSome_some, and_true]
      tauto
    · simp [eventBase]
  · rw [eq]
    have inactive : EvId.call n ∉ c.loop.base.activequeue := fun mem =>
      h.not_queued new (Or.inr (Or.inr mem))
    refine moves_record_start h new alive c.world started (by simp) (fun m => ?_) ?_ m
    · simp only [Base.Queued, Base.eventActiveNolock, eventBase, inactive, if_false,
        List.mem_append, List.mem_singleton, EvId.call.injEq, and_true]
      tauto
    · simp only [Base.eventActiveNolock, eventBase, inactive, if_false]

/-! ## Signal streams -/

/-- What `signalStream` relies on while it runs. -/
structure Streaming (c : Core) (r : Nat) : Prop where
  sound : c.loop.Sound
  alive : c.loop.alive = true
  opened : r < c.loop.nextReg
  live : (c.loop.reg r).torndown = false

theorem queued_evmapSignalAdd {b b' : Base} {opened : Fd → Bool} {env : Base.AddEnv} {n : Nat}
    {added : Bool} (h : b.evmapSignalAdd opened env (.call n) = (added, b')) (m : Nat) :
    b'.Queued (.call m) ↔ b.Queued (.call m) ∨ m = n ∧ added = true := by
  obtain ⟨disposition, shOld, rfl | ⟨-, rfl, -, rfl⟩⟩ := Base.evmapSignalAdd_cases h
  · cases added <;> simp only [Base.Queued, if_true, if_false, List.mem_cons, EvId.call.injEq,
      Bool.false_eq_true, and_false, or_false, and_true]
    tauto
  · simp only [Base.Queued, List.mem_cons, EvId.call.injEq, reduceCtorEq, false_or, and_true]
    tauto

theorem repeating_evmapSignalAdd {b b' : Base} {opened : Fd → Bool} {env : Base.AddEnv}
    {e : EvId} {added : Bool} (h : b.evmapSignalAdd opened env e = (added, b')) :
    b'.repeating = b.repeating := by
  obtain ⟨_, _, rfl | ⟨-, -, -, rfl⟩⟩ := Base.evmapSignalAdd_cases h <;> rfl

/-- The registration that has just been handed `n`. -/
theorem mem_append_events (c : Core) (r n r' m : Nat) :
    m ∈ ((c.append r n).loop.reg r').events ↔
      m ∈ (c.loop.reg r').events ∨ r' = r ∧ m = n := by
  by_cases eq : r' = r
  · subst eq; simp [append]
  · simp [append, eq]

theorem regs_append (h : c.loop.Regs) {r n : Nat} (free : ∀ r, n ∉ (c.loop.reg r).events)
    (opened : r < c.loop.nextReg) (live : (c.loop.reg r).torndown = false) :
    (c.append r n).loop.Regs := by
  constructor
  · intro r'
    by_cases eq : r' = r
    · subst eq
      simp only [append, Function.update_self]
      exact List.nodup_append'.mpr ⟨h.nodup r', List.nodup_singleton n,
        List.disjoint_singleton.mpr (free r')⟩
    · simp only [append, Function.update_of_ne eq]
      exact h.nodup r'
  · intro r₁ r₂ m h₁ h₂
    rw [mem_append_events] at h₁ h₂
    rcases h₁ with h₁ | ⟨rfl, rfl⟩
    · rcases h₂ with h₂ | ⟨-, rfl⟩
      · exact h.disjoint r₁ r₂ m h₁ h₂
      · exact absurd h₁ (free r₁)
    · rcases h₂ with h₂ | ⟨rfl, -⟩
      · exact absurd h₂ (free r₂)
      · rfl
  · intro r' torn
    by_cases eq : r' = r
    · subst eq
      simp only [append, Function.update_self] at torn
      rw [live] at torn
      cases torn
    · simp only [append, Function.update_of_ne eq] at torn ⊢
      exact h.torndown r' torn
  · intro r' le
    have ne : r' ≠ r := by
      have : c.loop.nextReg ≤ r' := le
      omega
    simp only [append, Function.update_of_ne ne]
    exact h.fresh r' le

/-- A signal event handed over to libevent and to its registration. -/
theorem moves_record_listen (h : c.loop.Sound) {r n : Nat} (new : n ∉ c.loop.made)
    (alive : c.loop.alive = true) {call : Call} (ok : call.Listening) {b : Base}
    (queued : ∀ m, b.Queued (.call m) ↔
      c.loop.base.Queued (.call m) ∨ m = n ∧ call.added = true)
    (repeating : b.repeating = c.loop.base.repeating) (m : Nat) :
    (c.loop.life m).Moves ((((c.withBase b).record n call).append r n).loop.life m) := by
  by_cases eq : m = n
  · subst eq
    refine (Life.Moves.listen (v := c.loop.life m) call new alive ok).congr ?_ ?_ ?_ ?_ ?_ Iff.rfl
    · simp [Loop.life, record, append]
    · simp [Loop.life, record, append]
    · have := h.not_queued new
      simp only [Loop.life, record, append, withBase]
      rw [queued m]
      tauto
    · simp only [Loop.life, mem_append_events]
      exact ⟨fun _ => trivial, fun _ => ⟨r, Or.inr (by simp)⟩⟩
    · simp [Loop.life, record, append, withBase, repeating]
  · refine Loop.life_moves_other eq rfl ⟨call, rfl⟩ (fun r' => ?_) rfl ?_ repeating
    · rw [mem_append_events]
      simp [eq, record, withBase]
    · exact (queued m).trans (by simp [eq])

/-- A round of `signalStream` makes one call and moves no other. -/
theorem moves_signalOne {r : Nat} {arg : SignalArg} (h : c.Streaming r)
    (hs : c.signalOne r arg = some c') :
    c'.Streaming r ∧ ∀ m, (c.loop.life m).Moves (c'.loop.life m) := by
  obtain ⟨sound, alive, opened, live⟩ := h
  obtain ⟨new, rfl | ⟨added, b, add, rfl⟩⟩ := signalOne_cases hs sound.not_queued
  · have refunded : Call.Refunded { kind := .signal arg.signum, boxed := true, released := 1 } := by
      constructor
      · constructor <;> simp
      · rfl
    have moves := moves_record_idle (c := c) new alive c.world (Or.inr refunded) (b := c.loop.base)
      (fun _ => Iff.rfl) rfl
    exact ⟨⟨⟨fun m => (sound.life m).moves (moves m), sound.regs.congr rfl rfl⟩, alive, opened,
      live⟩, moves⟩
  · have listening : Call.Listening
        { kind := .signal arg.signum, boxed := true, added, allocs := 1 } := by
      constructor
      · constructor <;> simp
      · rfl
    have queued := queued_evmapSignalAdd add
    have repeating := repeating_evmapSignalAdd add
    have moves := moves_record_listen (c := c) (r := r) sound new alive listening queued repeating
    refine ⟨⟨⟨fun m => (sound.life m).moves (moves m), ?_⟩, alive, opened, ?_⟩, moves⟩
    · exact regs_append (c := (c.withBase b).record arg.n _) (sound.regs.congr rfl rfl)
        (sound.not_held new) opened live
    · simp [append, record, withBase, live]

/-- Several moves of one call. -/
def Follows (c c' : Core) : Prop :=
  ∀ m, Relation.ReflTransGen Life.Moves (c.loop.life m) (c'.loop.life m)

theorem Follows.refl (c : Core) : c.Follows c := fun _ => .refl

theorem Follows.tail {c'' : Core} (h : c.Follows c')
    (moves : ∀ m, (c'.loop.life m).Moves (c''.loop.life m)) : c.Follows c'' :=
  fun m => (h m).tail (moves m)

theorem Follows.single (moves : ∀ m, (c.loop.life m).Moves (c'.loop.life m)) : c.Follows c' :=
  (Follows.refl c).tail moves

/-- The first thing `signalStream` does is to open a registration. -/
theorem streaming_start (h : c.loop.Sound) (alive : c.loop.alive = true) :
    let d : Core := { c with loop := { c.loop with nextReg := c.loop.nextReg + 1 } }
    d.Streaming c.loop.nextReg ∧ c.Follows d := by
  intro d
  have open_moves : ∀ m, (c.loop.life m).Moves (d.loop.life m) := fun m =>
    Life.moves_same Iff.rfl rfl Iff.rfl Iff.rfl (fun h => h) Iff.rfl
  have regs : d.loop.Regs :=
    { nodup := h.regs.nodup
      disjoint := h.regs.disjoint
      torndown := h.regs.torndown
      fresh := fun r le => h.regs.fresh r (Nat.le_of_succ_le le) }
  refine ⟨⟨⟨fun m => (h.life m).moves (open_moves m), regs⟩, alive, Nat.lt_succ_self _, ?_⟩,
    .single open_moves⟩
  exact (h.regs.fresh _ (Nat.le_refl _)).2

/-- What a round of `signalStream` keeps on a sound loop, the whole of it keeps. -/
theorem signalStream_rounds {P : Core → Prop} (h : c.loop.Sound) (alive : c.loop.alive = true)
    {args : List SignalArg} (hs : c.signalStream args = some c')
    (start : P { c with loop := { c.loop with nextReg := c.loop.nextReg + 1 } })
    (one : ∀ d arg d', arg ∈ args → d.Streaming c.loop.nextReg → P d →
      d.signalOne c.loop.nextReg arg = some d' → P d') :
    c'.Streaming c.loop.nextReg ∧ c.Follows c' ∧ P c' := by
  obtain ⟨streaming, follows⟩ := streaming_start h alive
  refine signalStream_induct
    (P := fun e => e.Streaming c.loop.nextReg ∧ c.Follows e ∧ P e) hs
    ⟨streaming, follows, start⟩ (fun e arg e' mem he hs => ?_)
  obtain ⟨streaming, moves⟩ := moves_signalOne he.1 hs
  exact ⟨streaming, he.2.1.tail moves, one e arg e' mem he.1 he.2.2 hs⟩

theorem follows_signalStream (h : c.loop.Sound) (alive : c.loop.alive = true)
    {args : List SignalArg} (hs : c.signalStream args = some c') :
    c'.loop.Sound ∧ c.Follows c' := by
  obtain ⟨streaming, follows, -⟩ := signalStream_rounds (P := fun _ => True) h alive hs trivial
    (fun _ _ _ _ _ _ _ => trivial)
  exact ⟨streaming.sound, follows⟩

/-- `signalStream` makes nothing active, and sets no deadlines. -/
theorem signalStream_queues (h : c.loop.Sound) (alive : c.loop.alive = true)
    {args : List SignalArg} (hs : c.signalStream args = some c') :
    c'.loop.base.activequeue = c.loop.base.activequeue ∧
      c'.loop.base.timeheap = c.loop.base.timeheap ∧
      c'.loop.base.repeating = c.loop.base.repeating := by
  refine (signalStream_rounds (P := fun d => d.loop.base.activequeue = c.loop.base.activequeue ∧
    d.loop.base.timeheap = c.loop.base.timeheap ∧ d.loop.base.repeating = c.loop.base.repeating)
    h alive hs ⟨rfl, rfl, rfl⟩ (fun d arg d' _ streaming same hd => ?_)).2.2
  obtain ⟨-, rfl | ⟨added, b, add, rfl⟩⟩ := signalOne_cases hd streaming.sound.not_queued
  · exact same
  · obtain ⟨_, _, rfl | ⟨-, -, -, rfl⟩⟩ := Base.evmapSignalAdd_cases add <;> exact same

/-! ## `tearDown` -/

/-- What the loop of `tearDown` does for the events `ns`. -/
structure Torn (c c' : Core) (ns : List Nat) : Prop where
  world : c'.world = c.world
  made : c'.loop.made = c.loop.made
  reg : c'.loop.reg = c.loop.reg
  nextReg : c'.loop.nextReg = c.loop.nextReg
  alive : c'.loop.alive = c.loop.alive
  call : ∀ m, c'.loop.call m = if m ∈ ns then (c.loop.call m).torn else c.loop.call m
  queued : ∀ m, c'.loop.base.Queued (.call m) ↔ c.loop.base.Queued (.call m) ∧ m ∉ ns
  repeating : ∀ m, c'.loop.base.repeating.map Prod.fst = some (.call m) →
    c.loop.base.repeating.map Prod.fst = some (.call m) ∧ m ∉ ns
  active : ∀ m, .call m ∈ c.loop.base.activequeue → m ∉ ns → .call m ∈ c'.loop.base.activequeue

theorem torn_foldl (c : Core) {ns : List Nat} (nodup : ns.Nodup) :
    c.Torn (ns.foldl tearDownOne c) ns := by
  induction ns generalizing c with
  | nil =>
      exact ⟨rfl, rfl, rfl, rfl, rfl, fun _ => by simp, fun _ => by simp, fun _ h => ⟨h, by simp⟩,
        fun _ h _ => h⟩
  | cons n ns ih =>
      obtain ⟨notMem, nodup⟩ := List.nodup_cons.mp nodup
      have rest := ih (c.tearDownOne n) nodup
      refine ⟨rest.world, rest.made, rest.reg, rest.nextReg, rest.alive, fun m => ?_,
        fun m => ?_, fun m rep => ?_, fun m mem out => ?_⟩
      · rw [List.foldl_cons, rest.call]
        by_cases eq : m = n
        · subst eq
          simp [notMem, tearDownOne, withCall, withBase]
        · simp [eq, tearDownOne, withCall, withBase]
      · rw [List.foldl_cons, rest.queued]
        simp only [tearDownOne, withCall, withBase, Base.queued_eventDelNolock, List.mem_cons,
          not_or, ne_eq, EvId.call.injEq]
        tauto
      · obtain ⟨rep, out⟩ := rest.repeating m rep
        simp only [tearDownOne, withCall, withBase, Base.eventDelNolock_repeating] at rep
        split at rep
        · cases rep
        · next other =>
            refine ⟨rep, ?_⟩
            rintro (_ | ⟨_, mem⟩)
            · exact other rep
            · exact out mem
      · simp only [List.mem_cons, not_or] at out
        refine rest.active m ?_ out.2
        simp only [tearDownOne, withCall, withBase, Base.eventDelNolock_activequeue, mem_unlink,
          ne_eq, EvId.call.injEq]
        exact ⟨mem, out.1⟩

theorem moves_tearDown (h : c.loop.Sound) {r : Nat} (opened : r < c.loop.nextReg) :
    (∀ m, (c.loop.life m).Moves ((c.tearDown r).loop.life m)) ∧ (c.tearDown r).loop.Regs := by
  rw [tearDown]
  split
  · exact ⟨fun m => Life.moves_same Iff.rfl rfl Iff.rfl Iff.rfl (fun h => h) Iff.rfl, h.regs⟩
  · have torn := torn_foldl c (h.regs.nodup r)
    generalize (c.loop.reg r).events.foldl tearDownOne c = d at torn
    have held : ∀ m, (∃ r', m ∈ ((Function.update d.loop.reg r
        { events := [], torndown := true }) r').events) ↔
        (∃ r', m ∈ (c.loop.reg r').events) ∧ m ∉ (c.loop.reg r).events := by
      intro m
      rw [torn.reg]
      constructor
      · rintro ⟨r', mem⟩
        by_cases eq : r' = r
        · subst eq; simp at mem
        · rw [Function.update_of_ne eq] at mem
          exact ⟨⟨r', mem⟩, fun other => eq (h.regs.disjoint r' r m mem other)⟩
      · rintro ⟨⟨r', mem⟩, out⟩
        refine ⟨r', ?_⟩
        have ne : r' ≠ r := by
          rintro rfl
          exact out mem
        rw [Function.update_of_ne ne]
        exact mem
    refine ⟨fun m => ?_, ?_⟩
    · by_cases mem : m ∈ (c.loop.reg r).events
      · have closes := Life.Moves.close (v := c.loop.life m) ⟨r, mem⟩
        refine closes.congr ?_ ?_ ?_ ?_ ?_ ?_
        · simp [Loop.life, torn.made]
        · simp [Loop.life, torn.call, mem]
        · simp only [Loop.life, torn.queued m]
          tauto
        · exact (held m).trans (by simp [mem])
        · refine ⟨fun rep => (torn.repeating m rep).2 mem, fun no => no.elim⟩
        · simp [Loop.life, torn.alive]
      · refine Life.moves_same ?_ ?_ ?_ ?_ ?_ ?_
        · simp [Loop.life, torn.made]
        · simp [Loop.life, torn.call, mem]
        · simp only [Loop.life, torn.queued m]
          exact and_iff_left mem
        · exact (held m).trans (by simp [mem, Loop.life])
        · exact fun rep => (torn.repeating m rep).1
        · simp [Loop.life, torn.alive]
    · constructor
      · intro r'
        by_cases eq : r' = r
        · subst eq; simp
        · simp only [Function.update_of_ne eq, torn.reg]
          exact h.regs.nodup r'
      · intro r₁ r₂ m h₁ h₂
        by_cases eq₁ : r₁ = r
        · subst eq₁; simp at h₁
        · by_cases eq₂ : r₂ = r
          · subst eq₂; simp at h₂
          · simp only [Function.update_of_ne eq₁, Function.update_of_ne eq₂, torn.reg] at h₁ h₂
            exact h.regs.disjoint r₁ r₂ m h₁ h₂
      · intro r' torndown
        by_cases eq : r' = r
        · subst eq; simp
        · simp only [Function.update_of_ne eq, torn.reg] at torndown ⊢
          exact h.regs.torndown r' torndown
      · intro r' le
        have le : c.loop.nextReg ≤ r' := torn.nextReg ▸ le
        have ne : r' ≠ r := by omega
        simp only [Function.update_of_ne ne, torn.reg]
        exact h.regs.fresh r' le

/-! ## Callbacks, passes and the end of the loop -/

theorem moves_fired {n : Nat} (alive : c.loop.alive = true)
    (quiet : c.loop.base.repeating = none) (queued : c.loop.base.Queued (.call n))
    (signal : (c.loop.call n).kind.isSignal = false) (fx : Effect) (m : Nat) :
    (c.loop.life m).Moves ((c.fired n fx).loop.life m) := by
  have repeating : (c.fired n fx).loop.base.repeating = none := by
    simp [fired, withCall, withBase, Base.eventDelNolock_repeating, quiet]
  have gone : ∀ m, (c.fired n fx).loop.base.Queued (.call m) ↔
      c.loop.base.Queued (.call m) ∧ EvId.call m ≠ .call n := fun m =>
    Base.queued_eventDelNolock _ _ _
  by_cases eq : m = n
  · subst eq
    have fires := Life.Moves.fire (v := c.loop.life m) fx queued alive signal
    refine fires.congr Iff.rfl ?_ ?_ Iff.rfl ?_ Iff.rfl
    · simp [Loop.life, fired, withCall]
    · exact iff_of_false (fun q => ((gone m).mp q).2 rfl) not_false
    · simp [Loop.life, repeating, quiet]
  · refine Life.moves_same Iff.rfl ?_ ((gone m).trans (by simp [eq, Loop.life])) Iff.rfl ?_
      Iff.rfl
    · simp [Loop.life, fired, withCall, withBase, eq]
    · simp [Loop.life, repeating]

/-- A yield is of a signal that its registration still holds. -/
theorem moves_yield {n : Nat} (left : Nat) {rest : List EvId}
    (alive : c.loop.alive = true) (signal : (c.loop.call n).kind.isSignal = true)
    (use : c.loop.base.activequeue = .call n :: rest ∧ c.loop.base.repeating = none ∨
      rest = c.loop.base.activequeue ∧ c.loop.base.repeating.map Prod.fst = some (.call n))
    (m : Nat) :
    (c.loop.life m).Moves
      (((c.withBase { c.loop.base with activequeue := rest }).yield n left).loop.life m) := by
  have queued : ∀ m, ((c.withBase { c.loop.base with activequeue := rest }).yield n
      left).loop.base.Queued (.call m) → c.loop.base.Queued (.call m) := by
    intro m q
    simp only [yield, withCall, withBase, Base.Queued] at q ⊢
    rcases use with ⟨queue, -⟩ | ⟨rfl, -⟩
    · rw [queue]
      simp only [List.mem_cons]
      tauto
    · exact q
  by_cases eq : m = n
  · subst eq
    have yields := Life.Moves.yield (v := c.loop.life m)
      (((c.withBase { c.loop.base with activequeue := rest }).yield m left).loop.life m).queued
      (((c.withBase { c.loop.base with activequeue := rest }).yield m left).loop.life m).repeating
      (queued m) (use.imp (fun h => Or.inr (Or.inr (by simp [h.1]))) fun h => h.2) signal alive
    refine yields.congr Iff.rfl ?_ Iff.rfl Iff.rfl Iff.rfl Iff.rfl
    simp [Loop.life, yield, withCall, withBase]
  · refine Life.moves_same Iff.rfl ?_ ⟨queued m, ?_⟩ Iff.rfl ?_ Iff.rfl
    · simp [Loop.life, yield, withCall, withBase, eq]
    · intro q
      simp only [Loop.life, yield, withCall, withBase, Base.Queued] at q ⊢
      rcases use with ⟨queue, -⟩ | ⟨rfl, -⟩
      · rw [queue] at q
        simp only [List.mem_cons, EvId.call.injEq, eq, false_or] at q
        exact q
      · exact q
    · simp only [Loop.life, yield, withCall, withBase]
      split
      · intro h; cases h
      · intro h; simp [Ne.symm eq] at h

/-- A signal event that leaves the active queue without a callback. -/
theorem moves_skip (h : c.loop.Sound) {n : Nat} {rest : List EvId}
    (queue : c.loop.base.activequeue = .call n :: rest)
    (signal : (c.loop.call n).kind.isSignal = true) (m : Nat) :
    (c.loop.life m).Moves
      ((c.withBase { c.loop.base with activequeue := rest }).loop.life m) := by
  have queued : ∀ m, { c.loop.base with activequeue := rest }.Queued (.call m) →
      c.loop.base.Queued (.call m) := by
    intro m
    simp only [Base.Queued, queue, List.mem_cons]
    tauto
  by_cases eq : m = n
  · subst eq
    obtain ⟨s, hs⟩ := h.life m
    obtain rfl := hs.listening (Or.inl (Or.inr (Or.inr (by simp [queue])))) signal
    exact .stay _ _ (queued m) (fun h => h) (Or.inl hs.2.1)
  · refine Life.moves_same Iff.rfl rfl ⟨queued m, ?_⟩ Iff.rfl (fun h => h) Iff.rfl
    simp only [Loop.life, withBase, Base.Queued, queue, List.mem_cons, EvId.call.injEq, eq,
      false_or]
    exact fun h => h

/-- The end of the loop takes every queued event with it. -/
theorem moves_freed (h : c.loop.Sound)
    (torn : ∀ r < c.loop.nextReg, (c.loop.reg r).torndown = true) (w : World) (m : Nat) :
    (c.loop.life m).Moves ((c.freed w).loop.life m) := by
  have held : ¬ (c.loop.life m).held := by
    rintro ⟨r, mem⟩
    have empty : (c.loop.reg r).events = [] := by
      by_cases lt : r < c.loop.nextReg
      · exact h.regs.torndown r (torn r lt)
      · exact (h.regs.fresh r (by omega)).1
    rw [empty] at mem
    simp at mem
  refine (Life.Moves.drop (v := c.loop.life m) held).congr Iff.rfl rfl ?_ Iff.rfl ?_ ?_
  · simp [Loop.life, freed, Base.Queued]
  · simp [Loop.life, freed]
  · simp [Loop.life, freed]

/-! ## Assembly -/

/-- **Every step moves every call as its life allows.** -/
theorem step_follows {a : Act} (h : c.loop.Sound) (hs : c.step a = some c') :
    c'.loop.Sound ∧ c.Follows c' := by
  have finish : c'.loop.Regs → (∀ m, (c.loop.life m).Moves (c'.loop.life m)) →
      c'.loop.Sound ∧ c.Follows c' := fun regs moves =>
    ⟨⟨fun m => (h.life m).moves (moves m), regs⟩, .single moves⟩
  cases step_cases hs with
  | listen r w hw => exact ⟨h, .refl c⟩
  | kernel act w hw => exact ⟨h, .refl c⟩
  | close o w hw =>
      exact finish (h.regs.congr rfl rfl)
        (Loop.life_moves_of_base rfl rfl rfl rfl (fun _ => Iff.rfl) (Or.inl rfl))
  | deinit o w may hw =>
      exact finish (h.regs.congr rfl rfl)
        (Loop.life_moves_of_base rfl rfl rfl rfl (fun _ => Iff.rfl) (Or.inl rfl))
  | answer n address r timeout env now call w alive new ans =>
      have answered : call.Answered := by
        cases ans <;> constructor <;> simp
      exact finish (h.regs.congr rfl rfl)
        (moves_record_idle (b := c.loop.base) new alive w (Or.inl answered) (fun _ => Iff.rfl) rfl)
  | start _ drives n kind o fd events w timeout env now alive new starts accept opens target =>
      refine finish ?_ (moves_start h new alive starts timeout env now)
      rw [startIo_eq { c with world := w } _ fd timeout env now (h.not_queued new)
        starts.isIo.2.2]
      dsimp only
      split
      · exact h.regs.congr rfl rfl
      · exact h.regs.congr rfl rfl
  | schedule n sleeps duration nomem env now alive new =>
      refine finish ?_ (moves_schedule h new alive sleeps duration nomem env now)
      rcases schedule_cases c (if sleeps then .sleep else .schedule) duration nomem env now
        (h.not_queued new) with ⟨b, hb, eq⟩ | ⟨-, eq⟩ | ⟨-, eq⟩
      all_goals
        rw [eq]
        exact h.regs.congr rfl rfl
  | signalStream args c' alive hc => exact follows_signalStream h alive hc
  | tearDown r alive opened =>
      obtain ⟨moves, regs⟩ := moves_tearDown h opened
      exact finish regs moves
  | free w alive torn hw => exact finish (h.regs.congr rfl rfl) (moves_freed h torn w)
  | dispatch ready now order b alive reports later quiet hb =>
      refine finish (h.regs.congr rfl rfl) (Loop.life_moves_of_base rfl rfl rfl rfl
        (fun n => Base.queued_dispatchPass hb) (Or.inr ?_))
      exact Base.repeating_dispatchPass hb quiet
  | pipe r rest alive quiet queue =>
      have act := Base.activates_evsigCb { c.loop.base with activequeue := rest }
      refine finish (h.regs.congr rfl rfl) (Loop.life_moves_of_base rfl rfl rfl rfl
        (fun n => act.queued.trans ?_) (Or.inl act.repeating))
      simp [Base.Queued, queue]
  | skip r n rest alive quiet queue signal =>
      exact finish (h.regs.congr rfl rfl) (moves_skip h queue signal)
  | yield r n left rest alive quiet queue signal =>
      exact finish (h.regs.congr rfl rfl) (moves_yield left alive signal (Or.inl ⟨queue, quiet⟩))
  | again r n left alive rep =>
      have uses : c.loop.base.repeating.map Prod.fst = some (.call n) := by simp [rep]
      exact finish (h.regs.congr rfl rfl)
        (moves_yield left alive (h.signal_of_repeating uses) (Or.inr ⟨rfl, uses⟩))
  | fire r n rest fx alive quiet queue signal body =>
      exact finish (h.regs.congr rfl rfl)
        (moves_fired alive quiet (Or.inr (Or.inr (by simp [queue]))) signal fx)
  | breakSignal =>
      exact finish (h.regs.congr rfl rfl)
        (Loop.life_moves_of_base rfl rfl rfl rfl (fun _ => Iff.rfl) (Or.inr rfl))
  | raise sig alive =>
      exact finish (h.regs.congr rfl rfl)
        (Loop.life_moves_of_base rfl rfl rfl rfl (fun _ => Iff.rfl) (Or.inl rfl))

/-- Calls are numbered apart. -/
theorem nodup_made_step {a : Act} (sound : c.loop.Sound) (nodup : c.loop.made.Nodup)
    (hs : c.step a = some c') : c'.loop.made.Nodup := by
  have snoc : ∀ {n : Nat} {l : List Nat}, l.Nodup → n ∉ l → (l ++ [n]).Nodup := fun nd new =>
    List.nodup_append'.mpr ⟨nd, List.nodup_singleton _, List.disjoint_singleton.mpr new⟩
  cases step_cases hs with
  | answer n address r timeout env now call w alive new ans => exact snoc nodup new
  | start _ drives n kind o fd events w timeout env now alive new starts accept opens target =>
      exact snoc nodup new
  | schedule n sleeps duration nomem env now alive new =>
      rcases schedule_cases c (if sleeps then .sleep else .schedule) duration nomem env now
        (sound.not_queued new) with ⟨b, hb, eq⟩ | ⟨-, eq⟩ | ⟨-, eq⟩
      all_goals
        rw [eq]
        exact snoc nodup new
  | signalStream args c' alive hc =>
      refine signalStream_induct (P := fun e => e.loop.made.Nodup) hc nodup
        (fun e arg e' _ nd hs => ?_)
      rw [signalOne] at hs
      split at hs
      · cases hs
      · next new =>
          dsimp only at hs
          split at hs
          · cases hs
            exact snoc nd new
          · cases hs
            exact snoc nd new
  | tearDown r alive opened =>
      rw [tearDown]
      split
      · exact nodup
      · rw [(torn_foldl c (sound.regs.nodup r)).made]
        exact nodup
  | _ => exact nodup

/-! ## Whole runs -/

theorem Follows.trans {c'' : Core} (h : c.Follows c') (h' : c'.Follows c'') : c.Follows c'' :=
  fun m => (h m).trans (h' m)

/-- A process that has only created its loop. -/
def init (endian : Endian) (pipeFd : Fd) : Core where
  world := (World.init endian).openObj .pipe 0 pipeFd {}
  loop := Loop.new 0 0 pipeFd

/-- It has made `EventLoop()` where the pipe has got a number. -/
example (endian : Endian) {pipeFd : Fd} (valid : 0 ≤ pipeFd) :
    newLoop (World.init endian) 0 pipeFd = some (init endian pipeFd) := by
  have free : (World.init endian).Free pipeFd := ⟨valid, rfl⟩
  simp only [newLoop, free, if_true]
  rfl

theorem sound_new (self pipe : Nat) (pipeFd : Fd) : (Loop.new self pipe pipeFd).Sound where
  life n := ⟨.unmade, by simp [Loop.new, Loop.life],
    ⟨by simp [Loop.new, Loop.life, Base.new, Base.Queued], by simp [Loop.new, Loop.life],
      by simp [Loop.new, Loop.life, Base.new]⟩⟩
  regs := by constructor <;> simp [Loop.new]

/-- **Along every run each call moves as its life allows.** -/
theorem run_follows {as : List Act} (h : c.loop.Sound)
    (run : StepSystem.run Core.step c as = some c') : c'.loop.Sound ∧ c.Follows c' := by
  have keep : ∀ d a d', d.loop.Sound ∧ c.Follows d → d.step a = some d' →
      d'.loop.Sound ∧ c.Follows d' := by
    intro d a d' hd step
    obtain ⟨sound, follows⟩ := step_follows hd.1 step
    exact ⟨sound, hd.2.trans follows⟩
  exact StepSystem.invariant_run (P := fun d => d.loop.Sound ∧ c.Follows d) keep ⟨h, .refl c⟩ run

theorem sound_run {endian : Endian} {pipeFd : Fd} {as : List Act}
    (run : StepSystem.run Core.step (init endian pipeFd) as = some c) : c.loop.Sound :=
  (run_follows (sound_new 0 0 pipeFd) run).1

theorem nodup_made_run {endian : Endian} {pipeFd : Fd} {as : List Act}
    (run : StepSystem.run Core.step (init endian pipeFd) as = some c) : c.loop.made.Nodup := by
  have keep : ∀ (d : Core) a d', d.loop.Sound ∧ d.loop.made.Nodup → d.step a = some d' →
      d'.loop.Sound ∧ d'.loop.made.Nodup := fun d a d' hd step =>
    ⟨(step_follows hd.1 step).1, nodup_made_step hd.1 hd.2 step⟩
  exact (StepSystem.invariant_run (P := fun d : Core => d.loop.Sound ∧ d.loop.made.Nodup) keep
    ⟨sound_new 0 0 pipeFd, List.nodup_nil⟩ run).2

end Core

end SwiftEvent
