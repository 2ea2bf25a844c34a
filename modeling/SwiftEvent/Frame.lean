import SwiftEvent.Refine

/-!
# What the other steps leave alone

A call that waits is touched by three things: its own start, the passes of the
loop, and its own callback.  Everything else leaves its record, its event and its
place on the queues as they are (`kept_step`).  A call that comes to wait for a
descriptor was started by this very step (`starts_of_new`).
-/

namespace SwiftEvent

theorem Kind.not_io_of_signal {kind : Kind} (h : kind.isSignal = true) : kind.isIo = false := by
  cases kind <;> simp_all [Kind.isSignal, Kind.isIo]

theorem Kind.not_signal_of_io {kind : Kind} (h : kind.isIo = true) : kind.isSignal = false := by
  cases kind <;> simp_all [Kind.isSignal, Kind.isIo]

namespace Core

variable {c c' : Core} {a : Act} {n : Nat}

/-- Nothing has happened to the call and its event. -/
structure Kept (c c' : Core) (n : Nat) : Prop where
  call : c'.loop.call n = c.loop.call n
  ev : c'.loop.base.ev (.call n) = c.loop.base.ev (.call n)
  inserted : .call n ∈ c'.loop.base.inserted ↔ .call n ∈ c.loop.base.inserted
  timeheap : .call n ∈ c'.loop.base.timeheap ↔ .call n ∈ c.loop.base.timeheap
  active : .call n ∈ c'.loop.base.activequeue ↔ .call n ∈ c.loop.base.activequeue
  pass : c'.loop.base.pass = c.loop.base.pass

theorem Kept.refl (c : Core) (n : Nat) : c.Kept c n :=
  ⟨rfl, rfl, Iff.rfl, Iff.rfl, Iff.rfl, rfl⟩

theorem Kept.trans {c'' : Core} (h : c.Kept c' n) (h' : c'.Kept c'' n) : c.Kept c'' n :=
  ⟨h'.call.trans h.call, h'.ev.trans h.ev, h'.inserted.trans h.inserted,
    h'.timeheap.trans h.timeheap, h'.active.trans h.active, h'.pass.trans h.pass⟩

/-- A step that replaces the base only. -/
theorem Kept.base {b : Base} (ev : b.ev = c.loop.base.ev)
    (inserted : b.inserted = c.loop.base.inserted) (timeheap : b.timeheap = c.loop.base.timeheap)
    (active : .call n ∈ b.activequeue ↔ .call n ∈ c.loop.base.activequeue)
    (pass : b.pass = c.loop.base.pass) : c.Kept (c.withBase b) n :=
  ⟨rfl, by simp [withBase, ev], by simp [withBase, inserted], by simp [withBase, timeheap],
    active, pass⟩

/-- Another call is deleted. -/
theorem Kept.del {m : Nat} (ne : n ≠ m) (call : Call) :
    c.Kept ((c.withBase (c.loop.base.eventDelNolock c.opened (.call m))).withCall m call) n := by
  constructor <;> simp [withCall, withBase, ne]

theorem kept_signalOne {r : Nat} {arg : SignalArg} (sound : c.loop.Sound)
    (hs : c.signalOne r arg = some c') (made : n ∈ c.loop.made) : c.Kept c' n := by
  obtain ⟨new, rfl | ⟨added, b, add, rfl⟩⟩ := signalOne_cases hs sound.not_queued
  · have ne : n ≠ arg.n := by
      rintro rfl
      exact new made
    constructor <;> simp [record, ne]
  · have ne : n ≠ arg.n := by
      rintro rfl
      exact new made
    obtain ⟨_, _, rfl | ⟨-, -, -, rfl⟩⟩ := Base.evmapSignalAdd_cases add
    · cases added <;> constructor <;> simp [record, append, withBase, eventBase, ne]
    · constructor <;> simp [record, append, withBase, eventBase, ne]

theorem kept_signalStream {args : List SignalArg} (sound : c.loop.Sound)
    (alive : c.loop.alive = true) (h : c.signalStream args = some c') (made : n ∈ c.loop.made) :
    c.Kept c' n := by
  obtain ⟨-, -, kept, -⟩ := signalStream_rounds
    (P := fun d => c.Kept d n ∧ n ∈ d.loop.made) sound alive h
    ⟨⟨rfl, rfl, Iff.rfl, Iff.rfl, Iff.rfl, rfl⟩, made⟩
    (fun d arg d' _ streaming kept hs => by
      refine ⟨kept.1.trans (kept_signalOne streaming.sound hs kept.2), ?_⟩
      obtain ⟨-, rfl | ⟨added, b, add, rfl⟩⟩ := signalOne_cases hs streaming.sound.not_queued
      · simp [record, kept.2]
      · simp [record, append, withBase, kept.2])
  exact kept

theorem kept_tearDown (sound : c.loop.Sound) (r : Nat)
    (signal : (c.loop.call n).kind.isSignal = false) : c.Kept (c.tearDown r) n := by
  have free : n ∉ (c.loop.reg r).events := by
    intro mem
    obtain ⟨s, hs⟩ := sound.life n
    obtain rfl := hs.listening_of_held ⟨r, mem⟩
    have : (c.loop.call n).kind.isSignal = true := hs.2.2.2.signal
    rw [signal] at this
    cases this
  have rounds : ∀ (ns : List Nat) (d : Core), n ∉ ns → d.Kept (ns.foldl tearDownOne d) n := by
    intro ns
    induction ns with
    | nil => intro d _; exact .refl d n
    | cons m ns ih =>
        intro d out
        simp only [List.mem_cons, not_or] at out
        exact (Kept.del out.1 _).trans (ih (d.tearDownOne m) out.2)
  rw [tearDown]
  split
  · exact .refl c n
  · have torn := rounds (c.loop.reg r).events c free
    exact ⟨torn.call, torn.ev, torn.inserted, torn.timeheap, torn.active, torn.pass⟩

/-- **Outside the passes of the loop, nothing happens to a call that waits**, until
its callback runs. -/
theorem kept_step (sound : c.loop.Sound) (h : c.step a = some c')
    (notPass : ∀ ready now order, a ≠ .dispatch ready now order) (made : n ∈ c.loop.made)
    (queued : c'.loop.base.Queued (.call n)) (signal : (c.loop.call n).kind.isSignal = false)
    (quiet : (c.loop.base.ev (.call n)).evEvents.signal = false) : c.Kept c' n := by
  have other : ∀ {m}, m ∉ c.loop.made → n ≠ m := by
    rintro m new rfl
    exact new made
  -- the events that leave the active queue here are signals
  have apart : ∀ {m}, (c.loop.call m).kind.isSignal = true → n ≠ m := by
    rintro m sig rfl
    rw [signal] at sig
    cases sig
  cases step_cases h with
  | listen r w hw => exact ⟨rfl, rfl, Iff.rfl, Iff.rfl, Iff.rfl, rfl⟩
  | kernel act w hw => exact ⟨rfl, rfl, Iff.rfl, Iff.rfl, Iff.rfl, rfl⟩
  | close o w hw => exact ⟨rfl, rfl, Iff.rfl, Iff.rfl, Iff.rfl, rfl⟩
  | deinit o w may hw => exact ⟨rfl, rfl, Iff.rfl, Iff.rfl, Iff.rfl, rfl⟩
  | answer m address r timeout env now call w alive new ans =>
      constructor <;> simp [record, other new]
  | start _ drives m kind o fd events w timeout env now alive new starts accept opens target =>
      have ne := other new
      rw [startIo_eq { c with world := w } _ fd timeout env now (sound.not_queued new)
        starts.isIo.2.2]
      dsimp only
      split
      · cases timeout <;> constructor <;>
          simp [record, withBase, addedBase, eventBase, Base.withTimeout, ne]
      · constructor <;> simp [record, withBase, eventBase, ne]
  | schedule m sleeps duration nomem env now alive new =>
      have ne := other new
      rcases schedule_cases c (if sleeps then .sleep else .schedule) duration nomem env now
        (sound.not_queued new) with ⟨b, rfl | rfl, eq⟩ | ⟨-, eq⟩ | ⟨-, eq⟩
      · rw [eq]
        constructor <;> simp [record, withBase, ne]
      · rw [eq]
        constructor <;> simp [record, withBase, eventBase, ne]
      · rw [eq]
        constructor <;> simp [record, withBase, eventBase, Base.withTimeout, ne]
      · rw [eq]
        have ne' : EvId.call n ≠ .call m := by simpa using ne
        constructor
        · simp [record, withBase, ne]
        · simp only [record, withBase]
          rw [Base.eventActiveNolock_ev_of_ne _ ne']
          exact Function.update_of_ne ne' _ _
        · simp [record, withBase, eventBase]
        · simp [record, withBase, eventBase]
        · simp only [record, withBase, Base.mem_eventActiveNolock]
          exact or_iff_left ne'
        · simp [record, withBase, eventBase]
  | signalStream args c' alive hc => exact kept_signalStream sound alive hc made
  | tearDown r alive opened => exact kept_tearDown sound r signal
  | free w alive torn hw => simp [freed, Base.Queued] at queued
  | dispatch ready now order => exact absurd rfl (notPass ready now order)
  | pipe r rest alive quiet' queue =>
      have frame := Base.evsigCb_of_not_signal (b := { c.loop.base with activequeue := rest }) quiet
      have act := Base.activates_evsigCb { c.loop.base with activequeue := rest }
      refine ⟨rfl, frame.1, ?_, ?_, frame.2.trans ?_, act.pass⟩
      · simp only [withBase, act.inserted]
      · simp only [withBase, act.timeheap]
      · simp [queue]
  | skip r m rest alive quiet' queue sig =>
      exact .base rfl rfl rfl (by simp [queue, apart sig]) rfl
  | yield r m left rest alive quiet' queue sig =>
      refine (Kept.base (b := { c.loop.base with activequeue := rest }) rfl rfl rfl
        (by simp [queue, apart sig]) rfl).trans ?_
      constructor <;> simp [Core.yield, withCall, withBase, apart sig]
  | again r m left alive rep =>
      have sig := sound.signal_of_repeating (n := m) (by simp [rep])
      constructor <;> simp [Core.yield, withCall, withBase, apart sig]
  | fire r m rest fx alive quiet' queue sig body =>
      have ne : n ≠ m := by
        rintro rfl
        exact ((Base.queued_eventDelNolock c.loop.base c.opened (.call n)).mp queued).2 rfl
      have kept := Kept.del (c := c) ne (fx.settle (c.loop.call m))
      exact ⟨kept.call, kept.ev, kept.inserted, kept.timeheap, kept.active, kept.pass⟩
  | breakSignal => exact .base rfl rfl rfl Iff.rfl rfl
  | raise sig alive => exact .base rfl rfl rfl Iff.rfl rfl

/-- The event of the signal pipe, or of a call that was made. -/
def Known (c : Core) : EvId → Prop
  | .signalPipe => True
  | .call n => n ∈ c.loop.made

theorem Known.ne {e : EvId} (known : c.Known e) (new : n ∉ c.loop.made) : e ≠ .call n := by
  rintro rfl
  exact new known

/-- **What an event waits for is fixed when it is made.** -/
theorem shape_step (sound : c.loop.Sound) (h : c.step a = some c') {e : EvId} (known : c.Known e) :
    (c'.loop.base.ev e).shape = (c.loop.base.ev e).shape := by
  cases step_cases h with
  | start _ drives m kind o fd events w timeout env now alive new starts accept opens target =>
      have ne := known.ne new
      rw [startIo_eq { c with world := w } _ fd timeout env now (sound.not_queued new)
        starts.isIo.2.2]
      dsimp only
      split
      · simp only [record, withBase, addedBase, Base.withTimeout_shape]
        simp [eventBase, ne]
      · simp [record, withBase, eventBase, ne]
  | schedule m sleeps duration nomem env now alive new =>
      have ne := known.ne new
      rcases schedule_cases c (if sleeps then .sleep else .schedule) duration nomem env now
        (sound.not_queued new) with ⟨b, rfl | rfl, eq⟩ | ⟨-, eq⟩ | ⟨-, eq⟩
      · rw [eq]
        rfl
      · rw [eq]
        simp [record, withBase, eventBase, ne]
      · rw [eq]
        simp only [record, withBase, Base.withTimeout_shape]
        simp [eventBase, ne]
      · rw [eq]
        simp only [record, withBase]
        rw [Base.eventActiveNolock_ev_of_ne _ ne]
        simp [eventBase, ne]
  | signalStream args c' alive hc =>
      refine (signalStream_rounds (P := fun d => d.Known e ∧
        (d.loop.base.ev e).shape = (c.loop.base.ev e).shape) sound alive hc ⟨known, rfl⟩
        (fun d arg d' _ streaming ih hs => ?_)).2.2.2
      obtain ⟨new, rfl | ⟨added, b, add, rfl⟩⟩ := signalOne_cases hs streaming.sound.not_queued
      · refine ⟨?_, ih.2⟩
        cases e with
        | signalPipe => trivial
        | call n => exact List.mem_append_left _ ih.1
      · have ne := ih.1.ne new
        refine ⟨?_, ?_⟩
        · cases e with
          | signalPipe => trivial
          | call n => exact List.mem_append_left _ ih.1
        · obtain ⟨_, _, rfl | ⟨-, -, -, rfl⟩⟩ := Base.evmapSignalAdd_cases add
          · simpa [record, append, withBase, eventBase, ne] using ih.2
          · simpa [record, append, withBase, eventBase, ne] using ih.2
  | tearDown r alive opened =>
      refine tearDown_induct (P := fun d =>
        (d.loop.base.ev e).shape = (c.loop.base.ev e).shape) rfl (fun d m ih _ => ?_)
        (fun d reg ih => ih)
      simpa [tearDownOne, withCall, withBase] using ih
  | dispatch ready now order b alive reports later quiet hb => exact Base.shape_dispatchPass hb e
  | pipe r rest alive quiet queue =>
      exact (Base.activates_evsigCb { c.loop.base with activequeue := rest }).shape e
  | fire r m rest fx alive quiet queue sig body => simp [fired, withCall, withBase]
  | _ => rfl

/-- A loop stays the loop it is. -/
theorem ident_step (h : c.step a = some c') :
    c'.loop.self = c.loop.self ∧ c'.loop.pipe = c.loop.pipe ∧
      (c'.loop.alive = true → c.loop.alive = true) := by
  cases step_cases h with
  | schedule m sleeps duration nomem env now alive new =>
      simp only [schedule]
      split
      · exact ⟨rfl, rfl, fun h => h⟩
      · split
        · split <;> exact ⟨rfl, rfl, fun h => h⟩
        · exact ⟨rfl, rfl, fun h => h⟩
  | signalStream args c' alive hc =>
      refine signalStream_induct (P := fun d => d.loop.self = c.loop.self ∧
        d.loop.pipe = c.loop.pipe ∧ (d.loop.alive = true → c.loop.alive = true)) hc
        ⟨rfl, rfl, fun h => h⟩ (fun d arg d' _ same hs => ?_)
      rw [signalOne] at hs
      split at hs
      · cases hs
      · dsimp only at hs
        split at hs <;> cases hs <;> exact same
  | tearDown r alive opened =>
      have rounds : ∀ (ns : List Nat) (d : Core), (ns.foldl tearDownOne d).loop.self = d.loop.self ∧
          (ns.foldl tearDownOne d).loop.pipe = d.loop.pipe := by
        intro ns
        induction ns with
        | nil => intro d; exact ⟨rfl, rfl⟩
        | cons m ns ih => intro d; exact ih _
      refine ⟨?_, ?_, fun _ => alive⟩ <;> rw [tearDown] <;> split
      · rfl
      · exact (rounds _ c).1
      · rfl
      · exact (rounds _ c).2
  | free w alive torn hw => exact ⟨rfl, rfl, fun _ => alive⟩
  | _ => exact ⟨rfl, rfl, fun h => h⟩

/-- The calls a `signalStream` makes are signals. -/
theorem signalStream_made {args : List SignalArg} (h : c.signalStream args = some c') (n : Nat) :
    n ∈ c'.loop.made → n ∈ c.loop.made ∨ (c'.loop.call n).kind.isSignal = true := by
  refine signalStream_induct (P := fun e => n ∈ e.loop.made →
    n ∈ c.loop.made ∨ (e.loop.call n).kind.isSignal = true) h Or.inl (fun e arg e' _ ih hs => ?_)
  rw [signalOne] at hs
  split at hs
  · cases hs
  · next new =>
      have goal : ∀ call : Call, call.kind = .signal arg.signum →
          (n ∈ e.loop.made ++ [arg.n] → n ∈ c.loop.made ∨
            (Function.update e.loop.call arg.n call n).kind.isSignal = true) := by
        intro call kind mem
        by_cases eq : n = arg.n
        · subst eq
          rw [Function.update_self, kind]
          exact Or.inr rfl
        · rw [Function.update_of_ne eq]
          exact ih (by simpa [eq] using mem)
      dsimp only at hs
      split at hs
      · cases hs
        exact goal _ rfl
      · cases hs
        exact goal _ rfl

/-- **How a call is made** that is not a signal: decided at once, started on a
descriptor, or scheduled. -/
theorem made_step (sound : c.loop.Sound) (h : c.step a = some c') (new : n ∉ c.loop.made)
    (made : n ∈ c'.loop.made) (signal : (c'.loop.call n).kind.isSignal = false) :
    (∃ address r timeout env now call w, a = .connect n address r timeout env now ∧
      c.Answers address r call w ∧ c' = record { c with world := w } n call) ∨
    (∃ kind o fd events w timeout env now, a.drives = true ∧ c.Starts kind o fd events w ∧
      (kind = .accept → timeout = none) ∧
      c' = startIo { c with world := w } n { kind, obj := some o } fd events timeout env now) ∨
    ∃ sleeps duration nomem env now, a = .schedule n sleeps duration nomem env now ∧
      c' = c.schedule n (if sleeps then .sleep else .schedule) duration nomem env now := by
  have only : ∀ {m}, n ∈ c.loop.made ++ [m] → n = m := by
    intro m mem
    simpa [new] using mem
  cases step_cases h with
  | answer m address r timeout env now call w alive fresh ans =>
      obtain rfl := only made
      exact Or.inl ⟨address, r, timeout, env, now, call, w, rfl, ans, rfl⟩
  | start _ drives m kind o fd events w timeout env now alive fresh starts accept opens target =>
      obtain rfl := only made
      exact Or.inr (Or.inl ⟨kind, o, fd, events, w, timeout, env, now, drives, starts, accept, rfl⟩)
  | schedule m sleeps duration nomem env now alive fresh =>
      have eq : n = m := by
        rcases schedule_cases c (if sleeps then .sleep else .schedule) duration nomem env now
          (sound.not_queued fresh) with ⟨b, -, eq⟩ | ⟨-, eq⟩ | ⟨-, eq⟩
        all_goals
          rw [eq] at made
          exact only made
      subst eq
      exact Or.inr (Or.inr ⟨sleeps, duration, nomem, env, now, rfl, rfl⟩)
  | signalStream args c' alive hc =>
      rcases signalStream_made hc n made with mem | isSignal
      · exact absurd mem new
      · rw [signal] at isSignal
        cases isSignal
  | tearDown r alive opened =>
      exfalso
      rw [tearDown] at made
      split at made
      · exact new made
      · exact new (by simpa [(torn_foldl c (sound.regs.nodup r)).made] using made)
  | _ => exact absurd made new

/-- A queued call was made. -/
theorem made_of_queued (sound : c.loop.Sound) (queued : c.loop.base.Queued (.call n)) :
    n ∈ c.loop.made := by
  by_contra new
  exact sound.not_queued new queued

theorem known_of_queued (sound : c.loop.Sound) {e : EvId} (queued : c.loop.base.Queued e) :
    c.Known e := by
  cases e with
  | signalPipe => trivial
  | call n => exact made_of_queued sound queued

/-- Only its start puts an event on a queue. -/
theorem queued_back (sound : c.loop.Sound) (h : c.step a = some c') (made : n ∈ c.loop.made)
    (queued : c'.loop.base.Queued (.call n)) (signal : (c.loop.call n).kind.isSignal = false) :
    c.loop.base.Queued (.call n) := by
  obtain ⟨sound', follows⟩ := step_follows sound h
  obtain ⟨s, hs⟩ := sound.life n
  obtain ⟨s', hs', leads⟩ := Life.at_follows hs (follows n)
  have kind : (c'.loop.call n).kind = (c.loop.call n).kind :=
    (Life.kind_follows (follows n) made).1
  have signal' : (c'.loop.call n).kind.isSignal = false := kind ▸ signal
  obtain rfl := hs'.waiting queued signal'
  rcases leads.to_waiting with rfl | rfl
  · exact absurd made hs.1
  · exact hs.2.1

/-- **What a new call waits for**: a descriptor of its own or of its object, or a time. -/
theorem shape_of_new (sound : c.loop.Sound) (h : c.step a = some c') (new : n ∉ c.loop.made)
    (queued : c'.loop.base.Queued (.call n)) (signal : (c'.loop.call n).kind.isSignal = false) :
    (∃ kind o fd events w, c.Starts kind o fd events w ∧
      (c'.loop.base.ev (.call n)).shape = Event.shape { evFd := fd, evEvents := events }) ∨
    (c'.loop.base.ev (.call n)).shape = Event.shape {} := by
  have notQueued := sound.not_queued new
  have made := made_of_queued (step_follows sound h).1 queued
  rcases made_step sound h new made signal with ⟨_, _, _, _, _, call, w, -, -, rfl⟩ |
    ⟨kind, o, fd, events, w, timeout, env, now, -, starts, -, eq⟩ |
    ⟨sleeps, duration, nomem, env, now, -, eq⟩
  · have queued : c.loop.base.Queued (.call n) := queued
    exact absurd queued notQueued
  · rw [startIo_eq { c with world := w } _ fd timeout env now notQueued starts.isIo.2.2] at eq
    dsimp only at eq
    split at eq
    · subst eq
      exact Or.inl ⟨kind, o, fd, events, w, starts, addedBase_shape { c with world := w } n
        { evFd := fd, evEvents := events } now (timeout.map timevalFor)⟩
    · subst eq
      have queued : c.loop.base.Queued (.call n) := queued
      exact absurd queued notQueued
  · refine Or.inr ?_
    rcases schedule_cases c (if sleeps then .sleep else .schedule) duration nomem env now
      notQueued with ⟨b, base, eq'⟩ | ⟨-, eq'⟩ | ⟨-, eq'⟩
    · rw [eq.trans eq'] at queued
      rcases base with rfl | rfl <;> exact absurd queued notQueued
    · rw [eq.trans eq']
      simp [record, withBase, eventBase, Base.withTimeout, Event.shape]
    · rw [eq.trans eq']
      have notActive : EvId.call n ∉ c.loop.base.activequeue := fun mem =>
        notQueued (Or.inr (Or.inr mem))
      simp [record, withBase, eventBase, Base.eventActiveNolock, notActive, Event.shape]

/-- A step after which a new call waits for a descriptor has started it. -/
theorem starts_of_new (sound : c.loop.Sound) (h : c.step a = some c') (new : n ∉ c.loop.made)
    (queued : c'.loop.base.Queued (.call n)) (io : (c'.loop.call n).kind.isIo = true) :
    ∃ kind o fd events w timeout env now, c.Starts kind o fd events w ∧
      (kind = .accept → timeout = none) ∧
      c' = startIo { c with world := w } n { kind, obj := some o } fd events timeout env now := by
  have made := made_of_queued (step_follows sound h).1 queued
  have signal := Kind.not_signal_of_io io
  rcases made_step sound h new made signal with ⟨_, _, _, _, _, call, w, -, -, rfl⟩ |
    ⟨kind, o, fd, events, w, timeout, env, now, -, starts, accept, eq⟩ |
    ⟨sleeps, duration, nomem, env, now, -, rfl⟩
  · have queued : c.loop.base.Queued (.call n) := queued
    exact absurd queued (sound.not_queued new)
  · exact ⟨kind, o, fd, events, w, timeout, env, now, starts, accept, eq⟩
  · exfalso
    rcases schedule_cases c (if sleeps then .sleep else .schedule) duration nomem env now
      (sound.not_queued new) with ⟨b, -, eq⟩ | ⟨-, eq⟩ | ⟨-, eq⟩
    all_goals
      rw [eq] at io
      cases sleeps <;> simp [record, Kind.isIo] at io

/-- The call whose callback the loop runs next. -/
def nextCall (c : Core) : Option Nat :=
  match c.loop.base.repeating, c.loop.base.activequeue with
  | none, .call n :: _ => some n
  | _, _ => none

theorem nextCall_of_queue {rest : List EvId} (quiet : c.loop.base.repeating = none)
    (queue : c.loop.base.activequeue = .call n :: rest) : c.nextCall = some n := by
  simp [nextCall, quiet, queue]

theorem queue_of_nextCall (h : c.nextCall = some n) :
    c.loop.base.repeating = none ∧ ∃ rest, c.loop.base.activequeue = .call n :: rest := by
  unfold nextCall at h
  split at h
  · next m rest quiet queue =>
      cases h
      exact ⟨quiet, rest, queue⟩
  · cases h

theorem mem_of_nextCall (h : c.nextCall = some n) : .call n ∈ c.loop.base.activequeue := by
  obtain ⟨-, rest, queue⟩ := queue_of_nextCall h
  rw [queue]
  exact List.mem_cons_self

theorem queued_of_nextCall (h : c.nextCall = some n) : c.loop.base.Queued (.call n) :=
  Or.inr (Or.inr (mem_of_nextCall h))

/-- **What changes the record of a call**: its callback, and for a signal also
`tearDown`. -/
theorem record_step (sound : c.loop.Sound) (h : c.step a = some c') (made : n ∈ c.loop.made) :
    c'.loop.call n = c.loop.call n ∨
    ((c.loop.call n).kind.isSignal = true ∧
      (c'.loop.call n = (c.loop.call n).yielded ∨ c'.loop.call n = (c.loop.call n).torn)) ∨
    ∃ r fx, a = .callback r ∧ c.nextCall = some n ∧
      callbackBody c.world c.loop.self (c.loop.call n) (c.loop.base.ev (.call n)).evFd
        (c.loop.base.ev (.call n)).evRes r = some fx ∧ c' = c.fired n fx := by
  have other : ∀ {m}, m ∉ c.loop.made → n ≠ m := by
    rintro m new rfl
    exact new made
  have yields : ∀ {m : Nat} {rest : List EvId} {left : Nat}, (c.loop.call m).kind.isSignal = true →
      c' = (c.withBase { c.loop.base with activequeue := rest }).yield m left →
      c'.loop.call n = c.loop.call n ∨ (c.loop.call n).kind.isSignal = true ∧
        (c'.loop.call n = (c.loop.call n).yielded ∨ c'.loop.call n = (c.loop.call n).torn) := by
    rintro m rest left sig rfl
    by_cases eq : n = m
    · subst eq
      exact Or.inr ⟨sig, Or.inl (by simp [Core.yield, withCall, withBase])⟩
    · exact Or.inl (by simp [Core.yield, withCall, withBase, eq])
  cases step_cases h with
  | answer m address r timeout env now call w alive new ans =>
      exact Or.inl (by simp [record, other new])
  | start _ drives m kind o fd events w timeout env now alive new starts accept opens target =>
      exact Or.inl (by simp [startIo, record, withBase, eventNew, other new])
  | schedule m sleeps duration nomem env now alive new =>
      refine Or.inl ?_
      rcases schedule_cases c (if sleeps then .sleep else .schedule) duration nomem env now
        (sound.not_queued new) with ⟨b, -, eq⟩ | ⟨-, eq⟩ | ⟨-, eq⟩
      all_goals
        rw [eq]
        simp [record, withBase, other new]
  | signalStream args c' alive hc => exact Or.inl (kept_signalStream sound alive hc made).call
  | tearDown r alive opened =>
      rw [tearDown]
      split
      · exact Or.inl rfl
      · have torn := (torn_foldl c (sound.regs.nodup r)).call n
        by_cases mem : n ∈ (c.loop.reg r).events
        · rw [if_pos mem] at torn
          refine Or.inr (Or.inl ⟨?_, Or.inr torn⟩)
          obtain ⟨s, hs⟩ := sound.life n
          obtain rfl := hs.listening_of_held ⟨r, mem⟩
          exact hs.2.2.2.signal
        · rw [if_neg mem] at torn
          exact Or.inl torn
  | yield r m left rest alive quiet queue sig =>
      exact (yields sig rfl).imp_right Or.inl
  | again r m left alive rep =>
      exact (yields (sound.signal_of_repeating (n := m) (by simp [rep])) rfl).imp_right Or.inl
  | fire r m rest fx alive quiet queue sig body =>
      by_cases eq : n = m
      · subst eq
        exact Or.inr (Or.inr ⟨r, fx, rfl, nextCall_of_queue quiet queue, body, rfl⟩)
      · exact Or.inl (by simp [fired, withCall, eq, withBase])
  | _ => exact Or.inl rfl

/-- The same for a call that is not a signal. -/
theorem call_step (sound : c.loop.Sound) (h : c.step a = some c') (made : n ∈ c.loop.made)
    (signal : (c.loop.call n).kind.isSignal = false) :
    c'.loop.call n = c.loop.call n ∨
      ∃ r fx, a = .callback r ∧ c.nextCall = some n ∧
        callbackBody c.world c.loop.self (c.loop.call n) (c.loop.base.ev (.call n)).evFd
          (c.loop.base.ev (.call n)).evRes r = some fx ∧ c' = c.fired n fx := by
  rcases record_step sound h made with same | ⟨sig, -⟩ | fired
  · exact Or.inl same
  · rw [signal] at sig
    cases sig
  · exact Or.inr fired

/-! ## The time of the last pass -/

/-- Only a pass sets the time of the pass. -/
theorem pass_step (sound : c.loop.Sound) (h : c.step a = some c')
    (notPass : ∀ ready now order, a ≠ .dispatch ready now order) :
    c'.loop.base.pass = c.loop.base.pass := by
  cases step_cases h with
  | start _ drives m kind o fd events w timeout env now alive new starts accept opens target =>
      rw [startIo_eq { c with world := w } _ fd timeout env now (sound.not_queued new)
        starts.isIo.2.2]
      dsimp only
      split
      · simp [record, withBase, addedBase, eventBase]
      · simp [record, withBase, eventBase]
  | schedule m sleeps duration nomem env now alive new =>
      rcases schedule_cases c (if sleeps then .sleep else .schedule) duration nomem env now
        (sound.not_queued new) with ⟨b, rfl | rfl, eq⟩ | ⟨-, eq⟩ | ⟨-, eq⟩
      all_goals
        rw [eq]
        simp [record, withBase, eventBase]
  | signalStream args c' alive hc =>
      refine (signalStream_rounds (P := fun d => d.loop.base.pass = c.loop.base.pass) sound alive hc
        rfl (fun d arg d' _ streaming same hs => ?_)).2.2
      obtain ⟨-, rfl | ⟨added, b, add, rfl⟩⟩ := signalOne_cases hs streaming.sound.not_queued
      · exact same
      · obtain ⟨_, _, rfl | ⟨-, -, -, rfl⟩⟩ := Base.evmapSignalAdd_cases add
        · exact same
        · exact same
  | tearDown r alive opened =>
      refine tearDown_induct (P := fun d => d.loop.base.pass = c.loop.base.pass) rfl
        (fun d m same _ => ?_) (fun d reg same => same)
      simpa [tearDownOne, withCall, withBase] using same
  | dispatch ready now order => exact absurd rfl (notPass ready now order)
  | pipe r rest alive quiet queue =>
      exact (Base.activates_evsigCb { c.loop.base with activequeue := rest }).pass
  | fire r m rest fx alive quiet queue sig body => simp [fired, withCall, withBase]
  | _ => rfl

/-- No pass is earlier than the one before, or begins while a signal's callback is repeated. -/
theorem pass_le {ready : List (Fd × Base.EpollReport)} {now : Timeval} {order : List EvId}
    (h : c.step (.dispatch ready now order) = some c') :
    c.loop.base.pass ≤ now ∧ c.loop.base.repeating = none := by
  cases step_cases h with
  | start _ drives => cases drives
  | dispatch _ _ _ b alive reports later quiet hb => exact ⟨later, quiet⟩

/-- The pass is given its time. -/
theorem pass_dispatch {ready : List (Fd × Base.EpollReport)} {now : Timeval} {order : List EvId}
    (h : c.step (.dispatch ready now order) = some c') : c'.loop.base.pass = now := by
  cases step_cases h with
  | start _ drives => cases drives
  | dispatch _ _ _ b alive reports later quiet hb =>
      obtain ⟨d, act, exp, -⟩ := Base.dispatchPass_eq_some hb
      exact exp.pass

end Core

end SwiftEvent
