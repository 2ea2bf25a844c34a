import SwiftEvent.Signals

/-!
# Signal deliveries

A caught signal is a byte in the signal pipe; `evsig_cb` counts the bytes of each
signal and activates the signal's events with that count; and the callback of an
event is repeated as often as its count says.  Each stage keeps the number, with
four exceptions, all of which are about the registration or about large batches:

* an event for each mention of the signal: a stream that lists it twice is given
  each delivery twice;
* bytes of deliveries that were caught before the stream was created;
* the count is a `short`: 65536 bytes in one batch are none;
* `stop()` while a callback is being repeated drops the rest of the repetition.

Without the last two, a stream is given each delivery, those that were in the pipe
included, once for each of its events that libevent took (`deliveries_counted`).

The order of the active queue is what makes the count exact.  An event that is
active when `evsig_cb` runs would keep its old count and lose the new one; but
signal events never stand behind the event of the pipe (`InLine`).
-/

namespace SwiftEvent

namespace Base

variable {b : Base} {e : EvId}

/-! ## Counting a batch -/

/-- An event that is active already keeps its count. -/
theorem eventActiveNolock_ncalls (active : e ∈ b.activequeue) (x : EvId) (res : Evs)
    (ncalls : Nat) : ((b.eventActiveNolock x res ncalls).ev e).evNcalls = (b.ev e).evNcalls := by
  by_cases eq : e = x
  · subst eq
    simp [eventActiveNolock, active]
  · rw [eventActiveNolock_ev_of_ne _ eq]

/-- So it does through a whole list of reports. -/
theorem foldl_ncalls (active : e ∈ b.activequeue) (ncalls : Nat) (l : List EvId) :
    let c := l.foldl (fun b x => b.eventActiveNolock x { signal := true } ncalls) b
    e ∈ c.activequeue ∧ (c.ev e).evNcalls = (b.ev e).evNcalls := by
  induction l generalizing b with
  | nil => exact ⟨active, rfl⟩
  | cons x l ih =>
      have still : e ∈ (b.eventActiveNolock x { signal := true } ncalls).activequeue := by
        rw [mem_eventActiveNolock]
        exact Or.inl active
      obtain ⟨stays, same⟩ := ih still
      exact ⟨stays, same.trans (eventActiveNolock_ncalls active x _ ncalls)⟩

/-- An inactive event of the signal becomes active with the count of the batch. -/
theorem evmapSignalActive_of_mem {sig : Int} (mem : e ∈ b.evmapSignal sig)
    (inactive : e ∉ b.activequeue) (ncalls : Nat) :
    e ∈ (b.evmapSignalActive sig ncalls).activequeue ∧
      ((b.evmapSignalActive sig ncalls).ev e).evNcalls = ncalls % 65536 := by
  have signal : (b.ev e).evEvents.signal = true := (mem_evmapSignal.mp mem).2.1
  have go : ∀ (l : List EvId) (c : Base), e ∈ l → e ∉ c.activequeue →
      (c.ev e).evEvents.signal = true →
      e ∈ (l.foldl (fun b x => b.eventActiveNolock x { signal := true } ncalls) c).activequeue ∧
      ((l.foldl (fun b x => b.eventActiveNolock x { signal := true } ncalls) c).ev e).evNcalls =
        ncalls % 65536 := by
    intro l
    induction l with
    | nil => intro c mem; cases mem
    | cons x l ih =>
        intro c mem inactive signal
        rw [List.foldl_cons]
        by_cases eq : e = x
        · subst eq
          have now : e ∈ (c.eventActiveNolock e { signal := true } ncalls).activequeue := by
            rw [mem_eventActiveNolock]
            exact Or.inr rfl
          obtain ⟨stays, same⟩ := foldl_ncalls now ncalls l
          refine ⟨stays, same.trans ?_⟩
          simp [eventActiveNolock, inactive, signal]
        · apply ih
          · exact (List.mem_cons.mp mem).resolve_left eq
          · rw [mem_eventActiveNolock]
            exact fun active => active.elim inactive eq
          · rw [eventActiveNolock_ev_of_ne _ eq]
            exact signal
  exact go _ b mem inactive signal

/-- **What `evsig_cb` makes of an inactive event** of the signal `s`: it is active with the number
of bytes in the pipe, or stays inactive if there are none. -/
theorem evsigCb_of_slot {s : Nat} (small : s < nsig) (mem : e ∈ b.evmapSignal s)
    (inactive : e ∉ b.activequeue) :
    if b.pipe.count s = 0 then e ∉ b.evsigCb.activequeue
    else e ∈ b.evsigCb.activequeue ∧ (b.evsigCb.ev e).evNcalls = b.pipe.count s % 65536 := by
  obtain ⟨inserted, signal, fd⟩ := mem_evmapSignal.mp mem
  let f := fun (c : Base) (sig : Nat) =>
    if b.pipe.count sig = 0 then c else c.evmapSignalActive sig (b.pipe.count sig)
  have act : ∀ c sig, Activates c (f c sig) := by
    intro c sig
    show Activates c (if _ then _ else _)
    split
    · exact .refl c
    · exact activates_evmapSignalActive c sig _
  -- what is active stays so, with its count
  have after : ∀ (l : List Nat) (c : Base), e ∈ c.activequeue →
      e ∈ (l.foldl f c).activequeue ∧ ((l.foldl f c).ev e).evNcalls = (c.ev e).evNcalls := by
    intro l
    induction l with
    | nil => intro c active; exact ⟨active, rfl⟩
    | cons sig l ih =>
        intro c active
        obtain ⟨stays, same⟩ := ih (f c sig) ((act c sig).keeps active)
        refine ⟨stays, same.trans ?_⟩
        show ((if _ then c else _ : Base).ev e).evNcalls = _
        split
        · rfl
        · exact (foldl_ncalls active _ _).2
  -- the batch of the signal is reported once, in its turn
  have turn : ∀ (l : List Nat) (c : Base), Activates { b with pipe := [] } c →
      e ∉ c.activequeue →
      if s ∈ l ∧ b.pipe.count s ≠ 0 then
        e ∈ (l.foldl f c).activequeue ∧
          ((l.foldl f c).ev e).evNcalls = b.pipe.count s % 65536
      else e ∉ (l.foldl f c).activequeue := by
    intro l
    induction l with
    | nil =>
        intro c _ inactive
        rw [if_neg (fun h => absurd h.1 List.not_mem_nil)]
        exact inactive
    | cons sig l ih =>
        intro c hc inactive
        rw [List.foldl_cons]
        have slot : e ∈ c.evmapSignal sig ↔ sig = s := by
          rw [mem_evmapSignal, hc.inserted, (Event.shape_eq (hc.shape e)).1,
            (Event.shape_eq (hc.shape e)).2.1]
          constructor
          · rintro ⟨-, -, eq⟩
            exact Nat.cast_injective (R := Int) (eq.symm.trans fd)
          · rintro rfl
            exact ⟨inserted, signal, fd⟩
        by_cases reported : sig = s ∧ b.pipe.count s ≠ 0
        · obtain ⟨rfl, some_⟩ := reported
          have report : f c sig = c.evmapSignalActive sig (b.pipe.count sig) := if_neg some_
          obtain ⟨active, ncalls⟩ := evmapSignalActive_of_mem (slot.mpr rfl) inactive
            (b.pipe.count sig)
          rw [← report] at active ncalls
          obtain ⟨stays, same⟩ := after l (f c sig) active
          rw [if_pos ⟨List.mem_cons_self, some_⟩]
          exact ⟨stays, same.trans ncalls⟩
        · have still : e ∉ (f c sig).activequeue := by
            show e ∉ (if _ then c else _ : Base).activequeue
            split
            · exact inactive
            · next some_ =>
                have other : sig ≠ s := by
                  rintro rfl
                  exact reported ⟨rfl, some_⟩
                rw [(evmapSignalActive_of_notMem (fun mem => other (slot.mp mem)) _).2]
                exact inactive
          have rest := ih (f c sig) (hc.trans (act c sig)) still
          by_cases some_ : b.pipe.count s = 0
          · simpa [some_] using rest
          · have ne : s ≠ sig := fun eq => reported ⟨eq.symm, some_⟩
            simpa [ne] using rest
  have all := turn (List.range nsig) { b with pipe := [] } (.refl _) inactive
  by_cases none : b.pipe.count s = 0
  · rw [if_pos none]
    rwa [if_neg (fun h => h.2 none)] at all
  · rw [if_neg none]
    rwa [if_pos ⟨List.mem_range.mpr small, none⟩] at all

/-! ## A pass -/

/-- Readiness concerns events of descriptors only. -/
theorem epollDispatch_of_not_io (quiet : (b.ev e).evEvents.isIo = false)
    (ready : List (Fd × EpollReport)) :
    (b.epollDispatch ready).ev e = b.ev e ∧
      (e ∈ (b.epollDispatch ready).activequeue ↔ e ∈ b.activequeue) := by
  have out : ∀ {c : Base}, (c.ev e).evEvents.isIo = false → ∀ fd, e ∉ c.evmapIo fd := by
    intro c quiet fd mem
    have io := (mem_evmapIo.mp mem).2.1
    rw [quiet] at io
    cases io
  refine ⟨?_, ?_⟩
  · induction ready generalizing b with
    | nil => rfl
    | cons r ready ih =>
        have one : ∀ (l : List EvId) (c : Base), e ∉ l →
            (l.foldl (fun b x =>
              if ((b.ev x).evEvents.inter r.2.toEvs).isSet then
                b.eventActiveNolock x ((b.ev x).evEvents.inter r.2.toEvs) 1
              else b) c).ev e = c.ev e := by
          intro l
          induction l with
          | nil => intro c _; rfl
          | cons x l ih =>
              intro c notMem
              simp only [List.mem_cons, not_or] at notMem
              rw [List.foldl_cons, ih _ notMem.2]
              split
              · exact eventActiveNolock_ev_of_ne _ notMem.1 _ _
              · rfl
        have same : (b.evmapIoActive r.1 r.2.toEvs).ev e = b.ev e := one _ b (out quiet r.1)
        exact (ih (by rw [same]; exact quiet)).trans same
  · rw [mem_epollDispatch]
    refine or_iff_left ?_
    rintro ⟨r, -, mem, -⟩
    exact out quiet r.1 mem

/-- Expiry moves entries of the heap to the end of the queue. -/
theorem ordered_timeoutProcess {b' : Base} {opened : Fd → Bool} {now : Timeval} {order : List EvId}
    {p : EvId → Prop} (h : b.timeoutProcess opened now order = some b')
    (heap : ∀ e ∈ b.timeheap, p e)
    (ordered : b.activequeue.Pairwise fun x y => x = .signalPipe → p y) :
    b'.activequeue.Pairwise fun x y => x = .signalPipe → p y := by
  induction order generalizing b with
  | nil =>
      rw [timeoutProcess] at h
      split at h
      · cases h
        exact ordered
      · cases h
  | cons e order ih =>
      rw [timeoutProcess] at h
      split at h
      · next due =>
          have expires : Expires opened now b _ := expires_one due.1 due.2
          have gone : e ∉ (b.eventDelNolock opened e).activequeue := by simp
          refine ih h (fun x mem => heap x (expires.timeheap.subset mem)) ?_
          simp only [eventActiveNolock, gone, if_false]
          rw [eventDelNolock_activequeue, List.pairwise_append]
          refine ⟨ordered.sublist List.filter_sublist, List.pairwise_singleton _ _, ?_⟩
          intro x _ y mem _
          rw [List.mem_singleton.mp mem]
          exact heap e due.1.1
      · cases h

/-! ## What is left alone -/

/-- How often the callback of the event is still to be repeated. -/
def repeats (b : Base) (e : EvId) : Nat :=
  match b.repeating with
  | some (x, left) => if x = e then left else 0
  | none => 0

/-- How often the callback of the event is to run when its turn comes. -/
def awaits (b : Base) (e : EvId) : Nat :=
  if e ∈ b.activequeue then (b.ev e).evNcalls else 0

theorem repeats_of_ne (other : b.repeating.map Prod.fst ≠ some e) : b.repeats e = 0 := by
  rw [repeats]
  split
  · next x left rep =>
      rw [if_neg]
      rintro rfl
      exact other (by rw [rep]; rfl)
  · rfl

theorem repeats_of_none (none : b.repeating = none) (e : EvId) : b.repeats e = 0 := by
  apply repeats_of_ne
  simp [none]

/-- Nothing happens to the event, and no byte joins or leaves the pipe. -/
structure Spares (e : EvId) (b b' : Base) : Prop where
  inserted : e ∈ b.inserted → e ∈ b'.inserted
  ev : b'.ev e = b.ev e
  active : e ∈ b'.activequeue ↔ e ∈ b.activequeue
  repeats : b'.repeats e = b.repeats e
  pipe : b'.pipe = b.pipe

namespace Spares

variable {b' b'' : Base}

theorem refl (e : EvId) (b : Base) : Spares e b b := ⟨fun h => h, rfl, Iff.rfl, rfl, rfl⟩

theorem trans (h : Spares e b b') (h' : Spares e b' b'') : Spares e b b'' :=
  ⟨fun mem => h'.inserted (h.inserted mem), h'.ev.trans h.ev, h'.active.trans h.active,
    h'.repeats.trans h.repeats, h'.pipe.trans h.pipe⟩

/-- Another event is made. -/
theorem assign {x : EvId} (ne : e ≠ x) (ev : Event) :
    Spares e b { b with ev := Function.update b.ev x ev } := by
  refine ⟨fun h => h, ?_, Iff.rfl, rfl, rfl⟩
  exact Function.update_of_ne ne _ _

/-- Another event is deleted. -/
theorem del {x : EvId} (ne : e ≠ x) (opened : Fd → Bool) :
    Spares e b (b.eventDelNolock opened x) := by
  have repeats : (b.eventDelNolock opened x).repeats e = b.repeats e := by
    rw [Base.repeats, eventDelNolock_repeating, Base.repeats]
    cases b.repeating with
    | none => rfl
    | some p =>
        by_cases eq : p.1 = x
        · simp [eq, Ne.symm ne]
        · simp [eq]
  constructor
  case repeats => exact repeats
  all_goals simp [ne]

/-- Another event is put on the timer heap. -/
theorem withTimeout {x : EvId} (ne : e ≠ x) (now : Timeval) (tv : Option Timeval) :
    Spares e b (b.withTimeout now x tv) := by
  cases tv <;> constructor <;> simp [Base.withTimeout, Base.repeats, ne]

/-- Another event is made active. -/
theorem eventActiveNolock {x : EvId} (ne : e ≠ x) (res : Evs) (ncalls : Nat) :
    Spares e b (b.eventActiveNolock x res ncalls) := by
  refine ⟨fun mem => ?_, eventActiveNolock_ev_of_ne _ ne _ _, ?_, ?_, ?_⟩
  · simpa using mem
  · rw [mem_eventActiveNolock]
    exact or_iff_left ne
  · simp [Base.repeats]
  · rw [Base.eventActiveNolock]
    split <;> rfl

/-- A signal event is added. -/
theorem evmapSignalAdd {x : EvId} {opened : Fd → Bool} {env : AddEnv} {ok : Bool}
    (h : b.evmapSignalAdd opened env x = (ok, b')) : Spares e b b' := by
  obtain ⟨_, _, rfl | ⟨-, -, -, rfl⟩⟩ := evmapSignalAdd_cases h
  · cases ok <;> constructor <;> simp [Base.repeats]
    exact Or.inr
  · constructor <;> simp [Base.repeats]
    exact fun mem => Or.inr (Or.inr mem)

/-- A pass spares what waits for neither a descriptor nor a time. -/
theorem dispatch {opened : Fd → Bool} {ready : List (Fd × EpollReport)} {now : Timeval}
    {order : List EvId} (quiet : (b.ev e).evEvents.isIo = false) (untimed : e ∉ b.timeheap)
    (idle : b.repeating = none) (h : b.dispatchPass opened ready now order = some b') :
    Spares e b b' := by
  have act := activates_epollDispatch b ready
  obtain ⟨ev, active⟩ := epollDispatch_of_not_io quiet ready
  obtain ⟨exp, -⟩ := expires_timeoutProcess h
  have repeats : b'.repeats e = b.repeats e := by
    rw [repeats_of_none idle, repeats_of_none (repeating_dispatchPass h idle)]
  rcases exp.moved e with ⟨ins, -, act', ev'⟩ | ⟨mem, -⟩
  · refine ⟨fun mem => ins.mpr ?_, ev'.trans ev, act'.trans active, repeats,
      exp.pipe.trans act.pipe⟩
    rwa [act.inserted]
  · exact absurd (act.timeheap ▸ mem) untimed

end Spares

end Base

namespace Core

variable {c c' : Core} {a : Act} {n m r : Nat}

/-- **Signals do not queue behind the pipe**, and have no deadlines. -/
structure InLine (c : Core) : Prop where
  nodup : c.loop.base.activequeue.Nodup
  ordered : c.loop.base.activequeue.Pairwise fun x y => x = .signalPipe → c.plain y = true
  untimed : ∀ e ∈ c.loop.base.timeheap, e ≠ .signalPipe ∧ c.plain e = true

/-- Taking events off the queues keeps the order. -/
theorem InLine.sublist (h : c.InLine) (sound : c.loop.Sound) (hs : c.step a = some c')
    (active : c'.loop.base.activequeue.Sublist c.loop.base.activequeue)
    (heap : ∀ e ∈ c'.loop.base.timeheap, e ∈ c.loop.base.timeheap) : c'.InLine := by
  have plain : ∀ e, c.loop.base.Queued e → c'.plain e = c.plain e := fun e queued =>
    plain_step sound hs (known_of_queued sound queued)
  refine ⟨h.nodup.sublist active, ?_, ?_⟩
  · refine (h.ordered.sublist active).imp_of_mem ?_
    intro x y _ mem behind pipe
    rw [plain y (Or.inr (Or.inr (active.subset mem)))]
    exact behind pipe
  · intro e mem
    rw [plain e (Or.inr (Or.inl (heap e mem)))]
    exact h.untimed e (heap e mem)

/-- An event of a descriptor is not one of a signal. -/
theorem plain_of_isIo (sound : c.loop.Sound) (listed : c.Listed) {e : EvId}
    (queued : c.loop.base.Queued e) (io : (c.loop.base.ev e).evEvents.isIo = true) :
    c.plain e = true := by
  cases e with
  | signalPipe => rfl
  | call n =>
      cases signal : (c.loop.call n).kind.isSignal with
      | false => simp [Core.plain, signal]
      | true =>
          obtain ⟨r, held⟩ := held_of_signal sound queued signal
          obtain ⟨s, -, shape⟩ := listed r n held
          rw [(Event.shape_eq shape).2.1] at io
          cases io

/-- A pass lets only descriptors and timers queue up. -/
theorem InLine.dispatch {ready : List (Fd × Base.EpollReport)} {now : Timeval}
    {order : List EvId} {b : Base} (h : c.InLine) (sound : c.loop.Sound) (listed : c.Listed)
    (hb : c.loop.base.dispatchPass c.opened ready now order = some b) :
    (c.withBase b).InLine := by
  have act := Base.activates_epollDispatch c.loop.base ready
  obtain ⟨exp, -⟩ := Base.expires_timeoutProcess hb
  obtain ⟨extra, queue, -, fresh⟩ := act.appends
  have reported : ∀ e ∈ extra, c.plain e = true := by
    intro e mem
    have active : e ∈ (c.loop.base.epollDispatch ready).activequeue := by
      rw [queue]
      exact List.mem_append_right _ mem
    rcases Base.mem_epollDispatch ready |>.mp active with was | ⟨r, -, slot, -⟩
    · exact absurd was (fresh e mem)
    · obtain ⟨inserted, io, -⟩ := Base.mem_evmapIo.mp slot
      exact plain_of_isIo sound listed (Or.inl inserted) io
  have heap : ∀ e ∈ (c.loop.base.epollDispatch ready).timeheap, e ≠ .signalPipe ∧
      c.plain e = true := by
    intro e mem
    exact h.untimed e (act.timeheap ▸ mem)
  refine ⟨exp.nodup (act.nodup h.nodup), ?_, fun e mem => heap e (exp.timeheap.subset mem)⟩
  refine Base.ordered_timeoutProcess (p := fun e => c.plain e = true) hb
    (fun e mem => (heap e mem).2) ?_
  show (c.loop.base.epollDispatch ready).activequeue.Pairwise _
  rw [queue, List.pairwise_append]
  refine ⟨h.ordered, ?_, fun x _ y mem _ => reported y mem⟩
  exact List.pairwise_of_forall_mem_list fun x _ y mem _ => reported y mem

/-- The callback of the pipe finds no signal behind it, and leaves no pipe before them. -/
theorem InLine.pipe {rest : List EvId} (h : c.InLine) (quiet : c.Quiet)
    (queue : c.loop.base.activequeue = .signalPipe :: rest) :
    (c.withBase { c.loop.base with activequeue := rest }.evsigCb).InLine := by
  have act := Base.activates_evsigCb { c.loop.base with activequeue := rest }
  obtain ⟨extra, eq, signals⟩ := evsigCb_appends quiet queue
  have nodup := h.nodup
  rw [queue] at nodup
  obtain ⟨notRest, nodupRest⟩ := List.nodup_cons.mp nodup
  refine ⟨act.nodup nodupRest, ?_, ?_⟩
  · refine List.pairwise_of_forall_mem_list ?_
    rintro x mem y - rfl
    have mem : EvId.signalPipe ∈ rest ++ extra := eq ▸ mem
    rcases List.mem_append.mp mem with mem | mem
    · exact absurd mem notRest
    · cases signals _ mem
  · intro e mem
    exact h.untimed e (act.timeheap ▸ mem)

/-- A call that is not a signal's may queue up at the end, or wait for its time. -/
theorem InLine.made (h : c.InLine) (sound : c.loop.Sound) (hs : c.step a = some c')
    (fresh : m ∉ c.loop.made) (plain : c'.plain (.call m) = true)
    (active : c'.loop.base.activequeue = c.loop.base.activequeue ∨
      c'.loop.base.activequeue = c.loop.base.activequeue ++ [.call m])
    (heap : ∀ e ∈ c'.loop.base.timeheap, e ∈ c.loop.base.timeheap ∨ e = .call m) : c'.InLine := by
  have same : ∀ e, c.loop.base.Queued e → c'.plain e = c.plain e := fun e queued =>
    plain_step sound hs (known_of_queued sound queued)
  have ordered : c.loop.base.activequeue.Pairwise fun x y => x = .signalPipe →
      c'.plain y = true := by
    refine h.ordered.imp_of_mem ?_
    intro x y _ mem behind pipe
    rw [same y (Or.inr (Or.inr mem))]
    exact behind pipe
  have out : EvId.call m ∉ c.loop.base.activequeue := fun mem =>
    sound.not_queued fresh (Or.inr (Or.inr mem))
  refine ⟨?_, ?_, ?_⟩
  · rcases active with eq | eq
    · exact eq ▸ h.nodup
    · rw [eq]
      exact List.nodup_append'.mpr ⟨h.nodup, List.nodup_singleton _,
        List.disjoint_singleton.mpr out⟩
  · rcases active with eq | eq
    · exact eq ▸ ordered
    · rw [eq, List.pairwise_append]
      refine ⟨ordered, List.pairwise_singleton _ _, ?_⟩
      intro x _ y mem _
      rw [List.mem_singleton.mp mem]
      exact plain
  · intro e mem
    rcases heap e mem with old | rfl
    · rw [same e (Or.inr (Or.inl old))]
      exact h.untimed e old
    · exact ⟨by simp, plain⟩

theorem InLine.step (h : c.InLine) (sound : c.loop.Sound) (quiet : c.Quiet) (listed : c.Listed)
    (hs : c.step a = some c') : c'.InLine := by
  cases step_cases hs with
  | start _ drives m kind o fd events w timeout env now alive fresh starts accept opens target =>
      have signal : kind.isSignal = false := starts.isIo.2.1
      have call : ((startIo { c with world := w } m { kind, obj := some o } fd events timeout env
          now).loop.call m).kind = kind := by
        simp [startIo, record]
      refine h.made sound hs fresh (by simp only [Core.plain, call, signal]; rfl) (Or.inl ?_) ?_
      all_goals
        rw [startIo_eq { c with world := w } _ fd timeout env now (sound.not_queued fresh)
          starts.isIo.2.2]
        dsimp only
        split
      · simp [record, withBase, addedBase, eventBase]
      · rfl
      · intro e mem
        simp only [record, withBase, addedBase, Base.mem_withTimeout_timeheap] at mem
        exact mem.imp_right And.left
      · exact fun e mem => Or.inl mem
  | schedule m sleeps duration nomem env now alive fresh =>
      have kind : (if sleeps = true then Kind.sleep else Kind.schedule).isSignal = false := by
        cases sleeps <;> rfl
      have notQueued := sound.not_queued fresh
      rcases schedule_cases c (if sleeps then .sleep else .schedule) duration nomem env now
        notQueued with ⟨b, hb, eq⟩ | ⟨-, eq⟩ | ⟨-, eq⟩
      · rw [eq] at hs ⊢
        refine h.made sound hs fresh (by simp [Core.plain, record, kind]) (Or.inl ?_) ?_
        · rcases hb with rfl | rfl <;> rfl
        · rcases hb with rfl | rfl <;> exact fun e mem => Or.inl mem
      · rw [eq] at hs ⊢
        refine h.made sound hs fresh (by simp [Core.plain, record, kind])
          (Or.inl (by simp [record, withBase, eventBase])) ?_
        intro e mem
        simp only [record, withBase, Base.mem_withTimeout_timeheap] at mem
        exact mem.imp_right And.left
      · -- a zero timeout queues up at once
        have inactive : EvId.call m ∉ (c.eventBase m {}).activequeue := fun mem =>
          notQueued (Or.inr (Or.inr mem))
        rw [eq] at hs ⊢
        refine h.made sound hs fresh (by simp [Core.plain, record, kind]) (Or.inr ?_) ?_
        · simp only [record, withBase, Base.eventActiveNolock, inactive, if_false]
          rfl
        · simp only [record, withBase, Base.eventActiveNolock, inactive, if_false]
          exact fun e mem => Or.inl mem
  | signalStream args c' alive hc =>
      obtain ⟨active, heap, -⟩ := signalStream_queues sound alive hc
      refine h.sublist sound hs ?_ ?_
      · rw [active]
      · rw [heap]
        exact fun e mem => mem
  | tearDown r alive opened =>
      refine h.sublist sound hs ?_ ?_
      · refine tearDown_induct (P := fun d =>
          d.loop.base.activequeue.Sublist c.loop.base.activequeue) (List.Sublist.refl _)
          (fun d m ih _ => ?_) (fun d reg ih => ih)
        simp only [tearDownOne, withCall, withBase, Base.eventDelNolock_activequeue]
        exact List.filter_sublist.trans ih
      · refine tearDown_induct (P := fun d =>
          ∀ e ∈ d.loop.base.timeheap, e ∈ c.loop.base.timeheap) (fun e mem => mem)
          (fun d m ih _ => ?_) (fun d reg ih => ih)
        intro e mem
        simp only [tearDownOne, withCall, withBase, Base.eventDelNolock_timeheap,
          mem_unlink] at mem
        exact ih e mem.1
  | free w alive torn hw =>
      exact h.sublist sound hs (List.nil_sublist _) (fun e mem => absurd mem List.not_mem_nil)
  | dispatch ready now order b alive reports later quiet' hb => exact h.dispatch sound listed hb
  | pipe r rest alive quiet' queue => exact h.pipe quiet queue
  | skip r m rest alive quiet' queue sig =>
      refine h.sublist sound hs ?_ (fun e mem => mem)
      rw [queue]
      exact List.sublist_cons_self _ _
  | yield r m left rest alive quiet' queue sig =>
      refine h.sublist sound hs ?_ (fun e mem => mem)
      rw [queue]
      exact List.sublist_cons_self _ _
  | fire r m rest fx alive quiet' queue sig body =>
      refine h.sublist sound hs ?_ ?_
      · simp only [fired, withCall, withBase, Base.eventDelNolock_activequeue]
        exact List.filter_sublist
      · intro e mem
        simp only [fired, withCall, withBase, Base.eventDelNolock_timeheap, mem_unlink] at mem
        exact mem.1
  | _ => exact h.sublist sound hs (List.Sublist.refl _) (fun e mem => mem)

/-! ## The count of one event -/

/-- The event `m` of the signal `s` has been told of `N` deliveries, or is going to be. -/
structure Pending (c : Core) (m s N : Nat) : Prop where
  slot : .call m ∈ c.loop.base.evmapSignal s
  total : (c.loop.call m).ran +
    (c.loop.base.repeats (.call m) + c.loop.base.awaits (.call m)) + c.loop.base.pipe.count s = N

/-- `evsig_cb` counts fewer than 65536 bytes of the signal, and nothing stops the loop while the
callback of one of the stream's events of the signal is being repeated. -/
def Counts (r s : Nat) (c : Core) : Act → Prop
  | .callback _ => c.loop.base.repeating = none →
      c.loop.base.activequeue.head? = some .signalPipe → c.loop.base.pipe.count s < 65536
  | .breakSignal => ∀ n ∈ (c.loop.reg r).events, (c.loop.call n).kind = .signal s →
      c.loop.base.repeating.map Prod.fst ≠ some (.call n)
  | _ => True

instance (r s : Nat) (c : Core) : ∀ a, Decidable (Counts r s c a)
  | .callback _ => inferInstanceAs (Decidable (_ → _ → _))
  | .breakSignal => inferInstanceAs (Decidable (∀ n ∈ (c.loop.reg r).events, _ → _))
  | .listen .. | .connect .. | .read .. | .write .. | .accept .. | .schedule .. | .signalStream ..
  | .tearDown .. | .close .. | .deinit .. | .free | .dispatch .. | .raise .. | .kernel .. =>
      isTrue trivial

variable {s N : Nat}

/-- Steps that leave the event alone owe it what was owed before. -/
theorem Pending.spared (h : c.Pending m s N)
    (spares : Base.Spares (.call m) c.loop.base c'.loop.base)
    (ran : (c'.loop.call m).ran = (c.loop.call m).ran) : c'.Pending m s N := by
  obtain ⟨inserted, signal, fd⟩ := Base.mem_evmapSignal.mp h.slot
  refine ⟨Base.mem_evmapSignal.mpr ⟨spares.inserted inserted, ?_, ?_⟩, ?_⟩
  · rwa [spares.ev]
  · rwa [spares.ev]
  · have awaits : c'.loop.base.awaits (.call m) = c.loop.base.awaits (.call m) := by
      simp only [Base.awaits, spares.active, spares.ev]
    rw [ran, spares.repeats, awaits, spares.pipe]
    exact h.total

/-- So do those that start another call. -/
theorem Pending.record {k : Nat} {call : Call} (h : c.Pending m s N) (ne : m ≠ k)
    (spares : Base.Spares (.call m) c.loop.base c'.loop.base)
    (calls : c'.loop.call = c.loop.call) : (c'.record k call).Pending m s N := by
  have same : Base.Spares (.call m) c.loop.base (c'.record k call).loop.base := spares
  refine h.spared same ?_
  simp [Core.record, ne, calls]

/-- `evsig_cb` hands the bytes of the pipe over to the event. -/
theorem Pending.pipe {rest : List EvId} (h : c.Pending m s N) (line : c.InLine)
    (signal : (c.loop.call m).kind.isSignal = true) (small : s < nsig)
    (quiet : c.loop.base.repeating = none)
    (queue : c.loop.base.activequeue = .signalPipe :: rest)
    (few : c.loop.base.pipe.count s < 65536) :
    (c.withBase { c.loop.base with activequeue := rest }.evsigCb).Pending m s N := by
  let b : Base := { c.loop.base with activequeue := rest }
  have act := Base.activates_evsigCb b
  have inactive : EvId.call m ∉ rest := by
    intro mem
    have ordered := line.ordered
    rw [queue] at ordered
    have plain := (List.pairwise_cons.mp ordered).1 _ mem rfl
    simp [Core.plain, signal] at plain
  have slot : EvId.call m ∈ b.evmapSignal s := h.slot
  have batch := Base.evsigCb_of_slot small slot inactive
  have awaited : c.loop.base.awaits (.call m) = 0 := by
    rw [Base.awaits, if_neg]
    simp [queue, inactive]
  have now : b.evsigCb.awaits (.call m) = c.loop.base.pipe.count s := by
    split at batch
    · next none => exact (if_neg batch).trans none.symm
    · exact (if_pos batch.1).trans (batch.2.trans (Nat.mod_eq_of_lt few))
  have empty : b.evsigCb.pipe = [] := act.pipe
  refine ⟨?_, ?_⟩
  · have same := Base.evmapSignal_congr act.inserted (fun e _ => act.shape e) s
    exact Eq.subst (motive := fun l => EvId.call m ∈ l) same.symm slot
  · have total := h.total
    rw [Base.repeats_of_none quiet, awaited] at total
    show (c.loop.call m).ran + (b.evsigCb.repeats (.call m) + b.evsigCb.awaits (.call m)) +
      b.evsigCb.pipe.count s = N
    rw [Base.repeats_of_none (act.repeating.trans quiet), now, empty, List.count_nil]
    omega

/-- An event that is active for no deliveries is passed over. -/
theorem Pending.skip {k : Nat} {rest : List EvId} (h : c.Pending m s N)
    (queue : c.loop.base.activequeue = .call k :: rest)
    (ncalls : (c.loop.base.ev (.call k)).evNcalls = 0) :
    (c.withBase { c.loop.base with activequeue := rest }).Pending m s N := by
  have total := h.total
  refine ⟨h.slot, ?_⟩
  show (c.loop.call m).ran + (c.loop.base.repeats (.call m) +
    if _ ∈ rest then (c.loop.base.ev _).evNcalls else 0) + c.loop.base.pipe.count s = N
  rw [Base.awaits, queue] at total
  by_cases eq : m = k
  · subst eq
    simpa [ncalls] using total
  · simpa [eq] using total

theorem yield_repeats (c : Core) (k left : Nat) (e : EvId) :
    (c.yield k left).loop.base.repeats e = if e = .call k then left else 0 := by
  simp only [Base.repeats, Core.yield, withCall, withBase]
  cases left with
  | zero => simp
  | succ left => simp [eq_comm]

theorem yield_ran (c : Core) (k left m : Nat) :
    ((c.yield k left).loop.call m).ran = (c.loop.call m).ran + if m = k then 1 else 0 := by
  by_cases eq : m = k
  · subst eq
    simp [Core.yield, withCall, withBase, Call.yielded]
  · simp [Core.yield, withCall, withBase, eq]

/-- The first round of a callback. -/
theorem Pending.yield {k left : Nat} {rest : List EvId} (h : c.Pending m s N) (line : c.InLine)
    (quiet : c.loop.base.repeating = none)
    (queue : c.loop.base.activequeue = .call k :: rest)
    (ncalls : (c.loop.base.ev (.call k)).evNcalls = left + 1) :
    ((c.withBase { c.loop.base with activequeue := rest }).yield k left).Pending m s N := by
  have nodup := line.nodup
  rw [queue] at nodup
  have total := h.total
  rw [Base.repeats_of_none quiet] at total
  refine ⟨h.slot, ?_⟩
  rw [yield_repeats, yield_ran]
  show (c.loop.call m).ran + _ + (_ + (if _ ∈ rest then (c.loop.base.ev _).evNcalls else 0)) +
    c.loop.base.pipe.count s = N
  rw [Base.awaits, queue] at total
  by_cases eq : m = k
  · subst eq
    rw [if_pos List.mem_cons_self, ncalls] at total
    simp only [(List.nodup_cons.mp nodup).1, if_true, if_false]
    omega
  · simpa [eq] using total

/-- A further round. -/
theorem Pending.again {k left : Nat} (h : c.Pending m s N)
    (rep : c.loop.base.repeating = some (.call k, left + 1)) :
    (c.yield k left).Pending m s N := by
  have total := h.total
  rw [Base.repeats, rep] at total
  refine ⟨h.slot, ?_⟩
  rw [yield_repeats, yield_ran]
  show (c.loop.call m).ran + _ + (_ + c.loop.base.awaits (.call m)) + c.loop.base.pipe.count s = N
  by_cases eq : m = k
  · subst eq
    simp only [if_true] at total ⊢
    omega
  · simpa [eq, Ne.symm eq] using total

/-- A round of `signalStream` is about another event. -/
theorem spares_signalOne {r : Nat} {arg : SignalArg} (made : m ∈ c.loop.made)
    (streaming : c.Streaming r) (hs : c.signalOne r arg = some c') :
    Base.Spares (.call m) c.loop.base c'.loop.base ∧ c'.loop.call m = c.loop.call m := by
  obtain ⟨fresh, eq⟩ := signalOne_cases hs streaming.sound.not_queued
  have ne : m ≠ arg.n := by
    rintro rfl
    exact fresh made
  rcases eq with rfl | ⟨added, b, add, rfl⟩
  · exact ⟨.refl _ _, by simp [record, ne]⟩
  · have new : Base.Spares (.call m) c.loop.base (c.eventBase arg.n (signalEvent arg.signum)) :=
      .assign (by simpa using ne) _
    exact ⟨new.trans (.evmapSignalAdd add), by simp [append, record, withBase, ne]⟩

theorem Pending.signalOne {r : Nat} {arg : SignalArg} (h : c.Pending m s N)
    (made : m ∈ c.loop.made) (streaming : c.Streaming r) (hs : c.signalOne r arg = some c') :
    m ∈ c'.loop.made ∧ c'.Pending m s N := by
  obtain ⟨spares, call⟩ := spares_signalOne made streaming hs
  refine ⟨?_, h.spared spares (by rw [call])⟩
  exact (Life.kind_follows (.single ((moves_signalOne streaming hs).2 m)) made).2

/-- **Every step keeps the count** of an event that its stream still holds. -/
theorem Pending.step (h : c.Pending m s N) (sound : c.loop.Sound) (listed : c.Listed)
    (line : c.InLine) (small : s < nsig) (counts : Counts r s c a) (hs : c.step a = some c')
    (kind : (c.loop.call m).kind = .signal s) (held : m ∈ (c.loop.reg r).events)
    (held' : m ∈ (c'.loop.reg r).events) :
    c'.Pending m s (N + if a = .raise s then 1 else 0) := by
  have signal : (c.loop.call m).kind.isSignal = true := by rw [kind]; rfl
  have made := (made_of_held sound held).1
  have other : ∀ {k}, k ∉ c.loop.made → m ≠ k := by
    rintro k fresh rfl
    exact fresh made
  have otherEv : ∀ {k}, m ≠ k → EvId.call m ≠ .call k := fun ne eq => ne (by simpa using eq)
  obtain ⟨s', kind', shape⟩ := listed r m held
  have quiet : (c.loop.base.ev (.call m)).evEvents.isIo = false := by
    rw [(Event.shape_eq shape).2.1]
    rfl
  have untimed : EvId.call m ∉ c.loop.base.timeheap := by
    intro mem
    have plain := (line.untimed _ mem).2
    simp [Core.plain, signal] at plain
  have same : Base.Spares (.call m) c.loop.base c.loop.base := .refl _ _
  cases step_cases hs with
  | raise sig alive =>
      have total := h.total
      refine ⟨h.slot, ?_⟩
      show (c.loop.call m).ran + (c.loop.base.repeats _ + c.loop.base.awaits _) +
        (c.loop.base.pipe ++ [sig]).count s = _
      by_cases eq : sig = s
      · subst eq
        simp
        omega
      · have ne : Act.raise sig ≠ .raise s := fun own => eq (by simpa using own)
        simp [eq, ne]
        omega
  | answer k address r' timeout env now call w alive fresh ans =>
      have same : Base.Spares (.call m) c.loop.base { c with world := w }.loop.base := same
      exact h.record (other fresh) same rfl
  | start _ drives k kind' o fd events w timeout env now alive fresh starts accept opens target =>
      have notRaise : a ≠ .raise s := by
        rintro rfl
        cases drives
      have ne := other fresh
      have new : Base.Spares (.call m) c.loop.base (c.eventBase k
          { evFd := fd, evEvents := events }) := .assign (otherEv ne) _
      rw [if_neg notRaise, startIo_eq { c with world := w } _ fd timeout env now
        (sound.not_queued fresh) starts.isIo.2.2]
      dsimp only
      split
      · refine h.record ne (.trans (.trans new ?_)
          (.withTimeout (otherEv ne) now (timeout.map timevalFor))) rfl
        exact ⟨fun mem => List.mem_cons_of_mem _ mem, rfl, Iff.rfl, rfl, rfl⟩
      · exact h.record ne new rfl
  | schedule k sleeps duration nomem env now alive fresh =>
      have ne := other fresh
      have new : Base.Spares (.call m) c.loop.base (c.eventBase k {}) := .assign (otherEv ne) _
      rcases schedule_cases c (if sleeps then .sleep else .schedule) duration nomem env now
        (sound.not_queued fresh) with ⟨b, rfl | rfl, eq⟩ | ⟨-, eq⟩ | ⟨-, eq⟩ <;> rw [eq]
      · exact h.record ne same rfl
      · exact h.record ne new rfl
      · exact h.record ne (new.trans
          (.withTimeout (otherEv ne) now (some (timevalFor duration)))) rfl
      · exact h.record ne (new.trans (.eventActiveNolock (otherEv ne) _ 1)) rfl
  | signalStream args c' alive hc =>
      refine (signalStream_rounds (P := fun d => m ∈ d.loop.made ∧ d.Pending m s N) sound alive hc
        ⟨made, h.spared same rfl⟩ (fun d arg d' _ hd hp hs => ?_)).2.2.2
      exact hp.2.signalOne hp.1 hd hs
  | tearDown r' alive opened =>
      have out : m ∉ (c.loop.reg r').events := by
        intro mem
        have eq : r' = r := sound.regs.disjoint r' r m mem held
        subst eq
        rw [tearDown] at held'
        split at held'
        · next torn =>
            rw [sound.regs.torndown r' torn] at held
            cases held
        · simp at held'
      refine tearDown_induct (P := fun d => d.Pending m s N) h (fun d k hp mem => ?_)
        (fun d reg hp => hp.spared (.refl _ _) rfl)
      have ne : m ≠ k := by
        rintro rfl
        exact out mem
      refine hp.spared (.del (otherEv ne) d.opened) ?_
      simp [tearDownOne, withCall, withBase, ne]
  | free w alive torn hw =>
      rw [sound.regs.torndown r (torn r (opened_of_held sound held))] at held
      cases held
  | dispatch ready now order b alive reports later quiet' hb =>
      exact h.spared (.dispatch quiet untimed quiet' hb) rfl
  | pipe r' rest alive quiet' queue =>
      exact h.pipe line signal small quiet' queue (counts quiet' (by rw [queue]; rfl))
  | skip r' k rest alive quiet' queue sig ncalls => exact h.skip queue ncalls
  | yield r' k left rest alive quiet' queue sig ncalls => exact h.yield line quiet' queue ncalls
  | again r' k left alive rep => exact h.again rep
  | fire r' k rest fx alive quiet' queue sig body =>
      have ne : m ≠ k := by
        rintro rfl
        rw [signal] at sig
        cases sig
      refine h.spared (.del (otherEv ne) c.opened) ?_
      simp [fired, withCall, withBase, ne]
  | breakSignal =>
      refine h.spared ⟨fun mem => mem, rfl, Iff.rfl, ?_, rfl⟩ rfl
      exact (Base.repeats_of_ne (counts m held kind)).symm
  | close o w closes => exact h.spared ⟨fun mem => mem, rfl, Iff.rfl, rfl, rfl⟩ rfl
  | deinit o w may deinits => exact h.spared ⟨fun mem => mem, rfl, Iff.rfl, rfl, rfl⟩ rfl
  | _ => exact h.spared same rfl

/-! ## What `signalStream` starts with -/

/-- What a mention of `s` has become after its round: an event that libevent took, which the
registration holds, or one that will never run. -/
structure Entered (c : Core) (r s n : Nat) : Prop where
  made : n ∈ c.loop.made
  kind : (c.loop.call n).kind = .signal s
  taken : if (c.loop.call n).added = true then
      s < nsig ∧ n ∈ (c.loop.reg r).events ∧ c.Pending n s (c.loop.base.pipe.count s)
    else (c.loop.call n).ran = 0 ∧ ¬ c.loop.base.Queued (.call n) ∧
      c.loop.base.repeating.map Prod.fst ≠ some (.call n)

theorem Entered.signalOne {arg : SignalArg} (h : c.Entered r s n) (streaming : c.Streaming r)
    (hs : c.signalOne r arg = some c') : c'.Entered r s n := by
  obtain ⟨spares, call⟩ := spares_signalOne h.made streaming hs
  have moves := (moves_signalOne streaming hs).2 n
  have taken := h.taken
  refine ⟨(Life.kind_follows (.single moves) h.made).2, by rw [call, h.kind], ?_⟩
  rw [call]
  split at taken
  · next added =>
      obtain ⟨small, held, pending⟩ := taken
      rw [if_pos added, spares.pipe]
      refine ⟨small, ?_, (pending.signalOne h.made streaming hs).2⟩
      obtain ⟨-, rfl | ⟨added, b, add, rfl⟩⟩ := signalOne_cases hs streaming.sound.not_queued
      · exact held
      · rw [mem_append_events]
        exact Or.inl held
  · next refused =>
      obtain ⟨ran, queued, repeating⟩ := taken
      obtain ⟨-, queued', repeating'⟩ := Life.rest_follows (.single moves) h.made queued repeating
      rw [if_neg refused]
      exact ⟨ran, queued', repeating'⟩

/-- An event that libevent takes is in the slot of its signal. -/
theorem slot_of_evmapSignalAdd {b b' : Base} {opened : Fd → Bool} {env : Base.AddEnv} {x : EvId}
    (signal : (b.ev x).evEvents.signal = true) (fd : (b.ev x).evFd = s)
    (h : b.evmapSignalAdd opened env x = (true, b')) : s < nsig ∧ x ∈ b'.evmapSignal s := by
  refine ⟨?_, ?_⟩
  · rw [Base.evmapSignalAdd, fd] at h
    by_contra large
    rw [if_pos (Or.inr (by omega))] at h
    cases h
  · obtain ⟨_, _, rfl | ⟨-, -, -, rfl⟩⟩ := Base.evmapSignalAdd_cases h
    all_goals exact Base.mem_evmapSignal.mpr ⟨by simp, signal, fd⟩

theorem entered_signalOne {arg : SignalArg} (signum : arg.signum = s) (streaming : c.Streaming r)
    (hs : c.signalOne r arg = some c') : c'.Entered r s arg.n := by
  obtain ⟨fresh, eq⟩ := signalOne_cases hs streaming.sound.not_queued
  have notQueued := streaming.sound.not_queued fresh
  have notRepeating := streaming.sound.not_repeating fresh
  rcases eq with rfl | ⟨added, b, add, rfl⟩
  · refine ⟨by simp [record], by simp [record, signum], ?_⟩
    rw [if_neg (by simp [record])]
    exact ⟨by simp [record], notQueued, notRepeating⟩
  · have same : b.repeating = c.loop.base.repeating ∧ b.activequeue = c.loop.base.activequeue ∧
        b.pipe = c.loop.base.pipe := by
      obtain ⟨_, _, rfl | ⟨-, -, -, rfl⟩⟩ := Base.evmapSignalAdd_cases add
      all_goals exact ⟨rfl, rfl, rfl⟩
    refine ⟨by simp [append, record], by simp [append, record, signum], ?_⟩
    cases added with
    | true =>
        obtain ⟨small, slot⟩ := slot_of_evmapSignalAdd (s := s) (by simp [signalEvent])
          (by simp [signalEvent, signum]) add
        rw [if_pos (by simp [append, record])]
        refine ⟨small, ?_, slot, ?_⟩
        · rw [mem_append_events]
          exact Or.inr ⟨rfl, rfl⟩
        · have awaits : b.awaits (.call arg.n) = 0 := by
            apply if_neg
            rw [same.2.1]
            exact fun active => notQueued (Or.inr (Or.inr active))
          show ((Function.update _ arg.n _ : Nat → Call) arg.n).ran +
            (b.repeats (.call arg.n) + b.awaits (.call arg.n)) + b.pipe.count s = b.pipe.count s
          rw [Function.update_self, awaits, Base.repeats_of_ne (by rwa [same.1])]
          simp
    | false =>
        rw [if_neg (by simp [append, record])]
        refine ⟨by simp [append, record], ?_, ?_⟩
        · exact fun queued => ((queued_evmapSignalAdd add arg.n).mp queued).elim notQueued
            (fun h => absurd h.2 Bool.false_ne_true)
        · show b.repeating.map Prod.fst ≠ _
          rwa [same.1]

/-- Every mention of the signal has its round. -/
theorem entered_signalStream {args : List SignalArg} (sound : c.loop.Sound)
    (alive : c.loop.alive = true) (hs : c.signalStream args = some c') {arg : SignalArg}
    (mem : arg ∈ args) (signum : arg.signum = s) : c'.Entered c.loop.nextReg s arg.n := by
  have go : ∀ (rest : List SignalArg) (d : Core), d.Streaming c.loop.nextReg →
      signalAll c.loop.nextReg d rest = some c' → arg ∈ rest ∨ d.Entered c.loop.nextReg s arg.n →
      c'.Entered c.loop.nextReg s arg.n := by
    intro rest
    induction rest with
    | nil =>
        intro d _ h entered
        cases h
        exact entered.resolve_left List.not_mem_nil
    | cons x rest ih =>
        intro d streaming h entered
        obtain ⟨d', hd, h⟩ := Option.bind_eq_some_iff.mp h
        refine ih d' (moves_signalOne streaming hd).1 h ?_
        rcases entered with mem | entered
        · rcases List.mem_cons.mp mem with rfl | mem
          · exact Or.inr (entered_signalOne signum streaming hd)
          · exact Or.inl mem
        · exact Or.inr (entered.signalOne streaming hd)
  exact go args _ (streaming_start sound alive).1 hs (Or.inl mem)

/-! ## Whole runs -/

/-- What the count rests on. -/
structure Orderly (c : Core) : Prop where
  sound : c.loop.Sound
  quiet : c.Quiet
  listed : c.Listed
  line : c.InLine

theorem Orderly.step (h : c.Orderly) (hs : c.step a = some c') : c'.Orderly where
  sound := (step_follows h.sound hs).1
  quiet := quiet_step h.sound h.quiet hs
  listed := listed_step h.sound h.listed hs
  line := h.line.step h.sound h.quiet h.listed hs

theorem orderly_init (endian : Endian) (pipeFd : Fd) (d : Int → Handler) :
    (initWith endian pipeFd d).Orderly where
  sound := (signalling_init endian pipeFd d).sound
  quiet := (signalling_init endian pipeFd d).quiet
  listed := (signalling_init endian pipeFd d).listed
  line := ⟨List.nodup_nil, List.Pairwise.nil, fun _ mem => absurd mem List.not_mem_nil⟩

/-- A live registration holds the event, and its count is kept. -/
def Owes (c : Core) (r m s N : Nat) : Prop :=
  (c.loop.reg r).torndown = true ∨
    m ∈ (c.loop.reg r).events ∧ (c.loop.call m).kind = .signal s ∧ c.Pending m s N

theorem Owes.step (h : c.Owes r m s N) (orderly : c.Orderly) (small : s < nsig)
    (counts : Counts r s c a) (hs : c.step a = some c') :
    c'.Owes r m s (N + if a = .raise s then 1 else 0) := by
  have sound := orderly.sound
  rcases h with torn | ⟨held, kind, pending⟩
  · have old : r < c.loop.nextReg := by
      by_contra le
      rw [(sound.regs.fresh r (Nat.le_of_not_lt le)).2] at torn
      cases torn
    refine Or.inl ?_
    rcases reg_old sound hs old with same | empty
    · rwa [same]
    · rw [empty]
  · have kept : c.Kempt r m := Or.inl held
    rcases kept.step sound hs with held' | ⟨torn, -⟩
    · refine Or.inr ⟨held', ?_, pending.step sound orderly.listed orderly.line small counts hs kind
        held held'⟩
      have made := (made_of_held sound held).1
      exact (Life.kind_follows ((step_follows sound hs).2 m) made).1.trans kind
    · exact Or.inl torn

/-- **Every run keeps the count.** -/
theorem owes_run {as : List Act} (h : c.Owes r m s N) (orderly : c.Orderly) (small : s < nsig)
    (counts : StepSystem.Meets Core.step (Counts r s) c as)
    (run : StepSystem.run Core.step c as = some c') :
    c'.Owes r m s (N + as.count (.raise s)) := by
  induction as generalizing c N with
  | nil =>
      cases run
      exact h
  | cons a as ih =>
      obtain ⟨d, hd, run⟩ := StepSystem.run_cons_eq_some.mp run
      have next := ih (h.step orderly small counts.1 hd) (orderly.step hd) (counts.2 d hd) run
      rw [List.count_cons]
      simpa [Nat.add_assoc, Nat.add_comm, beq_iff_eq] using next

theorem sum_ite_eq_countP {α : Type*} (p : α → Bool) (k : Nat) (l : List α) :
    (l.map fun x => if p x = true then k else 0).sum = l.countP p * k := by
  induction l with
  | nil => simp
  | cons x l ih =>
      rw [List.map_cons, List.sum_cons, ih, List.countP_cons]
      split
      · rw [Nat.add_one_mul, Nat.add_comm]
      · rw [Nat.zero_add, Nat.add_zero]

theorem mul_add_eq_iff (k p n : Nat) :
    k * (p + n) = n ↔ k = 1 ∧ p = 0 ∨ n = 0 ∧ (k = 0 ∨ p = 0) := by
  constructor
  · intro eq
    rcases Nat.eq_zero_or_pos n with rfl | pos
    · exact Or.inr ⟨rfl, by simpa using eq⟩
    · have le : k * n ≤ n := by
        calc k * n ≤ k * (p + n) := Nat.mul_le_mul_left k (Nat.le_add_left n p)
          _ = n := eq
      have one : k ≤ 1 := Nat.le_of_mul_le_mul_right (by simpa using le) pos
      rcases Nat.le_one_iff_eq_zero_or_eq_one.mp one with rfl | rfl
      · omega
      · exact Or.inl ⟨rfl, by omega⟩
  · rintro (⟨rfl, rfl⟩ | ⟨rfl, rfl | rfl⟩) <;> simp

/-- How often the boxes that `signalStream` made for `s` have yielded it. -/
def yields (c : Core) (args : List SignalArg) (s : Nat) : Nat :=
  ((args.filter fun arg => arg.signum = (s : Int)).map fun arg => (c.loop.call arg.n).ran).sum

/-- For how many mentions of `s` libevent took an event. -/
def mentions (c : Core) (args : List SignalArg) (s : Nat) : Nat :=
  (args.filter fun arg => arg.signum = (s : Int)).countP fun arg => (c.loop.call arg.n).added

/-- A box of the stream yields once for each delivery if its event was taken, and never if not. -/
theorem ran_of_entered {as : List Act} (h : c.Entered r s n) (orderly : c.Orderly)
    (run : StepSystem.run Core.step c as = some c')
    (counts : StepSystem.Meets Core.step (Counts r s) c as)
    (live : (c'.loop.reg r).torndown = false) (pipe : c'.loop.base.pipe = [])
    (active : c'.loop.base.activequeue = []) (repeating : c'.loop.base.repeating = none) :
    (c'.loop.call n).ran = if (c.loop.call n).added = true then
      c.loop.base.pipe.count s + as.count (.raise s) else 0 := by
  have taken := h.taken
  split at taken
  · next added =>
      obtain ⟨small, held, pending⟩ := taken
      have owes : c.Owes r n s (c.loop.base.pipe.count s) := Or.inr ⟨held, h.kind, pending⟩
      rcases owes_run owes orderly small counts run with torn | ⟨-, -, pending⟩
      · rw [live] at torn
        cases torn
      · have total := pending.total
        rw [Base.repeats_of_none repeating, Base.awaits, if_neg (by simp [active]), pipe,
          List.count_nil] at total
        rw [if_pos added]
        exact total
  · next refused =>
      obtain ⟨ran, queued, idle⟩ := taken
      rw [if_neg refused]
      exact (Life.rest_follows ((run_follows orderly.sound run).2 n) h.made queued idle).1.trans ran

/-- **The number of deliveries.**  A stream of signals is created after some steps, and lives
through any more of them, in which `evsig_cb` never counts 65536 bytes of the signal `s` at once
and no callback of the stream for `s` is cut short.  Once the pipe and the active queue are
drained, each mention of `s` that libevent took has yielded each delivery of `s` since the stream
was created, and those that were in the pipe then.  So `s` has been yielded as often as it was
delivered if and only if it was taken once and the pipe had none of it, or there was nothing to
deliver. -/
theorem deliveries_counted {endian : Endian} {pipeFd : Fd} {d : Int → Handler}
    {as bs : List Act} {args : List SignalArg} {c c₁ e : Core} {s : Nat}
    (before : StepSystem.run Core.step (initWith endian pipeFd d) as = some c)
    (created : c.step (.signalStream args) = some c₁)
    (after : StepSystem.run Core.step c₁ bs = some e)
    (counts : StepSystem.Meets Core.step (Counts c.loop.nextReg s) c₁ bs)
    (live : (e.loop.reg c.loop.nextReg).torndown = false) (pipe : e.loop.base.pipe = [])
    (active : e.loop.base.activequeue = []) (repeating : e.loop.base.repeating = none) :
    let taken := c₁.mentions args s
    let early := c₁.loop.base.pipe.count s
    let n := bs.count (.raise s)
    e.yields args s = taken * (early + n) ∧
      (e.yields args s = n ↔ taken = 1 ∧ early = 0 ∨ n = 0 ∧ (taken = 0 ∨ early = 0)) := by
  intro taken early n
  have orderly : c.Orderly := StepSystem.invariant_run (P := Orderly)
    (fun _ _ _ h hs => h.step hs) (orderly_init endian pipeFd d) before
  obtain ⟨alive, hc⟩ := whenAlive_eq_some created
  have each : ∀ arg ∈ args.filter (fun arg => decide (arg.signum = (s : Int))),
      (e.loop.call arg.n).ran = if (c₁.loop.call arg.n).added = true then early + n else 0 := by
    intro arg mem
    obtain ⟨mem, signum⟩ := List.mem_filter.mp mem
    exact ran_of_entered (entered_signalStream orderly.sound alive hc mem (of_decide_eq_true signum))
      (orderly.step created) after counts live pipe active repeating
  have total : e.yields args s = taken * (early + n) := by
    rw [yields, List.map_congr_left each]
    exact sum_ite_eq_countP _ _ _
  refine ⟨total, ?_⟩
  rw [total]
  exact mul_add_eq_iff taken early n

/-- Signals 10 and 12 are caught over two passes. -/
def caught : List Act :=
  [ .raise 10, .raise 12, .raise 10, .dispatch [(3, { epollin := true })] ⟨1, 0⟩ [],
    .callback .nothing, .callback .nothing, .callback .nothing, .callback .nothing, .raise 10,
    .dispatch [(3, { epollin := true })] ⟨2, 0⟩ [], .callback .nothing, .callback .nothing ]

theorem deliveries_counted_caught :
    ∃ c₁ e, (initWith .little 3 fun _ => .other 0).step
        (.signalStream [{ n := 0, signum := 10 }, { n := 1, signum := 12 }]) = some c₁ ∧
      StepSystem.run Core.step c₁ caught = some e ∧ caught.count (.raise 10) = 3 ∧
      e.yields [{ n := 0, signum := 10 }, { n := 1, signum := 12 }] 10 = 3 := by
  have facts : ((initWith .little 3 fun _ => .other 0).step
      (.signalStream [{ n := 0, signum := 10 }, { n := 1, signum := 12 }])).bind
      (fun c₁ => (StepSystem.run Core.step c₁ caught).map fun e =>
        decide (StepSystem.Meets Core.step (Counts 0 10) c₁ caught ∧
          (e.loop.reg 0).torndown = false ∧ e.loop.base.pipe = [] ∧
          e.loop.base.activequeue = [] ∧ e.loop.base.repeating = none ∧
          c₁.mentions [{ n := 0, signum := 10 }, { n := 1, signum := 12 }] 10 = 1 ∧
          c₁.loop.base.pipe.count 10 = 0)) = some true := by
    decide +kernel
  obtain ⟨c₁, created, facts⟩ := Option.bind_eq_some_iff.mp facts
  obtain ⟨e, after, facts⟩ := Option.map_eq_some_iff.mp facts
  obtain ⟨counts, live, pipe, active, repeating, taken, early⟩ := of_decide_eq_true facts
  have before : StepSystem.run Core.step (initWith .little 3 fun _ => .other 0) [] = some _ := rfl
  have three : caught.count (.raise 10) = 3 := by decide
  refine ⟨c₁, e, created, after, three, ?_⟩
  rw [(deliveries_counted before created after counts live pipe active repeating).1, taken,
    early, three]

/-- A stream that lists a signal twice is given each delivery twice. -/
theorem two_yields_one_delivery :
    ∃ c₁ e, (initWith .little 3 fun _ => .other 0).step
        (.signalStream [{ n := 0, signum := 10 }, { n := 1, signum := 10 }]) = some c₁ ∧
      StepSystem.run Core.step c₁ [.raise 10, .dispatch [(3, { epollin := true })] ⟨1, 0⟩ [],
        .callback .nothing, .callback .nothing, .callback .nothing] = some e ∧
      (e.loop.reg 0).torndown = false ∧ e.loop.base.pipe = [] ∧ e.loop.base.activequeue = [] ∧
      e.loop.base.repeating = none ∧
      e.yields [{ n := 0, signum := 10 }, { n := 1, signum := 10 }] 10 = 2 := by
  have facts : ((initWith .little 3 fun _ => .other 0).step
      (.signalStream [{ n := 0, signum := 10 }, { n := 1, signum := 10 }])).bind
      (fun c₁ => (StepSystem.run Core.step c₁
        [.raise 10, .dispatch [(3, { epollin := true })] ⟨1, 0⟩ [],
          .callback .nothing, .callback .nothing, .callback .nothing]).map fun e =>
        decide ((e.loop.reg 0).torndown = false ∧ e.loop.base.pipe = [] ∧
          e.loop.base.activequeue = [] ∧ e.loop.base.repeating = none ∧
          e.yields [{ n := 0, signum := 10 }, { n := 1, signum := 10 }] 10 = 2)) = some true := by
    decide +kernel
  obtain ⟨c₁, created, facts⟩ := Option.bind_eq_some_iff.mp facts
  obtain ⟨e, after, facts⟩ := Option.map_eq_some_iff.mp facts
  exact ⟨c₁, e, created, after, of_decide_eq_true facts⟩

end Core

end SwiftEvent
