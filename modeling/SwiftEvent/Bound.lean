import SwiftEvent.Frame
import SwiftEvent.Ownership

/-!
# Calls and their objects

A call that waits for a descriptor waits for the descriptor of the object it was
made on, and the object is alive: ARC keeps it, and nothing else may take it away
as long as `close()` is not called (`Bound.step`).  So its callback acts on the
socket of its own object, whoever drives the loop at that moment.

A new call is made on the object its step names, or opens (`new_calls`).
-/

namespace SwiftEvent

/-- No system call was made for the call, and it has returned no bytes. -/
structure Call.Untouched (call : Call) : Prop where
  syscalls : call.syscalls = []
  accepted : call.accepted = []
  outcomes : ∀ bytes, .data bytes ∉ call.outcomes

theorem Call.Started.untouched {call : Call} (h : call.Started) : call.Untouched where
  syscalls := h.quiet.1
  accepted := h.quiet.2
  outcomes bytes mem := by
    rw [List.length_eq_zero_iff.mp h.resumed] at mem
    cases mem

namespace Core

variable {c c' : Core} {a : Act} {n : Nat}

/-! ## New calls -/

/-- The calls a step makes: on nothing, on the object it opens, or on the one it
names; none of them has moved a byte yet. -/
theorem new_calls (sound : c.loop.Sound) (h : c.step a = some c') :
    ∃ ns, c'.loop.made = c.loop.made ++ ns ∧ ∀ n ∈ ns, n ∉ c.loop.made ∧
      (c'.loop.call n).Untouched ∧
      ((c'.loop.call n).obj = none ∨ ns = [n] ∧
        ((c'.loop.call n).obj = some c.world.nextObj ∧ c.world.nextObj < c'.world.nextObj ∨
          ∃ o x, a.target = some o ∧ (c'.loop.call n).obj = some o ∧ c.world.obj o = some x)) := by
  have none : c'.loop.made = c.loop.made → ∃ ns, c'.loop.made = c.loop.made ++ ns ∧
      ∀ n ∈ ns, n ∉ c.loop.made ∧ (c'.loop.call n).Untouched ∧ ((c'.loop.call n).obj = none ∨
          ns = [n] ∧
            ((c'.loop.call n).obj = some c.world.nextObj ∧ c.world.nextObj < c'.world.nextObj ∨
              ∃ o x, a.target = some o ∧ (c'.loop.call n).obj = some o ∧
              c.world.obj o = some x)) := fun same =>
    ⟨[], by simp [same], by simp⟩
  cases step_cases h with
  | answer m address r timeout env now call w alive new ans =>
      refine ⟨[m], rfl, fun n mem => ?_⟩
      obtain rfl := List.mem_singleton.mp mem
      simp only [record, Function.update_self]
      cases ans with
      | socketFails errno => exact ⟨new, ⟨rfl, rfl, by simp⟩, Or.inl rfl⟩
      | ok fd listener w free inet hw =>
          refine ⟨new, ⟨rfl, rfl, by simp⟩, Or.inr ⟨trivial, Or.inl ⟨rfl, ?_⟩⟩⟩
          rw [(World.same_conclude hw).nextObj]
          exact Nat.lt_succ_self _
      | fails fd errno w free ne hw =>
          refine ⟨new, ⟨rfl, rfl, by simp⟩, Or.inr ⟨trivial, Or.inl ⟨rfl, ?_⟩⟩⟩
          rw [(World.same_conclude hw).nextObj]
          exact Nat.lt_succ_self _
  | start _ drives m kind o fd events w timeout env now alive new starts accept opens target =>
      refine ⟨[m], rfl, fun n mem => ?_⟩
      obtain rfl := List.mem_singleton.mp mem
      have object : ∀ {role x}, c.object role o = some x → c.world.obj o = some x :=
        fun hx => (Option.filter_eq_some_iff.mp hx).1
      simp only [startIo, record, Function.update_self]
      refine ⟨new, ⟨rfl, rfl, by simp⟩, Or.inr ⟨trivial, ?_⟩⟩
      cases starts with
      | connect address fd free inet => exact Or.inl ⟨rfl, Nat.lt_succ_self _⟩
      | read o x hx => exact Or.inr ⟨o, x, target, rfl, object hx⟩
      | write o x data hx => exact Or.inr ⟨o, x, target, rfl, object hx⟩
      | accept o x hx => exact Or.inr ⟨o, x, target, rfl, object hx⟩
  | schedule m sleeps duration nomem env now alive new =>
      rcases schedule_cases c (if sleeps then .sleep else .schedule) duration nomem env now
        (sound.not_queued new) with ⟨b, -, eq⟩ | ⟨-, eq⟩ | ⟨-, eq⟩
      all_goals
        rw [eq]
        refine ⟨[m], rfl, fun n mem => ?_⟩
        obtain rfl := List.mem_singleton.mp mem
        simp only [record, Function.update_self]
        exact ⟨new, ⟨rfl, rfl, by simp⟩, Or.inl trivial⟩
  | signalStream args c' alive hc =>
      obtain ⟨-, -, ns, made, new⟩ := signalStream_rounds
        (P := fun d => ∃ ns, d.loop.made = c.loop.made ++ ns ∧ ∀ n ∈ ns, n ∉ c.loop.made ∧
          (d.loop.call n).Untouched ∧ (d.loop.call n).obj = Option.none) sound alive hc
        ⟨[], by simp, by simp⟩
        (fun d arg d' _ streaming ih hs => by
          obtain ⟨ns, made, new⟩ := ih
          obtain ⟨fresh, eq⟩ := signalOne_cases hs streaming.sound.not_queued
          have fresh' : arg.n ∉ c.loop.made := fun mem => fresh (by simp [made, mem])
          refine ⟨ns ++ [arg.n], ?_, fun n mem => ?_⟩
          · rcases eq with rfl | ⟨added, b, add, rfl⟩
            · simp [record, made]
            · simp [record, append, withBase, made]
          · by_cases same : n = arg.n
            · subst same
              rcases eq with rfl | ⟨added, b, add, rfl⟩
              all_goals
                simp only [record, append, Function.update_self]
                exact ⟨fresh', ⟨rfl, rfl, by simp⟩, trivial⟩
            · have old := new n (by simpa [same] using mem)
              rcases eq with rfl | ⟨added, b, add, rfl⟩
              · simpa [record, same] using old
              · simpa [record, append, withBase, same] using old)
      exact ⟨ns, made, fun n mem => ⟨(new n mem).1, (new n mem).2.1, Or.inl (new n mem).2.2⟩⟩
  | tearDown r alive opened =>
      refine none ?_
      rw [tearDown]
      split
      · rfl
      · exact (torn_foldl c (sound.regs.nodup r)).made
  | _ => exact none rfl

/-! ## Waiting calls and their objects -/

/-- The call waits for the descriptor of a live object of its loop. -/
structure WaitsOn (c : Core) (n o : Nat) (x : Obj) : Prop where
  obj : (c.loop.call n).obj = some o
  live : c.world.obj o = some x
  role : x.role ≠ .pipe
  home : x.loop = c.loop.self
  fd : (c.loop.base.ev (.call n)).evFd = x.fd
  quiet : (c.loop.base.ev (.call n)).evEvents.signal = false

/-- **Every waiting call waits for its own object.** -/
structure Bound (c : Core) : Prop where
  sound : c.loop.Sound
  known : ∀ n ∈ c.loop.made, ∀ o, (c.loop.call n).obj = some o → o < c.world.nextObj
  waits : ∀ n, c.loop.base.Queued (.call n) → (c.loop.call n).kind.isIo = true →
    ∃ o x, c.WaitsOn n o x
  pipe : c.loop.alive = true → ∃ x, c.world.obj c.loop.pipe = some x ∧ x.role = .pipe ∧
    x.loop = c.loop.self

theorem started_of_queued (sound : c.loop.Sound) (queued : c.loop.base.Queued (.call n))
    (signal : (c.loop.call n).kind.isSignal = false) : (c.loop.call n).Started := by
  obtain ⟨s, hs⟩ := sound.life n
  obtain rfl := hs.waiting queued signal
  obtain ⟨-, -, -, -, -, started, -⟩ := hs
  exact started

/-- A live object outlives a step that neither closes nor frees it. -/
theorem obj_opens {w w' : World} {loop : Nat} {opens : Option Fd}
    (h : World.Opens loop w w' opens) (fresh : ∀ o, w.nextObj ≤ o → w.obj o = none) {o : Nat}
    {x : Obj} (hx : w.obj o = some x) : w'.obj o = some x := by
  cases h with
  | same _ same => rw [same.obj]; exact hx
  | opened role fd k free unused same =>
      have ne : o ≠ w.nextObj := by
        rintro rfl
        rw [fresh _ (Nat.le_refl _)] at hx
        cases hx
      rw [same.obj]
      simp only [World.install, Function.update_of_ne ne]
      exact hx
  | flash k table obj nextObj closes => rw [obj]; exact hx

theorem obj_deinit {w w' : World} {o o' : Nat} (h : w.deinit o' = some w') (ne : o ≠ o') :
    w'.obj o = w.obj o := by
  unfold World.deinit at h
  split at h
  · cases h
    exact Function.update_of_ne ne _ _
  · cases h

theorem obj_deinit_self {w w' : World} {o : Nat} (h : w.deinit o = some w') : w'.obj o = none := by
  unfold World.deinit at h
  split at h
  · cases h
    exact Function.update_self ..
  · cases h

/-- Where the objects come from, when nothing is closed. -/
theorem obj_back (hs : c.step a = some c') (noClose : ∀ o, a ≠ .close o) {o : Nat} {x : Obj}
    (hx : c'.world.obj o = some x) :
    c.world.obj o = some x ∨ o = c.world.nextObj ∧ x.loop = c.loop.self ∧ x.closed = false ∧
      (x.sock = c.world.nextSock ∨ ∃ s, x.sock ∈ (c.world.sock s).backlog) := by
  have gone : ∀ {o'}, c.world.deinit o' = some c'.world → c.world.obj o = some x := by
    intro o' hw
    by_cases eq : o = o'
    · subst eq
      rw [obj_deinit_self hw] at hx
      cases hx
    · rwa [obj_deinit hw eq] at hx
  rcases step_opens hs with opens | ⟨o', rfl, -⟩ | ⟨o', rfl, -, hw⟩ | ⟨rfl, hw⟩
  · exact opens.obj_back hx
  · exact absurd rfl (noClose o')
  · exact Or.inl (gone hw)
  · exact Or.inl (gone hw)

theorem nextObj_moves {w w' : World} {opens : Option Fd} (h : World.Moves w w' opens) :
    w.nextObj ≤ w'.nextObj := by
  cases h with
  | opens _ _ h =>
      cases h with
      | same _ same => exact Nat.le_of_eq same.nextObj.symm
      | opened role fd k free unused same =>
          rw [same.nextObj]
          exact Nat.le_succ _
      | flash k table obj nextObj closes => exact Nat.le_of_eq nextObj.symm
  | closed o h =>
      unfold World.close at h
      split at h
      · split at h
        · cases h
        · cases h; exact Nat.le_refl _
      · cases h
  | deinit o h =>
      unfold World.deinit at h
      split at h
      · cases h; exact Nat.le_refl _
      · cases h

/-- A waiting call keeps its object: nothing is closed, a receiver stays alive, and
only pipes go with their loop. -/
theorem WaitsOn.obj_step {o : Nat} {x : Obj} (h : c.WaitsOn n o x) (bound : c.Bound)
    (owned : c.world.Owned) (hs : c.step a = some c') (noClose : ∀ o, a ≠ .close o)
    (queued : c.loop.base.Queued (.call n)) (io : (c.loop.call n).kind.isIo = true) :
    c'.world.obj o = some x := by
  rcases step_opens hs with opens | ⟨o', rfl, -⟩ | ⟨o', rfl, may, hw⟩ | ⟨rfl, hw⟩
  · exact obj_opens opens owned.fresh h.live
  · exact absurd rfl (noClose o')
  · have ne : o ≠ o' := by
      rintro rfl
      have started := started_of_queued bound.sound queued (Kind.not_signal_of_io io)
      exact may.1 n (made_of_queued bound.sound queued) h.obj
        (List.length_eq_zero_iff.mp started.resumed)
    rw [obj_deinit hw ne]
    exact h.live
  · cases step_cases hs with
    | free w alive torn hw' =>
        obtain ⟨y, hy, pipe, -⟩ := bound.pipe alive
        have ne : o ≠ c.loop.pipe := by
          rintro rfl
          rw [h.live, Option.some.injEq] at hy
          exact h.role (hy ▸ pipe)
        rw [obj_deinit hw ne]
        exact h.live
    | start _ drives => cases drives

/-- A call that has just been started waits for the object it was made on. -/
theorem waitsOn_start (sound : c.loop.Sound) (new : n ∉ c.loop.made) {kind : Kind} {o : Nat}
    {fd : Fd} {events : Evs} {w : World} (starts : c.Starts kind o fd events w)
    {timeout : Option Duration} {env : Base.AddEnv} {now : Timeval}
    (eq : c' = startIo { c with world := w } n { kind, obj := some o } fd events timeout env now)
    (queued : c'.loop.base.Queued (.call n)) : ∃ x, c'.WaitsOn n o x := by
  have notQueued := sound.not_queued new
  rw [startIo_eq { c with world := w } _ fd timeout env now notQueued starts.isIo.2.2] at eq
  dsimp only at eq
  split at eq
  · subst eq
    have shape := Event.shape_eq (addedBase_shape { c with world := w } n
      { evFd := fd, evEvents := events } now (timeout.map timevalFor))
    have live : ∃ x, w.obj o = some x ∧ x.role ≠ .pipe ∧ x.loop = c.loop.self ∧ fd = x.fd ∧
        events.signal = false := by
      cases starts with
      | connect address fd free inet =>
          exact ⟨_, Function.update_self .., by simp, rfl, rfl, rfl⟩
      | read o x hx =>
          obtain ⟨hx, role⟩ := Option.filter_eq_some_iff.mp hx
          simp only [decide_eq_true_eq] at role
          exact ⟨x, hx, by simp [role.1], role.2, rfl, rfl⟩
      | write o x data hx =>
          obtain ⟨hx, role⟩ := Option.filter_eq_some_iff.mp hx
          simp only [decide_eq_true_eq] at role
          exact ⟨x, hx, by simp [role.1], role.2, rfl, rfl⟩
      | accept o x hx =>
          obtain ⟨hx, role⟩ := Option.filter_eq_some_iff.mp hx
          simp only [decide_eq_true_eq] at role
          exact ⟨x, hx, by simp [role.1], role.2, rfl, rfl⟩
    obtain ⟨x, hx, role, home, number, quiet⟩ := live
    refine ⟨x, by simp [record], hx, role, home, ?_, ?_⟩
    · exact shape.1.trans number
    · simp only [record, withBase, shape.2.1]
      exact quiet
  · subst eq
    have queued : c.loop.base.Queued (.call n) := queued
    exact absurd queued notQueued

/-- A call stays the call of its object. -/
theorem obj_call_step (sound : c.loop.Sound) (h : c.step a = some c') (made : n ∈ c.loop.made) :
    (c'.loop.call n).obj = (c.loop.call n).obj := by
  rcases record_step sound h made with eq | ⟨-, eq | eq⟩ | ⟨r, fx, -, -, -, rfl⟩
  · rw [eq]
  · rw [eq]; rfl
  · rw [eq]; rfl
  · simp [fired, withCall, Effect.settle]

/-- **Every step keeps it**, as long as nothing is closed. -/
theorem Bound.step (h : c.Bound) (owned : c.world.Owned) (hs : c.step a = some c')
    (noClose : ∀ o, a ≠ .close o) : c'.Bound := by
  obtain ⟨sound', follows⟩ := step_follows h.sound hs
  obtain ⟨self, pipe, alive⟩ := ident_step hs
  refine ⟨sound', fun n made o obj => ?_, fun n queued io => ?_, fun living => ?_⟩
  · have grows := nextObj_moves (step_world hs)
    obtain ⟨ns, made', new⟩ := new_calls h.sound hs
    rw [made', List.mem_append] at made
    rcases made with made | mem
    · rw [obj_call_step h.sound hs made] at obj
      exact Nat.lt_of_lt_of_le (h.known n made o obj) grows
    · rcases (new n mem).2.2 with none | ⟨-, ⟨own, opened⟩ | ⟨o', x, -, own, hx⟩⟩
      · rw [none] at obj
        cases obj
      · rw [own, Option.some.injEq] at obj
        exact obj ▸ opened
      · rw [own, Option.some.injEq] at obj
        subst obj
        exact Nat.lt_of_lt_of_le (owned.lt_nextObj hx) grows
  · by_cases made : n ∈ c.loop.made
    · have kind : (c'.loop.call n).kind = (c.loop.call n).kind :=
        (Life.kind_follows (follows n) made).1
      rw [kind] at io
      have signal := Kind.not_signal_of_io io
      have queued' := queued_back h.sound hs made queued signal
      obtain ⟨o, x, waits⟩ := h.waits n queued' io
      have live := waits.obj_step h owned hs noClose queued' io
      refine ⟨o, x, ?_⟩
      by_cases pass : ∃ ready now order, a = .dispatch ready now order
      · obtain ⟨ready, now, order, rfl⟩ := pass
        cases step_cases hs with
        | dispatch _ _ _ b alive reports later quiet hb =>
            have shape := Event.shape_eq (Base.shape_dispatchPass hb (.call n))
            exact ⟨waits.obj, live, waits.role, waits.home, shape.1.trans waits.fd, by
              simp only [withBase, shape.2.1]; exact waits.quiet⟩
        | start _ drives => cases drives
      · have kept := kept_step h.sound hs (fun _ _ _ eq => pass ⟨_, _, _, eq⟩) made queued signal
          waits.quiet
        exact ⟨by rw [kept.call]; exact waits.obj, live, waits.role, by rw [self]; exact waits.home,
          by rw [kept.ev]; exact waits.fd, by rw [kept.ev]; exact waits.quiet⟩
    · obtain ⟨kind, o, fd, events, w, timeout, env, now, starts, -, eq⟩ :=
        starts_of_new h.sound hs made queued io
      exact ⟨o, waitsOn_start h.sound made starts eq queued⟩
  · obtain ⟨x, hx, role, home⟩ := h.pipe (alive living)
    refine ⟨x, ?_, role, by rw [self]; exact home⟩
    rw [pipe]
    rcases step_opens hs with opens | ⟨o, rfl, -⟩ | ⟨o, rfl, may, hw⟩ | ⟨rfl, -⟩
    · exact obj_opens opens owned.fresh hx
    · exact absurd rfl (noClose o)
    · have ne : c.loop.pipe ≠ o := by
        rintro rfl
        have := may.2
        simp [hx, role] at this
      rw [obj_deinit hw ne]
      exact hx
    · cases step_cases hs with
      | free w alive torn hw => cases living
      | start _ drives => cases drives

end Core

end SwiftEvent
