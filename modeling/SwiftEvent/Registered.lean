import SwiftEvent.Refine

/-!
# Suspended calls and their events

`read`, `write`, `accept` and a `connect` in progress suspend their task and hand
libevent an event that is to resume it.  None of them looks at the result of
`event_add`.  When libevent takes the event, the call is registered or resumed in
every later state of the loop; when it does not, the call is neither, ever again:
its task hangs and its box leaks.  `registered_iff` says exactly when that is.

`close()` documents that later I/O fails with an errno-carrying error.  With
nothing else registered on the number, it hangs instead (`read_after_close`).
-/

namespace SwiftEvent.Core

/-- The event a call hands to `event_add`. -/
structure Registration where
  n : Nat
  fd : Fd
  events : Evs
  timeout : Option Duration
  env : Base.AddEnv
  /-- Whether the number is in use then; `connect` has just opened its own. -/
  opened : Bool

/-- What the calls that wait for a descriptor ask for. -/
def registration (c : Core) : Act → Option Registration
  | .connect n _ (.inProgress fd) timeout env _ =>
      some { n, fd, events := { write := true }, timeout, env, opened := true }
  | .read n o timeout env _ => (c.object .socket o).map fun x =>
      { n, fd := x.fd, events := { read := true }, timeout, env, opened := c.opened x.fd }
  | .write n o _ timeout env _ => (c.object .socket o).map fun x =>
      { n, fd := x.fd, events := { write := true }, timeout, env, opened := c.opened x.fd }
  | .accept n o env _ => (c.object .server o).map fun x =>
      { n, fd := x.fd, events := { read := true }, timeout := none, env, opened := c.opened x.fd }
  | _ => none

/-- **When libevent takes the event**: the timer heap can grow if there is a
timeout, the 16-bit counters of the number have room, and, unless another event
already waits for that direction of the number, the number is in use, and neither
the multiplexer nor the allocator of its slot refuses it (`env.reject`). -/
def Registration.Accepted (r : Registration) (b : Base) : Prop :=
  ¬ (r.timeout.isSome = true ∧ r.env.heapFull = true) ∧
  (b.nread r.fd + if r.events.read then 1 else 0) ≤ 0xffff ∧
  (b.nwrite r.fd + if r.events.write then 1 else 0) ≤ 0xffff ∧
  (r.events.read = true ∧ b.nread r.fd = 0 ∨ r.events.write = true ∧ b.nwrite r.fd = 0 →
    r.opened = true ∧ r.env.reject = none)

instance (r : Registration) (b : Base) : Decidable (r.Accepted b) :=
  inferInstanceAs (Decidable (¬ _ ∧ _ ∧ _ ∧ (_ → _)))

variable {c c' : Core}

/-- `Accepted` is what `event_add` tests. -/
theorem accepts_iff {n : Nat} (new : ¬ c.loop.base.Queued (.call n)) (opened : Fd → Bool)
    (r : Registration) (ho : opened r.fd = r.opened) :
    (c.eventBase n { evFd := r.fd, evEvents := r.events }).Accepts opened r.env (.call n)
      (r.timeout.map timevalFor) ↔ r.Accepted c.loop.base := by
  have rd : (c.eventBase n { evFd := r.fd, evEvents := r.events }).nread r.fd =
      c.loop.base.nread r.fd := by
    apply Base.nread_congr
    · rfl
    · exact c.shape_eventBase new _
  have wr : (c.eventBase n { evFd := r.fd, evEvents := r.events }).nwrite r.fd =
      c.loop.base.nwrite r.fd := by
    apply Base.nwrite_congr
    · rfl
    · exact c.shape_eventBase new _
  simp only [Base.Accepts, Base.Admits, Registration.Accepted, Base.newEvents,
    eventBase_ev_self, rd, wr, ho, Option.isSome_map, EpollEvents.isSet, Bool.or_eq_true,
    Bool.and_eq_true, beq_iff_eq]

/-- What each of the four calls leaves, in terms of its registration. -/
theorem step_registration {a : Act} {r : Registration} (sound : c.loop.Sound)
    (hr : c.registration a = some r) (h : c.step a = some c') :
    r.n ∉ c.loop.made ∧ r.n ∈ c'.loop.made ∧ (c'.loop.call r.n).Started ∧
      (c'.loop.call r.n).kind.isIo = true ∧
      ((c'.loop.call r.n).added = true ↔ r.Accepted c.loop.base) ∧
      ((c'.loop.call r.n).added = true → .call r.n ∈ c'.loop.base.inserted ∧
        (c'.loop.base.ev (.call r.n)).evFd = r.fd ∧
        (c'.loop.base.ev (.call r.n)).evEvents = r.events) := by
  -- the four labels differ in the descriptor and in the process they leave
  have go : ∀ {kind o events w timeout env now}, c.Starts kind o r.fd events w →
      r.events = events → r.timeout = timeout → r.env = env → w.opened r.fd = r.opened →
      r.n ∉ c.loop.made →
      c' = startIo { c with world := w } r.n { kind, obj := some o } r.fd events timeout env now →
      r.n ∉ c.loop.made ∧ r.n ∈ c'.loop.made ∧ (c'.loop.call r.n).Started ∧
        (c'.loop.call r.n).kind.isIo = true ∧
        ((c'.loop.call r.n).added = true ↔ r.Accepted c.loop.base) ∧
        ((c'.loop.call r.n).added = true → .call r.n ∈ c'.loop.base.inserted ∧
          (c'.loop.base.ev (.call r.n)).evFd = r.fd ∧
          (c'.loop.base.ev (.call r.n)).evEvents = r.events) := by
    intro kind o events w timeout env now starts he ht hv ho new eq
    obtain ⟨io, signal, evio⟩ := starts.isIo
    rw [startIo_eq { c with world := w } _ r.fd timeout env now (sound.not_queued new) evio] at eq
    have accepts := accepts_iff (c := { c with world := w }) (sound.not_queued new) w.opened r
      ho
    rw [he, ht, hv] at accepts
    dsimp only at eq
    split at eq
    · next yes =>
        subst eq
        refine ⟨new, by simp [record], ?_, by simpa [record] using io,
          ⟨fun _ => accepts.mp yes, fun _ => by simp [record]⟩, fun _ => ?_⟩
        · constructor <;> simp [record, signal]
          constructor <;> simp [Call.news, io]
        · have shape := Event.shape_eq (addedBase_shape { c with world := w } r.n
            { evFd := r.fd, evEvents := events } now (timeout.map timevalFor))
          exact ⟨by simp [record, withBase, addedBase], shape.1, shape.2.1.trans he.symm⟩
    · next no =>
        subst eq
        refine ⟨new, by simp [record], ?_, by simpa [record] using io,
          ⟨fun yes => by simp [record] at yes, fun yes => absurd (accepts.mpr yes) no⟩,
          fun yes => by simp [record] at yes⟩
        constructor <;> simp [record, signal]
        constructor <;> simp [Call.news, io]
  cases a with
  | connect n address result timeout env now =>
      cases result with
      | inProgress fd =>
          obtain ⟨-, new, h⟩ := whenNew_eq_some h
          cases hr
          simp only [connect] at h
          split at h
          · next may =>
              cases h
              refine go (.connect address fd may.1 may.2) rfl rfl rfl ?_ new rfl
              simp [World.opened, World.openObj, World.install]
          · cases h
      | _ => cases hr
  | read n o timeout env now =>
      obtain ⟨-, new, h⟩ := whenNew_eq_some h
      obtain ⟨x, hx, rfl⟩ := Option.map_eq_some_iff.mp hr
      simp only [read, hx, Option.map_some, Option.some.injEq] at h
      exact go (.read o x hx) rfl rfl rfl rfl new h.symm
  | write n o data timeout env now =>
      obtain ⟨-, new, h⟩ := whenNew_eq_some h
      obtain ⟨x, hx, rfl⟩ := Option.map_eq_some_iff.mp hr
      simp only [write, hx, Option.map_some, Option.some.injEq] at h
      exact go (.write o x data hx) rfl rfl rfl rfl new h.symm
  | accept n o env now =>
      obtain ⟨-, new, h⟩ := whenNew_eq_some h
      obtain ⟨x, hx, rfl⟩ := Option.map_eq_some_iff.mp hr
      simp only [accept, hx, Option.map_some, Option.some.injEq] at h
      exact go (.accept o x hx) rfl rfl rfl rfl new h.symm
  | _ => cases hr

/-- The fate of a call is decided when it is made. -/
theorem pending_iff_accepted {bs : List Act} {d e : Core} {a : Act} {r : Registration}
    (sound : c.loop.Sound) (call : c.registration a = some r) (start : c.step a = some d)
    (after : StepSystem.run step d bs = some e) (alive : e.loop.alive = true) :
    ((e.loop.call r.n).outcomes ≠ [] ∨ e.loop.base.Queued (.call r.n)) ↔
      r.Accepted c.loop.base := by
  obtain ⟨-, made, started, io, added, -⟩ := step_registration sound call start
  obtain ⟨sound, -⟩ := step_follows sound start
  obtain ⟨-, follows⟩ := run_follows sound after
  obtain ⟨s, hs⟩ := sound.life r.n
  obtain ⟨t, ht, leads⟩ := Life.at_follows hs (follows r.n)
  rw [← added]
  rcases hs.of_started made started with ⟨rfl, yes⟩ | ⟨rfl, no⟩ | ⟨rfl, yes⟩
  · refine iff_of_true ?_ yes
    rcases leads.of_waiting with rfl | rfl | rfl
    · exact Or.inr ht.2.1
    · have resumed : (e.loop.call r.n).outcomes.length = 1 := ht.2.2.1.resumed
      exact Or.inl (List.ne_nil_of_length_pos (by omega))
    · exact absurd alive ht.2.2.1
  · refine iff_of_false ?_ (Bool.eq_false_iff.mp no)
    obtain rfl := leads.of_refused
    rintro (resumed | queued)
    · exact resumed (List.length_eq_zero_iff.mp ht.2.2.1.resumed)
    · exact ht.2.1.queued queued
  · -- a dropped call would mean that the loop was gone already
    obtain rfl := leads.of_dropped
    exact absurd alive ht.2.2.1

/-- **Registered or resumed, if and only if libevent took the event.**  Whatever
happens after the call, for as long as the loop exists. -/
theorem registered_iff {endian : Endian} {pipeFd : Fd} {as bs : List Act} {c d e : Core}
    {a : Act} {r : Registration}
    (before : StepSystem.run step (init endian pipeFd) as = some c)
    (call : c.registration a = some r) (start : c.step a = some d)
    (after : StepSystem.run step d bs = some e) (alive : e.loop.alive = true) :
    ((e.loop.call r.n).outcomes ≠ [] ∨ e.loop.base.Queued (.call r.n)) ↔
      r.Accepted c.loop.base :=
  pending_iff_accepted (sound_run before) call start after alive

/-- A listener, and a client that was accepted on descriptor 5. -/
def connected : List Act :=
  [.listen (.ok 4), .kernel (.incoming 1), .accept 0 1 {} ⟨0, 0⟩,
    .dispatch [(4, { epollin := true })] ⟨1, 0⟩ [], .callback (.fd 5)]

/-- A read on an open descriptor that the multiplexer takes. -/
theorem registered_iff_open :
    ∃ c d r, StepSystem.run step (init .little 3) connected = some c ∧
      c.registration (.read 1 2 none {} ⟨2, 0⟩) = some r ∧
      c.step (.read 1 2 none {} ⟨2, 0⟩) = some d ∧ d.loop.alive = true ∧
      r.Accepted c.loop.base ∧
      ((d.loop.call r.n).outcomes ≠ [] ∨ d.loop.base.Queued (.call r.n)) := by
  have facts : (StepSystem.run step (init .little 3) connected).bind (fun c =>
      (c.registration (.read 1 2 none {} ⟨2, 0⟩)).bind fun r =>
      (c.step (.read 1 2 none {} ⟨2, 0⟩)).map fun d =>
        (d.loop.alive, decide (r.Accepted c.loop.base))) = some (true, true) := by decide
  obtain ⟨c, before, facts⟩ := Option.bind_eq_some_iff.mp facts
  obtain ⟨r, call, facts⟩ := Option.bind_eq_some_iff.mp facts
  obtain ⟨d, start, facts⟩ := Option.map_eq_some_iff.mp facts
  obtain ⟨alive, accepted⟩ := Prod.mk.inj facts
  have accepted := of_decide_eq_true accepted
  have after : StepSystem.run step d [] = some d := rfl
  exact ⟨c, d, r, before, call, start, alive, accepted,
    (registered_iff before call start after alive).mpr accepted⟩

/-- **A read after `close()` hangs.**  The number is unused and nothing else is
registered on it, yet in no later state has the call thrown, returned, or an event
that could resume it. -/
theorem read_after_close :
    ∃ c d, StepSystem.run step (init .little 3) (connected ++ [.close 2]) = some c ∧
      c.opened 5 = false ∧ c.loop.base.evmapIo 5 = [] ∧
      c.step (.read 1 2 none {} ⟨2, 0⟩) = some d ∧
      ∀ bs e, StepSystem.run step d bs = some e → e.loop.alive = true →
        ¬ ((e.loop.call 1).outcomes ≠ [] ∨ e.loop.base.Queued (.call 1)) := by
  have facts : (StepSystem.run step (init .little 3) (connected ++ [.close 2])).bind (fun c =>
      (c.registration (.read 1 2 none {} ⟨2, 0⟩)).bind fun r =>
      (c.step (.read 1 2 none {} ⟨2, 0⟩)).map fun _ =>
        (c.opened 5, c.loop.base.evmapIo 5, r.n, decide (r.Accepted c.loop.base))) =
      some (false, [], 1, false) := by decide
  obtain ⟨c, before, facts⟩ := Option.bind_eq_some_iff.mp facts
  obtain ⟨r, call, facts⟩ := Option.bind_eq_some_iff.mp facts
  obtain ⟨d, start, facts⟩ := Option.map_eq_some_iff.mp facts
  simp only [Prod.mk.injEq, decide_eq_false_iff_not] at facts
  obtain ⟨unused, empty, one, refused⟩ := facts
  refine ⟨c, d, before, unused, empty, start, fun bs e after alive pending => refused ?_⟩
  rw [← one] at pending
  exact (pending_iff_accepted (sound_run before) call start after alive).mp pending

end SwiftEvent.Core
