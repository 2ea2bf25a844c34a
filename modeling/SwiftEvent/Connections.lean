import SwiftEvent.Accepts
import SwiftEvent.Library.Channel

/-!
# `ServerSocket.connections`

A task of its own calls `accept()` again and again and yields what it returns
into an `AsyncThrowingStream`; the first error finishes the stream and ends the
task.  The consumer takes sockets out of the stream and may go away at any
moment: by `break`, by cancellation, or by dropping the stream.

The consumer receives the accepted sockets in the order of the accepts, and
nothing is accepted after an error.  But the task never looks at what `yield`
returns.  When the consumer has gone it accepts connections as before, each of
which is dropped unseen, until an `accept()` throws
(`connections_of_outcomes`, `connections_swallowed`); the documentation speaks of
the next activity.  Nor does the server go away: the task refers to it.
-/

namespace SwiftEvent

/-- Where the task behind a stream of connections is. -/
inductive AcceptLoop
  | calling
  | awaiting (n : Nat)
  | ended
deriving DecidableEq, Repr

/-- A stream of connections in its process. -/
structure Connections where
  core : Core
  server : Nat
  task : AcceptLoop := .calling
  /-- The calls of `accept()` that the task has made. -/
  calls : List Nat := []
  stream : Channel Nat SocketError := {}
  /-- The consumer has gone. -/
  stopped : Bool := false

/-- `ServerSocket.connections`. -/
def Core.connections (c : Core) (server : Nat) : Connections := { core := c, server }

namespace Connections

/-- What may happen next: a step of anything else in the process, the two halves of a round of the
task, the consumer asks for an element, or goes away. -/
inductive Act
  | core (a : Core.Act)
  | accept (n : Nat) (env : Base.AddEnv) (now : Timeval)
  | resume
  | next
  | stop
deriving DecidableEq

/-- The rest of a round, after `accept()`. -/
def resumed (s : Connections) : Outcome → Option Connections
  | .socket client => some { s with task := .calling, stream := s.stream.yield client }
  | .threw error =>
      some { s with task := .ended, stream := s.stream.finish (.failed error) }
  | _ => none

/-- **One step.**  As long as the task runs, its reference keeps the server. -/
def step (s : Connections) : Act → Option Connections
  | .core a =>
      if a = .deinit s.server ∧ s.task ≠ .ended then none
      else (s.core.step a).map fun core => { s with core }
  | .accept n env now =>
      if s.task = .calling then
        (s.core.step (.accept n s.server env now)).map fun core =>
          { s with core, task := .awaiting n, calls := s.calls ++ [n] }
      else none
  | .resume =>
      match s.task with
      | .awaiting n => (s.core.loop.call n).outcomes.head?.bind s.resumed
      | _ => none
  | .next => s.stream.next.map fun stream => { s with stream }
  | .stop => some { s with stream := s.stream.finish .finished, stopped := true }

end Connections

/-- The socket that a call returned. -/
def Outcome.client : Outcome → Option Nat
  | .socket client => some client
  | _ => none

namespace Connections

/-- The outcomes of the task's accepts, one after the other. -/
def results (s : Connections) : List Outcome :=
  s.calls.flatMap fun n => (s.core.loop.call n).outcomes

/-- The sockets they returned. -/
def accepted (s : Connections) : List Nat := s.results.filterMap Outcome.client

end Connections

namespace Core

variable {c c' : Core} {a : Act} {n x : Nat} {out : Outcome}

/-- The accept `n` has come to its end. -/
structure Settled (c : Core) (n : Nat) (out : Outcome) : Prop where
  made : n ∈ c.loop.made
  kind : (c.loop.call n).kind = .accept
  outcomes : (c.loop.call n).outcomes = [out]

theorem Settled.step (h : c.Settled n out) (sound : c.loop.Sound) (hs : c.step a = some c') :
    c'.Settled n out := by
  obtain ⟨made, same⟩ := resumed_step sound hs h.made (by rw [h.kind]; rfl)
    (by rw [h.outcomes]; simp)
  exact ⟨made, same ▸ h.kind, same ▸ h.outcomes⟩

/-- An accept of the task that has not been resumed: what it may find. -/
structure Outstanding (c : Core) (n : Nat) (xs : List Nat) : Prop where
  made : n ∈ c.loop.made
  kind : (c.loop.call n).kind = .accept
  outcomes : (c.loop.call n).outcomes = [] ∨
    (∃ x, (c.loop.call n).outcomes = [.socket x] ∧ x ∉ xs ∧ x < c.world.nextObj) ∨
    ∃ error, (c.loop.call n).outcomes = [.threw error]

theorem Outstanding.step {xs : List Nat} (h : c.Outstanding n xs) (sound : c.loop.Sound)
    (known : ∀ x ∈ xs, x < c.world.nextObj) (hs : c.step a = some c') :
    c'.Outstanding n xs ∧
      ((c.loop.call n).outcomes = [] ∨
        (c'.loop.call n).outcomes = (c.loop.call n).outcomes) := by
  have grows := nextObj_moves (step_world hs)
  by_cases waits : (c.loop.call n).outcomes = []
  · obtain ⟨kind, made⟩ := Life.kind_follows ((step_follows sound hs).2 n) h.made
    have kind : (c'.loop.call n).kind = .accept := kind.trans h.kind
    refine ⟨⟨made, kind, ?_⟩, Or.inl waits⟩
    rcases accept_step sound hs made kind with new | ⟨-, -, same | ⟨r, fx, rfl, next, outs, body⟩⟩
    · exact Or.inl new
    · exact Or.inl (by rw [same, waits])
    · rw [outs]
      rcases accept_body h.kind body with
        ⟨k, clientFd, client, rest, rfl, -, -, outcome, world⟩ | ⟨errno, -, outcome, -⟩
      · refine Or.inr (Or.inl ⟨c.world.nextObj, by rw [outcome], ?_, ?_⟩)
        · exact fun mem => Nat.lt_irrefl _ (known _ mem)
        · obtain ⟨fx', body', eq⟩ := fired_of_nextCall hs next (by rw [h.kind]; rfl)
          cases body.symm.trans body'
          rw [eq]
          show c.world.nextObj < fx.world.nextObj
          rw [world]
          exact Nat.lt_succ_self _
      · exact Or.inr (Or.inr ⟨_, by rw [outcome]⟩)
  · obtain ⟨made, same⟩ := resumed_step sound hs h.made (by rw [h.kind]; rfl) waits
    refine ⟨⟨made, same ▸ h.kind, ?_⟩, Or.inr (by rw [same])⟩
    rw [same]
    rcases h.outcomes with none | ⟨x, out, new, lt⟩ | threw
    · exact Or.inl none
    · exact Or.inr (Or.inl ⟨x, out, new, Nat.lt_of_lt_of_le lt grows⟩)
    · exact Or.inr (Or.inr threw)

/-- The task calls `accept()`. -/
theorem outstanding_accept {o : Nat} {env : Base.AddEnv} {now : Timeval} (xs : List Nat)
    (hs : c.step (.accept n o env now) = some c') :
    c'.Outstanding n xs ∧ (c'.loop.call n).outcomes = [] := by
  rw [Core.step, whenNew] at hs
  split at hs
  · obtain ⟨y, -, rfl⟩ := Option.map_eq_some_iff.mp hs
    have none : ((c.startIo n { kind := .accept, obj := some o } y.fd { read := true } none env
        now).loop.call n).outcomes = [] := by
      simp [startIo, record]
    refine ⟨⟨?_, ?_, Or.inl none⟩, none⟩
    · simp [startIo, record]
    · simp [startIo, record]
  · cases hs

end Core

namespace Connections

variable {s t : Connections} {a : Act} {before xs : List Nat}

/-- What the task has done besides the rounds that are over: nothing, the first half of a round,
or a round that threw. -/
def Doing (s : Connections) (before xs : List Nat) : AcceptLoop → Prop
  | .calling => s.calls = before ∧ s.stream.terminal = if s.stopped then some .finished else none
  | .awaiting n => s.calls = before ++ [n] ∧ s.core.Outstanding n xs ∧
      s.stream.terminal = if s.stopped then some .finished else none
  | .ended => ∃ n error, s.calls = before ++ [n] ∧ s.core.Settled n (.threw error) ∧
      (s.stream.terminal = some (.failed error) ∨
        s.stopped = true ∧ s.stream.terminal = some .finished)

/-- The calls `before` are the rounds that are over; they returned, and the task yielded, the
sockets `xs`. -/
structure Coherent (s : Connections) (before xs : List Nat) : Prop where
  sound : s.core.loop.Sound
  carries : s.stream.Carries xs
  nodup : xs.Nodup
  known : ∀ x ∈ xs, x < s.core.world.nextObj
  rounds : List.Forall₂ (fun n x => s.core.Settled n (.socket x)) before xs
  doing : s.Doing before xs s.task

theorem coherent_new {c : Core} (sound : c.loop.Sound) (server : Nat) :
    (c.connections server).Coherent [] [] :=
  ⟨sound, .nil, List.nodup_nil, (fun _ mem => nomatch mem), .nil, rfl, rfl⟩

/-- Anything else in the process leaves the rounds alone. -/
theorem Coherent.core {core : Core} {b : Core.Act} (h : s.Coherent before xs)
    (hs : s.core.step b = some core) : Coherent { s with core } before xs := by
  have grows := Core.nextObj_moves (Core.step_world hs)
  refine ⟨(Core.step_follows h.sound hs).1, h.carries, h.nodup, ?_, ?_, ?_⟩
  · exact fun x mem => Nat.lt_of_lt_of_le (h.known x mem) grows
  · exact h.rounds.imp fun n x settled => settled.step h.sound hs
  · have doing := h.doing
    revert doing
    show s.Doing before xs s.task → Doing { s with core } before xs s.task
    cases s.task with
    | calling => exact fun doing => doing
    | awaiting n =>
        rintro ⟨calls, outstanding, terminal⟩
        exact ⟨calls, (outstanding.step h.sound h.known hs).1, terminal⟩
    | ended =>
        rintro ⟨n, error, calls, settled, terminal⟩
        exact ⟨n, error, calls, settled.step h.sound hs, terminal⟩

/-- The task calls `accept()`. -/
theorem Coherent.accept {core : Core} {n : Nat} {env : Base.AddEnv} {now : Timeval}
    (h : s.Coherent before xs) (calling : s.task = .calling)
    (hs : s.core.step (.accept n s.server env now) = some core) :
    Coherent { s with core, task := .awaiting n, calls := s.calls ++ [n] } before xs := by
  have after := h.core hs
  have doing := h.doing
  rw [calling] at doing
  obtain ⟨calls, terminal⟩ := doing
  refine ⟨after.sound, h.carries, h.nodup, after.known, after.rounds, ?_, ?_, terminal⟩
  · show s.calls ++ [n] = before ++ [n]
    rw [calls]
  · exact (Core.outstanding_accept xs hs).1

/-- The second half of a round. -/
theorem Coherent.resume {n : Nat} {out : Outcome} (h : s.Coherent before xs)
    (awaiting : s.task = .awaiting n) (head : (s.core.loop.call n).outcomes.head? = some out)
    (hs : s.resumed out = some t) : ∃ before' xs', t.Coherent before' xs' := by
  have doing := h.doing
  rw [awaiting] at doing
  obtain ⟨calls, outstanding, terminal⟩ := doing
  rcases outstanding.outcomes with none | ⟨x, returned, new, lt⟩ | ⟨error, threw⟩
  · rw [none] at head
    cases head
  · rw [returned] at head
    cases head
    cases hs
    have one : s.core.Settled n (.socket x) := ⟨outstanding.made, outstanding.kind, returned⟩
    have running : ∀ error, s.stream.terminal ≠ some (.failed error) := by
      intro error failed
      rw [terminal] at failed
      split at failed <;> cases failed
    refine ⟨before ++ [n], xs ++ [x], h.sound, h.carries.yield running x, ?_, ?_,
      List.rel_append h.rounds (.cons one .nil), calls, ?_⟩
    · exact List.nodup_append'.mpr ⟨h.nodup, List.nodup_singleton _,
        List.disjoint_singleton.mpr new⟩
    · intro y mem
      rcases List.mem_append.mp mem with mem | mem
      · exact h.known y mem
      · rw [List.mem_singleton.mp mem]
        exact lt
    · exact (Channel.terminal_yield _ _).trans terminal
  · rw [threw] at head
    cases head
    cases hs
    refine ⟨before, xs, h.sound, h.carries.finish _, h.nodup, h.known, h.rounds, n, error,
      calls, ⟨outstanding.made, outstanding.kind, threw⟩, ?_⟩
    show (s.stream.finish (.failed error)).terminal = _ ∨
      s.stopped = true ∧ (s.stream.finish (.failed error)).terminal = _
    rw [Channel.terminal_finish, terminal]
    cases s.stopped with
    | true => exact Or.inr ⟨rfl, rfl⟩
    | false => exact Or.inl rfl

/-- The consumer asks for an element. -/
theorem Coherent.next {stream : Channel Nat SocketError} (h : s.Coherent before xs)
    (hs : s.stream.next = some stream) : Coherent { s with stream } before xs := by
  have same := Channel.terminal_next hs
  refine ⟨h.sound, h.carries.next hs, h.nodup, h.known, h.rounds, ?_⟩
  have doing := h.doing
  revert doing
  show s.Doing before xs s.task → Doing { s with stream } before xs s.task
  cases s.task with
  | calling => exact fun doing => ⟨doing.1, same.trans doing.2⟩
  | awaiting n => exact fun doing => ⟨doing.1, doing.2.1, same.trans doing.2.2⟩
  | ended =>
      rintro ⟨n, error, calls, settled, terminal⟩
      refine ⟨n, error, calls, settled, ?_⟩
      rw [← same] at terminal
      exact terminal

/-- The consumer goes away. -/
theorem Coherent.stop (h : s.Coherent before xs) :
    Coherent { s with stream := s.stream.finish .finished, stopped := true } before xs := by
  refine ⟨h.sound, h.carries.finish _, h.nodup, h.known, h.rounds, ?_⟩
  have ends := Channel.terminal_finish s.stream .finished
  have doing := h.doing
  revert doing
  show s.Doing before xs s.task →
    Doing { s with stream := s.stream.finish .finished, stopped := true } before xs s.task
  cases s.task with
  | calling =>
      rintro ⟨calls, terminal⟩
      refine ⟨calls, ends.trans ?_⟩
      rw [terminal]
      cases s.stopped <;> rfl
  | awaiting n =>
      rintro ⟨calls, outstanding, terminal⟩
      refine ⟨calls, outstanding, ends.trans ?_⟩
      rw [terminal]
      cases s.stopped <;> rfl
  | ended =>
      rintro ⟨n, error, calls, settled, terminal⟩
      refine ⟨n, error, calls, settled, ?_⟩
      rcases terminal with failed | ⟨-, finished⟩
      · exact Or.inl (ends.trans (by rw [failed]; rfl))
      · exact Or.inr ⟨rfl, ends.trans (by rw [finished]; rfl)⟩

/-- The rounds that are over returned sockets. -/
theorem outcomes_of_rounds {c : Core} {ns ys : List Nat}
    (rounds : List.Forall₂ (fun n x => c.Settled n (.socket x)) ns ys) :
    (ns.flatMap fun n => (c.loop.call n).outcomes) = ys.map .socket := by
  induction rounds with
  | nil => rfl
  | cons settled _ ih =>
      rw [List.flatMap_cons, settled.outcomes, ih]
      rfl

/-- The outcome of the call after those rounds. -/
def latest (s : Connections) : List Outcome :=
  match s.task with
  | .calling => []
  | _ => s.calls.getLast?.elim [] fun n => (s.core.loop.call n).outcomes

theorem Coherent.results (h : s.Coherent before xs) :
    s.results = xs.map .socket ++ s.latest := by
  have doing := h.doing
  rw [Connections.results, latest]
  revert doing
  cases s.task with
  | calling =>
      rintro ⟨calls, -⟩
      rw [calls, outcomes_of_rounds h.rounds, List.append_nil]
  | awaiting n =>
      rintro ⟨calls, -⟩
      rw [calls, List.flatMap_append, outcomes_of_rounds h.rounds]
      simp
  | ended =>
      rintro ⟨n, error, calls, -⟩
      rw [calls, List.flatMap_append, outcomes_of_rounds h.rounds]
      simp

/-- Outcomes are added at the end. -/
theorem Coherent.grows {core : Core} {b : Core.Act} (h : s.Coherent before xs)
    (hs : s.core.step b = some core) :
    ∃ more, Connections.results { s with core } = s.results ++ more := by
  rw [(h.core hs).results, h.results]
  have doing := h.doing
  cases task : s.task with
  | calling => exact ⟨[], by simp [latest, task]⟩
  | awaiting n =>
      rw [task] at doing
      obtain ⟨calls, outstanding, -⟩ := doing
      rcases (outstanding.step h.sound h.known hs).2 with none | same
      · exact ⟨(core.loop.call n).outcomes, by simp [latest, task, calls, none]⟩
      · exact ⟨[], by simp [latest, task, calls, same]⟩
  | ended =>
      rw [task] at doing
      obtain ⟨n, error, calls, settled, -⟩ := doing
      have same := (settled.step h.sound hs).outcomes.trans settled.outcomes.symm
      exact ⟨[], by simp [latest, task, calls, same]⟩

/-- **Every step keeps the rounds coherent**, and adds outcomes at the end. -/
theorem Coherent.step (h : s.Coherent before xs) (hs : s.step a = some t) :
    (∃ before' xs', t.Coherent before' xs') ∧ ∃ more, t.results = s.results ++ more := by
  have unchanged : ∃ more, s.results = s.results ++ more := ⟨[], by simp⟩
  cases a with
  | core b =>
      rw [Connections.step] at hs
      split at hs
      · cases hs
      · obtain ⟨core, hb, rfl⟩ := Option.map_eq_some_iff.mp hs
        exact ⟨⟨before, xs, h.core hb⟩, h.grows hb⟩
  | accept n env now =>
      rw [Connections.step] at hs
      split at hs
      · next calling =>
          obtain ⟨core, hb, rfl⟩ := Option.map_eq_some_iff.mp hs
          have after := h.accept calling hb
          refine ⟨⟨before, xs, after⟩, [], ?_⟩
          rw [after.results, h.results]
          simp [latest, calling, (Core.outstanding_accept xs hb).2]
      · cases hs
  | resume =>
      rw [Connections.step] at hs
      split at hs
      · next n awaiting =>
          obtain ⟨out, head, hs⟩ := Option.bind_eq_some_iff.mp hs
          refine ⟨h.resume awaiting head hs, ?_⟩
          cases out with
          | socket client => cases hs; exact unchanged
          | threw error => cases hs; exact unchanged
          | returned => cases hs
          | data bytes => cases hs
      · cases hs
  | next =>
      obtain ⟨stream, next, rfl⟩ := Option.map_eq_some_iff.mp hs
      exact ⟨⟨before, xs, h.next next⟩, unchanged⟩
  | stop =>
      cases hs
      exact ⟨⟨before, xs, h.stop⟩, unchanged⟩

theorem coherent_run {as : List Act} (h : s.Coherent before xs)
    (run : StepSystem.run step s as = some t) :
    (∃ before' xs', t.Coherent before' xs') ∧ ∃ more, t.results = s.results ++ more := by
  refine StepSystem.invariant_run (P := fun u : Connections => (∃ before' xs', u.Coherent before' xs') ∧
    ∃ more, u.results = s.results ++ more) ?_ ⟨⟨before, xs, h⟩, [], by simp⟩ run
  rintro u a u' ⟨⟨before, xs, h⟩, more, results⟩ hs
  obtain ⟨coherent, more', results'⟩ := h.step hs
  refine ⟨coherent, more ++ more', ?_⟩
  rw [results', results, List.append_assoc]

/-- The call after the rounds that are over: nothing of it yet, or a socket the task has not
yielded, or an error. -/
theorem Coherent.latest_cases (h : s.Coherent before xs) :
    s.latest = [] ∨ (∃ n x, s.task = .awaiting n ∧ s.latest = [.socket x] ∧ x ∉ xs) ∨
      ∃ error, s.latest = [.threw error] := by
  have doing := h.doing
  cases task : s.task with
  | calling => exact Or.inl (by simp [latest, task])
  | awaiting n =>
      rw [task] at doing
      obtain ⟨calls, outstanding, -⟩ := doing
      rcases outstanding.outcomes with none | ⟨x, returned, new, -⟩ | ⟨error, threw⟩
      · exact Or.inl (by simp [latest, task, calls, none])
      · exact Or.inr (Or.inl ⟨n, x, rfl, by simp [latest, task, calls, returned], new⟩)
      · exact Or.inr (Or.inr ⟨error, by simp [latest, task, calls, threw]⟩)
  | ended =>
      rw [task] at doing
      obtain ⟨n, error, calls, settled, -⟩ := doing
      exact Or.inr (Or.inr ⟨error, by simp [latest, task, calls, settled.outcomes]⟩)

theorem Coherent.accepted (h : s.Coherent before xs) :
    s.accepted = xs ++ s.latest.filterMap Outcome.client := by
  have sockets : (xs.map Outcome.socket).filterMap Outcome.client = xs := by
    rw [List.filterMap_map]
    exact List.filterMap_some
  rw [Connections.accepted, h.results, List.filterMap_append, sockets]

/-- **The accepts return sockets until one throws**, and that one is the last. -/
theorem Coherent.shape (h : s.Coherent before xs) :
    s.results = s.accepted.map .socket ∨
      ∃ error, s.results = s.accepted.map .socket ++ [.threw error] := by
  rw [h.results, h.accepted]
  rcases h.latest_cases with none | ⟨n, x, -, returned, -⟩ | ⟨error, threw⟩
  · exact Or.inl (by simp [none])
  · exact Or.inl (by simp [returned, Outcome.client])
  · exact Or.inr ⟨error, by simp [threw, Outcome.client]⟩

theorem Coherent.accepted_nodup (h : s.Coherent before xs) : s.accepted.Nodup := by
  rw [h.accepted]
  rcases h.latest_cases with none | ⟨n, x, -, returned, new⟩ | ⟨error, threw⟩
  · simpa [none] using h.nodup
  · rw [returned]
    exact List.nodup_append'.mpr ⟨h.nodup, List.nodup_singleton _,
      List.disjoint_singleton.mpr new⟩
  · rw [threw]
    show (xs ++ []).Nodup
    rw [List.append_nil]
    exact h.nodup

/-- How a task ends. -/
theorem Coherent.of_ended (h : s.Coherent before xs) (ended : s.task = .ended) :
    ∃ error, s.accepted = xs ∧ s.results = s.accepted.map .socket ++ [.threw error] ∧
      (s.stream.terminal = some (.failed error) ∨
        s.stopped = true ∧ s.stream.terminal = some .finished) := by
  have doing := h.doing
  rw [ended] at doing
  obtain ⟨n, error, calls, settled, terminal⟩ := doing
  have latest : s.latest = [.threw error] := by
    simp [latest, ended, calls, settled.outcomes]
  have accepted : s.accepted = xs := by
    rw [h.accepted, latest]
    exact List.append_nil xs
  refine ⟨error, accepted, ?_, terminal⟩
  rw [accepted, h.results, latest]

/-- While a task runs, only its consumer can end the stream. -/
theorem Coherent.of_running (h : s.Coherent before xs) (running : s.task ≠ .ended) :
    s.stream.terminal = if s.stopped then some .finished else none := by
  have doing := h.doing
  revert doing running
  cases s.task with
  | calling => exact fun _ doing => doing.2
  | awaiting n => exact fun _ doing => doing.2.2
  | ended => exact fun running => absurd rfl running

/-- Sockets up to the first error. -/
theorem eq_of_sockets {ys zs : List Nat} {error : SocketError} {last more : List Outcome}
    (ends : last = [] ∨ ∃ error', last = [.threw error'])
    (eq : ys.map .socket ++ last = zs.map .socket ++ .threw error :: more) : ys = zs := by
  induction zs generalizing ys with
  | nil =>
      cases ys with
      | nil => rfl
      | cons y ys => cases eq
  | cons z zs ih =>
      cases ys with
      | nil =>
          rcases ends with rfl | ⟨error', rfl⟩
          · cases eq
          · cases eq
      | cons y ys =>
          simp only [List.map_cons, List.cons_append, List.cons.injEq, Outcome.socket.injEq] at eq
          rw [eq.1, ih eq.2]

/-- **Nothing is accepted after an error.** -/
theorem Coherent.accepted_after_error {as : List Act} {error : SocketError}
    (h : s.Coherent before xs) (failed : s.latest = [.threw error])
    (run : StepSystem.run Connections.step s as = some t) : t.accepted = s.accepted := by
  obtain ⟨⟨calls, ys, h'⟩, more, grows⟩ := coherent_run h run
  have accepted : s.accepted = xs := by
    rw [h.accepted, failed]
    exact List.append_nil xs
  rw [h.results, failed, ← accepted, List.append_assoc] at grows
  rcases h'.shape with all | ⟨error', last⟩
  · rw [all] at grows
    exact eq_of_sockets (Or.inl rfl) (by rw [List.append_nil]; exact grows)
  · rw [last] at grows
    exact eq_of_sockets (Or.inr ⟨error', rfl⟩) grows

end Connections

/-! ## Connections on offer -/

namespace World

variable {w w' : World} {opens : Option Fd}

/-- Objects are numbered one after the other. -/
def Numbered (w : World) : Prop := ∀ o, w.nextObj ≤ o → w.obj o = none

theorem Numbered.moves (h : w.Numbered) (moves : Moves w w' opens) : w'.Numbered := by
  intro o new
  have grows := Core.nextObj_moves moves
  have none := h o (Nat.le_trans grows new)
  cases moves with
  | opens loop _ opens =>
      cases opens with
      | same _ same => rw [same.obj, none]
      | opened role fd k free unused same =>
          have ne : o ≠ w.nextObj := by
            rw [same.nextObj] at new
            exact Nat.ne_of_gt new
          rw [same.obj]
          simp only [install, Function.update_of_ne ne, none]
      | flash k table obj nextObj closes => rw [obj, none]
  | closed o' hw =>
      unfold World.close at hw
      split at hw
      · next x own =>
          have ne : o ≠ o' := by
            rintro rfl
            rw [none] at own
            cases own
          split at hw
          · cases hw
          · cases hw
            simp only [Function.update_of_ne ne]
            exact none
      · cases hw
  | deinit o' hw =>
      by_cases eq : o = o'
      · subst eq
        exact Core.obj_deinit_self hw
      · rw [Core.obj_deinit hw eq, none]

end World

namespace Core

variable {c c' : Core} {a : Act} {n o : Nat} {x : Obj}

/-- An object keeps its number until it is destroyed. -/
theorem obj_kept (numbered : c.world.Numbered) (hs : c.step a = some c')
    (own : c.world.obj o = some x) (stays : a ≠ .deinit o) (loop : a ≠ .free) :
    ∃ y, c'.world.obj o = some y ∧ y.fd = x.fd := by
  rcases step_opens hs with opens | ⟨o', rfl, hw⟩ | ⟨o', rfl, -, hw⟩ | ⟨rfl, -⟩
  · exact ⟨x, obj_opens opens numbered own, rfl⟩
  · unfold World.close at hw
    split at hw
    · next y own' =>
        split at hw
        · cases hw
        · rw [Option.some.injEq] at hw
          rw [← hw]
          by_cases eq : o = o'
          · subst eq
            rw [own, Option.some.injEq] at own'
            subst own'
            exact ⟨_, Function.update_self _ _ _, rfl⟩
          · exact ⟨x, (Function.update_of_ne eq _ _).trans own, rfl⟩
    · cases hw
  · have ne : o ≠ o' := by
      rintro rfl
      exact stays rfl
    exact ⟨x, (obj_deinit hw ne).trans own, rfl⟩
  · exact absurd rfl loop

end Core

namespace Connections

variable {s t : Connections} {a : Act} {before xs : List Nat}

/-- The connections that wait on the listener of the server. -/
def waiting (s : Connections) : Nat :=
  (((s.core.world.obj s.server).bind fun x => s.core.world.table x.fd).map fun k =>
    (s.core.world.sock k).backlog.length).getD 0

/-- `accept(2)` fails for the call that the task waits for. -/
def fails (s : Connections) : Act → Bool
  | .core (.callback (.fails _)) => s.core.nextCall.any fun n => s.task = .awaiting n
  | _ => false

/-- The connections that come in on the listener before `accept(2)` fails for the task. -/
def arriving : Connections → List Act → Nat
  | _, [] => 0
  | s, a :: as =>
      if s.fails a then 0 else (s.step a).elim 0 fun t => (t.waiting - s.waiting) + t.arriving as

/-- The connections that wait on the listener, or come in on it before `accept(2)` fails for the
task. -/
def offered (s : Connections) (as : List Act) : Nat := s.waiting + s.arriving as

/-- An accept of the task waits for the descriptor of the server. -/
structure Attached (s : Connections) : Prop where
  numbered : s.core.world.Numbered
  waits : ∀ n, s.task = .awaiting n → s.core.loop.base.Queued (.call n) →
    ∃ x, s.core.world.obj s.server = some x ∧ (s.core.loop.base.ev (.call n)).evFd = x.fd

/-- Anything else in the process leaves the accept on the descriptor of the server. -/
theorem Attached.core {core : Core} {b : Core.Act} (h : s.Attached) (coherent : s.Coherent before xs)
    (stays : ¬ (b = .deinit s.server ∧ s.task ≠ .ended)) (hs : s.core.step b = some core) :
    Attached { s with core } := by
  refine ⟨h.numbered.moves (Core.step_world hs), fun n awaiting queued => ?_⟩
  have doing := coherent.doing
  rw [show s.task = .awaiting n from awaiting] at doing
  obtain ⟨-, outstanding, -⟩ := doing
  have signal : (s.core.loop.call n).kind.isSignal = false := by rw [outstanding.kind]; rfl
  have before := Core.queued_back coherent.sound hs outstanding.made queued signal
  obtain ⟨x, own, fd⟩ := h.waits n awaiting before
  have loop : b ≠ .free := by
    rintro rfl
    cases Core.step_cases hs with
    | free w alive torn hw =>
        have gone : (s.core.freed w).loop.base.Queued (.call n) := queued
        simp [Core.freed, Base.Queued] at gone
    | start _ drives => cases drives
  have kept : b ≠ .deinit s.server := by
    intro eq
    refine stays ⟨eq, ?_⟩
    rw [show s.task = .awaiting n from awaiting]
    simp
  obtain ⟨y, own', same⟩ := Core.obj_kept h.numbered hs own kept loop
  have shape := Core.shape_step coherent.sound hs (e := .call n) outstanding.made
  exact ⟨y, own', (Event.shape_eq shape).1.trans (fd.trans same.symm)⟩

/-- The task calls `accept()`. -/
theorem Attached.accept {core : Core} {n : Nat} {env : Base.AddEnv} {now : Timeval}
    (h : s.Attached) (coherent : s.Coherent before xs)
    (hs : s.core.step (.accept n s.server env now) = some core) :
    Attached { s with core, task := .awaiting n, calls := s.calls ++ [n] } := by
  refine ⟨h.numbered.moves (Core.step_world hs), fun m awaiting queued => ?_⟩
  obtain rfl : n = m := AcceptLoop.awaiting.inj awaiting
  rw [Core.step, Core.whenNew] at hs
  split at hs
  · next new =>
      obtain ⟨x, object, eq⟩ := Option.map_eq_some_iff.mp hs
      have own : s.core.world.obj s.server = some x := (Option.filter_eq_some_iff.mp object).1
      have same : core.world = s.core.world := by
        rw [← eq]
        rfl
      refine ⟨x, same.symm ▸ own, ?_⟩
      rw [Core.startIo_eq s.core _ x.fd none env now (coherent.sound.not_queued new.2) rfl] at eq
      dsimp only at eq
      split at eq
      · rw [← eq]
        have shape := Core.addedBase_shape s.core n
          { evFd := x.fd, evEvents := { read := true } } now none
        exact (Event.shape_eq shape).1
      · rw [← eq] at queued
        exact absurd queued (coherent.sound.not_queued new.2)
  · cases hs

/-- **The accept of the task stays on the descriptor of the server.** -/
theorem Attached.step (h : s.Attached) (coherent : s.Coherent before xs) (hs : s.step a = some t) :
    t.Attached := by
  cases a with
  | core b =>
      rw [Connections.step] at hs
      split at hs
      · cases hs
      · next stays =>
          obtain ⟨core, hb, rfl⟩ := Option.map_eq_some_iff.mp hs
          exact h.core coherent stays hb
  | accept n env now =>
      rw [Connections.step] at hs
      split at hs
      · obtain ⟨core, hb, rfl⟩ := Option.map_eq_some_iff.mp hs
        exact h.accept coherent hb
      · cases hs
  | resume =>
      rw [Connections.step] at hs
      split at hs
      · next n awaiting =>
          obtain ⟨out, head, hs⟩ := Option.bind_eq_some_iff.mp hs
          cases out with
          | socket client => cases hs; exact ⟨h.numbered, fun n awaiting => nomatch awaiting⟩
          | threw error => cases hs; exact ⟨h.numbered, fun n awaiting => nomatch awaiting⟩
          | returned => cases hs
          | data bytes => cases hs
      · cases hs
  | next =>
      obtain ⟨stream, next, rfl⟩ := Option.map_eq_some_iff.mp hs
      exact ⟨h.numbered, h.waits⟩
  | stop =>
      cases hs
      exact ⟨h.numbered, h.waits⟩

/-- The callback of the accept that the task waits for, when it returns a connection, takes it off
the listener of the server. -/
theorem Attached.taken {core : Core} {n : Nat} {r : Core.SysResult} {fx : Core.Effect} {x : Nat}
    (h : s.Attached) (awaiting : s.task = .awaiting n) (kind : (s.core.loop.call n).kind = .accept)
    (next : s.core.nextCall = some n) (hs : s.core.step (.callback r) = some core)
    (body : Core.callbackBody s.core.world s.core.loop.self (s.core.loop.call n)
      (s.core.loop.base.ev (.call n)).evFd (s.core.loop.base.ev (.call n)).evRes r = some fx)
    (returned : fx.outcome = .socket x) :
    waiting { s with core } + 1 = s.waiting := by
  obtain ⟨y, own, fd⟩ := h.waits n awaiting (Core.queued_of_nextCall next)
  obtain ⟨fx', body', rfl⟩ := Core.fired_of_nextCall hs next (by rw [kind]; rfl)
  cases body.symm.trans body'
  have opens := Core.opens_callbackBody body
  rcases Core.accept_body kind body with
    ⟨k, clientFd, client, rest, rfl, used, backlog, -, world⟩ | ⟨errno, -, threw, -⟩
  · have own' := Core.obj_opens opens h.numbered own
    have used' := opens.grows used
    rw [fd] at used used'
    have left : (fx.world.sock k).backlog = rest := by
      rw [world]
      show (Function.update s.core.world.sock k _ k).backlog = rest
      rw [Function.update_self]
    have after : waiting { s with core := s.core.fired n fx } = rest.length := by
      show (((fx.world.obj s.server).bind fun x => fx.world.table x.fd).map fun k =>
        (fx.world.sock k).backlog.length).getD 0 = rest.length
      rw [own', Option.bind_some, used', Option.map_some, left]
      rfl
    have now : s.waiting = rest.length + 1 := by
      rw [waiting, own, Option.bind_some, used, Option.map_some, backlog]
      rfl
    rw [after, now]
  · rw [threw] at returned
    cases returned

/-- **What one step accepts**: nothing, or a connection that waited on the listener. -/
theorem Coherent.offer (h : s.Coherent before xs) (attached : s.Attached) (hs : s.step a = some t) :
    t.accepted.length ≤ s.accepted.length ∨
      t.accepted.length = s.accepted.length + 1 ∧ t.waiting + 1 = s.waiting := by
  cases a with
  | core b =>
      rw [Connections.step] at hs
      split at hs
      · cases hs
      · obtain ⟨core, hb, rfl⟩ := Option.map_eq_some_iff.mp hs
        rw [(h.core hb).accepted, h.accepted, List.length_append, List.length_append]
        have doing := h.doing
        cases task : s.task with
        | calling => exact Or.inl (by simp [latest, task])
        | ended =>
            rw [task] at doing
            obtain ⟨n, error, calls, settled, -⟩ := doing
            have same := (settled.step h.sound hb).outcomes.trans settled.outcomes.symm
            exact Or.inl (by simp [latest, task, calls, same])
        | awaiting n =>
            rw [task] at doing
            obtain ⟨calls, outstanding, -⟩ := doing
            obtain ⟨kind, made⟩ := Life.kind_follows ((Core.step_follows h.sound hb).2 n)
              outstanding.made
            rcases Core.accept_step h.sound hb made (kind.trans outstanding.kind) with
              none | ⟨-, kind, same | ⟨r, fx, rfl, next, outs, body⟩⟩
            · exact Or.inl (by simp [latest, task, calls, none])
            · exact Or.inl (by simp [latest, task, calls, same])
            · rcases Core.accept_body kind body with ⟨_, _, _, _, -, -, -, returned, -⟩ |
                ⟨errno, -, threw, -⟩
              · have started := Core.started_of_queued h.sound (Core.queued_of_nextCall next)
                  (by rw [kind]; rfl)
                have none := List.length_eq_zero_iff.mp started.resumed
                refine Or.inr ⟨?_, attached.taken task kind next hb body returned⟩
                rw [returned] at outs
                simp [latest, task, calls, none, outs, Outcome.client]
              · rw [threw] at outs
                have client : ∀ error, Outcome.client (.threw error) = none := fun _ => rfl
                exact Or.inl (by simp [latest, task, calls, outs, client])
  | accept n env now =>
      rw [Connections.step] at hs
      split at hs
      · next calling =>
          obtain ⟨core, hb, rfl⟩ := Option.map_eq_some_iff.mp hs
          rw [(h.accept calling hb).accepted, h.accepted]
          simp [latest, calling, (Core.outstanding_accept xs hb).2]
      · cases hs
  | resume =>
      rw [Connections.step] at hs
      split at hs
      · obtain ⟨out, head, hs⟩ := Option.bind_eq_some_iff.mp hs
        cases out with
        | socket client => cases hs; exact Or.inl (Nat.le_refl _)
        | threw error => cases hs; exact Or.inl (Nat.le_refl _)
        | returned => cases hs
        | data bytes => cases hs
      · cases hs
  | next =>
      obtain ⟨stream, next, rfl⟩ := Option.map_eq_some_iff.mp hs
      exact Or.inl (Nat.le_refl _)
  | stop =>
      cases hs
      exact Or.inl (Nat.le_refl _)

/-- When `accept(2)` fails for the task. -/
theorem of_fails (fails : s.fails a = true) :
    ∃ n errno, a = .core (.callback (.fails errno)) ∧ s.core.nextCall = some n ∧
      s.task = .awaiting n := by
  unfold Connections.fails at fails
  split at fails
  · next errno =>
      obtain ⟨n, next, awaiting⟩ := (Option.any_eq_true _ _).mp fails
      exact ⟨n, errno, rfl, next, of_decide_eq_true awaiting⟩
  · cases fails

/-- That ends what the task accepts. -/
theorem Coherent.failed (h : s.Coherent before xs) (fails : s.fails a = true)
    (hs : s.step a = some t) :
    t.accepted.length ≤ s.accepted.length ∧ ∃ error, t.latest = [.threw error] := by
  obtain ⟨n, errno, rfl, next, awaiting⟩ := of_fails fails
  rw [Connections.step] at hs
  split at hs
  · cases hs
  · obtain ⟨core, hb, rfl⟩ := Option.map_eq_some_iff.mp hs
    have doing := h.doing
    rw [awaiting] at doing
    obtain ⟨calls, outstanding, -⟩ := doing
    obtain ⟨kind, made⟩ := Life.kind_follows ((Core.step_follows h.sound hb).2 n) outstanding.made
    obtain ⟨fx, body, eq⟩ := Core.fired_of_nextCall hb next (by rw [outstanding.kind]; rfl)
    have started := Core.started_of_queued h.sound (Core.queued_of_nextCall next)
      (by rw [outstanding.kind]; rfl)
    have none := List.length_eq_zero_iff.mp started.resumed
    have outs : (core.loop.call n).outcomes = [fx.outcome] := by
      rw [eq]
      simp [Core.fired, Core.withCall, Core.Effect.settle, none]
    rcases Core.accept_body outstanding.kind body with ⟨_, _, _, _, other, -⟩ | ⟨errno, -, threw, -⟩
    · cases other
    · rw [threw] at outs
      have latest : latest { s with core } = [.threw (.acceptFailed errno)] := by
        simp [Connections.latest, awaiting, calls, outs]
      have client : ([Outcome.threw (.acceptFailed errno)].filterMap Outcome.client) = [] := rfl
      refine ⟨?_, _, latest⟩
      rw [(h.core hb).accepted, h.accepted, latest, client, List.append_nil]
      simp

theorem arriving_cons {as : List Act} (fine : s.fails a = false) (hs : s.step a = some t) :
    s.arriving (a :: as) = (t.waiting - s.waiting) + t.arriving as := by
  rw [arriving, fine, hs]
  rfl

/-- **No more is accepted than is on offer.** -/
theorem Coherent.accepted_le {as : List Act} (h : s.Coherent before xs) (attached : s.Attached)
    (run : StepSystem.run Connections.step s as = some t) :
    t.accepted.length ≤ s.accepted.length + s.offered as := by
  induction as generalizing s before xs with
  | nil =>
      cases run
      exact Nat.le_add_right _ _
  | cons a as ih =>
      obtain ⟨u, hu, rest⟩ := StepSystem.run_cons_eq_some.mp run
      obtain ⟨⟨calls, ys, h'⟩, -⟩ := h.step hu
      by_cases fails : s.fails a = true
      · obtain ⟨same, error, failed⟩ := h.failed fails hu
        rw [h'.accepted_after_error failed rest]
        exact Nat.le_trans same (Nat.le_add_right _ _)
      · have later := ih h' (attached.step h hu) rest
        have now := h.offer attached hu
        rw [offered] at later
        rw [offered, arriving_cons (by simpa using fails) hu]
        omega

/-- What is on offer, part by part. -/
theorem arriving_append {as bs : List Act}
    (answered : StepSystem.Meets Connections.step (fun s a => s.fails a = false) s as)
    (run : StepSystem.run Connections.step s as = some t) :
    s.arriving (as ++ bs) = s.arriving as + t.arriving bs := by
  induction as generalizing s with
  | nil =>
      cases run
      exact (Nat.zero_add _).symm
  | cons a as ih =>
      obtain ⟨u, hu, rest⟩ := StepSystem.run_cons_eq_some.mp run
      have later := ih (answered.2 u hu) rest
      rw [List.cons_append, arriving_cons answered.1 hu, arriving_cons answered.1 hu, later,
        Nat.add_assoc]

/-- The listener of the server. -/
structure Listener (s : Connections) (k : KSock) : Prop where
  used : (s.core.world.obj s.server).bind (fun x => s.core.world.table x.fd) = some k
  listening : (s.core.world.sock k).conn = .listening
  old : k < s.core.world.nextSock

/-- Any number of connections may come in, and the task takes none of them if it is not called
back. -/
theorem Listener.incoming {k : KSock} (h : s.Listener k) (m : Nat) :
    ∃ t, StepSystem.run Connections.step s (List.replicate m (.core (.kernel (.incoming k)))) =
        some t ∧ t.accepted = s.accepted ∧
      s.arriving (List.replicate m (.core (.kernel (.incoming k)))) = m := by
  induction m generalizing s with
  | zero => exact ⟨s, rfl, rfl, rfl⟩
  | succ m ih =>
      obtain ⟨world, came, conn, queue, grows⟩ : ∃ w, s.core.world.kernel (.incoming k) = some w ∧
          (w.sock k).conn = .listening ∧
          (w.sock k).backlog.length = (s.core.world.sock k).backlog.length + 1 ∧
          k < w.nextSock := by
        have ne : k ≠ s.core.world.nextSock := Nat.ne_of_lt h.old
        refine ⟨_, if_pos h.listening, ?_, ?_, Nat.lt_succ_of_lt h.old⟩
        · simp [World.newSock, World.setSock, ne, h.listening]
        · simp [World.newSock, World.setSock, ne]
      have same := World.same_kernel came
      obtain ⟨u, hu⟩ : ∃ u, u = { s with core := { s.core with world } } := ⟨_, rfl⟩
      have hs : s.step (.core (.kernel (.incoming k))) = some u := by
        rw [hu, Connections.step, if_neg (fun no => by cases no.1), Core.step, came]
        rfl
      have used : (u.core.world.obj u.server).bind (fun x => u.core.world.table x.fd) = some k := by
        rw [hu]
        show (world.obj s.server).bind (fun x => world.table x.fd) = some k
        rw [same.obj, same.table]
        exact h.used
      obtain ⟨t, run, accepted, arriving⟩ := ih (s := u) ⟨used, by rw [hu]; exact conn,
        by rw [hu]; exact grows⟩
      refine ⟨t, StepSystem.run_cons_eq_some.mpr ⟨u, hs, run⟩, ?_, ?_⟩
      · rw [accepted, hu]
        rfl
      · have one : u.waiting = s.waiting + 1 := by
          rw [waiting, waiting, used, h.used, hu]
          exact queue
        rw [List.replicate_succ, arriving_cons rfl hs, arriving, one]
        omega

/-- After the consumer has gone at most one further connection is accepted, in every run in which
so many are on offer from then on. -/
def StopsWith (m : Nat) : Prop :=
  ∀ endian pipeFd as c server before after u t,
    StepSystem.run Core.step (.init endian pipeFd) as = some c →
    StepSystem.run Connections.step (c.connections server) (before ++ [.stop]) = some u →
    StepSystem.run Connections.step u after = some t → u.offered after = m →
      t.accepted.length ≤ u.accepted.length + 1

/-- Objects are numbered in every process. -/
theorem numbered_run {endian : Endian} {pipeFd : Fd} {as : List Core.Act} {c : Core}
    (run : StepSystem.run Core.step (.init endian pipeFd) as = some c) : c.world.Numbered := by
  refine StepSystem.invariant_run (P := fun c : Core => c.world.Numbered)
    (fun _ _ _ h hs => h.moves (Core.step_world hs)) ?_ run
  intro o new
  have ne : o ≠ 0 := Nat.ne_of_gt new
  simp [Core.init, World.openObj, World.install, World.newSock, World.init, ne]

/-- What holds of a stream from its creation on. -/
theorem attached_run {c : Core} {server : Nat} {bs : List Act} (sound : c.loop.Sound)
    (numbered : c.world.Numbered)
    (run : StepSystem.run Connections.step (c.connections server) bs = some t) :
    ∃ before xs, t.Coherent before xs ∧ t.Attached := by
  refine StepSystem.invariant_run (P := fun t : Connections =>
    ∃ before xs, t.Coherent before xs ∧ t.Attached) ?_ ?_ run
  · rintro s a t ⟨before, xs, h, attached⟩ hs
    obtain ⟨⟨before', xs', h'⟩, -⟩ := h.step hs
    exact ⟨before', xs', h', attached.step h hs⟩
  · exact ⟨[], [], coherent_new sound server, numbered, fun n awaiting => nomatch awaiting⟩

/-- A connection comes in and is accepted. -/
def round (n : Nat) (now : Timeval) (fd : Fd) : List Act :=
  [.accept n {} now, .core (.kernel (.incoming 1)),
    .core (.dispatch [(4, { epollin := true })] now []), .core (.callback (.fd fd)), .resume]

/-- Two connections after the consumer has gone. -/
def twoMore : List Act := round 0 ⟨1, 0⟩ 5 ++ round 1 ⟨2, 0⟩ 6 ++ [.accept 2 {} ⟨3, 0⟩]

/-- Both are accepted. -/
theorem accepts_twoMore :
    ∃ c u t, StepSystem.run Core.step (.init .little 3) [.listen (.ok 4)] = some c ∧
      StepSystem.run Connections.step (c.connections 1) [.stop] = some u ∧
      StepSystem.run Connections.step u twoMore = some t ∧ u.accepted = [] ∧
      t.accepted = [2, 3] ∧ u.offered twoMore = 2 ∧
      StepSystem.Meets Connections.step (fun s a => s.fails a = false) u twoMore ∧
      t.Listener 1 := by
  have facts : (StepSystem.run Core.step (.init .little 3) [.listen (.ok 4)]).bind
      (fun c => (StepSystem.run Connections.step (c.connections 1) [.stop]).bind fun u =>
        (StepSystem.run Connections.step u twoMore).map fun t =>
          decide (u.accepted = [] ∧ t.accepted = [2, 3] ∧ u.offered twoMore = 2 ∧
            StepSystem.Meets Connections.step (fun s a => s.fails a = false) u twoMore ∧
            (t.core.world.obj t.server).bind (fun x => t.core.world.table x.fd) = some 1 ∧
            (t.core.world.sock 1).conn = .listening ∧ 1 < t.core.world.nextSock)) =
      some true := by
    decide +kernel
  obtain ⟨c, start, facts⟩ := Option.bind_eq_some_iff.mp facts
  obtain ⟨u, stop, facts⟩ := Option.bind_eq_some_iff.mp facts
  obtain ⟨t, run, facts⟩ := Option.map_eq_some_iff.mp facts
  obtain ⟨nothing, two, offered, answered, used, listening, old⟩ := of_decide_eq_true facts
  exact ⟨c, u, t, start, stop, run, nothing, two, offered, answered, used, listening, old⟩

/-- **The task stops in time for want of connections only**: at most one is on offer. -/
theorem stopsWith_iff (m : Nat) : StopsWith m ↔ m ≤ 1 := by
  constructor
  · intro stops
    by_contra more
    obtain ⟨c, u, t, start, stop, run, nothing, two, offered, answered, listener⟩ := accepts_twoMore
    -- the others come in when two have been accepted
    obtain ⟨t', run', accepted, arriving⟩ := listener.incoming (m - 2)
    have rest := StepSystem.run_append_eq_some.mpr ⟨t, run, run'⟩
    have all : u.offered (twoMore ++ List.replicate (m - 2) (.core (.kernel (.incoming 1)))) = m := by
      rw [Connections.offered] at offered ⊢
      rw [arriving_append answered run, arriving]
      omega
    have le := stops .little 3 _ c 1 [] _ u t' start stop rest all
    rw [accepted, nothing, two] at le
    exact absurd le (by decide)
  · intro few endian pipeFd as c server before after u t start stop run offered
    have sound := (Core.run_follows (Core.sound_new 0 0 pipeFd) start).1
    obtain ⟨calls, xs, h, attached⟩ := attached_run sound (numbered_run start) stop
    have le := h.accepted_le attached run
    omega

/-- **The stream of connections.**  After any steps: the consumer has received the first of the
sockets that the task accepted, in the order of the accepts, and no socket was accepted twice;
until it goes away, nothing is lost.  Nothing is accepted after an accept that threw.  A stream
that has failed did so with the error of that accept, and the task has ended; a task that has ended
has failed its stream unless the consumer had gone.

But a consumer that goes away does not end the task: no more is accepted after it than is on offer
on the listener, and at most one connection exactly where no more than one is. -/
theorem connections_of_outcomes {endian : Endian} {pipeFd : Fd} {as : List Core.Act} {c : Core}
    {server : Nat} {bs : List Act} (start : StepSystem.run Core.step (.init endian pipeFd) as = some c)
    (run : StepSystem.run step (c.connections server) bs = some t) :
    t.stream.received <+: t.accepted ∧ t.accepted.Nodup ∧
    (t.stopped = false → (∀ n, t.task ≠ .awaiting n) →
      t.stream.content = t.accepted) ∧
    (t.results = t.accepted.map .socket ∨
      ∃ error, t.results = t.accepted.map .socket ++ [.threw error]) ∧
    (∀ error, t.stream.terminal = some (.failed error) →
      t.task = .ended ∧ t.results = t.accepted.map .socket ++ [.threw error]) ∧
    (∀ error, t.stream.caught = some error → t.stream.terminal = some (.failed error)) ∧
    (t.task = .ended → ∃ error, t.results = t.accepted.map .socket ++ [.threw error] ∧
      (t.stopped = false → t.stream.terminal = some (.failed error))) ∧
    (∀ before after u, bs = before ++ .stop :: after →
      StepSystem.run step (c.connections server) (before ++ [.stop]) = some u →
      t.accepted.length ≤ u.accepted.length + u.offered after) ∧
    ∀ m, StopsWith m ↔ m ≤ 1 := by
  have first := coherent_new (Core.run_follows (Core.sound_new 0 0 pipeFd) start).1 server
  obtain ⟨⟨calls, xs, h⟩, -⟩ := coherent_run first run
  refine ⟨?_, h.accepted_nodup, ?_, h.shape, ?_, h.carries.caught, ?_, ?_, stopsWith_iff⟩
  · rw [h.accepted]
    exact h.carries.received.trans (List.prefix_append _ _)
  · intro live between
    cases task : t.task with
    | calling =>
        have opened := h.of_running (by rw [task]; simp)
        rw [live] at opened
        rw [h.carries.whole (by rw [opened]; simp), h.accepted, latest, task]
        exact (List.append_nil xs).symm
    | awaiting n => exact absurd task (between n)
    | ended =>
        obtain ⟨error, accepted, -, failed | ⟨gone, -⟩⟩ := h.of_ended task
        · rw [h.carries.whole (by rw [failed]; simp), accepted]
        · rw [live] at gone
          cases gone
  · intro error failed
    have ended : t.task = .ended := by
      by_contra running
      rw [h.of_running running] at failed
      split at failed <;> cases failed
    obtain ⟨error', -, results, failed' | ⟨-, gone⟩⟩ := h.of_ended ended
    · rw [failed] at failed'
      cases failed'
      exact ⟨ended, results⟩
    · rw [failed] at gone
      cases gone
  · intro ended
    obtain ⟨error, -, results, failed | ⟨gone, -⟩⟩ := h.of_ended ended
    · exact ⟨error, results, fun _ => failed⟩
    · refine ⟨error, results, fun live => ?_⟩
      rw [live] at gone
      cases gone
  · rintro before after u rfl mid
    have rest : StepSystem.run step u after = some t := by
      obtain ⟨u', mid', rest⟩ := StepSystem.run_append_eq_some.mp
        (show StepSystem.run step (c.connections server) ((before ++ [.stop]) ++ after) = some t by
          simpa using run)
      cases mid.symm.trans mid'
      exact rest
    have sound := (Core.run_follows (Core.sound_new 0 0 pipeFd) start).1
    obtain ⟨calls', xs', h', attached⟩ := attached_run sound (numbered_run start) mid
    exact h'.accepted_le attached rest

/-- One connection for the consumer, one after it has gone, and then `accept(2)` fails with
`EMFILE`. -/
def oneMore : List Act :=
  round 0 ⟨1, 0⟩ 5 ++ .next :: .stop :: (round 1 ⟨2, 0⟩ 6 ++ [.accept 2 {} ⟨3, 0⟩,
    .core (.kernel (.incoming 1)), .core (.dispatch [(4, { epollin := true })] ⟨3, 0⟩ []),
    .core (.callback (.fails 24)), .resume])

theorem connections_of_outcomes_oneMore :
    ∃ c t, StepSystem.run Core.step (.init .little 3) [.listen (.ok 4)] = some c ∧
      StepSystem.run step (c.connections 1) oneMore = some t ∧ t.accepted = [2, 3] ∧
      t.stream.received = [2] ∧ t.stream.received <+: t.accepted ∧ t.task = .ended ∧
      ∃ error, t.results = [.socket 2, .socket 3, .threw error] := by
  have facts : (StepSystem.run Core.step (.init .little 3) [.listen (.ok 4)]).bind
      (fun c => (StepSystem.run step (c.connections 1) oneMore).map fun t =>
        decide (t.accepted = [2, 3] ∧ t.stream.received = [2] ∧ t.task = .ended)) =
      some true := by
    decide +kernel
  obtain ⟨c, start, facts⟩ := Option.bind_eq_some_iff.mp facts
  obtain ⟨t, run, facts⟩ := Option.map_eq_some_iff.mp facts
  obtain ⟨accepted, received, ended⟩ := of_decide_eq_true facts
  obtain ⟨order, -, -, -, -, -, ends, -, -⟩ := connections_of_outcomes start run
  obtain ⟨error, results, -⟩ := ends ended
  rw [accepted] at results
  exact ⟨c, t, start, run, accepted, received, order, ended, error, results⟩

/-- **The consumer has gone, and the task goes on**: it accepts two connections that nobody will
ever see, and calls `accept()` for a third. -/
theorem connections_swallowed :
    ∃ c u t, StepSystem.run Core.step (.init .little 3) [.listen (.ok 4)] = some c ∧
      StepSystem.run step (c.connections 1) [.stop] = some u ∧ u.accepted = [] ∧
      StepSystem.run step u twoMore = some t ∧
      t.accepted = [2, 3] ∧ t.stream.content = [] ∧ t.task = .awaiting 2 := by
  have facts : (StepSystem.run Core.step (.init .little 3) [.listen (.ok 4)]).bind
      (fun c => (StepSystem.run step (c.connections 1) [.stop]).bind fun u =>
        (StepSystem.run step u twoMore).map fun t =>
          decide (u.accepted = [] ∧ t.accepted = [2, 3] ∧ t.stream.content = [] ∧
            t.task = .awaiting 2)) = some true := by
    decide +kernel
  obtain ⟨c, start, facts⟩ := Option.bind_eq_some_iff.mp facts
  obtain ⟨u, stop, facts⟩ := Option.bind_eq_some_iff.mp facts
  obtain ⟨t, run, facts⟩ := Option.map_eq_some_iff.mp facts
  obtain ⟨nothing, two, unseen, waits⟩ := of_decide_eq_true facts
  exact ⟨c, u, t, start, stop, nothing, run, two, unseen, waits⟩

end Connections

end SwiftEvent
