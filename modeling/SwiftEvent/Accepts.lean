import SwiftEvent.Bound
import SwiftEvent.Library.Tickets

/-!
# Connections and the accepts that return them

Any number of `accept()` calls may wait on one listening descriptor, from tasks
and from the loops behind `connections`.  Readiness is reported to every one of
them, and each callback takes one connection off the backlog.

* Every connection that was ever queued is on exactly one backlog still, or was
  returned by exactly one call, or was aborted by its peer
  (`one_connection_one_accept`).
* As long as each callback finds a connection, no call throws
  `acceptFailed(EAGAIN)`.  One that finds the backlog empty does not wait on: its
  event is gone, and it throws what `accept(2)` returned
  (`two_accepts_one_connection`), although the errors that are only transient are
  documented as filtered.
-/

namespace SwiftEvent

/-- The connection that joins a backlog when an attempt ends. -/
def Verdict.joins (verdict : Verdict) (x : KSock) : Option KSock :=
  match verdict with
  | .established (some _) => some x
  | _ => none

namespace World

variable {w w' w'' : World} {joined left : Option KSock} {k : KSock}

/-- The sockets that do not exist yet are no listeners. -/
def Fresh (w : World) : Prop :=
  ∀ k, w.nextSock ≤ k → (w.sock k).backlog = [] ∧ (w.sock k).conn ≠ .listening

/-- What a step may do to the backlogs: nothing, or a new connection joins one, or a connection
leaves one. -/
inductive Backlogs (w w' : World) : Option KSock → Option KSock → Prop
  | same (grows : w.nextSock ≤ w'.nextSock)
      (backlog : ∀ j, (w'.sock j).backlog = (w.sock j).backlog) : Backlogs w w' none none
  | joins (k x : KSock) (new : w.nextSock ≤ x) (made : x < w'.nextSock)
      (backlog : ∀ j, (w'.sock j).backlog =
        if j = k then (w.sock k).backlog ++ [x] else (w.sock j).backlog) :
      Backlogs w w' (some x) none
  | leaves (k x : KSock) (before after : List KSock) (grows : w.nextSock ≤ w'.nextSock)
      (was : (w.sock k).backlog = before ++ x :: after)
      (backlog : ∀ j, (w'.sock j).backlog =
        if j = k then before ++ after else (w.sock j).backlog) :
      Backlogs w w' none (some x)

/-- The step keeps the books of the sockets that do not exist yet, and does this to the
backlogs. -/
def Serves (w w' : World) (joined left : Option KSock) : Prop :=
  w'.Fresh ∧ Backlogs w w' joined left

theorem Serves.of_sock (fresh : w.Fresh) (sock : w'.sock = w.sock)
    (nextSock : w'.nextSock = w.nextSock) : Serves w w' none none := by
  refine ⟨?_, .same (Nat.le_of_eq nextSock.symm) ?_⟩
  · intro k le
    rw [sock]
    apply fresh
    rwa [nextSock] at le
  · intro j
    rw [sock]

theorem Serves.trans_left (h : Serves w w' none none) (h' : Serves w' w'' joined left) :
    Serves w w'' joined left := by
  obtain ⟨-, first⟩ := h
  obtain ⟨fresh, second⟩ := h'
  refine ⟨fresh, ?_⟩
  cases first with
  | same grows same =>
      cases second with
      | same grows' backlog =>
          apply Backlogs.same (Nat.le_trans grows grows')
          intro j
          rw [backlog, same]
      | joins k x new made backlog =>
          apply Backlogs.joins k x (Nat.le_trans grows new) made
          intro j
          rw [backlog, same, same]
      | leaves k x before after grows' was backlog =>
          refine .leaves k x before after (Nat.le_trans grows grows') ((same k).symm.trans was) ?_
          intro j
          rw [backlog, same]

theorem Serves.trans_right (h : Serves w w' joined left) (h' : Serves w' w'' none none) :
    Serves w w'' joined left := by
  obtain ⟨-, first⟩ := h
  obtain ⟨fresh, second⟩ := h'
  refine ⟨fresh, ?_⟩
  cases second with
  | same grows' same =>
      cases first with
      | same grows backlog =>
          apply Backlogs.same (Nat.le_trans grows grows')
          intro j
          rw [same, backlog]
      | joins k x new made backlog =>
          apply Backlogs.joins k x new (Nat.lt_of_lt_of_le made grows')
          intro j
          rw [same, backlog]
      | leaves k x before after grows was backlog =>
          refine .leaves k x before after (Nat.le_trans grows grows') was ?_
          intro j
          rw [same, backlog]

theorem Fresh.lt_of_listening (fresh : w.Fresh) (listening : (w.sock k).conn = .listening) :
    k < w.nextSock := by
  by_contra le
  exact (fresh k (Nat.le_of_not_lt le)).2 listening

theorem Fresh.setSock {s : Sock} (fresh : w.Fresh)
    (keeps : w.nextSock ≤ k → s.backlog = [] ∧ s.conn ≠ .listening) : (w.setSock k s).Fresh := by
  intro j le
  by_cases eq : j = k
  · subst eq
    simpa [World.setSock] using keeps le
  · simpa [World.setSock, eq] using fresh j le

theorem serves_setSock {s : Sock} (fresh : w.Fresh) (backlog : s.backlog = (w.sock k).backlog)
    (conn : s.conn = .listening → (w.sock k).conn = .listening) :
    Serves w (w.setSock k s) none none := by
  refine ⟨fresh.setSock ?_, .same (Nat.le_refl _) ?_⟩
  · intro le
    obtain ⟨empty, notListening⟩ := fresh k le
    exact ⟨backlog.trans empty, fun listening => notListening (conn listening)⟩
  · intro j
    by_cases eq : j = k
    · subst eq
      simpa [World.setSock] using backlog
    · simp [World.setSock, eq]

theorem serves_newSock {s : Sock} (fresh : w.Fresh) (empty : s.backlog = []) :
    Serves w (w.newSock s) none none := by
  refine ⟨?_, .same (Nat.le_succ _) ?_⟩
  · intro j le
    have le : w.nextSock + 1 ≤ j := le
    have ne : j ≠ w.nextSock := (Nat.ne_of_lt le).symm
    simpa [World.newSock, ne] using fresh j (Nat.le_of_lt le)
  · intro j
    by_cases eq : j = w.nextSock
    · subst eq
      simp [World.newSock, empty, (fresh _ (Nat.le_refl _)).1]
    · simp [World.newSock, eq]

/-- A new connection is put on a backlog. -/
theorem serves_join {s : Sock} (fresh : w.Fresh) (listening : (w.sock k).conn = .listening)
    (empty : s.backlog = []) :
    Serves w ((w.setSock k
      { w.sock k with backlog := (w.sock k).backlog ++ [w.nextSock] }).newSock s)
      (some w.nextSock) none := by
  have lt := fresh.lt_of_listening listening
  refine ⟨?_, .joins k w.nextSock (Nat.le_refl _) (Nat.lt_succ_self _) ?_⟩
  · refine (serves_newSock (fresh.setSock ?_) empty).1
    intro le
    exact absurd lt (Nat.not_lt.mpr le)
  · intro j
    by_cases eq : j = w.nextSock
    · subst eq
      have ne : w.nextSock ≠ k := (Nat.ne_of_lt lt).symm
      simp [World.newSock, World.setSock, empty, ne, (fresh _ (Nat.le_refl _)).1]
    · by_cases eq' : j = k
      · subst eq'
        simp [World.newSock, World.setSock, eq]
      · simp [World.newSock, World.setSock, eq, eq']

/-- A connection is taken off a backlog. -/
theorem serves_leave {x : KSock} {before after : List KSock} (fresh : w.Fresh)
    (listening : (w.sock k).conn = .listening)
    (was : (w.sock k).backlog = before ++ x :: after) :
    Serves w (w.setSock k { w.sock k with backlog := before ++ after }) none (some x) := by
  have lt := fresh.lt_of_listening listening
  refine ⟨fresh.setSock ?_, .leaves k x before after (Nat.le_refl _) was ?_⟩
  · intro le
    exact absurd lt (Nat.not_lt.mpr le)
  · intro j
    by_cases eq : j = k
    · subst eq
      simp [World.setSock]
    · simp [World.setSock, eq]

theorem serves_openObj {role : Role} {loop : Nat} {fd : Fd} {s : Sock} (fresh : w.Fresh)
    (empty : s.backlog = []) : Serves w (w.openObj role loop fd s) none none :=
  (serves_newSock fresh empty).trans_right (.of_sock (serves_newSock fresh empty).1 rfl rfl)

theorem serves_listen {loop : Nat} {r : ListenResult} (fresh : w.Fresh)
    (h : w.listen loop r = some w') : Serves w w' none none := by
  have created : Serves w (w.newSock {}) none none := serves_newSock fresh rfl
  cases r with
  | socketFails errno =>
      cases h
      exact .of_sock fresh rfl rfl
  | bindFails fd errno =>
      simp only [listen] at h
      split at h
      · cases h
        exact created.trans_right (.of_sock created.1 rfl rfl)
      · cases h
  | listenFails fd errno =>
      simp only [listen] at h
      split at h
      · cases h
        exact created.trans_right (.of_sock created.1 rfl rfl)
      · cases h
  | ok fd =>
      simp only [listen] at h
      split at h
      · cases h
        exact serves_openObj fresh rfl
      · cases h

theorem serves_close {o : Nat} (fresh : w.Fresh) (h : w.close o = some w') :
    Serves w w' none none := by
  unfold close at h
  split at h
  · split at h
    · cases h
    · cases h
      exact .of_sock fresh rfl rfl
  · cases h

theorem serves_deinit {o : Nat} (fresh : w.Fresh) (h : w.deinit o = some w') :
    Serves w w' none none := by
  unfold deinit at h
  split at h
  · cases h
    exact .of_sock fresh rfl rfl
  · cases h

theorem serves_conclude {verdict : Verdict} (fresh : w.Fresh)
    (h : w.conclude k verdict = some w') :
    Serves w w' (verdict.joins w.nextSock) none := by
  obtain ⟨-, ⟨errno, rfl, rfl⟩ | ⟨rfl, rfl⟩ | ⟨listener, rfl, apart, listening, rfl⟩⟩ :=
    conclude_cases h
  · exact serves_setSock fresh rfl (fun h => nomatch h)
  · exact serves_setSock fresh rfl (fun h => nomatch h)
  · have connected : Serves w (w.setSock k
        { w.sock k with conn := .established, peer := some w.nextSock }) none none :=
      serves_setSock fresh rfl (fun h => nomatch h)
    have same : (w.setSock k
        { w.sock k with conn := .established, peer := some w.nextSock }).sock listener =
        w.sock listener := by
      simp [World.setSock, apart]
    have joined := serves_join (k := listener) (s := { conn := .established, peer := some k })
      connected.1 (by rw [same]; exact listening) rfl
    rw [same] at joined
    exact connected.trans_left joined

end World

/-- What can become of a connection that a listener's backlog holds: it was queued, an accept
returned it as an object, or its peer aborted it. -/
inductive Traffic
  | queued (x : KSock)
  | returned (n o : Nat) (x : KSock)
  | aborted (x : KSock)
deriving DecidableEq, Repr

namespace Traffic

def joined : Traffic → Option KSock
  | .queued x => some x
  | _ => none

def left : Traffic → Option KSock
  | .returned _ _ x | .aborted x => some x
  | .queued _ => none

end Traffic

namespace Core

variable {c c' : Core} {a : Act} {n : Nat}

/-- The socket on which the callback of an accept calls `accept(2)`. -/
def listener (c : Core) (n : Nat) : Option KSock :=
  if (c.loop.call n).kind = .accept then c.world.table (c.loop.base.ev (.call n)).evFd else none

/-- What the step does to connections. -/
def traffic (c : Core) : Act → Option Traffic
  | .connect _ _ (.ok _ listener) _ _ _ =>
      ((Verdict.established listener).joins (c.world.nextSock + 1)).map .queued
  | .kernel (.conclude _ verdict) => (verdict.joins c.world.nextSock).map .queued
  | .kernel (.incoming _) => some (.queued c.world.nextSock)
  | .kernel (.abort k i) => ((c.world.sock k).backlog[i]?).map .aborted
  | .callback (.fd _) =>
      c.nextCall.bind fun n => (c.listener n).bind fun k =>
        (c.world.sock k).backlog.head?.map (.returned n c.world.nextObj)
  | _ => none

theorem traffic_of_drives (h : a.drives = true) : c.traffic a = none := by
  cases a with
  | connect n address r timeout env now =>
      cases r with
      | inProgress fd => rfl
      | _ => cases h
  | kernel => cases h
  | callback => cases h
  | _ => rfl

/-- A callback that is not an accept's moves no connection. -/
theorem traffic_callback {r : SysResult}
    (other : ∀ n, c.nextCall = some n → (c.loop.call n).kind ≠ .accept) :
    c.traffic (.callback r) = none := by
  cases r with
  | fd fd =>
      simp only [traffic]
      cases next : c.nextCall with
      | none => rfl
      | some n =>
          have none : c.listener n = none := if_neg (other n next)
          rw [Option.bind_some, none]
          rfl
  | _ => rfl

theorem serves_send {w : World} (fresh : w.Fresh) (k : KSock) (bytes : List UInt8) :
    World.Serves w (send w k bytes) none none := by
  unfold send
  split
  · exact World.serves_setSock fresh rfl (fun h => h)
  · exact .of_sock fresh rfl rfl

/-- The callback of a call, with what it does to connections. -/
theorem serves_fire {r : SysResult} {rest : List EvId} {fx : Effect} (fresh : c.world.Fresh)
    (quiet : c.loop.base.repeating = none) (queue : c.loop.base.activequeue = .call n :: rest)
    (body : callbackBody c.world c.loop.self (c.loop.call n) (c.loop.base.ev (.call n)).evFd
      (c.loop.base.ev (.call n)).evRes r = some fx) :
    World.Serves c.world fx.world ((c.traffic (.callback r)).bind Traffic.joined)
      ((c.traffic (.callback r)).bind Traffic.left) := by
  have next := nextCall_of_queue quiet queue
  have other : (c.loop.call n).kind ≠ .accept → c.traffic (.callback r) = none := by
    intro notAccept
    apply traffic_callback
    intro m eq
    cases next.symm.trans eq
    exact notAccept
  have same : World.Serves c.world c.world none none := .of_sock fresh rfl rfl
  cases callbackBody_cases body with
  | timedOut r io notAccept due =>
      rw [other notAccept]
      exact same
  | connected r address o kind notDue obj =>
      rw [other (by rw [kind]; simp)]
      exact same
  | timer r kind =>
      rw [other (by rcases kind with kind | kind <;> rw [kind] <;> simp)]
      exact same
  | bytes k m kind notDue used some_ fits there =>
      exact World.serves_setSock fresh rfl (fun h => h)
  | wrote k m data kind notDue used part established => exact serves_send fresh k _
  | accepts k clientFd client rest kind used backlog free listening =>
      have returned : c.traffic (.callback (.fd clientFd)) =
          some (.returned n c.world.nextObj client) := by
        simp [traffic, next, listener, kind, used, backlog]
      rw [returned]
      have head : (c.world.sock k).backlog = [] ++ client :: rest := backlog
      have leave := World.serves_leave fresh listening head
      exact leave.trans_right (.of_sock leave.1 rfl rfl)
  | eof => exact same
  | readFails => exact same
  | writeFails => exact same
  | acceptFails => exact same

theorem serves_kernel {act : KernelAct} {w : World} (fresh : c.world.Fresh)
    (h : c.world.kernel act = some w) :
    World.Serves c.world w ((c.traffic (.kernel act)).bind Traffic.joined)
      ((c.traffic (.kernel act)).bind Traffic.left) := by
  cases act with
  | conclude k verdict =>
      have serves := World.serves_conclude fresh h
      cases verdict with
      | failed errno => exact serves
      | established listener => cases listener <;> exact serves
  | arrive k bytes =>
      simp only [World.kernel] at h
      split at h
      · cases h
        exact World.serves_setSock fresh rfl (fun h => h)
      · cases h
  | hangup k =>
      simp only [World.kernel] at h
      split at h
      · cases h
        exact World.serves_setSock fresh rfl (fun h => h)
      · cases h
  | incoming k =>
      simp only [World.kernel] at h
      split at h
      · next listening =>
          cases h
          exact World.serves_join fresh listening rfl
      · cases h
  | abort k i =>
      simp only [World.kernel] at h
      split at h
      · next listening =>
          cases h
          simp only [traffic]
          by_cases lt : i < (c.world.sock k).backlog.length
          · have split : (c.world.sock k).backlog = (c.world.sock k).backlog.take i ++
                (c.world.sock k).backlog[i] :: (c.world.sock k).backlog.drop (i + 1) := by
              rw [← List.drop_eq_getElem_cons lt, List.take_append_drop]
            rw [List.getElem?_eq_getElem lt, List.eraseIdx_eq_take_drop_succ]
            exact World.serves_leave fresh listening split
          · rw [List.getElem?_eq_none (Nat.le_of_not_lt lt),
              List.eraseIdx_of_length_le (Nat.le_of_not_lt lt)]
            exact World.serves_setSock fresh rfl (fun h => h)
      · cases h

theorem serves_answer {n : Nat} {address : SocketAddress} {r : ConnectResult} {call : Call}
    {w : World} {timeout : Option Duration} {env : Base.AddEnv} {now : Timeval}
    (fresh : c.world.Fresh) (ans : c.Answers address r call w) :
    World.Serves c.world w
      ((c.traffic (.connect n address r timeout env now)).bind Traffic.joined)
      ((c.traffic (.connect n address r timeout env now)).bind Traffic.left) := by
  cases ans with
  | socketFails errno => exact .of_sock fresh rfl rfl
  | ok fd listener w free inet hw =>
      have opened : World.Serves c.world (c.world.openObj .socket c.loop.self fd
          { family := .inet, conn := .connecting }) none none :=
        World.serves_openObj fresh rfl
      have serves := opened.trans_left (World.serves_conclude opened.1 hw)
      cases listener <;> exact serves
  | fails fd errno w free ne hw =>
      have opened : World.Serves c.world (c.world.openObj .socket c.loop.self fd
          { family := .inet, conn := .connecting }) none none :=
        World.serves_openObj fresh rfl
      exact opened.trans_left (World.serves_conclude opened.1 hw)

/-- **What a step does to the backlogs** is what its traffic says. -/
theorem serves_step (fresh : c.world.Fresh) (hs : c.step a = some c') :
    World.Serves c.world c'.world ((c.traffic a).bind Traffic.joined)
      ((c.traffic a).bind Traffic.left) := by
  have same : World.Serves c.world c.world none none := .of_sock fresh rfl rfl
  have signal : ∀ {r m rest}, c.loop.base.repeating = none →
      c.loop.base.activequeue = .call m :: rest → (c.loop.call m).kind.isSignal = true →
      c.traffic (.callback r) = none := by
    intro r m rest quiet queue sig
    apply traffic_callback
    intro n next
    cases (nextCall_of_queue quiet queue).symm.trans next
    intro accept
    rw [accept] at sig
    cases sig
  cases step_cases hs with
  | listen r w hw => exact World.serves_listen fresh hw
  | kernel act w hw => exact serves_kernel fresh hw
  | answer n address r timeout env now call w alive new ans => exact serves_answer fresh ans
  | start _ drives n kind o fd events w timeout env now alive new starts accept opens target =>
      rw [traffic_of_drives drives]
      cases starts with
      | connect address fd free inet => exact World.serves_openObj fresh rfl
      | _ => exact same
  | schedule n sleeps duration nomem env now alive new =>
      rw [world_schedule]
      exact same
  | signalStream args c' alive hc =>
      rw [world_signalStream hc]
      exact same
  | tearDown r alive opened =>
      rw [world_tearDown]
      exact same
  | close o w hw => exact World.serves_close fresh hw
  | deinit o w may hw => exact World.serves_deinit fresh hw
  | free w alive torn hw => exact World.serves_deinit fresh hw
  | pipe r rest alive quiet queue =>
      rw [traffic_callback (fun n next => by simp [nextCall, quiet, queue] at next)]
      exact same
  | skip r m rest alive quiet queue sig =>
      rw [signal quiet queue sig]
      exact same
  | yield r m left rest alive quiet queue sig =>
      rw [signal quiet queue sig]
      exact same
  | again r m left alive rep =>
      rw [traffic_callback (fun n next => by simp [nextCall, rep] at next)]
      exact same
  | fire r n rest fx alive quiet queue signal body => exact serves_fire fresh quiet queue body
  | _ => exact same

end Core

/-! ## The books -/

/-- The connections that were queued. -/
def queuedOf (h : List Traffic) : List KSock := h.filterMap Traffic.joined

/-- The connections that were returned or aborted. -/
def leftOf (h : List Traffic) : List KSock := h.filterMap Traffic.left

/-- The backlogs hold what was queued and has not left. -/
structure World.Tallied (w : World) (h : List Traffic) : Prop where
  fresh : w.Fresh
  old : ∀ x ∈ queuedOf h, x < w.nextSock
  booked : Tickets.Booked (fun k => (w.sock k).backlog) (queuedOf h) (leftOf h)

theorem queuedOf_append (h : List Traffic) (e : Option Traffic) :
    queuedOf (h ++ e.toList) = queuedOf h ++ (e.bind Traffic.joined).toList := by
  rw [queuedOf, List.filterMap_append, queuedOf]
  cases e with
  | none => rfl
  | some e => cases e <;> rfl

theorem leftOf_append (h : List Traffic) (e : Option Traffic) :
    leftOf (h ++ e.toList) = leftOf h ++ (e.bind Traffic.left).toList := by
  rw [leftOf, List.filterMap_append, leftOf]
  cases e with
  | none => rfl
  | some e => cases e <;> rfl

/-- **The books are kept**, whatever a step does to connections. -/
theorem World.Tallied.step {w w' : World} {h : List Traffic} {e : Option Traffic}
    (tallied : w.Tallied h)
    (serves : World.Serves w w' (e.bind Traffic.joined) (e.bind Traffic.left)) :
    w'.Tallied (h ++ e.toList) := by
  obtain ⟨fresh, backlogs⟩ := serves
  have queued := queuedOf_append h e
  have left := leftOf_append h e
  revert backlogs queued left
  generalize e.bind Traffic.joined = joins
  generalize e.bind Traffic.left = leaves
  intro backlogs queued left
  refine ⟨fresh, ?_, ?_⟩
  · intro x mem
    rw [queued] at mem
    cases backlogs with
    | same grows backlog =>
        rw [Option.toList_none, List.append_nil] at mem
        exact Nat.lt_of_lt_of_le (tallied.old x mem) grows
    | joins k y new made backlog =>
        rcases List.mem_append.mp mem with mem | mem
        · exact Nat.lt_trans (Nat.lt_of_lt_of_le (tallied.old x mem) new) made
        · rw [List.mem_singleton.mp mem]
          exact made
    | leaves k y before after grows was backlog =>
        rw [Option.toList_none, List.append_nil] at mem
        exact Nat.lt_of_lt_of_le (tallied.old x mem) grows
  · rw [queued, left]
    cases backlogs with
    | same grows backlog =>
        have same : (fun j => (w'.sock j).backlog) = fun j => (w.sock j).backlog :=
          funext backlog
        rw [same, Option.toList_none, List.append_nil, List.append_nil]
        exact tallied.booked
    | joins k x new made backlog =>
        have joined : (fun j => (w'.sock j).backlog) =
            Function.update (fun j => (w.sock j).backlog) k ((w.sock k).backlog ++ [x]) := by
          funext j
          rw [backlog, Function.update_apply]
        rw [joined, Option.toList_none, List.append_nil]
        apply tallied.booked.join
        intro mem
        exact Nat.not_lt.mpr new (tallied.old x mem)
    | leaves k x before after grows was backlog =>
        have left : (fun j => (w'.sock j).backlog) =
            Function.update (fun j => (w.sock j).backlog) k (before ++ after) := by
          funext j
          rw [backlog, Function.update_apply]
        rw [left, Option.toList_none, List.append_nil]
        exact tallied.booked.leave was

/-! ## The calls -/

namespace Core

variable {c c' : Core} {a : Act} {n o : Nat} {x : KSock} {h : List Traffic}

/-- Every accept that is called back finds a connection. -/
def Served (c : Core) : Act → Prop
  | .callback _ => ∀ n ∈ c.nextCall, ∀ k ∈ c.listener n,
      (c.world.sock k).conn = .listening → (c.world.sock k).backlog ≠ []
  | _ => True

instance (c : Core) : ∀ a, Decidable (c.Served a)
  | .callback _ => inferInstanceAs (Decidable (∀ n ∈ c.nextCall, ∀ k ∈ c.listener n, _ → _))
  | .listen .. | .connect .. | .read .. | .write .. | .accept .. | .schedule .. | .signalStream ..
  | .tearDown .. | .close .. | .deinit .. | .free | .dispatch .. | .breakSignal | .raise ..
  | .kernel .. => isTrue trivial

/-- The accept `n` returned the connection `x`, as the object `o`. -/
structure Returned (c : Core) (n o : Nat) (x : KSock) : Prop where
  made : n ∈ c.loop.made
  kind : (c.loop.call n).kind = .accept
  outcomes : (c.loop.call n).outcomes = [.socket o]
  known : o < c.world.nextObj
  sock : ∀ y, c.world.obj o = some y → y.sock = x

/-- The backlogs, and what has become of the accepts. -/
structure Accounted (c : Core) (h : List Traffic) : Prop where
  sound : c.loop.Sound
  tallied : c.world.Tallied h
  returned : ∀ n o x, .returned n o x ∈ h → c.Returned n o x
  accepts : ∀ n ∈ c.loop.made, (c.loop.call n).kind = .accept →
    ∀ out ∈ (c.loop.call n).outcomes, (∃ o x, out = .socket o ∧ .returned n o x ∈ h) ∨
      ∃ errno, out = .threw (.acceptFailed errno) ∧ errno ≠ eagain

/-- The callback that comes next is that of the call. -/
theorem fired_of_nextCall {r : SysResult} (hs : c.step (.callback r) = some c')
    (next : c.nextCall = some n) (signal : (c.loop.call n).kind.isSignal = false) :
    ∃ fx, callbackBody c.world c.loop.self (c.loop.call n) (c.loop.base.ev (.call n)).evFd
      (c.loop.base.ev (.call n)).evRes r = some fx ∧ c' = c.fired n fx := by
  cases step_cases hs with
  | pipe r rest alive quiet queue => simp [nextCall, quiet, queue] at next
  | skip r m rest alive quiet queue sig =>
      cases (nextCall_of_queue quiet queue).symm.trans next
      rw [signal] at sig
      cases sig
  | yield r m left rest alive quiet queue sig =>
      cases (nextCall_of_queue quiet queue).symm.trans next
      rw [signal] at sig
      cases sig
  | again r m left alive rep => simp [nextCall, rep] at next
  | fire r m rest fx alive quiet queue sig body =>
      cases (nextCall_of_queue quiet queue).symm.trans next
      exact ⟨fx, body, rfl⟩
  | start _ drives => cases drives

/-- An object that stays keeps its socket. -/
theorem sock_moves {w w' : World} {opens : Option Fd} (moves : World.Moves w w' opens)
    (known : o < w.nextObj) {y : Obj} (hy : w'.obj o = some y) :
    ∃ z, w.obj o = some z ∧ z.sock = y.sock := by
  cases moves with
  | opens loop _ opens =>
      rcases opens.obj_back hy with hy | ⟨new, -⟩
      · exact ⟨y, hy, rfl⟩
      · exact absurd new (Nat.ne_of_lt known)
  | closed o' hw =>
      unfold World.close at hw
      split at hw
      · next z hz =>
          split at hw
          · cases hw
          · rw [Option.some.injEq] at hw
            rw [← hw] at hy
            by_cases eq : o = o'
            · subst eq
              simp only [Function.update_self, Option.some.injEq] at hy
              exact ⟨z, hz, by rw [← hy]⟩
            · simp only [Function.update_of_ne eq] at hy
              exact ⟨y, hy, rfl⟩
      · cases hw
  | deinit o' hw =>
      by_cases eq : o = o'
      · subst eq
        rw [obj_deinit_self hw] at hy
        cases hy
      · rw [obj_deinit hw eq] at hy
        exact ⟨y, hy, rfl⟩

/-- **What may happen to an accept**: it is new, it waits on, or it is called back. -/
theorem accept_step (sound : c.loop.Sound) (hs : c.step a = some c') (made : n ∈ c'.loop.made)
    (kind : (c'.loop.call n).kind = .accept) :
    (c'.loop.call n).outcomes = [] ∨ n ∈ c.loop.made ∧ (c.loop.call n).kind = .accept ∧
      (c'.loop.call n = c.loop.call n ∨ ∃ r fx, a = .callback r ∧ c.nextCall = some n ∧
        (c'.loop.call n).outcomes = [fx.outcome] ∧
        callbackBody c.world c.loop.self (c.loop.call n) (c.loop.base.ev (.call n)).evFd
          (c.loop.base.ev (.call n)).evRes r = some fx) := by
  by_cases old : n ∈ c.loop.made
  · have same : (c'.loop.call n).kind = (c.loop.call n).kind :=
      (Life.kind_follows ((step_follows sound hs).2 n) old).1
    have kind' : (c.loop.call n).kind = .accept := same ▸ kind
    have signal : (c.loop.call n).kind.isSignal = false := by rw [kind']; rfl
    refine Or.inr ⟨old, kind', ?_⟩
    rcases call_step sound hs old signal with eq | ⟨r, fx, rfl, next, body, rfl⟩
    · exact Or.inl eq
    · refine Or.inr ⟨r, fx, rfl, next, ?_, body⟩
      have started := started_of_queued sound (queued_of_nextCall next) signal
      simp [fired, withCall, Effect.settle, List.length_eq_zero_iff.mp started.resumed]
  · refine Or.inl ?_
    rcases made_step sound hs old made (by rw [kind]; rfl) with
      ⟨address, r, timeout, env, now, call, w, -, ans, rfl⟩ |
      ⟨kind', o, fd, events, w, timeout, env, now, -, starts, -, rfl⟩ |
      ⟨sleeps, duration, nomem, env, now, -, rfl⟩
    · simp only [record, Function.update_self] at kind
      cases ans <;> cases kind
    · simp [startIo, record]
    · rcases schedule_cases c (if sleeps then .sleep else .schedule) duration nomem env now
        (sound.not_queued old) with ⟨b, -, eq⟩ | ⟨-, eq⟩ | ⟨-, eq⟩
      all_goals
        rw [eq]
        simp [record]

/-- Nothing more happens to a call that has been resumed. -/
theorem resumed_step (sound : c.loop.Sound) (hs : c.step a = some c') (made : n ∈ c.loop.made)
    (signal : (c.loop.call n).kind.isSignal = false) (resumed : (c.loop.call n).outcomes ≠ []) :
    n ∈ c'.loop.made ∧ c'.loop.call n = c.loop.call n := by
  refine ⟨(Life.kind_follows ((step_follows sound hs).2 n) made).2, ?_⟩
  rcases call_step sound hs made signal with same | ⟨r, fx, -, next, -⟩
  · exact same
  · have started := started_of_queued sound (queued_of_nextCall next) signal
    exact absurd (List.length_eq_zero_iff.mp started.resumed) resumed

/-- What was returned stays returned. -/
theorem Returned.step (h : c.Returned n o x) (sound : c.loop.Sound) (hs : c.step a = some c') :
    c'.Returned n o x := by
  have moves := step_world hs
  obtain ⟨made, same⟩ := resumed_step sound hs h.made (by rw [h.kind]; rfl)
    (by rw [h.outcomes]; simp)
  refine ⟨made, same ▸ h.kind, same ▸ h.outcomes,
    Nat.lt_of_lt_of_le h.known (nextObj_moves moves), ?_⟩
  intro y hy
  obtain ⟨z, hz, eq⟩ := sock_moves moves h.known hy
  rw [← eq]
  exact h.sock z hz

/-- When a step returns a connection. -/
theorem returned_of_traffic (h : c.traffic a = some (.returned n o x)) :
    ∃ fd k, a = .callback (.fd fd) ∧ c.nextCall = some n ∧ c.listener n = some k ∧
      (c.world.sock k).backlog.head? = some x ∧ o = c.world.nextObj := by
  unfold traffic at h
  split at h
  · obtain ⟨y, -, eq⟩ := Option.map_eq_some_iff.mp h
    cases eq
  · obtain ⟨y, -, eq⟩ := Option.map_eq_some_iff.mp h
    cases eq
  · cases h
  · obtain ⟨y, -, eq⟩ := Option.map_eq_some_iff.mp h
    cases eq
  · next fd =>
      obtain ⟨m, next, h⟩ := Option.bind_eq_some_iff.mp h
      obtain ⟨k, listens, h⟩ := Option.bind_eq_some_iff.mp h
      obtain ⟨y, head, eq⟩ := Option.map_eq_some_iff.mp h
      cases eq
      exact ⟨fd, k, rfl, next, listens, head, rfl⟩
  · cases h

theorem kind_of_listener {k : KSock} (h : c.listener n = some k) :
    (c.loop.call n).kind = .accept ∧ c.world.table (c.loop.base.ev (.call n)).evFd = some k := by
  unfold listener at h
  split at h
  · next kind => exact ⟨kind, h⟩
  · cases h

/-- The callback of an accept. -/
theorem accept_body {w : World} {loop : Nat} {call : Call} {fd : Fd} {res : Evs} {r : SysResult}
    {fx : Effect} (kind : call.kind = .accept)
    (body : callbackBody w loop call fd res r = some fx) :
    (∃ k clientFd client rest, r = .fd clientFd ∧ w.table fd = some k ∧
      (w.sock k).backlog = client :: rest ∧ fx.outcome = .socket w.nextObj ∧
      fx.world = (w.setSock k { w.sock k with backlog := rest }).install .socket loop clientFd
        client) ∨
    ∃ errno, r = .fails errno ∧ fx.outcome = .threw (.acceptFailed errno) ∧
      (errno = eagain → ∃ k, w.table fd = some k ∧ (w.sock k).conn = .listening ∧
        (w.sock k).backlog = []) := by
  have other : ∀ {kind' : Kind}, call.kind = kind' → kind' = .accept :=
    fun kind' => kind'.symm.trans kind
  cases callbackBody_cases body with
  | timedOut r io notAccept due => exact absurd kind notAccept
  | connected r address o kind' => cases other kind'
  | bytes k m kind' => cases other kind'
  | eof k kind' => cases other kind'
  | readFails errno kind' => cases other kind'
  | wrote k m data kind' => cases other kind'
  | writeFails errno data kind' => cases other kind'
  | timer r kind' => rcases kind' with kind' | kind' <;> cases other kind'
  | accepts k clientFd client rest kind' used backlog free listening =>
      exact Or.inl ⟨k, clientFd, client, rest, rfl, used, backlog, rfl, rfl⟩
  | acceptFails errno kind' empty => exact Or.inr ⟨errno, rfl, rfl, empty⟩

/-- The call whose callback takes a connection returns it. -/
theorem returned_now (sound : c.loop.Sound) (hs : c.step a = some c')
    (traffic : c.traffic a = some (.returned n o x)) : c'.Returned n o x := by
  obtain ⟨fd, k, rfl, next, listens, head, rfl⟩ := returned_of_traffic traffic
  obtain ⟨kind, used⟩ := kind_of_listener listens
  have signal : (c.loop.call n).kind.isSignal = false := by rw [kind]; rfl
  have queued := queued_of_nextCall next
  have made := made_of_queued sound queued
  have waiting := List.length_eq_zero_iff.mp (started_of_queued sound queued signal).resumed
  obtain ⟨fx, body, rfl⟩ := fired_of_nextCall hs next signal
  rcases accept_body kind body with ⟨k', clientFd, client, rest, -, used', backlog, outcome, world⟩ |
    ⟨errno, fails, -⟩
  · cases used.symm.trans used'
    rw [backlog, List.head?_cons, Option.some.injEq] at head
    subst head
    refine ⟨made, ?_, ?_, ?_, ?_⟩
    · simpa [fired, withCall, Effect.settle] using kind
    · simp [fired, withCall, Effect.settle, waiting, outcome]
    · simp [fired, world, World.install, World.setSock]
    · intro y hy
      simp only [fired, world, World.install, World.setSock, Function.update_self,
        Option.some.injEq] at hy
      rw [← hy]
  · cases fails

/-- **Every step that serves its accept keeps the account.** -/
theorem Accounted.step (account : c.Accounted h) (served : c.Served a)
    (hs : c.step a = some c') : c'.Accounted (h ++ (c.traffic a).toList) := by
  refine ⟨(step_follows account.sound hs).1,
    account.tallied.step (serves_step account.tallied.fresh hs), ?_, ?_⟩
  · intro n o x mem
    rcases List.mem_append.mp mem with mem | mem
    · exact (account.returned n o x mem).step account.sound hs
    · exact returned_now account.sound hs (Option.mem_toList.mp mem)
  · intro n made kind out mem
    rcases accept_step account.sound hs made kind with new | ⟨old, kind', same | ended⟩
    · rw [new] at mem
      cases mem
    · rw [same] at mem
      rcases account.accepts n old kind' out mem with ⟨o, x, eq, before⟩ | failed
      · exact Or.inl ⟨o, x, eq, List.mem_append_left _ before⟩
      · exact Or.inr failed
    · obtain ⟨r, fx, rfl, next, outcomes, body⟩ := ended
      rw [outcomes, List.mem_singleton] at mem
      subst mem
      rcases accept_body kind' body with
        ⟨k, clientFd, client, rest, rfl, used, backlog, outcome, -⟩ | ⟨errno, rfl, outcome, empty⟩
      · have traffic : c.traffic (.callback (.fd clientFd)) =
            some (.returned n c.world.nextObj client) := by
          simp [Core.traffic, next, listener, kind', used, backlog]
        refine Or.inl ⟨c.world.nextObj, client, outcome, ?_⟩
        rw [traffic]
        exact List.mem_append_right _ (List.mem_singleton_self _)
      · refine Or.inr ⟨errno, outcome, ?_⟩
        intro again
        obtain ⟨k, used, listening, backlog⟩ := empty again
        have listens : c.listener n = some k := by
          rw [listener, if_pos kind', used]
        exact served n next k listens listening backlog

/-- What became of the connections, over a run. -/
def trafficOf (c : Core) (as : List Act) : List Traffic :=
  StepSystem.collect Core.step (fun c a => (c.traffic a).toList) c as

theorem accounted_run {endian : Endian} {pipeFd : Fd} {as : List Act}
    (run : StepSystem.run Core.step (init endian pipeFd) as = some c)
    (served : StepSystem.Meets Core.step Served (init endian pipeFd) as) :
    c.Accounted (trafficOf (init endian pipeFd) as) := by
  have start : (init endian pipeFd).Accounted [] := by
    refine ⟨sound_new 0 0 pipeFd, ⟨?_, ?_, ?_⟩, ?_, ?_⟩
    · exact (World.serves_openObj (w := World.init endian) (s := {}) (fun k _ => ⟨rfl, nofun⟩)
        rfl).1
    · exact nofun
    · have empty : (fun k => ((init endian pipeFd).world.sock k).backlog) = fun _ => [] := by
        funext k
        show (Function.update (fun _ => ({} : Sock)) 0 {} k).backlog = []
        rw [Function.update_apply]
        split <;> rfl
      rw [empty]
      exact .nil
    · exact nofun
    · exact nofun
  exact StepSystem.history_run (P := Accounted) (fun d b d' h account served hs =>
    account.step served hs) start served run

/-- A call on a descriptor that libevent took and that has no result is still registered. -/
theorem pending_of_unresumed (sound : c.loop.Sound) (made : n ∈ c.loop.made)
    (io : (c.loop.call n).kind.isIo = true) (added : (c.loop.call n).added = true)
    (alive : c.loop.alive = true) (waits : (c.loop.call n).outcomes = []) :
    c.loop.base.Queued (.call n) := by
  have signal := Kind.not_signal_of_io io
  have resumed : (c.loop.call n).outcomes.length = 0 := List.length_eq_zero_iff.mpr waits
  obtain ⟨s, hs⟩ := sound.life n
  cases s with
  | unmade => exact absurd made hs.1
  | answered =>
      have answered : (c.loop.call n).added = false := hs.2.2.added
      rw [added] at answered
      cases answered
  | waiting => exact hs.2.1
  | refused =>
      have refused : (c.loop.call n).added = false := hs.2.2.2.1
      rw [added] at refused
      cases refused
  | done =>
      have done : (c.loop.call n).outcomes.length = 1 := hs.2.2.1.resumed
      rw [resumed] at done
      cases done
  | refunded =>
      have timer : (c.loop.call n).kind.isIo = false := hs.2.2.io
      rw [io] at timer
      cases timer
  | listening =>
      have isSignal : (c.loop.call n).kind.isSignal = true := hs.2.2.2.signal
      rw [signal] at isSignal
      cases isSignal
  | closed =>
      have isSignal : (c.loop.call n).kind.isSignal = true := hs.2.2.signal
      rw [signal] at isSignal
      cases isSignal
  | dropped => exact absurd alive hs.2.2.1

/-- **One connection, one accept.**  Where each accept that is called back finds a connection,
every connection that was queued is on one backlog still, or has left it once, returned by one
call or aborted by its peer; and every accept is pending, or returned one of these connections,
or threw an error other than `EAGAIN`. -/
theorem one_connection_one_accept {endian : Endian} {pipeFd : Fd} {as : List Act}
    (run : StepSystem.run Core.step (init endian pipeFd) as = some c)
    (served : StepSystem.Meets Core.step Served (init endian pipeFd) as) :
    let h := trafficOf (init endian pipeFd) as
    (∀ x, .queued x ∈ h →
      h.countP (fun e => e.joined == some x) = 1 ∧
      (h.countP (fun e => e.left == some x) = 0 ∧ (∃! k, x ∈ (c.world.sock k).backlog) ∨
        h.countP (fun e => e.left == some x) = 1 ∧ ∀ k, x ∉ (c.world.sock k).backlog)) ∧
    (∀ n o x, .returned n o x ∈ h → .queued x ∈ h ∧ c.Returned n o x) ∧
    ∀ n ∈ c.loop.made, (c.loop.call n).kind = .accept →
      (c.loop.call n).outcomes = [] ∧
        ((c.loop.call n).added = true → c.loop.alive = true → c.loop.base.Queued (.call n)) ∨
      (∃ o x, (c.loop.call n).outcomes = [.socket o] ∧ .returned n o x ∈ h) ∨
      ∃ errno, (c.loop.call n).outcomes = [.threw (.acceptFailed errno)] ∧ errno ≠ eagain := by
  intro h
  have account : c.Accounted h := accounted_run run served
  have booked := account.tallied.booked
  have queued : ∀ x, x ∈ queuedOf h ↔ .queued x ∈ h := by
    intro x
    simp only [queuedOf, List.mem_filterMap]
    constructor
    · rintro ⟨e, mem, joined⟩
      cases e with
      | queued y =>
          cases joined
          exact mem
      | returned => cases joined
      | aborted => cases joined
    · intro mem
      exact ⟨_, mem, rfl⟩
  have leaves : ∀ x, h.countP (fun e => e.left == some x) = (leftOf h).count x := by
    intro x
    rw [leftOf, List.count_filterMap]
  refine ⟨?_, ?_, ?_⟩
  · intro x mem
    have mem := (queued x).mpr mem
    refine ⟨?_, ?_⟩
    · rw [← List.count_filterMap]
      exact List.count_eq_one_of_mem booked.joinedOnce mem
    rw [leaves]
    by_cases left : x ∈ leftOf h
    · refine Or.inr ⟨List.count_eq_one_of_mem booked.leftOnce left, ?_⟩
      intro k waits
      exact (booked.waiting k x waits).2 left
    · refine Or.inl ⟨List.count_eq_zero_of_not_mem left, ?_⟩
      obtain ⟨k, waits⟩ := booked.held x mem left
      exact ⟨k, waits, fun j waits' => booked.apart j k x waits' waits⟩
  · intro n o x mem
    refine ⟨(queued x).mp (booked.gone x ?_), account.returned n o x mem⟩
    exact List.mem_filterMap.mpr ⟨_, mem, rfl⟩
  · intro n made kind
    have io : (c.loop.call n).kind.isIo = true := by rw [kind]; rfl
    have once : (c.loop.call n).outcomes.length ≤ 1 := ((account.sound.life n).once made).1
    have outs := account.accepts n made kind
    match outcomes : (c.loop.call n).outcomes with
    | [] =>
        exact Or.inl ⟨rfl, fun added alive =>
          pending_of_unresumed account.sound made io added alive outcomes⟩
    | [out] =>
        rw [outcomes] at outs
        rcases outs out (List.mem_singleton_self out) with ⟨o, x, rfl, mem⟩ | ⟨errno, rfl, ne⟩
        · exact Or.inr (Or.inl ⟨o, x, rfl, mem⟩)
        · exact Or.inr (Or.inr ⟨errno, rfl, ne⟩)
    | _ :: _ :: _ =>
        rw [outcomes] at once
        simp at once

/-- Two accepts wait on one listener. -/
def twoAccepts : List Act :=
  [.listen (.ok 4), .accept 0 1 {} ⟨0, 0⟩, .accept 1 1 {} ⟨0, 0⟩]

/-- Three connections are queued, the second of them is aborted by its peer, and each accept
takes one of the others. -/
def twoConnections : List Act :=
  twoAccepts ++ [.kernel (.incoming 1), .kernel (.incoming 1), .kernel (.incoming 1),
    .dispatch [(4, { epollin := true })] ⟨1, 0⟩ [], .kernel (.abort 1 1), .callback (.fd 5),
    .callback (.fd 6)]

theorem one_connection_one_accept_twoConnections :
    ∃ c, StepSystem.run Core.step (init .little 3) twoConnections = some c ∧
      trafficOf (init .little 3) twoConnections =
        [.queued 2, .queued 3, .queued 4, .aborted 3, .returned 1 2 2, .returned 0 3 4] ∧
      c.Returned 1 2 2 ∧ c.Returned 0 3 4 := by
  have ends : (StepSystem.run Core.step (init .little 3) twoConnections).isSome = true := by
    decide +kernel
  have served : StepSystem.Meets Core.step Served (init .little 3) twoConnections := by
    decide +kernel
  have traffic : trafficOf (init .little 3) twoConnections =
      [.queued 2, .queued 3, .queued 4, .aborted 3, .returned 1 2 2, .returned 0 3 4] := by
    decide +kernel
  obtain ⟨c, run⟩ := Option.isSome_iff_exists.mp ends
  have accepts := (one_connection_one_accept run served).2.1
  refine ⟨c, run, traffic, ?_, ?_⟩
  · apply And.right
    apply accepts
    rw [traffic]
    simp
  · apply And.right
    apply accepts
    rw [traffic]
    simp

/-- **Two accepts, one connection.**  Both are reported ready; the second finds the backlog
empty, and instead of waiting on it throws `acceptFailed(EAGAIN)`. -/
theorem two_accepts_one_connection :
    ∃ c d, StepSystem.run Core.step (init .little 3) (twoAccepts ++
        [.kernel (.incoming 1), .dispatch [(4, { epollin := true })] ⟨1, 0⟩ [],
          .callback (.fd 5)]) = some c ∧
      c.nextCall = some 0 ∧ c.listener 0 = some 1 ∧ (c.world.sock 1).backlog = [] ∧
      c.step (.callback (.fails eagain)) = some d ∧
      (d.loop.call 0).outcomes = [.threw (.acceptFailed eagain)] ∧
      ¬ d.loop.base.Queued (.call 0) := by
  have facts : (StepSystem.run Core.step (init .little 3) (twoAccepts ++
      [.kernel (.incoming 1), .dispatch [(4, { epollin := true })] ⟨1, 0⟩ [],
        .callback (.fd 5)])).bind (fun c => (c.step (.callback (.fails eagain))).map fun d =>
          decide (c.nextCall = some 0 ∧ c.listener 0 = some 1 ∧ (c.world.sock 1).backlog = [] ∧
            (d.loop.call 0).outcomes = [.threw (.acceptFailed eagain)] ∧
            ¬ d.loop.base.Queued (.call 0))) = some true := by
    decide +kernel
  obtain ⟨c, run, facts⟩ := Option.bind_eq_some_iff.mp facts
  obtain ⟨d, hs, facts⟩ := Option.map_eq_some_iff.mp facts
  obtain ⟨next, listens, empty, threw, gone⟩ := of_decide_eq_true facts
  exact ⟨c, d, run, next, listens, empty, hs, threw, gone⟩

end Core

end SwiftEvent
