import SwiftEvent.Deadline
import SwiftEvent.Process
import SwiftEvent.Waits

/-!
# What `connect` reports

`connect` opens an `AF_INET` socket whatever the address is, and when the kernel
answers `EINPROGRESS` it takes write-readiness for success: `SO_ERROR` is never
read, so an attempt that was refused later is reported as a connection.  An
attempt that is decided in the pass in which the deadline passes is reported as a
timeout.

The deadline of the claim is the clock of the call plus the timeout.  The one that
`event_add` sets is taken from `gettime`, which may lag behind, and its seconds wrap
around in `time_t`: a timeout of `Int64.max` seconds is over at once.

`connect_truthful_iff` says exactly when the report agrees with the kernel and the
clock.
-/

namespace SwiftEvent

namespace World

variable {w w' : World}

/-- Every socket of the process is of `AF_INET`: `listen` knows no other family
either.  The byte order stays what it is. -/
def Inet (w : World) (endian : Endian) : Prop :=
  w.endian = endian ∧ ∀ k, (w.sock k).family = .inet

variable {endian : Endian}

theorem Inet.setSock (h : w.Inet endian) {k : KSock} {s : Sock} (inet : s.family = .inet) :
    (w.setSock k s).Inet endian := by
  refine ⟨h.1, fun j => ?_⟩
  by_cases eq : j = k
  · subst eq; simpa [World.setSock] using inet
  · simpa [World.setSock, eq] using h.2 j

theorem Inet.newSock (h : w.Inet endian) {s : Sock} (inet : s.family = .inet) :
    (w.newSock s).Inet endian :=
  h.setSock inet

theorem Inet.openObj (h : w.Inet endian) {role : Role} {loop : Nat} {fd : Fd} {s : Sock}
    (inet : s.family = .inet) : (w.openObj role loop fd s).Inet endian :=
  h.newSock inet

theorem Inet.conclude (h : w.Inet endian) {k : KSock} {verdict : Verdict}
    (hw : w.conclude k verdict = some w') : w'.Inet endian := by
  obtain ⟨-, ⟨errno, -, rfl⟩ | ⟨-, rfl⟩ | ⟨listener, -, -, -, rfl⟩⟩ := conclude_cases hw
  · exact h.setSock (h.2 k)
  · exact h.setSock (h.2 k)
  · refine Inet.newSock (s := { conn := .established, peer := some k }) (Inet.setSock ?_ ?_) rfl
    · exact h.setSock (h.2 k)
    · exact h.2 listener

theorem Inet.kernel (h : w.Inet endian) {act : KernelAct} (hw : w.kernel act = some w') :
    w'.Inet endian := by
  cases act with
  | conclude k verdict => exact h.conclude hw
  | arrive k bytes =>
      simp only [World.kernel] at hw
      split at hw
      · cases hw; exact h.setSock (h.2 k)
      · cases hw
  | hangup k =>
      simp only [World.kernel] at hw
      split at hw
      · cases hw; exact h.setSock (h.2 k)
      · cases hw
  | incoming k =>
      simp only [World.kernel] at hw
      split at hw
      · cases hw
        refine Inet.newSock (s := { conn := .established }) (h.setSock ?_) rfl
        exact h.2 k
      · cases hw
  | abort k i =>
      simp only [World.kernel] at hw
      split at hw
      · cases hw; exact h.setSock (h.2 k)
      · cases hw

theorem Inet.listen (h : w.Inet endian) {loop : Nat} {r : ListenResult}
    (hw : w.listen loop r = some w') : w'.Inet endian := by
  cases r with
  | socketFails errno => cases hw; exact h
  | bindFails fd errno =>
      simp only [World.listen] at hw
      split at hw
      · cases hw; exact h.newSock (s := {}) rfl
      · cases hw
  | listenFails fd errno =>
      simp only [World.listen] at hw
      split at hw
      · cases hw; exact h.newSock (s := {}) rfl
      · cases hw
  | ok fd =>
      simp only [World.listen] at hw
      split at hw
      · cases hw; exact h.openObj (s := { conn := .listening }) rfl
      · cases hw

/-- Where an attempt stands after its end. -/
theorem conn_conclude {k : KSock} {verdict : Verdict} (hw : w.conclude k verdict = some w')
    (old : k < w.nextSock) :
    w'.endian = w.endian ∧ (w'.sock k).conn =
      match verdict with
      | .established _ => .established
      | .failed errno => .failed errno := by
  obtain ⟨-, ⟨errno, rfl, rfl⟩ | ⟨rfl, rfl⟩ | ⟨listener, rfl, apart, -, rfl⟩⟩ := conclude_cases hw
  · exact ⟨rfl, by simp [World.setSock]⟩
  · exact ⟨rfl, by simp [World.setSock]⟩
  · have fresh : k ≠ w.nextSock := Nat.ne_of_lt old
    exact ⟨rfl, by simp [World.setSock, World.newSock, Ne.symm apart, fresh]⟩

end World

namespace Core

variable {c c' : Core} {a : Act} {n : Nat} {endian : Endian}

theorem inet_callbackBody {w : World} (h : w.Inet endian) {loop : Nat} {call : Call} {fd : Fd}
    {res : Evs}
    {r : SysResult} {fx : Effect} (body : callbackBody w loop call fd res r = some fx) :
    fx.world.Inet endian := by
  cases callbackBody_cases body with
  | bytes k n kind notDue used some_ fits there => exact h.setSock (h.2 _)
  | wrote k n data kind notDue used part established =>
      show (send w k (data.take n)).Inet endian
      unfold send
      split
      · next p _ => exact h.setSock (h.2 p)
      · exact h
  | accepts k clientFd client rest kind used backlog free listening => exact h.setSock (h.2 _)
  | _ => exact h

theorem inet_step (h : c.world.Inet endian) (hs : c.step a = some c') : c'.world.Inet endian := by
  cases step_cases hs with
  | listen r w hw => exact h.listen hw
  | kernel act w hw => exact h.kernel hw
  | close o w hw =>
      unfold World.close at hw
      split at hw
      · split at hw
        · cases hw
        · cases hw; exact h
      · cases hw
  | deinit o w may hw =>
      unfold World.deinit at hw
      split at hw
      · cases hw; exact h
      · cases hw
  | answer m address r timeout env now call w alive new ans =>
      cases ans with
      | socketFails errno => exact h
      | ok fd listener w free inet hw =>
          exact (h.openObj (s := { family := .inet, conn := .connecting }) rfl).conclude hw
      | fails fd errno w free ne hw =>
          exact (h.openObj (s := { family := .inet, conn := .connecting }) rfl).conclude hw
  | start _ drives m kind o fd events w timeout env now alive new starts accept opens target =>
      cases starts with
      | connect address fd free inet =>
          exact h.openObj (s := { family := .inet, conn := .connecting }) rfl
      | _ => exact h
  | schedule m sleeps duration nomem env now alive new => rw [world_schedule]; exact h
  | signalStream args c' alive hc => rw [world_signalStream hc]; exact h
  | tearDown r alive opened => rw [world_tearDown]; exact h
  | free w alive torn hw =>
      unfold World.deinit at hw
      split at hw
      · cases hw; exact h
      · cases hw
  | fire r m rest fx alive quiet queue signal body => exact inet_callbackBody h body
  | _ => exact h

theorem inet_run {pipeFd : Fd} {as : List Act}
    (run : StepSystem.run step (init endian pipeFd) as = some c) : c.world.Inet endian := by
  refine StepSystem.invariant_run (P := fun c : Core => c.world.Inet endian)
    (fun _ _ _ h hs => inet_step h hs) ?_ run
  exact World.Inet.openObj (w := World.init endian) (s := {}) ⟨rfl, fun _ => rfl⟩ rfl

/-- **The report agrees with the kernel**, which knows the socket as `k`, and with the clock,
by which the deadline of the call has passed or not. -/
structure Truthful (c : Core) (n : Nat) (address : SocketAddress) (k : KSock) (passed : Prop) :
    Prop where
  family : address.family c.world.endian = some (c.world.sock k).family
  returned : (∃ o, (c.loop.call n).outcomes = [.socket o]) ↔ (c.world.sock k).conn = .established
  failed : ∀ errno, (c.loop.call n).outcomes = [.threw (.connectionFailed errno)] ↔
    (c.world.sock k).conn = .failed errno
  timeout : (c.loop.call n).outcomes = [.threw .timeout] ↔
    passed ∧ (c.world.sock k).conn = .connecting

/-- An address of the package that is not IPv6 is IPv4. -/
theorem family_eq_inet {endian : Endian} {inetPton : InetPton} {address : SocketAddress}
    (built : SocketAddress.Built endian inetPton address) :
    address.family endian ≠ some .inet6 ↔ address.family endian = some .inet := by
  obtain ⟨family, eq⟩ := Option.isSome_iff_exists.mp built.family_isSome
  rw [eq]
  cases family <;> simp

variable {passed : Prop}

/-- A `connect` that is decided at once reports what `connect(2)` said. -/
theorem truthful_answer {address : SocketAddress} {r : ConnectResult} {call : Call} {w : World}
    {k : KSock} (inet : c.world.Inet endian) (ans : c.Answers address r call w)
    (sock : call.sock = some k) :
    Truthful (record { c with world := w } n call) n address k passed ↔
      address.family c.world.endian = some .inet := by
  cases ans with
  | socketFails errno => cases sock
  | ok fd listener w free family hw =>
      cases sock
      obtain ⟨(endian : w.endian = c.world.endian), conn⟩ :=
        World.conn_conclude hw (Nat.lt_succ_self _)
      have inet := (inet.openObj (s := { family := .inet, conn := .connecting }) rfl).conclude hw
        |>.2 c.world.nextSock
      refine iff_of_true ⟨?_, ?_, fun errno => ?_, ?_⟩ family
      · simp only [record, inet, endian]; exact family
      · simp [record, conn]
      · simp [record, conn]
      · simp [record, conn]
  | fails fd errno w free ne hw =>
      cases sock
      obtain ⟨(endian : w.endian = c.world.endian), conn⟩ :=
        World.conn_conclude hw (Nat.lt_succ_self _)
      have inet := (inet.openObj (s := { family := .inet, conn := .connecting }) rfl).conclude hw
        |>.2 c.world.nextSock
      refine ⟨fun truthful => ?_, fun family => ⟨?_, ?_, fun errno => ?_, ?_⟩⟩
      · have := truthful.family
        simpa only [record, inet, endian] using this
      · simp only [record, inet, endian]; exact family
      · simp [record, conn]
      · simp [record, conn]
      · simp [record, conn]

/-- The callback of a `connect` that had to wait reports the deadline or success. -/
theorem truthful_fired {address : SocketAddress} {r : SysResult} {fx : Effect} {k : KSock}
    (inet : c.world.Inet endian) (due : c.Due n) (kind : (c.loop.call n).kind = .connect address)
    (active : .call n ∈ c.loop.base.activequeue) (waited : (c.loop.call n).outcomes = [])
    (body : callbackBody c.world c.loop.self (c.loop.call n) (c.loop.base.ev (.call n)).evFd
      (c.loop.base.ev (.call n)).evRes r = some fx) :
    (c.fired n fx).Truthful n address k passed ↔ address.family c.world.endian = some .inet ∧
      (¬ c.TimedOut n ∧ (c.world.sock k).conn = .established ∨
        c.TimedOut n ∧ passed ∧ (c.world.sock k).conn = .connecting) := by
  have outcomes : ((c.fired n fx).loop.call n).outcomes = [fx.outcome] := by
    simp [fired, withCall, Effect.settle, waited]
  have family : address.family c.world.endian = some (c.world.sock k).family ↔
      address.family c.world.endian = some .inet := by
    rw [inet.2 k]
  rw [callbackBody, kind] at body
  by_cases late : c.TimedOut n
  · rw [if_pos ((due.passed active).mpr late)] at body
    cases body
    constructor
    · intro truthful
      exact ⟨family.mp truthful.family, Or.inr ⟨late, truthful.timeout.mp outcomes⟩⟩
    · rintro ⟨own, (⟨early, -⟩ | ⟨-, passed, conn⟩)⟩
      · exact absurd late early
      · have conn : ((c.fired n { world := c.world, outcome := .threw .timeout }).world.sock k).conn =
            .connecting := conn
        refine ⟨family.mpr own, ?_, fun errno => ?_, ?_⟩ <;> rw [outcomes, conn]
        · simp
        · simp
        · simp [passed]
  · rw [if_neg (fun res => late ((due.passed active).mp res))] at body
    obtain ⟨o, -, rfl⟩ := Option.map_eq_some_iff.mp body
    constructor
    · intro truthful
      exact ⟨family.mp truthful.family, Or.inl ⟨late, truthful.returned.mp ⟨o, outcomes⟩⟩⟩
    · rintro ⟨own, (⟨-, conn⟩ | ⟨early, -⟩)⟩
      · have conn : ((c.fired n { world := c.world, outcome := .socket o }).world.sock k).conn =
            .established := conn
        refine ⟨family.mpr own, ?_, fun errno => ?_, ?_⟩ <;> rw [outcomes, conn]
        · simp
        · simp
        · simp
      · exact absurd early late

/-- The event of a `connect` that waits carries the deadline that `event_add` has computed from
what `gettime` answered, `g`. -/
structure Dated (c : Core) (n : Nat) (address : SocketAddress) (g : Timeval)
    (timeout : Option Duration) : Prop where
  made : n ∈ c.loop.made
  kind : (c.loop.call n).kind = .connect address
  given : c.loop.base.Queued (.call n) → (c.loop.call n).timeout = timeout.map timevalFor
  date : c.loop.base.Queued (.call n) → ∀ d ∈ timeout,
    (c.loop.base.ev (.call n)).evTimeout = deadline g d

variable {address : SocketAddress} {g : Timeval} {timeout : Option Duration}

/-- No step changes the deadline of a `connect` that waits. -/
theorem Dated.step (h : c.Dated n address g timeout) (sound : c.loop.Sound)
    (due : ∀ n, c.loop.base.Queued (.call n) → (c.loop.call n).kind.isIo = true → c.Due n)
    (hs : c.step a = some c') : c'.Dated n address g timeout := by
  obtain ⟨kind, made⟩ := Life.kind_follows ((step_follows sound hs).2 n) h.made
  have kind : (c'.loop.call n).kind = (c.loop.call n).kind := kind
  have signal : (c.loop.call n).kind.isSignal = false := by
    rw [h.kind]
    rfl
  have same : c'.loop.base.Queued (.call n) → c.loop.base.Queued (.call n) ∧
      (c'.loop.call n).timeout = (c.loop.call n).timeout ∧
      (c'.loop.base.ev (.call n)).evTimeout = (c.loop.base.ev (.call n)).evTimeout := by
    intro queued
    have was := queued_back sound hs h.made queued signal
    refine ⟨was, ?_⟩
    by_cases pass : ∃ ready now order, a = .dispatch ready now order
    · obtain ⟨ready, now, order, rfl⟩ := pass
      cases step_cases hs with
      | dispatch _ _ _ b alive reports later quiet hb =>
          obtain ⟨d, act, exp, -⟩ := Base.dispatchPass_eq_some hb
          exact ⟨rfl, (exp.deadline _).trans (act.deadline _)⟩
      | start _ drives => cases drives
    · have quiet := (due n was (by rw [h.kind]; rfl)).signal
      have kept := kept_step sound hs (fun _ _ _ eq => pass ⟨_, _, _, eq⟩) h.made queued signal quiet
      exact ⟨by rw [kept.call], by rw [kept.ev]⟩
  refine ⟨made, kind.trans h.kind, fun queued => ?_, fun queued d mem => ?_⟩
  · obtain ⟨was, timeout, -⟩ := same queued
    exact timeout.trans (h.given was)
  · obtain ⟨was, -, deadline⟩ := same queued
    exact deadline.trans (h.date was d mem)

/-- What the event has, in the terms of the call. -/
theorem Dated.timedOut_iff (h : c.Dated n address g timeout)
    (queued : c.loop.base.Queued (.call n)) :
    c.TimedOut n ↔ ∃ d ∈ timeout, deadline g d ≤ c.loop.base.pass := by
  rw [TimedOut, h.given queued]
  cases timeout with
  | none => simp
  | some d => simp [h.date queued d rfl]

/-- The `connect` has just been made, and has to wait. -/
theorem dated_inProgress (sound : c.loop.Sound) {fd : Fd} {env : Base.AddEnv}
    (hs : c.step (.connect n address (.inProgress fd) timeout env g) = some c') :
    c'.Dated n address g timeout ∧ (c'.loop.call n).outcomes = [] := by
  obtain ⟨alive, new, hs⟩ := whenNew_eq_some hs
  unfold connect at hs
  dsimp only at hs
  split at hs
  · cases hs
    have notQueued := sound.not_queued new
    refine ⟨?_, by simp [startIo, record]⟩
    rw [startIo_eq { c with world := c.world.openObj .socket c.loop.self fd { conn := .connecting } }
      _ fd timeout env g notQueued rfl]
    dsimp only
    split
    · refine ⟨by simp [record, withBase, addedBase, eventBase], by simp [record], fun _ => ?_,
        fun _ d mem => ?_⟩
      · simp [record]
      · cases mem
        simp [record, withBase, addedBase, eventBase, Base.withTimeout, deadline]
    · exact ⟨by simp [record, withBase, eventBase], by simp [record],
        fun queued => absurd queued notQueued, fun queued => absurd queued notQueued⟩
  · cases hs

/-- **How a `connect` begins**: it is decided at once, or waits. -/
theorem connect_step (sound : c.loop.Sound) {r : ConnectResult} {env : Base.AddEnv}
    (hs : c.step (.connect n address r timeout env g) = some c') :
    (∃ call w, c.Answers address r call w ∧ c' = record { c with world := w } n call ∧
        call.outcomes ≠ []) ∨
      c'.Dated n address g timeout ∧ (c'.loop.call n).outcomes = [] := by
  cases r with
  | inProgress fd => exact Or.inr (dated_inProgress sound hs)
  | _ =>
      left
      cases step_cases hs with
      | answer _ _ _ _ _ _ call w alive new ans =>
          refine ⟨call, w, ans, rfl, ?_⟩
          cases ans with
          | _ => exact List.cons_ne_nil _ _
      | start _ drives => cases drives

/-- A call that has been resumed stays so. -/
theorem still_resumed (sound : c.loop.Sound) (hs : c.step a = some c') (made : n ∈ c.loop.made)
    (signal : (c.loop.call n).kind.isSignal = false) (resumed : (c.loop.call n).outcomes ≠ []) :
    (c'.loop.call n).outcomes ≠ [] := by
  rcases call_step sound hs made signal with same | ⟨r, fx, -, -, -, rfl⟩
  · rw [same]
    exact resumed
  · simp [fired, withCall, Effect.settle]

end Core

namespace Waiting

variable {w w' v v' : Waiting} {n : Nat} {address : SocketAddress} {timeout : Option Duration}

/-- The deadline of a call made in `w` has passed in `v`. -/
def Passed (w v : Waiting) (timeout : Option Duration) : Prop :=
  ∃ d ∈ timeout, w.monotonic.micros + d.micros ≤ v.monotonic.micros

/-- The deadline that the call was given by `event_add` in `w` is not later than the pass of
`v`. -/
def TimedOut (w v : Waiting) (timeout : Option Duration) : Prop :=
  ∃ d ∈ timeout, deadline w.gettime d ≤ v.system.core.loop.base.pass

/-- What holds of the calls, and of one that waits to be connected. -/
def Attempt (endian : Endian) (n : Nat) (address : SocketAddress) (g : Timeval)
    (timeout : Option Duration) (c : Core) : Prop :=
  c.loop.Sound ∧ (∀ n, c.loop.base.Queued (.call n) → (c.loop.call n).kind.isIo = true → c.Due n) ∧
    c.world.Inet endian ∧ c.Dated n address g timeout

theorem attempt_run {endian : Endian} {g : Timeval} {bs : List Act}
    (start : Attempt endian n address g timeout w.system.core)
    (run : StepSystem.run step w bs = some v) : Attempt endian n address g timeout v.system.core := by
  refine StepSystem.invariant_run
    (P := fun w : Waiting => Attempt endian n address g timeout w.system.core)
    (fun w a w' h hs => ?_) start run
  obtain ⟨sound, due, inet, dated⟩ := h
  rcases step_core hs with same | ⟨b, hb⟩
  · rw [same]
    exact ⟨sound, due, inet, dated⟩
  · exact ⟨(Core.step_follows sound hb).1, Core.due_step sound due hb, Core.inet_step inet hb,
      dated.step sound due hb⟩

theorem resumed_run {bs : List Act} (sound : w.system.core.loop.Sound)
    (made : n ∈ w.system.core.loop.made)
    (signal : (w.system.core.loop.call n).kind.isSignal = false)
    (resumed : (w.system.core.loop.call n).outcomes ≠ [])
    (run : StepSystem.run step w bs = some v) : (v.system.core.loop.call n).outcomes ≠ [] := by
  refine (StepSystem.invariant_run (P := fun w : Waiting => w.system.core.loop.Sound ∧
    n ∈ w.system.core.loop.made ∧ (w.system.core.loop.call n).kind.isSignal = false ∧
    (w.system.core.loop.call n).outcomes ≠ []) (fun w a w' h hs => ?_)
    ⟨sound, made, signal, resumed⟩ run).2.2.2
  obtain ⟨sound, made, signal, resumed⟩ := h
  rcases step_core hs with same | ⟨b, hb⟩
  · rw [same]
    exact ⟨sound, made, signal, resumed⟩
  · obtain ⟨sound', follows⟩ := Core.step_follows sound hb
    obtain ⟨kind, made'⟩ := Life.kind_follows (follows n) made
    have kind : (w'.system.core.loop.call n).kind = (w.system.core.loop.call n).kind := kind
    exact ⟨sound', made', kind ▸ signal, Core.still_resumed sound hb made signal resumed⟩

/-- **`connect` reports the truth, if and only if** the address is not IPv6, and `connect(2)`
decided at once, or the connection was established and the deadline that `event_add` had set was
later than the pass, or that deadline was not, the clock of the call plus the timeout had come
too, and the attempt was still undecided. -/
theorem connect_truthful_iff {endian : Endian} {pipeFd : Fd} {clock monotonic : Timeval}
    {as : List Act} {r : Core.ConnectResult} {env : Base.AddEnv} {now : Timeval}
    {inetPton : InetPton} (lags : clock ≤ monotonic)
    (before : StepSystem.run step (init endian pipeFd clock monotonic) as = some w)
    (built : SocketAddress.Built w.system.core.world.endian inetPton address)
    (call : w.step (.system (.task (.connect n address r timeout env now))) = some w') :
    (∀ k, (w'.system.core.loop.call n).sock = some k →
      (w'.system.core.loop.call n).outcomes ≠ [] →
      (w'.system.core.Truthful n address k (w.Passed w timeout) ↔
        address.family w.system.core.world.endian ≠ some .inet6)) ∧
    ∀ bs v x v' k, StepSystem.run step w' bs = some v → v.step x = some v' →
      (v'.system.core.loop.call n).sock = some k → (v.system.core.loop.call n).outcomes = [] →
      (v'.system.core.loop.call n).outcomes ≠ [] →
      (v'.system.core.Truthful n address k (w.Passed v timeout) ↔
        address.family w.system.core.world.endian ≠ some .inet6 ∧
          (¬ w.TimedOut v timeout ∧ (v.system.core.world.sock k).conn = .established ∨
            w.TimedOut v timeout ∧ w.Passed v timeout ∧
              (v.system.core.world.sock k).conn = .connecting)) := by
  rw [Core.family_eq_inet built]
  obtain ⟨cs, run⟩ := core_reachable before
  have sound := Core.sound_run run
  have inet := Core.inet_run run
  obtain ⟨free, go⟩ := task_of_locks (a := .connect n address r timeout env now) rfl call
  have hs : w.system.core.step (.connect n address r timeout env w.gettime) =
      some w'.system.core := by
    rw [(consistent_run lags before).gettime_eq free]
    exact System.task_core go
  have sound' := (Core.step_follows sound hs).1
  rcases Core.connect_step sound hs with ⟨c, world, ans, eq, resumed⟩ | ⟨dated, waits⟩
  · rw [eq]
    have recorded : (Core.record { w.system.core with world } n c).loop.call n = c := by
      simp [Core.record]
    refine ⟨fun k sock _ => ?_, fun bs v x v' k after _ _ waits _ => ?_⟩
    · rw [recorded] at sock
      exact Core.truthful_answer inet ans sock
    · -- it has been resumed, and stays so
      refine absurd waits (resumed_run sound' ?_ ?_ ?_ after)
      all_goals rw [eq]
      · simp [Core.record]
      · rw [recorded]
        cases ans <;> rfl
      · rw [recorded]
        exact resumed
  · refine ⟨fun k _ resumed => absurd waits resumed, ?_⟩
    intro bs v x v' k after last sock waits resumed
    have start : Attempt endian n address w.gettime timeout w'.system.core :=
      ⟨sound', Core.due_step sound (Core.due_run run) hs, Core.inet_step inet hs, dated⟩
    obtain ⟨sound, due, inet', dated⟩ := attempt_run start after
    have signal : (v.system.core.loop.call n).kind.isSignal = false := by
      rw [dated.kind]
      rfl
    rcases step_core last with same | ⟨b, hb⟩
    · rw [same] at resumed
      exact absurd waits resumed
    · rcases Core.call_step sound hb dated.made signal with same | ⟨_, fx, -, next, body, eq⟩
      · rw [same] at resumed
        exact absurd waits resumed
      · have active := Core.mem_of_nextCall next
        have queued : v.system.core.loop.base.Queued (.call n) := Or.inr (Or.inr active)
        have due := due n queued (by rw [dated.kind]; rfl)
        rw [eq, Core.truthful_fired inet' due dated.kind active waits body, inet'.1, inet.1,
          dated.timedOut_iff queued]
        rfl

/-- A `connect` with a timeout of one second that has to wait. -/
def connecting : Act :=
  .system (.task (.connect 0 (.anyIPv4 .little 80) (.inProgress 4) (some ⟨10 ^ 18⟩) {} ⟨0, 0⟩))

/-- The attempt is decided, and the pass in which its socket becomes writable begins. -/
def decided (verdict : Verdict) : List Act :=
  [ .wait, .system (.task (.kernel (.conclude 1 verdict))), .tick ⟨100, 5⟩ ⟨100, 5⟩,
    .wakes [(4, { epollout := true })] [] false ]

theorem connect_truthful_iff_established :
    ∃ w' v v', (init .little 3 ⟨100, 0⟩ ⟨100, 0⟩).step connecting = some w' ∧
      StepSystem.run step w' (decided (.established none)) = some v ∧
      v.step (.system (.next .nothing)) = some v' ∧
      (v'.system.core.loop.call 0).outcomes = [.socket 1] ∧
      v'.system.core.Truthful 0 (.anyIPv4 .little 80) 1
        ((init .little 3 ⟨100, 0⟩ ⟨100, 0⟩).Passed v (some ⟨10 ^ 18⟩)) := by
  have facts : ((init .little 3 ⟨100, 0⟩ ⟨100, 0⟩).step connecting).bind (fun w' =>
      (StepSystem.run step w' (decided (.established none))).bind fun v =>
      (v.step (.system (.next .nothing))).map fun v' =>
        decide ((v'.system.core.loop.call 0).sock = some 1 ∧
          (v.system.core.loop.call 0).outcomes = [] ∧
          (v'.system.core.loop.call 0).outcomes = [.socket 1] ∧
          v.system.core.loop.base.pass = ⟨100, 5⟩ ∧
          (v.system.core.world.sock 1).conn = .established)) = some true := by
    decide +kernel
  obtain ⟨w', call, facts⟩ := Option.bind_eq_some_iff.mp facts
  obtain ⟨v, after, facts⟩ := Option.bind_eq_some_iff.mp facts
  obtain ⟨v', last, facts⟩ := Option.map_eq_some_iff.mp facts
  obtain ⟨sock, waits, outcomes, pass, conn⟩ := of_decide_eq_true facts
  have family : (SocketAddress.anyIPv4 .little 80).family .little ≠ some .inet6 := by
    decide +kernel
  have built : SocketAddress.Built .little ⟨fun _ => none, fun _ => none⟩
      (.anyIPv4 .little 80) := .anyIPv4 80
  have early : ¬ (init .little 3 ⟨100, 0⟩ ⟨100, 0⟩).TimedOut v (some ⟨10 ^ 18⟩) := by
    rintro ⟨d, mem, due⟩
    cases mem
    rw [pass] at due
    revert due
    decide +kernel
  have before : StepSystem.run step (init .little 3 ⟨100, 0⟩ ⟨100, 0⟩) [] =
      some (init .little 3 ⟨100, 0⟩ ⟨100, 0⟩) := rfl
  refine ⟨w', v, v', call, after, last, outcomes, ?_⟩
  exact ((connect_truthful_iff (by decide) before built call).2 _ v _ v' 1 after last sock
    waits (by rw [outcomes]; exact List.cons_ne_nil _ _)).mpr ⟨family, Or.inl ⟨early, conn⟩⟩

/-- **A refused connection is returned as a `Socket`.** -/
theorem connect_refused :
    ∃ w' v v', (init .little 3 ⟨100, 0⟩ ⟨100, 0⟩).step connecting = some w' ∧
      StepSystem.run step w' (decided (.failed 111)) = some v ∧
      v.step (.system (.next .nothing)) = some v' ∧
      (v'.system.core.loop.call 0).sock = some 1 ∧
      (v'.system.core.world.sock 1).conn = .failed 111 ∧
      (v'.system.core.loop.call 0).outcomes = [.socket 1] ∧
      ¬ v'.system.core.Truthful 0 (.anyIPv4 .little 80) 1
        ((init .little 3 ⟨100, 0⟩ ⟨100, 0⟩).Passed v (some ⟨10 ^ 18⟩)) := by
  have facts : ((init .little 3 ⟨100, 0⟩ ⟨100, 0⟩).step connecting).bind (fun w' =>
      (StepSystem.run step w' (decided (.failed 111))).bind fun v =>
      (v.step (.system (.next .nothing))).map fun v' =>
        decide ((v'.system.core.loop.call 0).sock = some 1 ∧
          (v'.system.core.world.sock 1).conn = .failed 111 ∧
          (v'.system.core.loop.call 0).outcomes = [.socket 1])) = some true := by
    decide +kernel
  obtain ⟨w', call, facts⟩ := Option.bind_eq_some_iff.mp facts
  obtain ⟨v, after, facts⟩ := Option.bind_eq_some_iff.mp facts
  obtain ⟨v', last, facts⟩ := Option.map_eq_some_iff.mp facts
  obtain ⟨sock, conn, outcomes⟩ := of_decide_eq_true facts
  refine ⟨w', v, v', call, after, last, sock, conn, outcomes, fun truthful => ?_⟩
  have established := truthful.returned.mp ⟨1, outcomes⟩
  rw [conn] at established
  cases established

end Waiting

end SwiftEvent
