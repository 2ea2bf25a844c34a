import SwiftEvent.Steps

/-!
# A process with many loops

Sockets of different loops share the descriptor table: a number closed by an
object of one loop may be handed out to an object of another.  A process is its
`World` and its loops; a step of the process is a step of one loop, or the
creation of one.

What a step may do to the descriptors and their objects is collected in
`World.Moves`, whatever loop makes it: nothing, opening one number, or one
`close(2)`.
-/

namespace SwiftEvent

/-- The process and its loops. -/
structure Process where
  world : World
  loop : Nat → Option Loop

namespace Process

/-- A process that has done nothing yet. -/
def init (endian : Endian) : Process := ⟨World.init endian, fun _ => none⟩

inductive Act
  | newLoop (l : Nat) (pipeFd : Fd)
  | core (l : Nat) (a : Core.Act)
deriving DecidableEq

/-- The descriptor number the kernel hands out. -/
def Act.opens : Act → Option Fd
  | .newLoop _ pipeFd => some pipeFd
  | .core _ a => a.opens

/-- The loop `l` has made a step; in the interest lists of the others, the
registrations of numbers that were closed are gone too. -/
def put (p : Process) (l : Nat) (c : Core) : Process where
  world := c.world
  loop j :=
    if j = l then some c.loop
    else (p.loop j).map fun other => (Core.dropped ⟨p.world, other⟩ c.world).loop

/-- What holds of the loop that has made the step, and of the others as the step has left them,
holds of every loop. -/
theorem forall_put {p : Process} {P : Nat → Loop → Prop} {l : Nat} {c : Core}
    (mine : P l c.loop)
    (others : ∀ j lp, j ≠ l → p.loop j = some lp → P j (Core.dropped ⟨p.world, lp⟩ c.world).loop) :
    ∀ j lp, (p.put l c).loop j = some lp → P j lp := by
  intro j lp hj
  by_cases eq : j = l
  · subst eq
    simp only [put, if_true, Option.some.injEq] at hj
    rw [← hj]
    exact mine
  · simp only [put, if_neg eq, Option.map_eq_some_iff] at hj
    obtain ⟨lq, hq, rfl⟩ := hj
    exact others j lq eq hq

/-- A loop that was there is still there. -/
theorem isSome_put (p : Process) {l j : Nat} (c : Core) (h : j ≠ l → (p.loop j).isSome = true) :
    ((p.put l c).loop j).isSome = true := by
  by_cases eq : j = l
  · simp [put, eq]
  · simpa [put, eq] using h eq

/-- **One step of the process.** -/
def step (p : Process) : Act → Option Process
  | .newLoop l pipeFd =>
      if (p.loop l).isNone then (newLoop p.world l pipeFd).map (p.put l) else none
  | .core l a => (p.loop l).bind fun lp => (Core.step ⟨p.world, lp⟩ a).map (p.put l)

end Process

/-! ## What a step does to descriptors and objects -/

namespace World

variable {w w' : World}

/-- Nothing happens to the descriptors and the objects. -/
structure Same (w w' : World) : Prop where
  table : w'.table = w.table
  obj : w'.obj = w.obj
  nextObj : w'.nextObj = w.nextObj
  closes : w'.closes = w.closes

theorem Same.refl (w : World) : Same w w := ⟨rfl, rfl, rfl, rfl⟩

theorem Same.trans {w'' : World} (h : Same w w') (h' : Same w' w'') : Same w w'' :=
  ⟨h'.table.trans h.table, h'.obj.trans h.obj, h'.nextObj.trans h.nextObj,
    h'.closes.trans h.closes⟩

/-- What a step of a loop that closes no object's number may do: nothing, hand a
number to a new object of the loop, or open a number and close it again before any
object was made for it. -/
inductive Opens (loop : Nat) (w : World) (w' : World) : Option Fd → Prop
  | same (opens : Option Fd) (h : Same w w') : Opens loop w w' opens
  | opened (role : Role) (fd : Fd) (k : KSock) (free : w.Free fd)
      (unused : k = w.nextSock ∨ ∃ s, k ∈ (w.sock s).backlog)
      (h : Same (w.install role loop fd k) w') : Opens loop w w' (some fd)
  | flash (k : KSock) (table : w'.table = w.table) (obj : w'.obj = w.obj)
      (nextObj : w'.nextObj = w.nextObj)
      (closes : w'.closes = { created := k, hit := some k } :: w.closes) : Opens loop w w' none

/-- **What a step may do**: open, `close()` or `deinit`. -/
inductive Moves (w : World) (w' : World) : Option Fd → Prop
  | opens (loop : Nat) (opens : Option Fd) (h : Opens loop w w' opens) : Moves w w' opens
  | closed (o : Nat) (h : w.close o = some w') : Moves w w' none
  | deinit (o : Nat) (h : w.deinit o = some w') : Moves w w' none

/-- A number that is in use keeps its socket. -/
theorem Opens.grows {loop : Nat} {opens : Option Fd} (h : Opens loop w w' opens) {fd : Fd}
    {k : KSock} (used : w.table fd = some k) : w'.table fd = some k := by
  cases h with
  | same _ same => rw [same.table]; exact used
  | opened role fd' k' free unused same =>
      have ne : fd ≠ fd' := by
        rintro rfl
        rw [free.2] at used
        cases used
      rw [same.table]
      simp only [install, Function.update_of_ne ne]
      exact used
  | flash k table obj nextObj closes => rw [table]; exact used

/-- A new object is one of the loop, for a socket that had none. -/
theorem Opens.obj_back {loop : Nat} {opens : Option Fd} (h : Opens loop w w' opens) {o : Nat}
    {x : Obj} (hx : w'.obj o = some x) :
    w.obj o = some x ∨ o = w.nextObj ∧ x.loop = loop ∧ x.closed = false ∧
      (x.sock = w.nextSock ∨ ∃ s, x.sock ∈ (w.sock s).backlog) := by
  cases h with
  | same _ same =>
      rw [same.obj] at hx
      exact Or.inl hx
  | opened role fd k free unused same =>
      rw [same.obj] at hx
      simp only [install] at hx
      by_cases eq : o = w.nextObj
      · subst eq
        rw [Function.update_self, Option.some.injEq] at hx
        subst hx
        exact Or.inr ⟨rfl, rfl, rfl, unused⟩
      · rw [Function.update_of_ne eq] at hx
        exact Or.inl hx
  | flash k table obj nextObj closes =>
      rw [obj] at hx
      exact Or.inl hx

theorem same_setSock (w : World) (k : KSock) (s : Sock) : Same w (w.setSock k s) :=
  ⟨rfl, rfl, rfl, rfl⟩

/-- **How an attempt can end.** -/
theorem conclude_cases {k : KSock} {verdict : Verdict} (h : w.conclude k verdict = some w') :
    (w.sock k).conn = .connecting ∧
      ((∃ errno, verdict = .failed errno ∧
        w' = w.setSock k { w.sock k with conn := .failed errno }) ∨
      (verdict = .established none ∧ w' = w.setSock k { w.sock k with conn := .established }) ∨
      ∃ listener, verdict = .established (some listener) ∧ listener ≠ k ∧
        (w.sock listener).conn = .listening ∧
        w' = ((w.setSock k
            { w.sock k with conn := .established, peer := some w.nextSock }).setSock listener
            { w.sock listener with backlog := (w.sock listener).backlog ++ [w.nextSock] }).newSock
            { conn := .established, peer := some k }) := by
  unfold conclude at h
  split at h
  · next connecting =>
      refine ⟨connecting, ?_⟩
      cases verdict with
      | failed errno =>
          cases h
          exact Or.inl ⟨errno, rfl, rfl⟩
      | established listener =>
          cases listener with
          | none =>
              cases h
              exact Or.inr (Or.inl ⟨rfl, rfl⟩)
          | some listener =>
              simp only at h
              split at h
              · next listening =>
                  have apart : listener ≠ k := by
                    rintro rfl
                    rw [connecting] at listening
                    cases listening
                  cases h
                  refine Or.inr (Or.inr ⟨listener, rfl, apart, listening, ?_⟩)
                  simp [setSock, apart]
              · cases h
  · cases h

theorem same_conclude {k : KSock} {verdict : Verdict} (h : w.conclude k verdict = some w') :
    Same w w' := by
  obtain ⟨-, ⟨errno, -, rfl⟩ | ⟨-, rfl⟩ | ⟨listener, -, -, -, rfl⟩⟩ := conclude_cases h
  · exact same_setSock _ _ _
  · exact same_setSock _ _ _
  · exact ⟨rfl, rfl, rfl, rfl⟩

theorem same_kernel {act : KernelAct} (h : w.kernel act = some w') : Same w w' := by
  cases act with
  | conclude k verdict => exact same_conclude h
  | arrive k bytes =>
      simp only [kernel] at h
      split at h
      · cases h; exact same_setSock _ _ _
      · cases h
  | hangup k =>
      simp only [kernel] at h
      split at h
      · cases h; exact same_setSock _ _ _
      · cases h
  | incoming k =>
      simp only [kernel] at h
      split at h
      · cases h; exact ⟨rfl, rfl, rfl, rfl⟩
      · cases h
  | abort k i =>
      simp only [kernel] at h
      split at h
      · cases h; exact same_setSock _ _ _
      · cases h

theorem same_install_openObj (w : World) (role : Role) (loop : Nat) (fd : Fd) (s : Sock) :
    Same (w.install role loop fd w.nextSock) (w.openObj role loop fd s) := ⟨rfl, rfl, rfl, rfl⟩

theorem opens_listen {loop : Nat} {r : ListenResult} (h : w.listen loop r = some w') :
    Opens loop w w' (Core.Act.opens (.listen r)) := by
  -- the number is closed as it was opened
  have closes : ∀ fd, w.Free fd → ∀ opens : World, opens = { w.newSock {} with
      table := Function.update w.table fd (some w.nextSock) } →
      Opens loop w (opens.closeFd w.nextSock fd) none := by
    rintro fd free opens rfl
    refine .flash w.nextSock ?_ rfl rfl ?_
    · simp only [closeFd, Function.update_idem]
      exact Function.update_eq_self_iff.mpr free.2.symm
    · simp [closeFd, newSock]
  cases r with
  | socketFails errno => cases h; exact .same _ (Same.refl _)
  | bindFails fd errno =>
      simp only [listen] at h
      split at h
      · next free => cases h; exact closes fd free _ rfl
      · cases h
  | listenFails fd errno =>
      simp only [listen] at h
      split at h
      · next free => cases h; exact closes fd free _ rfl
      · cases h
  | ok fd =>
      simp only [listen] at h
      split at h
      · next free => cases h; exact .opened .server fd _ free (Or.inl rfl) (same_install_openObj ..)
      · cases h

theorem Same.install {role : Role} {loop : Nat} {fd : Fd} {k : KSock} (h : Same w w') :
    Same (w.install role loop fd k) (w'.install role loop fd k) := by
  constructor <;> simp [World.install, h.table, h.obj, h.nextObj, h.closes]

end World

namespace Core

variable {c c' : Core}

theorem world_tearDown (c : Core) (r : Nat) : (c.tearDown r).world = c.world := by
  have rounds : ∀ (ns : List Nat) (d : Core), (ns.foldl tearDownOne d).world = d.world := by
    intro ns
    induction ns with
    | nil => intro d; rfl
    | cons n ns ih => intro d; exact ih _
  rw [tearDown]
  split
  · rfl
  · exact rounds _ _

theorem world_signalOne {r : Nat} {arg : SignalArg} (h : c.signalOne r arg = some c') :
    c'.world = c.world := by
  rw [signalOne] at h
  split at h
  · cases h
  · dsimp only at h
    split at h <;> cases h <;> rfl

theorem world_signalStream {args : List SignalArg} (h : c.signalStream args = some c') :
    c'.world = c.world :=
  signalStream_induct (P := fun d => d.world = c.world) h rfl
    (fun _ _ _ _ eq hs => (world_signalOne hs).trans eq)

theorem world_schedule (c : Core) (n : Nat) (kind : Kind) (duration : Duration) (nomem : Bool)
    (env : Base.AddEnv) (now : Timeval) :
    (c.schedule n kind duration nomem env now).world = c.world := by
  simp only [schedule]
  split
  · rfl
  · split
    · split <;> rfl
    · rfl

theorem same_send (w : World) (k : KSock) (bytes : List UInt8) : World.Same w (send w k bytes) := by
  unfold send
  split
  · exact World.same_setSock _ _ _
  · exact World.Same.refl _

theorem opens_callbackBody {w : World} {loop : Nat} {call : Call} {fd : Fd} {res : Evs}
    {r : SysResult} {fx : Effect} (h : callbackBody w loop call fd res r = some fx) :
    World.Opens loop w fx.world (Act.opens (.callback r)) := by
  cases callbackBody_cases h with
  | bytes k n kind notDue used some_ fits there => exact .same _ (World.same_setSock _ _ _)
  | wrote k n data kind notDue used part established => exact .same _ (same_send _ _ _)
  | accepts k clientFd client rest kind used backlog free listening =>
      exact .opened .socket _ _ free (Or.inr ⟨_, by rw [backlog]; simp⟩)
        (World.same_setSock _ _ _).install
  | _ => exact .same _ (World.Same.refl _)

/-- What starting a call does to descriptors and objects. -/
theorem Starts.opens {kind : Kind} {o : Nat} {fd : Fd} {events : Evs} {w : World} {a : Act}
    (h : c.Starts kind o fd events w)
    (number : ∀ address, kind = .connect address → a.opens = some fd) :
    World.Opens c.loop.self c.world w a.opens := by
  cases h with
  | connect address fd free inet =>
      rw [number address rfl]
      exact .opened .socket fd _ free (Or.inl rfl) (World.same_install_openObj ..)
  | _ => exact .same _ (World.Same.refl _)

/-- What a `connect` that is decided at once does to descriptors and objects. -/
theorem Answers.opens {address : SocketAddress} {r : ConnectResult} {call : Call} {w : World}
    {n : Nat} {timeout : Option Duration} {env : Base.AddEnv} {now : Timeval}
    (h : c.Answers address r call w) :
    World.Opens c.loop.self c.world w (Act.opens (.connect n address r timeout env now)) := by
  cases h with
  | socketFails errno => exact .same _ (World.Same.refl _)
  | ok fd listener w free inet hw =>
      exact .opened .socket fd _ free (Or.inl rfl)
        ((World.same_install_openObj ..).trans (World.same_conclude hw))
  | fails fd errno w free ne hw =>
      exact .opened .socket fd _ free (Or.inl rfl)
        ((World.same_install_openObj ..).trans (World.same_conclude hw))

/-- **What a step of a loop does to descriptors and objects**, by its label. -/
theorem step_opens {a : Act} (h : c.step a = some c') :
    World.Opens c.loop.self c.world c'.world a.opens ∨ (∃ o, a = .close o ∧ c.world.close o = some c'.world) ∨
      (∃ o, a = .deinit o ∧ c.Deinits o ∧ c.world.deinit o = some c'.world) ∨
      a = .free ∧ c.world.deinit c.loop.pipe = some c'.world := by
  cases step_cases h with
  | listen r w hw => exact Or.inl (World.opens_listen hw)
  | kernel act w hw => exact Or.inl (.same _ (World.same_kernel hw))
  | close o w hw => exact Or.inr (Or.inl ⟨o, rfl, hw⟩)
  | deinit o w may hw => exact Or.inr (Or.inr (Or.inl ⟨o, rfl, may, hw⟩))
  | answer n address r timeout env now call w alive new ans => exact Or.inl ans.opens
  | start _ drives n kind o fd events w timeout env now alive new starts accept opens target =>
      exact Or.inl (starts.opens opens)
  | schedule n sleeps duration nomem env now alive new =>
      rw [world_schedule]
      exact Or.inl (.same _ (World.Same.refl _))
  | signalStream args c' alive hc =>
      rw [world_signalStream hc]
      exact Or.inl (.same _ (World.Same.refl _))
  | tearDown r alive opened =>
      rw [world_tearDown]
      exact Or.inl (.same _ (World.Same.refl _))
  | free w alive torn hw => exact Or.inr (Or.inr (Or.inr ⟨rfl, hw⟩))
  | fire r n rest fx alive quiet queue signal body => exact Or.inl (opens_callbackBody body)
  | _ => exact Or.inl (.same _ (World.Same.refl _))

theorem step_world {a : Act} (h : c.step a = some c') :
    World.Moves c.world c'.world a.opens := by
  rcases step_opens h with opens | ⟨o, rfl, hw⟩ | ⟨o, rfl, -, hw⟩ | ⟨rfl, hw⟩
  · exact .opens _ _ opens
  · exact .closed o hw
  · exact .deinit o hw
  · exact .deinit _ hw

end Core

end SwiftEvent
