import SwiftEvent.Library.Pipes
import SwiftEvent.Process

/-!
# The streams between the sockets of a process

The kernel's side of byte-stream integrity: what the process has sent on a
socket and received from it, against what waits in the receive queues.  Two
sockets of the process that are connected to each other are linked endpoints of
`Pipes`; a peer outside feeds an endpoint that is linked to none.

`Streams w sent received` is kept by everything the kernel does, and by every
system call with `sent` and `received` changed accordingly.  Besides the balance
itself it keeps what makes a socket belong to one object: a connection that waits
on a backlog has no object yet, and no two objects share a socket.
-/

namespace SwiftEvent.World

/-- **The process, its streams so far, and who owns which socket.** -/
structure Streams (w : World) (sent received : KSock → List UInt8) : Prop where
  table : ∀ fd k, w.table fd = some k → k < w.nextSock
  fresh : ∀ k, w.nextSock ≤ k → w.sock k = {}
  owned : ∀ o x, w.obj o = some x → x.sock < w.nextSock
  apart : ∀ o o' x x', w.obj o = some x → w.obj o' = some x' → x.sock = x'.sock → o = o'
  /-- A connection on a backlog is unused. -/
  pending : ∀ s k, k ∈ (w.sock s).backlog → k < w.nextSock ∧ sent k = [] ∧ received k = [] ∧
    ∀ o x, w.obj o = some x → x.sock ≠ k
  nodup : ∀ s, (w.sock s).backlog.Nodup
  once : ∀ s s' k, k ∈ (w.sock s).backlog → k ∈ (w.sock s').backlog → s = s'
  pipes : Pipes.Balanced (fun k => (w.sock k).peer) (fun k => (w.sock k).rx) sent received
  /-- Nothing passes over a socket that is not connected. -/
  silent : ∀ k, (w.sock k).conn ≠ .established →
    sent k = [] ∧ received k = [] ∧ (w.sock k).rx = [] ∧ (w.sock k).peer = none

variable {w w' : World} {sent received : KSock → List UInt8} {k : KSock}

theorem peer_setSock (w : World) (k : KSock) (s : Sock) :
    (fun j => ((w.setSock k s).sock j).peer) =
      Function.update (fun j => (w.sock j).peer) k s.peer := by
  funext j
  by_cases eq : j = k
  · subst eq; simp [setSock]
  · simp [setSock, eq]

theorem rx_setSock (w : World) (k : KSock) (s : Sock) :
    (fun j => ((w.setSock k s).sock j).rx) =
      Function.update (fun j => (w.sock j).rx) k s.rx := by
  funext j
  by_cases eq : j = k
  · subst eq; simp [setSock]
  · simp [setSock, eq]

namespace Streams

theorem init (endian : Endian) : Streams (World.init endian) (fun _ => []) (fun _ => []) := by
  constructor <;> simp [World.init]
  constructor <;> simp

/-- Descriptors and objects change, sockets do not. -/
theorem objects (h : w.Streams sent received) (sock : w'.sock = w.sock)
    (nextSock : w'.nextSock = w.nextSock)
    (table : ∀ fd k, w'.table fd = some k → k < w.nextSock)
    (obj : ∀ o x, w'.obj o = some x → x.sock < w.nextSock ∧ ∀ s, x.sock ∉ (w.sock s).backlog)
    (apart : ∀ o o' x x', w'.obj o = some x → w'.obj o' = some x' → x.sock = x'.sock → o = o') :
    w'.Streams sent received where
  table := by rw [nextSock]; exact table
  fresh := by rw [nextSock, sock]; exact h.fresh
  owned o x hx := by rw [nextSock]; exact (obj o x hx).1
  apart := apart
  pending s k mem := by
    rw [sock] at mem
    obtain ⟨lt, none, none', -⟩ := h.pending s k mem
    refine ⟨by rw [nextSock]; exact lt, none, none', fun o x hx eq => ?_⟩
    exact (obj o x hx).2 s (eq ▸ mem)
  nodup := by rw [sock]; exact h.nodup
  once := by rw [sock]; exact h.once
  pipes := by rw [sock]; exact h.pipes
  silent := by rw [sock]; exact h.silent

/-- The number of an object, or an object, is gone. -/
theorem dropped (h : w.Streams sent received) (sock : w'.sock = w.sock)
    (nextSock : w'.nextSock = w.nextSock)
    (table : ∀ fd k, w'.table fd = some k → w.table fd = some k)
    (obj : ∀ o x, w'.obj o = some x → w.obj o = some x) : w'.Streams sent received :=
  h.objects sock nextSock (fun fd k used => h.table fd k (table fd k used))
    (fun o x hx => ⟨h.owned o x (obj o x hx), fun s mem =>
      (h.pending s _ mem).2.2.2 o x (obj o x hx) rfl⟩)
    (fun o o' x x' hx hx' => h.apart o o' x x' (obj o x hx) (obj o' x' hx'))

theorem deinit (h : w.Streams sent received) {o : Nat} (hw : w.deinit o = some w') :
    w'.Streams sent received := by
  unfold World.deinit at hw
  split at hw
  · next x hx =>
      cases hw
      refine h.dropped rfl rfl (fun fd k used => ?_) (fun o' x' hx' => ?_)
      · simp only [closeFd] at used
        by_cases eq : fd = x.fd
        · subst eq; simp at used
        · rwa [Function.update_of_ne eq] at used
      · simp only at hx'
        by_cases eq : o' = o
        · subst eq; simp at hx'
        · rwa [Function.update_of_ne eq] at hx'
  · cases hw

/-- A number is handed to a new object for a socket that has none and waits on no
backlog. -/
theorem install (h : w.Streams sent received) {role : Role} {loop : Nat} {fd : Fd}
    (old : k < w.nextSock) (unowned : ∀ o x, w.obj o = some x → x.sock ≠ k)
    (waits : ∀ s, k ∉ (w.sock s).backlog) :
    (w.install role loop fd k).Streams sent received := by
  refine h.objects rfl rfl (fun fd' k' used => ?_) (fun o x hx => ?_) (fun o o' x x' hx hx' same => ?_)
  · simp only [World.install] at used
    by_cases eq : fd' = fd
    · subst eq
      rw [Function.update_self, Option.some.injEq] at used
      exact used ▸ old
    · rw [Function.update_of_ne eq] at used
      exact h.table fd' k' used
  · simp only [World.install] at hx
    by_cases eq : o = w.nextObj
    · subst eq
      rw [Function.update_self, Option.some.injEq] at hx
      subst hx
      exact ⟨old, waits⟩
    · rw [Function.update_of_ne eq] at hx
      exact ⟨h.owned o x hx, fun s mem => (h.pending s _ mem).2.2.2 o x hx rfl⟩
  · simp only [World.install] at hx hx'
    by_cases eq : o = w.nextObj <;> by_cases eq' : o' = w.nextObj
    · rw [eq, eq']
    · subst eq
      rw [Function.update_self, Option.some.injEq] at hx
      rw [Function.update_of_ne eq'] at hx'
      subst hx
      exact absurd same.symm (unowned o' x' hx')
    · subst eq'
      rw [Function.update_self, Option.some.injEq] at hx'
      rw [Function.update_of_ne eq] at hx
      subst hx'
      exact absurd same (unowned o x hx)
    · rw [Function.update_of_ne eq] at hx
      rw [Function.update_of_ne eq'] at hx'
      exact h.apart o o' x x' hx hx' same

/-- A socket is created. -/
theorem newSock (h : w.Streams sent received) {s : Sock} (rx : s.rx = []) (peer : s.peer = none) (backlog : s.backlog = []) :
    (w.newSock s).Streams sent received := by
  have default : w.sock w.nextSock = {} := h.fresh _ (Nat.le_refl _)
  have sock : ∀ j, ((w.newSock s).sock j).backlog = (w.sock j).backlog ∧
      ((w.newSock s).sock j).rx = (w.sock j).rx ∧ ((w.newSock s).sock j).peer = (w.sock j).peer := by
    intro j
    by_cases eq : j = w.nextSock
    · subst eq; simp [World.newSock, default, rx, peer, backlog]
    · simp [World.newSock, eq]
  refine ⟨fun fd k used => Nat.lt_succ_of_lt (h.table fd k used), fun k le => ?_,
    fun o x hx => Nat.lt_succ_of_lt (h.owned o x hx), h.apart, fun s' k mem => ?_, fun s' => ?_,
    fun s₁ s₂ k => ?_, ?_, fun k notConn => ?_⟩
  · have le : w.nextSock + 1 ≤ k := le
    simp only [World.newSock]
    rw [Function.update_of_ne (Nat.ne_of_gt le)]
    exact h.fresh k (Nat.le_of_succ_le le)
  · rw [(sock s').1] at mem
    obtain ⟨lt, rest⟩ := h.pending s' k mem
    exact ⟨Nat.lt_succ_of_lt lt, rest⟩
  · rw [(sock s').1]; exact h.nodup s'
  · rw [(sock s₁).1, (sock s₂).1]; exact h.once s₁ s₂ k
  · have peers : (fun j => ((w.newSock s).sock j).peer) = fun j => (w.sock j).peer :=
      funext fun j => (sock j).2.2
    have queues : (fun j => ((w.newSock s).sock j).rx) = fun j => (w.sock j).rx :=
      funext fun j => (sock j).2.1
    rw [peers, queues]
    exact h.pipes
  · rw [(sock k).2.1, (sock k).2.2]
    refine h.silent k ?_
    by_cases eq : k = w.nextSock
    · subst eq; simp [default]
    · simpa [World.newSock, eq] using notConn

/-- A new socket with its object. -/
theorem openObj (h : w.Streams sent received) {s : Sock} (rx : s.rx = []) (peer : s.peer = none)
    (backlog : s.backlog = []) {role : Role} {loop : Nat} {fd : Fd} :
    (w.openObj role loop fd s).Streams sent received := by
  have created := h.newSock rx peer backlog
  refine created.install (Nat.lt_succ_self _) (fun o x hx eq => ?_) (fun s' mem => ?_)
  · exact Nat.lt_irrefl _ (eq ▸ h.owned o x hx)
  · have := (h.pending s' w.nextSock (by
      by_cases eq : s' = w.nextSock
      · subst eq; simp [World.newSock, backlog] at mem
      · simpa [World.newSock, eq] using mem)).1
    exact Nat.lt_irrefl _ this

/-- A socket changes in a way that no stream sees. -/
theorem setSock (h : w.Streams sent received) (old : k < w.nextSock) {s : Sock}
    (rx : s.rx = (w.sock k).rx) (peer : s.peer = (w.sock k).peer)
    (backlog : s.backlog.Sublist (w.sock k).backlog)
    (conn : (w.sock k).conn = .established → s.conn = .established) :
    (w.setSock k s).Streams sent received := by
  have sub : ∀ j, ((w.setSock k s).sock j).backlog.Sublist (w.sock j).backlog := by
    intro j
    by_cases eq : j = k
    · subst eq; simpa [World.setSock] using backlog
    · simp [World.setSock, eq]
  have same : ∀ j, ((w.setSock k s).sock j).rx = (w.sock j).rx ∧
      ((w.setSock k s).sock j).peer = (w.sock j).peer ∧
      ((w.sock j).conn = .established → ((w.setSock k s).sock j).conn = .established) := by
    intro j
    by_cases eq : j = k
    · subst eq; simpa [World.setSock] using ⟨rx, peer, conn⟩
    · simp [World.setSock, eq]
  refine ⟨h.table, fun j le => ?_, h.owned, h.apart, fun s' j mem => h.pending s' j ((sub s').subset mem),
    fun s' => (sub s').nodup (h.nodup s'),
    fun s₁ s₂ j m₁ m₂ => h.once s₁ s₂ j ((sub s₁).subset m₁) ((sub s₂).subset m₂), ?_,
    fun j notConn => ?_⟩
  · have le : w.nextSock ≤ j := le
    simp only [World.setSock]
    rw [Function.update_of_ne (Nat.ne_of_gt (Nat.lt_of_lt_of_le old le))]
    exact h.fresh j le
  · rw [show (fun j => ((w.setSock k s).sock j).peer) = fun j => (w.sock j).peer from
        funext fun j => (same j).2.1,
      show (fun j => ((w.setSock k s).sock j).rx) = fun j => (w.sock j).rx from
        funext fun j => (same j).1]
    exact h.pipes
  · rw [(same j).1, (same j).2.1]
    exact h.silent j fun est => notConn ((same j).2.2 est)

/-- Only a socket that was created listens or connects. -/
theorem old (h : w.Streams sent received) (used : (w.sock k).conn ≠ .unconnected) :
    k < w.nextSock := by
  by_contra le
  rw [h.fresh k (Nat.le_of_not_lt le)] at used
  exact used rfl

/-- The receive queue of a connected socket changes, and the books with it. -/
theorem queue (h : w.Streams sent received) (old : k < w.nextSock)
    (est : (w.sock k).conn = .established) {rx : List UInt8} {sent' received' : KSock → List UInt8}
    (pipes : Pipes.Balanced (fun j => (w.sock j).peer)
      (Function.update (fun j => (w.sock j).rx) k rx) sent' received')
    (same : ∀ j, sent' j = sent j ∧ received' j = received j ∨
      (w.sock j).conn = .established ∧ ∀ s, j ∉ (w.sock s).backlog) :
    (w.setSock k { w.sock k with rx }).Streams sent' received' := by
  have backlog : ∀ j, ((w.setSock k { w.sock k with rx }).sock j).backlog = (w.sock j).backlog := by
    intro j
    by_cases eq : j = k
    · subst eq; simp [World.setSock]
    · simp [World.setSock, eq]
  refine ⟨h.table, fun j le => ?_, h.owned, h.apart, fun s j mem => ?_, fun s => ?_,
    fun s₁ s₂ j => ?_, ?_, fun j notConn => ?_⟩
  · have le : w.nextSock ≤ j := le
    simp only [World.setSock]
    rw [Function.update_of_ne (Nat.ne_of_gt (Nat.lt_of_lt_of_le old le))]
    exact h.fresh j le
  · rw [backlog] at mem
    obtain ⟨lt, unsent, unreceived, unowned⟩ := h.pending s j mem
    rcases same j with ⟨eq, eq'⟩ | ⟨-, notPending⟩
    · exact ⟨lt, eq.trans unsent, eq'.trans unreceived, unowned⟩
    · exact absurd mem (notPending s)
  · rw [backlog]; exact h.nodup s
  · rw [backlog, backlog]; exact h.once s₁ s₂ j
  · rw [peer_setSock, rx_setSock]
    have unchanged : Function.update (fun j => (w.sock j).peer) k (w.sock k).peer =
        fun j => (w.sock j).peer := Function.update_eq_self k (fun j => (w.sock j).peer)
    rw [unchanged]
    exact pipes
  · have ne : j ≠ k := by
      rintro rfl
      simp [World.setSock, est] at notConn
    simp only [World.setSock, Function.update_of_ne ne] at notConn ⊢
    obtain ⟨unsent, unreceived, rest⟩ := h.silent j notConn
    rcases same j with ⟨eq, eq'⟩ | ⟨est, -⟩
    · exact ⟨eq.trans unsent, eq'.trans unreceived, rest⟩
    · exact absurd est notConn

/-- Bytes arrive from outside. -/
theorem feed (h : w.Streams sent received) (old : k < w.nextSock)
    (est : (w.sock k).conn = .established) (alone : (w.sock k).peer = none) (bytes : List UInt8) :
    (w.setSock k { w.sock k with rx := (w.sock k).rx ++ bytes }).Streams sent received :=
  h.queue old est (h.pipes.feed alone _) fun _ => Or.inl ⟨rfl, rfl⟩

/-- A `read(2)` takes the first bytes of the queue of a socket with an object. -/
theorem pop (h : w.Streams sent received) {o : Nat} {x : Obj} (hx : w.obj o = some x) {n : Nat}
    (some : 1 ≤ n ∧ n ≤ (w.sock x.sock).rx.length) :
    (w.setSock x.sock { w.sock x.sock with rx := (w.sock x.sock).rx.drop n }).Streams sent
      (Function.update received x.sock (received x.sock ++ (w.sock x.sock).rx.take n)) := by
  have est : (w.sock x.sock).conn = .established := by
    by_contra notConn
    rw [(h.silent _ notConn).2.2.1] at some
    exact absurd (Nat.le_trans some.1 some.2) (by simp)
  refine h.queue (h.owned o x hx) est (h.pipes.pop x.sock n) fun j => ?_
  by_cases eq : j = x.sock
  · subst eq
    exact Or.inr ⟨est, fun s mem => (h.pending s _ mem).2.2.2 o x hx rfl⟩
  · exact Or.inl ⟨rfl, Function.update_of_ne eq _ _⟩

/-- A `write(2)` on a connected socket with an object. -/
theorem send (h : w.Streams sent received) {o : Nat} {x : Obj} (hx : w.obj o = some x)
    (est : (w.sock x.sock).conn = .established) (bytes : List UInt8) :
    (Core.send w x.sock bytes).Streams
      (Function.update sent x.sock (sent x.sock ++ bytes)) received := by
  have same : ∀ j, Function.update sent x.sock (sent x.sock ++ bytes) j = sent j ∧
      received j = received j ∨
      (w.sock j).conn = .established ∧ ∀ s, j ∉ (w.sock s).backlog := by
    intro j
    by_cases eq : j = x.sock
    · subst eq
      exact Or.inr ⟨est, fun s mem => (h.pending s _ mem).2.2.2 o x hx rfl⟩
    · exact Or.inl ⟨Function.update_of_ne eq _ _, rfl⟩
  unfold Core.send
  split
  · next p linked =>
      have back : (w.sock p).peer = some x.sock := h.pipes.symm x.sock p linked
      have est' : (w.sock p).conn = .established := by
        by_contra notConn
        rw [(h.silent p notConn).2.2.2] at back
        cases back
      have old : p < w.nextSock := h.old (by simp [est'])
      exact h.queue old est' (h.pipes.push linked bytes) same
  · next alone =>
      have unchanged : w.setSock x.sock { w.sock x.sock with rx := (w.sock x.sock).rx } = w := by
        simp [World.setSock]
      have pipes : Pipes.Balanced (fun j => (w.sock j).peer)
          (Function.update (fun j => (w.sock j).rx) x.sock (w.sock x.sock).rx)
          (Function.update sent x.sock (sent x.sock ++ bytes)) received := by
        rw [Function.update_eq_self x.sock (fun j => (w.sock j).rx)]
        exact h.pipes.push_outside alone (sent x.sock ++ bytes)
      have queued := h.queue (h.owned o x hx) est pipes same
      rwa [unchanged] at queued

/-- An unused connection joins a backlog. -/
theorem enqueue (h : w.Streams sent received) {listener : KSock} (old : listener < w.nextSock)
    (new : k < w.nextSock) (unused : sent k = [] ∧ received k = [])
    (unowned : ∀ o x, w.obj o = some x → x.sock ≠ k) (waits : ∀ s, k ∉ (w.sock s).backlog)
    {s : Sock}
    (hs : s = { w.sock listener with backlog := (w.sock listener).backlog ++ [k] }) :
    (w.setSock listener s).Streams sent received := by
  subst hs
  generalize hv : w.setSock listener
    { w.sock listener with backlog := (w.sock listener).backlog ++ [k] } = v
  have sock : ∀ j, j ≠ listener → v.sock j = w.sock j := by
    intro j ne
    simp [← hv, World.setSock, ne]
  have own : v.sock listener =
      { w.sock listener with backlog := (w.sock listener).backlog ++ [k] } := by
    simp [← hv, World.setSock]
  have obj : v.obj = w.obj := by rw [← hv]; rfl
  have next : v.nextSock = w.nextSock := by rw [← hv]; rfl
  have table : v.table = w.table := by rw [← hv]; rfl
  have mem : ∀ {s j}, j ∈ (v.sock s).backlog → j ∈ (w.sock s).backlog ∨ s = listener ∧ j = k := by
    intro s j mem
    by_cases eq : s = listener
    · rw [eq, own] at mem
      simpa [eq] using mem
    · rw [sock s eq] at mem
      exact Or.inl mem
  have same : ∀ j, (v.sock j).rx = (w.sock j).rx ∧ (v.sock j).peer = (w.sock j).peer ∧
      (v.sock j).conn = (w.sock j).conn := by
    intro j
    by_cases eq : j = listener
    · rw [eq, own]; exact ⟨rfl, rfl, rfl⟩
    · rw [sock j eq]; exact ⟨rfl, rfl, rfl⟩
  refine ⟨by rw [table, next]; exact h.table, fun j le => ?_, by rw [obj, next]; exact h.owned,
    by rw [obj]; exact h.apart, fun s j m => ?_, fun s => ?_, fun s₁ s₂ j m₁ m₂ => ?_, ?_,
    fun j notConn => ?_⟩
  · rw [next] at le
    rw [sock j (Nat.ne_of_gt (Nat.lt_of_lt_of_le old le))]
    exact h.fresh j le
  · rw [next, obj]
    rcases mem m with m | ⟨-, rfl⟩
    · exact h.pending s j m
    · exact ⟨new, unused.1, unused.2, unowned⟩
  · by_cases eq : s = listener
    · rw [eq, own]
      exact List.nodup_append'.mpr ⟨h.nodup listener, List.nodup_singleton _,
        List.disjoint_singleton.mpr (waits listener)⟩
    · rw [sock s eq]; exact h.nodup s
  · rcases mem m₁ with m₁ | ⟨e₁, rfl⟩
    · rcases mem m₂ with m₂ | ⟨-, rfl⟩
      · exact h.once s₁ s₂ j m₁ m₂
      · exact absurd m₁ (waits s₁)
    · rcases mem m₂ with m₂ | ⟨e₂, -⟩
      · exact absurd m₂ (waits s₂)
      · rw [e₁, e₂]
  · rw [show (fun j => (v.sock j).peer) = fun j => (w.sock j).peer from
        funext fun j => (same j).2.1,
      show (fun j => (v.sock j).rx) = fun j => (w.sock j).rx from funext fun j => (same j).1]
    exact h.pipes
  · rw [(same j).1, (same j).2.1]
    exact h.silent j ((same j).2.2 ▸ notConn)

/-- Two sockets of the process are connected to each other. -/
theorem link (h : w.Streams sent received) {k' : KSock} (ne : k ≠ k') (old : k < w.nextSock)
    (old' : k' < w.nextSock) (conn : (w.sock k).conn ≠ .established)
    (conn' : (w.sock k').conn ≠ .established) :
    ((w.setSock k { w.sock k with conn := .established, peer := some k' }).setSock k'
      { w.sock k' with conn := .established, peer := some k }).Streams sent received := by
  have silent := h.silent k conn
  have silent' := h.silent k' conn'
  generalize hv : (w.setSock k { w.sock k with conn := .established, peer := some k' }).setSock k'
    { w.sock k' with conn := .established, peer := some k } = v
  have peers : (fun j => (v.sock j).peer) = Function.update (Function.update
      (fun j => (w.sock j).peer) k (some k')) k' (some k) := by
    rw [← hv, peer_setSock, peer_setSock]
  have same : ∀ j, (v.sock j).rx = (w.sock j).rx ∧ (v.sock j).backlog = (w.sock j).backlog := by
    intro j
    by_cases eq' : j = k'
    · subst eq'; simp [← hv, World.setSock]
    · by_cases eq : j = k
      · subst eq; simp [← hv, World.setSock, eq']
      · simp [← hv, World.setSock, eq, eq']
  have obj : v.obj = w.obj := by rw [← hv]; rfl
  have next : v.nextSock = w.nextSock := by rw [← hv]; rfl
  have table : v.table = w.table := by rw [← hv]; rfl
  have linked := h.pipes.link ne silent.2.2.2 silent'.2.2.2 ⟨silent.1, silent.2.1, silent.2.2.1⟩
    ⟨silent'.1, silent'.2.1, silent'.2.2.1⟩
  refine ⟨by rw [table, next]; exact h.table, fun j le => ?_, by rw [obj, next]; exact h.owned,
    by rw [obj]; exact h.apart, fun s j m => ?_, fun s => ?_, fun s₁ s₂ j m₁ m₂ => ?_, ?_,
    fun j notConn => ?_⟩
  · rw [next] at le
    have ne₁ : j ≠ k := Nat.ne_of_gt (Nat.lt_of_lt_of_le old le)
    have ne₂ : j ≠ k' := Nat.ne_of_gt (Nat.lt_of_lt_of_le old' le)
    rw [← h.fresh j le, ← hv]
    simp [World.setSock, ne₁, ne₂]
  · rw [next, obj]
    rw [(same s).2] at m
    exact h.pending s j m
  · rw [(same s).2]; exact h.nodup s
  · rw [(same _).2] at m₁ m₂
    exact h.once s₁ s₂ j m₁ m₂
  · rw [peers, show (fun j => (v.sock j).rx) = fun j => (w.sock j).rx from
      funext fun j => (same j).1]
    exact linked
  · have ne₂ : j ≠ k' := by
      rintro rfl
      simp [← hv, World.setSock] at notConn
    have ne₁ : j ≠ k := by
      rintro rfl
      simp [← hv, World.setSock, ne₂] at notConn
    have unchanged : v.sock j = w.sock j := by simp [← hv, World.setSock, ne₁, ne₂]
    rw [unchanged] at notConn ⊢
    exact h.silent j notConn

/-- What the number that is handed out next stands for so far. -/
theorem next (h : w.Streams sent received) :
    sent w.nextSock = [] ∧ received w.nextSock = [] ∧
      (∀ o x, w.obj o = some x → x.sock ≠ w.nextSock) ∧ ∀ s, w.nextSock ∉ (w.sock s).backlog := by
  obtain ⟨silent, silent', -⟩ := h.silent w.nextSock (by simp [h.fresh _ (Nat.le_refl _)])
  exact ⟨silent, silent', fun o x hx eq => Nat.lt_irrefl _ (eq ▸ h.owned o x hx),
    fun s mem => Nat.lt_irrefl _ (h.pending s _ mem).1⟩

/-- A listener gets a connection from outside. -/
theorem incoming (h : w.Streams sent received) {listener : KSock}
    (listening : (w.sock listener).conn = .listening) :
    ((w.setSock listener { w.sock listener with
        backlog := (w.sock listener).backlog ++ [w.nextSock] }).newSock
      { conn := .established }).Streams sent received := by
  have old : listener < w.nextSock := h.old (by simp [listening])
  have ne : listener ≠ w.nextSock := Nat.ne_of_lt old
  obtain ⟨unsent, unreceived, unowned, notPending⟩ := h.next
  have created := h.newSock (s := { conn := .established }) rfl rfl rfl
  have swap : ((w.setSock listener { w.sock listener with
        backlog := (w.sock listener).backlog ++ [w.nextSock] }).newSock { conn := .established }) =
      (w.newSock { conn := .established }).setSock listener { w.sock listener with
        backlog := (w.sock listener).backlog ++ [w.nextSock] } := by
    simp only [World.newSock, World.setSock]
    rw [Function.update_comm ne]
  rw [swap]
  refine created.enqueue (k := w.nextSock) (Nat.lt_succ_of_lt old) (Nat.lt_succ_self _)
    ⟨unsent, unreceived⟩ unowned (fun s mem => ?_) (by simp [World.newSock, ne])
  by_cases eq : s = w.nextSock
  · subst eq; simp [World.newSock] at mem
  · exact notPending s (by simpa [World.newSock, eq] using mem)

theorem conclude (h : w.Streams sent received) {verdict : Verdict}
    (hw : w.conclude k verdict = some w') : w'.Streams sent received := by
  obtain ⟨connecting, ⟨errno, -, rfl⟩ | ⟨-, rfl⟩ | ⟨listener, -, apart, listening, rfl⟩⟩ :=
    conclude_cases hw
  · have old : k < w.nextSock := h.old (by simp [connecting])
    exact h.setSock old rfl rfl (List.Sublist.refl _) (by simp [connecting])
  · have old : k < w.nextSock := h.old (by simp [connecting])
    exact h.setSock old rfl rfl (List.Sublist.refl _) (by simp)
  · have old : k < w.nextSock := h.old (by simp [connecting])
    have old' : listener < w.nextSock := h.old (by simp [listening])
    have ne : k ≠ w.nextSock := Nat.ne_of_lt old
    have ne' : listener ≠ w.nextSock := Nat.ne_of_lt old'
    obtain ⟨unsent, unreceived, unowned, notPending⟩ := h.next
    -- create the other end, connect the two, queue it at the listener
    have created := h.newSock (s := {}) rfl rfl rfl
    have linked := created.link ne (Nat.lt_succ_of_lt old)
      (Nat.lt_succ_self _) (by simp [World.newSock, ne, connecting]) (by simp [World.newSock])
    have queued := linked.enqueue (k := w.nextSock)
      (s := { w.sock listener with backlog := (w.sock listener).backlog ++ [w.nextSock] })
      (Nat.lt_succ_of_lt old') (Nat.lt_succ_self _) ⟨unsent, unreceived⟩ unowned
      (fun s mem => by
        by_cases eq : s = w.nextSock
        · subst eq; simp [World.newSock, World.setSock] at mem
        · by_cases eq' : s = k
          · subst eq'
            exact notPending s (by simpa [World.newSock, World.setSock, eq] using mem)
          · exact notPending s (by simpa [World.newSock, World.setSock, eq, eq'] using mem))
      (by simp [World.newSock, World.setSock, ne', apart])
    have order : (((w.newSock {}).setSock k
        { (w.newSock {}).sock k with conn := .established, peer := some w.nextSock }).setSock
          w.nextSock { (w.newSock {}).sock w.nextSock with
            conn := .established, peer := some k }).setSock listener
          { w.sock listener with backlog := (w.sock listener).backlog ++ [w.nextSock] } =
        ((w.setSock k { w.sock k with conn := .established, peer := some w.nextSock }).setSock
          listener { w.sock listener with
            backlog := (w.sock listener).backlog ++ [w.nextSock] }).newSock
          { conn := .established, peer := some k } := by
      simp only [World.newSock, World.setSock, mk.injEq, and_true, true_and]
      funext j
      by_cases eq : j = w.nextSock
      · subst eq; simp [Ne.symm ne']
      · by_cases eq' : j = listener
        · subst eq'; simp [eq]
        · by_cases eq'' : j = k
          · subst eq''; simp [eq, eq']
          · simp [eq, eq', eq'']
    rw [← order]
    exact queued

theorem kernel (h : w.Streams sent received) {act : KernelAct} (hw : w.kernel act = some w') :
    w'.Streams sent received := by
  cases act with
  | conclude k verdict => exact h.conclude hw
  | arrive k bytes =>
      simp only [World.kernel] at hw
      split at hw
      · next may => cases hw; exact h.feed may.1 may.2.1 may.2.2 bytes
      · cases hw
  | hangup k =>
      simp only [World.kernel] at hw
      split at hw
      · next old =>
          cases hw
          exact h.setSock old rfl rfl (List.Sublist.refl _) (fun est => est)
      · cases hw
  | incoming k =>
      simp only [World.kernel] at hw
      split at hw
      · next listening => cases hw; exact h.incoming listening
      · cases hw
  | abort k i =>
      simp only [World.kernel] at hw
      split at hw
      · next listening =>
          cases hw
          exact h.setSock (h.old (by simp [listening])) rfl rfl (List.eraseIdx_sublist _ _)
            (fun est => est)
      · cases hw

theorem listen (h : w.Streams sent received) {loop : Nat} {r : ListenResult}
    (hw : w.listen loop r = some w') : w'.Streams sent received := by
  have closes : ∀ fd, w.Free fd → ∀ opened : World, opened = { w.newSock {} with
      table := Function.update w.table fd (some w.nextSock) } →
      (opened.closeFd w.nextSock fd).Streams sent received := by
    rintro fd free opened rfl
    refine (h.newSock (s := {}) rfl rfl rfl).dropped rfl rfl (fun fd' k used => ?_)
      (fun _ _ hx => hx)
    by_cases eq : fd' = fd
    · subst eq; simp [closeFd] at used
    · simpa [closeFd, eq, World.newSock] using used
  cases r with
  | socketFails errno => cases hw; exact h
  | bindFails fd errno =>
      simp only [World.listen] at hw
      split at hw
      · next free => cases hw; exact closes fd free _ rfl
      · cases hw
  | listenFails fd errno =>
      simp only [World.listen] at hw
      split at hw
      · next free => cases hw; exact closes fd free _ rfl
      · cases hw
  | ok fd =>
      simp only [World.listen] at hw
      split at hw
      · cases hw; exact h.openObj rfl rfl rfl
      · cases hw

/-- An `accept(2)` takes the first connection of the backlog. -/
theorem accepted (h : w.Streams sent received) {client : KSock} {rest : List KSock}
    (backlog : (w.sock k).backlog = client :: rest) {role : Role} {loop : Nat} {fd : Fd} :
    ((w.setSock k { w.sock k with backlog := rest }).install role loop fd client).Streams sent
      received := by
  have waiting : client ∈ (w.sock k).backlog := by simp [backlog]
  obtain ⟨old, -, -, unowned⟩ := h.pending k client waiting
  have listener : k < w.nextSock := by
    by_contra le
    rw [h.fresh k (Nat.le_of_not_lt le)] at backlog
    cases backlog
  have popped := h.setSock listener (s := { w.sock k with backlog := rest }) rfl rfl
    (by rw [backlog]; exact List.sublist_cons_self _ _) (fun est => est)
  refine popped.install old unowned fun s mem => ?_
  by_cases eq : s = k
  · subst eq
    have nodup := h.nodup s
    rw [backlog] at nodup
    exact (List.nodup_cons.mp nodup).1 (by simpa [World.setSock] using mem)
  · exact eq (h.once s k client (by simpa [World.setSock, eq] using mem) waiting)

end Streams

end SwiftEvent.World
