import SwiftEvent.Process
import SwiftEvent.Library.Run

/-!
# Who owns a descriptor

`close()` gives the number back to the kernel but leaves it in the object, and
`deinit` closes it again.  In between the kernel may hand the number out to
another socket, which the second `close(2)` then takes down.

That is the only way to close someone else's socket: as long as the kernel does
not hand out a number that a live, closed object still carries, every `close(2)`
hits the socket of the object that issued it, or nothing (`closes_own_socket`).
-/

namespace SwiftEvent

namespace World

variable {w w' : World}

/-- The descriptor table and the objects agree. -/
structure Owned (w : World) : Prop where
  /-- An object that was not closed has its own socket behind its number. -/
  mine : ∀ o x, w.obj o = some x → x.closed = false → w.table x.fd = some x.sock
  /-- The number of a closed object is unused. -/
  gone : ∀ o x, w.obj o = some x → x.closed = true → w.table x.fd = none
  /-- No two objects that were not closed carry the same number. -/
  apart : ∀ o o' x x', w.obj o = some x → w.obj o' = some x' → x.closed = false →
    x'.closed = false → x.fd = x'.fd → o = o'
  fresh : ∀ o, w.nextObj ≤ o → w.obj o = none
  closes : ∀ r ∈ w.closes, r.hit = none ∨ r.hit = some r.created

/-- Some live object that was closed still carries the number. -/
def carried (w : World) (fd : Fd) : Bool :=
  (List.range w.nextObj).any fun o => (w.obj o).any fun x => x.closed && x.fd == fd

theorem Owned.lt_nextObj (h : w.Owned) {o : Nat} {x : Obj} (hx : w.obj o = some x) :
    o < w.nextObj := by
  by_contra ge
  rw [h.fresh o (Nat.le_of_not_lt ge)] at hx
  cases hx

theorem Owned.ne_of_not_carried (h : w.Owned) {fd : Fd} (ok : w.carried fd = false) {o : Nat}
    {x : Obj} (hx : w.obj o = some x) (closed : x.closed = true) : x.fd ≠ fd := by
  rintro rfl
  have lt := h.lt_nextObj hx
  have : w.carried x.fd = true := by
    simp only [carried, List.any_eq_true, List.mem_range]
    exact ⟨o, lt, by simp [hx, closed]⟩
  rw [ok] at this
  cases this

theorem Owned.same (h : w.Owned) (same : Same w w') : w'.Owned := by
  constructor
  · rw [same.obj, same.table]; exact h.mine
  · rw [same.obj, same.table]; exact h.gone
  · rw [same.obj]; exact h.apart
  · rw [same.obj, same.nextObj]; exact h.fresh
  · rw [same.closes]; exact h.closes

theorem Owned.install (h : w.Owned) {fd : Fd} (free : w.Free fd) (ok : w.carried fd = false)
    (role : Role) (loop : Nat) (k : KSock) : (w.install role loop fd k).Owned := by
  have ne : ∀ {o x}, w.obj o = some x → x.fd ≠ fd := by
    intro o x hx eq
    cases closed : x.closed with
    | true => exact h.ne_of_not_carried ok hx closed eq
    | false =>
        have := h.mine o x hx closed
        rw [eq, free.2] at this
        cases this
  constructor
  · intro o x hx closed
    simp only [World.install] at hx ⊢
    by_cases eq : o = w.nextObj
    · subst eq
      rw [Function.update_self, Option.some.injEq] at hx
      subst hx
      rw [Function.update_self]
    · rw [Function.update_of_ne eq] at hx
      rw [Function.update_of_ne (ne hx)]
      exact h.mine o x hx closed
  · intro o x hx closed
    simp only [World.install] at hx ⊢
    by_cases eq : o = w.nextObj
    · subst eq
      rw [Function.update_self, Option.some.injEq] at hx
      subst hx
      cases closed
    · rw [Function.update_of_ne eq] at hx
      rw [Function.update_of_ne (ne hx)]
      exact h.gone o x hx closed
  · intro o o' x x' hx hx' closed closed' same
    simp only [World.install] at hx hx'
    by_cases eq : o = w.nextObj <;> by_cases eq' : o' = w.nextObj
    · rw [eq, eq']
    · subst eq
      rw [Function.update_self, Option.some.injEq] at hx
      rw [Function.update_of_ne eq'] at hx'
      subst hx
      exact absurd same.symm (ne hx')
    · subst eq'
      rw [Function.update_self, Option.some.injEq] at hx'
      rw [Function.update_of_ne eq] at hx
      subst hx'
      exact absurd same (ne hx)
    · rw [Function.update_of_ne eq] at hx
      rw [Function.update_of_ne eq'] at hx'
      exact h.apart o o' x x' hx hx' closed closed' same
  · intro o le
    have le : w.nextObj + 1 ≤ o := le
    simp only [World.install]
    rw [Function.update_of_ne (by omega)]
    exact h.fresh o (by omega)
  · exact h.closes

/-- The record of a `close(2)` by an object of an orderly process. -/
theorem Owned.hit (h : w.Owned) {o : Nat} {x : Obj} (hx : w.obj o = some x) :
    w.table x.fd = none ∨ w.table x.fd = some x.sock := by
  cases closed : x.closed with
  | true => exact Or.inl (h.gone o x hx closed)
  | false => exact Or.inr (h.mine o x hx closed)

/-- A `close(2)` by one object touches no other. -/
theorem Owned.other (h : w.Owned) {o o' : Nat} {x x' : Obj} (hx : w.obj o = some x)
    (hx' : w.obj o' = some x') (ne : o' ≠ o) (closed' : x'.closed = false) : x'.fd ≠ x.fd := by
  intro eq
  cases closed : x.closed with
  | true =>
      have := h.mine o' x' hx' closed'
      rw [eq, h.gone o x hx closed] at this
      cases this
  | false => exact ne (h.apart o' o x' x hx' hx closed' closed eq)

theorem Owned.close (h : w.Owned) {o : Nat} (hs : w.close o = some w') : w'.Owned := by
  unfold World.close at hs
  split at hs
  · next x hx =>
      split at hs
      · cases hs
      · cases hs
        constructor
        · intro o' x' hx' closed'
          simp only at hx'
          by_cases eq : o' = o
          · subst eq
            rw [Function.update_self, Option.some.injEq] at hx'
            subst hx'
            cases closed'
          · rw [Function.update_of_ne eq] at hx'
            simp only [closeFd]
            rw [Function.update_of_ne (h.other hx hx' eq closed')]
            exact h.mine o' x' hx' closed'
        · intro o' x' hx' closed'
          simp only at hx'
          by_cases same : x'.fd = x.fd
          · simp only [closeFd, same, Function.update_self]
          · simp only [closeFd]
            rw [Function.update_of_ne same]
            by_cases eq : o' = o
            · subst eq
              rw [Function.update_self, Option.some.injEq] at hx'
              subst hx'
              exact absurd rfl same
            · rw [Function.update_of_ne eq] at hx'
              exact h.gone o' x' hx' closed'
        · intro o₁ o₂ x₁ x₂ h₁ h₂ closed₁ closed₂ same
          simp only at h₁ h₂
          have old : ∀ {o' x'}, Function.update w.obj o (some { x with closed := true }) o' =
              some x' → x'.closed = false → w.obj o' = some x' := by
            intro o' x' hx' closed'
            by_cases eq : o' = o
            · subst eq
              rw [Function.update_self, Option.some.injEq] at hx'
              subst hx'
              cases closed'
            · rwa [Function.update_of_ne eq] at hx'
          exact h.apart o₁ o₂ x₁ x₂ (old h₁ closed₁) (old h₂ closed₂) closed₁ closed₂ same
        · intro o' le
          have none := h.fresh o' le
          simp only
          rw [Function.update_of_ne (by rintro rfl; rw [hx] at none; cases none)]
          exact none
        · intro r mem
          rcases List.mem_cons.mp mem with rfl | mem
          · exact h.hit hx
          · exact h.closes r mem
  · cases hs

theorem Owned.deinit (h : w.Owned) {o : Nat} (hs : w.deinit o = some w') : w'.Owned := by
  unfold World.deinit at hs
  split at hs
  · next x hx =>
      cases hs
      have old : ∀ {o' x'}, Function.update w.obj o none o' = some x' →
          o' ≠ o ∧ w.obj o' = some x' := by
        intro o' x' hx'
        by_cases eq : o' = o
        · subst eq
          rw [Function.update_self] at hx'
          cases hx'
        · exact ⟨eq, by rwa [Function.update_of_ne eq] at hx'⟩
      constructor
      · intro o' x' hx' closed'
        obtain ⟨ne, hx'⟩ := old hx'
        simp only [closeFd]
        rw [Function.update_of_ne (h.other hx hx' ne closed')]
        exact h.mine o' x' hx' closed'
      · intro o' x' hx' closed'
        obtain ⟨ne, hx'⟩ := old hx'
        by_cases same : x'.fd = x.fd
        · simp only [closeFd, same, Function.update_self]
        · simp only [closeFd]
          rw [Function.update_of_ne same]
          exact h.gone o' x' hx' closed'
      · intro o₁ o₂ x₁ x₂ h₁ h₂
        exact h.apart o₁ o₂ x₁ x₂ (old h₁).2 (old h₂).2
      · intro o' le
        by_cases eq : o' = o
        · subst eq; exact Function.update_self ..
        · simp only
          rw [Function.update_of_ne eq]
          exact h.fresh o' le
      · intro r mem
        rcases List.mem_cons.mp mem with rfl | mem
        · exact h.hit hx
        · exact h.closes r mem
  · cases hs

theorem Owned.opens (h : w.Owned) {loop : Nat} {opens : Option Fd} (moves : Opens loop w w' opens)
    (ok : ∀ fd ∈ opens, w.carried fd = false) : w'.Owned := by
  cases moves with
  | same opens same => exact h.same same
  | opened role fd k free unused same => exact (h.install free (ok fd rfl) role loop k).same same
  | flash k table obj nextObj closes =>
      refine ⟨?_, ?_, ?_, ?_, ?_⟩
      · rw [obj, table]; exact h.mine
      · rw [obj, table]; exact h.gone
      · rw [obj]; exact h.apart
      · rw [obj, nextObj]; exact h.fresh
      · rw [closes]
        intro r mem
        rcases List.mem_cons.mp mem with rfl | mem
        · exact Or.inr rfl
        · exact h.closes r mem

/-- **Whatever a step does to the descriptors, they stay in order**, as long as no
number is handed out that a closed object carries. -/
theorem Owned.moves (h : w.Owned) {opens : Option Fd} (moves : Moves w w' opens)
    (ok : ∀ fd ∈ opens, w.carried fd = false) : w'.Owned := by
  cases moves with
  | opens loop opens moves => exact h.opens moves ok
  | closed o hs => exact h.close hs
  | deinit o hs => exact h.deinit hs

end World

namespace Process

variable {p p' : Process}

theorem step_world {a : Act} (h : p.step a = some p') : World.Moves p.world p'.world a.opens := by
  cases a with
  | newLoop l pipeFd =>
      simp only [step] at h
      split at h
      · obtain ⟨c, hc, rfl⟩ := Option.map_eq_some_iff.mp h
        rw [newLoop] at hc
        split at hc
        · next free =>
            cases hc
            exact .opens l _ (.opened .pipe pipeFd _ free (Or.inl rfl)
              (World.same_install_openObj ..))
        · cases hc
      · cases h
  | core l a =>
      obtain ⟨lp, -, h⟩ := Option.bind_eq_some_iff.mp h
      obtain ⟨c, hc, rfl⟩ := Option.map_eq_some_iff.mp h
      exact Core.step_world hc

/-- The kernel does not hand out a number that a live object still carries after
`close()`. -/
def NoReuse (p : Process) (a : Act) : Prop := ∀ fd ∈ a.opens, p.world.carried fd = false

instance (p : Process) (a : Act) : Decidable (p.NoReuse a) :=
  inferInstanceAs (Decidable (∀ fd ∈ a.opens, _))

/-- A server accepts a client on number 5, closes and drops it, and accepts the
next one on the same number. -/
def orderly : List Act :=
  [ .newLoop 0 3, .core 0 (.listen (.ok 4)), .core 0 (.kernel (.incoming 1)),
    .core 0 (.kernel (.incoming 1)), .core 0 (.accept 0 1 {} ⟨0, 0⟩),
    .core 0 (.dispatch [(4, { epollin := true })] ⟨1, 0⟩ []), .core 0 (.callback (.fd 5)),
    .core 0 (.close 2), .core 0 (.deinit 2), .core 0 (.accept 1 1 {} ⟨1, 0⟩),
    .core 0 (.dispatch [(4, { epollin := true })] ⟨2, 0⟩ []), .core 0 (.callback (.fd 5)) ]

/-- The same, but the first client is dropped only after the second one was
accepted. -/
def reused : List Act :=
  [ .newLoop 0 3, .core 0 (.listen (.ok 4)), .core 0 (.kernel (.incoming 1)),
    .core 0 (.kernel (.incoming 1)), .core 0 (.accept 0 1 {} ⟨0, 0⟩),
    .core 0 (.dispatch [(4, { epollin := true })] ⟨1, 0⟩ []), .core 0 (.callback (.fd 5)),
    .core 0 (.close 2), .core 0 (.accept 1 1 {} ⟨1, 0⟩),
    .core 0 (.dispatch [(4, { epollin := true })] ⟨2, 0⟩ []), .core 0 (.callback (.fd 5)),
    .core 0 (.deinit 2) ]

end Process

end SwiftEvent
