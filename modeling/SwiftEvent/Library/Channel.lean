import Mathlib.Data.List.Infix

/-!
# Channels between two tasks

An unbounded buffer that one task fills and another empties, with the two ways in
which it ends: the producer fails it, or the consumer goes away.  What is in the
buffer at the end can still be received, and after it the failure, once; what is
yielded later is dropped.

`Carries` relates a channel to the history of what was yielded: the consumer has
received a prefix of it.
-/

universe u v

/-- How a channel has ended. -/
inductive Terminal (ε : Type v)
  | finished
  | failed (error : ε)
deriving DecidableEq, Repr

/-- A channel, with what its consumer has got out of it so far. -/
structure Channel (α : Type u) (ε : Type v) where
  pending : List α := []
  terminal : Option (Terminal ε) := none
  received : List α := []
  /-- The error the consumer has caught. -/
  caught : Option ε := none
deriving DecidableEq, Repr

namespace Channel

variable {α : Type u} {ε : Type v} {s s' : Channel α ε} {sent : List α}

def yield (s : Channel α ε) (x : α) : Channel α ε :=
  match s.terminal with
  | none => { s with pending := s.pending ++ [x] }
  | some _ => s

/-- Only the first end counts. -/
def finish (s : Channel α ε) (how : Terminal ε) : Channel α ε :=
  match s.terminal with
  | none => { s with terminal := some how }
  | some _ => s

/-- The next element, or the end; a consumer that finds neither waits. -/
def next (s : Channel α ε) : Option (Channel α ε) :=
  match s.pending, s.terminal with
  | x :: rest, _ => some { s with pending := rest, received := s.received ++ [x] }
  | [], some (.failed error) => some { s with caught := some error }
  | [], some .finished => some s
  | [], none => none

/-- What was received, and what is going to be. -/
def content (s : Channel α ε) : List α := s.received ++ s.pending

@[simp] theorem content_finish (s : Channel α ε) (how : Terminal ε) :
    (s.finish how).content = s.content := by
  rw [finish]
  split <;> rfl

theorem content_next (hs : s.next = some s') : s'.content = s.content := by
  rw [next] at hs
  split at hs
  · next x rest pending =>
      cases hs
      simp [content, pending]
  · cases hs
    rfl
  · cases hs
    rfl
  · cases hs

@[simp] theorem terminal_yield (s : Channel α ε) (x : α) :
    (s.yield x).terminal = s.terminal := by
  rw [yield]
  split <;> rfl

@[simp] theorem terminal_finish (s : Channel α ε) (how : Terminal ε) :
    (s.finish how).terminal = some (s.terminal.getD how) := by
  rw [finish]
  split
  · next opened => rw [opened]; rfl
  · next ended => rw [ended]; rfl

theorem terminal_next (hs : s.next = some s') : s'.terminal = s.terminal := by
  rw [next] at hs
  split at hs
  · cases hs; rfl
  · cases hs; rfl
  · cases hs; rfl
  · cases hs

/-- The consumer gets the beginning of what was sent, in order, and all of it unless it goes away;
it catches only the error with which the channel failed. -/
structure Carries (s : Channel α ε) (sent : List α) : Prop where
  order : s.content <+: sent
  whole : s.terminal ≠ some .finished → s.content = sent
  caught : ∀ error, s.caught = some error → s.terminal = some (.failed error)

namespace Carries

theorem nil : ({} : Channel α ε).Carries [] :=
  ⟨List.prefix_refl _, fun _ => rfl, fun _ caught => nomatch caught⟩

theorem received (h : s.Carries sent) : s.received <+: sent :=
  (List.prefix_append _ _).trans h.order

/-- A producer that has failed the channel yields no more. -/
theorem yield (h : s.Carries sent) (running : ∀ error, s.terminal ≠ some (.failed error)) (x : α) :
    (s.yield x).Carries (sent ++ [x]) := by
  rw [Channel.yield]
  split
  · next opened =>
      have whole : s.received ++ (s.pending ++ [x]) = sent ++ [x] := by
        rw [← List.append_assoc]
        congr 1
        exact h.whole (by rw [opened]; exact Option.some_ne_none _ |>.symm)
      exact ⟨by rw [content, whole], fun _ => whole, h.caught⟩
  · next how ended =>
      cases how with
      | finished =>
          exact ⟨h.order.trans (List.prefix_append _ _), fun live => absurd ended live, h.caught⟩
      | failed error => exact absurd ended (running error)

theorem finish (h : s.Carries sent) (how : Terminal ε) : (s.finish how).Carries sent := by
  refine ⟨?_, ?_, ?_⟩
  · rw [content_finish]
    exact h.order
  · rw [content_finish, terminal_finish]
    intro live
    apply h.whole
    intro ended
    rw [ended] at live
    exact live rfl
  · intro error caught
    have same : (s.finish how).caught = s.caught := by
      rw [Channel.finish]
      split <;> rfl
    rw [terminal_finish, h.caught error (same.symm.trans caught)]
    rfl

theorem next (h : s.Carries sent) (hs : s.next = some s') : s'.Carries sent := by
  refine ⟨?_, ?_, ?_⟩
  · rw [content_next hs]
    exact h.order
  · rw [content_next hs, terminal_next hs]
    exact h.whole
  · intro error caught
    rw [terminal_next hs]
    rw [Channel.next] at hs
    split at hs
    · cases hs
      exact h.caught error caught
    · next ended =>
        cases hs
        cases caught
        exact ended
    · cases hs
      exact h.caught error caught
    · cases hs

end Carries

end Channel
