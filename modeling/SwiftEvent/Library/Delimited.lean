import Mathlib.Data.List.Basic
import Mathlib.Tactic.Common

/-!
# Segments ended by a delimiter

Words over any alphabet, cut at the leftmost, non-overlapping occurrences of a
delimiter of two letters.

* `find` — where the leftmost occurrence starts.
* `split` — the one-shot cut: the segments ended by a delimiter, and what is left.
* `Cut` — the relation an incremental cutter maintains: some segments have been
  cut off the front of a word.  It survives appending to the word (`Cut.append`),
  since the leftmost occurrence stays where it is (`find_append`), and it agrees
  with the one-shot cut (`Cut.split`).
-/

namespace Delimited

universe u

variable {α : Type u} [DecidableEq α] (a b : α)

/-- The position of the leftmost `a b`. -/
def find : List α → Option Nat
  | [] => none
  | x :: xs => if x = a ∧ xs.head? = some b then some 0 else (find xs).map (· + 1)

/-- The segments ended by a delimiter, and the rest. -/
def split : List α → List (List α) × List α
  | [] => ([], [])
  | [x] => ([], [x])
  | x :: y :: rest =>
      if x = a ∧ y = b then ([] :: (split rest).1, (split rest).2)
      else
        match split (y :: rest) with
        | ([], left) => ([], x :: left)
        | (segment :: segments, left) => ((x :: segment) :: segments, left)

variable {a b} {l m : List α} {i : Nat}

/-- The word around the leftmost occurrence. -/
theorem eq_of_find (h : find a b l = some i) : l = l.take i ++ a :: b :: l.drop (i + 2) := by
  induction l generalizing i with
  | nil => cases h
  | cons x xs ih =>
      rw [find] at h
      split at h
      · next here =>
          obtain rfl := Option.some.inj h
          obtain ⟨rfl, head⟩ := here
          cases xs with
          | nil => cases head
          | cons y ys =>
              obtain rfl := Option.some.inj head
              rfl
      · obtain ⟨j, hj, rfl⟩ := Option.map_eq_some_iff.mp h
        have := ih hj
        simpa using this

/-- **The leftmost occurrence stays where it is** when the word grows. -/
theorem find_append (h : find a b l = some i) (more : List α) :
    find a b (l ++ more) = some i := by
  induction l generalizing i with
  | nil => cases h
  | cons x xs ih =>
      have head : ∀ y, xs.head? = some y → (xs ++ more).head? = some y := by
        intro y hy
        cases xs with
        | nil => cases hy
        | cons z zs => exact hy
      rw [find] at h
      rw [List.cons_append, find]
      split at h
      · next here => rw [if_pos ⟨here.1, head b here.2⟩]; exact h
      · next elsewhere =>
          obtain ⟨j, hj, rfl⟩ := Option.map_eq_some_iff.mp h
          have notHere : ¬ (x = a ∧ (xs ++ more).head? = some b) := by
            rintro ⟨rfl, hb⟩
            cases xs with
            | nil => cases hj
            | cons z zs => exact elsewhere ⟨rfl, hb⟩
          rw [if_neg notHere, ih hj]
          rfl

/-- Without a delimiter nothing is cut off. -/
theorem split_of_find_none (h : find a b l = none) : split a b l = ([], l) := by
  induction l with
  | nil => rfl
  | cons x xs ih =>
      rw [find] at h
      split at h
      · cases h
      · next notHere =>
          cases xs with
          | nil => rfl
          | cons y ys =>
              have rest := ih (Option.map_eq_none_iff.mp h)
              rw [split, if_neg (by simpa using notHere), rest]

/-- The one-shot cut starts at the leftmost occurrence. -/
theorem split_of_find (h : find a b l = some i) :
    split a b l = (l.take i :: (split a b (l.drop (i + 2))).1, (split a b (l.drop (i + 2))).2) := by
  induction l generalizing i with
  | nil => cases h
  | cons x xs ih =>
      rw [find] at h
      cases xs with
      | nil => simp [find] at h
      | cons y ys =>
          split at h
          · next here =>
              obtain rfl := Option.some.inj h
              obtain ⟨rfl, head⟩ := here
              obtain rfl := Option.some.inj head
              rw [split, if_pos ⟨rfl, rfl⟩]
              rfl
          · next elsewhere =>
              obtain ⟨j, hj, rfl⟩ := Option.map_eq_some_iff.mp h
              rw [split, if_neg (by simpa using elsewhere), ih hj]
              rfl

variable (a b) in
/-- The segments have been cut off the front of a word, each at the leftmost
delimiter, and the rest is left. -/
inductive Cut : List (List α) → List α → List α → Prop
  | nil (l : List α) : Cut [] l l
  | cons {segments : List (List α)} {l left : List α} {i : Nat} (h : find a b l = some i)
      (rest : Cut segments (l.drop (i + 2)) left) : Cut (l.take i :: segments) l left

namespace Cut

variable {segments : List (List α)} {left : List α}

/-- The word is spelled by the segments, each with its delimiter, and the rest. -/
theorem spells (h : Cut a b segments l left) :
    l = segments.flatMap (· ++ [a, b]) ++ left := by
  induction h with
  | nil l => rfl
  | @cons segments l left i found rest ih =>
      rw [List.flatMap_cons, List.append_assoc, ← ih]
      simpa using eq_of_find found

/-- **Growing the word grows the rest.** -/
theorem append (h : Cut a b segments l left) (more : List α) :
    Cut a b segments (l ++ more) (left ++ more) := by
  induction h with
  | nil l => exact .nil _
  | @cons segments l left i found rest ih =>
      -- the delimiter lies within the word, so the positions are the same
      have within : i + 2 ≤ l.length := by
        have := congrArg List.length (eq_of_find found)
        simp only [List.length_append, List.length_take, List.length_cons, List.length_drop] at this
        omega
      have take : (l ++ more).take i = l.take i := List.take_append_of_le_length (by omega)
      have drop : (l ++ more).drop (i + 2) = l.drop (i + 2) ++ more :=
        List.drop_append_of_le_length within
      rw [← take]
      exact .cons (find_append found more) (drop ▸ ih)

/-- The next segment is cut off the rest. -/
theorem snoc (h : Cut a b segments l left) (found : find a b left = some i) :
    Cut a b (segments ++ [left.take i]) l (left.drop (i + 2)) := by
  induction h with
  | nil l => exact .cons found (.nil _)
  | cons first rest ih => exact .cons first (ih found)

/-- **The incremental cut agrees with the one-shot cut.** -/
theorem split (h : Cut a b segments l left) :
    split a b l = (segments ++ (split a b left).1, (split a b left).2) := by
  induction h with
  | nil l => rfl
  | cons found rest ih =>
      rw [split_of_find found, ih]
      rfl

end Cut

end Delimited
