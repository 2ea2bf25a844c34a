import Mathlib.Data.List.Nodup
import Mathlib.Logic.Function.Basic

/-!
# Tickets in waiting lines

Any number of waiting lines, in which tickets wait until they leave, each ticket
in one line and once.  `Booked` relates the lines to two histories: the tickets
that have joined a line so far, and those that have left one.  It says that the
tickets that have not left are exactly those that wait.

A ticket may join when it never did before (`Booked.join`), and leave from
anywhere in its line (`Booked.leave`).
-/

namespace Tickets

universe u v

variable {ι : Type u} {τ : Type v}

/-- Each ticket that has joined waits in one line, or has left, once. -/
structure Booked (line : ι → List τ) (joined left : List τ) : Prop where
  joinedOnce : joined.Nodup
  leftOnce : left.Nodup
  waiting : ∀ i x, x ∈ line i → x ∈ joined ∧ x ∉ left
  nodup : ∀ i, (line i).Nodup
  apart : ∀ i j x, x ∈ line i → x ∈ line j → i = j
  gone : ∀ x ∈ left, x ∈ joined
  held : ∀ x ∈ joined, x ∉ left → ∃ i, x ∈ line i

namespace Booked

variable {line : ι → List τ} {joined left : List τ}

theorem nil : Booked (fun _ : ι => ([] : List τ)) [] [] := by
  constructor <;> simp

variable [DecidableEq ι] {i : ι} {x : τ}

/-- **A new ticket joins a line.** -/
theorem join (b : Booked line joined left) (new : x ∉ joined) :
    Booked (Function.update line i (line i ++ [x])) (joined ++ [x]) left := by
  have mem_iff : ∀ j y, y ∈ Function.update line i (line i ++ [x]) j ↔
      y ∈ line j ∨ j = i ∧ y = x := by
    intro j y
    by_cases eq : j = i
    · subst eq
      simp
    · simp [eq]
  have out : ∀ j, x ∉ line j := fun j mem => new (b.waiting j x mem).1
  refine ⟨?_, b.leftOnce, ?_, ?_, ?_, ?_, ?_⟩
  · exact List.nodup_append'.mpr ⟨b.joinedOnce, List.nodup_singleton x,
      List.disjoint_singleton.mpr new⟩
  · intro j y mem
    rw [List.mem_append]
    rcases (mem_iff j y).mp mem with mem | ⟨-, rfl⟩
    · exact ⟨Or.inl (b.waiting j y mem).1, (b.waiting j y mem).2⟩
    · exact ⟨Or.inr (List.mem_singleton_self y), fun mem => new (b.gone y mem)⟩
  · intro j
    by_cases eq : j = i
    · subst eq
      rw [Function.update_self]
      exact List.nodup_append'.mpr ⟨b.nodup j, List.nodup_singleton x,
        List.disjoint_singleton.mpr (out j)⟩
    · rw [Function.update_of_ne eq]
      exact b.nodup j
  · intro j k y mem mem'
    rcases (mem_iff j y).mp mem with old | ⟨eq, new⟩
    · rcases (mem_iff k y).mp mem' with old' | ⟨-, new'⟩
      · exact b.apart j k y old old'
      · exact absurd (new' ▸ old) (out j)
    · rcases (mem_iff k y).mp mem' with old' | ⟨eq', -⟩
      · exact absurd (new ▸ old') (out k)
      · rw [eq, eq']
  · intro y mem
    exact List.mem_append_left _ (b.gone y mem)
  · intro y mem notLeft
    rcases List.mem_append.mp mem with mem | mem
    · obtain ⟨j, mem⟩ := b.held y mem notLeft
      exact ⟨j, (mem_iff j y).mpr (Or.inl mem)⟩
    · exact ⟨i, (mem_iff i y).mpr (Or.inr ⟨rfl, List.mem_singleton.mp mem⟩)⟩

/-- **A ticket leaves its line.** -/
theorem leave (b : Booked line joined left) {before after : List τ}
    (was : line i = before ++ x :: after) :
    Booked (Function.update line i (before ++ after)) joined (left ++ [x]) := by
  have here : x ∈ line i := by
    rw [was]
    exact List.mem_append_right _ List.mem_cons_self
  have nodup := b.nodup i
  rw [was] at nodup
  obtain ⟨-, nodupAfter, apart⟩ := List.nodup_append'.mp nodup
  have notAfter : x ∉ after := (List.nodup_cons.mp nodupAfter).1
  have notBefore : x ∉ before := fun mem => apart mem List.mem_cons_self
  have mem_iff : ∀ j y, y ∈ Function.update line i (before ++ after) j ↔
      y ∈ line j ∧ y ≠ x := by
    intro j y
    by_cases eq : j = i
    · subst eq
      rw [Function.update_self, was]
      simp only [List.mem_append, List.mem_cons]
      constructor
      · rintro (mem | mem)
        · exact ⟨Or.inl mem, fun eq => notBefore (eq ▸ mem)⟩
        · exact ⟨Or.inr (Or.inr mem), fun eq => notAfter (eq ▸ mem)⟩
      · rintro ⟨mem | eq | mem, ne⟩
        · exact Or.inl mem
        · exact absurd eq ne
        · exact Or.inr mem
    · rw [Function.update_of_ne eq]
      refine ⟨fun mem => ⟨mem, ?_⟩, And.left⟩
      rintro rfl
      exact eq (b.apart j i y mem here)
  refine ⟨b.joinedOnce, ?_, ?_, ?_, ?_, ?_, ?_⟩
  · exact List.nodup_append'.mpr ⟨b.leftOnce, List.nodup_singleton x,
      List.disjoint_singleton.mpr (b.waiting i x here).2⟩
  · intro j y mem
    obtain ⟨mem, ne⟩ := (mem_iff j y).mp mem
    rw [List.mem_append, List.mem_singleton, not_or]
    exact ⟨(b.waiting j y mem).1, (b.waiting j y mem).2, ne⟩
  · intro j
    by_cases eq : j = i
    · subst eq
      rw [Function.update_self]
      exact nodup.sublist ((List.sublist_cons_self x after).append_left before)
    · rw [Function.update_of_ne eq]
      exact b.nodup j
  · intro j k y mem mem'
    exact b.apart j k y ((mem_iff j y).mp mem).1 ((mem_iff k y).mp mem').1
  · intro y mem
    rcases List.mem_append.mp mem with mem | mem
    · exact b.gone y mem
    · rw [List.mem_singleton.mp mem]
      exact (b.waiting i x here).1
  · intro y mem notLeft
    rw [List.mem_append, List.mem_singleton, not_or] at notLeft
    obtain ⟨j, mem⟩ := b.held y mem notLeft.1
    exact ⟨j, (mem_iff j y).mpr ⟨mem, notLeft.2⟩⟩

end Booked

end Tickets
